import TaxlienGateway.Model.Task
import TaxlienGateway.Service.Store

/-!
# Parcel persistence in the Go gateway

`internal/service/properties.go`. `upsertParcel` looks whether the parcel exists and then inserts or
updates it, in two statements. An error of the first statement is ignored; the second decides
whether the call succeeds.

The data of a result was decoded from JSON, so `json.Marshal` writes it back without an error, and
the branch for that error does not appear.

* `upsertParcel_obeys` — its conduct: it reads and writes the row of its result only, and if it
  succeeds then its last command was the insert, acknowledged by the database.
-/

namespace TaxlienGateway

open Framework Model

/-- The row a result is stored in. -/
def parcelKey (r : ParcelResult) : ParcelKey := ⟨r.parcelID, r.platform, r.state, r.county⟩

/-- `INSERT INTO parcels ... ON CONFLICT ...` for a result of a worker. -/
abbrev insertResult (r : ParcelResult) (workerID : String) : Cmd :=
  .insertParcel (parcelKey r) r.data r.scrapedAt workerID

/-- `Properties.UpsertParcel`: true if inserted. -/
def upsertParcel (r : ParcelResult) (workerID : String) :
    Prog Cmd Reply (Except String Bool) := do
  -- `var existed bool` keeps its zero value if the query fails
  let existed := match ← queryExists (parcelKey r) with
    | .ok existed => existed
    | .error _ => false
  match ← execInsert (parcelKey r) r.data r.scrapedAt workerID with
  | .error e => pure (.error e)
  | .ok () => pure (.ok !existed)

/-- What `UpsertParcel` may do. -/
def UpsertRule (r : ParcelResult) (workerID : String) (c : Cmd) : Prop :=
  c = .selectExists (parcelKey r) ∨ c = insertResult r workerID

/-- The history ends with an acknowledged insert of the result. -/
def EndsWithInsert (r : ParcelResult) (workerID : String) (h : List (Op Cmd Reply)) : Prop :=
  ∃ h', h = h' ++ [⟨insertResult r workerID, .ok ()⟩]

/-- **The conduct of `UpsertParcel`.** Success means that the insert was the last command and has
been acknowledged. -/
theorem upsertParcel_obeys {G : List (Op Cmd Reply) → Cmd → Prop} {h : List (Op Cmd Reply)}
    {r : ParcelResult} {workerID : String} (hG : ∀ h c, UpsertRule r workerID c → G h c) :
    (upsertParcel r workerID).Obeys G
      (fun h a => ∀ b, a = .ok b → EndsWithInsert r workerID h) h := by
  refine ⟨hG _ _ (.inl rfl), fun existed => ⟨hG _ _ (.inr rfl), fun reply => ?_⟩⟩
  -- whatever the first statement answered, the second one decides
  match reply with
  | .error e =>
    intro b hb
    exact absurd hb (by simp)
  | .ok () =>
    intro _ _
    exact ⟨_, rfl⟩

end TaxlienGateway
