import TaxlienGateway.Model.Response
import TaxlienGateway.Service.Properties
import TaxlienGateway.Service.Queue

/-!
# Submitting results to the Go gateway

`internal/handler/results.go`. The handler of `POST /internal/results` takes the results of a batch
one by one: it stores the parcel, and if that succeeded it completes the task. What `CompleteTask`
answers is ignored. The batch is given up after the eleventh error.

* `submitResults_obeys` — the conduct of the handler. Its rule `SubmitRule` relates each removal to
  the handler's own history: the last insert before it was acknowledged and is the one of a result
  with the task id of the removed payload.
* `submitResults_errors` — the response names an error if and only if an insert has failed.
-/

namespace TaxlienGateway

open Framework Model

/-- `model.SubmitResponse`. -/
structure SubmitResponse where
  inserted : ℕ
  updated : ℕ
  failed : ℕ
  errors : List String
  deriving DecidableEq

/-- The loop over the batch. -/
def submitLoop (workerID : String) :
    List ParcelResult → SubmitResponse → Prog Cmd Reply SubmitResponse
  | [], resp => pure resp
  | res :: results, resp => do
    match ← upsertParcel res workerID with
    | .error e =>
      let resp := { resp with
        failed := resp.failed + 1, errors := resp.errors ++ [res.parcelID ++ ": " ++ e] }
      -- `break` leaves the rest of the batch unprocessed
      if 10 < resp.errors.length then pure resp else submitLoop workerID results resp
    | .ok inserted =>
      let resp := if inserted then { resp with inserted := resp.inserted + 1 }
        else { resp with updated := resp.updated + 1 }
      -- its answer is not looked at
      let _ ← completeTask workerID res.taskID
      submitLoop workerID results resp

/-- `ResultsHandler.SubmitResults`, once the body is decoded. -/
def submitResults (workerID : String) (results : List ParcelResult) :
    Prog Cmd Reply SubmitResponse :=
  submitLoop workerID results ⟨0, 0, 0, []⟩

/-- The body of the response. `Errors` is nil until the first append. -/
def SubmitResponse.body (resp : SubmitResponse) : String :=
  encode (.obj [("inserted", .num (.ofInt resp.inserted)), ("updated", .num (.ofInt resp.updated)),
    ("failed", .num (.ofInt resp.failed)), ("errors", marshalSlice (resp.errors.map Json.str))])

/-! ### Conduct -/

/-- The last insert of the history was acknowledged, and it was the one of `r`: after it come only
the commands of `CompleteTask`. -/
def LastInsert (r : ParcelResult) (workerID : String) (h : List (Op Cmd Reply)) : Prop :=
  ∃ h₁ h₂, h = h₁ ++ ⟨insertResult r workerID, .ok ()⟩ :: h₂ ∧
    ∀ op ∈ h₂, CompleteRule workerID r.taskID op.1

/-- What the handler may do after the history `h`. A removal needs an acknowledged insert. -/
def SubmitRule (workerID : String) (results : List ParcelResult) (h : List (Op Cmd Reply))
    (c : Cmd) : Prop :=
  ∃ r ∈ results,
    UpsertRule r workerID c ∨ CompleteRule workerID r.taskID c ∧ LastInsert r workerID h

theorem lastInsert_of_endsWithInsert {r : ParcelResult} {workerID : String}
    {h : List (Op Cmd Reply)} (hh : EndsWithInsert r workerID h) : LastInsert r workerID h := by
  obtain ⟨h', rfl⟩ := hh
  exact ⟨h', [], rfl, by simp⟩

theorem LastInsert.append {r : ParcelResult} {workerID : String} {h : List (Op Cmd Reply)}
    (hh : LastInsert r workerID h) {c : Cmd} (hc : CompleteRule workerID r.taskID c)
    (a : Except String (Reply c)) : LastInsert r workerID (h ++ [⟨c, a⟩]) := by
  obtain ⟨h₁, h₂, rfl, hrest⟩ := hh
  refine ⟨h₁, h₂ ++ [⟨c, a⟩], by simp, fun op hop => ?_⟩
  rcases List.mem_append.mp hop with hop | hop
  · exact hrest op hop
  · obtain rfl := List.mem_singleton.mp hop
    exact hc

/-- **The conduct of `SubmitResults`.** -/
theorem submitResults_obeys (workerID : String) (results : List ParcelResult) :
    (submitResults workerID results).Obeys (SubmitRule workerID results) (fun _ _ => True) [] := by
  have loop : ∀ (rs : List ParcelResult) (resp : SubmitResponse), (∀ r ∈ rs, r ∈ results) →
      ∀ h, (submitLoop workerID rs resp).Obeys (SubmitRule workerID results)
        (fun _ _ => True) h := by
    intro rs
    induction rs with
    | nil => exact fun _ _ _ => trivial
    | cons res rs ih =>
      intro resp hrs h
      have hres : res ∈ results := hrs _ List.mem_cons_self
      have hrest : ∀ r ∈ rs, r ∈ results := fun r hr => hrs r (List.mem_cons_of_mem _ hr)
      unfold submitLoop
      refine (upsertParcel_obeys fun _ _ hc => ⟨res, hres, .inl hc⟩).bind ?_
      intro h a hins
      cases a with
      | error e =>
        change (if _ then _ else _ : Prog Cmd Reply SubmitResponse).Obeys _ _ _
        split
        · trivial
        · exact ih _ hrest h
      | ok inserted =>
        -- from the acknowledged insert on, `LastInsert` carries through the removal
        refine (completeTask_obeys (Q := LastInsert res workerID)
          (fun _ _ hh hc => ⟨res, hres, .inr ⟨hc, hh⟩⟩) (fun _ _ a hh hc => hh.append hc a)
          (lastInsert_of_endsWithInsert (hins inserted rfl))).bind ?_
        intro h _ _
        exact ih _ hrest h
  exact loop results _ (fun _ hr => hr) []

/-! ### Errors -/

/-- The command is an insert that was not acknowledged. -/
def IsFailedInsert : Op Cmd Reply → Prop
  | ⟨.insertParcel .., .error _⟩ => True
  | _ => False

/-- Some insert has failed. -/
def SomeInsertFailed (h : List (Op Cmd Reply)) : Prop := ∃ op ∈ h, IsFailedInsert op

theorem someInsertFailed_append_singleton {h : List (Op Cmd Reply)} {op : Op Cmd Reply} :
    SomeInsertFailed (h ++ [op]) ↔ SomeInsertFailed h ∨ IsFailedInsert op := by
  simp [SomeInsertFailed, or_and_right, exists_or]

/-- The commands of `CompleteTask` are no inserts. -/
theorem CompleteRule.not_isFailedInsert {workerID taskID : String} {c : Cmd}
    (hc : CompleteRule workerID taskID c) (r : Except String (Reply c)) : ¬ IsFailedInsert ⟨c, r⟩ := by
  obtain rfl | ⟨raw, t, rfl, -, -⟩ := hc
  · exact id
  · exact id

/-- `UpsertParcel` returns the error of its insert, and no other. -/
theorem upsertParcel_errors (r : ParcelResult) (workerID : String) (h : List (Op Cmd Reply)) :
    (upsertParcel r workerID).Obeys (fun _ _ => True)
      (fun h' a => SomeInsertFailed h' ↔ SomeInsertFailed h ∨ ∃ e, a = .error e) h := by
  refine ⟨trivial, fun existed => ⟨trivial, fun reply => ?_⟩⟩
  have hexists : SomeInsertFailed (h ++ [⟨.selectExists (parcelKey r), existed⟩]) ↔
      SomeInsertFailed h := by
    rw [someInsertFailed_append_singleton]
    exact or_iff_left id
  match reply with
  | .error e =>
    show SomeInsertFailed (_ ++ [_]) ↔ _
    rw [someInsertFailed_append_singleton]
    exact ⟨fun _ => .inr ⟨e, rfl⟩, fun _ => .inr trivial⟩
  | .ok () =>
    show SomeInsertFailed (_ ++ [_]) ↔ _
    rw [someInsertFailed_append_singleton, hexists]
    exact ⟨fun hfailed => .inl (hfailed.resolve_right id),
      fun hfailed => .inl (hfailed.resolve_right (by simp))⟩

/-- **The errors of the response**, whatever is answered. -/
theorem submitResults_errors (workerID : String) (results : List ParcelResult) :
    (submitResults workerID results).Obeys (fun _ _ => True)
      (fun h resp => resp.errors ≠ [] ↔ SomeInsertFailed h) [] := by
  have loop : ∀ (rs : List ParcelResult) (resp : SubmitResponse) (h : List (Op Cmd Reply)),
      (resp.errors ≠ [] ↔ SomeInsertFailed h) →
      (submitLoop workerID rs resp).Obeys (fun _ _ => True)
        (fun h resp => resp.errors ≠ [] ↔ SomeInsertFailed h) h := by
    intro rs
    induction rs with
    | nil => exact fun _ _ hresp => hresp
    | cons res rs ih =>
      intro resp h hresp
      unfold submitLoop
      refine (upsertParcel_errors res workerID h).bind ?_
      intro h' a ha
      cases a with
      | error e =>
        have hnow : resp.errors ++ [res.parcelID ++ ": " ++ e] ≠ [] ↔ SomeInsertFailed h' :=
          ⟨fun _ => ha.mpr (.inr ⟨e, rfl⟩), fun _ => by simp⟩
        change (if _ then _ else _ : Prog Cmd Reply SubmitResponse).Obeys _ _ _
        split
        · exact hnow
        · exact ih _ h' hnow
      | ok inserted =>
        have hsame : SomeInsertFailed h' ↔ SomeInsertFailed h :=
          ha.trans (or_iff_left (by simp))
        -- what `CompleteTask` does changes nothing
        refine (completeTask_obeys (Q := fun h'' => SomeInsertFailed h'' ↔ SomeInsertFailed h)
          (fun _ _ _ _ => trivial) (fun h'' c r hh hc => ?_) hsame).bind ?_
        · rw [someInsertFailed_append_singleton, or_iff_left (hc.not_isFailedInsert r)]
          exact hh
        · intro h'' _ hh
          refine ih _ h'' ?_
          rw [hh, ← hresp]
          cases inserted <;> rfl
  refine loop results _ [] ⟨fun h => absurd rfl h, ?_⟩
  rintro ⟨op, hop, -⟩
  exact absurd hop (by simp)

end TaxlienGateway
