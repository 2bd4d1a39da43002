import TaxlienGateway.Framework.UpsertLog
import TaxlienGateway.WorkerApi.Conservation

/-!
# The parcels table over runs of the worker API

Results reach the table through `SubmitResults` only, and `UpsertParcel` writes them one at a time. So the
table after a run is the one before it with the executed inserts replayed (`table_of_run`), whatever the calls
that issued them went on to do.

* `row_of_run` — the row of a parcel holds the values of the last insert that was executed for it; its `id` and
  `created_at` are those it had before, or those that the first insert for it drew;
* `table_integrity` — ids stay unique, no row loses its `id` or `created_at`, and what the table did not hold
  before has been submitted, by the worker that the row names.
-/

namespace TaxlienGateway

open Framework Model

/-- The worker API on a given parcels table. -/
def workerApiOn (t₀ : Parcels) : System (Pool Cmd Reply Call Ret Store) (Event Cmd Reply Call Ret) :=
  pool server body fun s => s.redis = .empty ∧ s.parcels = t₀

/-- What an insert writes beside the key. -/
structure Written where
  data : Json
  scrapedAt : ℤ
  workerID : String

/-- The parts of a row: its identity, and what was written last. -/
def ParcelRow.parts (row : ParcelRow) : (ℕ × ℕ) × Written :=
  ((row.id, row.createdAt), ⟨row.data, row.scrapedAt, row.workerID⟩)

/-- The row of an identity and what was written. -/
def ParcelRow.ofParts (parts : (ℕ × ℕ) × Written) : ParcelRow :=
  ⟨parts.1.1, parts.2.data, parts.2.scrapedAt, parts.2.workerID, parts.1.2⟩

theorem ParcelRow.parts_injective : Function.Injective ParcelRow.parts :=
  Function.LeftInverse.injective (g := ParcelRow.ofParts) fun _ => rfl

/-- The insert of an executed command. -/
def insert? (a : Step) : Option (ParcelKey × Written) :=
  match a.cmd with
  | .insertParcel key data scrapedAt workerID => some (key, ⟨data, scrapedAt, workerID⟩)
  | _ => none

/-- The inserts that a history executed, in order. -/
abbrev inserts (es : List (Event Cmd Reply Call Ret)) : List (ParcelKey × Written) :=
  (applied es).filterMap insert?

/-- The identity that the `n`-th insert draws: the next value of the sequence, and the time of the statement.
Only executed inserts are counted, so this is exact as long as those that the database refuses draw no id. -/
def Parcels.ident (t₀ : Parcels) (n : ℕ) : ℕ × ℕ := (t₀.nextID + n, t₀.now + n)

/-- The rows, taken apart. -/
abbrev Parcels.parts (t : Parcels) (key : ParcelKey) : Option ((ℕ × ℕ) × Written) :=
  (t.rows key).map ParcelRow.parts

theorem Parcels.parts_eq_some_iff {t : Parcels} {key : ParcelKey} {parts : (ℕ × ℕ) × Written} :
    t.parts key = some parts ↔ t.rows key = some (.ofParts parts) := by
  rw [Option.map_eq_some_iff]
  constructor
  · rintro ⟨row, hrow, rfl⟩
    exact hrow
  · exact fun h => ⟨_, h, rfl⟩

theorem Parcels.parts_upsert (t : Parcels) (key : ParcelKey) (w : Written) :
    (t.upsert key w.data w.scrapedAt w.workerID).parts =
      upsertRow t.parts (t.nextID, t.now) key w := by
  funext key'
  by_cases hkey : key' = key
  · subst hkey
    rw [upsertRow_self]
    simp only [Parcels.parts, Parcels.upsert, Function.update_self]
    cases t.rows key' <;> rfl
  · rw [upsertRow_of_ne _ _ hkey]
    simp only [Parcels.parts, Parcels.upsert, Function.update_of_ne hkey]

variable {t₀ : Parcels} {es : List (Event Cmd Reply Call Ret)} {p : Pool Cmd Reply Call Ret Store}

theorem inserts_append (hist : List Step) (a : Step) :
    (hist ++ [a]).filterMap insert? = hist.filterMap insert? ++ (insert? a).toList := by
  rw [List.filterMap_append]
  cases h : insert? a <;> simp [h]

/-- **The table of a run** is the one before it with the executed inserts replayed. -/
theorem table_of_run (hr : (workerApiOn t₀).Run es p) :
    p.store.parcels.parts = replay t₀.parts t₀.ident (inserts es) ∧
      p.store.parcels.nextID = t₀.nextID + (inserts es).length ∧
      p.store.parcels.now = t₀.now + (inserts es).length := by
  let I (hist : List Step) (s : Store) : Prop :=
    s.parcels.parts = replay t₀.parts t₀.ident (hist.filterMap insert?) ∧
      s.parcels.nextID = t₀.nextID + (hist.filterMap insert?).length ∧
      s.parcels.now = t₀.now + (hist.filterMap insert?).length
  refine body_obeys.applied_invariant (I := I) ?_ ?_ hr
  · rintro s ⟨-, rfl⟩
    exact ⟨rfl, rfl, rfl⟩
  · rintro hist s call own c s' r ⟨hrows, hid, hnow⟩ - hx
    show _ ∧ _ ∧ _
    rw [inserts_append]
    cases c with
    | insertParcel key data scrapedAt workerID =>
      obtain ⟨-, hparcels⟩ := exec_insertParcel hx
      have hinsert : (insert? ⟨call, .insertParcel key data scrapedAt workerID, r⟩).toList =
          [(key, (⟨data, scrapedAt, workerID⟩ : Written))] := rfl
      rw [hparcels, hinsert, replay_append_singleton, ← hrows, List.length_append]
      refine ⟨?_, congrArg (· + 1) hid, congrArg (· + 1) hnow⟩
      rw [Parcels.ident, ← hid, ← hnow]
      exact Parcels.parts_upsert s.parcels key ⟨data, scrapedAt, workerID⟩
    | _ =>
      -- no other command touches the table
      obtain ⟨rfl, -⟩ := Prod.mk.inj hx
      rw [show (insert? _).toList = [] from rfl, List.append_nil]
      exact ⟨hrows, hid, hnow⟩

/-- **The row of a parcel**, after any run: the values of the last executed insert for it, and the identity that it
had before or that the first one drew. Where refused inserts draw from the sequence, that identity is a later
value of it. -/
theorem row_of_run (t₀ : Parcels) (es : List (Event Cmd Reply Call Ret)) (p : Pool Cmd Reply Call Ret Store)
    (hr : (workerApiOn t₀).Run es p) (key : ParcelKey) :
    p.store.parcels.rows key =
      match lastWrite key (inserts es), t₀.rows key with
      | none, row => row
      | some w, some row => some ⟨row.id, w.data, w.scrapedAt, w.workerID, row.createdAt⟩
      | some w, none => some ⟨t₀.nextID + firstWrite key (inserts es), w.data, w.scrapedAt, w.workerID,
          t₀.now + firstWrite key (inserts es)⟩ := by
  have hparts := congrFun (table_of_run hr).1 key
  rw [replay_eq] at hparts
  cases hlast : lastWrite key (inserts es) with
  | none =>
    rw [hlast, Option.elim_none] at hparts
    exact Option.map_injective ParcelRow.parts_injective hparts
  | some w =>
    rw [hlast, Option.elim_some, Parcels.parts_eq_some_iff] at hparts
    rw [hparts]
    cases hrow : t₀.rows key with
    | none => simp [Parcels.parts, hrow, ParcelRow.ofParts, Parcels.ident]
    | some row => simp [Parcels.parts, hrow, ParcelRow.ofParts, ParcelRow.parts]

/-! ### Integrity -/

/-- The ids of the rows are different, and the sequence is past them. -/
structure Parcels.Sound (t : Parcels) : Prop where
  unique : ∀ key key' row row', t.rows key = some row → t.rows key' = some row' → row.id = row'.id → key = key'
  drawn : ∀ key row, t.rows key = some row → row.id < t.nextID

/-- A row holds a result that its worker has submitted. -/
def Submitted (es : List (Event Cmd Reply Call Ret)) (key : ParcelKey) (row : ParcelRow) : Prop :=
  ∃ i results, ∃ r ∈ results, .start i (.submitResults row.workerID results) ∈ es ∧ parcelKey r = key ∧
    r.data = row.data ∧ r.scrapedAt = row.scrapedAt

/-- Where the table was before does not matter for what the calls do. -/
theorem workerApi_of_on (hr : (workerApiOn t₀).Run es p) : workerApi.Run es p := by
  induction hr with
  | init h => exact .init ⟨h.1.1, h.2⟩
  | step hr hs ih => exact ih.step hs

/-- **What is written has been submitted.** -/
theorem submitted_of_mem_inserts (hr : (workerApiOn t₀).Run es p) {key : ParcelKey} {w : Written}
    (h : (key, w) ∈ inserts es) : ∃ i results, ∃ r ∈ results,
      .start i (.submitResults w.workerID results) ∈ es ∧ parcelKey r = key ∧ r.data = w.data ∧
        r.scrapedAt = w.scrapedAt := by
  obtain ⟨a, ha, hinsert⟩ := List.mem_filterMap.mp h
  obtain ⟨call, c, reply⟩ := a
  have hapi := workerApi_of_on hr
  have hall := allowed_of_applied hapi ha
  cases hall with
  | @insert workerID results r hres =>
    obtain ⟨rfl, rfl⟩ := Prod.mk.inj (Option.some.inj hinsert)
    obtain ⟨i, hstart⟩ := start_mem_of_applied hapi ha
    exact ⟨i, results, r, hres, hstart, rfl, rfl, rfl⟩
  | _ => exact absurd hinsert (by simp [insert?])

theorem Parcels.Sound.of_run (h : t₀.Sound) (hr : (workerApiOn t₀).Run es p) : p.store.parcels.Sound := by
  obtain ⟨hparts, hnext, -⟩ := table_of_run hr
  have hrow : ∀ {key row}, p.store.parcels.rows key = some row →
      replay t₀.parts t₀.ident (inserts es) key = some row.parts := fun {key row} hrow => by
    rw [← hparts, Parcels.parts, hrow, Option.map_some]
  constructor
  · intro key key' row row' hkey hkey' hid
    refine replay_identity_inj (f := Prod.fst) ?_ ?_ ?_ (hrow hkey) (hrow hkey') hid
    · intro k k' r r' hr hr' hid
      exact h.unique k k' _ _ (Parcels.parts_eq_some_iff.mp hr) (Parcels.parts_eq_some_iff.mp hr') hid
    · exact fun n m hnm => Nat.add_left_cancel hnm
    · intro k r n hr
      have hlt := h.drawn k _ (Parcels.parts_eq_some_iff.mp hr)
      exact (hlt.trans_le (Nat.le_add_right _ _)).ne
  · intro key row hkey
    rw [hnext]
    rcases identity_of_replay (hrow hkey) with ⟨v, hold⟩ | ⟨-, hlt, hdrawn⟩
    · exact (h.drawn key _ (Parcels.parts_eq_some_iff.mp hold)).trans_le (Nat.le_add_right _ _)
    · have hid : row.id = t₀.nextID + firstWrite key (inserts es) := congrArg Prod.fst hdrawn
      rw [hid]
      exact Nat.add_lt_add_left hlt _

/-- **Integrity.** From a sound table: ids stay unique; a row that a run has reached is still there after the
rest of it, with its `id` and `created_at`; and a row that differs from the one before the run holds a result
submitted during the run by the worker it names. -/
theorem table_integrity (t₀ : Parcels) (hsound : t₀.Sound) (pre post : List (Event Cmd Reply Call Ret))
    (p₁ p : Pool Cmd Reply Call Ret Store) (hpre : (workerApiOn t₀).Run pre p₁)
    (hr : (workerApiOn t₀).Run (pre ++ post) p) :
    p.store.parcels.Sound ∧
      (∀ key row, p₁.store.parcels.rows key = some row → ∃ row', p.store.parcels.rows key = some row' ∧
        row'.id = row.id ∧ row'.createdAt = row.createdAt) ∧
      ∀ key row, p.store.parcels.rows key = some row →
        t₀.rows key = some row ∨ Submitted (pre ++ post) key row := by
  refine ⟨hsound.of_run hr, ?_, ?_⟩
  · intro key row hrow
    have hreplay : replay t₀.parts t₀.ident (inserts pre) key = some row.parts := by
      rw [← (table_of_run hpre).1, Parcels.parts, hrow, Option.map_some]
    obtain ⟨w, hw⟩ := replay_append_identity hreplay (inserts post)
    have hall : inserts (pre ++ post) = inserts pre ++ inserts post := by
      simp only [inserts, applied, List.filterMap_append]
    rw [← hall, ← (table_of_run hr).1, Parcels.parts_eq_some_iff] at hw
    exact ⟨_, hw, rfl, rfl⟩
  · intro key row hrow
    have hreplay := congrFun (table_of_run hr).1 key
    rw [Parcels.parts, hrow, Option.map_some, replay_eq] at hreplay
    cases hlast : lastWrite key (inserts (pre ++ post)) with
    | none =>
      rw [hlast, Option.elim_none] at hreplay
      exact .inl (Parcels.parts_eq_some_iff.mp hreplay.symm)
    | some w =>
      rw [hlast, Option.elim_some] at hreplay
      obtain rfl : (row.parts).2 = w := congrArg Prod.snd (Option.some.inj hreplay)
      exact .inr (submitted_of_mem_inserts hr (mem_of_lastWrite hlast))

/-! ### A parcel that is reported twice -/

/-- Two results for a parcel, by different workers. -/
def reportedTwice : List Call :=
  [.submitResults "w1" [sampleResult], .submitResults "w2" [{ sampleResult with scrapedAt := 60 }]]

theorem run_reportedTwice : (workerApiOn Store.blank.parcels).Run
    (sessionEvents server body reportedTwice .blank)
    ⟨sessionStore server body reportedTwice .blank, fun _ => none⟩ :=
  run_session _ ⟨rfl, rfl⟩

/-- The row has the first id, and the values of the second worker. -/
theorem row_of_run_reportedTwice :
    ((sessionStore server body reportedTwice .blank).parcels.rows (parcelKey sampleResult)).map
      (fun row => (row.id, row.createdAt, row.scrapedAt, row.workerID)) = some (1, 0, 60, "w2") := by
  have hrow := row_of_run _ _ _ run_reportedTwice (parcelKey sampleResult)
  rw [hrow]
  decide +kernel

theorem table_integrity_reportedTwice :
    (sessionStore server body reportedTwice .blank).parcels.Sound := by
  have hblank : Store.blank.parcels.Sound :=
    ⟨fun _ _ _ _ h => absurd h (by simp [Store.blank]), fun _ _ h => absurd h (by simp [Store.blank])⟩
  exact (table_integrity _ hblank [] _ ⟨.blank, fun _ => none⟩ _ (.init ⟨⟨rfl, rfl⟩, rfl⟩) run_reportedTwice).1

end TaxlienGateway
