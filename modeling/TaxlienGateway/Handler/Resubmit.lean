import TaxlienGateway.Handler.BatchRun

/-!
# A batch that is submitted twice

A worker that got no answer submits its batch again. If `SELECT EXISTS` answers and whether an upsert is
refused depends on the result alone (`refusing`), the first pass leaves for every key the last result that it
stored (`lastStored`), and the row of a key that was there keeps its id and its creation time (`LeftBy`).
A second pass gives up at the same result, stores the same results again and finds all of their keys, so that
it changes no row and reports every result it stores as updated.

* `rows_storeAll` — the table after a list of upserts: the last writer wins;
* `foldl_turn` — what a pass does to the table and to the response;
* `resubmit_idempotent` — the second pass changes nothing.
-/

namespace TaxlienGateway

open Framework Model

/-! ### The last writer wins -/

/-- The upsert of a result. -/
def storeResult (workerID : String) (p : Parcels) (r : ParcelResult) : Parcels :=
  p.upsert (parcelKey r) r.data r.scrapedAt workerID

def storeAll (workerID : String) (stored : List ParcelResult) (p : Parcels) : Parcels :=
  stored.foldl (storeResult workerID) p

/-- The last result with a key. -/
def lastFor (key : ParcelKey) (stored : List ParcelResult) : Option ParcelResult :=
  (stored.filter fun r => parcelKey r = key).getLast?

/-- What is left of the row `old` of a key whose last result is given: a row of that result, under the id and
the creation time of the old one, or the old row itself if there is no result. -/
def LeftBy (workerID : String) (old new : Option ParcelRow) : Option ParcelResult → Prop
  | none => new = old
  | some r => ∃ row, new = some row ∧ row.data = r.data ∧ row.scrapedAt = r.scrapedAt ∧
      row.workerID = workerID ∧ ∀ row', old = some row' → row.id = row'.id ∧ row.createdAt = row'.createdAt

section Rows

variable {workerID : String} {old new new' : Option ParcelRow} {last : Option ParcelResult}

/-- A row that was there is still there. -/
theorem LeftBy.kept (hleft : LeftBy workerID old new last) {row : ParcelRow} (hold : old = some row) :
    ∃ row', new = some row' ∧ row'.id = row.id ∧ row'.createdAt = row.createdAt := by
  cases last with
  | none => exact ⟨row, hleft.trans hold, rfl, rfl⟩
  | some r =>
    obtain ⟨row', hnew, -, -, -, hkept⟩ := hleft
    exact ⟨row', hnew, hkept row hold⟩

/-- Left by the same result twice, a row is the same. -/
theorem LeftBy.again (hfirst : LeftBy workerID old new last) (hsecond : LeftBy workerID new new' last) :
    new' = new := by
  cases last with
  | none => exact hsecond
  | some r =>
    -- the second row has the columns of the result too, and the rest from the first one
    obtain ⟨row, rfl, hdata, hscraped, hworker, -⟩ := hfirst
    obtain ⟨row', rfl, hdata', hscraped', hworker', hkept⟩ := hsecond
    obtain ⟨hid, hcreated⟩ := hkept row rfl
    cases row
    cases row'
    rw [Option.some.injEq, ParcelRow.mk.injEq]
    exact ⟨hid, hdata'.trans hdata.symm, hscraped'.trans hscraped.symm, hworker'.trans hworker.symm, hcreated⟩

/-- **The table after a list of upserts.** -/
theorem rows_storeAll (workerID : String) (stored : List ParcelResult) (p : Parcels) (key : ParcelKey) :
    LeftBy workerID (p.rows key) ((storeAll workerID stored p).rows key) (lastFor key stored) := by
  induction stored using List.reverseRecOn with
  | nil => exact rfl
  | append_singleton stored r ih =>
    have hstep : storeAll workerID (stored ++ [r]) p =
        (storeAll workerID stored p).upsert (parcelKey r) r.data r.scrapedAt workerID :=
      List.foldl_append
    rw [hstep, lastFor, List.filter_append]
    by_cases hkey : parcelKey r = key
    · subst hkey
      have hlast : ([r].filter fun r' => parcelKey r' = parcelKey r) = [r] :=
        List.filter_eq_self.mpr (by simp)
      rw [hlast, List.getLast?_concat, Parcels.upsert]
      dsimp only
      rw [Function.update_self]
      refine ⟨_, rfl, ?_⟩
      -- a row that is there gives its id to the new one; a row that was there before is there
      cases hrow : (storeAll workerID stored p).rows (parcelKey r) with
      | none =>
        refine ⟨rfl, rfl, rfl, fun row' hold => ?_⟩
        obtain ⟨row, hnew, -⟩ := ih.kept hold
        exact absurd (hrow.symm.trans hnew) (by simp)
      | some row =>
        refine ⟨rfl, rfl, rfl, fun row' hold => ?_⟩
        obtain ⟨row₁, hnew, hkept⟩ := ih.kept hold
        obtain rfl : row = row₁ := Option.some.inj (hrow.symm.trans hnew)
        exact hkept
    · have hlast : ([r].filter fun r' => parcelKey r' = key) = [] :=
        List.filter_eq_nil_iff.mpr (by simpa using hkey)
      rw [hlast, List.append_nil, Parcels.upsert]
      dsimp only
      rw [Function.update_of_ne (Ne.symm hkey)]
      exact ih

/-- The keys that are stored have rows. -/
theorem isSome_rows_storeAll {stored : List ParcelResult} (p : Parcels) {r : ParcelResult}
    (hr : r ∈ stored) : ((storeAll workerID stored p).rows (parcelKey r)).isSome := by
  have hleft := rows_storeAll workerID stored p (parcelKey r)
  cases hlast : lastFor (parcelKey r) stored with
  | none =>
    have hnil : (stored.filter fun r' => parcelKey r' = parcelKey r) = [] :=
      List.getLast?_eq_none_iff.mp hlast
    exact absurd (decide_eq_true rfl) (List.filter_eq_nil_iff.mp hnil r hr)
  | some last =>
    rw [hlast] at hleft
    obtain ⟨row, hrow, -⟩ := hleft
    rw [hrow]
    rfl

end Rows

/-! ### One pass -/

section Pass

variable (reject : ParcelResult → Option String)

/-- Faults under which an upsert is refused for what the result is. What happens to the commands of
`CompleteTask` is open. -/
def refusing (results : List ParcelResult) (redis : ℕ → Option Fault × Option Fault) (k : ℕ) : StepFaults :=
  ⟨none, (results[k]?.bind reject).map .failed, (redis k).1, (redis k).2⟩

/-- The same, for one result. -/
def Refuses (t : ParcelResult × StepFaults) : Prop :=
  t.2.select = none ∧ t.2.insert = (reject t.1).map .failed

/-- The results that are taken before the batch is given up. -/
def processed : ℕ → List ParcelResult → List ParcelResult
  | _, [] => []
  | errors, r :: results =>
    r :: if (reject r).isNone then processed errors results
      else if 10 < errors + 1 then []
      else processed (errors + 1) results

/-- The results that a batch stores. -/
def storedResults (results : List ParcelResult) : List ParcelResult :=
  (processed reject 0 results).filter fun r => (reject r).isNone

/-- The errors of the results that are refused. -/
def refusals (results : List ParcelResult) : List String :=
  results.filterMap fun r => (reject r).map fun e => r.parcelID ++ ": " ++ e

theorem refusals_cons (r : ParcelResult) (results : List ParcelResult) :
    refusals reject (r :: results) =
      ((reject r).map fun e => r.parcelID ++ ": " ++ e).toList ++ refusals reject results := by
  unfold refusals
  rw [List.filterMap_cons]
  cases reject r <;> rfl

variable {reject}

theorem map_taken {faults : ℕ → StepFaults} {results : List ParcelResult} (errors : ℕ)
    (hfaults : ∀ k r, results[k]? = some r → Refuses reject (r, faults k)) :
    (∀ t ∈ taken faults errors results, Refuses reject t) ∧
      (taken faults errors results).map Prod.fst = processed reject errors results := by
  induction results generalizing faults errors with
  | nil => exact ⟨fun t ht => absurd ht List.not_mem_nil, rfl⟩
  | cons r results ih =>
    have hr : Refuses reject (r, faults 0) := hfaults 0 r rfl
    have hrest : ∀ k r', results[k]? = some r' → Refuses reject (r', faults (k + 1)) :=
      fun k => hfaults (k + 1)
    have hinsert : (faults 0).insert.isNone = (reject r).isNone := by
      rw [hr.2]
      exact Option.isNone_map
    rw [taken, processed, List.forall_mem_cons, List.map_cons, hinsert]
    by_cases hstored : (reject r).isNone = true
    · rw [if_pos hstored, if_pos hstored]
      obtain ⟨hall, hmap⟩ := ih errors hrest
      exact ⟨⟨hr, hall⟩, congrArg _ hmap⟩
    · rw [if_neg hstored, if_neg hstored]
      -- both lists end with the eleventh refusal
      by_cases hgiven : 10 < errors + 1
      · rw [if_pos hgiven, if_pos hgiven]
        exact ⟨⟨hr, fun t ht => absurd ht List.not_mem_nil⟩, rfl⟩
      · rw [if_neg hgiven, if_neg hgiven]
        obtain ⟨hall, hmap⟩ := ih (errors + 1) hrest
        exact ⟨⟨hr, hall⟩, congrArg _ hmap⟩

variable (workerID : String) {t : ParcelResult × StepFaults}

/-- The turn of a result that is refused. -/
theorem turn_refused (st : Store × SubmitResponse) (ht : Refuses reject t) {e : String}
    (hreject : reject t.1 = some e) : turn workerID st t = (st.1, st.2.fail t.1 e) := by
  have hinsert : t.2.insert = some (.failed e) := by
    rw [ht.2, hreject]
    rfl
  unfold turn upsertValue upsertStep
  rw [hinsert]
  rfl

/-- The turn of a result that is stored. -/
theorem turn_stored (st : Store × SubmitResponse) (ht : Refuses reject t) (hreject : reject t.1 = none) :
    turn workerID st t =
      (⟨completeStep t.2 workerID t.1.taskID st.1.redis, storeResult workerID st.1.parcels t.1⟩,
        st.2.count !(st.1.parcels.rows (parcelKey t.1)).isSome) := by
  have hinsert : t.2.insert = none := by
    rw [ht.2, hreject]
    rfl
  unfold turn upsertValue upsertStep
  rw [hinsert, ht.1]
  rfl

/-- **What a pass does** to the table and to the response. -/
theorem foldl_turn {ts : List (ParcelResult × StepFaults)} (hts : ∀ t ∈ ts, Refuses reject t)
    (st : Store × SubmitResponse) :
    (ts.foldl (turn workerID) st).1.parcels =
        storeAll workerID ((ts.map Prod.fst).filter fun r => (reject r).isNone) st.1.parcels ∧
      (ts.foldl (turn workerID) st).2.failed = st.2.failed + (refusals reject (ts.map Prod.fst)).length ∧
      (ts.foldl (turn workerID) st).2.errors = st.2.errors ++ refusals reject (ts.map Prod.fst) ∧
      (ts.foldl (turn workerID) st).2.inserted + (ts.foldl (turn workerID) st).2.updated =
        st.2.inserted + st.2.updated + ((ts.map Prod.fst).filter fun r => (reject r).isNone).length := by
  induction ts generalizing st with
  | nil => exact ⟨rfl, rfl, (List.append_nil _).symm, rfl⟩
  | cons t ts ih =>
    obtain ⟨ht, hrest⟩ := List.forall_mem_cons.mp hts
    obtain ⟨hparcels, hfailed, herrors, hsum⟩ := ih hrest (turn workerID st t)
    rw [List.foldl_cons, hparcels, hfailed, herrors, hsum, List.map_cons, List.filter_cons,
      refusals_cons]
    cases hreject : reject t.1 with
    | some e =>
      rw [turn_refused workerID st ht hreject]
      refine ⟨rfl, ?_, List.append_assoc _ _ _, rfl⟩
      show st.2.failed + 1 + _ = st.2.failed + (_ + 1)
      rw [Nat.add_assoc, Nat.add_comm 1]
      rfl
    | none =>
      rw [turn_stored workerID st ht hreject]
      -- new or updated, it is one more of the two
      refine ⟨rfl, ?_, ?_, ?_⟩
      · cases (st.1.parcels.rows (parcelKey t.1)).isSome <;> rfl
      · cases (st.1.parcels.rows (parcelKey t.1)).isSome <;> rfl
      · have hcount : ∀ inserted : Bool, (st.2.count inserted).inserted + (st.2.count inserted).updated =
            st.2.inserted + st.2.updated + 1 := by
          intro inserted
          cases inserted
          · rfl
          · exact Nat.add_right_comm _ _ _
        dsimp only
        rw [hcount, Nat.add_assoc, Nat.add_comm 1]
        rfl

/-- A pass over results whose keys are all there inserts nothing. -/
theorem inserted_foldl_turn {ts : List (ParcelResult × StepFaults)} (hts : ∀ t ∈ ts, Refuses reject t)
    (st : Store × SubmitResponse)
    (hkeys : ∀ t ∈ ts, reject t.1 = none → (st.1.parcels.rows (parcelKey t.1)).isSome) :
    (ts.foldl (turn workerID) st).2.inserted = st.2.inserted := by
  induction ts generalizing st with
  | nil => rfl
  | cons t ts ih =>
    obtain ⟨ht, hrest⟩ := List.forall_mem_cons.mp hts
    obtain ⟨hkey, hkeys⟩ := List.forall_mem_cons.mp hkeys
    rw [List.foldl_cons]
    cases hreject : reject t.1 with
    | some e =>
      rw [turn_refused workerID st ht hreject]
      exact ih hrest _ hkeys
    | none =>
      rw [turn_stored workerID st ht hreject, hkey hreject, ih hrest]
      · rfl
      · -- an upsert takes no row away
        intro t' ht' hreject'
        exact Parcels.isSome_rows_upsert.mpr (.inr (hkeys t' ht' hreject'))

end Pass

/-! ### Two passes -/

section Resubmit

variable (reject : ParcelResult → Option String) (workerID : String) (results : List ParcelResult)

/-- `SubmitResults` alone, while upserts are refused for what the result is. -/
def pass (redis : ℕ → Option Fault × Option Fault) (s : Store) : Ended Cmd Reply Store SubmitResponse :=
  submitted (refusing reject results redis) workerID results s

/-- The last result with a key that is processed and not refused. -/
def lastStored (key : ParcelKey) : Option ParcelResult := lastFor key (storedResults reject results)

/-- **One pass.** -/
theorem pass_spec (redis : ℕ → Option Fault × Option Fault) (s : Store) :
    let ended := pass reject workerID results redis s
    ended.state.parcels = storeAll workerID (storedResults reject results) s.parcels ∧
      ended.value.failed = (refusals reject (processed reject 0 results)).length ∧
      ended.value.errors = refusals reject (processed reject 0 results) ∧
      ended.value.inserted + ended.value.updated = (storedResults reject results).length ∧
      ((∀ r ∈ storedResults reject results, (s.parcels.rows (parcelKey r)).isSome) →
        ended.value.inserted = 0) := by
  intro ended
  have hfaults (k : ℕ) (r : ParcelResult) (hr : results[k]? = some r) :
      Refuses reject (r, refusing reject results redis k) := ⟨rfl, by simp [refusing, hr]⟩
  obtain ⟨hts, hmap⟩ := map_taken 0 hfaults
  obtain ⟨h', hrun, -⟩ := submitted_eq (refusing reject results redis) workerID results s
  have hended : ended = _ := hrun
  clear_value ended
  subst hended
  obtain ⟨hparcels, hfailed, herrors, hsum⟩ := foldl_turn workerID hts (s, ⟨0, 0, 0, []⟩)
  rw [hmap] at hparcels hfailed herrors hsum
  refine ⟨hparcels, hfailed.trans (Nat.zero_add _), herrors, hsum.trans (Nat.zero_add _), fun hkeys => ?_⟩
  -- a result that is taken and not refused is stored
  refine inserted_foldl_turn workerID hts _ fun t ht hreject => hkeys t.1 ?_
  refine List.mem_filter.mpr ⟨?_, ?_⟩
  · rw [← hmap]
    exact List.mem_map_of_mem ht
  · rw [hreject]
    rfl

/-- **Resubmission is idempotent.** Whatever the table holds, which upserts are refused and what befalls
`CompleteTask`, the first pass leaves under each key the last result that it stored there, and a second pass
leaves the same rows and reports the results that were stored as updated. Between the two passes the id
sequence and the clock may have moved on, and Redis may be anything. -/
theorem resubmit_idempotent (s : Store) (redis₁ redis₂ : ℕ → Option Fault × Option Fault)
    (redis : ListStore String String) (nextID now : ℕ) :
    let first := pass reject workerID results redis₁ s
    let second := pass reject workerID results redis₂
      ⟨redis, ⟨first.state.parcels.rows, nextID, now⟩⟩
    second.state.parcels.rows = first.state.parcels.rows ∧
      (∀ key, LeftBy workerID (s.parcels.rows key) (first.state.parcels.rows key)
        (lastStored reject results key)) ∧
      second.value = ⟨0, first.value.inserted + first.value.updated, first.value.failed,
        first.value.errors⟩ := by
  intro first second
  obtain ⟨hparcels, hfailed, herrors, hsum, -⟩ := pass_spec reject workerID results redis₁ s
  obtain ⟨hparcels', hfailed', herrors', hsum', hinserted⟩ := pass_spec reject workerID results redis₂
    ⟨redis, ⟨first.state.parcels.rows, nextID, now⟩⟩
  have hleft (key : ParcelKey) : LeftBy workerID (s.parcels.rows key) (first.state.parcels.rows key)
      (lastStored reject results key) := by
    show LeftBy _ _ ((pass reject workerID results redis₁ s).state.parcels.rows key) _
    rw [hparcels]
    exact rows_storeAll workerID _ _ key
  refine ⟨?_, hleft, ?_⟩
  · ext key : 1
    refine (hleft key).again ?_
    show LeftBy _ _ ((pass reject workerID results redis₂ _).state.parcels.rows key) _
    rw [hparcels']
    exact rows_storeAll workerID _ _ key
  · -- every key that is stored has its row from the first pass
    have hzero : second.value.inserted = 0 := by
      refine hinserted fun r hr => ?_
      show ((pass reject workerID results redis₁ s).state.parcels.rows (parcelKey r)).isSome
      rw [hparcels]
      exact isSome_rows_storeAll s.parcels hr
    have hupdated : second.value.updated = first.value.inserted + first.value.updated := by
      calc second.value.updated = second.value.inserted + second.value.updated := by rw [hzero, Nat.zero_add]
        _ = (storedResults reject results).length := hsum'
        _ = first.value.inserted + first.value.updated := hsum.symm
    calc second.value = ⟨second.value.inserted, second.value.updated, second.value.failed,
          second.value.errors⟩ := rfl
      _ = _ := by rw [hzero, hupdated, hfailed'.trans hfailed.symm, herrors'.trans herrors.symm]

end Resubmit

end TaxlienGateway
