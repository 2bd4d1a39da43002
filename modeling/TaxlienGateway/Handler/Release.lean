import Mathlib.Data.List.Count
import TaxlienGateway.Handler.BatchRun

/-!
# The tasks of stored results

`SubmitResults` reports a result as stored before it calls `CompleteTask`, and does not look at what that
answers. The task stays in the processing list if its payload does not decode, if the list cannot be read, or
if the removal is not executed.

A payload carries a task id (`carries`) whether or not the rest of it decodes. For one task id a turn of the
batch is either effective or leaves the payloads that carry the id alone.

* `taskIDField_of_unmarshalTask` — a payload that decodes is the task whose id it carries;
* `countP_foldl_turn` — what becomes of the only payload that carries a task id;
* `released_iff` — every stored result has released its task exactly if its payload decodes and one of the
  stored results with its task id has an effective turn.
-/

namespace TaxlienGateway

open Framework Model

/-! ### The task id of a payload -/

/-- The task id that a payload carries: the last string that is under a name of the field. -/
def taskIDField (raw : String) : Option String :=
  match Json.parse raw with
  | some (.obj members) =>
    some <| members.foldl
      (fun old m => if isField "task_id" m.1 then (unmarshalString old m.2).getD old else old) ""
  | some .null => some ""
  | _ => none

def carries (taskID raw : String) : Bool := taskIDField raw == some taskID

theorem taskID_setField {t t' : WorkTask} {name : String} {v : Json} (h : t.setField name v = some t') :
    t'.taskID =
      if isField "task_id" name then (unmarshalString t.taskID v).getD t.taskID else t.taskID := by
  unfold WorkTask.setField at h
  by_cases hname : isField "task_id" name = true
  · rw [if_pos hname] at h ⊢
    obtain ⟨s, hs, rfl⟩ := Option.map_eq_some_iff.mp h
    rw [hs]
    rfl
  · rw [if_neg hname] at h ⊢
    -- no other field is the task id
    repeat'
      split at h
      · obtain ⟨_, _, rfl⟩ := Option.map_eq_some_iff.mp h
        rfl
    exact congrArg WorkTask.taskID (Option.some.inj h).symm

theorem taskID_foldlM {members : List (String × Json)} {t t' : WorkTask}
    (h : members.foldlM (fun t m => t.setField m.1 m.2) t = some t') :
    t'.taskID = members.foldl
      (fun old m => if isField "task_id" m.1 then (unmarshalString old m.2).getD old else old)
      t.taskID := by
  induction members generalizing t with
  | nil => exact congrArg WorkTask.taskID (Option.some.inj h).symm
  | cons m members ih =>
    rw [List.foldlM_cons] at h
    obtain ⟨t₁, hfield, hrest⟩ := Option.bind_eq_some_iff.mp h
    rw [List.foldl_cons, ← taskID_setField hfield]
    exact ih hrest

/-- **A payload that decodes** is the task whose id it carries. -/
theorem taskIDField_of_unmarshalTask {raw : String} {t : WorkTask} (h : unmarshalTask raw = some t) :
    taskIDField raw = some t.taskID := by
  obtain ⟨v, hparse, hv⟩ := Option.bind_eq_some_iff.mp h
  unfold taskIDField
  rw [hparse]
  cases v with
  | obj members => exact congrArg some (taskID_foldlM hv).symm
  | null => exact congrArg (fun t => some (WorkTask.taskID t)) (Option.some.inj hv)
  | _ => exact absurd hv (by simp [WorkTask.unmarshal])

/-- What `CompleteTask` takes carries the task id. -/
theorem carries_of_takes {taskID raw : String} (h : takes taskID raw = true) :
    carries taskID raw = true := by
  unfold takes at h
  cases ht : unmarshalTask raw with
  | none =>
    rw [ht] at h
    exact absurd h Bool.false_ne_true
  | some t =>
    rw [ht] at h
    unfold carries
    rw [taskIDField_of_unmarshalTask ht, eq_of_beq h]
    exact beq_self_eq_true _

/-- No payload carries two task ids. -/
theorem not_carries_of_takes {taskID taskID' raw : String} (h : takes taskID' raw = true)
    (hne : taskID' ≠ taskID) : carries taskID raw = false := by
  refine Bool.eq_false_iff.mpr fun hcarries => hne ?_
  exact Option.some.inj ((eq_of_beq (carries_of_takes h)).symm.trans (eq_of_beq hcarries))

/-- Nor is it taken for two. -/
theorem not_takes_of_takes {taskID taskID' raw : String} (h : takes taskID' raw = true)
    (hne : taskID' ≠ taskID) : takes taskID raw = false :=
  Bool.eq_false_iff.mpr fun htakes =>
    Bool.eq_false_iff.mp (not_carries_of_takes h hne) (carries_of_takes htakes)

/-! ### One turn -/

/-- The turn removes the task from the list, if it is found there. -/
def Effective (taskID : String) (t : ParcelResult × StepFaults) : Prop :=
  t.2.insert = none ∧ t.1.taskID = taskID ∧ t.2.lrange = none ∧ executed t.2.lrem = true

/-- The processing list. -/
abbrev Store.processing (s : Store) (workerID : String) : List String :=
  s.redis.lists (processingKey workerID)

section Turn

variable {workerID taskID : String} {t : ParcelResult × StepFaults} (st : Store × SubmitResponse)

/-- What a turn does to the processing list. -/
theorem processing_turn (workerID : String) (t : ParcelResult × StepFaults) :
    (turn workerID st t).1.processing workerID =
      match t.2.insert, t.2.lrange, findTask t.1.taskID (st.1.processing workerID) with
      | none, none, some raw =>
        if executed t.2.lrem then (st.1.processing workerID).erase raw else st.1.processing workerID
      | _, _, _ => st.1.processing workerID := by
  unfold turn upsertValue completeStep Store.processing
  cases t.2.insert with
  | some fault => cases fault <;> rfl
  | none =>
    cases t.2.lrange with
    | some fault => rfl
    | none =>
      dsimp only
      cases findTask t.1.taskID (st.1.redis.lists (processingKey workerID)) with
      | none => rfl
      | some raw =>
        dsimp only
        cases executed t.2.lrem
        · rfl
        · exact ListStore.lists_lrem_self _ _ _

/-- An effective turn drops what it finds. -/
theorem processing_turn_of_effective (ht : Effective taskID t) {raw : String}
    (hraw : findTask taskID (st.1.processing workerID) = some raw) :
    (turn workerID st t).1.processing workerID = (st.1.processing workerID).erase raw := by
  obtain ⟨hinsert, rfl, hlrange, hlrem⟩ := ht
  rw [processing_turn, hinsert, hlrange, hraw]
  exact if_pos hlrem

/-- A turn that does not find its task drops nothing. -/
theorem processing_turn_of_not_found (hraw : findTask t.1.taskID (st.1.processing workerID) = none) :
    (turn workerID st t).1.processing workerID = st.1.processing workerID := by
  rw [processing_turn, hraw]
  cases t.2.insert <;> cases t.2.lrange <;> rfl

/-- A turn drops at most one payload, which is its own task. -/
theorem processing_turn_eq_or (workerID : String) (t : ParcelResult × StepFaults) :
    (turn workerID st t).1.processing workerID = st.1.processing workerID ∨
      Effective t.1.taskID t ∧ ∃ raw, findTask t.1.taskID (st.1.processing workerID) = some raw ∧
        (turn workerID st t).1.processing workerID = (st.1.processing workerID).erase raw := by
  by_cases ht : Effective t.1.taskID t
  · cases hraw : findTask t.1.taskID (st.1.processing workerID) with
    | some raw => exact .inr ⟨ht, raw, rfl, processing_turn_of_effective st ht hraw⟩
    | none => exact .inl (processing_turn_of_not_found st hraw)
  · refine .inl ?_
    rw [processing_turn]
    split
    · next raw hinsert hlrange hraw =>
      exact if_neg fun hlrem => ht ⟨hinsert, rfl, hlrange, hlrem⟩
    · rfl

theorem processing_turn_sublist (workerID : String) (t : ParcelResult × StepFaults) :
    ((turn workerID st t).1.processing workerID).Sublist (st.1.processing workerID) := by
  obtain heq | ⟨-, raw, -, heq⟩ := processing_turn_eq_or st workerID t
  · rw [heq]
  · rw [heq]
    exact List.erase_sublist

/-- A turn that is not effective for a task leaves alone what can only be taken for this task. -/
theorem countP_turn (ht : ¬ Effective taskID t) {p : String → Bool}
    (hp : ∀ taskID' raw, takes taskID' raw = true → taskID' ≠ taskID → p raw = false) :
    ((turn workerID st t).1.processing workerID).countP p = (st.1.processing workerID).countP p := by
  obtain heq | ⟨heffective, raw, hraw, heq⟩ := processing_turn_eq_or st workerID t
  · rw [heq]
  · have hne : t.1.taskID ≠ taskID := by
      rintro rfl
      exact ht heffective
    -- the payload that is dropped belongs to another task
    rw [heq, List.countP_erase, hp _ _ (takes_of_findTask hraw) hne]
    simp

/-- An effective turn that finds the only payload of its task leaves none. -/
theorem countP_turn_of_effective (ht : Effective taskID t)
    (hone : (st.1.processing workerID).countP (carries taskID) = 1) {raw : String}
    (hraw : findTask taskID (st.1.processing workerID) = some raw) :
    ((turn workerID st t).1.processing workerID).countP (carries taskID) = 0 := by
  have hmem : raw ∈ st.1.processing workerID := List.mem_of_find?_eq_some hraw
  rw [processing_turn_of_effective st ht hraw, List.countP_erase, hone,
    if_pos ⟨hmem, carries_of_takes (takes_of_findTask hraw)⟩]

end Turn

/-! ### The batch -/

section Batch

variable {workerID taskID : String} (ts : List (ParcelResult × StepFaults)) (st : Store × SubmitResponse)

theorem countP_foldl_turn_le (p : String → Bool) :
    ((ts.foldl (turn workerID) st).1.processing workerID).countP p ≤
      (st.1.processing workerID).countP p := by
  induction ts generalizing st with
  | nil => exact Nat.le_refl _
  | cons t ts ih => exact (ih _).trans (processing_turn_sublist st workerID t).countP_le

/-- **What becomes of the only payload that carries a task id.** -/
theorem countP_foldl_turn (hone : (st.1.processing workerID).countP (carries taskID) = 1) :
    ((ts.foldl (turn workerID) st).1.processing workerID).countP (carries taskID) = 0 ↔
      (∃ raw ∈ st.1.processing workerID, takes taskID raw = true) ∧ ∃ t ∈ ts, Effective taskID t := by
  induction ts generalizing st with
  | nil =>
    refine ⟨fun hzero => ?_, fun ⟨_, t, ht, _⟩ => absurd ht List.not_mem_nil⟩
    exact absurd (hone.symm.trans hzero) Nat.one_ne_zero
  | cons t ts ih =>
    rw [List.foldl_cons]
    by_cases ht : Effective taskID t
    · cases hraw : findTask taskID (st.1.processing workerID) with
      | some raw =>
        -- the payload is dropped, and does not come back
        have hmem : raw ∈ st.1.processing workerID := List.mem_of_find?_eq_some hraw
        have hzero := countP_turn_of_effective st ht hone hraw
        have hle : ((ts.foldl (turn workerID) (turn workerID st t)).1.processing workerID).countP
            (carries taskID) ≤ ((turn workerID st t).1.processing workerID).countP (carries taskID) :=
          countP_foldl_turn_le ts _ _
        refine ⟨fun _ => ⟨⟨raw, hmem, takes_of_findTask hraw⟩, t, List.mem_cons_self, ht⟩, fun _ => ?_⟩
        exact Nat.le_zero.mp (hzero ▸ hle)
      | none =>
        -- the payload does not decode, so no later turn finds it either
        have hnone : ¬ ∃ raw ∈ st.1.processing workerID, takes taskID raw = true :=
          fun ⟨raw, hmem, htakes⟩ => List.find?_eq_none.mp hraw raw hmem htakes
        have hsame := processing_turn_of_not_found st (ht.2.1.symm ▸ hraw)
        rw [ih _ (hsame.symm ▸ hone), hsame]
        exact ⟨fun h => absurd h.1 hnone, fun h => absurd h.1 hnone⟩
    · -- the turn leaves the payload alone
      have hcarries : ((turn workerID st t).1.processing workerID).countP (carries taskID) = 1 :=
        (countP_turn st ht fun _ _ => not_carries_of_takes).trans hone
      have htakes : ((turn workerID st t).1.processing workerID).countP (takes taskID) =
          (st.1.processing workerID).countP (takes taskID) :=
        countP_turn st ht fun _ _ => not_takes_of_takes
      rw [ih _ hcarries, ← List.countP_pos_iff, ← List.countP_pos_iff, htakes]
      refine and_congr_right fun _ => ⟨?_, ?_⟩
      · rintro ⟨t', ht', heffective⟩
        exact ⟨t', List.mem_cons_of_mem t ht', heffective⟩
      · rintro ⟨t', ht', heffective⟩
        obtain rfl | ht' := List.mem_cons.mp ht'
        · exact absurd heffective ht
        · exact ⟨t', ht', heffective⟩

end Batch

/-! ### Stored results -/

/-- The `k`-th result is stored: its insert is acknowledged, and at most ten inserts before it have
failed. -/
def StoredAt (faults : ℕ → StepFaults) (results : List ParcelResult) (k : ℕ) (r : ParcelResult) : Prop :=
  results[k]? = some r ∧ (faults k).insert = none ∧
    (List.range k).countP (fun j => (faults j).insert.isSome) ≤ 10

theorem storedAt_iff {faults : ℕ → StepFaults} {results : List ParcelResult} {k : ℕ} {r : ParcelResult} :
    StoredAt faults results k r ↔
      (taken faults 0 results)[k]? = some (r, faults k) ∧ (faults k).insert = none := by
  unfold StoredAt
  rw [getElem?_taken faults results (Nat.zero_le 10), Nat.zero_add]
  by_cases hcount : (List.range k).countP (fun j => (faults j).insert.isSome) ≤ 10
  · rw [if_pos hcount]
    cases results[k]? <;> simp [hcount]
  · rw [if_neg hcount]
    simp [hcount]

/-- A turn of the batch is effective for a task if and only if some stored result is of this task and its
commands are executed. -/
theorem exists_effective_iff {faults : ℕ → StepFaults} {results : List ParcelResult} {taskID : String} :
    (∃ t ∈ taken faults 0 results, Effective taskID t) ↔
      ∃ k r, StoredAt faults results k r ∧ r.taskID = taskID ∧ (faults k).lrange = none ∧
        executed (faults k).lrem = true := by
  constructor
  · rintro ⟨t, ht, hinsert, hid, hlrange, hlrem⟩
    obtain ⟨k, hk⟩ := List.mem_iff_getElem?.mp ht
    have hfaults : t = (t.1, faults k) := by
      have hk' := hk
      rw [getElem?_taken faults results (Nat.zero_le 10)] at hk'
      split at hk'
      · obtain ⟨r, -, rfl⟩ := Option.map_eq_some_iff.mp hk'
        rfl
      · exact absurd hk' (by simp)
    rw [hfaults] at hk hinsert hlrange hlrem
    exact ⟨k, t.1, storedAt_iff.mpr ⟨hk, hinsert⟩, hid, hlrange, hlrem⟩
  · rintro ⟨k, r, hstored, hid, hlrange, hlrem⟩
    obtain ⟨hk, hinsert⟩ := storedAt_iff.mp hstored
    exact ⟨_, List.mem_iff_getElem?.mpr ⟨k, hk⟩, hinsert, hid, hlrange, hlrem⟩

/-- A result whose insert was acknowledged is counted as inserted or updated. If its task id occurs exactly
once in the processing list at the start, its task is no longer in the list at the end. -/
def ReleasesStored (faults : ℕ → StepFaults) (workerID : String) (results : List ParcelResult)
    (s : Store) : Prop :=
  ∀ (k : ℕ) (r : ParcelResult) (c : Cmd), results[k]? = some r →
    (upserts (submitted faults workerID results s).history)[k]? = some (c, true) →
    (s.processing workerID).countP (carries r.taskID) = 1 →
    ((submitted faults workerID results s).state.processing workerID).countP (carries r.taskID) = 0

/-- Which inserts are acknowledged. -/
theorem exists_acknowledged_iff {faults : ℕ → StepFaults} {workerID : String}
    {results : List ParcelResult} {s : Store} {k : ℕ} {r : ParcelResult} :
    (results[k]? = some r ∧
        ∃ c, (upserts (submitted faults workerID results s).history)[k]? = some (c, true)) ↔
      StoredAt faults results k r := by
  obtain ⟨h', hrun, hupserts⟩ := submitted_eq faults workerID results s
  rw [hrun, hupserts, List.getElem?_map, getElem?_taken faults results (Nat.zero_le 10),
    Nat.zero_add]
  unfold StoredAt
  refine and_congr_right fun hr => ?_
  rw [hr]
  by_cases hcount : (List.range k).countP (fun j => (faults j).insert.isSome) ≤ 10
  · rw [if_pos hcount]
    simp [hcount, Option.isNone_iff_eq_none]
  · rw [if_neg hcount]
    simp [hcount]

/-- **When the tasks of stored results are released.** For every batch, every state of the stores and every
pattern of faults: exactly if each task of a stored result that occurs once in the list has a payload that
decodes, and some stored result of this task has its `LRANGE` answered and its `LREM` executed. -/
theorem released_iff (faults : ℕ → StepFaults) (workerID : String) (results : List ParcelResult)
    (s : Store) :
    ReleasesStored faults workerID results s ↔
      ∀ k r, StoredAt faults results k r →
        (s.processing workerID).countP (carries r.taskID) = 1 →
        (∃ raw ∈ s.processing workerID, takes r.taskID raw = true) ∧
          ∃ k' r', StoredAt faults results k' r' ∧ r'.taskID = r.taskID ∧
            (faults k').lrange = none ∧ executed (faults k').lrem = true := by
  -- the task is gone at the end exactly if its payload decodes and some turn is effective
  have hend {taskID : String} (hone : (s.processing workerID).countP (carries taskID) = 1) :
      ((submitted faults workerID results s).state.processing workerID).countP (carries taskID) = 0 ↔
        (∃ raw ∈ s.processing workerID, takes taskID raw = true) ∧
          ∃ k' r', StoredAt faults results k' r' ∧ r'.taskID = taskID ∧ (faults k').lrange = none ∧
            executed (faults k').lrem = true := by
    obtain ⟨h', hrun, -⟩ := submitted_eq faults workerID results s
    rw [hrun, ← exists_effective_iff]
    exact countP_foldl_turn _ (s, ⟨0, 0, 0, []⟩) hone
  constructor
  · intro hreleases k r hstored hone
    obtain ⟨hr, c, hc⟩ := exists_acknowledged_iff.mpr hstored
    exact (hend hone).mp (hreleases k r c hr hc hone)
  · intro hall k r c hr hc hone
    exact (hend hone).mpr (hall k r (exists_acknowledged_iff.mp ⟨hr, c, hc⟩) hone)

/-- A worker holding one task, under a payload that names the task only. -/
def oneTaskHeld : Store :=
  { Store.blank with
    redis := ListStore.empty.lpush (processingKey "w1") "\x7b\"task_id\":\"t-1\"\x7d" }

/-- Its result. -/
def onlyResult : ParcelResult := ⟨"t-1", "p-1", "beacon", "FL", "Leon", .obj [], 0⟩

def removalTimesOut : StepFaults := ⟨none, none, none, some (.failed "i/o timeout")⟩

/-- **A stored result keeps its task.** The removal times out, and the response says nothing of it. -/
theorem stored_result_keeps_task :
    ¬ ReleasesStored (fun _ => removalTimesOut) "w1" [onlyResult] oneTaskHeld := by
  intro hreleases
  have hstored : StoredAt (fun _ => removalTimesOut) [onlyResult] 0 onlyResult :=
    ⟨rfl, rfl, Nat.zero_le 10⟩
  obtain ⟨hr, c, hc⟩ := exists_acknowledged_iff.mpr hstored
  exact absurd (hreleases 0 onlyResult c hr hc (by decide +kernel)) (by decide +kernel)

end TaxlienGateway
