import TaxlienGateway.Legacy.WireFormat

/-!
# Completing a task in both gateways

During the migration both gateways remove tasks from the same processing lists. `completeTask` passes
over a payload that it cannot decode and looks for the task id that the decoded struct has;
`Legacy.completeTask` raises on a payload that has no task id to look at, and reads no other field. So
each of them stops at the first payload of its own choice, and they do the same if and only if the first
payload at which either stops is one that both take.

* `completeTask_runOk`, `Legacy.completeTask_runOk` — what either does alone;
* `sameCompletion_iff_findTask` — they do the same if and only if they find the same;
* `sameCompletion_iff` — exactly when they do, in terms of the payloads;
* `sameCompletion_of_goReads` — among the payloads of `push_task`, it is enough that Go reads each.
-/

namespace TaxlienGateway

open Framework

/-! ### Either gateway alone -/

/-- **What `CompleteTask` does alone.** -/
theorem completeTask_runOk (workerID taskID : String) (s : Store) :
    (completeTask workerID taskID).runOk server s =
      match findTask taskID (s.redis.lists (processingKey workerID)) with
      | none => (s, .ok false)
      | some raw => ({ s with redis := (s.redis.lrem (processingKey workerID) raw).1 }, .ok true) := by
  unfold completeTask
  rw [Prog.issue_bind, Prog.runOk_cmd]
  show Prog.runOk server (match findTask taskID (s.redis.lists (processingKey workerID)) with
    | none => _
    | some raw => _ : Prog Cmd Reply _) s = _
  cases findTask taskID (s.redis.lists (processingKey workerID)) with
  | none => rfl
  | some raw => rfl

namespace Legacy

/-- The payload is the task for the legacy gateway. -/
def takes (taskID raw : String) : Bool :=
  match taskIDOf raw with
  | .error _ => false
  | .ok v => asStr v == some taskID

/-- The payload raises. -/
def raises (raw : String) : Bool :=
  match taskIDOf raw with
  | .error _ => true
  | .ok _ => false

/-- One payload after the other: the search raises, ends, or goes on. -/
theorem findTask_cons (taskID raw : String) (tasks : List String) :
    (∃ e, raises raw = true ∧ takes taskID raw = false ∧ findTask taskID (raw :: tasks) = .error e) ∨
    (raises raw = false ∧ takes taskID raw = true ∧ findTask taskID (raw :: tasks) = .ok (some raw)) ∨
    (raises raw = false ∧ takes taskID raw = false ∧
      findTask taskID (raw :: tasks) = findTask taskID tasks) := by
  unfold takes raises
  cases hid : taskIDOf raw with
  | error e => exact .inl ⟨e, rfl, rfl, by rw [findTask, hid]⟩
  | ok v =>
    by_cases hv : asStr v = some taskID
    · refine .inr (.inl ⟨rfl, beq_iff_eq.mpr hv, ?_⟩)
      rw [findTask, hid]
      exact if_pos hv
    · refine .inr (.inr ⟨rfl, beq_eq_false_iff_ne.mpr hv, ?_⟩)
      rw [findTask, hid]
      exact if_neg hv

/-- What the legacy gateway finds, it takes. -/
theorem takes_of_findTask {taskID raw : String} : ∀ {tasks : List String},
    findTask taskID tasks = .ok (some raw) → takes taskID raw = true := by
  intro tasks
  induction tasks with
  | nil => exact fun h => absurd (Except.ok.inj h) (by simp)
  | cons raw' tasks ih =>
    intro h
    obtain ⟨e, -, -, he⟩ | ⟨-, htakes, hfound⟩ | ⟨-, -, hnext⟩ := findTask_cons taskID raw' tasks
    · exact absurd (he.symm.trans h) (by simp)
    · obtain rfl : raw' = raw := Option.some.inj (Except.ok.inj (hfound.symm.trans h))
      exact htakes
    · exact ih (hnext.symm.trans h)

/-- **What `complete_task` does alone.** -/
theorem completeTask_runOk (workerID taskID : String) (s : Store) :
    (completeTask workerID taskID).runOk server s =
      match findTask taskID (s.redis.lists (processingKey workerID)) with
      | .error e => (s, .error e)
      | .ok none => (s, .ok false)
      | .ok (some raw) =>
        ({ s with redis := (s.redis.lrem (processingKey workerID) raw).1 }, .ok true) := by
  unfold completeTask
  rw [Prog.issue_bind, Prog.runOk_cmd]
  show Prog.runOk server (match findTask taskID (s.redis.lists (processingKey workerID)) with
    | .error e => _
    | .ok none => _
    | .ok (some raw) => _ : Prog Cmd Reply _) s = _
  match findTask taskID (s.redis.lists (processingKey workerID)) with
  | .error e => rfl
  | .ok none => rfl
  | .ok (some raw) => rfl

/-! ### Both gateways -/

/-- Run without interference on the same store, both return the same boolean and leave the same list. -/
def SameCompletion (workerID taskID : String) (s : Store) : Prop :=
  ∃ b, ((TaxlienGateway.completeTask workerID taskID).runOk server s).2 = .ok b ∧
    ((completeTask workerID taskID).runOk server s).2 = .ok b ∧
    ((TaxlienGateway.completeTask workerID taskID).runOk server s).1.redis.lists
        (processingKey workerID) =
      ((completeTask workerID taskID).runOk server s).1.redis.lists (processingKey workerID)

/-- The first payload that either gateway takes, or that raises, is one that both take. -/
def StopsTogether (taskID : String) (items : List String) : Prop :=
  ∀ raw ∈ items.find? fun raw => TaxlienGateway.takes taskID raw || raises raw || takes taskID raw,
    TaxlienGateway.takes taskID raw = true ∧ takes taskID raw = true

/-- Removing different payloads leaves different lists. -/
theorem erase_ne_erase {raw raw' : String} {items : List String} (hne : raw ≠ raw')
    (hmem : raw ∈ items) : items.erase raw ≠ items.erase raw' := by
  intro h
  have hpos : 0 < items.count raw := List.count_pos_iff.mpr hmem
  have hcount : (items.erase raw).count raw = (items.erase raw').count raw := by rw [h]
  rw [List.count_erase_self, List.count_erase_of_ne hne] at hcount
  omega

/-- **They do the same if and only if they find the same.** -/
theorem sameCompletion_iff_findTask (workerID taskID : String) (s : Store) :
    SameCompletion workerID taskID s ↔
      findTask taskID (s.redis.lists (processingKey workerID)) =
        .ok (TaxlienGateway.findTask taskID (s.redis.lists (processingKey workerID))) := by
  unfold SameCompletion
  rw [TaxlienGateway.completeTask_runOk, completeTask_runOk]
  constructor
  · rintro ⟨b, hgo, hlegacy, hlists⟩
    cases hfound : TaxlienGateway.findTask taskID (s.redis.lists (processingKey workerID)) with
    | none =>
      rw [hfound] at hgo
      obtain rfl : false = b := Except.ok.inj hgo
      match hfound' : findTask taskID (s.redis.lists (processingKey workerID)) with
      | .error e =>
        rw [hfound'] at hlegacy
        exact absurd hlegacy (by simp)
      | .ok none => rfl
      | .ok (some raw') =>
        rw [hfound'] at hlegacy
        exact absurd hlegacy (by simp)
    | some raw =>
      rw [hfound] at hgo hlists
      obtain rfl : true = b := Except.ok.inj hgo
      match hfound' : findTask taskID (s.redis.lists (processingKey workerID)) with
      | .error e =>
        rw [hfound'] at hlegacy
        exact absurd hlegacy (by simp)
      | .ok none =>
        rw [hfound'] at hlegacy
        exact absurd hlegacy (by simp)
      | .ok (some raw') =>
        -- both remove something, so the lists tell whether it was the same
        rw [hfound'] at hlists
        change (s.redis.lrem (processingKey workerID) raw).1.lists (processingKey workerID) =
          (s.redis.lrem (processingKey workerID) raw').1.lists (processingKey workerID) at hlists
        rw [ListStore.lists_lrem_self, ListStore.lists_lrem_self] at hlists
        by_cases hne : raw = raw'
        · rw [hne]
        · exact absurd hlists (erase_ne_erase hne (findTask_some hfound).1)
  · intro h
    rw [h]
    cases TaxlienGateway.findTask taskID (s.redis.lists (processingKey workerID)) with
    | none => exact ⟨false, rfl, rfl, rfl⟩
    | some raw => exact ⟨true, rfl, rfl, rfl⟩

/-- **They find the same** if and only if they stop together. -/
theorem findTask_eq_iff (taskID : String) : ∀ items : List String,
    findTask taskID items = .ok (TaxlienGateway.findTask taskID items) ↔
      StopsTogether taskID items := by
  intro items
  induction items with
  | nil => exact ⟨fun _ raw hraw => absurd hraw (by simp), fun _ => rfl⟩
  | cons raw items ih =>
    unfold StopsTogether
    rw [TaxlienGateway.findTask_cons, List.find?_cons]
    have hstop := findTask_cons taskID raw items
    cases hgo : TaxlienGateway.takes taskID raw with
    | true =>
      -- Go takes the payload, so the legacy gateway must take it here and now
      have hhead : ∀ P : String → Prop, (∀ x ∈ some raw, P x) ↔ P raw := by simp
      rw [Bool.true_or, Bool.true_or, if_pos rfl, hhead, hgo]
      constructor
      · exact fun h => ⟨rfl, takes_of_findTask h⟩
      · rintro ⟨-, htakes⟩
        obtain ⟨e, -, hno, -⟩ | ⟨-, -, hfound⟩ | ⟨-, hno, -⟩ := hstop
        · exact absurd (htakes.symm.trans hno) (by simp)
        · exact hfound
        · exact absurd (htakes.symm.trans hno) (by simp)
    | false =>
      rw [Bool.false_or, if_neg (by simp)]
      obtain ⟨e, hraises, -, he⟩ | ⟨hraises, htakes, hfound⟩ | ⟨hraises, htakes, hnext⟩ := hstop
      · rw [hraises, he]
        constructor
        · exact fun h => absurd h (by simp)
        · exact fun h => absurd (hgo.symm.trans (h raw rfl).1) (by simp)
      · rw [hraises, htakes, hfound]
        constructor
        · exact fun h => absurd (hgo.symm.trans
            (TaxlienGateway.takes_of_findTask (Except.ok.inj h).symm)) (by simp)
        · exact fun h => absurd (hgo.symm.trans (h raw rfl).1) (by simp)
      · rw [hraises, htakes, hnext]
        exact ih

/-- **Both gateways complete the same tasks** — exactly when the first payload that either takes, or that
raises, is one that both take. -/
theorem sameCompletion_iff (workerID taskID : String) (s : Store) :
    SameCompletion workerID taskID s ↔
      StopsTogether taskID (s.redis.lists (processingKey workerID)) :=
  (sameCompletion_iff_findTask workerID taskID s).trans (findTask_eq_iff taskID _)

/-- A processing list with one task, whose `created_at` the default factory made. -/
def strandedStore : Store :=
  { Store.blank with redis := ListStore.empty.lpush (processingKey "w1") utcTask.modelDumpJson }

/-- **A task that only the legacy gateway completes**: Go leaves it in the list and answers that there is
no such task. -/
theorem strandedStore_differs : ¬ SameCompletion "w1" "t1" strandedStore := by
  intro h
  have hlegacy := findTask_modelDumpJson utcTask []
  have hfound := (sameCompletion_iff_findTask "w1" "t1" strandedStore).mp h
  have hlist : strandedStore.redis.lists (processingKey "w1") = [utcTask.modelDumpJson] :=
    ListStore.lists_lpush_self _ _ _
  rw [hlist] at hfound
  have hgo : TaxlienGateway.findTask "t1" [utcTask.modelDumpJson] = none := by
    rw [TaxlienGateway.findTask_cons, takes_of_unmarshalTask (unmarshalTask_of_naive rfl)]
    rfl
  rw [hgo] at hfound
  exact absurd (hlegacy.symm.trans hfound) (by simp)

/-- **Where Go reads every payload** of a list that `push_task` filled, both complete the same tasks. -/
theorem sameCompletion_of_goReads (workerID taskID : String) (s : Store) (tasks : List WorkTask)
    (hlist : s.redis.lists (processingKey workerID) = tasks.map WorkTask.modelDumpJson)
    (hreads : ∀ t ∈ tasks, GoReads t) : SameCompletion workerID taskID s := by
  rw [sameCompletion_iff, hlist]
  intro raw hraw
  obtain ⟨t, ht, rfl⟩ := List.mem_map.mp (List.mem_of_find?_eq_some hraw)
  obtain ⟨g, hg, hid, -⟩ := hreads t ht
  have hgo : TaxlienGateway.takes taskID t.modelDumpJson = (t.task_id == taskID) := by
    unfold TaxlienGateway.takes
    rw [hg, ← hid]
  have hlegacy : takes taskID t.modelDumpJson = (t.task_id == taskID) ∧
      raises t.modelDumpJson = false := by
    unfold takes raises
    rw [taskIDOf_modelDumpJson]
    exact ⟨rfl, rfl⟩
  -- the payload that stops one of them has the task id, so it stops both
  have hstop := List.find?_some hraw
  rw [hgo, hlegacy.1, hlegacy.2, Bool.or_false, Bool.or_self] at hstop
  rw [hgo, hlegacy.1]
  exact ⟨hstop, hstop⟩

end Legacy

end TaxlienGateway
