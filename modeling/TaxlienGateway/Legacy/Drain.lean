import TaxlienGateway.Legacy.WireFormat
import TaxlienGateway.Service.PollRun

/-!
# Draining the queues

Tasks are pushed, and then workers call `pop_tasks` until a call returns no task (`drain`). The
workers, their platforms and their capacities may change from call to call, as long as each call
covers the platforms of the pushed tasks and asks for at least one task (`Covers`).

* `pop_run` — one call: what it returns has left the polled queues, and it returns nothing only if
  they are empty;
* `drain_ends` — the loop ends, after at most one call more than there are tasks;
* `drain_returns` — it returns the pushed tasks whose priority is 1, 2, 3 or 4, each once. A task of
  any other priority is accepted by `push_task` and never returned, and a target with Python values that JSON does
  not have comes back changed (`drain_strayTasks`).
-/

namespace TaxlienGateway

open Framework

namespace Legacy

/-- One call of `pop_tasks`. -/
structure PopCall where
  now : Datetime
  workerID : String
  platforms : List String
  capacity : ℤ

def PopCall.run (pydantic : Pydantic) (c : PopCall) (s : Store) : Store × Except String (List WorkTask) :=
  (popTasks pydantic c.now c.workerID c.platforms c.capacity).runOk server s

/-- Push the tasks one after another. -/
def pushAll : List WorkTask → Store → Store
  | [], s => s
  | task :: tasks, s => pushAll tasks ((pushTask task).runOk server s).1

/-- Make the calls `calls n`, `calls (n + 1)`, ... until one returns no task; the result is what they
returned together. It is `none` if no call has returned nothing after `fuel` calls, or one raised. -/
def drain (pydantic : Pydantic) (calls : ℕ → PopCall) : (fuel n : ℕ) → Store → Option (List WorkTask)
  | 0, _, _ => none
  | fuel + 1, n, s =>
    match (calls n).run pydantic s with
    | (_, .error _) => none
    -- the call that finds nothing ends the loop
    | (_, .ok []) => some []
    | (s', .ok (task :: tasks)) =>
      (drain pydantic calls fuel (n + 1) s').map fun rest => task :: tasks ++ rest

/-- The call asks for at least one task, and for every platform that tasks were pushed for. -/
def Covers (pushed : List WorkTask) (c : PopCall) : Prop :=
  1 ≤ c.capacity ∧ ∀ t ∈ pushed, t.platform ∈ c.platforms

/-! ### Pushing -/

/-- The tasks that may wait in the queue of a platform and a priority. -/
def Waits (pushed : List WorkTask) (platform : String) (priority : ℤ) (t : WorkTask) : Prop :=
  t ∈ pushed ∧ t.platform = platform ∧ t.priority = priority

/-- Is the task in a queue that is polled? -/
def isPolled (t : WorkTask) : Bool := t.priority ∈ priorities

theorem pushTask_run (t : WorkTask) (s : Store) :
    ((pushTask t).runOk server s).1 =
      { s with redis := s.redis.lpush (queueKey t.platform t.priority) t.modelDumpJson } := rfl

theorem pushAll_spec (pushed : List WorkTask) : ∀ (tasks : List WorkTask) (s : Store),
    (∀ t ∈ tasks, t ∈ pushed) → QueuesHold WorkTask.modelDumpJson (Waits pushed) s.redis →
    QueuesHold WorkTask.modelDumpJson (Waits pushed) (pushAll tasks s).redis ∧
    (pushAll tasks s).redis.content IsPolledKey = s.redis.content IsPolledKey +
      ((tasks.filter isPolled).map WorkTask.modelDumpJson : Multiset String) := by
  intro tasks
  induction tasks with
  | nil => exact fun s _ hs => ⟨hs, by simp [pushAll]⟩
  | cons t tasks ih =>
    intro s hmem hs
    have hrest : ∀ t ∈ tasks, t ∈ pushed := fun t ht => hmem t (List.mem_cons_of_mem _ ht)
    unfold pushAll
    rw [pushTask_run]
    have hs' : QueuesHold WorkTask.modelDumpJson (Waits pushed)
        (s.redis.lpush (queueKey t.platform t.priority) t.modelDumpJson) := by
      intro platform priority raw hraw
      by_cases hk : queueKey platform priority = queueKey t.platform t.priority
      · -- the keys are injective, so the new payload waits where it belongs
        rw [hk, ListStore.lists_lpush_self] at hraw
        rcases List.mem_cons.mp hraw with rfl | hraw
        · obtain ⟨rfl, rfl⟩ := queueKey_inj hk
          exact ⟨t, rfl, hmem t List.mem_cons_self, rfl, rfl⟩
        · exact hs platform priority raw (hk ▸ hraw)
      · rw [ListStore.lists_lpush_of_ne _ _ hk] at hraw
        exact hs platform priority raw hraw
    obtain ⟨hhold, hcontent⟩ := ih { s with
      redis := s.redis.lpush (queueKey t.platform t.priority) t.modelDumpJson } hrest hs'
    refine ⟨hhold, hcontent.trans ?_⟩
    by_cases hp : t.priority ∈ priorities
    · rw [ListStore.content_lpush _ _ (isPolledKey_queueKey_iff.mpr hp),
        List.filter_cons_of_pos (by simpa [isPolled] using hp), List.map_cons, ← Multiset.cons_coe,
        ← Multiset.singleton_add, add_assoc]
    · -- a queue that is not polled does not count
      rw [List.filter_cons_of_neg (by simpa [isPolled] using hp)]
      congr 1
      exact ListStore.content_set_of_not _ _ (fun h => hp (isPolledKey_queueKey_iff.mp h))

/-! ### Popping -/

theorem decodeTask_modelDumpJson {pydantic : Pydantic} (hpydantic : pydantic.Documented) (now : Datetime)
    (t : WorkTask) : decodeTask pydantic now t.modelDumpJson = .ok (some t) := by
  have hload := WorkTask.loads_modelDumpJson hpydantic now t
  unfold decodeTask
  by_cases hempty : t.modelDumpJson = ""
  · rw [hempty] at hload
    exact absurd hload (by simp [WorkTask.loads, show jsonLoads "" = none from rfl])
  · rw [if_neg hempty, hload]

/-- **One call.** -/
theorem pop_run {pydantic : Pydantic} (hpydantic : pydantic.Documented) {pushed : List WorkTask} {c : PopCall}
    {s : Store} (hc : Covers pushed c) (hs : QueuesHold WorkTask.modelDumpJson (Waits pushed) s.redis) :
    ∃ s' new, c.run pydantic s = (s', .ok new) ∧
      PollResult WorkTask.modelDumpJson (Waits pushed) s s' new ∧
      (new = [] → s.redis.content IsPolledKey = 0) := by
  obtain ⟨s', new, hrun, hres, hnil⟩ := pollPlatforms_run
    (decodeTask_modelDumpJson hpydantic c.now) c.workerID c.capacity c.platforms [] s hs
  refine ⟨s', new, hrun, hres, fun hnew => ListStore.content_eq_zero ?_⟩
  rintro _ ⟨platform, priority, hprio, rfl⟩
  have hroom : ((([] : List WorkTask).length : ℕ) : ℤ) < c.capacity := hc.1
  by_cases hplat : platform ∈ c.platforms
  · exact hnil hnew hroom platform hplat priority hprio
  · -- nothing can wait for a platform that no pushed task has
    refine List.eq_nil_iff_forall_not_mem.mpr fun raw hraw => hplat ?_
    obtain ⟨t, -, hpushed, rfl, -⟩ := hs platform priority raw hraw
    exact hc.2 t hpushed

section Drain

variable {pydantic : Pydantic} {pushed : List WorkTask} {calls : ℕ → PopCall}

/-- **What the loop returns** has been the content of the polled queues. -/
theorem drain_content (hpydantic : pydantic.Documented) (hc : ∀ n, Covers pushed (calls n)) :
    ∀ (fuel n : ℕ) (s : Store) (returned : List WorkTask),
    QueuesHold WorkTask.modelDumpJson (Waits pushed) s.redis → drain pydantic calls fuel n s = some returned →
    (returned.map WorkTask.modelDumpJson : Multiset String) = s.redis.content IsPolledKey := by
  intro fuel
  induction fuel with
  | zero => exact fun n s returned _ h => absurd h (by simp [drain])
  | succ fuel ih =>
    intro n s returned hs h
    obtain ⟨s', new, hrun, hres, hnil⟩ := pop_run hpydantic (hc n) hs
    unfold drain at h
    rw [hrun] at h
    cases new with
    | nil =>
      -- the last call: nothing was left to return
      obtain rfl := Option.some.inj h
      rw [hnil rfl]
      rfl
    | cons t new =>
      obtain ⟨rest, hrest, rfl⟩ := Option.map_eq_some_iff.mp h
      rw [List.map_append, ← Multiset.coe_add, ih _ s' rest hres.holds hrest, add_comm]
      exact hres.content

/-- **The loop ends**: every call but the last takes a task out of the polled queues. -/
theorem drain_ends (hpydantic : pydantic.Documented) (hc : ∀ n, Covers pushed (calls n)) :
    ∀ (fuel n : ℕ) (s : Store), QueuesHold WorkTask.modelDumpJson (Waits pushed) s.redis →
    Multiset.card (s.redis.content IsPolledKey) < fuel →
    ∃ returned, drain pydantic calls fuel n s = some returned := by
  intro fuel
  induction fuel with
  | zero => exact fun n s _ h => absurd h (Nat.not_lt_zero _)
  | succ fuel ih =>
    intro n s hs hcard
    obtain ⟨s', new, hrun, hres, -⟩ := pop_run hpydantic (hc n) hs
    unfold drain
    rw [hrun]
    cases new with
    | nil => exact ⟨[], rfl⟩
    | cons t new =>
      -- what has been returned is no longer in the queues
      have hless : Multiset.card (s'.redis.content IsPolledKey) < fuel := by
        have h := congrArg Multiset.card hres.content
        rw [Multiset.card_add, Multiset.coe_card, List.length_map, List.length_cons] at h
        omega
      obtain ⟨rest, hrest⟩ := ih (n + 1) s' hres.holds hless
      refine ⟨t :: new ++ rest, ?_⟩
      change (drain pydantic calls fuel (n + 1) s').map _ = _
      rw [hrest]
      rfl

end Drain

theorem modelDumpJson_injective : Function.Injective WorkTask.modelDumpJson := by
  intro t t' h
  have ht := t.loads_modelDumpJson Pydantic.strict_documented t.created_at
  rw [h, t'.loads_modelDumpJson Pydantic.strict_documented] at ht
  exact (Option.some.inj ht).symm

/-- Nothing waits in an empty store. -/
theorem queuesHold_fresh {pushed : List WorkTask} {s : Store} (hs : s.Fresh) :
    QueuesHold WorkTask.modelDumpJson (Waits pushed) s.redis := by
  rw [hs]
  exact fun platform priority raw hraw => absurd hraw (by simp)

/-- **No task of priority 1 to 4 is unreachable.** From empty queues, the loop ends and returns the
pushed tasks of these priorities, each once. -/
theorem drain_returns (pydantic : Pydantic) (hpydantic : pydantic.Documented) (pushed : List WorkTask)
    (calls : ℕ → PopCall) (s : Store) (hs : s.Fresh) (hc : ∀ n, Covers pushed (calls n)) (fuel : ℕ)
    (hfuel : pushed.length < fuel) :
    ∃ returned, drain pydantic calls fuel 0 (pushAll pushed s) = some returned ∧
      returned.Perm (pushed.filter isPolled) := by
  obtain ⟨hhold, hcontent⟩ := pushAll_spec pushed pushed s (fun _ ht => ht) (queuesHold_fresh hs)
  rw [hs, ListStore.content_empty, zero_add] at hcontent
  have hcard : Multiset.card ((pushAll pushed s).redis.content IsPolledKey) < fuel := by
    rw [hcontent, Multiset.coe_card, List.length_map]
    exact (List.length_filter_le _ _).trans_lt hfuel
  obtain ⟨returned, hdrain⟩ := drain_ends hpydantic hc fuel 0 _ hhold hcard
  refine ⟨returned, hdrain, ?_⟩
  have hsame := (drain_content hpydantic hc fuel 0 _ returned hhold hdrain).trans hcontent
  -- equal payloads are equal tasks, since every task is read back from its payload
  rw [← Multiset.map_coe, ← Multiset.map_coe] at hsame
  exact Multiset.coe_eq_coe.mp (Multiset.map_injective modelDumpJson_injective hsame)

/-- A task of no documented priority. -/
def lowTask : WorkTask := { utcTask with priority := 5 }

/-- A call for the platform of the sample tasks. -/
def sampleCall : PopCall := ⟨utcTask.created_at, "w1", ["beacon"], 1⟩

/-- One task of priority 3 and one of priority 5. -/
theorem drain_returns_sample :
    ∃ returned, drain .strict (fun _ => sampleCall) 3 0 (pushAll [utcTask, lowTask] .blank) =
      some returned ∧ returned.Perm [utcTask] := by
  have hc : Covers [utcTask, lowTask] sampleCall := by
    refine ⟨le_refl _, fun t ht => ?_⟩
    rcases List.mem_cons.mp ht with rfl | ht
    · exact List.mem_cons_self
    · obtain rfl := List.mem_singleton.mp ht
      exact List.mem_cons_self
  exact drain_returns .strict Pydantic.strict_documented [utcTask, lowTask] (fun _ => sampleCall) .blank rfl
    (fun _ => hc) 3 (by decide)

/-! ### Other Python values -/

/-- A Python value that `model_dump_json` finds in a target. A `float` may be no number, and a `tuple` is no
`list`; JSON knows neither. Objects of other classes are left out. -/
inductive PyValue where
  | none
  | bool (b : Bool)
  | num (l : Numeral)
  /-- `float("nan")`, `float("inf")` or `float("-inf")` -/
  | notFinite
  | str (s : String)
  | list (xs : List PyValue)
  | tuple (xs : List PyValue)
  | dict (items : List (String × PyValue))

mutual

/-- How `model_dump_json` writes a value. -/
def PyValue.dump : PyValue → Json
  | .none => .null
  | .bool b => .bool b
  | .num l => .num l
  | .notFinite => .null
  | .str s => .str s
  | .list xs => .arr (dumpList xs)
  | .tuple xs => .arr (dumpList xs)
  | .dict items => .obj (dumpItems items)

def dumpList : List PyValue → List Json
  | [] => []
  | x :: xs => x.dump :: dumpList xs

def dumpItems : List (String × PyValue) → List (String × Json)
  | [] => []
  | (k, v) :: items => (k, v.dump) :: dumpItems items

end

mutual

/-- The Python value of a JSON value. -/
def PyValue.ofJson : Json → PyValue
  | .null => .none
  | .bool b => .bool b
  | .num l => .num l
  | .str s => .str s
  | .arr xs => .list (ofJsonList xs)
  | .obj members => .dict (ofJsonMembers members)

def ofJsonList : List Json → List PyValue
  | [] => []
  | x :: xs => .ofJson x :: ofJsonList xs

def ofJsonMembers : List (String × Json) → List (String × PyValue)
  | [] => []
  | (k, v) :: members => (k, .ofJson v) :: ofJsonMembers members

end

/-- A task whose target holds any of these values; `dumped` is the task as `model_dump_json` writes it. -/
structure AnyTask where
  dumped : WorkTask
  target : List (String × PyValue)
  same : dumped.target = dumpItems target

/-- The task that a call returned is this one, its target included. -/
def AnyTask.IsRead (t : AnyTask) (w : WorkTask) : Prop := w = t.dumped ∧ ofJsonMembers w.target = t.target

/-- A task of the highest priority, with a number that is none. -/
def nanTask : AnyTask where
  dumped := { utcTask with priority := 1, target := [("acres", .null)] }
  target := [("acres", .notFinite)]
  same := rfl

/-- **Two kinds of stray tasks.** A task of priority 5 is pushed and never returned, and a task with a target
beyond JSON is not returned as it was pushed. -/
theorem drain_strayTasks :
    (¬ ∀ (pushed : List WorkTask) (calls : ℕ → PopCall) (s : Store), s.Fresh →
      (∀ n, Covers pushed (calls n)) →
      ∃ fuel returned, drain .strict calls fuel 0 (pushAll pushed s) = some returned ∧
        returned.Perm pushed) ∧
    ¬ ∀ (pushed : List AnyTask) (calls : ℕ → PopCall) (s : Store), s.Fresh →
      (∀ t ∈ pushed, isPolled t.dumped = true) → (∀ n, Covers (pushed.map AnyTask.dumped) (calls n)) →
      ∃ fuel returned, drain .strict calls fuel 0 (pushAll (pushed.map AnyTask.dumped) s) = some returned ∧
        ∀ t ∈ pushed, ∃ w ∈ returned, t.IsRead w := by
  refine ⟨fun h => ?_, fun h => ?_⟩
  · have hc : Covers [lowTask] sampleCall := by
      refine ⟨le_refl _, fun t ht => ?_⟩
      obtain rfl := List.mem_singleton.mp ht
      exact List.mem_cons_self
    obtain ⟨fuel, returned, hdrain, hperm⟩ := h [lowTask] (fun _ => sampleCall) .blank rfl fun _ => hc
    obtain ⟨hhold, hcontent⟩ := pushAll_spec [lowTask] [lowTask] .blank (fun _ ht => ht)
      (queuesHold_fresh rfl)
    have hsame := drain_content Pydantic.strict_documented (fun _ => hc) fuel 0 _ returned hhold hdrain
    -- the queue of priority 5 is not polled, so there was nothing to return
    have hzero : (pushAll [lowTask] .blank).redis.content IsPolledKey = 0 := by
      rw [hcontent]
      exact congrArg₂ (· + ·) (ListStore.content_empty _) rfl
    rw [hzero, Multiset.coe_eq_zero, List.map_eq_nil_iff] at hsame
    rw [hsame] at hperm
    exact absurd hperm.length_eq (by simp)
  · have hprio : ∀ t ∈ [nanTask], isPolled t.dumped = true := by
      intro t ht
      obtain rfl := List.mem_singleton.mp ht
      decide
    have hc : Covers ([nanTask].map AnyTask.dumped) sampleCall := by
      refine ⟨le_refl _, fun t ht => ?_⟩
      obtain rfl := List.mem_singleton.mp ht
      exact List.mem_cons_self
    obtain ⟨fuel, returned, -, hall⟩ := h [nanTask] (fun _ => sampleCall) .blank rfl hprio fun _ => hc
    obtain ⟨w, -, rfl, htarget⟩ := hall nanTask List.mem_cons_self
    -- what is read is `None`
    simp [nanTask, ofJsonMembers, PyValue.ofJson] at htarget

end Legacy

end TaxlienGateway
