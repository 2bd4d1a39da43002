import TaxlienGateway.WorkerApi.System

/-!
# Conservation of tasks and first-in first-out hand-out

No interleaving, error or crash of the calls of the worker API loses, duplicates or reorders a
payload:

* `content_add_removed` — what lies in the queues and the processing lists, together with what
  `LREM` removed, is what was pushed, as multisets;
* `taken_append_queued` — a queue is the rest of its push order after what was taken from it;
* `processing_add_removed` — a processing list is what was moved there less what was removed from it;
* `task_conservation` — the guarantees of the worker API on tasks, assembled.

All come from one invariant, `Ledger`, carried by each executed command (`Ledger.step`).
-/

namespace TaxlienGateway

open Framework Model

/-- The Redis keys `queue:*` and `processing:*`. -/
def IsTaskKey (key : String) : Prop :=
  "queue:".toList <+: key.toList ∨ "processing:".toList <+: key.toList

theorem isTaskKey_queueKey (platform : String) (priority : ℤ) :
    IsTaskKey (queueKey platform priority) := by
  refine .inl ?_
  rw [toList_queueKey]
  exact List.prefix_append _ _

theorem isTaskKey_processingKey (w : String) : IsTaskKey (processingKey w) := by
  refine .inr ?_
  unfold processingKey
  rw [String.toList_append]
  exact List.prefix_append _ _

/-! ### The ledger -/

/-- The lists of Redis, accounted for by the commands executed so far. -/
structure Ledger (hist : List Step) (redis : ListStore String String) : Prop where
  content : redis.content IsTaskKey + (hist.flatMap removes : Multiset String) =
    (hist.flatMap pushes : Multiset String)
  queue : ∀ platform priority,
    hist.flatMap (takesFrom (queueKey platform priority)) ++
      (redis.lists (queueKey platform priority)).reverse =
    hist.flatMap (pushesTo (queueKey platform priority))
  processing : ∀ w, (redis.lists (processingKey w) : Multiset String) +
      (hist.flatMap (removesFrom (processingKey w)) : Multiset String) =
    (hist.flatMap (movesTo (processingKey w)) : Multiset String)

theorem Ledger.empty : Ledger [] .empty where
  content := by simp
  queue := by simp
  processing := by simp

/-- A command that touches neither the lists nor the counts leaves the ledger balanced. -/
theorem Ledger.of_eq {hist : List Step} {redis redis' : ListStore String String} {a : Step}
    (h : Ledger hist redis) (hredis : redis' = redis) (hpush : pushes a = [])
    (hpushTo : ∀ k, pushesTo k a = []) (htake : ∀ k, takesFrom k a = [])
    (hmove : ∀ k, movesTo k a = []) (hrem : removes a = [])
    (hremFrom : ∀ k, removesFrom k a = []) : Ledger (hist ++ [a]) redis' := by
  subst hredis
  constructor
  · simpa [hpush, hrem] using h.content
  · intro platform priority
    simpa [hpushTo, htake] using h.queue platform priority
  · intro w
    simpa [hmove, hremFrom] using h.processing w

theorem Ledger.lpush {hist : List Step} {redis : ListStore String String} {call : Call}
    {platform payload : String} {priority : ℤ} {n : ℕ} (h : Ledger hist redis) :
    Ledger (hist ++ [⟨call, .lpush (queueKey platform priority) payload, n⟩])
      (redis.lpush (queueKey platform priority) payload) := by
  constructor
  · -- one more payload is pushed, and one more is there
    rw [redis.content_lpush payload (isTaskKey_queueKey platform priority)]
    simp only [List.flatMap_append, ← Multiset.coe_add, ← h.content]
    simp only [List.flatMap_singleton, removes, pushes, Multiset.coe_nil, add_zero,
      Multiset.coe_singleton]
    exact add_right_comm _ _ _
  · intro platform' priority'
    simp only [List.flatMap_append, List.flatMap_singleton, ← h.queue platform' priority',
      takesFrom, pushesTo, List.append_nil, List.append_assoc]
    by_cases hk : queueKey platform priority = queueKey platform' priority'
    · -- read from the right, the payload comes last on both sides
      rw [if_pos hk, ← hk, redis.reverse_lpush]
    · rw [if_neg hk, redis.lists_lpush_of_ne payload (Ne.symm hk), List.append_nil]
  · intro w
    rw [redis.lists_lpush_of_ne payload (queueKey_ne_processingKey _ _ w).symm]
    simpa [movesTo, removesFrom] using h.processing w

theorem Ledger.rpoplpush {hist : List Step} {redis redis' : ListStore String String} {call : Call}
    {platform w : String} {priority : ℤ} {reply : Option String} (h : Ledger hist redis)
    (hx : redis.rpoplpush (queueKey platform priority) (processingKey w) = (redis', reply)) :
    Ledger (hist ++ [⟨call, .rpoplpush (queueKey platform priority) (processingKey w), reply⟩])
      redis' := by
  have hne : queueKey platform priority ≠ processingKey w := queueKey_ne_processingKey _ _ w
  constructor
  · -- both ends of the move are task keys
    rw [redis.content_rpoplpush (isTaskKey_queueKey _ _) (isTaskKey_processingKey w) hx]
    simpa [pushes, removes] using h.content
  · intro platform' priority'
    simp only [List.flatMap_append, List.flatMap_singleton, ← h.queue platform' priority',
      takesFrom, pushesTo, List.append_nil, List.append_assoc]
    by_cases hk : queueKey platform priority = queueKey platform' priority'
    · -- the payload changes sides: from the head of the queue to the end of what was taken
      rw [if_pos hk, ← hk]
      cases reply with
      | none => rw [(ListStore.rpoplpush_none hx).2]; rfl
      | some v => rw [ListStore.reverse_rpoplpush hne hx]; rfl
    · rw [if_neg hk, List.nil_append, ListStore.lists_rpoplpush_of_ne (Ne.symm hk)
        (queueKey_ne_processingKey _ _ w) hx]
  · intro w'
    simp only [List.flatMap_append, List.flatMap_singleton, ← Multiset.coe_add,
      ← h.processing w', movesTo, removesFrom, Multiset.coe_nil, add_zero]
    -- only the list of the worker who polls gets the payload
    by_cases hw : processingKey w = processingKey w'
    · rw [if_pos hw, ← hw]
      cases reply with
      | none =>
        rw [(ListStore.rpoplpush_none hx).2]
        simp
      | some v =>
        rw [ListStore.lists_rpoplpush_dst hne hx]
        simp [add_comm]
    · rw [if_neg hw, ListStore.lists_rpoplpush_of_ne (queueKey_ne_processingKey _ _ w').symm
        (Ne.symm hw) hx]
      simp

theorem Ledger.lrem {hist : List Step} {redis : ListStore String String} {call : Call}
    {w payload : String} (h : Ledger hist redis) :
    Ledger (hist ++ [⟨call, .lrem (processingKey w) payload,
      (redis.lrem (processingKey w) payload).2⟩]) (redis.lrem (processingKey w) payload).1 := by
  constructor
  · -- `LREM` reports as many copies as it takes out
    have hrem := redis.content_lrem payload (isTaskKey_processingKey w)
    simp only [List.flatMap_append, List.flatMap_singleton, ← Multiset.coe_add, ← h.content,
      pushes, removes, Multiset.coe_nil, add_zero, Multiset.coe_replicate, ← hrem]
    rw [← add_assoc]
    exact add_right_comm _ _ _
  · intro platform priority
    rw [redis.lists_lrem_of_ne payload (queueKey_ne_processingKey platform priority w)]
    simpa [takesFrom, pushesTo] using h.queue platform priority
  · intro w'
    simp only [List.flatMap_append, List.flatMap_singleton, ← Multiset.coe_add,
      ← h.processing w', movesTo, removesFrom, Multiset.coe_nil, add_zero]
    by_cases hw : processingKey w = processingKey w'
    · have hlist := redis.coe_lists_lrem (processingKey w) payload
      rw [if_pos hw, ← hw, ← hlist, Multiset.coe_replicate, ← add_assoc]
      exact add_right_comm _ _ _
    · rw [if_neg hw, redis.lists_lrem_of_ne payload (Ne.symm hw)]
      simp

/-- **Step.** Every command a call may issue keeps the ledger balanced. -/
theorem Ledger.step {hist : List Step} {s s' : Store} {call : Call} {c : Cmd} {r : Reply c}
    (h : Ledger hist s.redis) (hc : Allowed call c) (hx : server.exec c s = (s', r)) :
    Ledger (hist ++ [⟨call, c, r⟩]) s'.redis := by
  -- `read`, `query` and `insert` leave the lists alone
  cases hc with
  | push =>
    rw [exec_lpush hx]
    exact h.lpush
  | move => exact h.rpoplpush (exec_rpoplpush hx)
  | read =>
    obtain ⟨rfl, -⟩ := exec_lrange hx
    exact h.of_eq rfl rfl (fun _ => rfl) (fun _ => rfl) (fun _ => rfl) rfl fun _ => rfl
  | @remove _ w raw _ _ _ =>
    have hrem : Ledger (hist ++ [⟨call, .lrem (processingKey w) raw, _⟩]) _ := h.lrem
    rw [exec_lrem hx] at hrem
    exact hrem
  | query =>
    rw [exec_selectExists hx]
    exact h.of_eq rfl rfl (fun _ => rfl) (fun _ => rfl) (fun _ => rfl) rfl fun _ => rfl
  | insert =>
    exact h.of_eq (exec_insertParcel hx).1 rfl (fun _ => rfl) (fun _ => rfl) (fun _ => rfl) rfl
      fun _ => rfl

/-- **Run.** The ledger is balanced along every run. -/
theorem ledger_of_run {es : List (Event Cmd Reply Call Ret)} {p : Pool Cmd Reply Call Ret Store}
    (hr : workerApi.Run es p) : Ledger (applied es) p.store.redis := by
  refine body_obeys.applied_invariant (I := fun hist s => Ledger hist s.redis) ?_ ?_ hr
  · intro s hs
    rw [hs]
    exact .empty
  · intro hist s call own c s' r h hc hx
    exact h.step hc.allowed hx

/-! ### What the ledger says -/

section Run

variable {es : List (Event Cmd Reply Call Ret)} {p : Pool Cmd Reply Call Ret Store}

/-- **Conservation.** -/
theorem content_add_removed (hr : workerApi.Run es p) :
    p.store.redis.content IsTaskKey + (collect removes es : Multiset String) =
      (collect pushes es : Multiset String) :=
  (ledger_of_run hr).content

/-- **First in, first out.** What was taken from a queue, followed by what is still in it from right
to left, is what was pushed to it. -/
theorem taken_append_queued (hr : workerApi.Run es p) (platform : String) (priority : ℤ) :
    collect (takesFrom (queueKey platform priority)) es ++
        (p.store.redis.lists (queueKey platform priority)).reverse =
      collect (pushesTo (queueKey platform priority)) es :=
  (ledger_of_run hr).queue platform priority

/-- What lies in a processing list or was removed from it was moved there. -/
theorem processing_add_removed (hr : workerApi.Run es p) (w : String) :
    (p.store.redis.lists (processingKey w) : Multiset String) +
        (collect (removesFrom (processingKey w)) es : Multiset String) =
      (collect (movesTo (processingKey w)) es : Multiset String) :=
  (ledger_of_run hr).processing w

/-- Every command in a history is one its call is allowed. -/
theorem allowed_of_mem (hr : workerApi.Run es p) {i : ℕ} {call : Call} {c : Cmd}
    {o : Outcome (Reply c)} (he : .cmd i call c o ∈ es) : Allowed call c := by
  obtain ⟨pre, post, rfl⟩ := List.append_of_mem he
  exact (body_obeys.guarded hr).allowed

theorem allowed_of_applied (hr : workerApi.Run es p) {a : Step} (ha : a ∈ applied es) :
    Allowed a.call a.cmd := by
  obtain ⟨i, o, he, -⟩ := exists_cmd_of_mem_applied ha
  exact allowed_of_mem hr he

/-- A push to the queue of a platform and a priority is the push of a task of that platform and
priority. -/
theorem exists_push_of_mem (hr : workerApi.Run es p) {platform raw : String} {priority : ℤ}
    (h : raw ∈ collect (pushesTo (queueKey platform priority)) es) :
    ∃ task n, ⟨.pushTask task, .lpush (queueKey platform priority) raw, n⟩ ∈ applied es ∧
      task.platform = platform ∧ task.priority = priority ∧ task.modelDumpJson = raw := by
  obtain ⟨a, ha, hraw⟩ := List.mem_flatMap.mp h
  have hall := allowed_of_applied hr ha
  obtain ⟨call, c, n⟩ := a
  cases hall with
  | @push task =>
    by_cases hk : queueKey task.platform task.priority = queueKey platform priority
    · obtain rfl : raw = task.modelDumpJson := by simpa [pushesTo, hk] using hraw
      obtain ⟨hplat, hprio⟩ := queueKey_inj hk
      rw [hk] at ha
      exact ⟨task, n, ha, hplat, hprio, rfl⟩
    · simp [pushesTo, hk] at hraw
  | _ => simp [pushesTo] at hraw

/-- A move to the processing list of a worker is part of a `PopTasks` of that worker. -/
theorem exists_move_of_mem (hr : workerApi.Run es p) {w raw : String}
    (h : raw ∈ collect (movesTo (processingKey w)) es) :
    ∃ platforms capacity src,
      ⟨.popTasks w platforms capacity, .rpoplpush src (processingKey w), some raw⟩ ∈ applied es := by
  obtain ⟨a, ha, hraw⟩ := List.mem_flatMap.mp h
  have hall := allowed_of_applied hr ha
  obtain ⟨call, c, reply⟩ := a
  cases hall with
  | @move w' platforms capacity platform priority _ _ =>
    by_cases hk : processingKey w' = processingKey w
    · obtain rfl : reply = some raw := by simpa [movesTo, hk] using hraw
      obtain rfl := processingKey_inj hk
      exact ⟨platforms, capacity, _, ha⟩
    · simp [movesTo, hk] at hraw
  | _ => simp [movesTo] at hraw

end Run

/-! ### The guarantees of the worker API on tasks -/

/-- What holds of the tasks after a history. -/
structure TaskGuarantees (es : List (Event Cmd Reply Call Ret))
    (redis : ListStore String String) : Prop where
  /-- Nothing is lost and nothing is made up. -/
  conserved : redis.content IsTaskKey + (collect removes es : Multiset String) =
    (collect pushes es : Multiset String)
  /-- A queue holds payloads pushed for its platform and priority. -/
  queued : ∀ platform priority, ∀ raw ∈ redis.lists (queueKey platform priority),
    ∃ task n, ⟨.pushTask task, .lpush (queueKey platform priority) raw, n⟩ ∈ applied es ∧
      task.platform = platform ∧ task.priority = priority ∧ task.modelDumpJson = raw
  /-- A processing list holds payloads that a `PopTasks` of its worker moved there. -/
  processing : ∀ w, ∀ raw ∈ redis.lists (processingKey w), ∃ platforms capacity src,
    ⟨.popTasks w platforms capacity, .rpoplpush src (processingKey w), some raw⟩ ∈ applied es
  /-- All workers together take from a queue in push order, each copy once. -/
  fifo : ∀ platform priority, collect (takesFrom (queueKey platform priority)) es <+:
    collect (pushesTo (queueKey platform priority)) es
  /-- A removal is issued on the caller's own list, for a payload with a task id it was asked to
  remove. -/
  removals : ∀ i call key raw o, .cmd i call (.lrem key raw) o ∈ es →
    ∃ w t, key = processingKey w ∧ unmarshalTask raw = some t ∧ call.Requests w t.taskID

/-- **Task conservation.** Along every run of the worker API. -/
theorem task_conservation {es : List (Event Cmd Reply Call Ret)}
    {p : Pool Cmd Reply Call Ret Store} (hr : workerApi.Run es p) :
    TaskGuarantees es p.store.redis where
  conserved := content_add_removed hr
  queued platform priority raw hraw := by
    -- what is still queued is a suffix of what was pushed
    refine exists_push_of_mem hr ?_
    rw [← taken_append_queued hr platform priority]
    exact List.mem_append_right _ (List.mem_reverse.mpr hraw)
  processing w raw hraw := by
    refine exists_move_of_mem hr ?_
    rw [← Multiset.mem_coe, ← processing_add_removed hr w]
    exact Multiset.mem_add.mpr (.inl hraw)
  fifo platform priority := ⟨_, taken_append_queued hr platform priority⟩
  removals i call key raw o he := by
    cases allowed_of_mem hr he with
    | @remove _ w _ t hreq ht => exact ⟨w, t, rfl, ht, hreq⟩

/-- A task pushed, fetched and completed. -/
theorem task_conservation_delivery :
    TaskGuarantees (sampleEvents [.completeTask "w1" "t1"])
      (samplePool [.completeTask "w1" "t1"]).store.redis ∧
    collect removes (sampleEvents [.completeTask "w1" "t1"]) = [sampleTask.modelDumpJson] :=
  ⟨task_conservation (sample_run _), by decide +kernel⟩

end TaxlienGateway
