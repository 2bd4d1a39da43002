import TaxlienGateway.Framework.LeaseQueue
import TaxlienGateway.Legacy.Completion
import TaxlienGateway.Legacy.Results
import TaxlienGateway.WorkerApi.System

/-!
# Two gateways on one task queue

During the migration the Go gateway and the legacy gateway serve workers from the same queues and processing
lists. `sharedApi` is the system of all calls of both that touch them, interleaved command by command: a worker
may fetch a task from one gateway and report it to the other. The two do not read the same payloads: what is a
task for the one may be an error for the other.

* `sharedApi_refines` — together they are lease queues all the same: each executed command is a transfer, or
  does nothing, whatever the payloads are, and whatever fails;
* `shared_guarantees` — so a queue is first-in first-out over both gateways, no task is lost, and a worker's
  list is changed only by calls for this worker: it grows by what they fetched, and shrinks by payloads that
  name a task to report, as the gateway reads them to which it was reported;
* `Legacy.submitLoop_runOk` — the loop of the legacy `submit_results` that runs here is the one of
  `Legacy.submitResults`.
-/

namespace TaxlienGateway

open Framework

/-! ### The legacy calls -/

namespace Legacy

/-- A result of a batch, with what `upsert_parcel` comes to for it. -/
structure ResultTurn where
  result : ParcelResult
  upsert : Except String Bool

/-- The loop of `submit_results`, command by command. Redis has no part in the session of a request, so what
becomes of its statements is given. -/
def submitLoop (worker_id : String) : List ResultTurn → SubmitResponse → Prog Cmd Reply SubmitResponse
  | [], response => pure response
  | turn :: turns, response =>
    match turn.upsert with
    | .error e => submitLoop worker_id turns (response.addError e)
    | .ok is_new => do
      match ← completeTask worker_id turn.result.task_id with
      | .error e => submitLoop worker_id turns ((response.count is_new).addError e)
      | .ok _ => submitLoop worker_id turns (response.count is_new)

/-- What the statements of a batch come to. -/
def Handling.resultTurns (worker_id : String) : Handling → List Turn → List ResultTurn
  | _, [] => []
  | h, t :: turns =>
    ⟨t.result, (upsertParcel h.session t.statement t.result worker_id).2⟩ ::
      (h.turn worker_id t).resultTurns worker_id turns

/-- The queue's methods do not use the table. -/
theorem runQueue_none (worker_id task_id : String) (s : Store) :
    runQueue (fun _ => none) (completeTask worker_id task_id) s.redis =
      (((completeTask worker_id task_id).runOk server s).1.redis,
        ((completeTask worker_id task_id).runOk server s).2) := by
  have hblank := completeTask_runOk worker_id task_id { Store.blank with redis := s.redis }
  change (((completeTask worker_id task_id).runOk server { Store.blank with redis := s.redis }).1.redis,
    ((completeTask worker_id task_id).runOk server { Store.blank with redis := s.redis }).2) = _
  rw [hblank, completeTask_runOk]
  rcases findTask task_id (s.redis.lists (processingKey worker_id)) with e | (_ | raw) <;> rfl

section Turn

variable {worker_id : String} {h : Handling} {t : Turn} {session : Session ParcelKey Parcel} {is_new : Bool}
  {redis : ListStore String String} {e : String}

theorem turn_of_upsert_error
    (hupsert : upsertParcel h.session t.statement t.result worker_id = (session, .error e)) :
    h.turn worker_id t = { h with session, response := h.response.addError e } := by
  unfold Handling.turn
  rw [hupsert]

theorem turn_of_complete_error
    (hupsert : upsertParcel h.session t.statement t.result worker_id = (session, .ok is_new))
    (hcomplete : runQueue t.redis (completeTask worker_id t.result.task_id) h.redis = (redis, .error e)) :
    h.turn worker_id t = ⟨session, redis, (h.response.count is_new).addError e⟩ := by
  unfold Handling.turn
  rw [hupsert, hcomplete]

theorem turn_of_complete {found : Bool}
    (hupsert : upsertParcel h.session t.statement t.result worker_id = (session, .ok is_new))
    (hcomplete : runQueue t.redis (completeTask worker_id t.result.task_id) h.redis = (redis, .ok found)) :
    h.turn worker_id t = ⟨session, redis, h.response.count is_new⟩ := by
  unfold Handling.turn
  rw [hupsert, hcomplete]

end Turn

/-- **The loop is the one of `submitResults`**, when Redis executes what it is asked. -/
theorem submitLoop_runOk (worker_id : String) (turns : List Turn)
    (hredis : ∀ t ∈ turns, t.redis = fun _ => none) (h : Handling) (s : Store) (hs : s.redis = h.redis) :
    ((submitLoop worker_id (h.resultTurns worker_id turns) h.response).runOk server s).1.redis =
        (turns.foldl (Handling.turn worker_id) h).redis ∧
      ((submitLoop worker_id (h.resultTurns worker_id turns) h.response).runOk server s).2 =
        (turns.foldl (Handling.turn worker_id) h).response := by
  induction turns generalizing h s with
  | nil => exact ⟨hs, rfl⟩
  | cons t turns ih =>
    have ih := ih fun t ht => hredis t (List.mem_cons_of_mem _ ht)
    have hqueue := runQueue_none worker_id t.result.task_id s
    rw [hs, ← hredis t List.mem_cons_self] at hqueue
    rw [List.foldl_cons, Handling.resultTurns, submitLoop]
    cases hupsert : upsertParcel h.session t.statement t.result worker_id with
    | mk session upsert =>
      cases upsert with
      | error e =>
        rw [turn_of_upsert_error hupsert]
        exact ih _ s hs
      | ok is_new =>
        simp only [Prog.runOk_bind]
        cases hanswer : ((completeTask worker_id t.result.task_id).runOk server s).2 with
        | error e =>
          rw [hanswer] at hqueue
          rw [turn_of_complete_error hupsert hqueue]
          exact ih _ _ rfl
        | ok found =>
          rw [hanswer] at hqueue
          rw [turn_of_complete hupsert hqueue]
          exact ih _ _ rfl

/-! ### Their conduct -/

/-- What `complete_task` may do: read the worker's processing list, and remove from it a payload that it takes
for the task. -/
def CompleteRule (worker_id task_id : String) (c : Cmd) : Prop :=
  c = .lrange (processingKey worker_id) ∨
    ∃ raw, c = .lrem (processingKey worker_id) raw ∧ takes task_id raw = true

section Conduct

variable {G : List (Op Cmd Reply) → Cmd → Prop} {h : List (Op Cmd Reply)}

/-- **The rule of `complete_task`**: it reads the list, and then there are three ways to go on. -/
theorem completeTask_obeys {Q : List (Op Cmd Reply) → Except String Bool → Prop} {worker_id task_id : String}
    (hread : G h (.lrange (getProcessingKey worker_id)))
    (hfail : ∀ e, Q (h ++ [⟨.lrange (getProcessingKey worker_id), .error e⟩]) (.error e))
    (hraise : ∀ tasks e, findTask task_id tasks = .error e →
      Q (h ++ [⟨.lrange (getProcessingKey worker_id), .ok tasks⟩]) (.error e))
    (hnone : ∀ tasks, findTask task_id tasks = .ok none →
      Q (h ++ [⟨.lrange (getProcessingKey worker_id), .ok tasks⟩]) (.ok false))
    (hsome : ∀ tasks raw, findTask task_id tasks = .ok (some raw) →
      (lRem (getProcessingKey worker_id) raw : Prog Cmd Reply _).Obeys G
        (fun h r => Q h (r.map fun _ => true)) (h ++ [⟨.lrange (getProcessingKey worker_id), .ok tasks⟩])) :
    (completeTask worker_id task_id).Obeys G Q h := by
  unfold completeTask lRange
  rw [Prog.issue_bind]
  refine ⟨hread, fun r => ?_⟩
  cases r with
  | error e => exact hfail e
  | ok tasks =>
    dsimp only
    rcases hfind : findTask task_id tasks with e | (_ | raw)
    · exact hraise tasks e hfind
    · exact hnone tasks hfind
    · -- found: what is left is the removal
      refine (hsome tasks raw hfind).bind fun h r hr => ?_
      cases r <;> exact hr

/-- **The conduct of `complete_task`.** -/
theorem completeTask_conduct {worker_id task_id : String}
    (hG : ∀ h c, CompleteRule worker_id task_id c → G h c) :
    (completeTask worker_id task_id).Obeys G (fun _ _ => True) h :=
  completeTask_obeys (hG _ _ (.inl rfl)) (fun _ => trivial) (fun _ _ _ => trivial) (fun _ _ => trivial)
    -- only what is found is removed
    fun _ raw hraw => ⟨hG _ _ (.inr ⟨raw, rfl, takes_of_findTask hraw⟩), fun _ => trivial⟩

/-- **The conduct of `submit_results`**: it completes the tasks of the results that were stored. -/
theorem submitLoop_conduct {worker_id : String} (turns : List ResultTurn) (response : SubmitResponse)
    (hG : ∀ turn ∈ turns, turn.upsert.isOk = true → ∀ h c, CompleteRule worker_id turn.result.task_id c → G h c) :
    (submitLoop worker_id turns response).Obeys G (fun _ _ => True) h := by
  induction turns generalizing response h with
  | nil => trivial
  | cons turn turns ih =>
    have hrest := fun t ht => hG t (List.mem_cons_of_mem _ ht)
    unfold submitLoop
    cases hupsert : turn.upsert with
    | error e => exact ih _ hrest
    | ok is_new =>
      have hturn := hG turn List.mem_cons_self (by rw [hupsert]; rfl)
      refine (completeTask_conduct hturn).bind fun h answer _ => ?_
      cases answer with
      | error e => exact ih _ hrest
      | ok found => exact ih _ hrest

end Conduct

end Legacy

/-! ### The calls of both gateways -/

/-- A call that touches tasks. The producer is one of the calls of `workerApi`. -/
inductive GatewayCall where
  /-- A call of the Go gateway. -/
  | go (call : Call)
  /-- Legacy `pop_tasks`; `now` is the time of a task without `created_at`. -/
  | popTasks (now : Legacy.Datetime) (workerID : String) (platforms : List String) (capacity : ℤ)
  /-- Legacy `complete_task` -/
  | completeTask (workerID taskID : String)
  /-- Legacy `submit_results` -/
  | submitResults (workerID : String) (turns : List Legacy.ResultTurn)

abbrev GatewayRet : GatewayCall → Type
  | .go call => Ret call
  | .popTasks .. => Except String (List Legacy.WorkTask)
  | .completeTask .. => Except String Bool
  | .submitResults .. => Legacy.SubmitResponse

def GatewayCall.body (pydantic : Legacy.Pydantic) : (call : GatewayCall) → Prog Cmd Reply (GatewayRet call)
  | go call => TaxlienGateway.body call
  | popTasks now workerID platforms capacity => Legacy.popTasks pydantic now workerID platforms capacity
  | completeTask workerID taskID => Legacy.completeTask workerID taskID
  | submitResults workerID turns => Legacy.submitLoop workerID turns ⟨0, 0, 0, []⟩

/-- Both gateways on one Redis. -/
def sharedApi (pydantic : Legacy.Pydantic) :
    System (Pool Cmd Reply GatewayCall GatewayRet Store) (Event Cmd Reply GatewayCall GatewayRet) :=
  pool server (GatewayCall.body pydantic) Store.Fresh

/-- The call polls this queue for this worker. -/
def GatewayCall.Polls (w platform : String) (priority : ℤ) : GatewayCall → Prop
  | go (.popTasks w' platforms _) => w' = w ∧ platform ∈ platforms ∧ priority ∈ priorities
  | popTasks _ w' platforms _ => w' = w ∧ platform ∈ platforms ∧ priority ∈ priorities
  | _ => False

/-- The call reports, for this worker, a task that its gateway takes the payload for. In a legacy batch, a
result that was not stored reports nothing. -/
def GatewayCall.Reports (w raw : String) : GatewayCall → Prop
  | go call => ∃ t, Model.unmarshalTask raw = some t ∧ call.Requests w t.taskID
  | popTasks .. => False
  | completeTask w' taskID => w' = w ∧ Legacy.takes taskID raw = true
  | submitResults w' turns => w' = w ∧
      ∃ turn ∈ turns, turn.upsert.isOk = true ∧ Legacy.takes turn.result.task_id raw = true

/-- Which command can come from which call. -/
inductive GatewayCall.May : GatewayCall → Cmd → Prop
  | push {task : Legacy.WorkTask} :
      May (.go (.pushTask task)) (.lpush (queueKey task.platform task.priority) task.modelDumpJson)
  | move {call : GatewayCall} {w platform : String} {priority : ℤ} (h : call.Polls w platform priority) :
      May call (.rpoplpush (queueKey platform priority) (processingKey w))
  | read {call : GatewayCall} {w : String} : May call (.lrange (processingKey w))
  | remove {call : GatewayCall} {w raw : String} (h : call.Reports w raw) :
      May call (.lrem (processingKey w) raw)
  | query {call : GatewayCall} {key : ParcelKey} : May call (.selectExists key)
  | insert {call : GatewayCall} {key : ParcelKey} {data : Json} {scrapedAt : ℤ} {w : String} :
      May call (.insertParcel key data scrapedAt w)

theorem GatewayCall.May.go {call : Call} {c : Cmd} (h : Allowed call c) : May (.go call) c := by
  cases h with
  | push => exact .push
  | move hplat hprio => exact .move ⟨rfl, hplat, hprio⟩
  | read => exact .read
  | remove hreq ht => exact .remove ⟨_, ht, hreq⟩
  | query => exact .query
  | insert hr => exact .insert

section Inversion

variable {call : GatewayCall} {platform w raw key : String} {priority : ℤ}

/-- **Inversion.** A push is part of `push_task`. -/
theorem GatewayCall.May.of_lpush (h : call.May (.lpush key raw)) :
    ∃ task, call = .go (.pushTask task) ∧ key = queueKey task.platform task.priority ∧ raw = task.modelDumpJson := by
  cases h with
  | @push task => exact ⟨task, rfl, rfl, rfl⟩

/-- A move from a queue to a list is part of a poll. -/
theorem GatewayCall.May.of_rpoplpush
    (h : call.May (.rpoplpush (queueKey platform priority) (processingKey w))) :
    call.Polls w platform priority := by
  generalize hc : Cmd.rpoplpush (queueKey platform priority) (processingKey w) = c at h
  cases h with
  | move hpolls =>
    obtain ⟨hsrc, hdst⟩ := Cmd.rpoplpush.inj hc
    obtain ⟨rfl, rfl⟩ := queueKey_inj hsrc
    obtain rfl := processingKey_inj hdst
    exact hpolls
  | _ => exact absurd hc (by simp)

/-- A removal is part of a report. -/
theorem GatewayCall.May.of_lrem (h : call.May (.lrem (processingKey w) raw)) : call.Reports w raw := by
  generalize hc : Cmd.lrem (processingKey w) raw = c at h
  cases h with
  | remove hreports =>
    obtain ⟨hkey, rfl⟩ := Cmd.lrem.inj hc
    obtain rfl := processingKey_inj hkey
    exact hreports
  | _ => exact absurd hc (by simp)

end Inversion

theorem Legacy.CompleteRule.may {call : GatewayCall} {w taskID : String} {c : Cmd}
    (hcall : ∀ raw, Legacy.takes taskID raw = true → call.Reports w raw)
    (h : Legacy.CompleteRule w taskID c) : call.May c := by
  rcases h with rfl | ⟨raw, rfl, htakes⟩
  · exact .read
  · exact .remove (hcall raw htakes)

/-- **The conduct of every call.** -/
theorem gatewayBody_obeys (pydantic : Legacy.Pydantic) :
    Obeyed (GatewayCall.body pydantic) (fun call _ c => call.May c) fun _ _ _ => True := by
  intro call
  cases call with
  | go call => exact (body_obeys call).mono (fun _ _ hc => .go hc.allowed) fun _ _ _ => trivial
  | popTasks now w platforms capacity =>
    refine pollPlatforms_obeys fun h c hc => ?_
    obtain ⟨platform, hplat, priority, hprio, rfl⟩ := hc
    exact .move ⟨rfl, hplat, hprio⟩
  | completeTask w taskID =>
    exact Legacy.completeTask_conduct fun h c hc => hc.may fun raw htakes => ⟨rfl, htakes⟩
  | submitResults w turns =>
    exact Legacy.submitLoop_conduct turns _ fun turn hturn hok h c hc =>
      hc.may fun raw htakes => ⟨rfl, turn, hturn, hok, htakes⟩

/-! ### The lease queues behind them -/

/-- A queue for each platform and priority, and a list for each worker. -/
def taskKeys : LeaseKeys (String × ℤ) String String where
  queue q := queueKey q.1 q.2
  holder := processingKey
  queue_injective := fun _ _ h => Prod.ext (queueKey_inj h).1 (queueKey_inj h).2
  holder_injective := fun _ _ h => processingKey_inj h
  queue_ne_holder q w := queueKey_ne_processingKey q.1 q.2 w

/-- An executed command of either gateway. -/
abbrev SharedStep : Type := Applied Cmd Reply GatewayCall

abbrev TaskTransfer : Type := Transfer (String × ℤ) String String

/-- What an executed command does to a task, if it does anything. -/
inductive Transfers : SharedStep → Option TaskTransfer → Prop
  | push {call : GatewayCall} {platform raw : String} {priority : ℤ} {n : ℕ} :
      Transfers ⟨call, .lpush (queueKey platform priority) raw, n⟩ (some (.enqueue (platform, priority) raw))
  | move {call : GatewayCall} {platform w raw : String} {priority : ℤ} :
      Transfers ⟨call, .rpoplpush (queueKey platform priority) (processingKey w), some raw⟩
        (some (.lease (platform, priority) w raw))
  | empty {call : GatewayCall} {platform w : String} {priority : ℤ} :
      Transfers ⟨call, .rpoplpush (queueKey platform priority) (processingKey w), none⟩
        (some (.miss (platform, priority) w))
  | remove {call : GatewayCall} {w raw : String} {n : ℕ} :
      Transfers ⟨call, .lrem (processingKey w) raw, n + 1⟩ (some (.release w raw))
  -- another call has removed the payload since it was found
  | gone {call : GatewayCall} {key raw : String} : Transfers ⟨call, .lrem key raw, 0⟩ none
  | read {call : GatewayCall} {key : String} {raws : List String} : Transfers ⟨call, .lrange key, raws⟩ none
  | query {call : GatewayCall} {key : ParcelKey} {found : Bool} : Transfers ⟨call, .selectExists key, found⟩ none
  | insert {call : GatewayCall} {key : ParcelKey} {data : Json} {scrapedAt : ℤ} {w : String} :
      Transfers ⟨call, .insertParcel key data scrapedAt w, ()⟩ none

/-- **Step.** A command that a call may issue is a transfer, or does nothing to tasks. -/
theorem GatewayCall.May.transfers {call : GatewayCall} {c : Cmd} {s s' : Store} {r : Reply c} (h : call.May c)
    (hx : server.exec c s = (s', r)) :
    (∃ t, Transfers ⟨call, c, r⟩ (some t) ∧
      LeaseQueues.Step (taskKeys.view s.redis) t (taskKeys.view s'.redis)) ∨
    Transfers ⟨call, c, r⟩ none ∧ taskKeys.view s'.redis = taskKeys.view s.redis := by
  cases h with
  | @push task =>
    rw [exec_lpush hx]
    exact .inl ⟨_, .push, taskKeys.step_lpush s.redis (task.platform, task.priority) _⟩
  | @move _ w platform priority hpolls =>
    have hredis := exec_rpoplpush hx
    cases r with
    | none => exact .inl ⟨_, .empty, taskKeys.step_rpoplpush_none (q := (platform, priority)) hredis⟩
    | some raw =>
      exact .inl ⟨_, .move, taskKeys.step_rpoplpush (q := (platform, priority)) hredis⟩
  | read =>
    obtain ⟨rfl, -⟩ := exec_lrange hx
    exact .inr ⟨.read, rfl⟩
  | remove hreports =>
    have hredis := exec_lrem hx
    cases r with
    | zero => exact .inr ⟨.gone, taskKeys.view_lrem_zero hredis⟩
    | succ n => exact .inl ⟨_, .remove, taskKeys.step_lrem hredis⟩
  | query =>
    rw [exec_selectExists hx]
    exact .inr ⟨.query, rfl⟩
  | insert => exact .inr ⟨.insert, congrArg taskKeys.view (exec_insertParcel hx).1⟩

/-- **Run.** -/
theorem exists_transfers {pydantic : Legacy.Pydantic} {es : List (Event Cmd Reply GatewayCall GatewayRet)}
    {p : Pool Cmd Reply GatewayCall GatewayRet Store} (hr : (sharedApi pydantic).Run es p) :
    ∃ ts, (leaseQueues (String × ℤ) String String).Run ts (taskKeys.view p.store.redis) ∧
      Readout Transfers (applied es) ts := by
  refine (gatewayBody_obeys pydantic).applied_invariant (I := fun hist s =>
    ∃ ts, (leaseQueues (String × ℤ) String String).Run ts (taskKeys.view s.redis) ∧ Readout Transfers hist ts)
    ?_ ?_ hr
  · intro s hs
    refine ⟨[], .init ?_, .nil⟩
    rw [hs]
    exact taskKeys.view_empty
  · rintro hist s call own c s' r ⟨ts, hrun, hread⟩ hmay hx
    obtain ⟨t, hshows, hstep⟩ | ⟨hshows, hview⟩ := hmay.transfers hx
    · exact ⟨ts ++ [t], hrun.step hstep, hread.concat hshows⟩
    · refine ⟨ts, ?_, ?_⟩
      · rwa [hview]
      · simpa using hread.concat hshows

/-- **Refinement.** On tasks, a run of both gateways is a run of lease queues. -/
theorem sharedApi_refines (pydantic : Legacy.Pydantic) (es : List (Event Cmd Reply GatewayCall GatewayRet))
    (p : Pool Cmd Reply GatewayCall GatewayRet Store) (hr : (sharedApi pydantic).Run es p) :
    ∃ ts, (leaseQueues (String × ℤ) String String).Run ts (taskKeys.view p.store.redis) ∧
      Readout Transfers (applied es) ts :=
  exists_transfers hr

/-! ### The guarantees to workers -/

section Run

variable {pydantic : Legacy.Pydantic} {es : List (Event Cmd Reply GatewayCall GatewayRet)}
  {p : Pool Cmd Reply GatewayCall GatewayRet Store}

/-- An executed command is one that its call may issue, and the call was started. -/
theorem may_of_applied (hr : (sharedApi pydantic).Run es p) {a : SharedStep} (ha : a ∈ applied es) :
    a.call.May a.cmd ∧ ∃ i, .start i a.call ∈ es := by
  refine ⟨?_, start_mem_of_applied hr ha⟩
  obtain ⟨i, o, he, -⟩ := exists_cmd_of_mem_applied ha
  obtain ⟨pre, post, rfl⟩ := List.append_of_mem he
  exact (gatewayBody_obeys pydantic).guarded hr

/-- What holds of the tasks after a history of both gateways that has transferred `ts`. -/
structure SharedGuarantees (es : List (Event Cmd Reply GatewayCall GatewayRet)) (ts : List TaskTransfer)
    (redis : ListStore String String) : Prop where
  read : Readout Transfers (applied es) ts
  /-- All workers of both gateways together take from a queue in push order, and nothing is left out. -/
  fifo : ∀ platform priority, leased (platform, priority) ts ++
    (redis.lists (queueKey platform priority)).reverse = enqueued (platform, priority) ts
  /-- What a worker has been given is in its list until it is removed from there. -/
  held : ∀ w, (redis.lists (processingKey w) : Multiset String) + (released w ts : Multiset String) =
    (granted w ts : Multiset String)
  /-- A worker finds a queue empty only when all that was pushed to it has been taken. -/
  emptied : ∀ pre post platform priority w, ts = pre ++ .miss (platform, priority) w :: post →
    leased (platform, priority) pre = enqueued (platform, priority) pre
  /-- A queue holds tasks that were pushed for it. -/
  pushed : ∀ platform priority raw, .enqueue (platform, priority) raw ∈ ts → ∃ i task,
    .start i (.go (.pushTask task)) ∈ es ∧ task.platform = platform ∧ task.priority = priority ∧
      task.modelDumpJson = raw
  /-- A worker is given what it has asked for. -/
  polled : ∀ platform priority w raw, .lease (platform, priority) w raw ∈ ts → ∃ i call,
    .start i call ∈ es ∧ call.Polls w platform priority
  /-- A payload is removed from the list of the worker that reports it, to either gateway. -/
  reported : ∀ w raw, .release w raw ∈ ts → ∃ i call, .start i call ∈ es ∧ call.Reports w raw
  /-- A payload is removed no more often than it was given. -/
  once : ∀ pre post w raw, ts = pre ++ .release w raw :: post →
    (released w pre).count raw < (granted w pre).count raw

/-- They hold of the run of lease queues behind the history. -/
theorem guarantees_of_readout (hr : (sharedApi pydantic).Run es p) {ts : List TaskTransfer}
    (hrun : (leaseQueues (String × ℤ) String String).Run ts (taskKeys.view p.store.redis))
    (hread : Readout Transfers (applied es) ts) : SharedGuarantees es ts p.store.redis := by
  refine ⟨hread, fun platform priority => leased_append_waiting hrun (platform, priority),
    fun w => held_add_released hrun w, ?emptied, ?pushed, ?polled, ?reported, ?once⟩
  case emptied =>
    rintro pre post platform priority w rfl
    exact leased_eq_enqueued_of_miss hrun
  case pushed =>
    intro platform priority raw hmem
    obtain ⟨⟨call, c, r⟩, ha, hshows⟩ := hread.exists_of_mem hmem
    obtain ⟨hmay, i, hstart⟩ := may_of_applied hr ha
    cases hshows with
    | push =>
      obtain ⟨task, rfl, hkey, rfl⟩ := hmay.of_lpush
      obtain ⟨rfl, rfl⟩ := queueKey_inj hkey
      exact ⟨i, task, hstart, rfl, rfl, rfl⟩
  case polled =>
    intro platform priority w raw hmem
    obtain ⟨⟨call, c, r⟩, ha, hshows⟩ := hread.exists_of_mem hmem
    obtain ⟨hmay, i, hstart⟩ := may_of_applied hr ha
    cases hshows with
    | move => exact ⟨i, call, hstart, hmay.of_rpoplpush⟩
  case reported =>
    intro w raw hmem
    obtain ⟨⟨call, c, r⟩, ha, hshows⟩ := hread.exists_of_mem hmem
    obtain ⟨hmay, i, hstart⟩ := may_of_applied hr ha
    cases hshows with
    | remove => exact ⟨i, call, hstart, hmay.of_lrem⟩
  case once =>
    rintro pre post w raw rfl
    exact count_released_lt hrun

end Run

/-- **The guarantees of both gateways together.** -/
theorem shared_guarantees (pydantic : Legacy.Pydantic) (es : List (Event Cmd Reply GatewayCall GatewayRet))
    (p : Pool Cmd Reply GatewayCall GatewayRet Store) (hr : (sharedApi pydantic).Run es p) :
    ∃ ts, SharedGuarantees es ts p.store.redis := by
  obtain ⟨ts, hrun, hread⟩ := exists_transfers hr
  exact ⟨ts, guarantees_of_readout hr hrun hread⟩

/-! ### A delivery by both gateways -/

/-- A task that is fetched from the legacy gateway, and reported to the Go gateway. -/
def sharedDelivery : List GatewayCall :=
  [.go (.pushTask sampleTask), .popTasks Legacy.sampleDatetime "w1" ["beacon"] 5, .go (.completeTask "w1" "t1")]

/-- Its events. -/
def sharedEvents : List (Event Cmd Reply GatewayCall GatewayRet) :=
  sessionEvents server (GatewayCall.body .strict) sharedDelivery .blank

/-- The state it ends in. -/
def sharedPool : Pool Cmd Reply GatewayCall GatewayRet Store :=
  ⟨sessionStore server (GatewayCall.body .strict) sharedDelivery .blank, fun _ => none⟩

theorem run_sharedDelivery : (sharedApi .strict).Run sharedEvents sharedPool := run_session _ rfl

theorem sharedApi_refines_delivery : ∃ ts,
    (leaseQueues (String × ℤ) String String).Run ts (taskKeys.view sharedPool.store.redis) ∧
      Readout Transfers (applied sharedEvents) ts :=
  sharedApi_refines .strict _ _ run_sharedDelivery

theorem shared_guarantees_delivery :
    (∃ ts, SharedGuarantees sharedEvents ts sharedPool.store.redis) ∧
      sharedPool.store.redis.lists (processingKey "w1") = [] :=
  ⟨shared_guarantees .strict _ _ run_sharedDelivery, by decide +kernel⟩

end TaxlienGateway
