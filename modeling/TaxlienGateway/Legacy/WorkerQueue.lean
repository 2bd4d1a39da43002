import TaxlienGateway.Legacy.Worker
import TaxlienGateway.Service.Polling

/-!
# The task queue of the legacy gateway

`legacy/app/services/worker_queue.py`. `pushTask` is the only producer of tasks; `popTasks` polls the
queues as the Go gateway does, and `completeTask` removes a task from the processing list of the
worker. An exception ends a method; here it is an `Except.error`.
-/

namespace TaxlienGateway

open Framework

namespace Legacy

/-- `f"queue:{platform}:p{priority}"` -/
def getQueueKey (platform : String) (priority : ℤ) : String :=
  "queue:" ++ platform ++ ":p" ++ toString priority

/-- `f"processing:{worker_id}"` -/
def getProcessingKey (workerID : String) : String := "processing:" ++ workerID

/-- Both gateways build the same keys, so the polling loop can name them once. -/
theorem getQueueKey_eq : getQueueKey = queueKey ∧ getProcessingKey = processingKey := ⟨rfl, rfl⟩

/-- `WorkerQueue.push_task` -/
def pushTask (task : WorkTask) : Prog Cmd Reply (Except String Unit) := do
  match ← lPush (getQueueKey task.platform task.priority) task.modelDumpJson with
  | .error e => pure (.error e)
  | .ok _ => pure (.ok ())

/-! ### pop_tasks -/

/-- The exception of `json.loads` or `WorkTask(**task_data)`. -/
def validationError : String := "ValidationError"

/-- The decoding step of `pop_tasks`; `if raw_task:` skips an empty payload. -/
def decodeTask (pydantic : Pydantic) (now : Datetime) (raw : String) : Except String (Option WorkTask) :=
  if raw = "" then .ok none
  else match WorkTask.loads pydantic now raw with
    | none => .error validationError
    | some t => .ok (some t)

/-- `WorkerQueue.pop_tasks`; `now` is what `datetime.utcnow` returns for a task without
`created_at`. -/
def popTasks (pydantic : Pydantic) (now : Datetime) (workerID : String) (platforms : List String) (capacity : ℤ) :
    Prog Cmd Reply (Except String (List WorkTask)) :=
  pollPlatforms (decodeTask pydantic now) (getProcessingKey workerID) capacity platforms []

/-! ### complete_task -/

/-- `json.loads(raw_task)["task_id"]`, or the exception. -/
def taskIDOf (raw : String) : Except String Json :=
  match jsonLoads raw with
  | none => .error "JSONDecodeError"
  | some (.obj d) =>
    match getItem d "task_id" with
    | none => .error "KeyError"
    | some v => .ok v
  | some _ => .error "TypeError"

/-- The loop of `complete_task`: the first payload with this task id, unless an earlier payload
raises. -/
def findTask (taskID : String) : List String → Except String (Option String)
  | [] => .ok none
  | raw :: tasks =>
    match taskIDOf raw with
    -- one bad payload before the task ends the search
    | .error e => .error e
    | .ok v => if asStr v = some taskID then .ok (some raw) else findTask taskID tasks

/-- The task id of a payload that `push_task` wrote. -/
theorem taskIDOf_modelDumpJson (t : WorkTask) : taskIDOf t.modelDumpJson = .ok (.str t.task_id) := by
  unfold taskIDOf jsonLoads WorkTask.modelDumpJson
  rw [Json.parse_render Json.escapes_minimalEscape, Option.some_or]
  simp [WorkTask.modelDump, getItem]

theorem findTask_modelDumpJson (t : WorkTask) (tasks : List String) :
    findTask t.task_id (t.modelDumpJson :: tasks) = .ok (some t.modelDumpJson) := by
  unfold findTask
  rw [taskIDOf_modelDumpJson]
  exact if_pos rfl

/-- `WorkerQueue.complete_task` -/
def completeTask (workerID taskID : String) : Prog Cmd Reply (Except String Bool) := do
  match ← lRange (getProcessingKey workerID) with
  | .error e => pure (.error e)
  | .ok tasks =>
    match findTask taskID tasks with
    | .error e => pure (.error e)
    -- the list has no such task: nothing to remove, and no exception either
    | .ok none => pure (.ok false)
    | .ok (some raw) => do
      match ← lRem (getProcessingKey workerID) raw with
      | .error e => pure (.error e)
      | .ok _ => pure (.ok true)

end Legacy

end TaxlienGateway
