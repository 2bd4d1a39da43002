import TaxlienGateway.Framework.Pool
import TaxlienGateway.Handler.Results
import TaxlienGateway.Legacy.WorkerQueue

/-!
# The worker API as a system of interleaved calls

Producers push tasks, workers fetch tasks, report them complete or failed and submit results. Any
number of such calls run at the same time on the two stores; their steps interleave command by
command, any command may fail or lose its reply, and any call may stop after any of its commands
(`Framework/Pool.lean`). `workerApi` is the resulting transition system, from empty Redis lists and
an arbitrary parcels table.

* `Rule` — what a call may do after its own commands so far; `body_obeys` says that every call
  keeps to it.
* `Allowed` — the part of the rule that does not look at the past, as an inversion: which command
  can come from which call (`Rule.allowed`).
* `pushes`, `takesFrom`, `movesTo`, `removesFrom` and the others read off an executed command what
  it did to the payloads; `collect` does so for a history.
-/

namespace TaxlienGateway

open Framework Model

/-- A call of the worker API. -/
inductive Call where
  /-- The legacy gateway's `push_task`. -/
  | pushTask (task : Legacy.WorkTask)
  | popTasks (workerID : String) (platforms : List String) (capacity : ℤ)
  | completeTask (workerID taskID : String)
  | failTask (workerID taskID : String)
  | submitResults (workerID : String) (results : List ParcelResult)

/-- What a call returns. -/
abbrev Ret : Call → Type
  | .pushTask _ => Except String Unit
  | .popTasks .. => Except String (List WorkTask)
  | .completeTask .. => Except String Bool
  | .failTask .. => Except String Bool
  | .submitResults .. => SubmitResponse

/-- The program of a call. -/
def body : (call : Call) → Prog Cmd Reply (Ret call)
  | .pushTask task => Legacy.pushTask task
  | .popTasks workerID platforms capacity => popTasks workerID platforms capacity
  | .completeTask workerID taskID => completeTask workerID taskID
  | .failTask workerID taskID => failTask workerID taskID
  | .submitResults workerID results => submitResults workerID results

/-- The worker API. -/
def workerApi : System (Pool Cmd Reply Call Ret Store) (Event Cmd Reply Call Ret) :=
  pool server body Store.Fresh

/-! ### Conduct -/

/-- What a call may do after the history `h` of its own commands. -/
def Rule : Call → List (Op Cmd Reply) → Cmd → Prop
  | .pushTask task, _, c =>
    c = .lpush (queueKey task.platform task.priority) task.modelDumpJson
  | .popTasks workerID platforms _, _, c => PopRule workerID platforms c
  | .completeTask workerID taskID, _, c => CompleteRule workerID taskID c
  | .failTask workerID taskID, _, c => CompleteRule workerID taskID c
  | .submitResults workerID results, h, c => SubmitRule workerID results h c

/-- Every call keeps to its rule. -/
theorem body_obeys : Obeyed body Rule fun _ _ _ => True := by
  intro call
  cases call with
  | pushTask task =>
    refine ⟨rfl, fun r => ?_⟩
    cases r <;> trivial
  | popTasks workerID platforms capacity => exact pollPlatforms_obeys fun _ _ hc => hc
  | completeTask workerID taskID =>
    exact (completeTask_obeys (Q := fun _ => True) (fun _ _ _ hc => hc) (fun _ _ _ _ _ => trivial)
      trivial).mono (fun _ _ hc => hc) fun _ _ _ => trivial
  | failTask workerID taskID =>
    exact (completeTask_obeys (Q := fun _ => True) (fun _ _ _ hc => hc) (fun _ _ _ _ _ => trivial)
      trivial).mono (fun _ _ hc => hc) fun _ _ _ => trivial
  | submitResults workerID results => exact submitResults_obeys workerID results

/-- The task ids a call asks to have removed from the processing list of a worker. -/
def Call.Requests (workerID taskID : String) : Call → Prop
  | .completeTask w t => w = workerID ∧ t = taskID
  | .failTask w t => w = workerID ∧ t = taskID
  | .submitResults w results => w = workerID ∧ ∃ r ∈ results, r.taskID = taskID
  | _ => False

/-- Which command can come from which call. -/
inductive Allowed : Call → Cmd → Prop
  | push {task : Legacy.WorkTask} :
      Allowed (.pushTask task) (.lpush (queueKey task.platform task.priority) task.modelDumpJson)
  | move {w : String} {platforms : List String} {capacity : ℤ} {platform : String} {priority : ℤ}
      (hplat : platform ∈ platforms) (hprio : priority ∈ priorities) :
      Allowed (.popTasks w platforms capacity)
        (.rpoplpush (queueKey platform priority) (processingKey w))
  | read {call : Call} {w : String} : Allowed call (.lrange (processingKey w))
  | remove {call : Call} {w raw : String} {t : WorkTask} (hreq : call.Requests w t.taskID)
      (ht : unmarshalTask raw = some t) : Allowed call (.lrem (processingKey w) raw)
  | query {call : Call} {key : ParcelKey} : Allowed call (.selectExists key)
  | insert {w : String} {results : List ParcelResult} {r : ParcelResult} (hr : r ∈ results) :
      Allowed (.submitResults w results) (insertResult r w)

theorem CompleteRule.allowed {call : Call} {w taskID : String} {c : Cmd}
    (hreq : call.Requests w taskID) (h : CompleteRule w taskID c) : Allowed call c := by
  rcases h with rfl | ⟨raw, t, rfl, ht, rfl⟩
  · exact .read
  · exact .remove hreq ht

/-- **Inversion of the rules.** -/
theorem Rule.allowed {call : Call} {h : List (Op Cmd Reply)} {c : Cmd} (hc : Rule call h c) :
    Allowed call c := by
  cases call with
  | pushTask task =>
    obtain rfl : c = _ := hc
    exact .push
  | popTasks w platforms capacity =>
    obtain ⟨platform, hplat, priority, hprio, rfl⟩ := hc
    exact .move hplat hprio
  | completeTask w taskID => exact CompleteRule.allowed ⟨rfl, rfl⟩ hc
  | failTask w taskID => exact CompleteRule.allowed ⟨rfl, rfl⟩ hc
  | submitResults w results =>
    -- the two statements of the upsert, or a command of `CompleteTask`
    obtain ⟨r, hr, (rfl | rfl) | ⟨hc, -⟩⟩ := hc
    · exact .query
    · exact .insert hr
    · exact hc.allowed ⟨rfl, r, hr, rfl⟩

/-! ### What a history did to the payloads -/

/-- An executed command of the worker API. -/
abbrev Step : Type := Applied Cmd Reply Call

/-- The payloads `f` reads off the commands a history executed, in order. -/
def collect (f : Step → List String) (es : List (Event Cmd Reply Call Ret)) : List String :=
  (applied es).flatMap f

/-- The payload pushed. -/
def pushes : Step → List String
  | ⟨_, .lpush _ payload, _⟩ => [payload]
  | _ => []

/-- The payload pushed to `key`. -/
def pushesTo (key : String) : Step → List String
  | ⟨_, .lpush k payload, _⟩ => if k = key then [payload] else []
  | _ => []

/-- The payload taken from `key`. -/
def takesFrom (key : String) : Step → List String
  | ⟨_, .rpoplpush src _, reply⟩ => if src = key then reply.toList else []
  | _ => []

/-- The payload moved to `key`. -/
def movesTo (key : String) : Step → List String
  | ⟨_, .rpoplpush _ dst, reply⟩ => if dst = key then reply.toList else []
  | _ => []

/-- The payloads removed by `LREM`. -/
def removes : Step → List String
  | ⟨_, .lrem _ payload, n⟩ => List.replicate n payload
  | _ => []

/-- The payloads removed by `LREM` from `key`. -/
def removesFrom (key : String) : Step → List String
  | ⟨_, .lrem k payload, n⟩ => if k = key then List.replicate n payload else []
  | _ => []

/-! ### A sample delivery -/

/-- A task whose creation time carries its zone. -/
def sampleTask : Legacy.WorkTask where
  task_id := "t1"
  type := "scrape"
  platform := "beacon"
  target := [("parcel_id", .str "12-34"), ("state", .str "FL"), ("county", .str "Leon")]
  priority := 2
  proxy := none
  created_at := ⟨{ Framework.sampleCivil with nano := 0, nano_lt := Framework.nano_zero_lt }, some 0,
    by decide, by decide, by decide⟩

/-- The result for the task. -/
def sampleResult : ParcelResult := ⟨"t1", "12-34", "beacon", "FL", "Leon", .obj [], 0⟩

/-- The events of pushing the task, fetching it and then making the calls `calls`. -/
def sampleEvents (calls : List Call) : List (Event Cmd Reply Call Ret) :=
  sessionEvents server body (.pushTask sampleTask :: .popTasks "w1" ["beacon"] 5 :: calls) .blank

/-- The state this ends in. -/
def samplePool (calls : List Call) : Pool Cmd Reply Call Ret Store where
  store := sessionStore server body
    (.pushTask sampleTask :: .popTasks "w1" ["beacon"] 5 :: calls) .blank
  threads _ := none

theorem sample_run (calls : List Call) : workerApi.Run (sampleEvents calls) (samplePool calls) :=
  run_session _ rfl

end TaxlienGateway
