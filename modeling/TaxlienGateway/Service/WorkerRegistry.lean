import TaxlienGateway.Legacy.Await

/-!
# The worker registry

`WorkerRegistry.Update` of `internal/service/worker_registry.go`, which stores the status of a worker
under a key that is to live five minutes. The `worker_heartbeat` of the legacy gateway sends the same two
commands; only the text of `last_seen` is another.
-/

namespace TaxlienGateway

open Framework Legacy

/-- `workerKey` -/
def workerKey (workerID : String) : String := "worker:" ++ workerID ++ ":status"

/-- What `WorkerStatus` is stored of; the two percentages are texts, as the Redis client writes them. -/
structure WorkerStatus where
  activeTasks : ℤ
  platforms : List String
  cpuPercent : String
  memoryPercent : String

/-- A heartbeat: the worker, the time as it is stored, and its status. -/
structure Heartbeat where
  workerID : String
  now : String
  status : WorkerStatus

/-- The fields of the hash. -/
def Heartbeat.fields (h : Heartbeat) : List (String × String) :=
  [("last_seen", h.now), ("active_tasks", toString h.status.activeTasks),
    ("platforms", ",".intercalate h.status.platforms), ("cpu", h.status.cpuPercent),
    ("memory", h.status.memoryPercent)]

/-- `WorkerRegistry.Update` -/
def Heartbeat.update (h : Heartbeat) : Prog Await AwaitReply (Except String Unit) := do
  match ← hset (workerKey h.workerID) h.fields with
  | .error err => pure (.error err)
  | .ok _ =>
    match ← expire (workerKey h.workerID) 300 with
    | .error err => pure (.error err)
    | .ok _ => pure (.ok ())

/-! ### Conduct -/

/-- The two commands of `Update`, one after the other. -/
def Heartbeat.Sends (h : Heartbeat) (own : List (Op Await AwaitReply)) (c : Await) : Prop :=
  (own = [] ∧ c = .hset (workerKey h.workerID) h.fields) ∨
    ∃ n, own = [⟨.hset (workerKey h.workerID) h.fields, .ok (.ok n)⟩] ∧ c = .expire (workerKey h.workerID) 300

/-- The commands of an `Update` that returns, and its answer. -/
inductive Heartbeat.Ends (h : Heartbeat) : List (Op Await AwaitReply) → Except String Unit → Prop
  | unset {r : Except String (Except String ℕ)} {e : String} (hr : raiseError r = .error e) :
      Ends h [⟨.hset (workerKey h.workerID) h.fields, r⟩] (.error e)
  | unexpired (n : ℕ) (e : String) :
      Ends h [⟨.hset (workerKey h.workerID) h.fields, .ok (.ok n)⟩,
        ⟨.expire (workerKey h.workerID) 300, .error e⟩] (.error e)
  | acknowledged (n : ℕ) (found : Bool) :
      Ends h [⟨.hset (workerKey h.workerID) h.fields, .ok (.ok n)⟩,
        ⟨.expire (workerKey h.workerID) 300, .ok found⟩] (.ok ())

theorem raiseError_eq_ok {α : Type} {r : Except String (Except String α)} {a : α} (h : raiseError r = .ok a) :
    r = .ok (.ok a) := by
  cases r with
  | error e => exact absurd h (by simp [raiseError])
  | ok r => exact congrArg Except.ok h

/-- **The conduct of `Update`.** -/
theorem Heartbeat.update_obeys (h : Heartbeat) : h.update.Obeys h.Sends h.Ends [] := by
  unfold Heartbeat.update
  simp only [Prog.cmd_bind, Prog.done_bind, Prog.issue_bind]
  refine ⟨.inl ⟨rfl, rfl⟩, fun r => ?_⟩
  beta_reduce
  cases hr : raiseError r with
  | error e => exact .unset hr
  | ok n =>
    obtain rfl := raiseError_eq_ok hr
    refine ⟨.inr ⟨n, rfl, rfl⟩, fun r => ?_⟩
    cases r with
    | error e => exact .unexpired n e
    | ok found => exact .acknowledged n found

/-- A command that has failed: it was answered with an error, by Redis or on the way. -/
def Erred : Op Await AwaitReply → Prop
  | ⟨.hset _ _, r⟩ => ∃ e, raiseError r = .error e
  | ⟨_, r⟩ => ∃ e, r = .error e

/-- `Update` fails if and only if one of its commands does. -/
theorem Heartbeat.Ends.error_iff {h : Heartbeat} {own : List (Op Await AwaitReply)} {r : Except String Unit}
    (hends : h.Ends own r) : (∃ e, r = .error e) ↔ ∃ op ∈ own, Erred op := by
  cases hends with
  | unset hr => exact iff_of_true ⟨_, rfl⟩ ⟨_, List.mem_singleton_self _, _, hr⟩
  | unexpired n e => exact iff_of_true ⟨e, rfl⟩ ⟨_, List.mem_cons_of_mem _ (List.mem_singleton_self _), e, rfl⟩
  | acknowledged n found => simp [Erred, raiseError]

/-! ### Keys and fields -/

theorem workerKey_inj {w w' : String} (h : workerKey w = workerKey w') : w = w' := by
  have h := congrArg String.toList h
  simp only [workerKey, String.toList_append] at h
  exact String.toList_inj.mp (List.append_cancel_left (List.append_cancel_right h))

/-- All heartbeats write the same fields, so nothing is left of the one before. -/
@[simp] theorem setFields_fields (old h : Heartbeat) : setFields old.fields h.fields = h.fields := by
  simp [setFields, Heartbeat.fields]

end TaxlienGateway
