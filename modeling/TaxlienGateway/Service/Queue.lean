import TaxlienGateway.Model.Task
import TaxlienGateway.Service.Polling

/-!
# The task queue of the Go gateway

`internal/service/queue.go`: `popTasks` polls the queues, `completeTask` removes a task from the
processing list of the worker. `completeTask_obeys` is the conduct of the latter: it carries along
any property of the history that its commands keep.
-/

namespace TaxlienGateway

open Framework Model

/-! ### PopTasks -/

/-- The error of a payload that `json.Unmarshal` refuses. -/
def decodeError : String := "json: cannot unmarshal task"

/-- The decoding step of `PopTasks`. -/
def decodeTask (raw : String) : Except String (Option WorkTask) :=
  match unmarshalTask raw with
  | none => .error decodeError
  | some t => .ok (some t)

theorem decodeTask_of_none {raw : String} (h : unmarshalTask raw = none) :
    decodeTask raw = .error decodeError := by
  unfold decodeTask
  rw [h]

theorem decodeTask_of_some {raw : String} {t : WorkTask} (h : unmarshalTask raw = some t) :
    decodeTask raw = .ok (some t) := by
  unfold decodeTask
  rw [h]

/-- `Queue.PopTasks` -/
def popTasks (workerID : String) (platforms : List String) (capacity : ℤ) :
    Prog Cmd Reply (Except String (List WorkTask)) :=
  pollPlatforms decodeTask (processingKey workerID) capacity platforms []

/-! ### CompleteTask and FailTask -/

/-- The loop of `CompleteTask`: the first payload that decodes to the task. -/
def findTask (taskID : String) (items : List String) : Option String :=
  items.find? fun raw =>
    match unmarshalTask raw with
    -- `continue`: a payload that does not decode is passed over
    | none => false
    | some t => t.taskID == taskID

/-- `Queue.CompleteTask` -/
def completeTask (workerID taskID : String) : Prog Cmd Reply (Except String Bool) := do
  match ← lRange (processingKey workerID) with
  | .error e => pure (.error e)
  | .ok items =>
    match findTask taskID items with
    | none => pure (.ok false)
    | some raw => do
      -- `.Err() == nil`: how many payloads were removed is not looked at
      match ← lRem (processingKey workerID) raw with
      | .error _ => pure (.ok false)
      | .ok _ => pure (.ok true)

/-- `Queue.FailTask` -/
def failTask (workerID taskID : String) : Prog Cmd Reply (Except String Bool) :=
  completeTask workerID taskID

/-- The payload is the task: it decodes, and to this task id. -/
def takes (taskID raw : String) : Bool :=
  match unmarshalTask raw with
  | none => false
  | some t => t.taskID == taskID

theorem takes_of_unmarshalTask {taskID raw : String} (h : unmarshalTask raw = none) :
    takes taskID raw = false := by
  unfold takes
  rw [h]

theorem findTask_cons (taskID raw : String) (items : List String) :
    findTask taskID (raw :: items) =
      if takes taskID raw = true then some raw else findTask taskID items := by
  show List.find? (takes taskID) (raw :: items) = _
  rw [List.find?_cons]
  cases takes taskID raw with
  | true => rfl
  | false => rfl

theorem takes_of_findTask {taskID raw : String} {items : List String}
    (h : findTask taskID items = some raw) : takes taskID raw = true :=
  List.find?_some h

/-! ### Conduct -/

/-- What `CompleteTask` may do: read the worker's processing list, and remove from it a payload
that decodes to the task. -/
def CompleteRule (workerID taskID : String) (c : Cmd) : Prop :=
  c = .lrange (processingKey workerID) ∨
    ∃ raw t, c = .lrem (processingKey workerID) raw ∧ unmarshalTask raw = some t ∧
      t.taskID = taskID

theorem findTask_some {taskID raw : String} {items : List String}
    (h : findTask taskID items = some raw) :
    raw ∈ items ∧ ∃ t, unmarshalTask raw = some t ∧ t.taskID = taskID := by
  refine ⟨List.mem_of_find?_eq_some h, ?_⟩
  have hp := List.find?_some h
  cases ht : unmarshalTask raw with
  | none =>
    rw [ht] at hp
    exact absurd hp (by simp)
  | some t =>
    rw [ht] at hp
    exact ⟨t, rfl, eq_of_beq hp⟩

section Conduct

variable {G : List (Op Cmd Reply) → Cmd → Prop} {h : List (Op Cmd Reply)}

/-- **The conduct of `CompleteTask`.** -/
theorem completeTask_obeys {workerID taskID : String} {Q : List (Op Cmd Reply) → Prop}
    (hG : ∀ h c, Q h → CompleteRule workerID taskID c → G h c)
    (hQ : ∀ h c (r : Except String (Reply c)), Q h → CompleteRule workerID taskID c →
      Q (h ++ [⟨c, r⟩])) (hh : Q h) :
    (completeTask workerID taskID).Obeys G (fun h _ => Q h) h := by
  have hrange : CompleteRule workerID taskID (.lrange (processingKey workerID)) := .inl rfl
  refine ⟨hG _ _ hh hrange, fun r => ?_⟩
  match r with
  | .error e => exact hQ _ _ _ hh hrange
  | .ok items =>
    change (match findTask taskID items with
      | none => _
      | some raw => _ : Prog Cmd Reply _).Obeys _ _ _
    split
    · exact hQ _ _ _ hh hrange
    · next raw hraw =>
      -- what is found decodes to the task, so removing it is allowed
      obtain ⟨-, t, ht, hid⟩ := findTask_some hraw
      have hrem : CompleteRule workerID taskID (.lrem (processingKey workerID) raw) :=
        .inr ⟨raw, t, rfl, ht, hid⟩
      refine ⟨hG _ _ (hQ _ _ _ hh hrange) hrem, fun r => ?_⟩
      match r with
      | .error e => exact hQ _ _ _ (hQ _ _ _ hh hrange) hrem
      | .ok n => exact hQ _ _ _ (hQ _ _ _ hh hrange) hrem

end Conduct

end TaxlienGateway
