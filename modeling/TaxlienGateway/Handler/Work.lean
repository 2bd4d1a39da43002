import TaxlienGateway.Model.Response
import TaxlienGateway.Service.Queue

/-!
# Fetching work from the Go gateway

`internal/handler/work.go`: the handler of `GET /internal/work` reads its parameters, polls the queues
and answers with the tasks. If the poll fails there is no JSON body: `http.Error` writes the text of the
error with status 500.

* `popTasks_eq` — the poll, with the zones of the tasks;
* `getWork_collects` — what the handler answers, whatever Redis does.
-/

namespace TaxlienGateway

open Framework Model

/-! ### The parameters -/

/-- `workerID(r)`, the header `X-Worker-ID` or a placeholder. -/
def workerIDOf (header : String) : String := if header = "" then "unknown" else header

/-- The value of `strconv.Atoi`: zero for a text that is no number, and the nearest 64-bit integer for
one out of range. -/
def atoi (s : String) : ℤ :=
  let n := match s.toList with
    | '+' :: cs => (readNat? cs).map fun n => (n : ℤ)
    | cs => readInt? cs
  max (-2 ^ 63) (min (2 ^ 63 - 1) (n.getD 0))

/-- The parameter `capacity`, 10 by default and at most 100. -/
def capacityOf (query : String) : ℤ :=
  let capacity := atoi query
  let capacity := if capacity ≤ 0 then 10 else capacity
  if 100 < capacity then 100 else capacity

/-- The parameters `platforms`. -/
def platformsOf (query : List String) : List String :=
  if query = [] then ["beacon", "qpublic", "floridatax"] else query

/-! ### The poll -/

/-- The decoding step of `PopTasks`, with the zone. -/
def decodeZoned (raw : String) : Except String (Option ZonedTask) :=
  match h : unmarshalTask raw with
  | none => .error decodeError
  | some t => .ok (some ⟨t, createdAtOf raw, createdAt_of_unmarshalTask h⟩)

theorem decodeZoned_eq_some {raw : String} {t : WorkTask} (h : unmarshalTask raw = some t) :
    decodeZoned raw = .ok (some ⟨t, createdAtOf raw, createdAt_of_unmarshalTask h⟩) := by
  unfold decodeZoned
  split
  · next h' => exact absurd (h.symm.trans h') (by simp)
  · next t' h' =>
    obtain rfl : t = t' := Option.some.inj (h.symm.trans h')
    rfl

theorem decodeZoned_eq_none {raw : String} (h : unmarshalTask raw = none) :
    decodeZoned raw = .error decodeError := by
  unfold decodeZoned
  split
  · rfl
  · next t' h' => exact absurd (h.symm.trans h') (by simp)

/-- Forgetting the zone. -/
theorem decodeTask_eq (raw : String) :
    decodeTask raw = (decodeZoned raw).map (Option.map ZonedTask.task) := by
  unfold decodeTask
  cases h : unmarshalTask raw with
  | none =>
    rw [decodeZoned_eq_none h]
    rfl
  | some t =>
    rw [decodeZoned_eq_some h]
    rfl

/-- `Queue.PopTasks`, with the zones. -/
def popZonedTasks (workerID : String) (platforms : List String) (capacity : ℤ) :
    Prog Cmd Reply (Except String (List ZonedTask)) :=
  pollPlatforms decodeZoned (processingKey workerID) capacity platforms []

/-- **`PopTasks` returns the same tasks**, without the zones. -/
theorem popTasks_eq (workerID : String) (platforms : List String) (capacity : ℤ) :
    popTasks workerID platforms capacity =
      popZonedTasks workerID platforms capacity >>= fun r => .done (r.map (List.map ZonedTask.task)) :=
  pollPlatforms_map decodeTask_eq (processingKey workerID) capacity platforms []

/-! ### The handler -/

/-- `WorkHandler.GetWork`: the value that is encoded, or the error. -/
def getWork (header capacityQuery : String) (platformsQuery : List String) :
    Prog Cmd Reply (Except String WorkResponse) := do
  match ← popZonedTasks (workerIDOf header) (platformsOf platformsQuery) (capacityOf capacityQuery) with
  | .error e => pure (.error e)
  | .ok tasks => pure (.ok ⟨tasks, if 0 < tasks.length then 5 else 30⟩)

/-- The body of a response. It is empty if the response cannot be encoded, and the status is 200 all the same. -/
def Model.WorkResponse.body (resp : WorkResponse) : String := encodeOrNothing resp.marshal

/-- The tasks that are collected are the payloads that were handed out, each with its own zone. -/
theorem decodeAll_decodeZoned : ∀ {raws : List String} {tasks tasks' : List ZonedTask},
    decodeAll decodeZoned raws tasks = .ok tasks' →
      ∃ new, tasks' = tasks ++ new ∧ new.map ZonedTask.createdAt = raws.map createdAtOf := by
  intro raws
  induction raws with
  | nil =>
    intro tasks tasks' h
    obtain rfl : tasks = tasks' := Except.ok.inj h
    exact ⟨[], (List.append_nil _).symm, rfl⟩
  | cons raw raws ih =>
    intro tasks tasks' h
    rw [decodeAll] at h
    cases ht : unmarshalTask raw with
    | none =>
      rw [decodeZoned_eq_none ht] at h
      exact absurd h (by simp)
    | some t =>
      rw [decodeZoned_eq_some ht] at h
      obtain ⟨new, hnew, hzones⟩ := ih h
      -- the first payload gives the first task, with the zone of its own text
      refine ⟨⟨t, createdAtOf raw, createdAt_of_unmarshalTask ht⟩ :: new, ?_, ?_⟩
      · rw [hnew]
        exact List.append_assoc _ _ _
      · rw [List.map_cons, List.map_cons, hzones]

/-- Collecting succeeds if and only if every payload decodes. -/
theorem decodeAll_decodeZoned_iff {raws : List String} : ∀ {tasks : List ZonedTask},
    (∃ tasks', decodeAll decodeZoned raws tasks = .ok tasks') ↔ ∀ raw ∈ raws, unmarshalTask raw ≠ none := by
  induction raws with
  | nil => exact fun {tasks} => ⟨fun _ raw hraw => absurd hraw (by simp), fun _ => ⟨tasks, rfl⟩⟩
  | cons raw raws ih =>
    intro tasks
    rw [List.forall_mem_cons, decodeAll]
    cases ht : unmarshalTask raw with
    | none =>
      rw [decodeZoned_eq_none ht]
      constructor
      · rintro ⟨tasks', h⟩
        exact absurd h (by simp)
      · exact fun h => absurd rfl h.1
    | some t =>
      rw [decodeZoned_eq_some ht, and_iff_right (by simp)]
      exact ih

/-- The poll fails: a command is answered with an error, or a payload does not decode. -/
def PollFails (h : List (Op Cmd Reply)) : Prop :=
  ¬ Answered h ∨ ∃ raw ∈ payloads h, unmarshalTask raw = none

/-- **What `GetWork` answers**, whatever is answered to it. -/
theorem getWork_collects (header capacityQuery : String) (platformsQuery : List String) :
    (getWork header capacityQuery platformsQuery).Obeys (fun _ _ => True)
      (fun h out => ((∃ e, out = .error e) ↔ PollFails h) ∧
        ∀ resp, out = .ok resp → resp.tasks.map ZonedTask.createdAt = (payloads h).map createdAtOf) [] := by
  refine (pollPlatforms_collects _).bind ?_
  intro h a ha
  cases a with
  | error e =>
    refine ⟨⟨fun _ => ?_, fun _ => ⟨e, rfl⟩⟩, fun resp hresp => absurd hresp (by simp)⟩
    -- if nothing had failed, the payloads would have been collected
    by_contra hfails
    unfold PollFails at hfails
    rw [not_or, not_not] at hfails
    refine ha ⟨hfails.1, decodeAll_decodeZoned_iff.mpr fun raw hraw hnone => ?_⟩
    exact hfails.2 ⟨raw, hraw, hnone⟩
  | ok tasks =>
    obtain ⟨hanswered, hall⟩ := ha
    obtain ⟨new, hnew, hzones⟩ := decodeAll_decodeZoned hall
    refine ⟨⟨fun ⟨e, he⟩ => absurd he (by simp), ?_⟩, fun resp hresp => ?_⟩
    · rintro (hno | ⟨raw, hraw, hnone⟩)
      · exact absurd hanswered hno
      · exact absurd hnone (decodeAll_decodeZoned_iff.mp ⟨tasks, hall⟩ raw hraw)
    · obtain rfl := Except.ok.inj hresp
      rw [List.nil_append] at hnew
      rw [hnew]
      exact hzones

end TaxlienGateway
