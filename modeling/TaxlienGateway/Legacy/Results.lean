import TaxlienGateway.Framework.Transaction
import TaxlienGateway.Legacy.WorkerQueue

/-!
# Submitting results to the legacy gateway

`legacy/app/api/internal/parcel/results.py`, with `PropertyService.upsert_parcel` of
`legacy/app/services/properties.py` and the session of `get_db` in `legacy/app/core/db.py`.

All upserts of a batch share the transaction of one session, which `get_db` commits after the handler,
while `complete_task` takes its task off the processing list at once. The handler catches what a
result raises and goes on with the next one. Of a row of `parcels` the model has the columns that the
statement writes; the generated `id` is read by nobody.

* `turn_session`, `turn_redis` — what the turn of one result does to either store;
* `removes_iff` — when it takes a task off the processing list;
* `persisted_iff` — when every task that a request takes off the list has its row in the table
  afterwards;
* `stranded_result` — a later result of the batch rolls back the row of a completed task.
-/

namespace TaxlienGateway

open Framework

namespace Legacy

/-! ### upsert_parcel -/

/-- The columns of `parcels` that are not in `_parcel_platform_uc`. -/
structure Parcel where
  data : List (String × Json)
  scraped_at : Datetime
  worker_id : String

/-- The columns of `_parcel_platform_uc`. -/
def ParcelResult.key (r : ParcelResult) : ParcelKey := ⟨r.parcel_id, r.platform, r.state, r.county⟩

/-- The other columns; on a conflict all of them are set. -/
def ParcelResult.row (r : ParcelResult) (worker_id : String) : Parcel :=
  ⟨r.data, r.scraped_at, worker_id⟩

/-- `PropertyService.upsert_parcel`. It answers true for an update too. -/
def upsertParcel (session : Session ParcelKey Parcel) (fault : Option StatementFault)
    (result : ParcelResult) (worker_id : String) :
    Session ParcelKey Parcel × Except String Bool :=
  match session.execute fault result.key (result.row worker_id) with
  | (session, .error e) => (session, .error e)
  | (session, .ok ()) => (session, .ok true)

/-! ### submit_results -/

/-- `SubmitResponse`. -/
structure SubmitResponse where
  inserted : ℕ
  updated : ℕ
  failed : ℕ
  errors : List String
  deriving DecidableEq

/-- The `except` clause of the loop. -/
def SubmitResponse.addError (r : SubmitResponse) (e : String) : SubmitResponse :=
  { r with failed := r.failed + 1, errors := r.errors ++ [e] }

def SubmitResponse.count (r : SubmitResponse) (is_new : Bool) : SubmitResponse :=
  if is_new then { r with inserted := r.inserted + 1 } else { r with updated := r.updated + 1 }

/-- One result of the batch, and what goes wrong in its turn: with its statement, and with the `n`-th
Redis command of its `complete_task`. -/
structure Turn where
  result : ParcelResult
  statement : Option StatementFault
  redis : ℕ → Option Fault

/-- A request that is being handled. -/
structure Handling where
  session : Session ParcelKey Parcel
  redis : ListStore String String
  response : SubmitResponse

/-- Run a method of the queue. The table of `Store` is the one of the Go gateway's statements; the
methods of the queue do not use it. -/
def runQueue {α : Type} (faults : ℕ → Option Fault) (p : Prog Cmd Reply α)
    (redis : ListStore String String) : ListStore String String × α :=
  let (s, a) := p.run server faults { Store.blank with redis := redis }
  (s.redis, a)

/-- The body of the loop. -/
def Handling.turn (worker_id : String) (h : Handling) (t : Turn) : Handling :=
  match upsertParcel h.session t.statement t.result worker_id with
  -- the exception skips `complete_task`, but the loop goes on, in an aborted transaction if need be
  | (session, .error e) => { h with session, response := h.response.addError e }
  | (session, .ok is_new) =>
    match runQueue t.redis (completeTask worker_id t.result.task_id) h.redis with
    -- the result has been counted before `complete_task` raised
    | (redis, .error e) => ⟨session, redis, (h.response.count is_new).addError e⟩
    | (redis, .ok _) => ⟨session, redis, h.response.count is_new⟩

/-- `auth.worker_id or "unknown"` -/
def workerID (worker_id : Option String) : String :=
  match worker_id with
  | none => "unknown"
  | some w => if w = "" then "unknown" else w

/-- `submit_results`, given a session and Redis. -/
def submitResults (worker_id : Option String) (turns : List Turn) (session : Session ParcelKey Parcel)
    (redis : ListStore String String) : Handling :=
  turns.foldl (Handling.turn (workerID worker_id)) ⟨session, redis, ⟨0, 0, 0, []⟩⟩

/-- A request under `get_db`: the table after it, Redis, and the response. -/
def handle (worker_id : Option String) (turns : List Turn) (outcome : CommitOutcome)
    (table : Table ParcelKey Parcel) (redis : ListStore String String) :
    Table ParcelKey Parcel × ListStore String String × Except String SubmitResponse :=
  let h := submitResults worker_id turns (.start table) redis
  (h.session.commit outcome, h.redis,
    match outcome with
    | .ok => .ok h.response
    | .lost e => .error e
    | .failed e => .error e)

/-! ### complete_task -/

/-- What `complete_task` does in this turn, if it is called: it finds `raw` and removes it. -/
def Completes (worker_id : String) (redis : ListStore String String) (t : Turn) (raw : String) :
    Prop :=
  findTask t.result.task_id (redis.lists (getProcessingKey worker_id)) = .ok (some raw) ∧
    t.redis 0 = none ∧ ∀ e, t.redis 1 ≠ some (.failed e)

theorem mem_of_findTask {taskID raw : String} {tasks : List String}
    (h : findTask taskID tasks = .ok (some raw)) : raw ∈ tasks := by
  induction tasks with
  | nil => exact absurd h (by simp [findTask])
  | cons task tasks ih =>
    unfold findTask at h
    split at h
    · exact absurd h (by simp)
    · split at h
      · obtain rfl := Option.some.inj (Except.ok.inj h)
        exact List.mem_cons_self
      · exact List.mem_cons_of_mem _ (ih h)

/-- **The spec of `complete_task`**, run alone: a removal needs an answered `LRANGE` and a task that is
found in the answer. -/
theorem completeTask_run (worker_id task_id : String) (faults : ℕ → Option Fault) (s : Store) :
    ((completeTask worker_id task_id).run server faults s).1 =
      match faults 0, findTask task_id (s.redis.lists (getProcessingKey worker_id)) with
      | none, .ok (some raw) =>
        (server.answer (faults 1) (.lrem (getProcessingKey worker_id) raw) s).1
      | _, _ => s := by
  unfold completeTask
  rw [Prog.issue_bind, Prog.run]
  cases hlrange : faults 0 with
  | some f => cases f <;> rfl
  | none =>
    have hreply : server.answer none (.lrange (getProcessingKey worker_id)) s =
        (s, .ok (s.redis.lists (getProcessingKey worker_id))) := rfl
    rw [hreply, Outcome.seen_ok]
    cases hfind : findTask task_id (s.redis.lists (getProcessingKey worker_id)) with
    | error e =>
      -- a payload before the task is not a task
      simp only [hfind]
      rfl
    | ok found =>
      cases found with
      | none =>
        simp only [hfind]
        rfl
      | some raw =>
        simp only [hfind]
        rw [Prog.issue_bind, Prog.run]
        -- what the removal answers decides the value of the method only
        cases (server.answer (faults 1) (.lrem (getProcessingKey worker_id) raw) s).2.seen with
        | error e => rfl
        | ok r => rfl

section CompleteTask

variable {worker_id : String} {redis : ListStore String String} {t : Turn} {raw : String}

/-- Removing what `complete_task` finds. -/
theorem runQueue_of_completes (h : Completes worker_id redis t raw) :
    (runQueue t.redis (completeTask worker_id t.result.task_id) redis).1 =
      (redis.lrem (getProcessingKey worker_id) raw).1 := by
  obtain ⟨hfind, hlrange, hlrem⟩ := h
  show ((completeTask worker_id t.result.task_id).run server t.redis
    { Store.blank with redis := redis }).1.redis = _
  rw [completeTask_run, hlrange, hfind]
  show (server.answer (t.redis 1) (.lrem (getProcessingKey worker_id) raw)
    { Store.blank with redis := redis }).1.redis = _
  match hfault : t.redis 1 with
  | none => rfl
  | some (.lost e) => rfl
  | some (.failed e) => exact absurd hfault (hlrem e)

/-- Otherwise the list stays as it is. -/
theorem runQueue_of_not_completes (h : ∀ raw, ¬ Completes worker_id redis t raw) :
    (runQueue t.redis (completeTask worker_id t.result.task_id) redis).1 = redis := by
  show ((completeTask worker_id t.result.task_id).run server t.redis
    { Store.blank with redis := redis }).1.redis = redis
  rw [completeTask_run]
  split
  · next raw hlrange hfind =>
    -- the task is found, so the removal itself must have failed
    match hfault : t.redis 1 with
    | none => exact absurd ⟨hfind, hlrange, by simp [hfault]⟩ (h raw)
    | some (.lost e) => exact absurd ⟨hfind, hlrange, by simp [hfault]⟩ (h raw)
    | some (.failed e) => rfl
  · rfl

end CompleteTask

/-! ### The turn of one result -/

section Turns

variable {worker_id : String} {h : Handling} {t : Turn}

/-- The session sees the statement of the turn and nothing else. -/
theorem turn_session (worker_id : String) (h : Handling) (t : Turn) :
    (h.turn worker_id t).session =
      (h.session.execute t.statement t.result.key (t.result.row worker_id)).1 := by
  unfold Handling.turn upsertParcel
  obtain ⟨-, -, heq⟩ | ⟨e, heq, -⟩ | ⟨e, heq, -⟩ := h.session.execute_cases t.statement t.result.key
    (t.result.row worker_id)
  · rw [heq]
    dsimp only
    split <;> rfl
  · rw [heq]
  · rw [heq]

/-- `complete_task` is called only after the statement has succeeded. -/
theorem turn_redis (worker_id : String) (h : Handling) (t : Turn) :
    (h.turn worker_id t).redis =
      if t.statement = none ∧ h.session.status = .active then
        (runQueue t.redis (completeTask worker_id t.result.task_id) h.redis).1
      else h.redis := by
  unfold Handling.turn upsertParcel
  obtain ⟨hnone, hs, heq⟩ | ⟨e, heq, hfault⟩ | ⟨e, heq, hfault⟩ := h.session.execute_cases t.statement
    t.result.key (t.result.row worker_id)
  · rw [heq, if_pos ⟨hnone, hs⟩]
    dsimp only
    obtain ⟨redis, answer⟩ :=
      runQueue t.redis (completeTask worker_id t.result.task_id) h.redis
    cases answer <;> rfl
  · rw [heq, if_neg fun hok => (hfault hok.2).1 hok.1]
  · -- a statement with a fault has not succeeded
    rw [heq, if_neg]
    rintro ⟨hnone, -⟩
    exact absurd hfault (by simp [hnone, aborts])

/-- The turn takes `raw` off the processing list. -/
def Removes (worker_id : String) (h : Handling) (t : Turn) (raw : String) : Prop :=
  (h.redis.lists (getProcessingKey worker_id)).Perm
    (raw :: (h.turn worker_id t).redis.lists (getProcessingKey worker_id))

/-- A turn that leaves Redis as it is removes nothing. -/
theorem not_removes_of_redis_eq (heq : (h.turn worker_id t).redis = h.redis) (raw : String) :
    ¬ Removes worker_id h t raw := by
  intro hperm
  have hlen := hperm.length_eq
  rw [heq, List.length_cons] at hlen
  exact absurd hlen (Nat.ne_of_lt (Nat.lt_succ_self _))

/-- **When a turn removes a task**: after its own statement, and no matter what comes of the
transaction. -/
theorem removes_iff : (∃ raw, Removes worker_id h t raw) ↔
    t.statement = none ∧ h.session.status = .active ∧ ∃ raw, Completes worker_id h.redis t raw := by
  constructor
  · rintro ⟨raw, hremoves⟩
    by_contra hno
    refine not_removes_of_redis_eq ?_ raw hremoves
    rw [turn_redis]
    split
    · next hok =>
      exact runQueue_of_not_completes fun raw hraw => hno ⟨hok.1, hok.2, raw, hraw⟩
    · rfl
  · -- the task that is found is in the list, so removing it makes the list shorter
    rintro ⟨hnone, hs, raw, hraw⟩
    refine ⟨raw, ?_⟩
    unfold Removes
    rw [turn_redis, if_pos ⟨hnone, hs⟩, runQueue_of_completes hraw, ListStore.lists_lrem_self]
    exact List.perm_cons_erase (mem_of_findTask hraw.1)

/-- A turn removes a task or leaves Redis as it is. -/
theorem redis_eq_of_not_removes (hno : ∀ raw, ¬ Removes worker_id h t raw) :
    (h.turn worker_id t).redis = h.redis := by
  rw [turn_redis]
  split
  · next hok =>
    refine runQueue_of_not_completes fun raw hraw => ?_
    obtain ⟨raw', hremoves⟩ := removes_iff.mpr ⟨hok.1, hok.2, raw, hraw⟩
    exact hno raw' hremoves
  · rfl

end Turns

/-! ### The batch -/

section Batch

variable {worker_id : Option String} {turns pre post : List Turn} {t : Turn}
  {session : Session ParcelKey Parcel} {redis : ListStore String String}

theorem submitResults_append_singleton (turns : List Turn) (t : Turn) :
    submitResults worker_id (turns ++ [t]) session redis =
      (submitResults worker_id turns session redis).turn (workerID worker_id) t := by
  unfold submitResults
  rw [List.foldl_append, List.foldl_cons, List.foldl_nil]

theorem submitResults_table (worker_id : Option String) (turns : List Turn)
    (session : Session ParcelKey Parcel) (redis : ListStore String String) :
    (submitResults worker_id turns session redis).session.table = session.table := by
  induction turns using List.reverseRecOn with
  | nil => rfl
  | append_singleton turns t ih =>
    rw [submitResults_append_singleton, turn_session, Session.execute_table, ih]

/-- The transaction is active as long as no statement has failed. -/
theorem submitResults_status (worker_id : Option String) (turns : List Turn)
    (session : Session ParcelKey Parcel) (redis : ListStore String String) :
    (submitResults worker_id turns session redis).session.status = .active ↔
      session.status = .active ∧ ∀ t ∈ turns, aborts t.statement = false := by
  induction turns using List.reverseRecOn with
  | nil => simp [submitResults]
  | append_singleton turns t ih =>
    rw [submitResults_append_singleton, turn_session, Session.execute_status, ih,
      List.forall_mem_append, List.forall_mem_singleton, and_assoc]

/-- What has been written stays written until the end of the batch. -/
theorem submitResults_wrote {k : ParcelKey}
    (h : (submitResults worker_id pre session redis).session.Wrote k) (post : List Turn) :
    (submitResults worker_id (pre ++ post) session redis).session.Wrote k := by
  induction post using List.reverseRecOn with
  | nil => rwa [List.append_nil]
  | append_singleton post t ih =>
    rw [← List.append_assoc, submitResults_append_singleton, turn_session]
    exact ih.execute _ _ _

/-- A batch in which no turn removes a task leaves Redis as it was. -/
theorem submitResults_redis
    (h : ∀ pre t post raw, turns = pre ++ t :: post →
      ¬ Removes (workerID worker_id) (submitResults worker_id pre session redis) t raw) :
    (submitResults worker_id turns session redis).redis = redis := by
  induction turns using List.reverseRecOn with
  | nil => rfl
  | append_singleton turns t ih =>
    have hturns : (submitResults worker_id turns session redis).redis = redis := by
      refine ih fun pre t' post raw heq => h pre t' (post ++ [t]) raw ?_
      rw [heq, List.append_assoc, List.cons_append]
    rw [submitResults_append_singleton, redis_eq_of_not_removes (h turns t [] · rfl), hturns]

end Batch

/-! ### Persist before complete -/

/-- Every task that a turn of the request takes off the processing list has its row in the table
after the request, as the request wrote it. -/
def PersistedBeforeCompleted (worker_id : Option String) (turns : List Turn)
    (outcome : CommitOutcome) (table : Table ParcelKey Parcel) (redis : ListStore String String) :
    Prop :=
  ∀ pre t post raw, turns = pre ++ t :: post →
    Removes (workerID worker_id) (submitResults worker_id pre (.start table) redis) t raw →
    (handle worker_id turns outcome table redis).1.WrittenBy table.nextXid t.result.key

section Persisted

variable {worker_id : Option String} {turns : List Turn} {outcome : CommitOutcome}
  {table : Table ParcelKey Parcel} {redis : ListStore String String}

theorem status_start_iff : (submitResults worker_id turns (.start table) redis).session.status =
    .active ↔ ∀ t ∈ turns, aborts t.statement = false :=
  (submitResults_status worker_id turns _ redis).trans (and_iff_right rfl)

/-- If no statement fails and the commit takes effect, all of the batch is stored. -/
theorem persisted_of_effective (hstatements : ∀ t ∈ turns, aborts t.statement = false)
    (houtcome : outcome.effective = true) :
    PersistedBeforeCompleted worker_id turns outcome table redis := by
  rintro pre t post raw rfl hremoves
  obtain ⟨hnone, hs, -⟩ := removes_iff.mp ⟨raw, hremoves⟩
  have hwrote : (submitResults worker_id (pre ++ [t]) (.start table) redis).session.Wrote
      t.result.key := by
    rw [submitResults_append_singleton, turn_session, hnone, Session.execute_none hs]
    exact Session.wrote_write _ _ _
  -- no later statement takes the row back
  have hend := submitResults_wrote hwrote post
  rw [← List.append_cons] at hend
  have hcommit := Session.writtenBy_commit (status_start_iff.mpr hstatements) houtcome hend
  rwa [submitResults_table] at hcommit

/-- If the transaction is rolled back, nothing is stored, so nothing may be removed. -/
theorem persisted_iff_of_not_effective
    (h : ¬ ((∀ t ∈ turns, aborts t.statement = false) ∧ outcome.effective = true)) :
    PersistedBeforeCompleted worker_id turns outcome table redis ↔
      ∀ pre t post raw, turns = pre ++ t :: post →
        ¬ Removes (workerID worker_id) (submitResults worker_id pre (.start table) redis) t raw := by
  have hnone : ∀ k, ¬ (handle worker_id turns outcome table redis).1.WrittenBy table.nextXid k := by
    intro k
    have heffective : ¬ ((submitResults worker_id turns (.start table) redis).session.status =
        .active ∧ outcome.effective = true) := fun ⟨hs, houtcome⟩ =>
      h ⟨status_start_iff.mp hs, houtcome⟩
    have hcommit := Session.not_writtenBy_commit heffective (k := k)
    rwa [submitResults_table] at hcommit
  constructor
  · intro hp pre t post raw heq hremoves
    exact hnone _ (hp pre t post raw heq hremoves)
  · intro hno pre t post raw heq hremoves
    exact absurd hremoves (hno pre t post raw heq)

/-- The results of the batch that come before the first failing statement. -/
def beforeFailure (turns : List Turn) : List Turn :=
  turns.takeWhile fun t => !aborts t.statement

/-- A turn that removes a task comes before the first failing statement. -/
theorem completes_of_removes {pre post : List Turn} {t : Turn} {raw : String}
    (heq : turns = pre ++ t :: post)
    (hremoves : Removes (workerID worker_id) (submitResults worker_id pre (.start table) redis) t raw) :
    t ∈ beforeFailure turns ∧ t.statement = none ∧
      ∃ raw, Completes (workerID worker_id)
        (submitResults worker_id pre (.start table) redis).redis t raw := by
  obtain ⟨hnone, hs, hcompletes⟩ := removes_iff.mp ⟨raw, hremoves⟩
  refine ⟨?_, hnone, hcompletes⟩
  have hpre : ∀ t ∈ pre, (!aborts t.statement) = true := fun t ht => by
    rw [status_start_iff.mp hs t ht, Bool.not_false]
  unfold beforeFailure
  rw [heq, List.takeWhile_append_of_pos hpre, List.takeWhile_cons_of_pos (by simp [hnone, aborts])]
  exact List.mem_append_right _ List.mem_cons_self

/-- No task is removed if and only if the processing list, as it was before the request, holds no task
that would be. -/
theorem not_removes_iff :
    (∀ pre t post raw, turns = pre ++ t :: post →
      ¬ Removes (workerID worker_id) (submitResults worker_id pre (.start table) redis) t raw) ↔
    ∀ t ∈ beforeFailure turns, t.statement = none →
      ∀ raw, ¬ Completes (workerID worker_id) redis t raw := by
  constructor
  · intro hno t ht hnone raw hcompletes
    obtain ⟨pre, mid, hsplit⟩ := List.append_of_mem ht
    obtain ⟨rest, heq⟩ : ∃ rest, turns = pre ++ t :: rest := by
      refine ⟨mid ++ turns.dropWhile fun t => !aborts t.statement, ?_⟩
      rw [← List.cons_append, ← List.append_assoc, ← hsplit]
      exact (List.takeWhile_append_dropWhile ..).symm
    have hpre : ∀ t' ∈ pre, aborts t'.statement = false := by
      intro t' ht'
      have hmem : t' ∈ beforeFailure turns := hsplit ▸ List.mem_append_left _ ht'
      simpa using List.mem_takeWhile_imp hmem
    -- Redis is still as it was before the request when the turn of `t` comes
    have hredis : (submitResults worker_id pre (.start table) redis).redis = redis := by
      refine submitResults_redis fun pre' t' post' raw' heq' =>
        hno pre' t' (post' ++ t :: rest) raw' ?_
      rw [heq, heq', List.append_assoc, List.cons_append]
    rw [← hredis] at hcompletes
    obtain ⟨raw', hremoves⟩ := removes_iff.mpr ⟨hnone, status_start_iff.mpr hpre, raw, hcompletes⟩
    exact hno pre t rest raw' heq hremoves
  · intro h
    -- by induction on the turns taken so far, Redis is as it was before the request
    have hredis : ∀ pre post, turns = pre ++ post →
        (submitResults worker_id pre (.start table) redis).redis = redis := by
      intro pre
      induction pre using List.reverseRecOn with
      | nil => exact fun _ _ => rfl
      | append_singleton pre t ih =>
        intro post heq
        have heq : turns = pre ++ t :: post := by rw [heq, ← List.append_cons]
        have hpre := ih (t :: post) heq
        rw [submitResults_append_singleton, redis_eq_of_not_removes, hpre]
        intro raw hremoves
        obtain ⟨ht, hnone, raw', hcompletes⟩ := completes_of_removes heq hremoves
        rw [hpre] at hcompletes
        exact h t ht hnone raw' hcompletes
    intro pre t post raw heq hremoves
    obtain ⟨ht, hnone, raw', hcompletes⟩ := completes_of_removes heq hremoves
    rw [hredis pre _ heq] at hcompletes
    exact h t ht hnone raw' hcompletes

/-- **When the legacy gateway persists before it completes**: exactly if no statement of the batch
fails and the commit takes effect, or no result before the first failing statement has a task in the
processing list that `complete_task` can remove. -/
theorem persisted_iff (worker_id : Option String) (turns : List Turn) (outcome : CommitOutcome)
    (table : Table ParcelKey Parcel) (redis : ListStore String String) :
    PersistedBeforeCompleted worker_id turns outcome table redis ↔
      ((∀ t ∈ turns, aborts t.statement = false) ∧ outcome.effective = true) ∨
        ∀ t ∈ beforeFailure turns, t.statement = none →
          ∀ raw, ¬ Completes (workerID worker_id) redis t raw := by
  by_cases h : (∀ t ∈ turns, aborts t.statement = false) ∧ outcome.effective = true
  · exact iff_of_true (persisted_of_effective h.1 h.2) (.inl h)
  · rw [persisted_iff_of_not_effective h, not_removes_iff, or_iff_right h]

end Persisted

/-! ### A failing statement -/

/-- A task that the worker holds. -/
def heldTask : WorkTask where
  task_id := "t1"
  type := "scrape"
  platform := "beacon"
  target := [("parcel_id", .str "12-34")]
  priority := 3
  proxy := none
  created_at := sampleDatetime

/-- The result of the held task. -/
def heldResult : ParcelResult :=
  ⟨"t1", "12-34", "beacon", "FL", "Leon", [], heldTask.created_at⟩

/-- A result that the database refuses: no text column takes a zero character. -/
def refusedResult : ParcelResult :=
  ⟨"t2", "56-78", "beacon", "FL", String.ofList [Char.ofNat 0], [], heldTask.created_at⟩

/-- Both in one batch. -/
def refusedBatch : List Turn :=
  [⟨heldResult, none, fun _ => none⟩,
    ⟨refusedResult, some (.failed "invalid byte sequence for encoding"), fun _ => none⟩]

/-- An empty table. -/
def emptyTable : Table ParcelKey Parcel := ⟨fun _ => none, 1, by simp⟩

/-- The worker holds the task. -/
def heldRedis : ListStore String String :=
  ListStore.empty.lpush (getProcessingKey "w1") heldTask.modelDumpJson

/-- **A stranded result.** The held task is taken off the processing list, and its row is not in the
table after the request. -/
theorem stranded_result :
    heldRedis.lists (getProcessingKey "w1") = [heldTask.modelDumpJson] ∧
      (handle (some "w1") refusedBatch .ok emptyTable heldRedis).2.1.lists (getProcessingKey "w1") =
        [] ∧
      (handle (some "w1") refusedBatch .ok emptyTable heldRedis).1.rows heldResult.key = none ∧
      ¬ PersistedBeforeCompleted (some "w1") refusedBatch .ok emptyTable heldRedis := by
  have hheld : heldRedis.lists (getProcessingKey "w1") = [heldTask.modelDumpJson] :=
    ListStore.lists_lpush_self ..
  -- the second statement aborts the transaction, so the commit rolls it back
  have haborted : ¬ ∀ t ∈ refusedBatch, aborts t.statement = false := by
    simp [refusedBatch, aborts]
  have hrow : (handle (some "w1") refusedBatch .ok emptyTable heldRedis).1.rows = fun _ => none := by
    show ((submitResults (some "w1") refusedBatch (.start emptyTable) heldRedis).session.commit
      .ok).rows = _
    rw [Session.rows_commit fun hs => haborted (status_start_iff.mp hs.1), submitResults_table]
    rfl
  refine ⟨hheld, by decide +kernel, congrFun hrow _, fun h => ?_⟩
  -- the turn of the held result removes its task
  obtain ⟨raw, hremoves⟩ : ∃ raw, Removes "w1" (submitResults (some "w1") [] (.start emptyTable)
      heldRedis) ⟨heldResult, none, fun _ => none⟩ raw := by
    refine removes_iff.mpr ⟨rfl, rfl, heldTask.modelDumpJson, ?_, rfl, by simp⟩
    exact (congrArg (findTask "t1") hheld).trans (findTask_modelDumpJson heldTask [])
  obtain ⟨v, hv, -⟩ := h [] _ _ raw rfl hremoves
  exact absurd ((congrFun hrow _).symm.trans hv) (by simp)

end Legacy

end TaxlienGateway
