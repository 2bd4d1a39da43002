import TaxlienGateway.Legacy.Results

/-!
# The counts of a legacy batch

`submit_results` of `legacy/app/api/internal/parcel/results.py` and `legacy/app/api/internal/party/results.py`,
which are the same text. The response depends only on what the two calls of each turn return or raise
(`submitResults_response`); `complete_task` is called after the result has been counted, in the same
`try` block.

* `total_tally` — a result whose `complete_task` raises is counted twice;
* `accounts_iff` — so a batch is accounted for exactly if no `complete_task` raises after its `upsert_parcel`.
-/

namespace TaxlienGateway

open Framework

namespace Legacy

/-- What the two calls of a turn return or raise. If `upsert_parcel` raises, `complete_task` is not
called. -/
structure TurnOutcome where
  upsert : Except String Bool
  complete : Except String Bool
  deriving DecidableEq

/-- The body of the loop, as far as the response is concerned. -/
def SubmitResponse.turn (r : SubmitResponse) (o : TurnOutcome) : SubmitResponse :=
  match o.upsert with
  | .error e => r.addError e
  | .ok is_new =>
    match o.complete with
    | .error e => (r.count is_new).addError e
    | .ok _ => r.count is_new

/-- The response to a batch. -/
def tally (outcomes : List TurnOutcome) : SubmitResponse :=
  outcomes.foldl SubmitResponse.turn ⟨0, 0, 0, []⟩

/-! ### The outcomes of a request -/

/-- What the calls of a turn come to. -/
def Handling.outcome (worker_id : String) (h : Handling) (t : Turn) : TurnOutcome :=
  ⟨(upsertParcel h.session t.statement t.result worker_id).2,
    (runQueue t.redis (completeTask worker_id t.result.task_id) h.redis).2⟩

/-- The same, turn by turn. -/
def Handling.outcomes (worker_id : String) : Handling → List Turn → List TurnOutcome
  | _, [] => []
  | h, t :: turns => h.outcome worker_id t :: (h.turn worker_id t).outcomes worker_id turns

theorem turn_response (worker_id : String) (h : Handling) (t : Turn) :
    (h.turn worker_id t).response = h.response.turn (h.outcome worker_id t) := by
  unfold Handling.turn Handling.outcome SubmitResponse.turn
  cases upsertParcel h.session t.statement t.result worker_id with
  | mk session is_new =>
    cases is_new with
    | error e => rfl
    | ok is_new =>
      cases runQueue t.redis (completeTask worker_id t.result.task_id) h.redis with
      | mk redis answer => cases answer <;> rfl

/-- **The response is the tally of the outcomes.** -/
theorem submitResults_response (worker_id : Option String) (turns : List Turn)
    (session : Session ParcelKey Parcel) (redis : ListStore String String) :
    (submitResults worker_id turns session redis).response =
      tally (Handling.outcomes (workerID worker_id) ⟨session, redis, ⟨0, 0, 0, []⟩⟩ turns) := by
  unfold submitResults tally
  generalize hstart : (⟨session, redis, ⟨0, 0, 0, []⟩⟩ : Handling) = h
  have hresponse : (⟨0, 0, 0, []⟩ : SubmitResponse) = h.response := by rw [← hstart]
  rw [hresponse]
  clear hstart hresponse
  induction turns generalizing h with
  | nil => rfl
  | cons t turns ih =>
    rw [List.foldl_cons, ih, turn_response]
    rfl

/-! ### Counting -/

/-- The results counted. -/
def SubmitResponse.total (r : SubmitResponse) : ℕ := r.inserted + r.updated + r.failed

/-- The result is counted before `complete_task` raises, and again when it has. -/
def TurnOutcome.twice (o : TurnOutcome) : Bool := o.upsert.isOk && !o.complete.isOk

theorem total_turn (r : SubmitResponse) (o : TurnOutcome) :
    (r.turn o).total = r.total + 1 + o.twice.toNat := by
  have hcount : ∀ is_new, (r.count is_new).total = r.total + 1 := by
    intro is_new
    cases is_new
    · show r.inserted + (r.updated + 1) + r.failed = r.inserted + r.updated + r.failed + 1
      omega
    · show r.inserted + 1 + r.updated + r.failed = r.inserted + r.updated + r.failed + 1
      omega
  obtain ⟨upsert, complete⟩ := o
  cases upsert with
  | error e => rfl
  | ok is_new =>
    cases complete with
    | error e =>
      -- counted when the upsert returned, and again by the handler of the exception
      show (r.count is_new).total + 1 = _
      rw [hcount]
      rfl
    | ok b => exact hcount is_new

theorem errors_turn (r : SubmitResponse) (o : TurnOutcome) :
    (r.turn o).errors.length + r.failed = r.errors.length + (r.turn o).failed := by
  have hcount : ∀ is_new, (r.count is_new).errors = r.errors ∧ (r.count is_new).failed = r.failed := by
    intro is_new
    cases is_new <;> exact ⟨rfl, rfl⟩
  have hadd : ∀ (r : SubmitResponse) e, (r.addError e).errors.length = r.errors.length + 1 ∧
      (r.addError e).failed = r.failed + 1 := fun r e => ⟨by simp [SubmitResponse.addError], rfl⟩
  obtain ⟨upsert, complete⟩ := o
  cases upsert with
  | error e =>
    show (r.addError e).errors.length + _ = _ + (r.addError e).failed
    rw [(hadd r e).1, (hadd r e).2]
    omega
  | ok is_new =>
    obtain ⟨herrors, hfailed⟩ := hcount is_new
    cases complete with
    | error e =>
      show ((r.count is_new).addError e).errors.length + _ = _ + ((r.count is_new).addError e).failed
      rw [(hadd _ e).1, (hadd _ e).2, herrors, hfailed]
      omega
    | ok b =>
      show (r.count is_new).errors.length + _ = _ + (r.count is_new).failed
      rw [herrors, hfailed]

theorem tally_append_singleton (outcomes : List TurnOutcome) (o : TurnOutcome) :
    tally (outcomes ++ [o]) = (tally outcomes).turn o := by
  unfold tally
  rw [List.foldl_append]
  rfl

/-- **How much is counted.** -/
theorem total_tally (outcomes : List TurnOutcome) :
    (tally outcomes).total = outcomes.length + outcomes.countP TurnOutcome.twice := by
  induction outcomes using List.reverseRecOn with
  | nil => rfl
  | append_singleton outcomes o ih =>
    rw [tally_append_singleton, total_turn, ih, List.length_append, List.countP_append,
      List.countP_singleton, List.length_singleton]
    cases o.twice
    · show _ + 1 + 0 = _ + 1 + (_ + 0)
      omega
    · show _ + 1 + 1 = _ + 1 + (_ + 1)
      omega

theorem errors_tally (outcomes : List TurnOutcome) :
    (tally outcomes).errors.length = (tally outcomes).failed := by
  induction outcomes using List.reverseRecOn with
  | nil => rfl
  | append_singleton outcomes o ih =>
    have hturn := errors_turn (tally outcomes) o
    rw [tally_append_singleton]
    omega

/-- A batch is accounted for: the counts add up to its length, each of its members raises exactly one of them
by one, and each failure has its error. -/
structure Accounts {α : Type} (respond : List α → SubmitResponse) (batch : List α) : Prop where
  total : (respond batch).total = batch.length
  once : ∀ pre x post, batch = pre ++ x :: post → (respond (pre ++ [x])).total = (respond pre).total + 1
  errors : (respond batch).errors.length = (respond batch).failed

/-- `complete_task` returns whenever `upsert_parcel` has returned. -/
def EachCompletes (outcomes : List TurnOutcome) : Prop :=
  ∀ o ∈ outcomes, o.upsert.isOk = true → o.complete.isOk = true

theorem eachCompletes_iff (outcomes : List TurnOutcome) :
    EachCompletes outcomes ↔ ∀ o ∈ outcomes, o.twice = false := by
  refine forall₂_congr fun o _ => ?_
  unfold TurnOutcome.twice
  cases o.upsert.isOk <;> simp

/-- The members of a batch that have their outcomes one after the other. -/
structure OneByOne {α : Type} (outcomes : List α → List TurnOutcome) : Prop where
  nil : outcomes [] = []
  snoc : ∀ pre x, ∃ o, outcomes (pre ++ [x]) = outcomes pre ++ [o]

section OneByOne

variable {α : Type} {outcomes : List α → List TurnOutcome}

theorem OneByOne.length (h : OneByOne outcomes) (batch : List α) : (outcomes batch).length = batch.length := by
  induction batch using List.reverseRecOn with
  | nil => exact congrArg List.length h.nil
  | append_singleton pre x ih =>
    obtain ⟨o, ho⟩ := h.snoc pre x
    rw [ho, List.length_append, List.length_append, ih]
    rfl

theorem OneByOne.initial (h : OneByOne outcomes) (pre post : List α) :
    outcomes pre <+: outcomes (pre ++ post) := by
  induction post using List.reverseRecOn with
  | nil => rw [List.append_nil]
  | append_singleton post x ih =>
    obtain ⟨o, ho⟩ := h.snoc (pre ++ post) x
    rw [← List.append_assoc, ho]
    exact ih.trans (List.prefix_append _ _)

/-- A response that is the tally of these outcomes accounts for a batch exactly if nothing is counted twice. -/
theorem OneByOne.tally_iff {respond : List α → SubmitResponse} (h : OneByOne outcomes)
    (hrespond : ∀ batch, respond batch = tally (outcomes batch)) (batch : List α) :
    Accounts respond batch ↔ EachCompletes (outcomes batch) := by
  rw [eachCompletes_iff]
  constructor
  · intro haccounts
    -- the total exceeds the length by the number of results that are counted twice
    have hcount : (outcomes batch).countP TurnOutcome.twice = 0 := by
      have htotal := haccounts.total
      rw [hrespond, total_tally, h.length] at htotal
      omega
    intro o ho
    exact Bool.eq_false_iff.mpr (List.countP_eq_zero.mp hcount o ho)
  · intro hnone
    constructor
    case total =>
      rw [hrespond, total_tally, h.length, List.countP_eq_zero.mpr fun o ho => by simp [hnone o ho]]
      rfl
    case once =>
      rintro pre x post rfl
      obtain ⟨o, ho⟩ := h.snoc pre x
      have hinitial := h.initial (pre ++ [x]) post
      rw [List.append_assoc, List.singleton_append, ho] at hinitial
      have hmem : o ∈ outcomes (pre ++ x :: post) := hinitial.subset (by simp)
      rw [hrespond, hrespond, ho, tally_append_singleton, total_turn, hnone o hmem]
      rfl
    case errors =>
      rw [hrespond]
      exact errors_tally _

end OneByOne

theorem Handling.oneByOne_outcomes (worker_id : String) (h : Handling) :
    OneByOne (h.outcomes worker_id) where
  nil := rfl
  snoc pre x := by
    induction pre generalizing h with
    | nil => exact ⟨_, rfl⟩
    | cons t pre ih =>
      obtain ⟨o, ho⟩ := ih (h.turn worker_id t)
      exact ⟨o, congrArg (h.outcome worker_id t :: ·) ho⟩

/-- **When a batch is accounted for**: whatever returns or raises, exactly if `complete_task` returns for each
result whose `upsert_parcel` has returned; and so it is of every request. -/
theorem accounts_iff (outcomes : List TurnOutcome) (worker_id : Option String) (turns : List Turn)
    (session : Session ParcelKey Parcel) (redis : ListStore String String) :
    (Accounts tally outcomes ↔ EachCompletes outcomes) ∧
      (Accounts (fun turns => (submitResults worker_id turns session redis).response) turns ↔
        EachCompletes (Handling.outcomes (workerID worker_id) ⟨session, redis, ⟨0, 0, 0, []⟩⟩ turns)) := by
  constructor
  · have hself : OneByOne fun outcomes : List TurnOutcome => outcomes := ⟨rfl, fun _ o => ⟨o, rfl⟩⟩
    exact hself.tally_iff (fun _ => rfl) outcomes
  · exact (Handling.oneByOne_outcomes _ _).tally_iff
      (fun turns => submitResults_response worker_id turns session redis) turns

/-- The result of the held task, with no fault. -/
def heldTurn : Turn := ⟨heldResult, none, fun _ => none⟩

/-- The held task is in the list, after a payload that is not JSON. -/
def brokenRedis : ListStore String String := heldRedis.lpush (getProcessingKey "w1") "oops"

/-- **One result, counted twice**: as inserted and as failed. -/
theorem result_counted_twice :
    (submitResults (some "w1") [heldTurn] (.start emptyTable) brokenRedis).response =
        ⟨1, 0, 1, ["JSONDecodeError"]⟩ ∧
      ¬ Accounts (fun turns => (submitResults (some "w1") turns (.start emptyTable) brokenRedis).response)
        [heldTurn] := by
  have hresponse : (submitResults (some "w1") [heldTurn] (.start emptyTable) brokenRedis).response =
      ⟨1, 0, 1, ["JSONDecodeError"]⟩ := by decide +kernel
  refine ⟨hresponse, fun h => ?_⟩
  have htotal := h.total
  simp only [hresponse] at htotal
  exact absurd htotal (by decide)

end Legacy

end TaxlienGateway
