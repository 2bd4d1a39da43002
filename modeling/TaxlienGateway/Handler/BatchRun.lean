import TaxlienGateway.Framework.Environment
import TaxlienGateway.Handler.Batch

/-!
# A batch that is handled alone

For each result of a batch `SubmitResults` issues at most four commands, and each of them may fail or lose
its answer (`StepFaults`). Handled alone, a batch is a fold over the results that are taken (`taken`), each
of which has its `turn` on the two stores and on the response.

* `runIn_turn` — one turn of the loop, in any environment that meets given faults (`Meets`);
* `submitted_eq` — the whole batch, under faults that are given turn by turn, is the fold;
* `exists_run_iff` — and this is all that may become of a batch under any pattern of faults.
-/

namespace TaxlienGateway

open Framework Model

/-! ### The faults of a batch -/

/-- What goes wrong with the commands for one result. -/
structure StepFaults where
  select : Option Fault
  insert : Option Fault
  lrange : Option Fault
  lrem : Option Fault

/-- The environment in which the commands for the `n`-th result meet the faults `faults n`. Each result
has one insert, so the inserts of the history tell which result it is. -/
def faultsEnv (faults : ℕ → StepFaults) : Env Cmd Reply := fun h c =>
  match c with
  | .selectExists _ => (faults (upserts h).length).select
  | .insertParcel .. => (faults (upserts h).length).insert
  | .lrange _ => (faults ((upserts h).length - 1)).lrange
  | .lrem .. => (faults ((upserts h).length - 1)).lrem
  | _ => none

/-! ### One result -/

/-- The statement was executed. -/
def executed : Option Fault → Bool
  | some (.failed _) => false
  | _ => true

/-- What `UpsertParcel` does to the table. -/
def upsertStep (f : StepFaults) (r : ParcelResult) (workerID : String) (p : Parcels) : Parcels :=
  if executed f.insert then p.upsert (parcelKey r) r.data r.scrapedAt workerID else p

/-- What it returns. -/
def upsertValue (f : StepFaults) (r : ParcelResult) (p : Parcels) : Except String Bool :=
  match f.insert with
  | none => .ok !(f.select.isNone && (p.rows (parcelKey r)).isSome)
  | some (.lost e) => .error e
  | some (.failed e) => .error e

/-- An error is an insert that is not acknowledged. -/
theorem upsertValue_isOk (f : StepFaults) (r : ParcelResult) (p : Parcels) :
    (upsertValue f r p).isOk = f.insert.isNone := by
  unfold upsertValue
  cases f.insert with
  | none => rfl
  | some fault => cases fault <;> rfl

/-- What `CompleteTask` does to Redis. -/
def completeStep (f : StepFaults) (workerID taskID : String) (redis : ListStore String String) :
    ListStore String String :=
  match f.lrange, findTask taskID (redis.lists (processingKey workerID)) with
  | none, some raw => if executed f.lrem then (redis.lrem (processingKey workerID) raw).1 else redis
  | _, _ => redis

/-! ### The batch -/

/-- The error of a result, in the response. -/
def SubmitResponse.fail (resp : SubmitResponse) (r : ParcelResult) (e : String) : SubmitResponse :=
  { resp with failed := resp.failed + 1, errors := resp.errors ++ [r.parcelID ++ ": " ++ e] }

def SubmitResponse.count (resp : SubmitResponse) (inserted : Bool) : SubmitResponse :=
  if inserted then { resp with inserted := resp.inserted + 1 }
    else { resp with updated := resp.updated + 1 }

/-- The turn of one result: what it does to the stores and to the response. -/
def turn (workerID : String) (st : Store × SubmitResponse) (t : ParcelResult × StepFaults) :
    Store × SubmitResponse :=
  match upsertValue t.2 t.1 st.1.parcels with
  | .error e => (⟨st.1.redis, upsertStep t.2 t.1 workerID st.1.parcels⟩, st.2.fail t.1 e)
  | .ok inserted =>
    (⟨completeStep t.2 workerID t.1.taskID st.1.redis, upsertStep t.2 t.1 workerID st.1.parcels⟩,
      st.2.count inserted)

/-- The results that are taken before the batch is given up, with their faults: `errors` errors have been
collected before. -/
def taken : (ℕ → StepFaults) → ℕ → List ParcelResult → List (ParcelResult × StepFaults)
  | _, _, [] => []
  | faults, errors, r :: results =>
    (r, faults 0) ::
      if (faults 0).insert.isNone then taken (fun n => faults (n + 1)) errors results
      else if 10 < errors + 1 then []
      else taken (fun n => faults (n + 1)) (errors + 1) results

/-- The first result that is taken. -/
theorem taken_cons (faults faults' : ℕ → StepFaults) {f : StepFaults} (hf : faults 0 = f)
    (hfaults : ∀ n, faults (n + 1) = faults' n) (errors : ℕ) (r : ParcelResult)
    (results : List ParcelResult) :
    taken faults errors (r :: results) = (r, f) ::
      if f.insert.isNone then taken faults' errors results
      else if 10 < errors + 1 then []
      else taken faults' (errors + 1) results := by
  obtain rfl : (fun n => faults (n + 1)) = faults' := funext hfaults
  rw [taken, hf]

/-- Which results are taken: those before which at most ten inserts have failed. -/
theorem getElem?_taken (faults : ℕ → StepFaults) {errors : ℕ} (results : List ParcelResult)
    (herrors : errors ≤ 10) (k : ℕ) :
    (taken faults errors results)[k]? =
      if errors + (List.range k).countP (fun j => (faults j).insert.isSome) ≤ 10 then
        results[k]?.map (·, faults k) else none := by
  induction results generalizing faults errors k with
  | nil => exact (ite_self none).symm
  | cons r results ih =>
    rw [taken]
    cases k with
    | zero => exact (if_pos herrors).symm
    | succ k =>
      -- the first result counts among the errors if its insert fails
      have hcount : (List.range (k + 1)).countP (fun j => (faults j).insert.isSome) =
          (faults 0).insert.isSome.toNat + (List.range k).countP
            (fun j => (faults (j + 1)).insert.isSome) := by
        rw [List.range_succ_eq_map, List.countP_cons, List.countP_map, Nat.add_comm]
        cases (faults 0).insert <;> rfl
      rw [List.getElem?_cons_succ, List.getElem?_cons_succ, hcount, ← Nat.add_assoc]
      cases (faults 0).insert with
      | none =>
        rw [if_pos (show Option.isNone none = true from rfl), ih _ herrors]
        rfl
      | some fault =>
        rw [if_neg (show ¬ Option.isNone (some fault) = true from Bool.false_ne_true)]
        by_cases hgiven : 10 < errors + 1
        · -- the batch is given up, and no later position is reached
          rw [if_pos hgiven, if_neg]
          · rfl
          · exact Nat.not_le_of_lt (Nat.lt_of_lt_of_le hgiven (Nat.le_add_right _ _))
        · rw [if_neg hgiven, ih _ (Nat.le_of_not_lt hgiven)]
          rfl

/-! ### One turn of the program -/

/-- The faults that the commands of a turn meet in an environment, from the history `h` and the stores `s`
on. -/
structure Meets (env : Env Cmd Reply) (workerID : String) (h : List (Op Cmd Reply)) (s : Store)
    (r : ParcelResult) (f : StepFaults) : Prop where
  select : env h (.selectExists (parcelKey r)) = f.select
  insert : env (h ++ [⟨.selectExists (parcelKey r),
    (server.answer f.select (.selectExists (parcelKey r)) s).2.seen⟩]) (insertResult r workerID) = f.insert
  lrange : env ((upsertParcel r workerID).runIn server env h s).history
    (.lrange (processingKey workerID)) = f.lrange
  lrem : ∀ raw, findTask r.taskID (s.redis.lists (processingKey workerID)) = some raw →
    env (((upsertParcel r workerID).runIn server env h s).history ++
      [⟨.lrange (processingKey workerID), .ok (s.redis.lists (processingKey workerID))⟩])
      (.lrem (processingKey workerID) raw) = f.lrem

section Turn

variable {env : Env Cmd Reply} {workerID : String} {h : List (Op Cmd Reply)} {s : Store}
  {r : ParcelResult} {f : StepFaults}

/-- In every environment there are such faults. -/
theorem exists_meets (env : Env Cmd Reply) (workerID : String) (h : List (Op Cmd Reply)) (s : Store)
    (r : ParcelResult) : ∃ f, Meets env workerID h s r f := by
  let select := env h (.selectExists (parcelKey r))
  let insert := env (h ++ [⟨.selectExists (parcelKey r),
    (server.answer select (.selectExists (parcelKey r)) s).2.seen⟩]) (insertResult r workerID)
  let h' := ((upsertParcel r workerID).runIn server env h s).history
  cases hraw : findTask r.taskID (s.redis.lists (processingKey workerID)) with
  | none =>
    -- no removal is issued
    refine ⟨⟨select, insert, env h' (.lrange (processingKey workerID)), none⟩, rfl, rfl, rfl, ?_⟩
    intro raw hfound
    exact absurd (hraw.symm.trans hfound) (by simp)
  | some raw =>
    refine ⟨⟨select, insert, env h' (.lrange (processingKey workerID)),
      env (h' ++ [⟨.lrange (processingKey workerID), .ok (s.redis.lists (processingKey workerID))⟩])
        (.lrem (processingKey workerID) raw)⟩, rfl, rfl, rfl, ?_⟩
    intro raw' hfound
    obtain rfl : raw = raw' := Option.some.inj (hraw.symm.trans hfound)
    rfl

/-- `UpsertParcel` makes one insert. -/
theorem upserts_runIn_upsertParcel (env : Env Cmd Reply) (workerID : String) (h : List (Op Cmd Reply))
    (s : Store) (r : ParcelResult) :
    upserts ((upsertParcel r workerID).runIn server env h s).history =
      upserts h ++ [(insertResult r workerID,
        ((upsertParcel r workerID).runIn server env h s).value.isOk)] :=
  (upsertParcel_upserts r workerID h).of_runIn s

/-- `CompleteTask` makes none. -/
theorem upserts_runIn_completeTask (env : Env Cmd Reply) (workerID taskID : String)
    (h : List (Op Cmd Reply)) (s : Store) :
    upserts ((completeTask workerID taskID).runIn server env h s).history = upserts h := by
  refine (completeTask_obeys (G := fun _ _ => True) (Q := fun h' => upserts h' = upserts h)
    (fun _ _ _ _ => trivial) (fun h' c r hh' hc => ?_) rfl).of_runIn s
  rw [upserts_append_singleton, hc.upsert?_eq_none r]
  exact (List.append_nil _).trans hh'

/-- The faults of the `n`-th turn in the environment of the faults. -/
theorem meets_faultsEnv (faults : ℕ → StepFaults) {n : ℕ} (hn : (upserts h).length = n) :
    Meets (faultsEnv faults) workerID h s r (faults n) := by
  -- the insert of this turn is in the history by the time `CompleteTask` starts
  have hcount : (upserts ((upsertParcel r workerID).runIn server (faultsEnv faults) h s).history).length =
      n + 1 := by
    rw [upserts_runIn_upsertParcel, List.length_append, hn]
    rfl
  have hskip : ∀ (h' : List (Op Cmd Reply)) (op : Op Cmd Reply), upsert? op = none →
      upserts (h' ++ [op]) = upserts h' := by
    intro h' op hop
    rw [upserts_append_singleton, hop]
    exact List.append_nil _
  constructor
  case select =>
    show (faults (upserts h).length).select = _
    rw [hn]
  case insert =>
    show (faults (upserts (h ++ [_])).length).insert = _
    rw [hskip _ _ rfl, hn]
  case lrange =>
    show (faults ((upserts _).length - 1)).lrange = _
    rw [hcount, Nat.add_sub_cancel]
  case lrem =>
    intro raw _
    show (faults ((upserts (_ ++ [_])).length - 1)).lrem = _
    rw [hskip _ _ rfl, hcount, Nat.add_sub_cancel]

/-- What `SELECT EXISTS` tells `UpsertParcel`, and what it does to the stores. -/
theorem answer_selectExists (fault : Option Fault) (key : ParcelKey) (s : Store) :
    (server.answer fault (.selectExists key) s).1 = s ∧
      (match (server.answer fault (.selectExists key) s).2.seen with
        | .ok existed => existed
        | .error _ => false) = (fault.isNone && (s.parcels.rows key).isSome) := by
  cases fault with
  | none => exact ⟨rfl, rfl⟩
  | some fault => cases fault <;> exact ⟨rfl, rfl⟩

/-- **`UpsertParcel` in a turn.** -/
theorem runIn_upsertParcel (hf : Meets env workerID h s r f) :
    ((upsertParcel r workerID).runIn server env h s).state =
        ⟨s.redis, upsertStep f r workerID s.parcels⟩ ∧
      ((upsertParcel r workerID).runIn server env h s).value = upsertValue f r s.parcels := by
  obtain ⟨hstate, hexisted⟩ := answer_selectExists f.select (parcelKey r) s
  have hinsert := hf.insert
  unfold upsertParcel
  rw [Prog.issue_bind, Prog.runIn, hf.select, hstate]
  generalize (server.answer f.select (.selectExists (parcelKey r)) s).2.seen = seen at hexisted hinsert ⊢
  dsimp only
  rw [Prog.issue_bind, Prog.runIn, hinsert]
  -- an error of `SELECT EXISTS` is taken for a key that has no row
  unfold upsertStep upsertValue
  cases f.insert with
  | none =>
    refine ⟨rfl, congrArg (fun existed => Except.ok !existed) ?_⟩
    rw [← hexisted]
    cases seen <;> rfl
  | some fault => cases fault <;> exact ⟨rfl, rfl⟩

/-- **`CompleteTask` in a turn**, after the insert. -/
theorem runIn_completeTask (hf : Meets env workerID h s r f) (p : Parcels) :
    ((completeTask workerID r.taskID).runIn server env
        ((upsertParcel r workerID).runIn server env h s).history ⟨s.redis, p⟩).state =
      ⟨completeStep f workerID r.taskID s.redis, p⟩ := by
  unfold completeTask completeStep
  rw [Prog.issue_bind, Prog.runIn, hf.lrange]
  cases f.lrange with
  | some fault =>
    -- nothing is read, and so nothing is removed
    cases fault <;> rfl
  | none =>
    have hanswer : server.answer none (.lrange (processingKey workerID)) ⟨s.redis, p⟩ =
        (⟨s.redis, p⟩, .ok (s.redis.lists (processingKey workerID))) := rfl
    have hlrem := hf.lrem
    rw [hanswer, Outcome.seen_ok]
    dsimp only
    cases hraw : findTask r.taskID (s.redis.lists (processingKey workerID)) with
    | none => rfl
    | some raw =>
      dsimp only
      rw [Prog.issue_bind, Prog.runIn, hlrem raw hraw]
      cases f.lrem with
      | none => rfl
      | some fault => cases fault <;> rfl

/-- A turn adds an error if its insert fails. -/
theorem length_errors_turn (workerID : String) (s : Store) (r : ParcelResult) (f : StepFaults)
    (resp : SubmitResponse) :
    (turn workerID (s, resp) (r, f)).2.errors.length =
      if f.insert.isNone then resp.errors.length else resp.errors.length + 1 := by
  rw [← upsertValue_isOk f r s.parcels]
  unfold turn
  dsimp only
  cases upsertValue f r s.parcels with
  | error e => exact List.length_append
  | ok inserted => cases inserted <;> rfl

/-- The history after a turn. -/
def afterTurn (env : Env Cmd Reply) (workerID : String) (h : List (Op Cmd Reply)) (s : Store)
    (r : ParcelResult) : List (Op Cmd Reply) :=
  let upserted := (upsertParcel r workerID).runIn server env h s
  if upserted.value.isOk then
    ((completeTask workerID r.taskID).runIn server env upserted.history upserted.state).history
  else upserted.history

theorem upserts_afterTurn (hf : Meets env workerID h s r f) :
    upserts (afterTurn env workerID h s r) = upserts h ++ [(insertResult r workerID, f.insert.isNone)] := by
  rw [← upsertValue_isOk f r s.parcels, ← (runIn_upsertParcel hf).2, ← upserts_runIn_upsertParcel]
  unfold afterTurn
  dsimp only
  split
  · exact upserts_runIn_completeTask ..
  · rfl

/-- **One turn of the loop**: the batch is given up at the eleventh error, and goes on otherwise. -/
theorem runIn_turn (hf : Meets env workerID h s r f) (rest : List ParcelResult) (resp : SubmitResponse) :
    (submitLoop workerID (r :: rest) resp).runIn server env h s =
      if f.insert.isNone = false ∧ 10 < resp.errors.length + 1 then
        ⟨(turn workerID (s, resp) (r, f)).1, (turn workerID (s, resp) (r, f)).2,
          afterTurn env workerID h s r⟩
      else (submitLoop workerID rest (turn workerID (s, resp) (r, f)).2).runIn server env
        (afterTurn env workerID h s r) (turn workerID (s, resp) (r, f)).1 := by
  obtain ⟨hstate, hvalue⟩ := runIn_upsertParcel hf
  have hcomplete := runIn_completeTask hf (upsertStep f r workerID s.parcels)
  have hisOk := upsertValue_isOk f r s.parcels
  unfold afterTurn turn
  dsimp only
  rw [submitLoop, Prog.runIn_bind, hstate, hvalue, ← hisOk]
  generalize ((upsertParcel r workerID).runIn server env h s).history = h₁ at hcomplete ⊢
  cases upsertValue f r s.parcels with
  | error e =>
    have herrors : (resp.errors ++ [r.parcelID ++ ": " ++ e]).length = resp.errors.length + 1 :=
      List.length_append
    have hfailed : (Except.error e : Except String Bool).isOk = false := rfl
    dsimp only
    rw [herrors, hfailed, if_neg Bool.false_ne_true]
    -- the eleventh error ends the loop
    by_cases hgiven : 10 < resp.errors.length + 1
    · rw [if_pos hgiven, if_pos ⟨rfl, hgiven⟩]
      rfl
    · rw [if_neg hgiven, if_neg fun hboth => hgiven hboth.2]
      rfl
  | ok inserted =>
    -- `CompleteTask` follows, and the response does not depend on it
    have hstored : (Except.ok inserted : Except String Bool).isOk = true := rfl
    rw [hstored, if_neg fun hboth => Bool.false_ne_true hboth.1.symm, if_pos rfl]
    dsimp only
    rw [Prog.runIn_bind, hcomplete]
    rfl

end Turn

/-! ### The batch -/

/-- The run of a loop is the fold over the results that are taken under the faults `faults`. -/
def RunsAs (env : Env Cmd Reply) (workerID : String) (rest : List ParcelResult)
    (h : List (Op Cmd Reply)) (s : Store) (resp : SubmitResponse) (faults : ℕ → StepFaults) : Prop :=
  ∃ h', (submitLoop workerID rest resp).runIn server env h s =
      ⟨((taken faults resp.errors.length rest).foldl (turn workerID) (s, resp)).1,
        ((taken faults resp.errors.length rest).foldl (turn workerID) (s, resp)).2, h'⟩ ∧
    upserts h' = upserts h ++
      (taken faults resp.errors.length rest).map fun t => (insertResult t.1 workerID, t.2.insert.isNone)

section Loop

variable {env : Env Cmd Reply} {workerID : String} {h : List (Op Cmd Reply)} {s : Store}
  {r : ParcelResult} {rest : List ParcelResult} {resp : SubmitResponse} {f : StepFaults}
  {faults faults' : ℕ → StepFaults}

/-- A turn before a loop that runs as a fold. -/
theorem RunsAs.cons (hf : Meets env workerID h s r f) (hzero : faults 0 = f)
    (hsucc : ∀ n, faults (n + 1) = faults' n)
    (hrest : RunsAs env workerID rest (afterTurn env workerID h s r) (turn workerID (s, resp) (r, f)).1
      (turn workerID (s, resp) (r, f)).2 faults') :
    RunsAs env workerID (r :: rest) h s resp faults := by
  obtain ⟨h', hloop, hh'⟩ := hrest
  have herrors := length_errors_turn workerID s r f resp
  have hupserts := upserts_afterTurn hf
  unfold RunsAs
  rw [runIn_turn hf, taken_cons faults faults' hzero hsucc, List.foldl_cons, List.map_cons]
  by_cases hstored : f.insert.isNone = true
  · rw [if_pos hstored, if_neg fun hboth => Bool.false_ne_true (hboth.1.symm.trans hstored)]
    rw [if_pos hstored] at herrors
    rw [herrors] at hloop hh'
    exact ⟨h', hloop, by rw [hh', hupserts, List.append_assoc, List.singleton_append]⟩
  · rw [if_neg hstored] at herrors ⊢
    by_cases hgiven : 10 < resp.errors.length + 1
    · -- the eleventh error: nothing of the rest is taken
      rw [if_pos hgiven, if_pos ⟨Bool.eq_false_iff.mpr hstored, hgiven⟩]
      exact ⟨_, rfl, hupserts⟩
    · rw [if_neg hgiven, if_neg fun hboth => hgiven hboth.2]
      rw [herrors] at hloop hh'
      exact ⟨h', hloop, by rw [hh', hupserts, List.append_assoc, List.singleton_append]⟩

/-- **The loop alone**, in the environment of the faults. -/
theorem runsAs_faultsEnv (faults : ℕ → StepFaults) (workerID : String) (rest : List ParcelResult) :
    ∀ {n : ℕ} {h : List (Op Cmd Reply)} (s : Store) (resp : SubmitResponse), (upserts h).length = n →
      RunsAs (faultsEnv faults) workerID rest h s resp fun k => faults (n + k) := by
  induction rest with
  | nil => exact fun _ _ _ => ⟨_, rfl, (List.append_nil _).symm⟩
  | cons r rest ih =>
    intro n h s resp hn
    have hf : Meets (faultsEnv faults) workerID h s r (faults n) := meets_faultsEnv faults hn
    have hsucc : ∀ k, faults (n + (k + 1)) = faults (n + 1 + k) := fun k => congrArg faults (by omega)
    refine RunsAs.cons hf rfl hsucc (ih _ _ ?_)
    rw [upserts_afterTurn hf, List.length_append, hn]
    rfl

/-- In any environment the loop meets the faults of some pattern. -/
theorem exists_runsAs (env : Env Cmd Reply) (workerID : String) (rest : List ParcelResult) :
    ∀ (h : List (Op Cmd Reply)) (s : Store) (resp : SubmitResponse),
      ∃ faults, RunsAs env workerID rest h s resp faults := by
  induction rest with
  | nil => exact fun _ _ _ => ⟨fun _ => ⟨none, none, none, none⟩, _, rfl, (List.append_nil _).symm⟩
  | cons r rest ih =>
    intro h s resp
    obtain ⟨f, hf⟩ := exists_meets env workerID h s r
    obtain ⟨faults', hrest⟩ := ih (afterTurn env workerID h s r) (turn workerID (s, resp) (r, f)).1
      (turn workerID (s, resp) (r, f)).2
    exact ⟨fun n => n.casesOn f faults', RunsAs.cons hf rfl (fun _ => rfl) hrest⟩

end Loop

/-- How `SubmitResults` ends when it is alone and its commands meet the faults. -/
def submitted (faults : ℕ → StepFaults) (workerID : String) (results : List ParcelResult) (s : Store) :
    Ended Cmd Reply Store SubmitResponse :=
  (submitResults workerID results).runIn server (faultsEnv faults) [] s

/-- **A batch that is handled alone**: the fold over the results that are taken. -/
theorem submitted_eq (faults : ℕ → StepFaults) (workerID : String) (results : List ParcelResult)
    (s : Store) :
    ∃ h', submitted faults workerID results s =
        ⟨((taken faults 0 results).foldl (turn workerID) (s, ⟨0, 0, 0, []⟩)).1,
          ((taken faults 0 results).foldl (turn workerID) (s, ⟨0, 0, 0, []⟩)).2, h'⟩ ∧
      upserts h' = (taken faults 0 results).map fun t => (insertResult t.1 workerID, t.2.insert.isNone) := by
  have hfaults : (fun k => faults (0 + k)) = faults := funext fun k => congrArg faults (Nat.zero_add k)
  obtain ⟨h', hrun, hh'⟩ := runsAs_faultsEnv faults workerID results (n := 0) (h := []) s ⟨0, 0, 0, []⟩ rfl
  rw [hfaults] at hrun hh'
  exact ⟨h', hrun, hh'⟩

/-- **No fault is left out.** What `SubmitResults` may come to under any pattern of faults, command by command,
is what it may come to under the faults of its turns. -/
theorem exists_run_iff (workerID : String) (results : List ParcelResult) (s s' : Store)
    (resp : SubmitResponse) :
    (∃ pattern, (submitResults workerID results).run server pattern s = (s', resp)) ↔
      ∃ faults, (submitted faults workerID results s).state = s' ∧
        (submitted faults workerID results s).value = resp := by
  constructor
  · rintro ⟨pattern, hrun⟩
    rw [Prog.run_eq_runIn] at hrun
    obtain ⟨hstate, hvalue⟩ := Prod.mk.inj hrun
    obtain ⟨faults, h', hloop, -⟩ := exists_runsAs (fun h _ => pattern h.length) workerID results [] s
      ⟨0, 0, 0, []⟩
    obtain ⟨h'', hsubmitted, -⟩ := submitted_eq faults workerID results s
    refine ⟨faults, ?_, ?_⟩
    · rw [hsubmitted, ← hstate]
      exact (congrArg Ended.state hloop).symm
    · rw [hsubmitted, ← hvalue]
      exact (congrArg Ended.value hloop).symm
  · rintro ⟨faults, rfl, rfl⟩
    exact Prog.exists_faults_of_runIn (faultsEnv faults) (submitResults workerID results) [] s

end TaxlienGateway
