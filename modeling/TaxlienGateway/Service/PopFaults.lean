import TaxlienGateway.Service.Queue

/-!
# A poll that fails

What `PopTasks` leaves behind when it returns an error, on any contents of the queues and under any
faults. The two loops try one key after the other (`pollKeys`), so a failing call stops at a position: the
first one whose command meets a fault, or whose payload does not decode (`FailsFirstAt`). By then every
payload that was due at an earlier position has been moved, and so has the one that does not decode.

* `pollKeys_run` — when a poll fails, and how many payloads it has moved;
* `popTasks_all_or_nothing_iff` — exactly when a failing poll leaves all lists as they were.
-/

namespace TaxlienGateway

open Framework Model

/-! ### The two loops as one -/

/-- The keys that a poll tries, in order. -/
def polledKeys (platforms : List String) : List String :=
  platforms.flatMap fun platform => priorities.map (queueKey platform)

section Loop

variable {τ : Type} (decode : String → Except String (Option τ))

/-- One loop over the keys. -/
def pollKeys (procKey : String) (capacity : ℤ) :
    List String → List τ → Prog Cmd Reply (Except String (List τ))
  | [], tasks => pure (.ok tasks)
  | key :: keys, tasks =>
    if capacity ≤ tasks.length then pure (.ok tasks)
    else do
      match ← rPopLPush key procKey with
      | .error e => pure (.error e)
      | .ok none => pollKeys procKey capacity keys tasks
      | .ok (some raw) =>
        match decode raw with
        | .error e => pure (.error e)
        | .ok t => pollKeys procKey capacity keys (tasks ++ t.toList)

variable {decode} {procKey : String} {capacity : ℤ}

/-- A loop that has enough stops. -/
theorem pollKeys_of_le {tasks : List τ} (h : capacity ≤ tasks.length) (keys : List String) :
    pollKeys decode procKey capacity keys tasks = .done (.ok tasks) := by
  cases keys with
  | nil => rfl
  | cons key keys =>
    unfold pollKeys
    rw [if_pos h]
    rfl

/-- The inner loop is the beginning of the one loop. -/
theorem pollKeys_append (platform : String) (keys : List String) : ∀ (ps : List ℤ) (tasks : List τ),
    pollKeys decode procKey capacity (ps.map (queueKey platform) ++ keys) tasks =
      pollPriorities decode procKey platform capacity ps tasks >>= fun r =>
        match r with
        | .error e => .done (.error e)
        | .ok tasks => pollKeys decode procKey capacity keys tasks := by
  intro ps
  induction ps with
  | nil => exact fun tasks => rfl
  | cons priority ps ih =>
    intro tasks
    rw [List.map_cons, List.cons_append]
    rw [pollKeys, pollPriorities]
    by_cases hcap : capacity ≤ tasks.length
    · -- enough tasks: the inner loop stops here, and the keys after it add nothing
      rw [if_pos hcap, if_pos hcap]
      exact (pollKeys_of_le hcap keys).symm
    · rw [if_neg hcap, if_neg hcap]
      refine congrArg (Prog.cmd _) (funext fun r => ?_)
      match r with
      | .error e => rfl
      | .ok none => exact ih tasks
      | .ok (some raw) =>
        change (match decode raw with
          | .error e => _
          | .ok t => _ : Prog Cmd Reply _) = (match decode raw with
          | .error e => _
          | .ok t => _ : Prog Cmd Reply _) >>= _
        cases decode raw with
        | error e => rfl
        | ok t => exact ih _

/-- **The two loops are one loop over all keys.** -/
theorem pollPlatforms_eq_pollKeys : ∀ (platforms : List String) (tasks : List τ),
    pollPlatforms decode procKey capacity platforms tasks =
      pollKeys decode procKey capacity (polledKeys platforms) tasks := by
  intro platforms
  induction platforms with
  | nil => exact fun tasks => rfl
  | cons platform platforms ih =>
    intro tasks
    unfold pollPlatforms
    by_cases hcap : capacity ≤ tasks.length
    · rw [if_pos hcap, pollKeys_of_le hcap]
      rfl
    · rw [if_neg hcap]
      change _ = pollKeys _ _ _ (priorities.map (queueKey platform) ++ polledKeys platforms) _
      rw [pollKeys_append]
      congr 1
      funext r
      cases r with
      | error e => rfl
      | ok tasks => exact ih tasks

/-! One key, when its command is executed and answered. -/

section Answered

variable {key : String} {keys : List String} {tasks : List τ} {faults : ℕ → Option Fault} {s : Store}
  {redis : ListStore String String}

theorem answer_of_rpoplpush {r : Option String} (hfault : faults 0 = none)
    (hx : s.redis.rpoplpush key procKey = (redis, r)) :
    server.answer (faults 0) (.rpoplpush key procKey) s = ({ s with redis := redis }, .ok r) := by
  rw [hfault]
  show ((server.exec _ s).1, Outcome.ok (server.exec _ s).2) = _
  rw [exec_of_rpoplpush hx]

/-- An empty queue adds nothing. -/
theorem run_pollKeys_of_empty (hcap : ¬ capacity ≤ tasks.length) (hfault : faults 0 = none)
    (hx : s.redis.rpoplpush key procKey = (redis, none)) :
    (pollKeys decode procKey capacity (key :: keys) tasks).run server faults s =
      (pollKeys decode procKey capacity keys tasks).run server (fun n => faults (n + 1))
        { s with redis := redis } := by
  rw [pollKeys, if_neg hcap, Prog.issue_bind, Prog.run_of_answer server (answer_of_rpoplpush hfault hx)]
  rfl

/-- A payload that decodes adds its task. -/
theorem run_pollKeys_of_decodes {raw : String} {t : Option τ} (hcap : ¬ capacity ≤ tasks.length)
    (hfault : faults 0 = none) (hx : s.redis.rpoplpush key procKey = (redis, some raw))
    (hdecode : decode raw = .ok t) :
    (pollKeys decode procKey capacity (key :: keys) tasks).run server faults s =
      (pollKeys decode procKey capacity keys (tasks ++ t.toList)).run server (fun n => faults (n + 1))
        { s with redis := redis } := by
  rw [pollKeys, if_neg hcap, Prog.issue_bind, Prog.run_of_answer server (answer_of_rpoplpush hfault hx)]
  simp only [Outcome.seen_ok, hdecode]

/-- A payload that does not decode ends the loop, and has been moved. -/
theorem run_pollKeys_of_undecodable {raw e : String} (hcap : ¬ capacity ≤ tasks.length)
    (hfault : faults 0 = none) (hx : s.redis.rpoplpush key procKey = (redis, some raw))
    (hdecode : decode raw = .error e) :
    (pollKeys decode procKey capacity (key :: keys) tasks).run server faults s =
      ({ s with redis := redis }, .error e) := by
  rw [pollKeys, if_neg hcap, Prog.issue_bind, Prog.run_of_answer server (answer_of_rpoplpush hfault hx)]
  simp only [Outcome.seen_ok, hdecode]
  rfl

end Answered

end Loop

/-! ### Positions -/

section Positions

variable (faults : ℕ → Option Fault) (redis : ListStore String String) (keys : List String)

/-- The payload that is due at position `j`: the next one of the queue, after those that earlier
positions take from the same queue. -/
def due (j : ℕ) : Option String :=
  keys[j]?.bind fun key => (redis.lists key).reverse[(keys.take j).count key]?

/-- How many payloads are due before position `j`. -/
def dueBefore (j : ℕ) : ℕ := (List.range j).countP fun i => (due redis keys i).isSome

/-- The poll stops with an error at position `j`: it gets there with less than `capacity` tasks, every
earlier command and payload is sound, and this one is not. -/
structure FailsFirstAt (capacity : ℤ) (j : ℕ) : Prop where
  lt : j < keys.length
  room : (dueBefore redis keys j : ℤ) < capacity
  fails : faults j ≠ none ∨ ∃ raw ∈ due redis keys j, unmarshalTask raw = none
  sound : ∀ i < j, faults i = none ∧ ∀ raw ∈ due redis keys i, unmarshalTask raw ≠ none

/-- The command at position `j` moves a payload. -/
def Moves (j : ℕ) : Prop := (due redis keys j).isSome ∧ ∀ e, faults j ≠ some (.failed e)

variable {faults redis keys}

theorem dueBefore_succ {key : String} {redis' : ListStore String String}
    (hdue : ∀ j, due redis' keys j = due redis (key :: keys) (j + 1)) (j : ℕ) :
    dueBefore redis (key :: keys) (j + 1) =
      (due redis (key :: keys) 0).isSome.toNat + dueBefore redis' keys j := by
  unfold dueBefore
  rw [List.range_succ_eq_map, List.countP_cons, List.countP_map, add_comm]
  congr 1
  · cases due redis (key :: keys) 0 <;> rfl
  · refine List.countP_congr fun i _ => ?_
    rw [hdue i]
    rfl

/-- Nothing is due before a position if and only if nothing is due at each of those before it. -/
theorem dueBefore_eq_zero_iff {j : ℕ} :
    dueBefore redis keys j = 0 ↔ ∀ i < j, due redis keys i = none := by
  unfold dueBefore
  rw [List.countP_eq_zero]
  simp

/-- **After the first position**, if it is sound, the poll goes on as from the start. -/
theorem failsFirstAt_succ {key : String} {redis' : ListStore String String} {capacity : ℤ} {j : ℕ}
    (hfault : faults 0 = none) (hdecodes : ∀ raw ∈ due redis (key :: keys) 0, unmarshalTask raw ≠ none)
    (hdue : ∀ j, due redis' keys j = due redis (key :: keys) (j + 1)) :
    FailsFirstAt faults redis (key :: keys) capacity (j + 1) ↔
      FailsFirstAt (fun n => faults (n + 1)) redis' keys
        (capacity - (due redis (key :: keys) 0).isSome.toNat) j := by
  -- what is due before the position counts the first position too
  have hbefore := dueBefore_succ hdue j
  constructor
  · rintro ⟨hlt, hroom, hfails, hsound⟩
    refine ⟨Nat.lt_of_succ_lt_succ hlt, ?_, ?_, fun i hi => ?_⟩
    · rw [hbefore, Nat.cast_add] at hroom
      exact lt_sub_iff_add_lt'.mpr hroom
    · rw [hdue]
      exact hfails
    · rw [hdue]
      exact hsound (i + 1) (Nat.succ_lt_succ hi)
  · rintro ⟨hlt, hroom, hfails, hsound⟩
    refine ⟨Nat.succ_lt_succ hlt, ?_, ?_, fun i hi => ?_⟩
    · rw [hbefore, Nat.cast_add]
      exact lt_sub_iff_add_lt'.mp hroom
    · rw [← hdue]
      exact hfails
    · cases i with
      | zero => exact ⟨hfault, hdecodes⟩
      | succ i =>
        rw [← hdue]
        exact hsound i (Nat.lt_of_succ_lt_succ hi)

end Positions

/-! ### One command -/

/-- What `RPOPLPUSH` finds, and what is due after it. -/
theorem due_rpoplpush {redis redis' : ListStore String String} {key procKey : String}
    {keys : List String} {r : Option String} (hne : ∀ k ∈ key :: keys, k ≠ procKey)
    (hx : redis.rpoplpush key procKey = (redis', r)) :
    due redis (key :: keys) 0 = r ∧ ∀ j, due redis' keys j = due redis (key :: keys) (j + 1) := by
  have hzero : due redis (key :: keys) 0 = (redis.lists key).reverse[0]? := by
    unfold due
    simp
  have hsucc : ∀ j, due redis (key :: keys) (j + 1) = keys[j]?.bind fun k =>
      (redis.lists k).reverse[(keys.take j).count k + if key = k then 1 else 0]? := by
    intro j
    unfold due
    simp [List.count_cons]
  cases r with
  | none =>
    -- an empty queue stays empty
    obtain ⟨hempty, rfl⟩ := ListStore.rpoplpush_none hx
    refine ⟨by rw [hzero, hempty]; rfl, fun j => ?_⟩
    rw [hsucc]
    unfold due
    congr 1
    funext k
    by_cases hk : key = k
    · subst hk
      rw [hempty]
      rfl
    · rw [if_neg hk]
      rfl
  | some raw =>
    have hrev := ListStore.reverse_rpoplpush (hne key List.mem_cons_self) hx
    refine ⟨by rw [hzero, hrev]; rfl, fun j => ?_⟩
    rw [hsucc]
    unfold due
    refine Option.bind_congr fun k hk => ?_
    have hkmem : k ∈ keys := List.mem_of_getElem? hk
    by_cases hkey : key = k
    · -- the queue has lost its first payload
      subst hkey
      rw [hrev, if_pos rfl]
      rfl
    · rw [if_neg hkey, ListStore.lists_rpoplpush_of_ne (Ne.symm hkey) (hne k (List.mem_cons_of_mem _ hkmem)) hx]
      rfl

/-! ### The whole poll -/

section Run

variable {faults : ℕ → Option Fault} {s s' s₁ : Store} {procKey : String} {capacity : ℤ}

/-- A poll that has failed at position `j`, and what has become of the store. -/
structure FailedPoll (faults : ℕ → Option Fault) (s s' : Store) (keys : List String) (procKey : String)
    (capacity : ℤ) (j : ℕ) : Prop where
  fails : FailsFirstAt faults s.redis keys capacity j
  still : dueBefore s.redis keys j = 0 → ¬ Moves faults s.redis keys j → s' = s
  grown : dueBefore s.redis keys j ≠ 0 ∨ Moves faults s.redis keys j →
    (s.redis.lists procKey).length < (s'.redis.lists procKey).length

/-- The processing list never gets shorter. -/
theorem FailedPoll.length_le {keys : List String} {j : ℕ}
    (h : FailedPoll faults s s' keys procKey capacity j) :
    (s.redis.lists procKey).length ≤ (s'.redis.lists procKey).length := by
  by_cases hmoved : dueBefore s.redis keys j ≠ 0 ∨ Moves faults s.redis keys j
  · exact (h.grown hmoved).le
  · rw [not_or, not_not] at hmoved
    rw [h.still hmoved.1 hmoved.2]

/-- A failure at the first position. -/
theorem failedPoll_zero {key : String} {keys : List String} (hroom : 0 < capacity)
    (hfails : faults 0 ≠ none ∨ ∃ raw ∈ due s.redis (key :: keys) 0, unmarshalTask raw = none)
    (hstill : ¬ Moves faults s.redis (key :: keys) 0 → s' = s)
    (hgrown : Moves faults s.redis (key :: keys) 0 →
      (s.redis.lists procKey).length < (s'.redis.lists procKey).length) :
    FailedPoll faults s s' (key :: keys) procKey capacity 0 where
  fails := ⟨Nat.succ_pos _, by simpa [dueBefore] using hroom, hfails,
    fun i hi => absurd hi (Nat.not_lt_zero i)⟩
  still _ := hstill
  grown h := hgrown (h.resolve_left fun h => h rfl)

/-- A failure after a first position that is sound. -/
theorem FailedPoll.cons {key : String} {keys : List String} {j : ℕ} (hfault : faults 0 = none)
    (hdecodes : ∀ raw ∈ due s.redis (key :: keys) 0, unmarshalTask raw ≠ none)
    (hdue : ∀ j, due s₁.redis keys j = due s.redis (key :: keys) (j + 1))
    (hnone : due s.redis (key :: keys) 0 = none → s₁ = s)
    (hsome : (due s.redis (key :: keys) 0).isSome →
      (s.redis.lists procKey).length < (s₁.redis.lists procKey).length)
    (h : FailedPoll (fun n => faults (n + 1)) s₁ s' keys procKey
      (capacity - (due s.redis (key :: keys) 0).isSome.toNat) j) :
    FailedPoll faults s s' (key :: keys) procKey capacity (j + 1) := by
  have hbefore := dueBefore_succ hdue j
  have hmoves : Moves (fun n => faults (n + 1)) s₁.redis keys j ↔
      Moves faults s.redis (key :: keys) (j + 1) := by
    unfold Moves
    rw [hdue j]
  refine ⟨(failsFirstAt_succ hfault hdecodes hdue).mpr h.fails, ?_, ?_⟩
  · intro hzero hmove
    rw [hbefore] at hzero
    obtain ⟨hfirst, hrest⟩ := Nat.add_eq_zero_iff.mp hzero
    have hdue0 : due s.redis (key :: keys) 0 = none := by
      cases hd : due s.redis (key :: keys) 0 with
      | none => rfl
      | some raw =>
        rw [hd] at hfirst
        exact absurd hfirst (by simp)
    rw [h.still hrest fun hm => hmove (hmoves.mp hm), hnone hdue0]
  · intro hmoved
    cases hd : due s.redis (key :: keys) 0 with
    | some raw =>
      have hlt := hsome (by rw [hd]; rfl)
      exact hlt.trans_le h.length_le
    | none =>
      -- then it is the rest of the poll that moves something
      rw [hbefore, hd, ← hmoves] at hmoved
      rw [← hnone hd]
      exact h.grown (by simpa using hmoved)

/-- How a poll can end: with an error at the first position that fails, or with tasks if none does. -/
def PollEnds (faults : ℕ → Option Fault) (s : Store) (keys : List String) (procKey : String)
    (capacity : ℤ) (out : Store × Except String (List WorkTask)) : Prop :=
  (∃ j e, out.2 = .error e ∧ FailedPoll faults s out.1 keys procKey capacity j) ∨
    (∀ j, ¬ FailsFirstAt faults s.redis keys capacity j) ∧ ∃ tasks, out.2 = .ok tasks

/-- The same after a first position that is sound. -/
theorem PollEnds.cons {key : String} {keys : List String} {out : Store × Except String (List WorkTask)}
    (hfault : faults 0 = none)
    (hdecodes : ∀ raw ∈ due s.redis (key :: keys) 0, unmarshalTask raw ≠ none)
    (hdue : ∀ j, due s₁.redis keys j = due s.redis (key :: keys) (j + 1))
    (hnone : due s.redis (key :: keys) 0 = none → s₁ = s)
    (hsome : (due s.redis (key :: keys) 0).isSome →
      (s.redis.lists procKey).length < (s₁.redis.lists procKey).length)
    (h : PollEnds (fun n => faults (n + 1)) s₁ keys procKey
      (capacity - (due s.redis (key :: keys) 0).isSome.toNat) out) :
    PollEnds faults s (key :: keys) procKey capacity out := by
  rcases h with ⟨j, e, he, hfailed⟩ | ⟨hno, htasks⟩
  · -- the position that fails is one further on
    exact .inl ⟨j + 1, e, he, hfailed.cons hfault hdecodes hdue hnone hsome⟩
  · refine .inr ⟨fun j hj => ?_, htasks⟩
    cases j with
    | zero =>
      -- the first position is sound
      rcases hj.fails with hne | ⟨raw, hraw, hbad⟩
      · exact hne hfault
      · exact hdecodes raw hraw hbad
    | succ j => exact hno j ((failsFirstAt_succ hfault hdecodes hdue).mp hj)

/-- What a command that is executed does at the first position: a payload that is due is moved, and
otherwise nothing changes. -/
theorem first_moved {key : String} {keys : List String} {redis' : ListStore String String}
    {r : Option String} (hne : ∀ k ∈ key :: keys, k ≠ procKey)
    (hx : s.redis.rpoplpush key procKey = (redis', r)) :
    ((due s.redis (key :: keys) 0).isSome →
      (s.redis.lists procKey).length < (redis'.lists procKey).length) ∧
    (due s.redis (key :: keys) 0 = none → ({ s with redis := redis' } : Store) = s) := by
  rw [(due_rpoplpush hne hx).1]
  constructor
  · intro hsome
    obtain ⟨raw, rfl⟩ := Option.isSome_iff_exists.mp hsome
    rw [ListStore.lists_rpoplpush_dst (hne key List.mem_cons_self) hx]
    exact Nat.lt_succ_self _
  · rintro rfl
    rw [(ListStore.rpoplpush_none hx).2]

/-- **A command that meets a fault** ends the poll. -/
theorem pollEnds_of_fault {key : String} {keys : List String} {tasks : List WorkTask} {fault : Fault}
    (hroom : 0 < capacity - tasks.length) (hne : ∀ k ∈ key :: keys, k ≠ procKey)
    (hfault : faults 0 = some fault) :
    PollEnds faults s (key :: keys) procKey (capacity - tasks.length)
      ((pollKeys decodeTask procKey capacity (key :: keys) tasks).run server faults s) := by
  have hfails : faults 0 ≠ none ∨ ∃ raw ∈ due s.redis (key :: keys) 0, unmarshalTask raw = none := by
    refine .inl ?_
    rw [hfault]
    simp
  rw [pollKeys, if_neg (by omega), Prog.issue_bind]
  rcases hx : s.redis.rpoplpush key procKey with ⟨redis', r⟩
  obtain ⟨hmoved, hsame⟩ := first_moved hne hx
  cases fault with
  | failed e =>
    -- nothing has been executed
    have hanswer : server.answer (faults 0) (.rpoplpush key procKey) s = (s, .failed e) := by
      rw [hfault]
      rfl
    rw [Prog.run_of_answer server hanswer]
    refine .inl ⟨0, e, rfl, failedPoll_zero hroom hfails (fun _ => rfl) ?_⟩
    exact fun hm => absurd hfault (hm.2 e)
  | lost e =>
    have hanswer : server.answer (faults 0) (.rpoplpush key procKey) s =
        ({ s with redis := redis' }, .lost r e) := by
      rw [hfault]
      change ((server.exec _ s).1, Outcome.lost (server.exec _ s).2 e) = _
      rw [exec_of_rpoplpush hx]
    rw [Prog.run_of_answer server hanswer]
    refine .inl ⟨0, e, rfl, failedPoll_zero hroom hfails (fun hm => ?_) fun hm => hmoved hm.1⟩
    -- it has been executed, so the queue was empty
    refine hsame (Option.not_isSome_iff_eq_none.mp fun hd => hm ⟨hd, fun e' he' => ?_⟩)
    exact absurd (hfault.symm.trans he') (by simp)

/-- **A payload that does not decode** ends the poll, and has been moved by then. -/
theorem failedPoll_of_undecodable {key : String} {keys : List String}
    {redis' : ListStore String String} {raw : String} (hroom : 0 < capacity)
    (hne : ∀ k ∈ key :: keys, k ≠ procKey) (hfault : faults 0 = none)
    (hx : s.redis.rpoplpush key procKey = (redis', some raw)) (hdecode : unmarshalTask raw = none) :
    FailedPoll faults s { s with redis := redis' } (key :: keys) procKey capacity 0 := by
  have hdue : due s.redis (key :: keys) 0 = some raw := (due_rpoplpush hne hx).1
  have hmoves : Moves faults s.redis (key :: keys) 0 := by
    unfold Moves
    rw [hdue, hfault]
    exact ⟨rfl, fun e => by simp⟩
  refine failedPoll_zero hroom (.inr ⟨raw, hdue, hdecode⟩) (fun hm => absurd hmoves hm) fun _ => ?_
  exact (first_moved hne hx).1 hmoves.1

/-- **How a poll ends.** -/
theorem pollKeys_run : ∀ (keys : List String) (tasks : List WorkTask) (s : Store)
    (faults : ℕ → Option Fault), (∀ key ∈ keys, key ≠ procKey) →
    PollEnds faults s keys procKey (capacity - tasks.length)
      ((pollKeys decodeTask procKey capacity keys tasks).run server faults s) := by
  intro keys
  induction keys with
  | nil =>
    intro tasks s faults _
    exact .inr ⟨fun j h => absurd h.lt (Nat.not_lt_zero j), tasks, rfl⟩
  | cons key keys ih =>
    intro tasks s faults hne
    by_cases hcap : capacity ≤ tasks.length
    · -- enough tasks: no position is reached
      rw [pollKeys_of_le hcap]
      refine .inr ⟨fun j h => ?_, tasks, rfl⟩
      have hroom := h.room
      omega
    have hroom : 0 < capacity - tasks.length := by omega
    cases hfault : faults 0 with
    | some fault => exact pollEnds_of_fault hroom hne hfault
    | none =>
      rcases hx : s.redis.rpoplpush key procKey with ⟨redis', r⟩
      obtain ⟨hzero, hdue⟩ := due_rpoplpush hne hx
      obtain ⟨hmoved, hsame⟩ := first_moved hne hx
      have hrest : ∀ key ∈ keys, key ≠ procKey := fun k hk => hne k (List.mem_cons_of_mem _ hk)
      cases r with
      | none =>
        -- an empty queue: the poll goes on with the same room
        rw [run_pollKeys_of_empty hcap hfault hx]
        refine PollEnds.cons hfault (by rw [hzero]; simp) hdue hsame hmoved ?_
        rw [hzero]
        simpa using ih tasks { s with redis := redis' } (fun n => faults (n + 1)) hrest
      | some raw =>
        cases hdecode : unmarshalTask raw with
        | none =>
          rw [run_pollKeys_of_undecodable hcap hfault hx (decodeTask_of_none hdecode)]
          exact .inl ⟨0, decodeError, rfl, failedPoll_of_undecodable hroom hne hfault hx hdecode⟩
        | some t =>
          -- a task more, and room for one less
          rw [run_pollKeys_of_decodes hcap hfault hx (decodeTask_of_some hdecode)]
          refine PollEnds.cons hfault ?_ hdue hsame hmoved ?_
          · intro raw' hraw'
            obtain rfl := Option.some.inj (hzero.symm.trans hraw')
            rw [hdecode]
            simp
          · have hend := ih (tasks ++ [t]) { s with redis := redis' } (fun n => faults (n + 1)) hrest
            rw [hzero]
            rw [List.length_append, List.length_singleton, Nat.cast_add, ← sub_sub] at hend
            exact hend

end Run

/-! ### All or nothing -/

theorem FailsFirstAt.unique {faults : ℕ → Option Fault} {redis : ListStore String String}
    {keys : List String} {capacity : ℤ} {i j : ℕ} (hi : FailsFirstAt faults redis keys capacity i)
    (hj : FailsFirstAt faults redis keys capacity j) : i = j := by
  -- the earlier of the two would be sound
  have hle : ∀ {i j : ℕ}, FailsFirstAt faults redis keys capacity i →
      FailsFirstAt faults redis keys capacity j → i ≤ j := by
    intro i j hi hj
    by_contra hlt
    obtain ⟨hnone, hdecodes⟩ := hi.sound j (not_le.mp hlt)
    rcases hj.fails with hne | ⟨raw, hraw, hbad⟩
    · exact hne hnone
    · exact hdecodes raw hraw hbad
  exact le_antisymm (hle hi hj) (hle hj hi)

/-- Every queue, and the processing list of the worker, is as before. -/
def SameLists (workerID : String) (s s' : Store) : Prop :=
  (∀ platform priority,
    s'.redis.lists (queueKey platform priority) = s.redis.lists (queueKey platform priority)) ∧
  s'.redis.lists (processingKey workerID) = s.redis.lists (processingKey workerID)

/-- If some position fails, then nothing is due before it, and its own command either finds an empty
queue or is not executed. -/
def FailsBeforeMoving (faults : ℕ → Option Fault) (redis : ListStore String String)
    (platforms : List String) (capacity : ℤ) : Prop :=
  ∀ j, FailsFirstAt faults redis (polledKeys platforms) capacity j →
    (∀ i < j, due redis (polledKeys platforms) i = none) ∧
      (due redis (polledKeys platforms) j = none ∨ ∃ e, faults j = some (.failed e))

theorem polledKeys_ne_processingKey {platforms : List String} (workerID : String) :
    ∀ key ∈ polledKeys platforms, key ≠ processingKey workerID := by
  intro key hkey
  obtain ⟨platform, -, hkey⟩ := List.mem_flatMap.mp hkey
  obtain ⟨priority, -, rfl⟩ := List.mem_map.mp hkey
  exact queueKey_ne_processingKey platform priority workerID

theorem not_moves_iff {faults : ℕ → Option Fault} {redis : ListStore String String}
    {keys : List String} {j : ℕ} :
    ¬ Moves faults redis keys j ↔ due redis keys j = none ∨ ∃ e, faults j = some (.failed e) := by
  unfold Moves
  rw [not_and_or, Option.not_isSome_iff_eq_none]
  simp

/-- **`PopTasks` is all or nothing** — exactly when it can fail only before it has moved a payload. -/
theorem popTasks_all_or_nothing_iff (workerID : String) (platforms : List String) (capacity : ℤ)
    (faults : ℕ → Option Fault) (s : Store) :
    (∀ e, ((popTasks workerID platforms capacity).run server faults s).2 = .error e →
      SameLists workerID s ((popTasks workerID platforms capacity).run server faults s).1) ↔
    FailsBeforeMoving faults s.redis platforms capacity := by
  have hend : PollEnds faults s (polledKeys platforms) (processingKey workerID)
      (capacity - ([] : List WorkTask).length) _ :=
    pollKeys_run (polledKeys platforms) [] s faults (polledKeys_ne_processingKey workerID)
  rw [← pollPlatforms_eq_pollKeys, List.length_nil, Nat.cast_zero, sub_zero] at hend
  change PollEnds _ _ _ _ _ ((popTasks workerID platforms capacity).run server faults s) at hend
  constructor
  · intro h j hj
    rcases hend with ⟨j', e, he, hfailed⟩ | ⟨hno, -⟩
    · obtain rfl := hj.unique hfailed.fails
      rw [← dueBefore_eq_zero_iff, ← not_moves_iff]
      -- otherwise the processing list would have grown
      by_contra hmoved
      rw [not_and_or, not_not] at hmoved
      exact absurd (congrArg List.length (h e he).2) (hfailed.grown hmoved).ne'
    · exact absurd hj (hno j)
  · intro h e he
    rcases hend with ⟨j, e', -, hfailed⟩ | ⟨-, tasks, htasks⟩
    · obtain ⟨hbefore, hself⟩ := h j hfailed.fails
      rw [hfailed.still (dueBefore_eq_zero_iff.mpr hbefore) (not_moves_iff.mpr hself)]
      exact ⟨fun _ _ => rfl, rfl⟩
    · exact absurd (he.symm.trans htasks) (by simp)

/-- A queue with one payload that is not JSON. -/
def brokenQueue : Store :=
  { Store.blank with redis := ListStore.empty.lpush (queueKey "beacon" 1) "oops" }

/-- **A payload that is lost to the queue**: the call fails, and the payload is in the processing
list. -/
theorem undecodable_moved :
    ((popTasks "w1" ["beacon"] 10).run server (fun _ => none) brokenQueue).2 = .error decodeError ∧
    ¬ SameLists "w1" brokenQueue
      ((popTasks "w1" ["beacon"] 10).run server (fun _ => none) brokenQueue).1 := by
  refine ⟨rfl, fun h => ?_⟩
  have hmoved : ((popTasks "w1" ["beacon"] 10).run server (fun _ => none) brokenQueue).1.redis.lists
      (processingKey "w1") = ["oops"] := by decide +kernel
  exact absurd (hmoved.symm.trans h.2) (by decide +kernel)

end TaxlienGateway
