import TaxlienGateway.Service.PopFaults

/-!
# How many tasks a poll takes

`PopTasks` is asked for up to `capacity` tasks, the most urgent first. Its two loops visit every queue
of a requested platform once, and take one payload at each visit. What a call that runs alone takes from
a queue is therefore given by the positions it tries, those before which fewer than `capacity` payloads
are due (`tries`), and not by what the queue holds.

* `pollKeys_leaves` — each queue loses one payload for every time it is tried, as long as it has any.
* `popTasks_serves_iff` — exactly when such a call uses its capacity, and exactly when it respects urgency.
-/

namespace TaxlienGateway

open Framework Model

/-! ### The positions that are tried -/

section Tries

variable {redis redis' : ListStore String String} {key : String} {keys : List String} {capacity : ℤ}

/-- How many positions a poll tries. -/
def tries (redis : ListStore String String) (keys : List String) (capacity : ℤ) : ℕ :=
  (List.range keys.length).countP fun j => (dueBefore redis keys j : ℤ) < capacity

/-- The keys that a poll tries. -/
def triedKeys (redis : ListStore String String) (keys : List String) (capacity : ℤ) : List String :=
  keys.take (tries redis keys capacity)

theorem dueBefore_mono (redis : ListStore String String) (keys : List String) :
    Monotone (dueBefore redis keys) :=
  fun _ _ h => (List.range_sublist.mpr h).countP_le

/-- A poll that is full from the start tries nothing. -/
theorem triedKeys_of_le (h : capacity ≤ 0) : triedKeys redis keys capacity = [] := by
  have hzero : tries redis keys capacity = 0 := by
    unfold tries
    rw [List.countP_eq_zero]
    intro j _ hlt
    have hlt : (dueBefore redis keys j : ℤ) < capacity := of_decide_eq_true hlt
    omega
  rw [triedKeys, hzero, List.take_zero]

/-- A poll that has room tries the first position, and goes on with what room is left. -/
theorem triedKeys_cons (h : 0 < capacity)
    (hdue : ∀ j, due redis' keys j = due redis (key :: keys) (j + 1)) :
    triedKeys redis (key :: keys) capacity =
      key :: triedKeys redis' keys (capacity - (due redis (key :: keys) 0).isSome.toNat) := by
  have hzero : dueBefore redis (key :: keys) 0 = 0 := rfl
  have hsucc : tries redis (key :: keys) capacity =
      tries redis' keys (capacity - (due redis (key :: keys) 0).isSome.toNat) + 1 := by
    unfold tries
    rw [List.length_cons, List.range_succ_eq_map, List.countP_cons, List.countP_map, hzero]
    congr 1
    · refine List.countP_congr fun j _ => ?_
      simp only [Function.comp_apply, decide_eq_true_eq, dueBefore_succ hdue, Nat.cast_add]
      exact lt_sub_iff_add_lt'.symm
    · exact if_pos (decide_eq_true h)
  rw [triedKeys, hsucc, List.take_succ_cons]
  rfl

/-- If fewer payloads are due than there is room for, every position is tried. -/
theorem triedKeys_of_lt (h : (dueBefore redis keys keys.length : ℤ) < capacity) :
    triedKeys redis keys capacity = keys := by
  have hall : tries redis keys capacity = keys.length := by
    unfold tries
    rw [List.countP_eq_length.mpr, List.length_range]
    intro j hj
    have hle : dueBefore redis keys j ≤ dueBefore redis keys keys.length :=
      dueBefore_mono redis keys (List.mem_range.mp hj).le
    refine decide_eq_true (lt_of_le_of_lt ?_ h)
    exact_mod_cast hle
  rw [triedKeys, hall, List.take_length]

end Tries

/-! ### What a poll leaves -/

/-- Every payload in the queues with these keys decodes. -/
def Decodable (redis : ListStore String String) (keys : List String) : Prop :=
  ∀ key ∈ keys, ∀ raw ∈ redis.lists key, unmarshalTask raw ≠ none

section Run

variable {procKey : String} {capacity : ℤ}

/-- A poll that tries one key after the other, from `s` to `s'`. -/
structure PollLeaves (procKey : String) (keys : List String) (room : ℤ) (s s' : Store)
    (taken : ℕ) : Prop where
  short : (taken : ℤ) < room ↔ (dueBefore s.redis keys keys.length : ℤ) < room
  left : ∀ key ≠ procKey, (s'.redis.lists key).reverse =
    (s.redis.lists key).reverse.drop ((triedKeys s.redis keys room).count key)

/-- A poll that is full from the start. -/
theorem pollLeaves_of_le {keys : List String} {room : ℤ} {s : Store} (h : room ≤ 0) :
    PollLeaves procKey keys room s s 0 where
  short := by
    constructor <;> intro hlt <;> omega
  left key _ := by
    rw [triedKeys_of_le h]
    rfl

/-- **One more key**: what `RPOPLPUSH` finds there, and then the rest of the poll. -/
theorem PollLeaves.cons {key : String} {keys : List String} {room : ℤ} {s s' : Store}
    {redis : ListStore String String} {r : Option String} {taken : ℕ} (hroom : 0 < room)
    (hne : ∀ k ∈ key :: keys, k ≠ procKey) (hx : s.redis.rpoplpush key procKey = (redis, r))
    (h : PollLeaves procKey keys (room - r.isSome.toNat) { s with redis := redis } s' taken) :
    PollLeaves procKey (key :: keys) room s s' (r.isSome.toNat + taken) := by
  obtain ⟨hzero, hdue⟩ := due_rpoplpush hne hx
  constructor
  case short =>
    have hbefore : dueBefore s.redis (key :: keys) (key :: keys).length =
        r.isSome.toNat + dueBefore redis keys keys.length := by
      rw [← hzero]
      exact dueBefore_succ hdue keys.length
    rw [hbefore, Nat.cast_add, Nat.cast_add, ← lt_sub_iff_add_lt', ← lt_sub_iff_add_lt']
    exact h.short
  case left =>
    intro k hk
    rw [triedKeys_cons hroom hdue, hzero, List.count_cons, h.left k hk]
    by_cases hkey : key = k
    · subst hkey
      rw [if_pos (beq_self_eq_true key)]
      cases r with
      | none =>
        -- an empty queue stays empty
        obtain ⟨hempty, rfl⟩ := ListStore.rpoplpush_none hx
        simp [hempty]
      | some raw =>
        rw [ListStore.reverse_rpoplpush hk hx]
        rfl
    · rw [if_neg (by simpa using hkey)]
      have hsame : redis.lists k = s.redis.lists k := by
        cases r with
        | none => rw [(ListStore.rpoplpush_none hx).2]
        | some raw => exact ListStore.lists_rpoplpush_of_ne (Ne.symm hkey) hk hx
      show (redis.lists k).reverse.drop _ = _
      rw [hsame]
      rfl

/-- What is left of decodable queues is decodable. -/
theorem Decodable.rpoplpush {key : String} {keys : List String} {redis redis' : ListStore String String}
    {r : Option String} (h : Decodable redis (key :: keys)) (hne : ∀ k ∈ key :: keys, k ≠ procKey)
    (hx : redis.rpoplpush key procKey = (redis', r)) : Decodable redis' keys := by
  intro k hk raw hraw
  refine h k (List.mem_cons_of_mem _ hk) raw ?_
  cases r with
  | none => rwa [(ListStore.rpoplpush_none hx).2] at hraw
  | some moved =>
    by_cases hkey : k = key
    · subst hkey
      rw [← List.mem_reverse, ListStore.reverse_rpoplpush (hne k List.mem_cons_self) hx]
      exact List.mem_cons_of_mem _ (List.mem_reverse.mpr hraw)
    · rwa [ListStore.lists_rpoplpush_of_ne hkey (hne k (List.mem_cons_of_mem _ hk)) hx] at hraw

variable (procKey capacity) in
/-- **A poll that runs alone** over decodable queues succeeds; each queue loses one payload for every
time it is tried. -/
theorem pollKeys_leaves : ∀ (keys : List String) (tasks : List WorkTask) (s : Store),
    (∀ key ∈ keys, key ≠ procKey) → Decodable s.redis keys →
    ∃ s' new, (pollKeys decodeTask procKey capacity keys tasks).runOk server s =
        (s', .ok (tasks ++ new)) ∧
      PollLeaves procKey keys (capacity - tasks.length) s s' new.length := by
  intro keys
  induction keys with
  | nil =>
    intro tasks s _ _
    refine ⟨s, [], ?_, Iff.rfl, fun key _ => rfl⟩
    rw [List.append_nil]
    rfl
  | cons key keys ih =>
    intro tasks s hne hdec
    by_cases hcap : capacity ≤ tasks.length
    · rw [pollKeys_of_le hcap]
      refine ⟨s, [], ?_, pollLeaves_of_le (by omega)⟩
      rw [List.append_nil]
      rfl
    · have hroom : 0 < capacity - tasks.length := by omega
      have hrest : ∀ k ∈ keys, k ≠ procKey := fun k hk => hne k (List.mem_cons_of_mem _ hk)
      rcases hx : s.redis.rpoplpush key procKey with ⟨redis, r⟩
      have hdec' := hdec.rpoplpush hne hx
      cases r with
      | none =>
        obtain ⟨s', new, hrun, hleaves⟩ := ih tasks { s with redis := redis } hrest hdec'
        refine ⟨s', new, (run_pollKeys_of_empty hcap rfl hx).trans hrun, ?_⟩
        have hcons := PollLeaves.cons (r := none) hroom hne hx (by simpa using hleaves)
        simpa using hcons
      | some raw =>
        -- the payload was in the queue, so it decodes
        obtain ⟨t, ht⟩ := Option.ne_none_iff_exists'.mp
          (hdec key List.mem_cons_self raw (ListStore.mem_of_rpoplpush hx))
        obtain ⟨s', new, hrun, hleaves⟩ := ih (tasks ++ [t]) { s with redis := redis } hrest hdec'
        refine ⟨s', t :: new, ?_, ?_⟩
        · rw [List.append_cons]
          exact (run_pollKeys_of_decodes hcap rfl hx (decodeTask_of_some ht)).trans hrun
        · rw [List.length_append, List.length_singleton, Nat.cast_add, ← sub_sub] at hleaves
          have hcons := PollLeaves.cons (r := some raw) hroom hne hx hleaves
          rwa [List.length_cons, add_comm]

/-- A queue is empty afterwards if it is tried as often as it has payloads. -/
theorem PollLeaves.lists_eq_nil_iff {keys : List String} {room : ℤ} {s s' : Store} {taken : ℕ}
    (h : PollLeaves procKey keys room s s' taken) {key : String} (hkey : key ≠ procKey) :
    s'.redis.lists key = [] ↔
      (s.redis.lists key).length ≤ (triedKeys s.redis keys room).count key := by
  rw [← List.reverse_eq_nil_iff, h.left key hkey, List.drop_eq_nil_iff, List.length_reverse]

/-- A queue loses payloads if it has any and is tried. -/
theorem PollLeaves.lists_ne_iff {keys : List String} {room : ℤ} {s s' : Store} {taken : ℕ}
    (h : PollLeaves procKey keys room s s' taken) {key : String} (hkey : key ≠ procKey) :
    s'.redis.lists key ≠ s.redis.lists key ↔
      s.redis.lists key ≠ [] ∧ key ∈ triedKeys s.redis keys room := by
  have hdrop : s'.redis.lists key = s.redis.lists key ↔
      (s.redis.lists key).reverse.drop ((triedKeys s.redis keys room).count key) =
        (s.redis.lists key).reverse := by
    rw [← h.left key hkey]
    exact List.reverse_inj.symm
  rw [Ne, hdrop]
  constructor
  · intro hne
    refine ⟨fun hnil => hne (by simp [hnil]), ?_⟩
    by_contra htried
    exact hne (by rw [List.count_eq_zero.mpr htried, List.drop_zero])
  · rintro ⟨hsome, htried⟩ heq
    -- something is dropped, so the list gets shorter
    have hlen := congrArg List.length heq
    have hpos : 0 < (s.redis.lists key).length := List.length_pos_iff.mpr hsome
    have hcount : 0 < (triedKeys s.redis keys room).count key := List.count_pos_iff.mpr htried
    rw [List.length_drop, List.length_reverse] at hlen
    omega

end Run

/-! ### Capacity and urgency -/

section Serves

variable (platforms : List String) (capacity : ℤ)

/-- Capacity is left over only if the requested queues are empty. -/
def Filled (s' : Store) (tasks : List WorkTask) : Prop :=
  tasks.length < capacity → ∀ platform ∈ platforms, ∀ p ∈ priorities,
    s'.redis.lists (queueKey platform p) = []

/-- Nothing is taken from a queue while a more urgent one of its platform holds a task. -/
def UrgentFirst (s s' : Store) : Prop :=
  ∀ platform, ∀ p ∈ priorities, ∀ q ∈ priorities, q < p →
    s'.redis.lists (queueKey platform p) ≠ s.redis.lists (queueKey platform p) →
    s'.redis.lists (queueKey platform q) = []

/-- If fewer than `capacity` payloads are due, no queue holds more than it is visited. -/
def BacklogFits (redis : ListStore String String) : Prop :=
  (dueBefore redis (polledKeys platforms) (polledKeys platforms).length : ℤ) < capacity →
    ∀ key ∈ polledKeys platforms, (redis.lists key).length ≤ (polledKeys platforms).count key

/-- Where a queue that holds payloads is tried, the more urgent ones hold no more than they are tried. -/
def UrgentFits (redis : ListStore String String) : Prop :=
  ∀ platform ∈ platforms, ∀ p ∈ priorities, ∀ q ∈ priorities, q < p →
    redis.lists (queueKey platform p) ≠ [] →
    queueKey platform p ∈ triedKeys redis (polledKeys platforms) capacity →
    (redis.lists (queueKey platform q)).length ≤
      (triedKeys redis (polledKeys platforms) capacity).count (queueKey platform q)

end Serves

theorem queueKey_mem_polledKeys {platforms : List String} {platform : String} {p : ℤ}
    (hp : p ∈ priorities) : queueKey platform p ∈ polledKeys platforms ↔ platform ∈ platforms := by
  constructor
  · intro h
    obtain ⟨platform', hplat, h⟩ := List.mem_flatMap.mp h
    obtain ⟨p', -, h⟩ := List.mem_map.mp h
    exact (queueKey_inj h).1 ▸ hplat
  · exact fun h => List.mem_flatMap.mpr ⟨platform, h, List.mem_map_of_mem hp⟩

section Leaves

variable {w : String} {platforms : List String} {capacity : ℤ} {s s' : Store}

/-- What a poll leaves decides whether it has used its capacity, -/
theorem PollLeaves.filled_iff {tasks : List WorkTask}
    (h : PollLeaves (processingKey w) (polledKeys platforms) capacity s s' tasks.length) :
    Filled platforms capacity s' tasks ↔ BacklogFits platforms capacity s.redis := by
  constructor
  · -- all positions are tried, so what is left shows what was too much
    intro hfilled hlt key hkey
    obtain ⟨platform, hplat, hkey'⟩ := List.mem_flatMap.mp hkey
    obtain ⟨p, hp, rfl⟩ := List.mem_map.mp hkey'
    have hnil := hfilled (h.short.mpr hlt) platform hplat p hp
    rwa [h.lists_eq_nil_iff (queueKey_ne_processingKey _ _ w), triedKeys_of_lt hlt] at hnil
  · intro hfits hshort platform hplat p hp
    have hlt := h.short.mp hshort
    rw [h.lists_eq_nil_iff (queueKey_ne_processingKey _ _ w), triedKeys_of_lt hlt]
    exact hfits hlt _ ((queueKey_mem_polledKeys hp).mpr hplat)

/-- and whether it has respected urgency. -/
theorem PollLeaves.urgentFirst_iff {taken : ℕ}
    (h : PollLeaves (processingKey w) (polledKeys platforms) capacity s s' taken) :
    UrgentFirst s s' ↔ UrgentFits platforms capacity s.redis := by
  constructor
  · intro hurgent platform hplat p hp q hq hlt hsome htried
    exact (h.lists_eq_nil_iff (queueKey_ne_processingKey _ _ w)).mp
      (hurgent platform p hp q hq hlt ((h.lists_ne_iff (queueKey_ne_processingKey _ _ w)).mpr ⟨hsome, htried⟩))
  · intro hfits platform p hp q hq hlt hchanged
    obtain ⟨hsome, htried⟩ := (h.lists_ne_iff (queueKey_ne_processingKey _ _ w)).mp hchanged
    -- only the queues of requested platforms are tried
    have hplat := (queueKey_mem_polledKeys hp).mp (List.mem_of_mem_take htried)
    exact (h.lists_eq_nil_iff (queueKey_ne_processingKey _ _ w)).mpr
      (hfits platform hplat p hp q hq hlt hsome htried)

end Leaves

/-- **When a poll uses its capacity, and when it respects urgency.** A call that runs alone over decodable
queues returns tasks; each of the two holds of it if and only if the queues fit. -/
theorem popTasks_serves_iff (workerID : String) (platforms : List String) (capacity : ℤ) (s : Store)
    (hdec : Decodable s.redis (polledKeys platforms)) :
    ∃ s' tasks, (popTasks workerID platforms capacity).runOk server s = (s', .ok tasks) ∧
      (Filled platforms capacity s' tasks ↔ BacklogFits platforms capacity s.redis) ∧
      (UrgentFirst s s' ↔ UrgentFits platforms capacity s.redis) := by
  obtain ⟨s', tasks, hrun, hleaves⟩ := pollKeys_leaves (processingKey workerID) capacity
    (polledKeys platforms) [] s (polledKeys_ne_processingKey workerID) hdec
  rw [← pollPlatforms_eq_pollKeys, List.nil_append] at hrun
  rw [List.length_nil, Nat.cast_zero, sub_zero] at hleaves
  exact ⟨s', tasks, hrun, hleaves.filled_iff, hleaves.urgentFirst_iff⟩

/-- A payload that names its task only. -/
def barePayload (taskID : String) : String := "\x7b\"task_id\":\"" ++ taskID ++ "\"\x7d"

/-- The payloads of urgent and of less urgent tasks of one platform. -/
def beaconQueues (urgent less : List String) : Store :=
  let redis := urgent.foldl (fun st t => st.lpush (queueKey "beacon" 1) (barePayload t)) .empty
  let redis := less.foldl (fun st t => st.lpush (queueKey "beacon" 2) (barePayload t)) redis
  { Store.blank with redis := redis }

/-- With one task in each of two queues, a call takes both. -/
theorem popTasks_serves_beacon : ∃ s' tasks,
    (popTasks "w1" ["beacon"] 10).runOk server (beaconQueues ["t1"] ["t2"]) = (s', .ok tasks) ∧
      Filled ["beacon"] 10 s' tasks ∧ UrgentFirst (beaconQueues ["t1"] ["t2"]) s' := by
  have hdec : Decodable (beaconQueues ["t1"] ["t2"]).redis (polledKeys ["beacon"]) := by
    unfold Decodable
    decide +kernel
  have hfits : BacklogFits ["beacon"] 10 (beaconQueues ["t1"] ["t2"]).redis := by
    unfold BacklogFits
    decide +kernel
  have hurgent : UrgentFits ["beacon"] 10 (beaconQueues ["t1"] ["t2"]).redis := by
    unfold UrgentFits
    decide +kernel
  obtain ⟨s', tasks, hrun, hfilled, hfirst⟩ := popTasks_serves_iff "w1" ["beacon"] 10 _ hdec
  exact ⟨s', tasks, hrun, hfilled.mpr hfits, hfirst.mpr hurgent⟩

/-- **An urgent task is passed over.** Of two urgent tasks a call takes one, then a less urgent task, and
returns with eight places left. -/
theorem urgent_task_passed_over :
    Decodable (beaconQueues ["t1", "t2"] ["t3"]).redis (polledKeys ["beacon"]) ∧
    ∃ s' tasks,
      (popTasks "w1" ["beacon"] 10).runOk server (beaconQueues ["t1", "t2"] ["t3"]) = (s', .ok tasks) ∧
      ¬Filled ["beacon"] 10 s' tasks ∧ ¬UrgentFirst (beaconQueues ["t1", "t2"] ["t3"]) s' := by
  constructor
  · unfold Decodable
    decide +kernel
  · rcases hrun : (popTasks "w1" ["beacon"] 10).runOk server (beaconQueues ["t1", "t2"] ["t3"]) with ⟨s', r⟩
    have hs : ((popTasks "w1" ["beacon"] 10).runOk server (beaconQueues ["t1", "t2"] ["t3"])).1 = s' := by
      rw [hrun]
    have hr : ((popTasks "w1" ["beacon"] 10).runOk server (beaconQueues ["t1", "t2"] ["t3"])).2.toOption.map
        List.length = r.toOption.map List.length := by
      rw [hrun]
    have hlen : r.toOption.map List.length = some 2 := hr.symm.trans (by decide +kernel)
    have hleft : s'.redis.lists (queueKey "beacon" 1) ≠ [] := by
      rw [← hs]
      decide +kernel
    have hless : s'.redis.lists (queueKey "beacon" 2) ≠
        (beaconQueues ["t1", "t2"] ["t3"]).redis.lists (queueKey "beacon" 2) := by
      rw [← hs]
      decide +kernel
    cases r with
    | error e => exact absurd hlen (by simp [Except.toOption])
    | ok tasks =>
      have htwo : tasks.length = 2 := Option.some.inj hlen
      refine ⟨s', tasks, rfl, fun hfilled => ?_, fun hfirst => ?_⟩
      · exact hleft (hfilled (by omega) "beacon" (by decide) 1 (by decide))
      · exact hleft (hfirst "beacon" 2 (by decide) 1 (by decide) (by decide) hless)

end TaxlienGateway
