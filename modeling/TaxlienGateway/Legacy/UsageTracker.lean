import TaxlienGateway.Framework.Civil
import TaxlienGateway.Framework.TimedPool
import TaxlienGateway.Legacy.Await
import TaxlienGateway.Legacy.Usage
import TaxlienGateway.Service.Polling

/-!
# The usage tracker, command by command

`UsageTracker` of `legacy/app/services/usage.py` as a program that awaits `INCR` and, for a counter that
it has just created, `EXPIRE`. `Legacy/Usage.lean` has the same function run without interruption, and
`UsageCall.checkAndIncrement_runOk` says that it is the same.

The requests of one user for one feature on one day are one `Tally`, with one key. The keys of the
features that have a limit are different for different tallies, whatever characters a user id has
(`Tally.key_inj`): the features and the days have no colon.

What follows holds for any calls that share a Redis, as long as each keeps to `UsageRule`: a tally's key
is counted up by `INCR` and given its day to live by the call that created it, and by nothing else.

* `tallied_of_run` — the key of a tally holds the number of `INCR` commands executed for it, as long as
  these are executed on its day: the expiry that one of them sets cannot fall into that day;
* `reply_of_incr` — so each of them is answered with its rank.
-/

namespace TaxlienGateway

open Framework

namespace Legacy

/-! ### Days -/

/-- `datetime.date` -/
@[ext]
structure Date where
  year : ℕ
  month : ℕ
  day : ℕ
  year_mem : 1 ≤ year ∧ year ≤ 9999
  month_mem : 1 ≤ month ∧ month ≤ 12
  day_mem : 1 ≤ day ∧ day ≤ daysIn year month

instance : DecidableEq Date := fun _ _ => decidable_of_iff _ Date.ext_iff.symm

/-- `date.isoformat()` -/
def Date.isoformat (d : Date) : String :=
  String.ofList (padChars 4 d.year ++ '-' :: (padChars 2 d.month ++ '-' :: padChars 2 d.day))

/-- Days since 1970-01-01. -/
def Date.epochDay (d : Date) : ℤ :=
  daysBeforeYear d.year + daysBeforeMonth d.year d.month + (d.day - 1) - 719162

theorem padChars_inj {w m n : ℕ} (h : padChars w m = padChars w n) : m = n := by
  have hm := readNat?_padChars w m
  rw [h, readNat?_padChars] at hm
  exact (Option.some.inj hm).symm

/-- The text of a day determines it. -/
theorem Date.isoformat_inj {d d' : Date} (h : d.isoformat = d'.isoformat) : d = d' := by
  obtain ⟨year, month, day, hyear, hmonth, hday⟩ := d
  obtain ⟨year', month', day', hyear', hmonth', hday'⟩ := d'
  have hl := congrArg String.toList h
  simp only [Date.isoformat, String.toList_ofList] at hl
  -- the year and the month have their widths, so the parts are at the same places
  have hlen : ∀ {w n : ℕ}, 0 < w → n < 10 ^ w → (padChars w n).length = w := length_padChars
  obtain ⟨hy, hrest⟩ := List.append_inj hl
    ((hlen (by decide) (by omega)).trans (hlen (by decide) (by omega)).symm)
  obtain ⟨hm, hrest⟩ := List.append_inj (List.cons.inj hrest).2
    ((hlen (by decide) (by have := hmonth.2; omega)).trans
      (hlen (by decide) (by have := hmonth'.2; omega)).symm)
  have hd := padChars_inj (List.cons.inj hrest).2
  obtain rfl := padChars_inj hy
  obtain rfl := padChars_inj hm
  obtain rfl := hd
  rfl

theorem Date.colon_notMem_isoformat (d : Date) : ':' ∉ d.isoformat.toList := by
  have hpad : ∀ w n : ℕ, ':' ∉ padChars w n := by
    intro w n hmem
    exact absurd (List.all_eq_true.mp (padChars_all_isDigit w n) _ hmem) (by decide)
  simp [Date.isoformat, hpad]

/-! ### The tracker -/

/-- The requests of a user for a feature on a day. -/
structure Tally where
  user_id : String
  feature : String
  today : Date
  deriving DecidableEq

/-- `UsageTracker._get_key`, when `datetime.date.today()` is `today`. -/
def Tally.key (q : Tally) : String :=
  "usage:" ++ q.user_id ++ ":" ++ q.feature ++ ":" ++ q.today.isoformat

/-- A call of `check_and_increment`. -/
structure UsageCall where
  tally : Tally
  tier : UserTier
  deriving DecidableEq

def UsageCall.limit (u : UsageCall) : ℤ := limitFor u.tier u.tally.feature

/-- `UsageTracker.check_and_increment` -/
def UsageCall.checkAndIncrement (u : UsageCall) : Prog Await AwaitReply (Except String Bool) :=
  let limit := u.limit
  -- neither of these two counts the request
  if limit = -1 then pure (.ok true)
  else if limit = 0 then pure (.ok false)
  else do
    match ← incr u.tally.key with
    | .error e => pure (.error e)
    | .ok current =>
      if current = 1 then do
        match ← expire u.tally.key 86400 with
        | .error e => pure (.error e)
        | .ok _ => pure (.ok (current ≤ limit))
      else pure (.ok (current ≤ limit))

/-! ### A call that runs alone -/

/-- What Redis holds for a counter. -/
def Counter.entry (c : Counter) : Entry Value ℚ := ⟨.counter c.value, some c.expireAt⟩

/-- A command finds the counter while it lives. -/
theorem find?_counter {s : Backends} {now : ℚ} {k : String} {key : Option Counter}
    (h : s.redis.entries k = key.map Counter.entry) :
    s.redis.find? now k = (liveCounter now key).map Counter.entry := by
  unfold ExpiringStore.find?
  rw [h]
  cases key with
  | none => rfl
  | some c =>
    unfold liveCounter
    rw [Option.map_some, Option.filter_some, Option.filter_some]
    show (if decide (now ≤ c.expireAt) = true then _ else _) = _
    split
    · rfl
    · rfl

section Alone

variable {s : Backends} {now : ℚ} {k : String} {key : Option Counter} {c : Counter}

/-- `INCR` on a key that holds a counter, or nothing. -/
theorem exec_incr_counter (h : s.redis.entries k = key.map Counter.entry) :
    (backends now).exec (.incr k) s =
      ({ s with redis := s.redis.write now k (.counter (increment now key).value) },
        .ok (increment now key).value) := by
  have hfind : s.redis.find? now k = (liveCounter now key).map Counter.entry := find?_counter h
  show s.incr now k = _
  unfold Backends.incr Backends.value?
  rw [hfind]
  cases hlive : liveCounter now key with
  | none =>
    rw [increment_of_none hlive]
    rfl
  | some c =>
    rw [increment_of_some hlive]
    rfl

/-- A counter that `INCR` creates gets its expiry from the `EXPIRE` that follows. -/
theorem entries_firstIncr (hfind : s.redis.find? now k = none) :
    ((s.redis.write now k (.counter 1)).expire now k (now + 86400)).entries k =
      some (Counter.entry ⟨1, now + 86400⟩) := by
  have hwritten : (s.redis.write now k (.counter 1)).entries k = some ⟨.counter 1, none⟩ := by
    rw [ExpiringStore.entries_write_self, hfind]
    rfl
  exact ExpiringStore.entries_expire_self
    (ExpiringStore.find?_of_entries hwritten fun t ht => absurd ht (by simp))

/-- A counter that is there keeps its expiry. -/
theorem entries_laterIncr (hfind : s.redis.find? now k = some c.entry) :
    (s.redis.write now k (.counter (c.value + 1))).entries k =
      some (Counter.entry ⟨c.value + 1, c.expireAt⟩) := by
  rw [ExpiringStore.entries_write_self, hfind]
  rfl

/-- **Alone and undisturbed**, the program is the function of `Legacy/Usage.lean`. -/
theorem UsageCall.checkAndIncrement_runOk (u : UsageCall)
    (hkey : s.redis.entries u.tally.key = key.map Counter.entry) (hpos : ∀ c ∈ key, 0 < c.value) :
    ∃ s', u.checkAndIncrement.runOk (backends now) s =
        (s', .ok (Legacy.checkAndIncrement u.tier u.tally.feature now key).2) ∧
      s'.redis.entries u.tally.key =
        (Legacy.checkAndIncrement u.tier u.tally.feature now key).1.map Counter.entry ∧
      ∀ k ≠ u.tally.key, s'.redis.entries k = s.redis.entries k := by
  unfold UsageCall.checkAndIncrement Legacy.checkAndIncrement
  show ∃ s', Prog.runOk (backends now) (if limitFor u.tier u.tally.feature = -1 then _ else _) s = _ ∧ _
  unfold UsageCall.limit
  generalize limitFor u.tier u.tally.feature = limit
  dsimp only
  by_cases hunlimited : limit = -1
  · rw [if_pos hunlimited, if_pos hunlimited]
    exact ⟨s, rfl, hkey, fun _ _ => rfl⟩
  · rw [if_neg hunlimited, if_neg hunlimited]
    by_cases hzero : limit = 0
    · rw [if_pos hzero, if_pos hzero]
      exact ⟨s, rfl, hkey, fun _ _ => rfl⟩
    · rw [if_neg hzero, if_neg hzero]
      rw [Prog.cmd_bind, Prog.runOk_cmd, exec_incr_counter hkey]
      show ∃ s', Prog.runOk (backends now) (if ((increment now key).value : ℤ) = 1 then _ else _) _ = _ ∧ _
      have hfind : s.redis.find? now u.tally.key = (liveCounter now key).map Counter.entry :=
        find?_counter hkey
      cases hlive : liveCounter now key with
      | none =>
        -- a new counter: it has no expiry until `EXPIRE` gives it one
        rw [hlive] at hfind
        have hnew : increment now key = ⟨1, now + 86400⟩ := increment_of_none hlive
        have hfirst : ((increment now key).value : ℤ) = 1 := by
          rw [hnew]
          rfl
        rw [if_pos hfirst, hnew, Prog.issue_bind, Prog.runOk_cmd]
        refine ⟨_, rfl, entries_firstIncr hfind, fun k hk => ?_⟩
        show ((s.redis.write now u.tally.key _).expire now u.tally.key _).entries k = _
        rw [ExpiringStore.entries_expire_of_ne hk, ExpiringStore.entries_write_of_ne _ hk]
      | some c =>
        rw [hlive] at hfind
        have hnext : increment now key = ⟨c.value + 1, c.expireAt⟩ := increment_of_some hlive
        -- a counter is never 0, so this is not the first request
        have hlater : ¬ ((increment now key).value : ℤ) = 1 := by
          have hc := hpos c (Option.filter_eq_some_iff.mp hlive).1
          rw [hnext]
          show ¬ ((c.value + 1 : ℕ) : ℤ) = 1
          omega
        rw [if_neg hlater, hnext]
        exact ⟨_, rfl, entries_laterIncr hfind, fun k hk => ExpiringStore.entries_write_of_ne _ hk⟩

end Alone

/-! ### The keys -/

/-- What is looked up is in the table. -/
theorem mem_of_lookup {α β : Type} [BEq α] [LawfulBEq α] {a : α} {b : β} {l : List (α × β)}
    (h : l.lookup a = some b) : (a, b) ∈ l := by
  obtain ⟨l₁, l₂, rfl, -⟩ := List.lookup_eq_some_iff.mp h
  exact List.mem_append_right _ List.mem_cons_self

/-- A limit needs one of the two features. -/
theorem feature_of_limitFor_ne_zero {tier : UserTier} {feature : String}
    (h : limitFor tier feature ≠ 0) : feature = "daily_search" ∨ feature = "daily_details" := by
  have hall : ∀ p ∈ tierLimits, ∀ q ∈ p.2, q.1 = "daily_search" ∨ q.1 = "daily_details" := by
    decide
  unfold limitFor at h
  cases htier : tierLimits.lookup tier with
  | none => exact absurd (by rw [htier]; rfl) h
  | some limits =>
    rw [htier, Option.getD_some] at h
    cases hfeature : limits.lookup feature with
    | none => exact absurd (by rw [hfeature]; rfl) h
    | some limit => exact hall _ (mem_of_lookup htier) _ (mem_of_lookup hfeature)

/-- Neither has a colon. -/
theorem colon_notMem_of_limitFor_ne_zero {tier : UserTier} {feature : String}
    (h : limitFor tier feature ≠ 0) : ':' ∉ feature.toList := by
  rcases feature_of_limitFor_ne_zero h with rfl | rfl
  · decide
  · decide

/-- A limit is more than one request, unless it is one of the two special ones. -/
theorem two_le_limitFor {tier : UserTier} {feature : String} (h : limitFor tier feature ≠ 0)
    (h' : limitFor tier feature ≠ -1) : 2 ≤ limitFor tier feature := by
  rcases feature_of_limitFor_ne_zero h with rfl | rfl
  · revert h h'
    cases tier <;> decide
  · revert h h'
    cases tier <;> decide

theorem Tally.toList_key (q : Tally) :
    q.key.toList = "usage:".toList ++
      (q.user_id.toList ++ ':' :: (q.feature.toList ++ ':' :: q.today.isoformat.toList)) := by
  unfold Tally.key
  simp only [String.toList_append, List.append_assoc]
  rfl

/-- The fields of the key of a tally, whose feature has no colon. The user id is free. -/
def Tally.fields (q : Tally) (hq : ':' ∉ q.feature.toList) : Fields ':' where
  before := ["usage".toList]
  free := q.user_id.toList
  after := [q.feature.toList, q.today.isoformat.toList]
  noSep_before := by decide
  noSep_after := by
    rw [List.forall_mem_cons, List.forall_mem_singleton]
    exact ⟨hq, q.today.colon_notMem_isoformat⟩

theorem Tally.text_fields (q : Tally) (hq : ':' ∉ q.feature.toList) : (q.fields hq).text = q.key.toList := by
  rw [Tally.toList_key]
  simp [Fields.text, Tally.fields]

theorem Tally.fields_inj {q q' : Tally} {hq : ':' ∉ q.feature.toList} {hq' : ':' ∉ q'.feature.toList}
    (h : q.fields hq = q'.fields hq') : q = q' := by
  obtain ⟨user_id, feature, today⟩ := q
  obtain ⟨user_id', feature', today'⟩ := q'
  obtain rfl := String.toList_inj.mp (congrArg Fields.free h)
  obtain ⟨hfeature, hrest⟩ := List.cons.inj (congrArg Fields.after h)
  obtain rfl := String.toList_inj.mp hfeature
  obtain rfl := Date.isoformat_inj (String.toList_inj.mp (List.singleton_inj.mp hrest))
  rfl

/-- **Different tallies have different keys**, if their features have no colon: the day, the feature
and the user can be read off the key from its end. -/
theorem Tally.key_inj {q q' : Tally} (hq : ':' ∉ q.feature.toList) (hq' : ':' ∉ q'.feature.toList)
    (h : q.key = q'.key) : q = q' := by
  have htext : (q.fields hq).text = (q'.fields hq').text := by
    rw [Tally.text_fields, Tally.text_fields, h]
  exact Tally.fields_inj (Fields.eq_of_text (Eq.refl 1) (Eq.refl 2) htext)

/-- The keys of the tracker. -/
def IsUsageKey (key : String) : Prop := "usage:".toList <+: key.toList

theorem Tally.isUsageKey_key (q : Tally) : IsUsageKey q.key := by
  unfold IsUsageKey
  rw [Tally.toList_key]
  exact List.prefix_append _ _

/-! ### Conduct -/

/-- What a call may do with the keys of the tracker: count its own tally, if it has a limit, and give
the counter a day to live if it has created it. -/
def UsageRule (u : Option UsageCall) (own : List (Op Await AwaitReply)) : Await → Prop
  | .incr key => ∃ v ∈ u, v.limit ≠ 0 ∧ v.limit ≠ -1 ∧ key = v.tally.key
  | .expire key ttl => ∃ v ∈ u, v.limit ≠ 0 ∧ key = v.tally.key ∧ ttl = 86400 ∧
      (⟨.incr key, .ok (.ok 1)⟩ : Op Await AwaitReply) ∈ own
  | c => ∀ key, c.key? = some key → ¬ IsUsageKey key

/-- **The commands on the key of a tally** are those of its own calls: one counts it up, and the other gives
the counter that the call has created its day to live. -/
theorem UsageRule.on_key {u : Option UsageCall} {own : List (Op Await AwaitReply)} {c : Await} {q : Tally}
    (h : UsageRule u own c) (hq : ':' ∉ q.feature.toList) (hkey : c.key? = some q.key) :
    ∃ v, u = some v ∧ v.tally = q ∧ v.limit ≠ 0 ∧ (c = .incr q.key ∧ v.limit ≠ -1 ∨
      c = .expire q.key 86400 ∧ (⟨.incr q.key, .ok (.ok 1)⟩ : Op Await AwaitReply) ∈ own) := by
  -- whoever counts under the key of the tally counts the tally
  have htally : ∀ v : UsageCall, v.limit ≠ 0 → v.tally.key = q.key → v.tally = q :=
    fun v hzero hv => Tally.key_inj (colon_notMem_of_limitFor_ne_zero hzero) hq hv
  cases c with
  | incr key =>
    obtain ⟨v, hv, hzero, hunlimited, rfl⟩ := h
    obtain rfl := htally v hzero (Option.some.inj hkey)
    exact ⟨v, hv, rfl, hzero, .inl ⟨rfl, hunlimited⟩⟩
  | expire key ttl =>
    obtain ⟨v, hv, hzero, rfl, rfl, hown⟩ := h
    obtain rfl := htally v hzero (Option.some.inj hkey)
    exact ⟨v, hv, rfl, hzero, .inr ⟨rfl, hown⟩⟩
  | get key => exact absurd hkey (by simp [Await.key?])
  | upstream request => exact absurd hkey (by simp [Await.key?])
  | setex key ttl content => exact absurd q.isUsageKey_key (h _ hkey)
  | hset key fields => exact absurd q.isUsageKey_key (h _ hkey)
  | tokenBucket key clock rate burst requested => exact absurd q.isUsageKey_key (h _ hkey)

/-- What a call of `check_and_increment` ends with: its limit decides, or its rank does, or a command
has failed. -/
def UsageCall.Ends (u : UsageCall) (own : List (Op Await AwaitReply)) : Except String Bool → Prop
  | .ok b => u.limit = -1 ∧ b = true ∨ u.limit = 0 ∧ b = false ∨ u.limit ≠ -1 ∧ u.limit ≠ 0 ∧
      ∃ n, (⟨.incr u.tally.key, .ok (.ok n)⟩ : Op Await AwaitReply) ∈ own ∧ b = decide (n ≤ u.limit)
  | .error e => (∃ c, (⟨c, .error e⟩ : Op Await AwaitReply) ∈ own) ∨
      (⟨.incr u.tally.key, .ok (.error e)⟩ : Op Await AwaitReply) ∈ own

/-- **The conduct of `check_and_increment`.** Its commands are on the key of its tally. -/
theorem UsageCall.checkAndIncrement_obeys {u : UsageCall}
    {G : List (Op Await AwaitReply) → Await → Prop} {own : List (Op Await AwaitReply)}
    (hG : ∀ own c, UsageRule (some u) own c → c.key? = some u.tally.key → G own c) :
    u.checkAndIncrement.Obeys G (fun own r => u.Ends own r) own := by
  unfold UsageCall.checkAndIncrement
  by_cases hunlimited : u.limit = -1
  · simp only [hunlimited, ↓reduceIte]
    exact .inl ⟨hunlimited, rfl⟩
  by_cases hzero : u.limit = 0
  · simp only [hzero, ↓reduceIte]
    exact .inr (.inl ⟨hzero, rfl⟩)
  simp only [hunlimited, hzero, ↓reduceIte, Prog.cmd_bind, Prog.done_bind]
  refine ⟨hG _ _ ⟨u, rfl, hzero, hunlimited, rfl⟩ rfl, fun r => ?_⟩
  match r with
  | .error e => exact .inl ⟨.incr u.tally.key, List.mem_append_right _ (List.mem_singleton_self _)⟩
  | .ok (.error e) => exact .inr (List.mem_append_right _ (List.mem_singleton_self _))
  | .ok (.ok current) =>
    change (if current = 1 then _ else _ : Prog Await AwaitReply _).Obeys _ _ _
    split
    · next hone =>
      -- this call has created the counter
      subst hone
      refine ⟨hG _ _ ⟨u, rfl, hzero, rfl, rfl, by simp⟩ rfl, fun r => ?_⟩
      match r with
      | .error e =>
        exact .inl ⟨.expire u.tally.key 86400, List.mem_append_right _ (List.mem_singleton_self _)⟩
      | .ok _ => exact .inr (.inr ⟨hunlimited, hzero, 1, by simp, rfl⟩)
    · exact .inr (.inr ⟨hunlimited, hzero, current, by simp, rfl⟩)

/-! ### The tallies of a run -/

section Run

variable {Call : Type}

/-- An event and its time. -/
abbrev TimedEvent (Ret : Call → Type) : Type := ℚ × Event Await AwaitReply Call Ret

variable {Ret : Call → Type} (usage : Call → Option UsageCall)

/-- An `INCR` is executed for the tally. -/
def counts (q : Tally) : TimedEvent Ret → Bool
  | (_, .cmd _ call (.incr _) o) => o.effect.isSome && (usage call).map UsageCall.tally == some q
  | _ => false

/-- How many have been executed. -/
def counted (q : Tally) (es : List (TimedEvent Ret)) : ℕ :=
  es.countP (counts usage q)

/-- Every `INCR` for the tally is executed on its day. -/
def OnItsDay (q : Tally) (es : List (TimedEvent Ret)) : Prop :=
  ∀ e ∈ es, counts usage q e = true → dayOf e.1 = q.today.epochDay

/-- The entry of a tally's key after `n` executions: it does not expire on the day of the tally. -/
def Tallied (q : Tally) (n : ℕ) : Option (Entry Value ℚ) → Prop
  | none => n = 0
  | some e => e.value = .counter n ∧ ∀ t ∈ e.expireAt, (q.today.epochDay + 1) * 86400 ≤ t

theorem mul_le_of_dayOf {t : ℚ} {d : ℤ} (h : dayOf t = d) : (d : ℚ) * 86400 ≤ t := by
  have hle : (dayOf t : ℚ) ≤ t / 86400 := Int.floor_le _
  rw [h] at hle
  linarith

theorem lt_mul_of_dayOf {t : ℚ} {d : ℤ} (h : dayOf t = d) : t < ((d : ℚ) + 1) * 86400 := by
  have hlt : t / 86400 < dayOf t + 1 := Int.lt_floor_add_one _
  rw [h] at hlt
  linarith

variable {usage} {body : (call : Call) → Prog Await AwaitReply (Ret call)} {init : Backends → Prop}
  {Q : (call : Call) → List (Op Await AwaitReply) → Ret call → Prop} {q : Tally}

/-- On its day, the key of a tally lives, once it has been counted up. -/
theorem Tallied.find? {n : ℕ} {s : Backends} {now : ℚ}
    (h : Tallied q n (s.redis.entries q.key)) (hday : dayOf now = q.today.epochDay) :
    (n = 0 ∧ s.redis.find? now q.key = none) ∨
      ∃ e, s.redis.find? now q.key = some e ∧ e.value = .counter n ∧
        ∀ t ∈ e.expireAt, (q.today.epochDay + 1) * 86400 ≤ t := by
  cases he : s.redis.entries q.key with
  | none =>
    rw [he] at h
    exact .inl ⟨h, ExpiringStore.find?_of_none he⟩
  | some e =>
    rw [he] at h
    obtain ⟨hvalue, hexpire⟩ := h
    -- it does not expire before the day ends
    have hfind := ExpiringStore.find?_of_entries he fun t ht =>
      (lt_mul_of_dayOf hday).le.trans (hexpire t ht)
    exact .inr ⟨e, hfind, hvalue, hexpire⟩

/-- On its day, the key of a tally is answered with the next rank. -/
theorem Tallied.incr {n : ℕ} {s : Backends} {now : ℚ}
    (h : Tallied q n (s.redis.entries q.key)) (hday : dayOf now = q.today.epochDay) :
    incrValue (s.value? now q.key) = .ok (n + 1) ∧
      ∀ t ∈ (s.redis.find? now q.key).bind Entry.expireAt, (q.today.epochDay + 1) * 86400 ≤ t := by
  unfold Backends.value?
  rcases h.find? hday with ⟨rfl, hfind⟩ | ⟨e, hfind, hvalue, hexpire⟩
  · rw [hfind]
    exact ⟨rfl, by simp⟩
  · rw [hfind, Option.map_some, hvalue]
    exact ⟨rfl, hexpire⟩

/-- An `INCR` on its day counts one more, and the key still lives to the end of the day. -/
theorem Tallied.exec_incr {n : ℕ} {s s' : Backends} {now : ℚ} {r : Except String ℤ}
    (h : Tallied q n (s.redis.entries q.key)) (hday : dayOf now = q.today.epochDay)
    (hx : (backends now).exec (.incr q.key) s = (s', r)) :
    Tallied q (n + 1) (s'.redis.entries q.key) := by
  obtain ⟨hreply, hexpire⟩ := h.incr hday
  obtain ⟨rfl, hredis⟩ := Legacy.exec_incr hx
  rw [hreply] at hredis
  rcases hredis with ⟨e, he, -⟩ | ⟨n', hn', hredis⟩
  · exact absurd he (by simp)
  · obtain rfl := Except.ok.inj hn'
    rw [hredis, ExpiringStore.entries_write_self]
    exact ⟨rfl, hexpire⟩

/-- An `EXPIRE` that is sent after the day has begun does not end within it. -/
theorem Tallied.exec_expire {n : ℕ} {s s' : Backends} {now : ℚ} {r : Bool}
    (h : Tallied q n (s.redis.entries q.key)) (hstart : (q.today.epochDay : ℚ) * 86400 ≤ now)
    (hx : (backends now).exec (.expire q.key 86400) s = (s', r)) :
    Tallied q n (s'.redis.entries q.key) := by
  rw [Legacy.exec_expire hx]
  cases hfind : s.redis.find? now q.key with
  | none =>
    rw [ExpiringStore.expire_of_none hfind]
    exact h
  | some e =>
    rw [(ExpiringStore.find?_eq_some_iff.mp hfind).1] at h
    rw [ExpiringStore.entries_expire_self hfind]
    refine ⟨h.1, ?_⟩
    intro t ht
    obtain rfl := Option.some.inj ht
    -- a full day from a time within the day reaches past its end
    calc ((q.today.epochDay : ℚ) + 1) * 86400
        = q.today.epochDay * 86400 + 86400 := by ring
      _ ≤ now + (86400 : ℕ) := by push_cast; linarith

theorem counted_append_singleton (es : List (TimedEvent Ret))
    (e : TimedEvent Ret) :
    counted usage q (es ++ [e]) = counted usage q es + (counts usage q e).toNat := by
  unfold counted
  rw [List.countP_append, List.countP_singleton]
  cases counts usage q e <;> rfl

/-- An event that executes nothing counts nothing. -/
theorem counts_of_idle {t : ℚ} {e : Event Await AwaitReply Call Ret} (h : e.applied? = none) :
    counts usage q (t, e) = false := by
  cases e with
  | cmd i call c o =>
    have hnone : o.effect = none := Option.map_eq_none_iff.mp h
    cases c <;> simp [counts, hnone]
  | start i call => rfl
  | finish i call a => rfl
  | crash i call => rfl

/-- An executed `INCR` of a call for the tally counts. -/
theorem counts_incr {t : ℚ} {i : ℕ} {call : Call} {key : String} {o : Outcome (Except String ℤ)}
    {r : Except String ℤ} (ho : o.effect = some r) {v : UsageCall} (hv : usage call = some v) :
    counts usage q ((t, .cmd i call (.incr key) o) : TimedEvent Ret) = decide (v.tally = q) := by
  change (o.effect.isSome && ((usage call).map UsageCall.tally == some q)) = _
  rw [ho, hv, Option.map_some, Option.isSome_some, Bool.true_and]
  exact Bool.eq_iff_iff.mpr (by simp)

/-- A command on another key counts nothing. -/
theorem counts_of_other {t : ℚ} {i : ℕ} {call : Call} {c : Await} {o : Outcome (AwaitReply c)}
    {own : List (Op Await AwaitReply)} (hrule : UsageRule (usage call) own c) (hkey : c.key? ≠ some q.key) :
    counts usage q ((t, .cmd i call c o) : TimedEvent Ret) = false := by
  cases c with
  | incr key =>
    obtain ⟨v, hv, -, -, rfl⟩ := hrule
    have hne : v.tally ≠ q := by
      rintro rfl
      exact hkey rfl
    show (o.effect.isSome && ((usage call).map UsageCall.tally == some q)) = false
    rw [hv, Option.map_some, beq_eq_false_iff_ne.mpr (Option.some_injective _ |>.ne hne), Bool.and_false]
  | get key => rfl
  | setex key ttl content => rfl
  | expire key ttl => rfl
  | hset key fields => rfl
  | tokenBucket key clock rate burst requested => rfl
  | upstream request => rfl

variable {G : Call → List (Op Await AwaitReply) → Await → Prop} {es : List (TimedEvent Ret)}
  {s : ℚ × Pool Await AwaitReply Call Ret Backends}

/-- A call that has counted for a tally has done so on its day, so the day has begun. -/
theorem dayStart_le_of_own (hr : (timedPool backends body init).Run es s) (hday : OnItsDay usage q es)
    {i : ℕ} {th : Thread Await AwaitReply Call Ret} (hth : s.2.threads i = some th) {v : UsageCall}
    (hv : usage th.call = some v) (hvq : v.tally = q) {r : Except String ℤ}
    (hown : (⟨.incr q.key, .ok r⟩ : Op Await AwaitReply) ∈ ownOps i (es.map Prod.snd)) :
    (q.today.epochDay : ℚ) * 86400 ≤ s.1 := by
  obtain ⟨pre, t, o, post, rfl, hseen, -⟩ := exists_split_of_mem_ownOps hr i th hth _ hown
  have hmem : (t, Event.cmd i th.call (.incr q.key) o) ∈ pre ++ (t, Event.cmd i th.call _ o) :: post :=
    List.mem_append_right pre List.mem_cons_self
  have hcounts : counts usage q ((t, .cmd i th.call (.incr q.key) o) : TimedEvent Ret) = true := by
    rw [counts_incr (Outcome.effect_of_seen hseen) hv, decide_eq_true hvq]
  calc (q.today.epochDay : ℚ) * 86400
      ≤ t := mul_le_of_dayOf (hday _ hmem hcounts)
    _ ≤ s.1 := (times_of_run hr).2 _ hmem

/-- **The key of a tally** holds the number of executions for it, as long as these are on its day. -/
theorem tallied_of_run (hb : Obeyed body G Q)
    (hG : ∀ call own c, G call own c → UsageRule (usage call) own c) (hq : ':' ∉ q.feature.toList)
    (hinit : ∀ s, init s → s.redis.entries q.key = none)
    (hr : (timedPool backends body init).Run es s) (hday : OnItsDay usage q es) :
    Tallied q (counted usage q es) (s.2.store.redis.entries q.key) := by
  revert hday
  refine hb.timed_invariant (I := fun es s =>
    OnItsDay usage q es → Tallied q (counted usage q es) (s.redis.entries q.key)) ?_ ?_ ?_ hr
  · intro s hs _
    rw [hinit s hs]
    rfl
  · intro es s t e ih he hday
    rw [counted_append_singleton, counts_of_idle he]
    exact ih fun e' he' => hday e' (List.mem_append_left _ he')
  · intro es s t i call c k o r s' hr ih hclock hth hrule ho hx hday
    have hdayBefore : OnItsDay usage q es := fun e' he' => hday e' (List.mem_append_left _ he')
    have ih := ih hdayBefore
    have hrule := hG _ _ _ hrule
    rw [counted_append_singleton]
    by_cases hkey : c.key? = some q.key
    · obtain ⟨v, hv, hvq, -, ⟨rfl, -⟩ | ⟨rfl, hown⟩⟩ := hrule.on_key hq hkey
      · have hcounts : counts usage q ((t, .cmd i call (.incr q.key) o) : TimedEvent Ret) = true := by
          rw [counts_incr ho hv, decide_eq_true hvq]
        rw [hcounts]
        exact ih.exec_incr (hday _ (by simp) hcounts) hx
      · -- the call has counted before, on the day of the tally
        exact ih.exec_expire ((dayStart_le_of_own hr hdayBefore hth hv hvq hown).trans hclock) hx
    · -- a command on another key neither counts nor touches the key
      rw [counts_of_other hrule hkey, entries_of_exec hx hkey]
      exact ih

/-- **Each execution is answered with its rank.** -/
theorem reply_of_incr (hb : Obeyed body G Q)
    (hG : ∀ call own c, G call own c → UsageRule (usage call) own c) (hq : ':' ∉ q.feature.toList)
    (hinit : ∀ s, init s → s.redis.entries q.key = none)
    {pre post : List (TimedEvent Ret)}
    {s : ℚ × Pool Await AwaitReply Call Ret Backends} {t : ℚ} {i : ℕ} {call : Call} {key : String}
    {o : Outcome (Except String ℤ)}
    (hr : (timedPool backends body init).Run (pre ++ (t, .cmd i call (.incr key) o) :: post) s)
    (hday : OnItsDay usage q (pre ++ (t, .cmd i call (.incr key) o) :: post))
    (hcounts : counts usage q ((t, .cmd i call (.incr key) o) : TimedEvent Ret) = true) :
    o.effect = some (.ok (counted usage q pre + 1)) := by
  obtain ⟨s₀, ⟨t₁, p₁⟩, h₀, ⟨-, -, hstep⟩, -⟩ := hr.step_at
  have htallied := tallied_of_run hb hG hq hinit h₀ fun e he => hday e (List.mem_append_left _ he)
  obtain ⟨hreply, -⟩ := htallied.incr (hday _ (by simp) hcounts)
  rcases hstep.exec_cases with ⟨hidle, -⟩ | ⟨i', call', c', k, o', r, heq, ho, hth, hx⟩
  · exact absurd (counts_of_idle (t := t) hidle ▸ hcounts) (by simp)
  · cases heq
    -- the key is the one of the tally, by the rule of the call
    obtain ⟨v, hv, -, -, rfl⟩ := hG _ _ _ (hb.run_timed h₀ i _ hth).1
    rw [counts_incr ho hv, decide_eq_true_eq] at hcounts
    subst hcounts
    rw [ho, (exec_incr hx).1, hreply]

end Run

end Legacy

end TaxlienGateway
