import TaxlienGateway.Framework.Promise
import TaxlienGateway.Legacy.UpstreamBound
import TaxlienGateway.Service.WorkerRegistry

/-!
# Keys that expire

The keys of both gateways that are meant to expire: the status of a worker, the counters of the tracker,
the buckets of the rate limiter, and the cache. The script and `SETEX` write a key together with its
expiry. The other two writers take two commands: `HSET` or `INCR` may create a key without expiry, and
the `EXPIRE` that follows sets it. In between, the call owes the key its expiry.

* `owed_of_run` — whatever is interleaved, a key without expiry is owed one by a call in flight, as long
  as no call gives up an `EXPIRE` that nobody else is about to send;
* `all_expire` — so then every key has one when no call is in flight;
* `worker_without_expiry` — but a heartbeat that is cut off between its two commands leaves a key that
  never expires.
-/

namespace TaxlienGateway

open Framework Legacy

/-! ### The calls -/

/-- The writers of expiring keys. -/
inductive KeyCall where
  | heartbeat (h : Heartbeat)
  | usageCheck (u : UsageCall)
  /-- `is_rate_limited` -/
  | rateLimitCheck (time : ℚ) (identifier tier : String)
  /-- A whole request to the public application; `get_property` writes the cache. -/
  | request (request : ApiRequest)

abbrev KeyCall.Ret : KeyCall → Type
  | heartbeat _ => Except String Unit
  | usageCheck _ => Except String Bool
  | rateLimitCheck _ _ _ => Except String (Bool × ℤ)
  | request _ => ApiResponse

def KeyCall.body : (call : KeyCall) → Prog Await AwaitReply call.Ret
  | heartbeat h => h.update
  | usageCheck u => u.checkAndIncrement
  | rateLimitCheck time identifier tier => isRateLimitedAt time identifier tier
  | request r => r.dispatch

/-! ### What is owed -/

/-- A counter that has just been created is to live a day, and the hash of a worker five minutes. -/
def promise : (c : Await) → AwaitReply c → Option Await
  | .incr key, .ok n => if n = 1 then some (.expire key 86400) else none
  | .hset key _, .ok _ => some (.expire key 300)
  | _, _ => none

theorem keeps_orFail {α : Type} {p : Prog Await AwaitReply (Except String α)} {fail : String → Answer}
    {k : α → Prog Await AwaitReply Answer} (hp : p.Keeps promise) (hk : ∀ a, (k a).Keeps promise) :
    (orFail p fail k).Keeps promise := by
  refine hp.bind fun r => ?_
  cases r with
  | error e => trivial
  | ok a => exact hk a

theorem update_keeps (h : Heartbeat) : h.update.Keeps promise := by
  unfold Heartbeat.update
  simp only [Prog.cmd_bind, Prog.done_bind, Prog.issue_bind]
  refine ⟨?_, fun r => ?_⟩
  · intro r d hd
    match r with
    | .ok n => exact hd
    | .error e => exact absurd hd (by simp [promise])
  · beta_reduce
    cases raiseError r with
    | error e => trivial
    | ok n =>
      refine Prog.keeps_cmd_of_none (fun _ => rfl) fun r => ?_
      cases r <;> trivial

theorem checkAndIncrement_keeps (u : UsageCall) : u.checkAndIncrement.Keeps promise := by
  unfold UsageCall.checkAndIncrement
  by_cases hunlimited : u.limit = -1
  · simp only [hunlimited, ↓reduceIte]
    trivial
  by_cases hzero : u.limit = 0
  · simp only [hzero, ↓reduceIte]
    trivial
  simp only [hunlimited, hzero, ↓reduceIte, Prog.cmd_bind, Prog.done_bind]
  refine ⟨?_, fun r => ?_⟩
  · -- only the first count promises
    intro r d hd
    match r with
    | .error e => exact absurd hd (by simp [promise])
    | .ok n =>
      by_cases hone : n = 1
      · subst hone
        exact hd
      · exact absurd hd (by simp [promise, hone])
  · beta_reduce
    cases raiseError r with
    | error e => trivial
    | ok current =>
      change (if current = 1 then _ else _ : Prog Await AwaitReply _).Keeps _
      -- the reply to the first count is followed by its `EXPIRE`
      split
      · refine Prog.keeps_cmd_of_none (fun _ => rfl) fun r => ?_
        cases r <;> trivial
      · trivial

theorem proxy_keeps (r : UpstreamRequest) (detail : String) : (proxy r detail).Keeps promise :=
  keeps_orFail (Prog.keeps_cmd_of_none (fun _ => rfl) fun _ => trivial) fun _ => trivial

theorem get_keeps (key : String) : (get key).Keeps promise :=
  Prog.keeps_cmd_of_none (fun _ => rfl) fun _ => trivial

theorem getProperty_keeps (request : ApiRequest) (parcel_id : String) :
    (request.getProperty parcel_id).Keeps promise := by
  refine keeps_orFail (get_keeps _) fun cached_data => ?_
  cases truthy cached_data with
  | some data => trivial
  | none =>
    refine keeps_orFail (Prog.keeps_cmd_of_none (fun _ => rfl) fun _ => trivial) fun response => ?_
    by_cases hstatus : response.status_code = 200
    · simp only [hstatus, ↓reduceIte]
      exact keeps_orFail (Prog.keeps_cmd_of_none (fun _ => rfl) fun _ => trivial) fun _ => trivial
    · simp only [hstatus, ↓reduceIte]
      trivial

theorem getUserUsage_keeps (user_id : String) (today : Date) (k : List (String × Json) → Answer) :
    ∀ (features : List String) (results : List (String × Json)),
      (getUserUsage user_id today k features results).Keeps promise := by
  intro features
  induction features with
  | nil => exact fun results => trivial
  | cons feature features ih =>
    intro results
    refine keeps_orFail (get_keeps _) fun val => ?_
    cases truthy val with
    | none => exact ih _
    | some text =>
      cases hn : readInt? text.toList with
      | none =>
        simp only [hn]
        trivial
      | some n =>
        simp only [hn]
        exact ih _

theorem handle_keeps (request : ApiRequest) : request.handle.Keeps promise := by
  unfold ApiRequest.handle
  split
  · exact getProperty_keeps _ _
  · exact proxy_keeps _ _
  · exact proxy_keeps _ _
  · exact proxy_keeps _ _
  · next body hroute =>
    cases body with
    | none => trivial
    | some body => exact proxy_keeps _ _
  · exact proxy_keeps _ _
  · exact getUserUsage_keeps _ _ _ _ _

theorem dispatch_keeps (request : ApiRequest) : request.dispatch.Keeps promise := by
  have hendpoint : request.endpoint.Keeps promise := by
    unfold ApiRequest.endpoint
    split
    · exact handle_keeps request
    · unfold ApiRequest.enforceTier
      split
      · trivial
      · refine keeps_orFail (checkAndIncrement_keeps _) fun allowed => ?_
        cases allowed with
        | true => exact handle_keeps request
        | false => trivial
  refine Prog.Keeps.bind (Prog.keeps_cmd_of_none (fun _ => rfl) fun _ => trivial) fun r => ?_
  cases r with
  | error e => trivial
  | ok reply =>
    obtain ⟨allowed, remaining⟩ := reply
    cases allowed with
    | false => trivial
    | true =>
      refine hendpoint.bind fun answer => ?_
      cases answer <;> trivial

/-- **Every writer keeps its promises.** -/
theorem body_keeps (call : KeyCall) : call.body.Keeps promise := by
  cases call with
  | heartbeat h => exact update_keeps h
  | usageCheck u => exact checkAndIncrement_keeps u
  | rateLimitCheck time identifier tier =>
    exact Prog.keeps_cmd_of_none (fun _ => rfl) fun _ => trivial
  | request r => exact dispatch_keeps r

/-! ### Expiring keys -/

/-- The keys of the worker registry, the tracker, the rate limiter and the cache. -/
def IsExpiring (key : String) : Prop :=
  ("worker:".toList <+: key.toList ∧ ":status".toList <:+ key.toList) ∨ IsUsageKey key ∨
    "ratelimit:".toList <+: key.toList ∨ IsCacheKey key

/-- Every such key that exists has an expiry time. (An entry without one exists at any time.) -/
def AllExpire (s : Backends) : Prop :=
  ∀ key, IsExpiring key → ∀ e ∈ s.redis.entries key, e.expireAt ≠ none

abbrev KeyPool : Type := Pool Await AwaitReply KeyCall KeyCall.Ret Backends

/-- The writers, interleaved command by command. -/
def keyCalls : System (ℚ × KeyPool) (TimedEvent KeyCall.Ret) :=
  timedPool backends KeyCall.body AllExpire

/-- Call index `j` is about to set the expiry of the key. -/
def Owes (p : KeyPool) (j : ℕ) (key : String) : Prop := ∃ ttl, p.About j (.expire key ttl)

/-- If the key has no expiry, a call in flight is about to set it. -/
def Owed (p : KeyPool) (key : String) : Prop :=
  ∀ e ∈ p.store.redis.entries key, e.expireAt = none → ∃ j, Owes p j key

/-- A call other than `i` is about to set the expiry of the key. -/
def OwedByOther (p : KeyPool) (i : ℕ) (key : String) : Prop := ∃ j, j ≠ i ∧ Owes p j key

/-- The key exists at time `t` without an expiry. -/
def LacksExpiry (s : Backends) (t : ℚ) (key : String) : Prop :=
  ∃ e, s.redis.find? t key = some e ∧ e.expireAt = none

/-- A step that leaves nobody's expiry behind: no call gives up an `EXPIRE`, or misses that it has to
send one, while the key lacks an expiry and no other call is about to set it. -/
def LeavesNoDebt (s : ℚ × KeyPool) : TimedEvent KeyCall.Ret → Prop
  | (t, .crash i _) => ∀ key, Owes s.2 i key → LacksExpiry s.2.store t key → OwedByOther s.2 i key
  | (t, .cmd i _ (.expire key _) (.failed _)) => LacksExpiry s.2.store t key → OwedByOther s.2 i key
  | (t, .cmd i _ (.incr key) (.lost _ _)) =>
    s.2.store.redis.find? t key = none → OwedByOther s.2 i key
  | (t, .cmd i _ (.hset key _) (.lost _ _)) =>
    s.2.store.redis.find? t key = none → OwedByOther s.2 i key
  | _ => True

section Step

variable {s s' : ℚ × KeyPool} {e : TimedEvent KeyCall.Ret} {key : String}

/-- A debt that another call has is still there after a step. -/
theorem owed_of_other (hs : keyCalls.step s e s') (h : OwedByOther s.2 e.2.index key) :
    ∃ j, Owes s'.2 j key := by
  obtain ⟨j, hj, ttl, hj'⟩ := h
  exact ⟨j, ttl, hs.2.2.about hj' hj.symm⟩

/-- An entry without expiry is there at any time. -/
theorem lacksExpiry_of_entries {s : Backends} {t : ℚ} {entry : Entry Value ℚ}
    (h : s.redis.entries key = some entry) (hnone : entry.expireAt = none) : LacksExpiry s t key :=
  ⟨entry, ExpiringStore.find?_of_entries h (by simp [hnone]), hnone⟩

/-- **A step that executes nothing.** -/
theorem owed_of_idle (hs : keyCalls.step s e s') (hidle : e.2.applied? = none)
    (hstore : s'.2.store = s.2.store) (hallowed : LeavesNoDebt s e) (h : Owed s.2 key) :
    Owed s'.2 key := by
  intro entry hentry hnone
  rw [hstore] at hentry
  obtain ⟨j, ttl, hj⟩ := h entry hentry hnone
  by_cases hindex : e.2.index = j
  · -- the call that owes gives its `EXPIRE` up
    have hlacks : LacksExpiry s.2.store e.1 key := lacksExpiry_of_entries hentry hnone
    refine owed_of_other hs ?_
    subst hindex
    obtain ⟨t, e⟩ := e
    obtain ⟨th, hth, hnext⟩ := hj
    obtain ⟨t₀, p⟩ := s
    obtain ⟨t₁, p'⟩ := s'
    obtain ⟨-, -, hstep⟩ := hs
    -- a reply that is seen would have been an execution
    cases hstep with
    | start hfree => exact absurd (hth.symm.trans hfree) (by simp)
    | @cmd i call c k f store o hi hx =>
      obtain rfl := Option.some.inj (hth.symm.trans hi)
      obtain rfl := Option.some.inj hnext
      cases o with
      | ok r => exact absurd hidle (by simp [Event.applied?])
      | lost r err => exact absurd hidle (by simp [Event.applied?])
      | failed err => exact hallowed hlacks
    | finish hi =>
      obtain rfl := Option.some.inj (hth.symm.trans hi)
      exact absurd hnext (by simp)
    | crash hi => exact hallowed key ⟨ttl, th, hth, hnext⟩ hlacks
  · exact ⟨j, ttl, hs.2.2.about hj hindex⟩

/-- A call that is about to issue another command on the key does not owe its expiry. -/
theorem ne_of_owes {p : KeyPool} {i j : ℕ} {call : KeyCall} {c : Await}
    {k : Except String (AwaitReply c) → Prog Await AwaitReply call.Ret}
    (hth : p.threads i = some ⟨call, .cmd c k⟩) (hc : ∀ ttl, c ≠ .expire key ttl) (h : Owes p j key) :
    j ≠ i := by
  rintro rfl
  obtain ⟨ttl, th, hth', hnext⟩ := h
  obtain rfl := Option.some.inj (hth'.symm.trans hth)
  exact hc ttl (Option.some.inj hnext)

/-- A key that is written with an expiry owes nothing. -/
theorem owed_of_set {v : Value} {t : ℚ}
    (hredis : s'.2.store.redis = s.2.store.redis.set key v (some t)) : Owed s'.2 key := by
  intro entry hentry hnone
  rw [hredis, ExpiringStore.entries_set_self] at hentry
  obtain rfl := Option.some.inj hentry
  exact absurd hnone (by simp)

section Exec

variable {t : ℚ} {i : ℕ} {call : KeyCall} {c : Await}
  {k : Except String (AwaitReply c) → Prog Await AwaitReply call.Ret} {o : Outcome (AwaitReply c)}

/-- Where the entry is as it was, its expiry is owed as before, by another call. -/
theorem owed_of_kept (hs : keyCalls.step s (t, .cmd i call c o) s')
    (hth : s.2.threads i = some ⟨call, .cmd c k⟩) (hc : ∀ ttl, c ≠ .expire key ttl)
    (hentries : s'.2.store.redis.entries key = s.2.store.redis.entries key) (h : Owed s.2 key) :
    Owed s'.2 key := by
  intro entry hentry hnone
  rw [hentries] at hentry
  obtain ⟨j, hj⟩ := h entry hentry hnone
  exact owed_of_other hs ⟨j, ne_of_owes hth hc hj, hj⟩

/-- A command that writes the key in place may create it, and then somebody must owe its expiry. -/
theorem owed_of_written (hs : keyCalls.step s (t, .cmd i call c o) s')
    (hth : s.2.threads i = some ⟨call, .cmd c k⟩) (hc : ∀ ttl, c ≠ .expire key ttl) {v : Value}
    (hredis : s'.2.store.redis = s.2.store.redis.write t key v)
    (hcreates : s.2.store.redis.find? t key = none → ∃ j, Owes s'.2 j key) (h : Owed s.2 key) :
    Owed s'.2 key := by
  intro entry hentry hnone
  rw [hredis, ExpiringStore.entries_write_self] at hentry
  obtain rfl := Option.some.inj hentry
  cases hfind : s.2.store.redis.find? t key with
  | none => exact hcreates hfind
  | some entry =>
    -- the key lacked its expiry before
    have hnone : entry.expireAt = none := by simpa [hfind] using hnone
    obtain ⟨j, hj⟩ := h entry (ExpiringStore.find?_eq_some_iff.mp hfind).1 hnone
    exact owed_of_other hs ⟨j, ne_of_owes hth hc hj, hj⟩

/-- Where the reply to a command that creates the key promises its expiry, the call owes it as soon as it
sees the reply. If the reply is lost, another call must owe it. -/
theorem owed_of_promising {r : AwaitReply c} (hs : keyCalls.step s (t, .cmd i call c o) s')
    (hkeeps : ∀ i th, s.2.threads i = some th → th.rest.Keeps promise) (ho : o.effect = some r)
    (hth : s.2.threads i = some ⟨call, .cmd c k⟩) (hc : ∀ ttl, c ≠ .expire key ttl) {v : Value}
    (hredis : s'.2.store.redis = s.2.store.redis.write t key v)
    (hpromise : s.2.store.redis.find? t key = none → ∃ ttl, promise c r = some (.expire key ttl))
    (hlost : ∀ r' err, o = .lost r' err → s.2.store.redis.find? t key = none → OwedByOther s.2 i key)
    (h : Owed s.2 key) : Owed s'.2 key := by
  refine owed_of_written hs hth hc hredis (fun hfind => ?_) h
  cases o with
  | ok r' =>
    obtain rfl := Option.some.inj ho
    obtain ⟨ttl, hpromise⟩ := hpromise hfind
    exact ⟨i, ttl, hs.2.2.about_promised hkeeps hpromise⟩
  | lost r' err => exact owed_of_other hs (hlost r' err rfl hfind)
  | failed err => exact absurd ho (by simp)

/-- After an `EXPIRE` nothing is owed. -/
theorem owed_of_expire {ttl : ℕ} {r : Bool}
    (hx : (backends t).exec (.expire key ttl) s.2.store = (s'.2.store, r)) : Owed s'.2 key := by
  cases hfind : s.2.store.redis.find? t key with
  | none =>
    -- what is not found has an expiry that has passed
    intro entry hentry hnone
    rw [exec_expire hx, ExpiringStore.expire_of_none hfind] at hentry
    obtain ⟨e, he, -⟩ := lacksExpiry_of_entries (t := t) hentry hnone
    exact absurd (hfind.symm.trans he) (by simp)
  | some e =>
    have hredis : s'.2.store.redis = s.2.store.redis.set key e.value (some (t + ttl)) := by
      rw [exec_expire hx]
      unfold ExpiringStore.expire
      rw [hfind]
    exact owed_of_set hredis

/-- **A step that executes a command.** -/
theorem owed_of_exec {r : AwaitReply c} (hs : keyCalls.step s (t, .cmd i call c o) s')
    (hkeeps : ∀ i th, s.2.threads i = some th → th.rest.Keeps promise) (ho : o.effect = some r)
    (hth : s.2.threads i = some ⟨call, .cmd c k⟩)
    (hx : (backends t).exec c s.2.store = (s'.2.store, r))
    (hallowed : LeavesNoDebt s (t, .cmd i call c o)) (h : Owed s.2 key) : Owed s'.2 key := by
  by_cases hkey : c.key? = some key
  · cases c with
    | incr key' =>
      obtain rfl := Option.some.inj hkey
      obtain ⟨hr, ⟨err, -, hredis⟩ | ⟨n, -, hredis⟩⟩ := exec_incr hx
      · -- a value of another type is left as it is
        exact owed_of_kept hs hth (by simp) (by rw [hredis]) h
      · refine owed_of_promising hs hkeeps ho hth (by simp) hredis (fun hfind => ?_) ?_ h
        · -- the counter has been created, so its count is 1
          unfold Backends.value? at hr
          rw [hfind] at hr
          rw [hr]
          exact ⟨86400, rfl⟩
        · rintro r' err rfl
          exact hallowed
    | hset key' fields =>
      -- the heartbeat sets the expiry after every write, not only after the first
      obtain rfl := Option.some.inj hkey
      rcases exec_hset hx with hredis | ⟨n, v, rfl, hredis⟩
      · exact owed_of_kept hs hth (by simp) (by rw [hredis]) h
      · refine owed_of_promising hs hkeeps ho hth (by simp) hredis (fun _ => ⟨300, rfl⟩) ?_ h
        rintro r' err rfl
        exact hallowed
    | expire key' ttl =>
      obtain rfl := Option.some.inj hkey
      exact owed_of_expire hx
    -- the other two write the value together with its expiry
    | setex key' ttl content =>
      obtain rfl := Option.some.inj hkey
      exact owed_of_set (exec_setex hx)
    | tokenBucket key' clock rate burst requested =>
      obtain rfl := Option.some.inj hkey
      rcases exec_tokenBucket hx with hredis | ⟨v, hredis⟩
      · exact owed_of_kept hs hth (by simp) (by rw [hredis]) h
      · exact owed_of_set hredis
    | get key' => exact absurd hkey (by simp [Await.key?])
    | upstream r' => exact absurd hkey (by simp [Await.key?])
  · -- a command on another key pays no debt of this one
    refine owed_of_kept hs hth ?_ (entries_of_exec hx hkey) h
    rintro ttl rfl
    exact hkey rfl

end Exec

/-- **The step lemma.** -/
theorem owed_step (hs : keyCalls.step s e s')
    (hkeeps : ∀ i th, s.2.threads i = some th → th.rest.Keeps promise) (hallowed : LeavesNoDebt s e)
    (h : Owed s.2 key) : Owed s'.2 key := by
  obtain ⟨t, e⟩ := e
  rcases hs.2.2.exec_cases with ⟨hidle, hstore⟩ | ⟨i, call, c, k, o, r, rfl, ho, hth, hx⟩
  · exact owed_of_idle hs hidle hstore hallowed h
  · exact owed_of_exec hs hkeeps ho hth hx hallowed h

end Step

/-- **The run lemma.** A key that lacks its expiry is owed one. -/
theorem owed_of_run {es : List (TimedEvent KeyCall.Ret)} {s : ℚ × KeyPool}
    (hr : (keyCalls.restrict LeavesNoDebt).Run es s) {key : String} (hkey : IsExpiring key) :
    Owed s.2 key := by
  induction hr with
  | init h => exact fun e he hnone => absurd hnone (h.1 key hkey e he)
  | step hr hs ih => exact owed_step hs.1 (keeps_of_run body_keeps hr.of_restrict) hs.2 ih

/-- **Every expiring key carries a TTL** when no call is in flight, whatever has been interleaved, has
failed or has been cut off, as long as no step left a debt behind. -/
theorem all_expire (es : List (TimedEvent KeyCall.Ret)) (s : ℚ × KeyPool)
    (hr : (keyCalls.restrict LeavesNoDebt).Run es s) (hidle : s.2.threads = fun _ => none) :
    AllExpire s.2.store := by
  intro key hkey e he hnone
  obtain ⟨j, ttl, th, hth, -⟩ := owed_of_run hr hkey e he hnone
  rw [hidle] at hth
  exact absurd hth (by simp)

/-! ### Without faults -/

/-- No call crashes, and no command fails or loses its reply. -/
def faultless : TimedEvent KeyCall.Ret → Bool
  | (_, .crash _ _) => false
  | (_, .cmd _ _ _ (.ok _)) => true
  | (_, .cmd _ _ _ _) => false
  | _ => true

theorem leavesNoDebt_of_faultless {s : ℚ × KeyPool} {e : TimedEvent KeyCall.Ret}
    (h : faultless e = true) : LeavesNoDebt s e := by
  obtain ⟨t, e⟩ := e
  cases e with
  | start i call => trivial
  | finish i call a => trivial
  | crash i call => exact absurd h (by simp [faultless])
  | cmd i call c o =>
    cases o with
    | ok r => cases c <;> trivial
    | lost r err => exact absurd h (by simp [faultless])
    | failed err => exact absurd h (by simp [faultless])

/-- Without faults, no step of an interleaving leaves a debt behind. -/
theorem run_of_faultless {es : List (TimedEvent KeyCall.Ret)} {s : ℚ × KeyPool}
    (hr : keyCalls.Run es s) (h : ∀ e ∈ es, faultless e = true) :
    (keyCalls.restrict LeavesNoDebt).Run es s := by
  induction hr with
  | init hs => exact .init hs
  | step hr hs ih =>
    refine (ih fun e he => h e (List.mem_append_left _ he)).step ⟨hs, ?_⟩
    exact leavesNoDebt_of_faultless (h _ (List.mem_append_right _ List.mem_cons_self))

/-- A heartbeat of a worker without tasks. -/
def idleHeartbeat : Heartbeat := ⟨"w1", "1770076800", ⟨0, ["beacon", "qpublic"], "12.5", "40"⟩⟩

/-- One call of each kind. -/
def quietHour : List (ℚ × KeyCall) :=
  [(0, .heartbeat idleHeartbeat), (1, .usageCheck ⟨guestTally, .anonymous⟩),
    (2, .rateLimitCheck 2 guestTally.user_id "anonymous"),
    (3, .request (guestRequest (.get_property "p1") 0).2), (4, .heartbeat idleHeartbeat)]

theorem allExpire_blank : AllExpire .blank := fun _ _ e he => absurd he (by simp [Backends.blank, ExpiringStore.empty])

theorem quietHour_expires : AllExpire (timedStore backends KeyCall.body quietHour .blank) := by
  have hchain : List.IsChain (· ≤ ·) (0 :: quietHour.map Prod.fst) := by decide +kernel
  obtain ⟨t, hr⟩ : ∃ t, keyCalls.Run _ (t, _) := run_timedSession quietHour allExpire_blank hchain
  exact all_expire _ _ (run_of_faultless hr (by decide +kernel)) rfl

/-! ### A heartbeat that is cut off -/

/-- **A worker that never dies**: its heartbeat is cut off after `HSET`. -/
theorem worker_without_expiry : ∃ es s, keyCalls.Run es s ∧ s.2.threads = (fun _ => none) ∧
    ¬ AllExpire s.2.store := by
  have hempty : keyCalls.Run [] (0, ⟨.blank, fun _ => none⟩) := .init ⟨allExpire_blank, rfl⟩
  have hstart : keyCalls.Run ([] ++ [(0, .start 0 (.heartbeat idleHeartbeat))]) _ :=
    run_started hempty (le_refl 0) rfl
  have hcmd := run_answered (f := none) hstart (le_refl 0) (Function.update_self ..) rfl
  have hcrash := run_crashed hcmd (le_refl 0) (Function.update_self ..)
  refine ⟨_, _, hcrash, ?_, ?_⟩
  · funext i
    by_cases hi : i = 0
    · subst hi
      rfl
    · simp [Function.update_of_ne hi]
  · intro h
    have hkey : IsExpiring (workerKey "w1") := .inl ⟨by decide, by decide⟩
    exact h _ hkey ⟨.hash (setFields [] idleHeartbeat.fields), none⟩ rfl rfl

end TaxlienGateway
