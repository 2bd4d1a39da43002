import TaxlienGateway.Framework.Lease
import TaxlienGateway.Framework.Schedule
import TaxlienGateway.Legacy.ApiAnswers
import TaxlienGateway.SharedRedis.Expiry

/-!
# Who is in the worker registry

The status of a worker is stored by one command and given its five minutes by another, and both gateways do so
in the Redis that all other keys are in. For every interleaving with all these writers, and whatever fails or is
cut off:

* `status_read` — what is read of a worker at any time: the fields of the last heartbeat that was stored, as a
  whole, until the deadline of the last `EXPIRE` that found the key, unless that deadline had passed before;
* `acknowledged_seen` — a heartbeat that is acknowledged makes the worker visible for five minutes, unless the
  deadline of an earlier one passes between its two commands. Then the status is lost, and the worker is told
  that all is well;
* `seen_recently` — where no step leaves a key behind without expiry, whoever is visible has been heard of in
  the last five minutes.
-/

namespace TaxlienGateway

open Framework Legacy

/-! ### The registry -/

/-- The touch of the key of a worker by a command that is answered so. An `EXPIRE` that does not find the key does
nothing. -/
def touchBy (w : String) (t : ℚ) : (c : Await) → AwaitReply c → Option (Touch Value ℚ)
  | .hset key fields, .ok _ => if key = workerKey w then some (.write t (.hash fields)) else none
  | .expire key ttl, true => if key = workerKey w then some (.renew t (t + ttl)) else none
  | _, _ => none

/-- The touch by an event, if Redis has executed its command. -/
def touch? (w : String) : TimedEvent KeyCall.Ret → Option (Touch Value ℚ)
  | (t, .cmd _ _ c o) => o.effect.bind (touchBy w t c)
  | _ => none

/-- All of them, in the order in which Redis has executed them. -/
def touches (w : String) (es : List (TimedEvent KeyCall.Ret)) : List (Touch Value ℚ) := es.filterMap (touch? w)

/-- No worker is known yet. -/
def RegistryEmpty (s : Backends) : Prop := AllExpire s ∧ ∀ w, s.redis.entries (workerKey w) = none

/-- The writers of expiring keys, when no worker is known yet. -/
def registry : System (ℚ × KeyPool) (TimedEvent KeyCall.Ret) :=
  timedPool backends KeyCall.body RegistryEmpty

/-! ### Who writes the key of a worker -/

/-- The rule of a writer: only heartbeats touch the keys of workers. -/
def KeyRule : KeyCall → List (Op Await AwaitReply) → Await → Prop
  | .heartbeat h, own, c => h.Sends own c
  | _, _, c => ∀ w, c.key? ≠ some (workerKey w)

/-- How a heartbeat ends. -/
def KeyCall.Ends : (call : KeyCall) → List (Op Await AwaitReply) → call.Ret → Prop
  | .heartbeat h, own, r => h.Ends own r
  | _, _, _ => True

theorem head?_eq_of_tag {tag : List Char} {key : String} {c : Char} (h : c :: tag <+: key.toList) :
    key.toList.head? = some c := by
  obtain ⟨rest, hrest⟩ := h
  rw [← hrest]
  rfl

/-- A key of another kind has another first letter. -/
theorem ne_workerKey {tag : List Char} {key : String} {c : Char} (h : c :: tag <+: key.toList) (hc : c ≠ 'w')
    (w : String) : key ≠ workerKey w := by
  rintro rfl
  have hworker : 'w' :: "orker:".toList <+: (workerKey w).toList := by
    simp only [workerKey, String.toList_append, List.append_assoc]
    exact List.prefix_append ('w' :: "orker:".toList) _
  exact hc (Option.some.inj ((head?_eq_of_tag h).symm.trans (head?_eq_of_tag hworker)))

theorem rateLimitKey_ne_workerKey (identifier tier w : String) : rateLimitKey identifier tier ≠ workerKey w := by
  have htag : 'r' :: "atelimit:".toList <+: (rateLimitKey identifier tier).toList := by
    simp only [rateLimitKey, String.toList_append, List.append_assoc]
    exact List.prefix_append ('r' :: "atelimit:".toList) _
  exact ne_workerKey htag (by decide) w

theorem key_ne_of_requestRule {request : ApiRequest} {own : List (Op Await AwaitReply)} {c : Await}
    (h : RequestRule request own c) (w : String) : c.key? ≠ some (workerKey w) := by
  cases c with
  | incr key =>
    obtain ⟨q, rfl⟩ := h
    exact fun heq => ne_workerKey q.isUsageKey_key (by decide) w (Option.some.inj heq)
  | expire key ttl =>
    obtain ⟨q, rfl⟩ := h
    exact fun heq => ne_workerKey q.isUsageKey_key (by decide) w (Option.some.inj heq)
  | setex key ttl content =>
    obtain ⟨⟨parcel_id, rfl⟩, -⟩ := h
    exact fun heq => ne_workerKey (isCacheKey_cacheKey parcel_id _) (by decide) w (Option.some.inj heq)
  | tokenBucket key clock rate burst requested =>
    obtain ⟨rfl, -⟩ := Await.tokenBucket.inj h.2
    exact fun heq => rateLimitKey_ne_workerKey _ _ w (Option.some.inj heq)
  | hset key fields => exact absurd h id
  | get key => simp [Await.key?]
  | upstream q => simp [Await.key?]

/-- **Every writer keeps to its rule.** -/
theorem keyCall_obeyed : Obeyed KeyCall.body KeyRule KeyCall.Ends := by
  intro call
  cases call with
  | heartbeat h => exact h.update_obeys
  | usageCheck u =>
    refine Prog.Obeys.mono (UsageCall.checkAndIncrement_obeys
      (G := fun _ c => ∀ w, c.key? ≠ some (workerKey w)) ?_) (fun _ _ h => h) fun _ _ _ => trivial
    intro own c _ hkey w heq
    exact ne_workerKey u.tally.isUsageKey_key (by decide) w (Option.some.inj (hkey.symm.trans heq))
  | rateLimitCheck time identifier tier =>
    exact ⟨fun w heq => rateLimitKey_ne_workerKey _ _ w (Option.some.inj heq), fun _ => trivial⟩
  | request r =>
    exact (dispatch_answers r).mono (fun _ _ h => key_ne_of_requestRule h.1) fun _ _ _ => trivial

/-! ### What is stored -/

section Touches

variable {w : String} {es : List (TimedEvent KeyCall.Ret)} {t : ℚ} {i : ℕ} {call : KeyCall}

theorem touches_append_singleton (e : TimedEvent KeyCall.Ret) :
    touches w (es ++ [e]) = touches w es ++ (touch? w e).toList := by
  unfold touches
  rw [List.filterMap_append]
  cases h : touch? w e <;> simp [h]

theorem touch?_of_idle {e : Event Await AwaitReply KeyCall KeyCall.Ret} (h : e.applied? = none) :
    touch? w (t, e) = none := by
  cases e with
  | cmd i call c o =>
    have ho : o.effect = none := Option.map_eq_none_iff.mp h
    exact congrArg (Option.bind · (touchBy w t c)) ho
  | _ => rfl

theorem touchBy_of_ne {c : Await} {r : AwaitReply c} (h : c.key? ≠ some (workerKey w)) : touchBy w t c r = none := by
  cases c with
  | hset key fields =>
    cases r with
    | error e => rfl
    | ok n => exact if_neg fun hkey => h (congrArg some hkey)
  | expire key ttl =>
    cases r with
    | false => rfl
    | true => exact if_neg fun hkey => h (congrArg some hkey)
  | _ => rfl

theorem touch?_of_ne {c : Await} {o : Outcome (AwaitReply c)} (h : c.key? ≠ some (workerKey w)) :
    touch? w (t, .cmd i call c o) = none :=
  Option.bind_eq_none_iff.mpr fun _ _ => touchBy_of_ne h

theorem touch?_hset {fields : List (String × String)} {o : Outcome (Except String ℕ)} {n : ℕ}
    (ho : o.effect = some (.ok n)) :
    touch? w (t, .cmd i call (.hset (workerKey w) fields) o) = some (.write t (.hash fields)) := by
  refine (congrArg (Option.bind · (touchBy w t (.hset (workerKey w) fields))) ho).trans ?_
  exact if_pos rfl

theorem touch?_expire {ttl : ℕ} {o : Outcome Bool} {found : Bool} (ho : o.effect = some found) :
    touch? w (t, .cmd i call (.expire (workerKey w) ttl) o) =
      if found = true then some (.renew t (t + ttl)) else none := by
  refine (congrArg (Option.bind · (touchBy w t (.expire (workerKey w) ttl))) ho).trans ?_
  cases found with
  | false => rfl
  | true => exact if_pos rfl

end Touches

/-- The key of a worker, accounted for by the heartbeats that Redis has executed. -/
structure Registered (w : String) (es : List (TimedEvent KeyCall.Ret)) (s : Backends) : Prop where
  leased : Touch.Leased (touches w es) (s.redis.entries (workerKey w))
  /-- What was written last is the status of one heartbeat of the worker. -/
  status : ∀ v, Touch.lastWritten (touches w es) = some v →
    ∃ h : Heartbeat, h.workerID = w ∧ v = .hash h.fields

section Exec

variable {w : String} {es : List (TimedEvent KeyCall.Ret)} {s s' : Backends} {t : ℚ} {i : ℕ}

theorem Registered.of_none {e : TimedEvent KeyCall.Ret} (h : Registered w es s) (he : touch? w e = none)
    (hentries : s'.redis.entries (workerKey w) = s.redis.entries (workerKey w)) : Registered w (es ++ [e]) s' := by
  have htouches : touches w (es ++ [e]) = touches w es := by
    rw [touches_append_singleton, he]
    exact List.append_nil _
  exact ⟨by rw [htouches, hentries]; exact h.leased, by rw [htouches]; exact h.status⟩

/-- What `HSET` finds is a status, or nothing. -/
theorem Registered.value?_eq (h : Registered w es s) {v : Value} (hv : s.value? t (workerKey w) = some v) :
    ∃ old : Heartbeat, v = .hash old.fields := by
  obtain ⟨e, hfind, rfl⟩ := Option.map_eq_some_iff.mp hv
  obtain ⟨old, -, hold⟩ := h.status _ (h.leased.find?_iff.mp hfind).1.1
  exact ⟨old, hold⟩

/-- **The first command of a heartbeat.** -/
theorem Registered.hset {h : Heartbeat} {o : Outcome (Except String ℕ)} {r : Except String ℕ}
    (hreg : Registered h.workerID es s) (ho : o.effect = some r)
    (hx : (backends t).exec (.hset (workerKey h.workerID) h.fields) s = (s', r)) :
    Registered h.workerID (es ++ [(t, .cmd i (.heartbeat h) (.hset (workerKey h.workerID) h.fields) o)]) s' := by
  -- the new status replaces the one that is found
  have hstored : ∃ n, r = .ok n ∧ s'.redis = s.redis.write t (workerKey h.workerID) (.hash h.fields) := by
    change s.hset t _ _ = _ at hx
    unfold Backends.hset at hx
    cases hv : s.value? t (workerKey h.workerID) with
    | none =>
      rw [hv] at hx
      obtain ⟨rfl, rfl⟩ := Prod.mk.inj hx
      exact ⟨_, rfl, rfl⟩
    | some v =>
      obtain ⟨old, rfl⟩ := hreg.value?_eq hv
      rw [hv] at hx
      obtain ⟨rfl, rfl⟩ := Prod.mk.inj hx
      exact ⟨_, rfl, by rw [setFields_fields]⟩
  obtain ⟨n, rfl, hredis⟩ := hstored
  have htouches : touches h.workerID
      (es ++ [(t, .cmd i (.heartbeat h) (.hset (workerKey h.workerID) h.fields) o)]) =
      touches h.workerID es ++ [.write t (.hash h.fields)] := by
    rw [touches_append_singleton, touch?_hset ho]
    rfl
  refine ⟨?_, fun v hv => ?_⟩
  · rw [htouches, hredis]
    exact hreg.leased.write t _
  · rw [htouches, Touch.lastWritten_append_write] at hv
    exact ⟨h, rfl, (Option.some.inj hv).symm⟩

/-- **The second command of a heartbeat.** -/
theorem Registered.expire {h : Heartbeat} {o : Outcome Bool} {found : Bool} (hreg : Registered h.workerID es s)
    (ho : o.effect = some found)
    (hx : (backends t).exec (.expire (workerKey h.workerID) 300) s = (s', found)) :
    Registered h.workerID (es ++ [(t, .cmd i (.heartbeat h) (.expire (workerKey h.workerID) 300) o)]) s' := by
  have hredis := exec_expire hx
  obtain ⟨-, hfound⟩ := Prod.mk.inj hx
  cases hfind : s.redis.find? t (workerKey h.workerID) with
  | none =>
    -- there is no key to set the expiry of
    obtain rfl : false = found := by rw [← hfound, hfind]; rfl
    refine hreg.of_none (touch?_expire ho) ?_
    rw [hredis, ExpiringStore.expire_of_none hfind]
  | some e =>
    obtain rfl : true = found := by rw [← hfound, hfind]; rfl
    have htouches : touches h.workerID
        (es ++ [(t, .cmd i (.heartbeat h) (.expire (workerKey h.workerID) 300) o)]) =
        touches h.workerID es ++ [.renew t (t + (300 : ℕ))] := by
      rw [touches_append_singleton, touch?_expire ho]
      rfl
    refine ⟨?_, fun v hv => ?_⟩
    · rw [htouches, hredis]
      exact hreg.leased.renew hfind _
    · rw [htouches, Touch.lastWritten_append_renew] at hv
      exact hreg.status v hv

/-- **What is read.** -/
theorem Registered.value?_iff (hreg : Registered w es s) {u : ℚ} {v : Value} :
    s.value? u (workerKey w) = some v ↔
      (∃ h : Heartbeat, h.workerID = w ∧ v = .hash h.fields ∧ Touch.lastWritten (touches w es) = some v) ∧
        ∀ d ∈ Touch.lease (touches w es), u ≤ d := by
  unfold Backends.value?
  rw [Option.map_eq_some_iff]
  constructor
  · rintro ⟨e, hfind, rfl⟩
    obtain ⟨⟨hlast, -⟩, hlive⟩ := hreg.leased.find?_iff.mp hfind
    obtain ⟨h, hw, hv⟩ := hreg.status _ hlast
    exact ⟨⟨h, hw, hv, hlast⟩, hlive⟩
  · rintro ⟨⟨h, -, -, hlast⟩, hlive⟩
    exact ⟨⟨v, Touch.lease (touches w es)⟩, hreg.leased.find?_iff.mpr ⟨⟨hlast, rfl⟩, hlive⟩, rfl⟩

end Exec

section Run

variable {w : String} {es : List (TimedEvent KeyCall.Ret)} {s : ℚ × KeyPool}

/-- **The run lemma.** -/
theorem registered_of_run (hr : registry.Run es s) (w : String) : Registered w es s.2.store := by
  refine keyCall_obeyed.timed_invariant (I := fun es s => Registered w es s) ?_ ?_ ?_ hr
  · intro s hs
    exact ⟨by rw [hs.2 w]; exact .nil, fun v hv => absurd hv (by simp [touches, Touch.lastWritten])⟩
  · intro es s t e ih hidle
    exact ih.of_none (touch?_of_idle hidle) rfl
  · intro es s t i call c k o r s' hr ih hclock hth hrule ho hx
    by_cases hkey : c.key? = some (workerKey w)
    · -- only a heartbeat of the worker writes its key
      cases call with
      | heartbeat h =>
        rcases hrule with ⟨-, rfl⟩ | ⟨n, -, rfl⟩
        · obtain rfl := workerKey_inj (Option.some.inj hkey)
          exact ih.hset ho hx
        · obtain rfl := workerKey_inj (Option.some.inj hkey)
          exact ih.expire ho hx
      | usageCheck u => exact absurd hkey (hrule w)
      | rateLimitCheck time identifier tier => exact absurd hkey (hrule w)
      | request r => exact absurd hkey (hrule w)
    · exact ih.of_none (touch?_of_ne hkey) (entries_of_exec hx hkey)

/-- **What is read of a worker.** At any time it is the status of the last heartbeat that was stored, as a whole,
unless the lease has run out. -/
theorem status_read (es : List (TimedEvent KeyCall.Ret)) (s : ℚ × KeyPool) (hr : registry.Run es s) (w : String)
    (u : ℚ) (v : Value) : s.2.store.value? u (workerKey w) = some v ↔
      (∃ h : Heartbeat, h.workerID = w ∧ v = .hash h.fields ∧ Touch.lastWritten (touches w es) = some v) ∧
        ∀ d ∈ Touch.lease (touches w es), u ≤ d :=
  (registered_of_run hr w).value?_iff

/-! ### Who is visible -/

/-- The worker is visible at time `u`. -/
def Visible (s : Backends) (u : ℚ) (w : String) : Prop :=
  ∃ h : Heartbeat, h.workerID = w ∧ s.value? u (workerKey w) = some (.hash h.fields)

/-- A heartbeat of the worker has had its key live five minutes. -/
def Renews (w : String) (e : TimedEvent KeyCall.Ret) : Prop :=
  ∃ i h o, e.2 = .cmd i (.heartbeat h) (.expire (workerKey w) 300) o ∧ h.workerID = w ∧ o.effect = some true

theorem Registered.visible (hreg : Registered w es s.2.store) (hwritten : Touch.lastWritten (touches w es) ≠ none)
    {u : ℚ} (hlive : ∀ d ∈ Touch.lease (touches w es), u ≤ d) : Visible s.2.store u w := by
  obtain ⟨v, hv⟩ := Option.ne_none_iff_exists'.mp hwritten
  obtain ⟨h, hw, rfl⟩ := hreg.status v hv
  exact ⟨h, hw, hreg.value?_iff.mpr ⟨⟨h, hw, rfl, hv⟩, hlive⟩⟩

theorem time_of_touch? {e : TimedEvent KeyCall.Ret} {touch : Touch Value ℚ} (h : touch? w e = some touch) :
    touch.time = e.1 := by
  obtain ⟨t, e⟩ := e
  cases e with
  | cmd i call c o =>
    obtain ⟨r, -, hby⟩ := Option.bind_eq_some_iff.mp h
    cases c with
    | hset key fields =>
      cases r with
      | error e => exact absurd hby (by simp [touchBy])
      | ok n =>
        obtain ⟨-, heq⟩ := Option.ite_none_right_eq_some.mp hby
        obtain rfl := Option.some.inj heq
        rfl
    | expire key ttl =>
      cases r with
      | false => exact absurd hby (by simp [touchBy])
      | true =>
        obtain ⟨-, heq⟩ := Option.ite_none_right_eq_some.mp hby
        obtain rfl := Option.some.inj heq
        rfl
    | _ => exact absurd hby (by simp [touchBy])
  | _ => exact absurd h (by simp [touch?])

/-- Touches follow one another in time. -/
theorem touches_sorted (hr : registry.Run es s) (w : String) :
    (touches w es).Pairwise fun touch touch' => touch.time ≤ touch'.time := by
  refine List.Pairwise.filterMap _ ?_ (times_of_run hr).1
  intro e e' hle touch htouch touch' htouch'
  rw [time_of_touch? htouch, time_of_touch? htouch']
  exact hle

/-- A renewal is the second command of a heartbeat of the worker. -/
theorem renews_of_mem_touches (hr : registry.Run es s) {t d : ℚ} (h : Touch.renew t d ∈ touches w es) :
    d = t + 300 ∧ ∃ e ∈ es, e.1 = t ∧ Renews w e := by
  obtain ⟨e, he, htouch⟩ := List.mem_filterMap.mp h
  have htime : t = e.1 := time_of_touch? htouch
  obtain ⟨t', e⟩ := e
  obtain rfl : t = t' := htime
  cases e with
  | cmd i call c o =>
    obtain ⟨r, ho, hby⟩ := Option.bind_eq_some_iff.mp htouch
    obtain ⟨pre, post, rfl⟩ := List.append_of_mem he
    obtain ⟨s₀, th, h₀, hth, hcall, hrule⟩ := keyCall_obeyed.guarded_timed hr
    cases c with
    -- an `HSET` writes, and does not renew
    | hset key fields =>
      cases r with
      | error e => exact absurd hby (by simp [touchBy])
      | ok n => exact absurd (Option.ite_none_right_eq_some.mp hby).2 (by simp)
    | expire key ttl =>
      cases r with
      -- an `EXPIRE` that has not found the key renews nothing
      | false => exact absurd hby (by simp [touchBy])
      | true =>
        obtain ⟨rfl, heq⟩ := Option.ite_none_right_eq_some.mp hby
        obtain ⟨-, rfl⟩ := Touch.renew.inj (Option.some.inj heq)
        -- no other call may send it to the key of a worker
        cases call with
        | heartbeat h =>
          rcases hrule with ⟨-, hc⟩ | ⟨n, -, hc⟩
          · exact absurd hc (by simp)
          · obtain ⟨hkey, rfl⟩ := Await.expire.inj hc
            exact ⟨by norm_num, _, he, rfl, i, _, o, rfl, (workerKey_inj hkey).symm, ho⟩
        | usageCheck u => exact absurd rfl (hrule w)
        | rateLimitCheck time identifier tier => exact absurd rfl (hrule w)
        | request r => exact absurd rfl (hrule w)
    | _ => exact absurd hby (by simp [touchBy])
  | _ => exact absurd htouch (by simp [touch?])

/-- **Where an acknowledged heartbeat has executed its two commands.** -/
theorem acknowledged_split {pre post : List (TimedEvent KeyCall.Ret)} {t : ℚ} {i : ℕ} {h : Heartbeat}
    (hr : registry.Run (pre ++ (t, .finish i (.heartbeat h) (.ok ())) :: post) s) :
    ∃ pre₁ t₁ n pre₂ t₂ found pre₃,
      pre = pre₁ ++ (t₁, .cmd i (.heartbeat h) (.hset (workerKey h.workerID) h.fields) (.ok (.ok n))) :: pre₂ ++
        (t₂, .cmd i (.heartbeat h) (.expire (workerKey h.workerID) 300) (.ok found)) :: pre₃ := by
  have hends : h.Ends (ownOps i (pre.map Prod.snd)) (.ok ()) := keyCall_obeyed.returns hr
  generalize hown : ownOps i (pre.map Prod.snd) = own at hends
  cases hends with
  | acknowledged n found =>
    have hop : ⟨.expire (workerKey h.workerID) 300, .ok found⟩ ∈ ownOps i (pre.map Prod.snd) := by
      rw [hown]
      simp
    obtain ⟨before, t₂, o₂, pre₃, rfl, hseen₂, -⟩ := exists_split_of_finish hr hop
    obtain rfl := Outcome.eq_of_seen hseen₂
    rw [List.append_assoc, List.cons_append] at hr
    obtain ⟨s₀, th, h₀, hth, hcall, hrule⟩ := keyCall_obeyed.guarded_timed hr
    -- before the second command there is the first
    rcases hrule with ⟨-, hc⟩ | ⟨n', hbefore, -⟩
    · exact absurd hc (by simp)
    · obtain ⟨pre₁, t₁, o₁, pre₂, rfl, hseen₁, -⟩ := exists_split_of_mem_ownOps h₀ i th hth
        ⟨.hset (workerKey h.workerID) h.fields, .ok (.ok n')⟩ (by rw [hbefore]; simp)
      obtain rfl := Outcome.eq_of_seen hseen₁
      rw [hcall]
      exact ⟨pre₁, t₁, n', pre₂, t₂, found, pre₃, rfl⟩

/-- What was stored by an event of the history has been written. -/
theorem write_mem_touches {t : ℚ} {i n : ℕ} {h : Heartbeat}
    (hmem : (t, .cmd i (.heartbeat h) (.hset (workerKey h.workerID) h.fields) (.ok (.ok n))) ∈ es) :
    Touch.write t (.hash h.fields) ∈ touches h.workerID es :=
  List.mem_filterMap.mpr ⟨_, hmem, touch?_hset rfl⟩

/-- **A status that is lost**: its key has expired before the second command. -/
theorem exists_lapse (hr : registry.Run es s) {t₁ t₂ : ℚ} {i n : ℕ} {h : Heartbeat}
    (hmem : (t₁, .cmd i (.heartbeat h) (.hset (workerKey h.workerID) h.fields) (.ok (.ok n))) ∈ es)
    (hnone : s.2.store.redis.find? t₂ (workerKey h.workerID) = none) :
    ∃ e ∈ es, Renews h.workerID e ∧ t₁ ≤ e.1 + 300 ∧ e.1 + 300 < t₂ := by
  have hwrite := write_mem_touches hmem
  have hreg := registered_of_run hr h.workerID
  obtain ⟨d, hlease, hlt⟩ := hreg.leased.exists_lt (Touch.lastWritten_ne_none hwrite) hnone
  obtain ⟨a, t₀, b, htouches, hwrites⟩ := Touch.lease_eq_some_iff.mp hlease
  have hrenew : Touch.renew t₀ d ∈ touches h.workerID es := by
    rw [htouches]
    exact List.mem_append_right _ List.mem_cons_self
  obtain ⟨rfl, e, he, rfl, hrenews⟩ := renews_of_mem_touches hr hrenew
  refine ⟨e, he, hrenews, ?_, hlt⟩
  -- the status was written before the renewal, or after it but in time
  have hsorted := touches_sorted hr h.workerID
  rw [htouches] at hwrite hsorted
  rcases List.mem_append.mp hwrite with hwrite | hwrite
  · have hle : t₁ ≤ e.1 := (List.pairwise_append.mp hsorted).2.2 _ hwrite _ List.mem_cons_self
    linarith
  · rcases List.mem_cons.mp hwrite with hwrite | hwrite
    · exact absurd hwrite (by simp)
    · obtain ⟨t', v, heq, hle⟩ := hwrites _ hwrite
      obtain ⟨rfl, -⟩ := Touch.write.inj heq
      exact hle

/-- **A status that is renewed** is visible for five minutes. -/
theorem visible_of_renewed {pre post : List (TimedEvent KeyCall.Ret)} {t₂ : ℚ} {i : ℕ} {h : Heartbeat}
    (hr : registry.Run (pre ++ (t₂, .cmd i (.heartbeat h) (.expire (workerKey h.workerID) 300) (.ok true)) :: post) s)
    {v : Value} {t₁ : ℚ} (hwritten : Touch.write t₁ v ∈ touches h.workerID pre) {u : ℚ} (hu : u ≤ t₂ + 300) :
    Visible s.2.store u h.workerID := by
  have htouches : touches h.workerID
      (pre ++ (t₂, .cmd i (.heartbeat h) (.expire (workerKey h.workerID) 300) (.ok true)) :: post) =
      touches h.workerID pre ++ .renew t₂ (t₂ + (300 : ℕ)) :: touches h.workerID post := by
    unfold touches
    rw [List.filterMap_append, List.filterMap_cons_some ((touch?_expire rfl).trans (if_pos rfl))]
  have hsorted := touches_sorted hr h.workerID
  refine (registered_of_run hr h.workerID).visible ?_ fun d hd => ?_
  · rw [htouches]
    exact Touch.lastWritten_ne_none (List.mem_append_left _ hwritten)
  · rw [htouches] at hd hsorted
    have hle : t₂ + (300 : ℕ) ≤ d := by
      refine Touch.le_of_mem_lease (fun t' d' hmem => ?_) hd
      -- later renewals have later deadlines
      obtain ⟨e, he, htouch⟩ := List.mem_filterMap.mp hmem
      obtain ⟨rfl, -⟩ := renews_of_mem_touches hr
        (List.mem_filterMap.mpr ⟨e, List.mem_append_right _ (List.mem_cons_of_mem _ he), htouch⟩)
      have htime : t₂ ≤ t' := (List.pairwise_cons.mp (List.pairwise_append.mp hsorted).2.1).1 _ hmem
      push_cast
      linarith
    push_cast at hle
    linarith

/-- **A heartbeat that is acknowledged** makes the worker visible for five minutes, unless the deadline of an
earlier one passes between its two commands. -/
theorem acknowledged_seen (pre post : List (TimedEvent KeyCall.Ret)) (s : ℚ × KeyPool) (t : ℚ) (i : ℕ)
    (h : Heartbeat) (hr : registry.Run (pre ++ (t, .finish i (.heartbeat h) (.ok ())) :: post) s) :
    ∃ pre₁ t₁ n pre₂ t₂ found pre₃,
      pre = pre₁ ++ (t₁, .cmd i (.heartbeat h) (.hset (workerKey h.workerID) h.fields) (.ok (.ok n))) :: pre₂ ++
        (t₂, .cmd i (.heartbeat h) (.expire (workerKey h.workerID) 300) (.ok found)) :: pre₃ ∧
      ((found = true ∧ ∀ u ≤ t₂ + 300, Visible s.2.store u h.workerID) ∨
        (found = false ∧ ∃ e ∈ pre, Renews h.workerID e ∧ t₁ ≤ e.1 + 300 ∧ e.1 + 300 < t₂)) := by
  obtain ⟨pre₁, t₁, n, pre₂, t₂, found, pre₃, rfl⟩ := acknowledged_split hr
  refine ⟨pre₁, t₁, n, pre₂, t₂, found, pre₃, rfl, ?_⟩
  rw [List.append_assoc, List.cons_append] at hr
  have hmem : (t₁, .cmd i (.heartbeat h) (.hset (workerKey h.workerID) h.fields) (.ok (.ok n))) ∈
      pre₁ ++ (t₁, .cmd i (.heartbeat h) (.hset (workerKey h.workerID) h.fields) (.ok (.ok n))) :: pre₂ :=
    List.mem_append_right _ List.mem_cons_self
  cases found with
  | true => exact .inl ⟨rfl, fun u hu => visible_of_renewed hr (write_mem_touches hmem) hu⟩
  | false =>
    obtain ⟨s₀, s', h₀, hx⟩ := executed_of_seen hr rfl
    have hnone : s₀.2.store.redis.find? t₂ (workerKey h.workerID) = none := by
      obtain ⟨-, hfound⟩ := Prod.mk.inj hx
      exact Option.isNone_iff_eq_none.mp (by simpa using hfound)
    obtain ⟨e, he, hlapse⟩ := exists_lapse h₀ hmem hnone
    exact .inr ⟨rfl, e, List.mem_append_left _ he, hlapse⟩

/-- **Whoever is visible has been heard of** in the last five minutes, where no step leaves a key behind without
expiry and no call is in flight. -/
theorem seen_recently (es : List (TimedEvent KeyCall.Ret)) (s : ℚ × KeyPool)
    (hr : (registry.restrict LeavesNoDebt).Run es s) (hidle : s.2.threads = fun _ => none) (w : String) (u : ℚ)
    (hseen : Visible s.2.store u w) : ∃ e ∈ es, Renews w e ∧ u ≤ e.1 + 300 := by
  have hrun := hr.of_restrict
  have hreg := registered_of_run hrun w
  obtain ⟨h, -, hv⟩ := hseen
  obtain ⟨entry, hfind, -⟩ := Option.map_eq_some_iff.mp hv
  obtain ⟨⟨-, hlease⟩, hlive⟩ := hreg.leased.find?_iff.mp hfind
  have hexpiring : IsExpiring (workerKey w) := by
    refine .inl ⟨?_, ?_⟩
    · simp only [workerKey, String.toList_append, List.append_assoc]
      exact List.prefix_append _ _
    · simp only [workerKey, String.toList_append]
      exact List.suffix_append _ _
  -- the key has an expiry, so it has been renewed
  have hkeys : (keyCalls.restrict LeavesNoDebt).Run es s := hr.mono (fun _ h => ⟨h.1.1, h.2⟩) fun _ _ _ h => h
  have howed := owed_of_run hkeys hexpiring
  cases hd : Touch.lease (touches w es) with
  | none =>
    obtain ⟨j, ttl, th, hth, -⟩ := howed entry (ExpiringStore.find?_eq_some_iff.mp hfind).1 (hlease.trans hd)
    rw [hidle] at hth
    exact absurd hth (by simp)
  | some d =>
    obtain ⟨a, t, b, htouches, -⟩ := Touch.lease_eq_some_iff.mp hd
    have hrenew : Touch.renew t d ∈ touches w es := by
      rw [htouches]
      exact List.mem_append_right _ List.mem_cons_self
    obtain ⟨rfl, e, he, rfl, hrenews⟩ := renews_of_mem_touches hrun hrenew
    exact ⟨e, he, hrenews, hlive _ hd⟩

end Run

/-! ### Two heartbeats five minutes apart -/

theorem registryEmpty_blank : RegistryEmpty .blank := ⟨allExpire_blank, fun _ => rfl⟩

/-- A heartbeat that nothing interferes with. -/
def quickHeartbeat : List (ℚ × KeyCall) := [(0, .heartbeat idleHeartbeat)]

theorem run_quickHeartbeat : ∃ t, registry.Run (timedSession backends KeyCall.body quickHeartbeat .blank)
    (t, ⟨timedStore backends KeyCall.body quickHeartbeat .blank, fun _ => none⟩) := by
  have hchain : List.IsChain (· ≤ ·) (0 :: quickHeartbeat.map Prod.fst) := by decide +kernel
  exact run_timedSession quickHeartbeat registryEmpty_blank hchain

/-- Five minutes later it is still found. -/
theorem found_quickHeartbeat : ∃ v,
    (timedStore backends KeyCall.body quickHeartbeat .blank).value? 300 (workerKey "w1") = some v :=
  Option.isSome_iff_exists.mp (by decide +kernel)

theorem status_read_quickHeartbeat : ∃ h : Heartbeat, h.workerID = "w1" ∧
    Touch.lastWritten (touches "w1" (timedSession backends KeyCall.body quickHeartbeat .blank)) =
      some (.hash h.fields) := by
  obtain ⟨t, hr⟩ := run_quickHeartbeat
  obtain ⟨v, hv⟩ := found_quickHeartbeat
  obtain ⟨⟨h, hw, rfl, hlast⟩, -⟩ := (status_read _ _ hr "w1" 300 v).mp hv
  exact ⟨h, hw, hlast⟩

theorem seen_recently_quickHeartbeat :
    ∃ e ∈ timedSession backends KeyCall.body quickHeartbeat .blank, Renews "w1" e ∧ 300 ≤ e.1 + 300 := by
  obtain ⟨t, hr⟩ := run_quickHeartbeat
  obtain ⟨v, hv⟩ := found_quickHeartbeat
  obtain ⟨⟨h, hw, rfl, -⟩, -⟩ := (registered_of_run hr "w1").value?_iff.mp hv
  have hfaultless : ∀ e ∈ timedSession backends KeyCall.body quickHeartbeat .blank, faultless e = true := by
    decide +kernel
  have hrun : (registry.restrict LeavesNoDebt).Run _ _ :=
    (hr.restrict hfaultless).mono (fun _ h => h) fun _ _ _ h => ⟨h.1, leavesNoDebt_of_faultless h.2⟩
  exact seen_recently _ _ hrun rfl "w1" 300 ⟨h, hw, hv⟩

/-- One at time `0`, and one whose commands are executed after 300 and after 301 seconds. -/
def lateHeartbeat : List (ℚ × Move KeyCall) :=
  [(0, .start 0 (.heartbeat idleHeartbeat)), (0, .next 0 none), (0, .next 0 none), (0, .next 0 none),
    (300, .start 0 (.heartbeat idleHeartbeat)), (300, .next 0 none), (301, .next 0 none), (301, .next 0 none)]

/-- What comes of them. -/
def lateRun : List (TimedEvent KeyCall.Ret) × KeyPool :=
  timedSchedule backends KeyCall.body lateHeartbeat ⟨.blank, fun _ => none⟩

/-- The last event acknowledges a heartbeat of the worker. -/
def endsAcknowledged (w : String) (es : List (TimedEvent KeyCall.Ret)) : Bool :=
  match es.getLast? with
  | some (_, .finish _ (.heartbeat h) (.ok ())) => h.workerID == w
  | _ => false

/-- **The second one is acknowledged, and the worker is gone.** Its status is stored as the lease of the first
runs out, and there is nothing left that its `EXPIRE` could renew. -/
theorem acknowledged_seen_late : ∃ pre t i h s, registry.Run (pre ++ [(t, .finish i (.heartbeat h) (.ok ()))]) s ∧
    s.2.store.value? 301 (workerKey h.workerID) = none ∧
    ∃ t₁ t₂ found, ((found = true ∧ ∀ u ≤ t₂ + 300, Visible s.2.store u h.workerID) ∨
      (found = false ∧ ∃ e ∈ pre, Renews h.workerID e ∧ t₁ ≤ e.1 + 300 ∧ e.1 + 300 < t₂)) := by
  have hchain : List.IsChain (· ≤ ·) (0 :: lateHeartbeat.map Prod.fst) := by decide +kernel
  obtain ⟨t₀, hr⟩ : ∃ t, registry.Run lateRun.1 (t, lateRun.2) :=
    run_of_timedSchedule lateHeartbeat registryEmpty_blank hchain
  have hends : endsAcknowledged "w1" lateRun.1 = true := by decide +kernel
  unfold endsAcknowledged at hends
  split at hends
  · next t i h hlast =>
    obtain ⟨pre, hpre⟩ := List.getLast?_eq_some_iff.mp hlast
    rw [hpre] at hr
    obtain ⟨pre₁, t₁, n, pre₂, t₂, found, pre₃, -, hseen⟩ := acknowledged_seen pre [] _ t i h hr
    refine ⟨pre, t, i, h, _, hr, ?_, t₁, t₂, found, hseen⟩
    have hgone : (lateRun.2.store.value? 301 (workerKey "w1")).isNone = true := by decide +kernel
    rw [eq_of_beq hends]
    exact Option.isNone_iff_eq_none.mp hgone
  · exact absurd hends (by simp)

end TaxlienGateway
