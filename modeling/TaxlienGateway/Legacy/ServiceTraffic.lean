import TaxlienGateway.Legacy.Breakers

/-!
# The traffic of one service

`Legacy/ServiceClient.lean` describes the requests of one service by themselves, `breakerApi` the whole
application. `clientEvents` reads a history of the application as one of the requests of a service: each call
of `can_execute` begins a request, which has the next number.

* `traffic_refines` — what is read off is a run of `serviceClient`, whose breaker is the breaker of the service.

The invariant is `Follows`: by the last command of a call one knows how far its request has come. No two calls
are at the same request.
-/

namespace TaxlienGateway

open Framework

namespace Legacy

/-- What has been read off a history. -/
structure Reading where
  /-- How many requests there have been. -/
  count : ℕ
  /-- The last request of each call. -/
  number : ℕ → ℕ
  /-- What it has come to. -/
  outcome : ℕ → Upstream
  events : List ClientEvent

/-- Call `i` asks the breaker. -/
def Reading.ask (v : Reading) (t : ℚ) (i : ℕ) (passes : Bool) : Reading where
  count := v.count + 1
  number := Function.update v.number i v.count
  outcome := v.outcome
  events := v.events ++ [if passes then .pass v.count t else .refuse v.count t]

/-- The exchange of call `i`, which may fail before anything is sent. -/
def Reading.exchange (v : Reading) (t : ℚ) (i : ℕ) (r : Upstream) (sent : Bool) : Reading :=
  { v with
    outcome := Function.update v.outcome i r
    events := v.events ++ if sent then [.send (v.number i) t] else [] }

/-- Call `i` records what its request has come to. -/
def Reading.record (v : Reading) (t : ℚ) (i : ℕ) : Reading :=
  { v with events := v.events ++ [.finish (v.number i) t (v.outcome i)] }

/-- One event. -/
def Reading.step (recorded : String → Bool) (service : String) (v : Reading) : BreakerEvent → Reading
  | (t, .cmd i _ (.inl (.upstream q)) o) =>
    if q.service = service then v.exchange t i (outcomeOf recorded o.seen) o.effect.isSome else v
  | (t, .cmd i _ (.inr ⟨name, .canExecute⟩) o) =>
    if name = service then v.ask t i (o.effect.getD false) else v
  | (t, .cmd i _ (.inr ⟨name, _⟩) _) => if name = service then v.record t i else v
  | _ => v

/-- What a history says about the requests of a service. -/
def reading (recorded : String → Bool) (service : String) (es : List BreakerEvent) : Reading :=
  es.foldl (Reading.step recorded service) ⟨0, fun _ => 0, fun _ => .otherError, []⟩

/-- The history of these requests. -/
abbrev clientEvents (recorded : String → Bool) (service : String) (es : List BreakerEvent) :
    List ClientEvent :=
  (reading recorded service es).events

/-! ### The last command of a call -/

/-- The last command that a call has issued since it was started. -/
abbrev lastOp (i : ℕ) (es : List BreakerEvent) : Option (Op ClientCmd ClientReply) :=
  (ownOps i (es.map Prod.snd)).getLast?

/-- By its last command, a call has a request of the service under way. -/
inductive UnderWay (service : String) : Op ClientCmd ClientReply → Prop
  | passed : UnderWay service (passed service)
  | exchanged {q : UpstreamRequest} {r : Except String UpstreamResponse} (h : q.service = service) :
      UnderWay service ⟨.inl (.upstream q), r⟩

section LastOp

variable {es : List BreakerEvent} {t : ℚ} {i j : ℕ} {request : ApiRequest} {c : ClientCmd}
  {o : Outcome (ClientReply c)}

theorem lastOp_cmd : lastOp i (es ++ [(t, .cmd i request c o)]) = some ⟨c, o.seen⟩ := by
  simp [lastOp, ownOps_append_singleton, ownStep]

theorem lastOp_cmd_of_ne (h : j ≠ i) : lastOp j (es ++ [(t, .cmd i request c o)]) = lastOp j es := by
  simp [lastOp, ownOps_append_singleton, ownStep, h.symm]

end LastOp

/-! ### The invariant -/

/-- The requests of a service, as they have been read off a history, have made a run to `cs`. -/
structure Follows (recorded : String → Bool) (service : String) (es : List BreakerEvent) (now : ℚ)
    (v : Reading) (cs : ClientState) : Prop where
  run : (serviceClient 5 30).Run v.events cs
  clock : cs.clock ≤ now
  calls : v.events.filterMap ClientEvent.breakerCall? = breakerCalls service es
  fresh : ∀ n, v.count ≤ n → cs.phase n = .fresh
  admitted : ∀ i, passed service ∈ lastOp i es → cs.phase (v.number i) = .admitted
  /-- After an exchange the request has been sent, or it has failed before. -/
  exchanged : ∀ i q r, (⟨.inl (.upstream q), r⟩ : Op ClientCmd ClientReply) ∈ lastOp i es →
    q.service = service → v.outcome i = outcomeOf recorded r ∧
      (cs.phase (v.number i) = .sent ∨ cs.phase (v.number i) = .admitted ∧
        (v.outcome i = .requestError ∨ v.outcome i = .otherError))
  /-- No two calls are at the same request. -/
  apart : ∀ i j op op', op ∈ lastOp i es → op' ∈ lastOp j es → UnderWay service op →
    UnderWay service op' → v.number i = v.number j → i = j

namespace Follows

variable {recorded : String → Bool} {service : String} {es : List BreakerEvent} {now t : ℚ} {v : Reading}
  {cs : ClientState} {i : ℕ} {request : ApiRequest}

/-- A step of a request, at a time that has not passed. -/
theorem run_append (h : Follows recorded service es now v cs) (ht : now ≤ t) {e : ClientEvent} {n : ℕ}
    {phase : Phase} (he : e.time = t) (hnext : cs.next? e = some (n, phase)) :
    (serviceClient 5 30).Run (v.events ++ [e]) ⟨cs.call e, t, Function.update cs.phase n phase⟩ := by
  refine h.run.step ?_
  show cs.step? e = some _
  unfold ClientState.step?
  rw [if_pos (he ▸ h.clock.trans ht), hnext, ← he]
  rfl

/-- A request under way is not a new one. -/
theorem lt_count (h : Follows recorded service es now v cs) {op : Op ClientCmd ClientReply}
    (hop : op ∈ lastOp i es) (hway : UnderWay service op) : v.number i < v.count := by
  by_contra hle
  have hfresh := h.fresh _ (not_lt.mp hle)
  cases hway with
  | passed => exact absurd (hfresh.symm.trans (h.admitted i hop)) (by simp)
  | exchanged hq =>
    rcases (h.exchanged i _ _ hop hq).2 with hsent | ⟨hadm, -⟩
    · exact absurd (hfresh.symm.trans hsent) (by simp)
    · exact absurd (hfresh.symm.trans hadm) (by simp)

/-- **Other events.** What is no event of the service leaves its requests alone. -/
theorem other (h : Follows recorded service es now v cs) {e : BreakerEvent} (ht : now ≤ e.1)
    (hcall : breakerCall? service e = none)
    (hlast : ∀ j, ∀ op ∈ lastOp j (es ++ [e]), UnderWay service op → op ∈ lastOp j es) :
    Follows recorded service (es ++ [e]) e.1 v cs where
  run := h.run
  clock := h.clock.trans ht
  calls := by rw [h.calls, breakerCalls_append_singleton, hcall, Option.toList_none, List.append_nil]
  fresh := h.fresh
  admitted j hop := h.admitted j (hlast j _ hop .passed)
  exchanged j q r hop hq := h.exchanged j q r (hlast j _ hop (.exchanged hq)) hq
  apart j j' op op' hop hop' hway hway' := h.apart j j' op op' (hlast j op hop hway) (hlast j' op' hop' hway')
    hway hway'

/-- **A command of call `i`** that takes request `n` to another phase. Other calls are at other requests. -/
theorem of_cmd (h : Follows recorded service es now v cs) {c : ClientCmd} {o : Outcome (ClientReply c)} {v' : Reading}
    {cs' : ClientState} {n : ℕ} {phase : Phase} (hrun : (serviceClient 5 30).Run v'.events cs')
    (hclock : cs'.clock ≤ t) (hupdate : cs'.phase = Function.update cs.phase n phase)
    (hcalls : v'.events.filterMap ClientEvent.breakerCall? =
      breakerCalls service (es ++ [(t, .cmd i request c o)]))
    (hcount : v.count ≤ v'.count ∧ n < v'.count)
    (hothers : ∀ j, j ≠ i → v'.number j = v.number j ∧ v'.outcome j = v.outcome j)
    (hapart : ∀ j, j ≠ i → ∀ op ∈ lastOp j es, UnderWay service op → v.number j ≠ n)
    (hself : UnderWay service ⟨c, o.seen⟩ → v'.number i = n)
    (hadmitted : (⟨c, o.seen⟩ : Op ClientCmd ClientReply) = passed service → phase = .admitted)
    (hexchanged : ∀ q r, (⟨c, o.seen⟩ : Op ClientCmd ClientReply) = ⟨.inl (.upstream q), r⟩ →
      v'.outcome i = outcomeOf recorded r ∧ (phase = .sent ∨ phase = .admitted ∧
        (v'.outcome i = .requestError ∨ v'.outcome i = .otherError))) :
    Follows recorded service (es ++ [(t, .cmd i request c o)]) t v' cs' := by
  -- what is known of the other calls stays
  have hphase : ∀ j, j ≠ i → ∀ op ∈ lastOp j es, UnderWay service op →
      cs'.phase (v'.number j) = cs.phase (v.number j) := by
    intro j hj op hop hway
    rw [hupdate, (hothers j hj).1, Function.update_of_ne (hapart j hj op hop hway)]
  have hn : cs'.phase n = phase := by rw [hupdate, Function.update_self]
  refine ⟨hrun, hclock, hcalls, ?_, ?_, ?_, ?_⟩
  · intro m hm
    rw [hupdate, Function.update_of_ne (by omega)]
    exact h.fresh m (hcount.1.trans hm)
  · intro j hop
    by_cases hj : j = i
    · subst hj
      rw [lastOp_cmd] at hop
      have hop := Option.some.inj hop
      rw [hself (hop ▸ .passed)]
      exact hn.trans (hadmitted hop)
    · rw [lastOp_cmd_of_ne hj] at hop
      exact (hphase j hj _ hop .passed).trans (h.admitted j hop)
  · intro j q r hop hq
    by_cases hj : j = i
    · subst hj
      rw [lastOp_cmd] at hop
      have hop := Option.some.inj hop
      rw [hself (hop ▸ .exchanged hq), hn]
      exact hexchanged q r hop
    · rw [lastOp_cmd_of_ne hj] at hop
      rw [hphase j hj _ hop (.exchanged hq), (hothers j hj).2]
      exact h.exchanged j q r hop hq
  · intro j j' op op' hop hop' hway hway' heq
    by_cases hj : j = i
    · by_cases hj' : j' = i
      · exact hj.trans hj'.symm
      · -- the call itself is at `n`, and the other one is not
        subst hj
        rw [lastOp_cmd] at hop
        rw [lastOp_cmd_of_ne hj'] at hop'
        rw [hself (Option.some.inj hop ▸ hway), (hothers j' hj').1] at heq
        exact absurd heq.symm (hapart j' hj' op' hop' hway')
    · by_cases hj' : j' = i
      · subst hj'
        rw [lastOp_cmd] at hop'
        rw [lastOp_cmd_of_ne hj] at hop
        rw [hself (Option.some.inj hop' ▸ hway'), (hothers j hj).1] at heq
        exact absurd heq (hapart j hj op hop hway)
      · rw [lastOp_cmd_of_ne hj] at hop
        rw [lastOp_cmd_of_ne hj'] at hop'
        rw [(hothers j hj).1, (hothers j' hj').1] at heq
        exact h.apart j j' op op' hop hop' hway hway' heq

/-- **The breaker is asked**: a new request. -/
theorem ask (h : Follows recorded service es now v cs) (ht : now ≤ t) {passes : Bool}
    (hpasses : (cs.breaker.canExecute t).2 = passes) :
    ∃ cs', Follows recorded service (es ++ [(t, .cmd i request (.inr ⟨service, .canExecute⟩) (.ok passes))]) t
      (v.ask t i passes) cs' := by
  have hfresh := h.fresh v.count le_rfl
  have hapart : ∀ j, j ≠ i → ∀ op ∈ lastOp j es, UnderWay service op → v.number j ≠ v.count :=
    fun j _ op hop hway => (h.lt_count hop hway).ne
  have hothers : ∀ j, j ≠ i → (v.ask t i passes).number j = v.number j ∧
      (v.ask t i passes).outcome j = v.outcome j := fun j hj => ⟨Function.update_of_ne hj .., rfl⟩
  have hself : (v.ask t i passes).number i = v.count := Function.update_self ..
  have hcalls : (v.ask t i passes).events.filterMap ClientEvent.breakerCall? = breakerCalls service
      (es ++ [(t, .cmd i request (.inr ⟨service, .canExecute⟩) (.ok passes))]) := by
    rw [breakerCalls_append_singleton, ← h.calls]
    simp only [Reading.ask, List.filterMap_append]
    cases passes <;> simp [ClientEvent.breakerCall?, breakerCall?]
  cases passes with
  | true =>
    have hnext : cs.next? (.pass v.count t) = some (v.count, .admitted) := if_pos ⟨hfresh, hpasses⟩
    exact ⟨_, h.of_cmd (h.run_append ht rfl hnext) le_rfl rfl hcalls ⟨Nat.le_succ _, Nat.lt_succ_self _⟩ hothers hapart
      (fun _ => hself) (fun _ => rfl) fun q r heq => absurd (Sigma.mk.inj heq).1 (by simp)⟩
  | false =>
    have hnext : cs.next? (.refuse v.count t) = some (v.count, .done) := if_pos ⟨hfresh, hpasses⟩
    exact ⟨_, h.of_cmd (h.run_append ht rfl hnext) le_rfl rfl hcalls ⟨Nat.le_succ _, Nat.lt_succ_self _⟩ hothers hapart
      (fun _ => hself) (fun heq => absurd (Sigma.mk.inj heq).2 (by simp))
      fun q r heq => absurd (Sigma.mk.inj heq).1 (by simp)⟩

/-- Another call is at another request. -/
theorem number_ne (h : Follows recorded service es now v cs) {op : Op ClientCmd ClientReply}
    (hop : op ∈ lastOp i es) (hway : UnderWay service op) : ∀ j, j ≠ i → ∀ op' ∈ lastOp j es,
      UnderWay service op' → v.number j ≠ v.number i :=
  fun j hj op' hop' hway' heq => hj (h.apart j i op' op hop' hop hway' hway heq)

/-- **The exchange**, which follows the answer of the breaker. -/
theorem exchange (h : Follows recorded service es now v cs) (ht : now ≤ t) {q : UpstreamRequest}
    {o : Outcome UpstreamResponse} (hlast : passed service ∈ lastOp i es) :
    ∃ cs', Follows recorded service (es ++ [(t, .cmd i request (.inl (.upstream q)) o)]) t
      (v.exchange t i (outcomeOf recorded o.seen) o.effect.isSome) cs' := by
  have hadm := h.admitted i hlast
  have hapart := h.number_ne hlast .passed
  have hothers : ∀ j, j ≠ i →
      (v.exchange t i (outcomeOf recorded o.seen) o.effect.isSome).number j = v.number j ∧
      (v.exchange t i (outcomeOf recorded o.seen) o.effect.isSome).outcome j = v.outcome j :=
    fun j hj => ⟨rfl, Function.update_of_ne hj ..⟩
  have hcalls : breakerCalls service (es ++ [(t, .cmd i request (.inl (.upstream q)) o)]) =
      breakerCalls service es := by
    rw [breakerCalls_append_singleton]
    exact List.append_nil _
  have hcount : v.count ≤ v.count ∧ v.number i < v.count := ⟨le_rfl, h.lt_count hlast .passed⟩
  have houtcome : ∀ q' r, (⟨.inl (.upstream q), o.seen⟩ : Op ClientCmd ClientReply) = ⟨.inl (.upstream q'), r⟩ →
      (v.exchange t i (outcomeOf recorded o.seen) o.effect.isSome).outcome i = outcomeOf recorded r := by
    intro q' r heq
    obtain ⟨hc, hr⟩ := Sigma.mk.inj heq
    obtain rfl := Await.upstream.inj (Sum.inl.inj hc)
    obtain rfl := eq_of_heq hr
    exact Function.update_self ..
  cases hsent : o.effect.isSome with
  | true =>
    have hnext : cs.next? (.send (v.number i) t) = some (v.number i, .sent) := if_pos hadm
    refine ⟨_, h.of_cmd (h.run_append ht rfl hnext) le_rfl rfl ?_ hcount (hsent ▸ hothers) hapart (fun _ => rfl)
      (fun heq => absurd (Sigma.mk.inj heq).1 (by simp)) fun q' r heq => ⟨hsent ▸ houtcome q' r heq, .inl rfl⟩⟩
    rw [hcalls, ← h.calls]
    simp [Reading.exchange, ClientEvent.breakerCall?]
  | false =>
    -- nothing has been sent, so the exchange has failed
    have herror : (outcomeOf recorded o.seen) = .requestError ∨ (outcomeOf recorded o.seen) = .otherError := by
      cases o with
      | failed e =>
        cases hrec : recorded e <;> simp [outcomeOf, hrec]
      | ok r => exact absurd hsent (by simp)
      | lost r e => exact absurd hsent (by simp)
    have hupdate : cs.phase = Function.update cs.phase (v.number i) .admitted := by
      rw [← hadm, Function.update_eq_self]
    have hevents : (v.exchange t i (outcomeOf recorded o.seen) false).events = v.events := List.append_nil _
    refine ⟨cs, h.of_cmd (hevents ▸ h.run) (h.clock.trans ht) hupdate (by rw [hevents, hcalls, h.calls]) hcount
      (hsent ▸ hothers) hapart (fun _ => rfl) (fun _ => rfl) fun q' r heq =>
        ⟨hsent ▸ houtcome q' r heq, .inr ⟨rfl, ?_⟩⟩⟩
    show Function.update v.outcome i _ i = _ ∨ Function.update v.outcome i _ i = _
    rwa [Function.update_self]

/-- **The outcome is recorded**, right after the exchange. -/
theorem record (h : Follows recorded service es now v cs) (ht : now ≤ t) {q : UpstreamRequest}
    {r : Except String UpstreamResponse} {method : BreakerMethod} {o : Outcome (BreakerReply ⟨service, method⟩)}
    (hq : q.service = service) (hlast : (⟨.inl (.upstream q), r⟩ : Op ClientCmd ClientReply) ∈ lastOp i es)
    (hmethod : (outcomeOf recorded r).method? = some method) :
    ∃ cs', Follows recorded service (es ++ [(t, .cmd i request (.inr ⟨service, method⟩) o)]) t
      (v.record t i) cs' := by
  obtain ⟨houtcome, hphase⟩ := h.exchanged i q r hlast hq
  have hnext : cs.next? (.finish (v.number i) t (v.outcome i)) = some (v.number i, .done) := by
    refine if_pos ?_
    rcases hphase with hsent | ⟨hadm, herror | herror⟩
    · exact .inl hsent
    · exact .inr (.inl ⟨hadm, herror⟩)
    · exact .inr (.inr ⟨hadm, herror⟩)
  have hne := canExecute_ne_of_method? hmethod
  refine ⟨_, h.of_cmd (h.run_append ht rfl hnext) le_rfl rfl ?_ ⟨le_rfl, h.lt_count hlast (.exchanged hq)⟩
    (fun j hj => ⟨rfl, rfl⟩) (h.number_ne hlast (.exchanged hq)) (fun _ => rfl) ?_ ?_⟩
  · rw [breakerCalls_append_singleton, ← h.calls]
    simp [Reading.record, ClientEvent.breakerCall?, houtcome, hmethod, breakerCall?]
  · intro heq
    obtain ⟨-, rfl⟩ := BreakerCmd.mk.inj (Sum.inr.inj (Sigma.mk.inj heq).1)
    exact absurd rfl hne
  · exact fun q r heq => absurd (Sigma.mk.inj heq).1 (by simp)

end Follows

/-! ### Runs -/

section Runs

variable {recorded : String → Bool} {service : String} {es : List BreakerEvent} {s : BreakerState}

theorem reading_append_singleton (es : List BreakerEvent) (e : BreakerEvent) :
    reading recorded service (es ++ [e]) = (reading recorded service es).step recorded service e := by
  unfold reading
  rw [List.foldl_append, List.foldl_cons, List.foldl_nil]

/-- A call that issues a command for nobody at the service has no request under way after it. -/
theorem lastOp_of_cmd {t : ℚ} {i : ℕ} {request : ApiRequest} {c : ClientCmd} {o : Outcome (ClientReply c)}
    (hc : ¬ UnderWay service ⟨c, o.seen⟩) : ∀ j, ∀ op ∈ lastOp j (es ++ [(t, .cmd i request c o)]),
      UnderWay service op → op ∈ lastOp j es := by
  intro j op hop hway
  by_cases hj : j = i
  · subst hj
    rw [lastOp_cmd] at hop
    exact absurd (Option.some.inj hop ▸ hway) hc
  · rwa [lastOp_cmd_of_ne hj] at hop

/-- A call that starts has no command of its own, and one that is over keeps its history. -/
theorem lastOp_of_ownStep {e : BreakerEvent} (he : ∀ j h, ownStep j h e.2 = h ∨ ownStep j h e.2 = []) :
    ∀ j, ∀ op ∈ lastOp j (es ++ [e]), UnderWay service op → op ∈ lastOp j es := by
  intro j op hop _
  rw [lastOp, List.map_append, List.map_singleton, ownOps_append_singleton] at hop
  rcases he j (ownOps j (es.map Prod.snd)) with h | h
  · rwa [h] at hop
  · rw [h] at hop
    exact absurd hop (by simp)

/-- **Step.** -/
theorem Follows.step {cs : ClientState} {e : BreakerEvent} {s' : BreakerState}
    (hr : (breakerApi recorded).Run es s) (h : Follows recorded service es s.1 (reading recorded service es) cs)
    (hs : (breakerApi recorded).step s e s') :
    ∃ cs', Follows recorded service (es ++ [e]) s'.1 (reading recorded service (es ++ [e])) cs' := by
  rw [reading_append_singleton]
  obtain ⟨t, e⟩ := e
  obtain ⟨now, p⟩ := s'
  obtain ⟨⟨hclock, rfl, hs⟩, hans⟩ := hs
  cases hs with
  -- what concerns no command leaves the traffic as it is
  | start hfree =>
    refine ⟨cs, h.other hclock rfl (lastOp_of_ownStep fun j own => ?_)⟩
    simp only [ownStep]
    split
    · exact .inr rfl
    · exact .inl rfl
  | finish hth => exact ⟨cs, h.other hclock rfl (lastOp_of_ownStep fun j own => .inl rfl)⟩
  | crash hth => exact ⟨cs, h.other hclock rfl (lastOp_of_ownStep fun j own => .inl rfl)⟩
  | @cmd i request c k f s'' o hth hx =>
    -- what the call may do here is known from its own history
    have hrule : ClientRule recorded _ c := (clientDispatch_obeyed.run_timed hr.of_restrict i _ hth).1
    change ∃ cs', Follows recorded service (es ++ [(now, .cmd i request c o)]) now _ cs'
    cases c with
    | inl c =>
      have hnone : breakerCall? service (now, .cmd i request (.inl c) o) = none := rfl
      cases c with
      | upstream q =>
        by_cases hq : q.service = service
        · -- the request is sent, and its answer is still to be recorded
          have hread : Reading.step recorded service (reading recorded service es)
              (now, .cmd i request (.inl (.upstream q)) o) = _ := if_pos hq
          rw [hread]
          exact h.exchange hclock (hq ▸ hrule)
        · -- a request to another service
          have hread : Reading.step recorded service (reading recorded service es)
              (now, .cmd i request (.inl (.upstream q)) o) = _ := if_neg hq
          rw [hread]
          exact ⟨cs, h.other hclock hnone (lastOp_of_cmd fun hway => by
            cases hway with | exchanged hq' => exact hq hq')⟩
      | _ => exact ⟨cs, h.other hclock hnone (lastOp_of_cmd fun hway => by cases hway)⟩
    | inr d =>
      -- a call of a breaker is in memory, so it is always answered
      obtain ⟨name, method⟩ := d
      obtain ⟨r, rfl⟩ := exists_ok_of_answered hans
      obtain ⟨hx, -⟩ := Server.answer_of_inr hx
      have hexec := Server.exec_of_answer hx (Outcome.effect_ok r)
      by_cases hname : name = service
      · subst hname
        rcases hrule with rfl | ⟨q, r', hlast, hq, hmethod⟩
        · -- the breaker answers what the one of the requests would
          have hpasses : (cs.breaker.canExecute now).2 = r := by
            rw [breaker_of_run h.run, breakerIn, h.calls, ← breaker_of_breakerApi hr]
            exact congrArg Prod.snd hexec
          have hread : Reading.step recorded name (reading recorded name es)
              (now, .cmd i request (.inr ⟨name, .canExecute⟩) (.ok r)) = _ := if_pos rfl
          rw [hread]
          exact h.ask hclock hpasses
        · -- the outcome of the call's last request is recorded
          have hread : Reading.step recorded name (reading recorded name es)
              (now, .cmd i request (.inr ⟨name, method⟩) (.ok r)) = (reading recorded name es).record now i := by
            cases method with
            | canExecute => exact absurd rfl (canExecute_ne_of_method? hmethod)
            | _ => exact if_pos rfl
          rw [hread]
          exact h.record hclock hq hlast hmethod
      · -- the breaker of another service
        have hread : Reading.step recorded service (reading recorded service es)
            (now, .cmd i request (.inr ⟨name, method⟩) (.ok r)) = reading recorded service es := by
          cases method with
          | _ => exact if_neg hname
        rw [hread]
        exact ⟨cs, h.other hclock (if_neg hname) (lastOp_of_cmd fun hway => by
          cases hway with | passed => exact hname rfl)⟩

/-- **The traffic of a service**, in any run of the application, is a run of its requests by themselves. Its
breaker is the breaker of the service, and it has been called in the same way. -/
theorem traffic_refines (recorded : String → Bool) (service : String) (es : List BreakerEvent) (s : BreakerState)
    (hr : (breakerApi recorded).Run es s) :
    ∃ cs, (serviceClient 5 30).Run (clientEvents recorded service es) cs ∧
      cs.breaker = s.2.store.2 service ∧
      (clientEvents recorded service es).filterMap ClientEvent.breakerCall? = breakerCalls service es := by
  have hfollows : ∃ cs, Follows recorded service es s.1 (reading recorded service es) cs := by
    induction hr with
    | @init s h =>
      refine ⟨.new 5 30 s.1, .init ⟨s.1, rfl⟩, le_rfl, rfl, fun _ _ => rfl, ?_, ?_, ?_⟩
      · exact fun i hop => absurd hop (by simp [lastOp, ownOps])
      · exact fun i q r hop => absurd hop (by simp [lastOp, ownOps])
      · exact fun i j op op' hop => absurd hop (by simp [lastOp, ownOps])
    | step hr hs ih =>
      obtain ⟨cs, h⟩ := ih
      exact h.step hr hs
  obtain ⟨cs, h⟩ := hfollows
  refine ⟨cs, h.run, ?_, h.calls⟩
  rw [breaker_of_run h.run, breakerIn, h.calls, breaker_of_breakerApi hr]

end Runs

theorem traffic_refines_failingSearches : ∃ cs,
    (serviceClient 5 30).Run (clientEvents (fun _ => true) "parser" failingSearches) cs ∧
      cs.breaker = breakerAfter 5 30 (breakerCalls "parser" failingSearches) := by
  obtain ⟨s, hr⟩ := run_failingSearches
  obtain ⟨cs, hrun, hbreaker, -⟩ := traffic_refines _ "parser" failingSearches s hr
  exact ⟨cs, hrun, hbreaker.trans (breaker_of_breakerApi hr "parser")⟩

end Legacy

end TaxlienGateway
