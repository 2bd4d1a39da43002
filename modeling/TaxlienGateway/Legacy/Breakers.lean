import TaxlienGateway.Framework.Implement
import TaxlienGateway.Legacy.ApiAnswers
import TaxlienGateway.Legacy.ServiceClient
import TaxlienGateway.Legacy.UpstreamBound

/-!
# The public API behind its circuit breakers

In `Legacy/PublicApi.lean` an exchange with an upstream service is one command. In the code it is
`ServiceClient.request`: it asks the breaker of the service, sends the request, and records the outcome, and
between these steps other requests go on. `breakerApi` is the application with these steps.

* `breakerApi_refines` — it behaves like `publicApi`, where a request that a breaker refuses is one whose
  upstream exchange fails;
* `sent_after_pass` — a request is sent only after `can_execute` has let it through, and then either fewer
  than five failures had been recorded since the last success, or the last of them was more than thirty
  seconds ago;
* `blocked_answered` — a request that is refused sends nothing, and is answered with status 502.
-/

namespace TaxlienGateway

open Framework

namespace Legacy

/-! ### The breakers -/

/-- A call of a method of the breaker of a service. -/
structure BreakerCmd where
  service : String
  method : BreakerMethod
  deriving DecidableEq

/-- `can_execute` answers whether the request may be sent; the other methods answer nothing. -/
abbrev BreakerReply : BreakerCmd → Type
  | ⟨_, .canExecute⟩ => Bool
  | ⟨_, .recordSuccess⟩ => Unit
  | ⟨_, .recordFailure⟩ => Unit

/-- `ServiceClient._breakers`, which has a new breaker for each service that is asked for the first time. -/
def breakers (now : ℚ) : Server BreakerCmd BreakerReply (String → CircuitBreaker) where
  exec
    | ⟨service, .canExecute⟩, s =>
      (Function.update s service ((s service).canExecute now).1, ((s service).canExecute now).2)
    | ⟨service, .recordSuccess⟩, s => (Function.update s service (s service).recordSuccess, ())
    | ⟨service, .recordFailure⟩, s => (Function.update s service ((s service).recordFailure now), ())

/-- What a client does: a handler's commands, and calls of the breakers. -/
abbrev ClientCmd : Type := Await ⊕ BreakerCmd

abbrev ClientReply : ClientCmd → Type := BothReply AwaitReply BreakerReply

/-- What `client.request` has come to; `recorded` are the exceptions that are a `httpx.RequestError` or an
`asyncio.TimeoutError`. -/
def outcomeOf (recorded : String → Bool) : Except String UpstreamResponse → Upstream
  | .ok response => .response response.status_code
  | .error e => if recorded e then .requestError else .otherError

/-- `ServiceClient.request` -/
def clientRequest (recorded : String → Bool) (request : UpstreamRequest) :
    Prog ClientCmd ClientReply (Except String UpstreamResponse) :=
  .cmd (.inr ⟨request.service, .canExecute⟩) fun
    | .error e => .done (.error e)
    | .ok false => .done (.error "Circuit breaker is OPEN")
    | .ok true => .cmd (.inl (.upstream request)) fun r =>
      match (outcomeOf recorded r).method? with
      | none => .done r
      | some method => .cmd (.inr ⟨request.service, method⟩) fun _ => .done r

/-- The commands of the handlers, of which one is a request of the client. -/
def clientCommand (recorded : String → Bool) :
    (c : Await) → Prog ClientCmd ClientReply (Except String (AwaitReply c))
  | .upstream request => clientRequest recorded request
  | c => .cmd (.inl c) .done

/-- No outcome asks the breaker. -/
theorem canExecute_ne_of_method? {r : Upstream} {method : BreakerMethod} (h : r.method? = some method) :
    method ≠ .canExecute := by
  rintro rfl
  cases r with
  | response status =>
    have h := Option.some.inj h
    split at h <;> exact absurd h (by simp)
  | requestError => exact absurd (Option.some.inj h) (by simp)
  | otherError => exact absurd h (by simp [Upstream.method?])

/-! ### The application -/

abbrev BreakerEvent : Type := ℚ × Event ClientCmd ClientReply ApiRequest (fun _ => ApiResponse)

abbrev BreakerState : Type :=
  ℚ × Pool ClientCmd ClientReply ApiRequest (fun _ => ApiResponse) (Backends × (String → CircuitBreaker))

/-- A call of a method in the same process is answered. -/
def answered : BreakerEvent → Bool
  | (_, .cmd _ _ (.inr _) o) => match o with
    | .ok _ => true
    | _ => false
  | _ => true

/-- A call of a breaker is answered. -/
theorem exists_ok_of_answered {t : ℚ} {i : ℕ} {request : ApiRequest} {d : BreakerCmd}
    {o : Outcome (ClientReply (.inr d))} (h : answered (t, .cmd i request (.inr d) o) = true) : ∃ r, o = .ok r := by
  cases o with
  | ok r => exact ⟨r, rfl⟩
  | lost r e => exact absurd h (by simp [answered])
  | failed e => exact absurd h (by simp [answered])

/-- The public application with its breakers. -/
def breakerApi (recorded : String → Bool) : System BreakerState BreakerEvent :=
  (implemented backends breakers (clientCommand recorded) ApiRequest.dispatch
    fun s => s.1.Fresh ∧ s.2 = fun _ => .new 5 30).restrict fun _ e => answered e = true

variable {recorded : String → Bool}

/-- A request of the client is one exchange: before it is sent the breaker is asked, and then only an outcome
is recorded. -/
theorem pending_clientCommand (c : Await) : (clientCommand recorded c).Pending c := by
  cases c with
  | upstream request =>
    intro x
    match x with
    | .error e => exact .inr ⟨e, rfl⟩
    | .ok false => exact .inr ⟨_, rfl⟩
    | .ok true =>
      refine .inl ⟨rfl, fun r => ?_⟩
      beta_reduce
      cases hmethod : (outcomeOf recorded r).method? with
      | none => exact rfl
      | some method => exact fun _ => rfl
  | _ => exact Prog.pending_issue _

/-- **Refinement.** A run of the application with its breakers is a run of the application: the same requests
come and are answered in the same way, the same commands reach Redis and the upstream services, and a request
that a breaker refuses is one whose upstream exchange fails. -/
theorem breakerApi_refines (recorded : String → Bool) (es' : List BreakerEvent)
    (s' : BreakerState) (hr : (breakerApi recorded).Run es' s') :
    ∃ es s, publicApi.Run es s ∧ Reads es' es ∧ s.2.store = s'.2.store.1 := by
  obtain ⟨es, s, hrun, hreads, htracks⟩ :=
    implement_refines (fun c => pending_clientCommand c) (fun s hs => hs.1) hr.of_restrict
  exact ⟨es, s, hrun, hreads, htracks.store⟩

/-! ### The conduct of a client -/

/-- The breaker of a service has let a request through. -/
abbrev passed (service : String) : Op ClientCmd ClientReply := ⟨.inr ⟨service, .canExecute⟩, .ok true⟩

/-- The breaker of a service has refused a request. -/
abbrev blocked (service : String) : Op ClientCmd ClientReply := ⟨.inr ⟨service, .canExecute⟩, .ok false⟩

/-- A request is sent right after its breaker has let it through, and an outcome is recorded right after it is
known. -/
def ClientRule (recorded : String → Bool) (own : List (Op ClientCmd ClientReply)) : ClientCmd → Prop
  | .inl (.upstream q) => passed q.service ∈ own.getLast?
  | .inr ⟨service, method⟩ => method = .canExecute ∨
    ∃ q r, (⟨.inl (.upstream q), r⟩ : Op ClientCmd ClientReply) ∈ own.getLast? ∧ q.service = service ∧
      (outcomeOf recorded r).method? = some method
  | .inl _ => True

/-- No upstream service and no breaker has been asked. -/
def Untouched (own : List (Op ClientCmd ClientReply)) : Prop :=
  ∀ op ∈ own, (∀ q, op.1 ≠ .inl (.upstream q)) ∧ ∀ d, op.1 ≠ .inr d

/-- What a request sees of its client. -/
structure Shows (own : List (Op Await AwaitReply)) (own' : List (Op ClientCmd ClientReply)) : Prop where
  untouched : Unasked own → Untouched own'
  /-- A refusal is an exchange that fails, and nothing is sent. -/
  explained : ∀ service, blocked service ∈ own' → Failed own ∧ ∀ op ∈ own', ∀ q, op.1 ≠ .inl (.upstream q)

section Client

variable {own : List (Op Await AwaitReply)} {own' : List (Op ClientCmd ClientReply)}

theorem not_blocked_of_untouched (h : Untouched own') (service : String) : blocked service ∉ own' :=
  fun hmem => (h _ hmem).2 _ rfl

/-- A command that is no request of the client. -/
theorem Shows.append (h : Shows own own') {c : Await} (hc : ∀ q, c ≠ .upstream q)
    (r : Except String (AwaitReply c)) : Shows (own ++ [⟨c, r⟩]) (own' ++ [⟨.inl c, r⟩]) where
  untouched hun := by
    have hown : Unasked own := fun op hop => hun op (List.mem_append_left _ hop)
    intro op hop
    rcases List.mem_append.mp hop with hop | hop
    · exact h.untouched hown op hop
    · obtain rfl := List.mem_singleton.mp hop
      exact ⟨fun q heq => hc q (Sum.inl.inj heq), by simp⟩
  explained service hmem := by
    have hmem : blocked service ∈ own' :=
      (List.mem_append.mp hmem).resolve_right (by simp)
    obtain ⟨hfailed, hunsent⟩ := h.explained service hmem
    refine ⟨failed_append_singleton.mpr (.inl hfailed), fun op hop q => ?_⟩
    rcases List.mem_append.mp hop with hop | hop
    · exact hunsent op hop q
    · obtain rfl := List.mem_singleton.mp hop
      exact fun heq => hc q (Sum.inl.inj heq)

/-- Once a request has been made, only refusals are left to explain. -/
theorem shows_of_upstream {q : UpstreamRequest} {r : Except String UpstreamResponse}
    (h : ∀ service, blocked service ∈ own' →
      Failed (own ++ [⟨.upstream q, r⟩]) ∧ ∀ op ∈ own', ∀ q, op.1 ≠ .inl (.upstream q)) :
    Shows (own ++ [⟨.upstream q, r⟩]) own' :=
  ⟨fun hun => absurd rfl (hun ⟨.upstream q, r⟩ (by simp) q), h⟩

/-- **The client.** -/
theorem clientRequest_obeys {q : UpstreamRequest} (h : Shows own own') (hun : Unasked own) :
    (clientRequest recorded q).Obeys (ClientRule recorded)
      (fun own' r => Shows (own ++ [⟨.upstream q, r⟩]) own') own' := by
  have huntouched := h.untouched hun
  have hnot := not_blocked_of_untouched huntouched
  refine ⟨.inl rfl, fun x => ?_⟩
  match x with
  | .error e =>
    refine shows_of_upstream fun service hmem => absurd hmem ?_
    simp [hnot service]
  | .ok false =>
    refine shows_of_upstream fun service _ => ⟨failed_of_upstream q _, fun op hop q => ?_⟩
    rcases List.mem_append.mp hop with hop | hop
    · exact (huntouched op hop).1 q
    · obtain rfl := List.mem_singleton.mp hop
      simp
  | .ok true =>
    refine ⟨by simp [ClientRule], fun r => ?_⟩
    beta_reduce
    cases hmethod : (outcomeOf recorded r).method? with
    | none =>
      refine shows_of_upstream fun service hmem => absurd hmem ?_
      simp [hnot service]
    | some method =>
      refine ⟨.inr ⟨q, r, by simp, rfl, hmethod⟩, fun x => ?_⟩
      refine shows_of_upstream fun service hmem => absurd hmem ?_
      have hne := canExecute_ne_of_method? hmethod
      simp [hnot service, hne.symm]

theorem clientCommand_obeys {request : ApiRequest} (c : Await) (h : Shows own own')
    (hc : RequestRule request own c) :
    (clientCommand recorded c).Obeys (ClientRule recorded) (fun own' r => Shows (own ++ [⟨c, r⟩]) own') own' := by
  have hissue : (∀ q, c ≠ .upstream q) → ClientRule recorded own' (.inl c) →
      (Prog.cmd (.inl c) .done : Prog ClientCmd ClientReply (Except String (AwaitReply c))).Obeys
        (ClientRule recorded) (fun own' r => Shows (own ++ [⟨c, r⟩]) own') own' :=
    fun hc hrule => ⟨hrule, fun r => h.append hc r⟩
  cases c with
  | upstream q => exact clientRequest_obeys h hc
  | _ => exact hissue (by simp) trivial

end Client

/-- **The conduct of a request**, and what it is answered after a refusal. -/
theorem clientDispatch_obeyed : Obeyed (fun request => (ApiRequest.dispatch request).implement (clientCommand recorded))
    (fun _ => ClientRule recorded)
    (fun request own' response => ∃ own, Shows own own' ∧ request.Answers own response.answer) :=
  fun request => (dispatch_answers request).implement ⟨by simp [Untouched], by simp⟩
    fun c _ _ h hc => clientCommand_obeys c h hc.1

/-! ### The breakers along a run -/

/-- The call of the breaker of a service in an event. -/
def breakerCall? (service : String) : BreakerEvent → Option BreakerCall
  | (t, .cmd _ _ (.inr d) _) => if d.service = service then some ⟨t, d.method⟩ else none
  | _ => none

/-- The calls of the breaker of a service. -/
abbrev breakerCalls (service : String) (es : List BreakerEvent) : List BreakerCall :=
  es.filterMap (breakerCall? service)

theorem breakerCalls_append_singleton (service : String) (es : List BreakerEvent) (e : BreakerEvent) :
    breakerCalls service (es ++ [e]) = breakerCalls service es ++ (breakerCall? service e).toList := by
  rw [breakerCalls, List.filterMap_append]
  cases h : breakerCall? service e <;> simp [h]

/-- A method is called on the breaker of its service, and no other. -/
theorem breakers_exec (now : ℚ) (d : BreakerCmd) (s : String → CircuitBreaker) (service : String) :
    ((breakers now).exec d s).1 service =
      if d.service = service then (s service).apply ⟨now, d.method⟩ else s service := by
  have hupdate : ∀ b : CircuitBreaker, Function.update s d.service b service =
      if d.service = service then b else s service := fun b => by
    by_cases h : d.service = service
    · rw [if_pos h, h, Function.update_self]
    · rw [if_neg h, Function.update_of_ne (Ne.symm h)]
  obtain ⟨name, method⟩ := d
  cases method with
  | _ =>
    refine (hupdate _).trans ?_
    by_cases h : name = service
    · subst h
      rfl
    · exact (if_neg h).trans (if_neg h).symm

variable {es : List BreakerEvent} {s : BreakerState}

/-- **The breakers of a run** are determined by their calls. -/
theorem breaker_of_breakerApi (hr : (breakerApi recorded).Run es s) (service : String) :
    s.2.store.2 service = breakerAfter 5 30 (breakerCalls service es) := by
  induction hr with
  | init h => rw [h.1.2]; rfl
  | @step es s e s' hr hs ih =>
    obtain ⟨t, e⟩ := e
    obtain ⟨now, p⟩ := s'
    obtain ⟨⟨-, -, hs⟩, hans⟩ := hs
    rw [breakerCalls_append_singleton]
    cases hs with
    | @cmd i request c k f s'' o hth hx =>
      cases c with
      | inl c =>
        rw [(Server.answer_of_inl hx).2, ih]
        exact congrArg _ (List.append_nil _).symm
      | inr d =>
        -- the call is answered, so it has been executed
        obtain ⟨hx, -⟩ := Server.answer_of_inr hx
        obtain ⟨r, rfl⟩ := exists_ok_of_answered hans
        have hexec := Server.exec_of_answer hx (Outcome.effect_ok r)
        have hstate : s''.2 = ((breakers t).exec d s.2.store.2).1 := by rw [hexec]
        show s''.2 service = _
        rw [hstate, breakers_exec, ih]
        show _ = breakerAfter 5 30 (_ ++ (if _ then _ else _ : Option BreakerCall).toList)
        by_cases hd : d.service = service
        · rw [if_pos hd, if_pos hd, Option.toList_some, breakerAfter_append_singleton]
        · rw [if_neg hd, if_neg hd, Option.toList_none, List.append_nil]
    | start hfree => exact ih.trans (congrArg _ (List.append_nil _).symm)
    | finish hth => exact ih.trans (congrArg _ (List.append_nil _).symm)
    | crash hth => exact ih.trans (congrArg _ (List.append_nil _).symm)

/-- The invariant of a breaker, at any time from the last event on. -/
theorem consistent_of_breakerApi (hr : (breakerApi recorded).Run es s) (service : String) {now : ℚ}
    (hnow : s.1 ≤ now) : Consistent (trailingFailures (breakerCalls service es)) now
      (breakerAfter 5 30 (breakerCalls service es)) := by
  obtain ⟨hpair, hle⟩ := times_of_run hr.of_restrict
  have htime : ∀ {e : BreakerEvent} {c : BreakerCall}, breakerCall? service e = some c → c.time = e.1 := by
    intro e c hc
    unfold breakerCall? at hc
    split at hc
    · next t i request d o =>
      obtain ⟨-, hc⟩ := Option.ite_none_right_eq_some.mp hc
      obtain rfl := Option.some.inj hc
      rfl
    · exact absurd hc (by simp)
  refine consistent_breakerAfter (by decide) _ now (List.pairwise_append.mpr
    ⟨List.pairwise_map.mpr ?_, List.pairwise_singleton _ _, ?_⟩)
  · refine hpair.filterMap _ fun e e' hee' c hc c' hc' => ?_
    rw [htime hc, htime hc']
    exact hee'
  · intro t ht t' ht'
    obtain rfl := List.mem_singleton.mp ht'
    obtain ⟨c, hc, rfl⟩ := List.mem_map.mp ht
    obtain ⟨e, he, hec⟩ := List.mem_filterMap.mp hc
    rw [htime hec]
    exact (hle e he).trans hnow

/-- When a breaker lets a request through. -/
theorem passed_of_breakerApi {pre post : List BreakerEvent} {t : ℚ} {i : ℕ} {request : ApiRequest}
    {service : String} {o : Outcome Bool} (ho : o.seen = .ok true)
    (hr : (breakerApi recorded).Run (pre ++ (t, .cmd i request (.inr ⟨service, .canExecute⟩) o) :: post) s) :
    (trailingFailures (breakerCalls service pre)).length < 5 ∨
      ∃ u ∈ (trailingFailures (breakerCalls service pre)).head?, u + 30 < t := by
  obtain ⟨s₀, ⟨now, p⟩, h₀, ⟨⟨hclock, -, hs⟩, -⟩, -⟩ := hr.step_at
  cases hs with
  | cmd hth hx =>
    obtain ⟨hx, -⟩ := Server.answer_of_inr hx
    have hexec := Server.exec_of_answer hx (Outcome.effect_of_seen ho)
    have hpass : ((s₀.2.store.2 service).canExecute t).2 = true := congrArg Prod.snd hexec
    rw [breaker_of_breakerApi h₀ service] at hpass
    obtain ⟨hparam, hparam'⟩ := breakerAfter_params 5 30 (breakerCalls service pre)
    have hiff := (consistent_of_breakerApi h₀ service hclock).canExecute_eq_false_iff
      (by rw [hparam]; decide)
    rw [hpass, hparam, hparam'] at hiff
    by_cases hfew : (trailingFailures (breakerCalls service pre)).length < 5
    · exact .inl hfew
    · right
      cases hlast : (trailingFailures (breakerCalls service pre)).head? with
      | none =>
        rw [List.head?_eq_none_iff.mp hlast] at hfew
        exact absurd hfew (by decide)
      | some u =>
        refine ⟨u, rfl, ?_⟩
        by_contra hearly
        exact absurd (hiff.mpr ⟨not_lt.mp hfew, u, hlast, by linarith⟩) (by simp)

/-! ### What is sent -/

/-- **A request is sent only after its breaker has let it through**, and it has done nothing in between. The
breaker lets it through only if the outcomes recorded for the service, by whatever requests, end in fewer than
five failures, or the last of them was more than thirty seconds before. -/
theorem sent_after_pass (recorded : String → Bool) (pre post : List BreakerEvent) (s : BreakerState) (t : ℚ)
    (i : ℕ) (request : ApiRequest) (q : UpstreamRequest) (o : Outcome UpstreamResponse)
    (hr : (breakerApi recorded).Run (pre ++ (t, .cmd i request (.inl (.upstream q)) o) :: post) s) :
    ∃ pre₁ t' pre₂,
      pre = pre₁ ++ (t', .cmd i request (.inr ⟨q.service, .canExecute⟩) (.ok true)) :: pre₂ ∧
      (∀ e ∈ pre₂, e.2.index ≠ i) ∧
      ((trailingFailures (breakerCalls q.service pre₁)).length < 5 ∨
        ∃ u ∈ (trailingFailures (breakerCalls q.service pre₁)).head?, u + 30 < t') := by
  obtain ⟨s₀, th, h₀, hth, rfl, hrule⟩ := clientDispatch_obeyed.guarded_timed hr.of_restrict
  obtain ⟨pre₁, t', o', pre₂, rfl, hseen, hidle⟩ := exists_split_of_getLast? h₀ i th hth _ hrule
  obtain rfl := Outcome.eq_of_seen hseen
  obtain ⟨s₁, h₁⟩ := hr.of_append
  exact ⟨pre₁, t', pre₂, rfl, hidle, passed_of_breakerApi hseen h₁⟩

/-- **A request that is refused** by a breaker sends nothing, and is answered with status 502. -/
theorem blocked_answered (recorded : String → Bool) (pre post : List BreakerEvent) (s : BreakerState) (t : ℚ)
    (i : ℕ) (request : ApiRequest) (response : ApiResponse) (service : String)
    (hr : (breakerApi recorded).Run (pre ++ (t, .finish i request response) :: post) s)
    (hblocked : blocked service ∈ ownOps i (pre.map Prod.snd)) :
    (∃ detail, response.answer = badGateway detail) ∧
      ∀ op ∈ ownOps i (pre.map Prod.snd), ∀ q, op.1 ≠ .inl (.upstream q) := by
  obtain ⟨own, hshows, hanswer⟩ := clientDispatch_obeyed.returns hr.of_restrict
  obtain ⟨hfailed, hunsent⟩ := hshows.explained service hblocked
  exact ⟨hanswer.badGateway.mpr hfailed, hunsent⟩

/-! ### A service that fails -/

/-- Six searches of a guest, ten seconds apart, while the service fails. -/
def failingSearches : List BreakerEvent :=
  timedSession (fun t => (backends t).beside (breakers t))
    (fun request => (ApiRequest.dispatch request).implement (clientCommand fun _ => true))
    (eagerGuest.zipIdx.map fun r => guestRequest r.1 r.2)
    ({ Backends.blank with responses := fun _ => ⟨500, .empty, none⟩ }, fun _ => .new 5 30)

theorem run_failingSearches : ∃ s, (breakerApi fun _ => true).Run failingSearches s := by
  obtain ⟨t, hr⟩ : ∃ t, (implemented backends breakers (clientCommand fun _ => true) ApiRequest.dispatch
      fun s => s.1.Fresh ∧ s.2 = fun _ => .new 5 30).Run failingSearches (t, _) :=
    run_timedSession _ ⟨fresh_blank, rfl⟩ (isChain_guestRequest eagerGuest)
  exact ⟨_, hr.restrict (by decide +kernel)⟩

theorem breakerApi_refines_failingSearches : ∃ es s, publicApi.Run es s ∧ Reads failingSearches es := by
  obtain ⟨s', hr⟩ := run_failingSearches
  obtain ⟨es, s, hrun, hreads, -⟩ := breakerApi_refines _ failingSearches s' hr
  exact ⟨es, s, hrun, hreads⟩

/-- A request is sent. -/
def isSent : BreakerEvent → Bool
  | (_, .cmd _ _ (.inl (.upstream _)) _) => true
  | _ => false

theorem of_isSent {e : BreakerEvent} (h : isSent e = true) :
    ∃ t i request q o, e = (t, .cmd i request (.inl (.upstream q)) o) := by
  unfold isSent at h
  split at h
  · next t i request q o => exact ⟨t, i, request, q, o, rfl⟩
  · exact absurd h (by simp)

theorem sent_after_pass_failingSearches : ∃ pre t i request q o post s,
    (breakerApi fun _ => true).Run (pre ++ (t, .cmd i request (.inl (.upstream q)) o) :: post) s ∧
    ∃ pre₁ t' pre₂,
      pre = pre₁ ++ (t', .cmd i request (.inr ⟨q.service, .canExecute⟩) (.ok true)) :: pre₂ ∧
      (∀ e ∈ pre₂, e.2.index ≠ i) ∧
      ((trailingFailures (breakerCalls q.service pre₁)).length < 5 ∨
        ∃ u ∈ (trailingFailures (breakerCalls q.service pre₁)).head?, u + 30 < t') := by
  obtain ⟨s, hr⟩ := run_failingSearches
  obtain ⟨e, he, hsent⟩ := List.any_eq_true.mp (show failingSearches.any isSent = true by decide +kernel)
  obtain ⟨t, i, request, q, o, rfl⟩ := of_isSent hsent
  obtain ⟨pre, post, hsplit⟩ := List.append_of_mem he
  rw [hsplit] at hr
  exact ⟨pre, t, i, request, q, o, post, s, hr, sent_after_pass _ pre post s t i request q o hr⟩

/-- The breaker of a service has refused a request. -/
def isBlocked (service : String) : Op ClientCmd ClientReply → Bool
  | ⟨.inr ⟨name, .canExecute⟩, .ok false⟩ => name == service
  | _ => false

theorem of_isBlocked {service : String} {op : Op ClientCmd ClientReply} (h : isBlocked service op = true) :
    op = blocked service := by
  unfold isBlocked at h
  split at h
  · obtain rfl := beq_iff_eq.mp h
    rfl
  · exact absurd h (by simp)

/-- The last event is that a request returns which a breaker has refused. -/
def endsBlocked (service : String) (es : List BreakerEvent) : Bool :=
  match es.getLast? with
  | some (_, .finish i _ _) => (ownOps i (es.dropLast.map Prod.snd)).any (isBlocked service)
  | _ => false

theorem blocked_answered_failingSearches : ∃ pre t i request response s,
    (breakerApi fun _ => true).Run (pre ++ [(t, .finish i request response)]) s ∧
    (∃ detail, response.answer = badGateway detail) ∧
      ∀ op ∈ ownOps i (pre.map Prod.snd), ∀ q, op.1 ≠ .inl (.upstream q) := by
  obtain ⟨s, hr⟩ := run_failingSearches
  have hends : endsBlocked "parser" failingSearches = true := by decide +kernel
  unfold endsBlocked at hends
  split at hends
  · next t i request response hlast =>
    obtain ⟨pre, hpre⟩ := List.getLast?_eq_some_iff.mp hlast
    rw [hpre, List.dropLast_concat] at hends
    obtain ⟨op, hop, hblocked⟩ := List.any_eq_true.mp hends
    obtain rfl := of_isBlocked hblocked
    rw [hpre] at hr
    exact ⟨pre, t, i, request, response, s, hr, blocked_answered _ pre [] s t i request response _ hr hop⟩
  · exact absurd hends (by simp)

end Legacy

end TaxlienGateway
