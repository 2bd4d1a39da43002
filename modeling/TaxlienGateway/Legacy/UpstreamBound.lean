import TaxlienGateway.Framework.Accounting
import TaxlienGateway.Legacy.ApiConduct
import TaxlienGateway.Legacy.DailyQuota

/-!
# Daily limits and upstream traffic

How many requests of a caller, of one tier and on one day, reach the Parser service.

A request for the details of a property is forwarded only after its own `INCR` has been answered with a
rank up to the limit, and ranks are different: so the limit bounds what is forwarded. The routes that
search by address or owner forward nothing, since no tier has a limit for their feature. But
`GET /v1/properties` declares no guard, and every request to it is forwarded.

* `bounds_upstream` — the limits bound the traffic in every run in which a caller makes no more requests
  to `GET /v1/properties` than its limit for searches allows;
* `searches_unbounded` — and not in others.
-/

namespace TaxlienGateway

open Framework

namespace Legacy

/-- The routes that search for properties. -/
def Route.isSearch : Route → Bool
  | search_properties _ => true
  | search_by_address _ => true
  | search_by_owner _ => true
  | _ => false

/-- The one of them without a guard. -/
def Route.isSearchProperties : Route → Bool
  | search_properties _ => true
  | _ => false

/-- The route that shows one property. -/
def Route.isDetails : Route → Bool
  | get_property _ => true
  | _ => false

/-- The request is one of the caller's on that day, to one of the given routes. -/
def ApiRequest.isOf (routes : Route → Bool) (caller : String) (today : Date) (request : ApiRequest) :
    Bool :=
  routes request.route && request.caller? == some caller && request.today == today

/-- Such a request is forwarded to the Parser service. -/
def forwards (routes : Route → Bool) (caller : String) (today : Date) : ApiEvent → Bool
  | (_, .cmd _ request (.upstream r) o) =>
    request.isOf routes caller today && r.service == "parser" && o.effect.isSome
  | _ => false

/-- A request of the caller's to `GET /v1/properties` arrives. -/
def arrives (caller : String) (today : Date) : ApiEvent → Bool
  | (_, .start _ request) => request.isOf Route.isSearchProperties caller today
  | _ => false

/-- The caller's daily limits bound what is forwarded. -/
structure BoundsUpstream (caller : String) (tier : UserTier) (today : Date) (es : List ApiEvent) :
    Prop where
  search : ∀ L : ℕ, 0 < L → limitFor tier "daily_search" = L →
    es.countP (forwards Route.isSearch caller today) ≤ L
  details : ∀ L : ℕ, 0 < L → limitFor tier "daily_details" = L →
    es.countP (forwards Route.isDetails caller today) ≤ L

theorem ApiRequest.isOf_iff {routes : Route → Bool} {caller : String} {today : Date}
    {request : ApiRequest} : request.isOf routes caller today = true ↔
      routes request.route = true ∧ request.caller? = some caller ∧ request.today = today := by
  unfold ApiRequest.isOf
  rw [Bool.and_eq_true, Bool.and_eq_true, beq_iff_eq, beq_iff_eq, and_assoc]

theorem of_forwards {routes : Route → Bool} {caller : String} {today : Date} {e : ApiEvent}
    (h : forwards routes caller today e = true) :
    ∃ t i request r o, e = (t, .cmd i request (.upstream r) o) ∧
      request.isOf routes caller today = true := by
  obtain ⟨t, e⟩ := e
  cases e with
  | cmd i request c o =>
    cases c with
    | upstream r =>
      obtain ⟨h, -⟩ := Bool.and_eq_true_iff.mp h
      exact ⟨t, i, request, r, o, rfl, (Bool.and_eq_true_iff.mp h).1⟩
    | _ => exact absurd h (by simp [forwards])
  | start i request => exact absurd h (by simp [forwards])
  | finish i request response => exact absurd h (by simp [forwards])
  | crash i request => exact absurd h (by simp [forwards])

/-- What a request has asked is in its own history, since it was last started. -/
theorem not_forwards_of_unasked {routes : Route → Bool} {caller : String} {today : Date} {i : ℕ}
    {pre₁ pre₂ : List ApiEvent} {g : ApiEvent}
    (hstart : ∀ t' request, (t', Event.start i request) ∉ pre₂)
    (hunasked : Unasked (ownOps i ((pre₁ ++ g :: pre₂).map Prod.snd))) :
    ∀ e ∈ pre₂, forwards routes caller today e = true → e.2.index ≠ i := by
  intro e he hforwards hindex
  obtain ⟨t, j, request, r, o, rfl, -⟩ := of_forwards hforwards
  obtain rfl : j = i := hindex
  obtain ⟨post₁, post₂, rfl⟩ := List.append_of_mem he
  refine hunasked ⟨.upstream r, o.seen⟩ ?_ r rfl
  rw [← List.cons_append, ← List.append_assoc]
  exact mem_ownOps_of_split fun t' call' hmem =>
    hstart t' call' (List.mem_append_right _ (List.mem_cons_of_mem _ hmem))

/-! ### What a forwarded request has behind it -/

section Paid

variable {es pre post : List ApiEvent} {e : ApiEvent}
  {s : ℚ × Pool Await AwaitReply ApiRequest (fun _ => ApiResponse) Backends}
  {caller : String} {tier : UserTier} {today : Date} {L : ℕ}

/-- The requests of the caller are of one tier. -/
def OfTier (caller : String) (tier : UserTier) (es : List ApiEvent) : Prop :=
  ∀ e ∈ es, e.2.call.caller? = some caller → e.2.call.tier = tier

/-- The call of `check_and_increment` of a request to a guarded route. -/
theorem ApiRequest.usage?_eq {request : ApiRequest} {feature : String}
    (hfeature : request.route.feature? = some feature) (hcaller : request.caller? = some caller) :
    request.usage? = some ⟨⟨caller, feature, request.today⟩, request.tier⟩ := by
  unfold ApiRequest.usage?
  rw [hfeature, hcaller]
  rfl

/-- **Details.** The count of the request itself lets it through. -/
theorem paid_details (hr : publicApi.Run es s) (htier : OfTier caller tier es)
    (hday : OnItsDay ApiRequest.usage? ⟨caller, "daily_details", today⟩ es) (hL : 0 < L)
    (hlimit : limitFor tier "daily_details" = L) (hes : es = pre ++ e :: post)
    (he : forwards Route.isDetails caller today e = true) :
    Paid (counts ApiRequest.usage? ⟨caller, "daily_details", today⟩)
      (forwards Route.isDetails caller today) (fun e => e.2.index) L pre e := by
  obtain ⟨t, i, request, r, o, rfl, hof⟩ := of_forwards he
  obtain ⟨hroute, hcaller, rfl⟩ := ApiRequest.isOf_iff.mp hof
  obtain ⟨s₀, th, h₀, hth, rfl, hrule⟩ := dispatch_obeyed.guarded_timed (hes ▸ hr)
  obtain ⟨hunasked, hadmitted⟩ := hrule.forward
  -- the guard has let the request through
  have hfeature : th.call.route.feature? = some "daily_details" := by
    revert hroute
    cases th.call.route <;> simp [Route.isDetails, Route.feature?]
  have husage := ApiRequest.usage?_eq hfeature hcaller
  have hlim : limitFor th.call.tier "daily_details" = L := by
    rw [← hlimit, ← htier (t, .cmd i th.call (.upstream r) o)
      (hes ▸ List.mem_append_right _ List.mem_cons_self) hcaller]
    rfl
  rcases hadmitted with hnone | ⟨u, hu, hends⟩
  · exact absurd (hnone.symm.trans hfeature) (by simp)
  obtain rfl := Option.some.inj (husage.symm.trans hu)
  rcases hends with ⟨hunlimited, -⟩ | ⟨-, hfalse⟩ | ⟨-, -, n, hown, hn⟩
  · exact absurd (hlim.symm.trans hunlimited) (by omega)
  · exact absurd hfalse (by decide)
  -- its rank is within the limit
  obtain ⟨pre₁, t', o', pre₂, hpre, hseen, hstart⟩ := exists_split_of_mem_ownOps h₀ i th hth _ hown
  have hcounts : counts ApiRequest.usage? ⟨caller, "daily_details", th.call.today⟩
      ((t', .cmd i th.call (.incr (Tally.key ⟨caller, "daily_details", th.call.today⟩)) o') :
        ApiEvent) = true := by
    rw [counts_incr (Outcome.effect_of_seen hseen) husage]
    exact decide_eq_true rfl
  have hrank := publicApi_reply (show ':' ∉ "daily_details".toList by decide) (hpre ▸ h₀)
    (fun e he => hday e (hes ▸ List.mem_append_left _ (hpre ▸ he))) hcounts
  rw [Outcome.effect_of_seen hseen] at hrank
  obtain rfl := Except.ok.inj (Option.some.inj hrank)
  have hle : ((counted ApiRequest.usage? ⟨caller, "daily_details", th.call.today⟩ pre₁ + 1 : ℕ) : ℤ) ≤ L := by
    rw [← hlim]
    exact of_decide_eq_true hn.symm
  refine ⟨pre₁, _, pre₂, hpre, hcounts, ?_, rfl, ?_⟩
  · exact Nat.lt_of_succ_le (Int.ofNat_le.mp hle)
  · exact not_forwards_of_unasked hstart (hpre ▸ hunasked)

/-- **Searches.** Only the route without a guard forwards anything. -/
theorem paid_search (hr : publicApi.Run es s) (harrives : es.countP (arrives caller today) ≤ L)
    (hes : es = pre ++ e :: post) (he : forwards Route.isSearch caller today e = true) :
    Paid (arrives caller today) (forwards Route.isSearch caller today) (fun e => e.2.index) L pre e := by
  obtain ⟨t, i, request, r, o, rfl, hof⟩ := of_forwards he
  obtain ⟨hroute, hcaller, rfl⟩ := ApiRequest.isOf_iff.mp hof
  obtain ⟨s₀, th, h₀, hth, rfl, hrule⟩ := dispatch_obeyed.guarded_timed (hes ▸ hr)
  obtain ⟨hunasked, hadmitted⟩ := hrule.forward
  obtain ⟨pre₁, t', pre₂, hpre, hstart⟩ := exists_start_of_thread h₀ i th hth
  -- no tier has a limit for the other two
  have hsearch : th.call.route.feature? = none := by
    rcases hadmitted with hnone | ⟨u, hu, hends⟩
    · exact hnone
    · have hfeature : th.call.route.feature? = none ∨ th.call.route.feature? = some "search" := by
        revert hroute
        cases th.call.route <;> simp [Route.isSearch, Route.feature?]
      rcases hfeature with hfeature | hfeature
      · exact hfeature
      · obtain rfl := Option.some.inj ((ApiRequest.usage?_eq hfeature hcaller).symm.trans hu)
        have hzero : limitFor th.call.tier "search" = 0 := by
          cases th.call.tier <;> rfl
        rcases hends with ⟨hunlimited, -⟩ | ⟨-, hfalse⟩ | ⟨-, hne, -⟩
        · exact absurd (hzero.symm.trans hunlimited) (by decide)
        · exact absurd hfalse (by decide)
        · exact absurd hzero hne
  have harrival : arrives caller th.call.today ((t', .start i th.call) : ApiEvent) = true := by
    refine ApiRequest.isOf_iff.mpr ⟨?_, hcaller, rfl⟩
    revert hroute hsearch
    cases th.call.route <;> simp [Route.isSearch, Route.isSearchProperties, Route.feature?]
  refine ⟨pre₁, _, pre₂, hpre, harrival, ?_, rfl, not_forwards_of_unasked hstart (hpre ▸ hunasked)⟩
  -- this arrival is one of the `L`
  rw [hes, hpre, List.append_assoc, List.countP_append, List.cons_append, List.countP_cons,
    if_pos harrival] at harrives
  omega

end Paid

/-- **Daily limits bound upstream traffic**, where a caller makes no more requests to
`GET /v1/properties` than its limit for searches allows. A request reads the date right before its
`INCR` is executed. -/
theorem bounds_upstream (caller : String) (tier : UserTier) (today : Date) (es : List ApiEvent)
    (s : ℚ × Pool Await AwaitReply ApiRequest (fun _ => ApiResponse) Backends)
    (hr : publicApi.Run es s) (htier : OfTier caller tier es)
    (hday : OnItsDay ApiRequest.usage? ⟨caller, "daily_details", today⟩ es)
    (harrives : ∀ L : ℕ, 0 < L → limitFor tier "daily_search" = L →
      es.countP (arrives caller today) ≤ L) : BoundsUpstream caller tier today es := by
  constructor
  case search =>
    intro L hL hlimit
    exact countP_le_of_paid fun pre e post hes he => paid_search hr (harrives L hL hlimit) hes he
  case details =>
    intro L hL hlimit
    exact countP_le_of_paid fun pre e post hes he => paid_details hr htier hday hL hlimit hes he

/-! ### The requests of a guest -/

/-- A request of a guest on the day of `guestTally`, `n` times ten seconds into it. -/
def guestRequest (route : Route) (n : ℕ) : ℚ × ApiRequest :=
  let time : ℚ := guestTally.today.epochDay * 86400 + 10 * n
  (time, ⟨none, none, .anonymous, some guestTally.user_id, none, route, guestTally.today, time⟩)

/-- The history of a guest's requests, one after the other. -/
def guestHistory (routes : List Route) : List ApiEvent :=
  timedSession backends ApiRequest.dispatch (routes.zipIdx.map fun r => guestRequest r.1 r.2) .blank

/-- A guest makes its requests one after the other. -/
theorem isChain_guestRequest (routes : List Route) :
    List.IsChain (· ≤ ·) (0 :: (routes.zipIdx.map fun r => guestRequest r.1 r.2).map Prod.fst) := by
  suffices h : ∀ (n : ℕ) (t₀ : ℚ), t₀ ≤ guestTally.today.epochDay * 86400 + 10 * n →
      List.IsChain (· ≤ ·) (t₀ :: ((routes.zipIdx n).map fun r => guestRequest r.1 r.2).map Prod.fst) from
    h 0 0 (by decide +kernel)
  induction routes with
  | nil => exact fun n t₀ _ => List.isChain_singleton t₀
  | cons route routes ih =>
    intro n t₀ ht
    refine List.isChain_cons_cons.mpr ⟨ht, ih (n + 1) _ ?_⟩
    show (guestTally.today.epochDay * 86400 + 10 * n : ℚ) ≤ _
    push_cast
    linarith

/-- The history of a guest is a run. -/
theorem run_guests (routes : List Route) {s : Backends} (hs : s.Fresh) :
    ∃ s', publicApi.Run (timedSession backends ApiRequest.dispatch
      (routes.zipIdx.map fun r => guestRequest r.1 r.2) s) s' := by
  obtain ⟨t, hr⟩ : ∃ t, publicApi.Run _ (t, _) := run_timedSession _ hs (isChain_guestRequest routes)
  exact ⟨_, hr⟩

/-- Twelve requests for details and five searches. -/
def modestGuest : List Route :=
  List.replicate 12 (.get_property "p1") ++ List.replicate 5 (.search_properties [])

theorem fresh_blank : Backends.blank.Fresh := fun _ _ => rfl

theorem modestGuest_bounded :
    BoundsUpstream guestTally.user_id .anonymous guestTally.today (guestHistory modestGuest) := by
  obtain ⟨s, hr⟩ : ∃ s, publicApi.Run (guestHistory modestGuest) s := run_guests _ fresh_blank
  refine bounds_upstream _ _ _ _ _ hr ?_ ?_ ?_
  · unfold OfTier
    decide +kernel
  · unfold OnItsDay
    decide +kernel
  · intro L _ hlimit
    obtain rfl : L = 5 := by
      have hlimit : (5 : ℤ) = L := hlimit
      omega
    decide +kernel

/-- Six searches. -/
def eagerGuest : List Route := List.replicate 6 (.search_properties [("county", "Pima")])

/-- **Searches are not bounded**: the limit of a guest is five a day, and six are forwarded. -/
theorem searches_unbounded : ∃ s, publicApi.Run (guestHistory eagerGuest) s ∧
    OfTier guestTally.user_id .anonymous (guestHistory eagerGuest) ∧
    OnItsDay ApiRequest.usage? ⟨guestTally.user_id, "daily_details", guestTally.today⟩
      (guestHistory eagerGuest) ∧
    ¬ BoundsUpstream guestTally.user_id .anonymous guestTally.today (guestHistory eagerGuest) := by
  obtain ⟨s, hr⟩ : ∃ s, publicApi.Run (guestHistory eagerGuest) s := run_guests _ fresh_blank
  refine ⟨_, hr, ?_, ?_, ?_⟩
  · unfold OfTier
    decide +kernel
  · unfold OnItsDay
    decide +kernel
  · intro hbounds
    have hle := hbounds.search 5 (by decide) rfl
    exact absurd hle (by decide +kernel)

end Legacy

end TaxlienGateway
