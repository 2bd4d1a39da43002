import TaxlienGateway.Legacy.PublicApi

/-!
# The conduct of the public API

What a request may do at each point, given what it has been answered so far, is `ApiRule`:

* it touches the keys of the tracker as `UsageRule` says;
* it writes to the cache only what it has itself been answered, with status 200, for its parcel and tier
  (`CacheRule`);
* it asks an upstream service only once, and only if its daily limit let it through (`ForwardRule`).

`dispatch_obeys` says that every request keeps to it, and what two of the answers mean
(`ApiRequest.Ends`): a refusal by a daily limit, and a hit.
-/

namespace TaxlienGateway

open Framework

namespace Legacy

/-! ### The rule -/

/-- The keys of the cache. -/
def IsCacheKey (key : String) : Prop := "cache:prop:".toList <+: key.toList

/-- What a request may do with the keys of the cache. -/
def CacheRule (request : ApiRequest) (own : List (Op Await AwaitReply)) : Await → Prop
  | .setex key ttl content => ∃ parcel_id, request.route = .get_property parcel_id ∧
      key = cacheKey parcel_id request.tier ∧ ttl = 3600 ∧ ∃ contentType,
        (⟨.upstream (request.propertyRequest parcel_id), .ok ⟨200, content, contentType⟩⟩ :
          Op Await AwaitReply) ∈ own
  | c => ∀ key, c.key? = some key → ¬ IsCacheKey key

/-- Nothing has been asked of an upstream service. -/
def Unasked (own : List (Op Await AwaitReply)) : Prop :=
  ∀ op ∈ own, ∀ request, op.1 ≠ .upstream request

/-- The daily limit has let the request through, or there is none. -/
def ApiRequest.Admitted (request : ApiRequest) (own : List (Op Await AwaitReply)) : Prop :=
  request.route.feature? = none ∨ ∃ u ∈ request.usage?, u.Ends own (.ok true)

/-- When a request may ask an upstream service. -/
def ForwardRule (request : ApiRequest) (own : List (Op Await AwaitReply)) : Await → Prop
  | .upstream _ => Unasked own ∧ request.Admitted own
  | _ => True

/-- The rule of a request. -/
structure ApiRule (request : ApiRequest) (own : List (Op Await AwaitReply)) (c : Await) : Prop where
  usage : UsageRule request.usage? own c
  cache : CacheRule request own c
  forward : ForwardRule request own c

/-- What a refusal by a daily limit and a hit say about a request. -/
structure ApiRequest.Ends (request : ApiRequest) (own : List (Op Await AwaitReply))
    (answer : Answer) : Prop where
  refused : ∀ feature, answer = tierLimitExceeded feature →
    request.route.feature? = some feature ∧ ∃ u ∈ request.usage?, u.Ends own (.ok false)
  hit : ∀ content status_code mediaType,
    answer = .response content status_code mediaType (some "HIT") →
    ∃ parcel_id, request.route = .get_property parcel_id ∧
      (⟨.get (cacheKey parcel_id request.tier), .ok (.ok (some content))⟩ : Op Await AwaitReply) ∈ own

/-! ### Keys -/

theorem isCacheKey_cacheKey (parcel_id : String) (tier : UserTier) :
    IsCacheKey (cacheKey parcel_id tier) := by
  unfold IsCacheKey cacheKey
  simp only [String.toList_append, List.append_assoc]
  exact List.prefix_append _ _

theorem prefix_rateLimitKey (identifier tier : String) :
    "ratelimit:".toList <+: (rateLimitKey identifier tier).toList := by
  unfold rateLimitKey
  simp only [String.toList_append, List.append_assoc]
  exact List.prefix_append _ _

theorem not_isUsageKey_cacheKey (parcel_id : String) (tier : UserTier) :
    ¬ IsUsageKey (cacheKey parcel_id tier) :=
  not_prefix_of_prefix (isCacheKey_cacheKey parcel_id tier) (by decide) (by decide)

theorem not_isUsageKey_rateLimitKey (identifier tier : String) :
    ¬ IsUsageKey (rateLimitKey identifier tier) :=
  not_prefix_of_prefix (prefix_rateLimitKey identifier tier) (by decide) (by decide)

theorem not_isCacheKey_rateLimitKey (identifier tier : String) :
    ¬ IsCacheKey (rateLimitKey identifier tier) :=
  not_prefix_of_prefix (prefix_rateLimitKey identifier tier) (by decide) (by decide)

theorem Tally.not_isCacheKey_key (q : Tally) : ¬ IsCacheKey q.key :=
  not_prefix_of_prefix q.isUsageKey_key (by decide) (by decide)

/-! ### Commands that are always allowed -/

variable {request : ApiRequest} {own : List (Op Await AwaitReply)}

theorem apiRule_get (key : String) : ApiRule request own (.get key) where
  usage := fun _ h => absurd h (by simp [Await.key?])
  cache := fun _ h => absurd h (by simp [Await.key?])
  forward := trivial

theorem apiRule_tokenBucket (identifier tier : String) (clock rate burst requested : ℚ) :
    ApiRule request own (.tokenBucket (rateLimitKey identifier tier) clock rate burst requested) where
  usage := fun _ h => Option.some.inj h ▸ not_isUsageKey_rateLimitKey identifier tier
  cache := fun _ h => Option.some.inj h ▸ not_isCacheKey_rateLimitKey identifier tier
  forward := trivial

/-- The commands of the guard. -/
theorem apiRule_of_usageRule {u : UsageCall} {c : Await} (hu : request.usage? = some u)
    (h : UsageRule (some u) own c) (hkey : c.key? = some u.tally.key) : ApiRule request own c := by
  refine ⟨hu ▸ h, ?_, ?_⟩
  · cases c with
    | setex key ttl content => exact absurd u.tally.isUsageKey_key (h _ hkey)
    | _ => exact fun key hkey' => Option.some.inj (hkey.symm.trans hkey') ▸ u.tally.not_isCacheKey_key
  · cases c with
    | upstream r => exact absurd hkey (by simp [Await.key?])
    | _ => trivial

/-! ### Longer histories -/

theorem Unasked.append (h : Unasked own) {c : Await} (hc : ∀ r, c ≠ .upstream r)
    {r : Except String (AwaitReply c)} : Unasked (own ++ [⟨c, r⟩]) := by
  intro op hop
  rcases List.mem_append.mp hop with hop | hop
  · exact h op hop
  · obtain rfl := List.mem_singleton.mp hop
    exact hc

theorem UsageCall.Ends.append {u : UsageCall} {b : Bool} (h : u.Ends own (.ok b))
    (op : Op Await AwaitReply) : u.Ends (own ++ [op]) (.ok b) := by
  rcases h with h | h | ⟨hunlimited, hzero, n, hn, hb⟩
  · exact .inl h
  · exact .inr (.inl h)
  · exact .inr (.inr ⟨hunlimited, hzero, n, List.mem_append_left _ hn, hb⟩)

theorem ApiRequest.Admitted.append (h : request.Admitted own) (op : Op Await AwaitReply) :
    request.Admitted (own ++ [op]) := by
  rcases h with h | ⟨u, hu, hends⟩
  · exact .inl h
  · exact .inr ⟨u, hu, hends.append op⟩

/-! ### Answers that say nothing -/

/-- The feature can be read off the message of a refusal. -/
theorem tierLimitExceeded_inj {feature feature' : String}
    (h : tierLimitExceeded feature = tierLimitExceeded feature') : feature = feature' := by
  unfold tierLimitExceeded httpException at h
  simp only [Answer.json.injEq, true_and, Json.obj.injEq, List.cons.injEq, Prod.mk.injEq, and_true,
    Json.str.injEq] at h
  have hl := congrArg String.toList h
  simp only [String.toList_append, List.append_assoc] at hl
  exact String.toList_inj.mp (List.append_cancel_right (List.append_cancel_left hl))


theorem ends_raised (e : String) : request.Ends own (.raised e) where
  refused := fun _ h => absurd h (by simp [tierLimitExceeded, httpException])
  hit := fun _ _ _ h => absurd h (by simp)

theorem ends_json {status_code : ℕ} (content : Json) (h : status_code ≠ 403) :
    request.Ends own (.json status_code content) where
  refused := fun _ heq => absurd (Answer.json.inj heq).1 h
  hit := fun _ _ _ h => absurd h (by simp)

theorem ends_response {content : ByteArray} {status_code : ℕ} {mediaType xCache : Option String}
    (h : xCache ≠ some "HIT") : request.Ends own (.response content status_code mediaType xCache) where
  refused := fun _ heq => absurd heq (by simp [tierLimitExceeded, httpException])
  hit := fun _ _ _ heq => absurd (Answer.response.inj heq).2.2.2 h

theorem ends_badGateway (detail : String) : request.Ends own (badGateway detail) :=
  ends_json _ (by decide)

/-! ### Stage by stage -/

/-- **Rule for `orFail`.** -/
theorem obeys_orFail {G : List (Op Await AwaitReply) → Await → Prop}
    {Q : List (Op Await AwaitReply) → Answer → Prop} {α : Type}
    {Q' : List (Op Await AwaitReply) → Except String α → Prop}
    {p : Prog Await AwaitReply (Except String α)} {fail : String → Answer}
    {k : α → Prog Await AwaitReply Answer} (hp : p.Obeys G Q' own)
    (hfail : ∀ own e, Q' own (.error e) → Q own (fail e))
    (hk : ∀ own a, Q' own (.ok a) → (k a).Obeys G Q own) : (orFail p fail k).Obeys G Q own := by
  refine hp.bind fun own r hr => ?_
  match r with
  | .error e => exact hfail own e hr
  | .ok a => exact hk own a hr

/-- One command, and what its issuer sees. -/
theorem obeys_issue {G : List (Op Await AwaitReply) → Await → Prop} {c : Await} (h : G own c) :
    (Prog.issue c).Obeys G (fun own' r => own' = own ++ [⟨c, r⟩]) own :=
  ⟨h, fun _ => rfl⟩

/-- Passing on what an upstream service answers. -/
theorem obeys_proxy {r : UpstreamRequest} {detail : String} (hunasked : Unasked own)
    (hadmitted : request.Admitted own) :
    (proxy r detail).Obeys (ApiRule request) request.Ends own := by
  refine obeys_orFail (obeys_issue ?_) (fun _ _ _ => ends_badGateway detail)
    (fun _ _ _ => ends_response (by simp))
  exact ⟨fun _ h => absurd h (by simp [Await.key?]), fun _ h => absurd h (by simp [Await.key?]),
    hunasked, hadmitted⟩

/-- What `GET` shows has been answered by Redis. -/
theorem of_decodeResponse {r : Except String (Except String (Option ByteArray))} {data : String}
    (h : decodeResponse (raiseError r) = .ok (some data)) : r = .ok (.ok (some data.toByteArray)) := by
  match r with
  | .error e => exact absurd h (by simp [raiseError, decodeResponse])
  | .ok (.error e) => exact absurd h (by simp [raiseError, decodeResponse])
  | .ok (.ok none) => exact absurd h (by simp [raiseError, decodeResponse])
  | .ok (.ok (some b)) =>
    have h : decodeResponse (.ok (some b)) = .ok (some data) := h
    by_cases hvalid : b.IsValidUTF8
    · -- the bytes of the text that was decoded are the bytes that were answered
      have hdata := decodeResponse_toByteArray (.ofByteArray b hvalid)
      obtain rfl := Option.some.inj (Except.ok.inj (hdata.symm.trans h))
      rfl
    · exact absurd ((decodeResponse_of_not_valid hvalid).symm.trans h) (by simp)

/-- `get_property` when the cache has nothing. -/
theorem fetchProperty_obeys {parcel_id : String} (hroute : request.route = .get_property parcel_id)
    (hunasked : Unasked own) (hadmitted : request.Admitted own) :
    (request.fetchProperty parcel_id).Obeys (ApiRule request) request.Ends own := by
  have hmiss : ∀ (own : List (Op Await AwaitReply)) (response : UpstreamResponse), request.Ends own
      (.response response.content response.status_code response.contentType (some "MISS")) :=
    fun _ _ => ends_response (by simp)
  refine obeys_orFail (obeys_issue ?_) (fun _ _ _ => ends_badGateway _) ?_
  · exact ⟨fun _ h => absurd h (by simp [Await.key?]), fun _ h => absurd h (by simp [Await.key?]),
      hunasked, hadmitted⟩
  · intro own' response hown
    obtain ⟨status_code, content, contentType⟩ := response
    by_cases hstatus : status_code = 200
    · -- what is stored is what was answered
      subst hstatus
      change (orFail _ _ _).Obeys _ _ _
      refine obeys_orFail (obeys_issue ?_) (fun _ _ _ => ends_badGateway _) (fun _ _ _ => hmiss _ _)
      refine ⟨fun key h => Option.some.inj h ▸ not_isUsageKey_cacheKey parcel_id request.tier, ?_, trivial⟩
      exact ⟨parcel_id, hroute, rfl, rfl, contentType, by rw [hown]; simp⟩
    · change (if status_code = 200 then _ else _ : Prog Await AwaitReply Answer).Obeys _ _ _
      rw [if_neg hstatus]
      exact hmiss own' ⟨status_code, content, contentType⟩

/-- A `GET`, and what its issuer sees. -/
theorem obeys_get (key : String) : (get key).Obeys (ApiRule request)
    (fun own' r => ∃ r₀, own' = own ++ [⟨.get key, r₀⟩] ∧ r = decodeResponse (raiseError r₀)) own :=
  ⟨apiRule_get key, fun r₀ => ⟨r₀, rfl, rfl⟩⟩

theorem getProperty_obeys {parcel_id : String} (hroute : request.route = .get_property parcel_id)
    (hunasked : Unasked own) (hadmitted : request.Admitted own) :
    (request.getProperty parcel_id).Obeys (ApiRule request) request.Ends own := by
  refine obeys_orFail (obeys_get _) (fun _ e _ => ends_raised e) ?_
  rintro own' cached_data ⟨r₀, rfl, hr₀⟩
  cases hdata : truthy cached_data with
  | some data =>
    -- the hit is what `GET` has just answered
    obtain rfl := eq_some_of_truthy hdata
    refine ⟨fun _ h => absurd h (by simp [tierLimitExceeded, httpException]), ?_⟩
    intro content status_code mediaType h
    obtain ⟨rfl, -⟩ := Answer.response.inj h
    refine ⟨parcel_id, hroute, ?_⟩
    rw [of_decodeResponse hr₀.symm]
    simp
  | none => exact fetchProperty_obeys hroute (hunasked.append (by simp)) (hadmitted.append _)

/-- The two counters of a user are only read. -/
theorem getUserUsage_obeys (user_id : String) (today : Date) {k : List (String × Json) → Answer}
    (hk : ∀ own results, request.Ends own (k results)) : ∀ (features : List String)
    (results : List (String × Json)) (own : List (Op Await AwaitReply)),
    (getUserUsage user_id today k features results).Obeys (ApiRule request) request.Ends own := by
  intro features
  induction features with
  | nil => exact fun results own => hk own results
  | cons feature features ih =>
    intro results own
    unfold getUserUsage
    refine obeys_orFail (obeys_get _) (fun _ e _ => ends_raised e) fun own' val _ => ?_
    cases truthy val with
    | none => exact ih _ _
    | some text =>
      -- a counter that is no number raises
      cases hn : readInt? text.toList with
      | none =>
        simp only [hn]
        exact ends_raised _
      | some n =>
        simp only [hn]
        exact ih _ _

/-- **The handlers**, after the guard. -/
theorem handle_obeys (hunasked : Unasked own) (hadmitted : request.Admitted own) :
    request.handle.Obeys (ApiRule request) request.Ends own := by
  unfold ApiRequest.handle
  split
  · next parcel_id hroute => exact getProperty_obeys hroute hunasked hadmitted
  · exact obeys_proxy hunasked hadmitted
  · exact obeys_proxy hunasked hadmitted
  · exact obeys_proxy hunasked hadmitted
  · next body hroute =>
    cases body with
    | none => exact ends_json _ (by decide)
    | some body => exact obeys_proxy hunasked hadmitted
  · exact obeys_proxy hunasked hadmitted
  · exact getUserUsage_obeys _ _ (fun _ _ => ends_json _ (by decide)) _ _ _

/-- **The guard.** It asks nothing of an upstream service, and the handler behind it runs only when it
has let the request through. -/
theorem enforceTier_obeys {feature : String} (hfeature : request.route.feature? = some feature)
    (hunasked : Unasked own) :
    (request.enforceTier feature request.handle).Obeys (ApiRule request) request.Ends own := by
  unfold ApiRequest.enforceTier
  cases hcaller : request.caller? with
  | none => exact ends_raised _
  | some user_id =>
    have husage : request.usage? = some ⟨⟨user_id, feature, request.today⟩, request.tier⟩ := by
      unfold ApiRequest.usage?
      rw [hfeature, hcaller]
      rfl
    -- the commands of the guard are allowed, and none of them asks
    have hguard : (UsageCall.checkAndIncrement _).Obeys
        (fun own c => ApiRule request own c ∧ ∀ r, c ≠ .upstream r) _ own :=
      UsageCall.checkAndIncrement_obeys fun own c h hkey =>
        ⟨apiRule_of_usageRule husage h hkey, fun r hc => absurd (hc ▸ hkey) (by simp [Await.key?])⟩
    have hguard := (hguard.and_preserved hunasked fun own c r hc hun => hun.append hc.2).mono
      (fun _ _ h => h.1) (fun _ _ h => h)
    refine obeys_orFail hguard (fun _ e _ => ends_raised e) ?_
    rintro own allowed ⟨hends, hunasked⟩
    cases allowed with
    | true => exact handle_obeys hunasked (.inr ⟨_, husage, hends⟩)
    | false =>
      refine ⟨fun feature' h => ?_, fun _ _ _ h => absurd h (by simp [tierLimitExceeded, httpException])⟩
      obtain rfl := tierLimitExceeded_inj h
      exact ⟨hfeature, _, husage, hends⟩

/-! ### The whole request -/

/-- What the rate limiter asks. -/
abbrev ApiRequest.bucketCall (request : ApiRequest) : Await :=
  .tokenBucket (rateLimitKey request.identifier request.tier.value) request.time
    (limitsOf request.tier.value).1 (limitsOf request.tier.value).2 1

/-- **Rule for the middleware.** The rate limiter asks first; what it does not answer itself, the route
does. -/
theorem obeys_dispatch {G : List (Op Await AwaitReply) → Await → Prop}
    {Q : List (Op Await AwaitReply) → Answer → Prop} (hG : G [] request.bucketCall)
    (hraised : ∀ r e, Q [⟨request.bucketCall, r⟩] (.raised e))
    (hlimited : ∀ r, Q [⟨request.bucketCall, r⟩] rateLimitExceeded)
    (hendpoint : ∀ r, request.endpoint.Obeys G Q [⟨request.bucketCall, r⟩]) :
    request.dispatch.Obeys G (fun own response => Q own response.answer) [] := by
  unfold ApiRequest.dispatch isRateLimitedAt
  simp only [Prog.cmd_bind, Prog.done_bind]
  refine ⟨hG, fun r => ?_⟩
  beta_reduce
  cases raiseError r with
  | error e => exact hraised r e
  | ok reply =>
    obtain ⟨allowed, remaining⟩ := reply
    cases allowed with
    | false => exact hlimited r
    | true =>
      refine (hendpoint r).bind fun own answer hends => ?_
      -- the limiter adds its header to what the route answers
      cases answer with
      | raised e => exact hends
      | response content status_code mediaType xCache => exact hends
      | json status_code content => exact hends

/-- A request is counted at most for its own tally, and answered as `ApiRequest.Ends` says. -/
theorem dispatch_obeys (request : ApiRequest) : request.dispatch.Obeys (ApiRule request)
    (fun own response => request.Ends own response.answer) [] := by
  have hendpoint : ∀ own, Unasked own → request.endpoint.Obeys (ApiRule request) request.Ends own := by
    intro own hunasked
    unfold ApiRequest.endpoint
    split
    · next hnone => exact handle_obeys hunasked (.inl hnone)
    · next feature hfeature => exact enforceTier_obeys hfeature hunasked
  refine obeys_dispatch (apiRule_tokenBucket _ _ _ _ _ _) (fun _ e => ends_raised e)
    (fun _ => ends_json _ (by decide)) fun r => hendpoint _ ?_
  have hunasked : Unasked ([] ++ [⟨request.bucketCall, r⟩]) := Unasked.append (by simp [Unasked]) (by simp)
  exact hunasked

theorem dispatch_obeyed :
    Obeyed ApiRequest.dispatch ApiRule (fun request own response => request.Ends own response.answer) :=
  dispatch_obeys

/-! ### The application -/

/-- No key of the tracker and no key of the cache exists. -/
def Backends.Fresh (s : Backends) : Prop :=
  ∀ key, IsUsageKey key ∨ IsCacheKey key → s.redis.entries key = none

abbrev ApiEvent : Type := TimedEvent fun _ : ApiRequest => ApiResponse

/-- Requests to the public application: any number of them, interleaved command by command; a request
may be cut off between two commands, or see a command fail. -/
def publicApi :
    System (ℚ × Pool Await AwaitReply ApiRequest (fun _ => ApiResponse) Backends) ApiEvent :=
  timedPool backends ApiRequest.dispatch Backends.Fresh

/-- On its day, each execution of an `INCR` for a tally is answered with its rank. -/
theorem publicApi_reply {pre post : List ApiEvent}
    {s : ℚ × Pool Await AwaitReply ApiRequest (fun _ => ApiResponse) Backends} {q : Tally} {t : ℚ} {i : ℕ}
    {request : ApiRequest} {key : String} {o : Outcome (Except String ℤ)} (hq : ':' ∉ q.feature.toList)
    (hr : publicApi.Run (pre ++ (t, .cmd i request (.incr key) o) :: post) s)
    (hday : OnItsDay ApiRequest.usage? q (pre ++ (t, .cmd i request (.incr key) o) :: post))
    (hcounts : counts ApiRequest.usage? q ((t, .cmd i request (.incr key) o) : ApiEvent) = true) :
    o.effect = some (.ok (counted ApiRequest.usage? q pre + 1)) :=
  reply_of_incr dispatch_obeyed (fun _ _ _ h => h.usage) hq
    (fun _ hs => hs _ (.inl q.isUsageKey_key)) hr hday hcounts

end Legacy

end TaxlienGateway
