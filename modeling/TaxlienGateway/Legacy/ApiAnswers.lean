import TaxlienGateway.Legacy.ApiConduct

/-!
# What requests are answered

`RequestRule` lists the commands of a request to the public application: one call of the rate limiter, the
commands of the tracker, reads, one exchange with an upstream service, and one write to the cache after it.
All but the first are made once the rate limiter has let the request through (`DispatchRule`).

`dispatch_answers` says which requests are answered with an error of the gateway itself: with status 502 those
whose exchange, or the write after it, has failed, and with status 429 those that the rate limiter has refused.
-/

namespace TaxlienGateway

open Framework

namespace Legacy

/-- The commands of a request. -/
def RequestRule (request : ApiRequest) (own : List (Op Await AwaitReply)) : Await → Prop
  | .upstream _ => Unasked own
  | .setex key _ _ => (∃ parcel_id, key = cacheKey parcel_id request.tier) ∧
      ∃ q response, own.getLast? = some ⟨.upstream q, .ok response⟩
  | .incr key => ∃ q : Tally, key = q.key
  | .expire key _ => ∃ q : Tally, key = q.key
  | .get _ => True
  | .hset .. => False
  | .tokenBucket key clock rate burst requested =>
      own = [] ∧ Await.tokenBucket key clock rate burst requested = request.bucketCall

/-- The exchange of a request with an upstream service has failed, or what it has been answered could not be
stored. -/
def Failed (own : List (Op Await AwaitReply)) : Prop :=
  ∃ c e, (⟨c, .error e⟩ : Op Await AwaitReply) ∈ own ∧
    ((∃ q, c = .upstream q) ∨ ∃ key ttl content, c = .setex key ttl content)

/-- The rate limiter has refused the request. -/
def Limited (request : ApiRequest) (own : List (Op Await AwaitReply)) : Prop :=
  ∃ n, (⟨request.bucketCall, .ok (.ok (false, n))⟩ : Op Await AwaitReply) ∈ own

/-- The rate limiter has let the request through. -/
def Passed (request : ApiRequest) (own : List (Op Await AwaitReply)) : Prop :=
  ∃ n, (⟨request.bucketCall, .ok (.ok (true, n))⟩ : Op Await AwaitReply) ∈ own

/-- The rule of a request: it asks the rate limiter first. -/
def DispatchRule (request : ApiRequest) (own : List (Op Await AwaitReply)) (c : Await) : Prop :=
  RequestRule request own c ∧ (c = request.bucketCall ∨ Passed request own)

/-- What the errors of the gateway say. -/
structure ApiRequest.Answers (request : ApiRequest) (own : List (Op Await AwaitReply)) (answer : Answer) :
    Prop where
  badGateway : (∃ detail, answer = badGateway detail) ↔ Failed own
  limited : answer = rateLimitExceeded ↔ Limited request own

/-- The same, once the rate limiter has let the request through. -/
structure BadGateway (own : List (Op Await AwaitReply)) (answer : Answer) : Prop where
  iff_failed : (∃ detail, answer = badGateway detail) ↔ Failed own
  ne_limited : answer ≠ rateLimitExceeded

section Conduct

variable {own : List (Op Await AwaitReply)} {request : ApiRequest}

/-! ### Failures -/

theorem failed_append_singleton {op : Op Await AwaitReply} : Failed (own ++ [op]) ↔ Failed own ∨ Failed [op] := by
  unfold Failed
  simp only [List.mem_append]
  constructor
  · rintro ⟨c, e, hmem | hmem, hc⟩
    · exact .inl ⟨c, e, hmem, hc⟩
    · exact .inr ⟨c, e, hmem, hc⟩
  · rintro (⟨c, e, hmem, hc⟩ | ⟨c, e, hmem, hc⟩)
    · exact ⟨c, e, .inl hmem, hc⟩
    · exact ⟨c, e, .inr hmem, hc⟩

/-- A command that was answered. -/
theorem not_failed_ok (c : Await) (r : AwaitReply c) : ¬ Failed [⟨c, .ok r⟩] := by
  rintro ⟨c', e, hmem, -⟩
  obtain ⟨rfl, heq⟩ := Sigma.mk.inj (List.mem_singleton.mp hmem)
  exact absurd (eq_of_heq heq) (by simp)

/-- A command of another kind. -/
theorem not_failed_other {c : Await} (r : Except String (AwaitReply c)) (hupstream : ∀ q, c ≠ .upstream q)
    (hsetex : ∀ key ttl content, c ≠ .setex key ttl content) : ¬ Failed [⟨c, r⟩] := by
  rintro ⟨c', e, hmem, ⟨q, rfl⟩ | ⟨key, ttl, content, rfl⟩⟩
  · exact hupstream q (Sigma.mk.inj (List.mem_singleton.mp hmem)).1.symm
  · exact hsetex key ttl content (Sigma.mk.inj (List.mem_singleton.mp hmem)).1.symm

theorem failed_of_upstream (q : UpstreamRequest) (e : String) : Failed (own ++ [⟨.upstream q, .error e⟩]) :=
  ⟨_, e, by simp, .inl ⟨q, rfl⟩⟩

theorem failed_of_setex (key : String) (ttl : ℕ) (content : ByteArray) (e : String) :
    Failed (own ++ [⟨.setex key ttl content, .error e⟩]) :=
  ⟨_, e, by simp, .inr ⟨key, ttl, content, rfl⟩⟩

/-- Nothing has been asked, and nothing has been stored. -/
def Idle (own : List (Op Await AwaitReply)) : Prop := Unasked own ∧ ¬ Failed own

theorem Idle.append (h : Idle own) {c : Await} (hupstream : ∀ q, c ≠ .upstream q)
    (hsetex : ∀ key ttl content, c ≠ .setex key ttl content) {r : Except String (AwaitReply c)} :
    Idle (own ++ [⟨c, r⟩]) :=
  ⟨h.1.append hupstream, fun hf => (failed_append_singleton.mp hf).elim h.2
    (not_failed_other r hupstream hsetex)⟩

theorem Idle.not_failed_upstream (h : Idle own) (q : UpstreamRequest) (response : UpstreamResponse) :
    ¬ Failed (own ++ [⟨.upstream q, .ok response⟩]) :=
  fun hf => (failed_append_singleton.mp hf).elim h.2 (not_failed_ok _ _)

/-! ### Answers -/

theorem badGateway_of_failed (h : Failed own) (detail : String) : BadGateway own (badGateway detail) where
  iff_failed := ⟨fun _ => h, fun _ => ⟨detail, rfl⟩⟩
  ne_limited := by simp [badGateway, httpException, rateLimitExceeded]

theorem badGateway_response (h : ¬ Failed own) (content : ByteArray) (status_code : ℕ)
    (mediaType xCache : Option String) : BadGateway own (.response content status_code mediaType xCache) where
  iff_failed := ⟨fun ⟨_, hd⟩ => absurd hd (by simp [badGateway, httpException]), fun hf => absurd hf h⟩
  ne_limited := by simp [rateLimitExceeded]

theorem badGateway_raised (h : ¬ Failed own) (e : String) : BadGateway own (.raised e) where
  iff_failed := ⟨fun ⟨_, hd⟩ => absurd hd (by simp [badGateway, httpException]), fun hf => absurd hf h⟩
  ne_limited := by simp [rateLimitExceeded]

theorem badGateway_json (h : ¬ Failed own) {status_code : ℕ} (h502 : status_code ≠ 502)
    (h429 : status_code ≠ 429) (content : Json) : BadGateway own (.json status_code content) where
  iff_failed := ⟨fun ⟨_, hd⟩ => absurd (Answer.json.inj hd).1 h502, fun hf => absurd hf h⟩
  ne_limited := fun hd => absurd (Answer.json.inj hd).1 h429

/-! ### Stage by stage -/

/-- Passing on what an upstream service answers. -/
theorem proxy_badGateway {q : UpstreamRequest} {detail : String} (h : Idle own) :
    (proxy q detail).Obeys (RequestRule request) BadGateway own := by
  refine ⟨h.1, fun r => ?_⟩
  beta_reduce
  match r with
  | .error e => exact badGateway_of_failed (failed_of_upstream q e) detail
  | .ok response => exact badGateway_response (h.not_failed_upstream q response) _ _ _ _

theorem fetchProperty_badGateway {parcel_id : String} (h : Idle own) :
    (request.fetchProperty parcel_id).Obeys (RequestRule request) BadGateway own := by
  refine ⟨h.1, fun r => ?_⟩
  beta_reduce
  match r with
  | .error e => exact badGateway_of_failed (failed_of_upstream _ e) _
  | .ok response =>
    have hnot := h.not_failed_upstream (request.propertyRequest parcel_id) response
    change (if response.status_code = 200 then _ else _ : Prog Await AwaitReply Answer).Obeys _ _ _
    split
    · refine ⟨⟨⟨parcel_id, rfl⟩, _, response, by simp⟩, fun r => ?_⟩
      beta_reduce
      match r with
      | .error e => exact badGateway_of_failed (failed_of_setex _ _ _ e) _
      | .ok () =>
        refine badGateway_response (fun hf => ?_) _ _ _ _
        exact (failed_append_singleton.mp hf).elim hnot (not_failed_ok _ _)
    · exact badGateway_response hnot _ _ _ _

/-- A `GET`, after which nothing has been asked yet. -/
theorem obeys_get_idle (key : String) (h : Idle own) :
    (get key).Obeys (RequestRule request) (fun own _ => Idle own) own :=
  ⟨trivial, fun _ => h.append (by simp) (by simp)⟩

theorem getProperty_badGateway {parcel_id : String} (h : Idle own) :
    (request.getProperty parcel_id).Obeys (RequestRule request) BadGateway own := by
  refine obeys_orFail (obeys_get_idle _ h) (fun _ e h => badGateway_raised h.2 e) ?_
  intro own cached_data h
  cases truthy cached_data with
  | some data => exact badGateway_response h.2 _ _ _ _
  | none => exact fetchProperty_badGateway h

theorem getUserUsage_badGateway (user_id : String) (today : Date) {k : List (String × Json) → Answer}
    (hk : ∀ own results, ¬ Failed own → BadGateway own (k results)) : ∀ (features : List String)
    (results : List (String × Json)) (own : List (Op Await AwaitReply)), Idle own →
    (getUserUsage user_id today k features results).Obeys (RequestRule request) BadGateway own := by
  intro features
  induction features with
  | nil => exact fun results own h => hk own results h.2
  | cons feature features ih =>
    intro results own h
    unfold getUserUsage
    refine obeys_orFail (obeys_get_idle _ h) (fun _ e h => badGateway_raised h.2 e) ?_
    intro own val h
    cases truthy val with
    | none => exact ih _ _ h
    | some text =>
      cases hn : readInt? text.toList with
      | none =>
        simp only [hn]
        exact badGateway_raised h.2 _
      | some n =>
        simp only [hn]
        exact ih _ _ h

theorem handle_badGateway (h : Idle own) : request.handle.Obeys (RequestRule request) BadGateway own := by
  unfold ApiRequest.handle
  split
  · exact getProperty_badGateway h
  · exact proxy_badGateway h
  · exact proxy_badGateway h
  · exact proxy_badGateway h
  · next body hroute =>
    cases body with
    | none => exact badGateway_json h.2 (by decide) (by decide) _
    | some body => exact proxy_badGateway h
  · exact proxy_badGateway h
  · exact getUserUsage_badGateway _ _ (fun _ _ h => badGateway_json h (by decide) (by decide) _) _ _ _ h

/-- The guard asks nothing of an upstream service. -/
theorem enforceTier_badGateway {feature : String} (h : Idle own) :
    (request.enforceTier feature request.handle).Obeys (RequestRule request) BadGateway own := by
  unfold ApiRequest.enforceTier
  cases hcaller : request.caller? with
  | none => exact badGateway_raised h.2 _
  | some user_id =>
    have hguard : (UsageCall.checkAndIncrement ⟨⟨user_id, feature, request.today⟩, request.tier⟩).Obeys
        (fun own c => RequestRule request own c ∧ (∀ q, c ≠ .upstream q) ∧
          ∀ key ttl content, c ≠ .setex key ttl content) _ own :=
      UsageCall.checkAndIncrement_obeys fun own c hrule hkey => by
        cases c with
        | incr key => exact ⟨⟨_, Option.some.inj hkey⟩, by simp, by simp⟩
        | expire key ttl => exact ⟨⟨_, Option.some.inj hkey⟩, by simp, by simp⟩
        | get key => exact absurd hkey (by simp [Await.key?])
        | upstream q => exact absurd hkey (by simp [Await.key?])
        -- no other command is made on the key of a tally
        | setex key ttl content => exact absurd (Tally.isUsageKey_key _) (hrule _ hkey)
        | hset key fields => exact absurd (Tally.isUsageKey_key _) (hrule _ hkey)
        | tokenBucket key clock rate burst requested => exact absurd (Tally.isUsageKey_key _) (hrule _ hkey)
    have hguard := (hguard.and_preserved h fun own c r hc hidle => hidle.append hc.2.1 hc.2.2).mono
      (fun _ _ h => h.1) (fun _ _ h => h)
    refine obeys_orFail hguard (fun _ e h => badGateway_raised h.2.2 e) ?_
    rintro own allowed ⟨-, hidle⟩
    cases allowed with
    | true => exact handle_badGateway hidle
    | false => exact badGateway_json hidle.2 (by decide) (by decide) _

theorem endpoint_badGateway (h : Idle own) :
    request.endpoint.Obeys (RequestRule request) BadGateway own := by
  unfold ApiRequest.endpoint
  split
  · exact handle_badGateway h
  · exact enforceTier_badGateway h

/-! ### The whole request -/

/-- What the rate limiter has answered first is not answered anew. -/
theorem limited_iff_of_rule {r : Except String (AwaitReply request.bucketCall)} {rest : List (Op Await AwaitReply)}
    (h : ∀ op ∈ rest, op.1 ≠ request.bucketCall) :
    Limited request (⟨request.bucketCall, r⟩ :: rest) ↔ ∃ n, r = .ok (.ok (false, n)) := by
  constructor
  · rintro ⟨n, hmem⟩
    rcases List.mem_cons.mp hmem with heq | hmem
    · obtain ⟨-, heq⟩ := Sigma.mk.inj heq
      exact ⟨n, (eq_of_heq heq).symm⟩
    · exact absurd rfl (h _ hmem)
  · rintro ⟨n, rfl⟩
    exact ⟨n, List.mem_cons_self⟩

/-- A request that the rate limiter has not refused. -/
theorem BadGateway.answers {answer : Answer} (h : BadGateway own answer) (hnot : ¬ Limited request own) :
    request.Answers own answer :=
  ⟨h.iff_failed, fun heq => absurd heq h.ne_limited, fun hl => absurd hl hnot⟩

/-- The first command is the one of the rate limiter, and it is the only one. -/
def AskedFirst (request : ApiRequest) (r : Except String (AwaitReply request.bucketCall))
    (own : List (Op Await AwaitReply)) : Prop :=
  ∃ rest, own = ⟨request.bucketCall, r⟩ :: rest ∧ ∀ op ∈ rest, op.1 ≠ request.bucketCall

theorem AskedFirst.mem {r : Except String (AwaitReply request.bucketCall)} (h : AskedFirst request r own) :
    (⟨request.bucketCall, r⟩ : Op Await AwaitReply) ∈ own := by
  obtain ⟨rest, rfl, -⟩ := h
  exact List.mem_cons_self

theorem AskedFirst.append {r : Except String (AwaitReply request.bucketCall)} (h : AskedFirst request r own)
    {c : Await} (hc : RequestRule request own c) (x : Except String (AwaitReply c)) :
    AskedFirst request r (own ++ [⟨c, x⟩]) := by
  obtain ⟨rest, rfl, hrest⟩ := h
  refine ⟨rest ++ [⟨c, x⟩], rfl, fun op hop => ?_⟩
  rcases List.mem_append.mp hop with hop | hop
  · exact hrest op hop
  · obtain rfl := List.mem_singleton.mp hop
    rintro rfl
    exact absurd hc.1 (by simp)

/-- **What a request does, and what it is answered.** -/
theorem dispatch_answers (request : ApiRequest) : request.dispatch.Obeys (DispatchRule request)
    (fun own response => request.Answers own response.answer) [] := by
  unfold ApiRequest.dispatch isRateLimitedAt
  simp only [Prog.cmd_bind, Prog.done_bind]
  refine ⟨⟨⟨rfl, rfl⟩, .inl rfl⟩, fun r => ?_⟩
  have hnew : Idle ([] : List (Op Await AwaitReply)) := ⟨by simp [Unasked], by simp [Failed]⟩
  have hidle : Idle [⟨request.bucketCall, r⟩] := hnew.append (by simp) (by simp)
  have hlimited : Limited request [⟨request.bucketCall, r⟩] ↔ ∃ n, r = .ok (.ok (false, n)) :=
    limited_iff_of_rule (List.forall_mem_nil _)
  beta_reduce
  rcases r with e | e | ⟨allowed, n⟩
  · exact (badGateway_raised hidle.2 e).answers (by rw [hlimited]; simp)
  · exact (badGateway_raised hidle.2 e).answers (by rw [hlimited]; simp)
  cases allowed with
  | false =>
    refine ⟨iff_of_false ?_ hidle.2, iff_of_true rfl (hlimited.mpr ⟨n, rfl⟩)⟩
    rintro ⟨detail, hd⟩
    exact absurd (Answer.json.inj hd).1 (by decide)
  | true =>
    have hendpoint : request.endpoint.Obeys (DispatchRule request)
        (fun own answer => BadGateway own answer ∧ AskedFirst request (.ok (.ok (true, n))) own) _ :=
      ((endpoint_badGateway hidle).guard_preserved ⟨[], rfl, by simp⟩ fun own c x hc h => h.append hc x).mono
        (fun _ _ h => ⟨h.1, .inr ⟨n, h.2.mem⟩⟩) fun _ _ h => h
    refine Prog.Obeys.bind hendpoint ?_
    rintro own answer ⟨hanswer, rest, hown, hrest⟩
    have hnot : ¬ Limited request own := by
      rw [hown, limited_iff_of_rule hrest]
      simp
    -- the limiter adds its header to what the route answers
    cases answer with
    | raised e => exact hanswer.answers hnot
    | response content status_code mediaType xCache => exact hanswer.answers hnot
    | json status_code content => exact hanswer.answers hnot

end Conduct

end Legacy

end TaxlienGateway
