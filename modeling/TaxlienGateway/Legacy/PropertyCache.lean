import TaxlienGateway.Legacy.UpstreamBound

/-!
# The property cache

Where the body of a hit comes from. The key of an entry determines the parcel and the tier, whatever
characters a parcel id has: a tier has no colon (`cacheKey_inj`). So an entry that a request finds was
stored by a request for the same parcel in the same tier, which had been answered with status 200 before,
and not more than an hour ago.

* `cached_of_run` — the invariant of the cache, over every interleaving;
* `hits_are_fresh` — the origin of every hit.
-/

namespace TaxlienGateway

open Framework

namespace Legacy

theorem UserTier.colon_notMem_value (tier : UserTier) : ':' ∉ tier.value.toList := by
  cases tier <;> decide

theorem UserTier.value_inj {tier tier' : UserTier} (h : tier.value = tier'.value) : tier = tier' := by
  revert h
  cases tier <;> cases tier' <;> decide

/-- The fields of a key of the cache. The parcel id is free. -/
def cacheFields (parcel_id : String) (tier : UserTier) : Fields ':' where
  before := ["cache".toList, "prop".toList]
  free := parcel_id.toList
  after := [tier.value.toList]
  noSep_before := by decide
  noSep_after := by
    rw [List.forall_mem_singleton]
    exact tier.colon_notMem_value

theorem text_cacheFields (parcel_id : String) (tier : UserTier) :
    (cacheFields parcel_id tier).text = (cacheKey parcel_id tier).toList := by
  simp [Fields.text, cacheFields, cacheKey]

theorem cacheFields_inj {parcel_id parcel_id' : String} {tier tier' : UserTier}
    (h : cacheFields parcel_id tier = cacheFields parcel_id' tier') :
    parcel_id = parcel_id' ∧ tier = tier' := by
  have htier := List.singleton_inj.mp (congrArg Fields.after h)
  exact ⟨String.toList_inj.mp (congrArg Fields.free h), UserTier.value_inj (String.toList_inj.mp htier)⟩

/-- **The key of the cache is injective**: the tier stands behind the last colon. -/
theorem cacheKey_inj {parcel_id parcel_id' : String} {tier tier' : UserTier}
    (h : cacheKey parcel_id tier = cacheKey parcel_id' tier') : parcel_id = parcel_id' ∧ tier = tier' := by
  refine cacheFields_inj (Fields.eq_of_text (Eq.refl 2) (Eq.refl 1) ?_)
  rw [text_cacheFields, text_cacheFields, h]

/-- A key of the cache is written by `SETEX` alone. -/
theorem entries_of_cacheRule {request : ApiRequest} {own : List (Op Await AwaitReply)} {c : Await}
    (hrule : CacheRule request own c) {now : ℚ} {s s' : Backends} {r : AwaitReply c}
    (hx : (backends now).exec c s = (s', r)) {key : String} (hcache : IsCacheKey key)
    (hset : ∀ ttl content, c ≠ .setex key ttl content) : s'.redis.entries key = s.redis.entries key := by
  refine entries_of_exec hx fun hkey => ?_
  cases c with
  | setex k ttl content => exact hset ttl content (by rw [Option.some.inj hkey])
  | incr k => exact hrule _ hkey hcache
  | expire k ttl => exact hrule _ hkey hcache
  | get k => exact absurd hkey (by simp [Await.key?])
  | hset k fields => exact hrule _ hkey hcache
  | tokenBucket k clock rate burst requested => exact hrule _ hkey hcache
  | upstream r => exact absurd hkey (by simp [Await.key?])

/-- The request asks Parser for this parcel, in the name of this tier. -/
structure UpstreamRequest.AsksFor (sent : UpstreamRequest) (parcel_id : String) (tier : UserTier) : Prop where
  service : sent.service = "parser"
  path : sent.path = "/api/v1/properties/" ++ parcel_id
  tier : ∀ value, ("X-User-Tier", value) ∈ sent.headers ↔ value = tier.value

theorem ApiRequest.asksFor_propertyRequest (request : ApiRequest) (parcel_id : String) :
    (request.propertyRequest parcel_id).AsksFor parcel_id request.tier := by
  refine ⟨rfl, rfl, fun value => ?_⟩
  simp [ApiRequest.propertyRequest, ApiRequest.headers]

/-- The body `content` was obtained and then stored, at `stored`, by a request for this parcel in this
tier. -/
def StoredAt (parcel_id : String) (tier : UserTier) (content : ByteArray) (stored : ℚ)
    (es : List ApiEvent) : Prop :=
  ∃ i request contentType t₁ o₁ o₂ es₁ es₂ es₃,
    es = es₁ ++ (t₁, .cmd i request (.upstream (request.propertyRequest parcel_id)) o₁) :: (es₂ ++
      (stored, .cmd i request (.setex (cacheKey parcel_id tier) 3600 content) o₂) :: es₃) ∧
    (request.propertyRequest parcel_id).AsksFor parcel_id tier ∧
    request.route = .get_property parcel_id ∧ request.tier = tier ∧
    o₁.seen = .ok ⟨200, content, contentType⟩ ∧ o₂.effect.isSome

/-- The request, which has the index `i`, has read this body from the cache: what was stored for its
parcel and tier, at most 3600 seconds before. -/
def FreshHit (i : ℕ) (request : ApiRequest) (content : ByteArray) (es : List ApiEvent) : Prop :=
  ∃ parcel_id, request.route = .get_property parcel_id ∧ ∃ es₁ read o es₂ stored,
    es = es₁ ++ (read, .cmd i request (.get (cacheKey parcel_id request.tier)) o) :: es₂ ∧
    (∀ t' request', (t', Event.start i request') ∉ es₂) ∧ o.seen = .ok (.ok (some content)) ∧
    read ≤ stored + 3600 ∧ StoredAt parcel_id request.tier content stored es₁

/-- What is under the key of a parcel and a tier was stored for them, and lives an hour. -/
def Cached (parcel_id : String) (tier : UserTier) (es : List ApiEvent)
    (entry : Option (Entry Value ℚ)) : Prop :=
  ∀ e ∈ entry, ∃ content stored, e = ⟨.bytes content, some (stored + 3600)⟩ ∧
    StoredAt parcel_id tier content stored es

theorem Cached.append {parcel_id : String} {tier : UserTier} {es : List ApiEvent}
    {entry : Option (Entry Value ℚ)} (h : Cached parcel_id tier es entry) (e : ApiEvent) :
    Cached parcel_id tier (es ++ [e]) entry := by
  intro e' he'
  obtain ⟨content, stored, rfl, i, request, contentType, t₁, o₁, o₂, es₁, es₂, es₃, rfl, hrest⟩ := h e' he'
  exact ⟨content, stored, rfl, i, request, contentType, t₁, o₁, o₂, es₁, es₂, es₃ ++ [e], by simp, hrest⟩

/-- A body that `GET` answers is in an entry that lives. -/
theorem entry_of_getValue {s : Backends} {now : ℚ} {key : String} {content : ByteArray}
    (h : getValue (s.value? now key) = .ok (some content)) :
    ∃ e, s.redis.entries key = some e ∧ (∀ t ∈ e.expireAt, now ≤ t) ∧
      getValue (some e.value) = .ok (some content) := by
  unfold Backends.value? at h
  cases hfind : s.redis.find? now key with
  | none =>
    rw [hfind] at h
    exact absurd h (by simp [getValue])
  | some e =>
    obtain ⟨hentry, hlive⟩ := ExpiringStore.find?_eq_some_iff.mp hfind
    rw [hfind, Option.map_some] at h
    exact ⟨e, hentry, hlive, h⟩

/-- What `GET` answers from the cache. -/
theorem Cached.get {parcel_id : String} {tier : UserTier} {es : List ApiEvent} {s : Backends} {now : ℚ}
    {key : String} {content : ByteArray} (h : Cached parcel_id tier es (s.redis.entries key))
    (hget : getValue (s.value? now key) = .ok (some content)) :
    ∃ stored, now ≤ stored + 3600 ∧ StoredAt parcel_id tier content stored es := by
  obtain ⟨e, hentry, hlive, hget⟩ := entry_of_getValue hget
  obtain ⟨content', stored, rfl, hstored⟩ := h e hentry
  obtain rfl := Option.some.inj (Except.ok.inj hget)
  exact ⟨stored, hlive _ rfl, hstored⟩

variable {es : List ApiEvent}
  {s : ℚ × Pool Await AwaitReply ApiRequest (fun _ => ApiResponse) Backends}

/-- **The invariant of the cache.** -/
theorem cached_of_run (hr : publicApi.Run es s) (parcel_id : String) (tier : UserTier) :
    Cached parcel_id tier es (s.2.store.redis.entries (cacheKey parcel_id tier)) := by
  have hcache := isCacheKey_cacheKey parcel_id tier
  refine dispatch_obeyed.timed_invariant
    (I := fun es s => Cached parcel_id tier es (s.redis.entries (cacheKey parcel_id tier))) ?_ ?_ ?_ hr
  · intro s hs e he
    rw [hs _ (.inr hcache)] at he
    exact absurd he (by simp)
  · exact fun es s t e ih _ => ih.append _
  · intro es s t i request c k o r s' hr ih hclock hth hrule ho hx
    have hrule := hrule.cache
    by_cases hset : ∃ ttl content, c = .setex (cacheKey parcel_id tier) ttl content
    · obtain ⟨ttl, content, rfl⟩ := hset
      obtain ⟨parcel_id', hroute, hkey, rfl, contentType, hown⟩ := hrule
      obtain ⟨rfl, rfl⟩ := cacheKey_inj hkey
      rw [exec_setex hx, ExpiringStore.entries_set_self]
      rintro e he
      obtain rfl := Option.some.inj he
      -- the body comes from the request's own history
      obtain ⟨es₁, t₁, o₁, es₂, rfl, hseen, -⟩ := exists_split_of_mem_ownOps hr i _ hth _ hown
      refine ⟨content, t, rfl, i, request, contentType, t₁, o₁, o, es₁, es₂, [], by simp,
        request.asksFor_propertyRequest parcel_id, hroute, rfl, hseen, ?_⟩
      rw [ho]
      rfl
    · -- a command on another key leaves the entry as it is
      rw [entries_of_cacheRule hrule hx hcache fun ttl content hc => hset ⟨ttl, content, hc⟩]
      exact ih.append _

/-- **Hits never cross parcels, tiers or the hour.** The body of a hit was stored for the same parcel and
tier, by a request that had been answered with status 200, at most 3600 seconds before the cache was
read. -/
theorem hits_are_fresh (es : List ApiEvent)
    (s : ℚ × Pool Await AwaitReply ApiRequest (fun _ => ApiResponse) Backends)
    (hr : publicApi.Run es s) (pre post : List ApiEvent) (t : ℚ) (i : ℕ) (request : ApiRequest)
    (response : ApiResponse) (hes : es = pre ++ (t, .finish i request response) :: post)
    (content : ByteArray) (status_code : ℕ) (mediaType : Option String)
    (hhit : response.answer = .response content status_code mediaType (some "HIT")) :
    FreshHit i request content pre := by
  subst hes
  obtain ⟨parcel_id, hroute, hown⟩ := (dispatch_obeyed.returns hr).hit _ _ _ hhit
  obtain ⟨es₁, read, o, es₂, rfl, hseen, hstart⟩ := exists_split_of_finish hr hown
  rw [List.append_assoc, List.cons_append] at hr
  -- the state in which the cache was read
  obtain ⟨s₀, s', h₀, hx⟩ := executed_of_seen hr hseen
  obtain ⟨stored, hread, hstored⟩ := (cached_of_run h₀ parcel_id request.tier).get (exec_get hx).2.symm
  exact ⟨parcel_id, hroute, es₁, read, o, es₂, stored, rfl, hstart, hseen, hread, hstored⟩

/-! ### A parcel that is shown twice -/

/-- The body of a hit. -/
def hitBody? : ApiEvent → Option ByteArray
  | (_, .finish _ _ ⟨.response content _ _ (some "HIT"), _⟩) => some content
  | _ => none

theorem of_hitBody? {e : ApiEvent} {content : ByteArray} (h : hitBody? e = some content) :
    ∃ t i request response status_code mediaType, e = (t, .finish i request response) ∧
      response.answer = .response content status_code mediaType (some "HIT") := by
  unfold hitBody? at h
  split at h
  · obtain rfl := Option.some.inj h
    exact ⟨_, _, _, _, _, _, rfl, rfl⟩
  · exact absurd h (by simp)

/-- A parcel as Parser describes it. -/
def parcelBody : ByteArray := "\x7b\"parcel_id\":\"p1\"\x7d".toByteArray

/-- Two requests for the details of the parcel. -/
def repeatedDetails : List ApiEvent :=
  timedSession backends ApiRequest.dispatch
    [guestRequest (.get_property "p1") 0, guestRequest (.get_property "p1") 1]
    { Backends.blank with responses := fun _ => ⟨200, parcelBody, some "application/json"⟩ }

theorem repeatedDetails_hit : ∃ pre i request, FreshHit i request parcelBody pre := by
  obtain ⟨s, hr⟩ : ∃ s, publicApi.Run repeatedDetails s :=
    run_guests [.get_property "p1", .get_property "p1"] fun _ _ => rfl
  have hlast : repeatedDetails.getLast?.bind hitBody? = some parcelBody := by decide +kernel
  obtain ⟨e, he, hbody⟩ := Option.bind_eq_some_iff.mp hlast
  obtain ⟨pre, hes⟩ := List.getLast?_eq_some_iff.mp he
  obtain ⟨t', i, request, response, status_code, mediaType, rfl, hhit⟩ := of_hitBody? hbody
  exact ⟨pre, i, request, hits_are_fresh _ _ hr pre [] t' i request response hes _ _ _ hhit⟩

end Legacy

end TaxlienGateway
