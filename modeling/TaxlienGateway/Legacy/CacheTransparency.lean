import TaxlienGateway.Legacy.PropertyCache

/-!
# What a hit shows

`get_property` builds its response in two places: from the response of Parser, after a miss, and from the
text that it reads from the cache. What is stored is the body alone, so a hit says that it is JSON,
whatever Parser has said; a body that is no text cannot be read back at all; and a body that cannot be
stored is not returned, since the write stands under the handler of an upstream failure.

* `dispatch_propertyEnds` — the ways in which a request for a property ends;
* `found_eq_lastStored` — a hit finds the last body that was stored for its parcel and tier;
* `transparent_iff` — when hits and misses show the same;
* `geoDetails_not_transparent` — a miss and its hit that show different types.
-/

namespace TaxlienGateway

open Framework

namespace Legacy

/-! ### What a client sees -/

/-- The `Content-Type` that `Response` sends for a media type: none without one, and the media type
itself, to which a charset may be added if it is one of text. -/
structure SendsMediaType (header : Option String → Option String) : Prop where
  absent : header none = none
  text : ∀ mediaType : String, "text/".toList <+: mediaType.toList →
    ∃ charset : String, header (some mediaType) = some (mediaType ++ charset)
  other : ∀ mediaType : String, ¬ "text/".toList <+: mediaType.toList →
    header (some mediaType) = some mediaType

/-- The answer shows this body with status 200, and the `Content-Type` of the given media type. -/
def Answer.Shows (header : Option String → Option String) (content : ByteArray)
    (contentType : Option String) (answer : Answer) : Prop :=
  ∃ mediaType xCache, answer = .response content 200 mediaType xCache ∧
    header mediaType = header contentType

/-- A request for the parcel has stored the body, at `stored`, and has been answered as a miss. -/
def MissAt (parcel_id : String) (tier : UserTier) (content : ByteArray) (contentType : Option String)
    (stored : ℚ) (es : List ApiEvent) : Prop :=
  ∃ i request o t remaining pre mid post,
    es = pre ++ (stored, .cmd i request (.setex (cacheKey parcel_id tier) 3600 content) o) :: (mid ++
      (t, .finish i request ⟨.response content 200 contentType (some "MISS"), remaining⟩) :: post) ∧
    (∀ t' request', (t', Event.start i request') ∉ mid) ∧
    request.route = .get_property parcel_id ∧ request.tier = tier

/-- After the history `before`, a request for the parcel finds a body in the cache, at `read`, and is then
answered. -/
def HitAt (parcel_id : String) (tier : UserTier) (before : List ApiEvent) (read : ℚ) (found : ByteArray)
    (answer : Answer) (es : List ApiEvent) : Prop :=
  ∃ i request o t remaining mid post,
    es = before ++ (read, .cmd i request (.get (cacheKey parcel_id tier)) o) :: (mid ++
      (t, .finish i request ⟨answer, remaining⟩) :: post) ∧
    (∀ t' request', (t', Event.start i request') ∉ mid) ∧
    request.route = .get_property parcel_id ∧ request.tier = tier ∧
    o.seen = .ok (.ok (some found)) ∧ found ≠ .empty

/-- A request for a property gets a response with status 200 from Parser, sees the write to the cache
fail, and is then answered. -/
def UnwrittenAt (content : ByteArray) (contentType : Option String) (answer : Answer)
    (es : List ApiEvent) : Prop :=
  ∃ i request parcel_id e t remaining pre post,
    es = pre ++ (t, .finish i request ⟨answer, remaining⟩) :: post ∧
    request.route = .get_property parcel_id ∧
    (⟨.upstream (request.propertyRequest parcel_id), .ok ⟨200, content, contentType⟩⟩ :
      Op Await AwaitReply) ∈ ownOps i (pre.map Prod.snd) ∧
    (⟨.setex (cacheKey parcel_id request.tier) 3600 content, .error e⟩ : Op Await AwaitReply) ∈
      ownOps i (pre.map Prod.snd)

/-- **The cache is transparent.** -/
structure Transparent (header : Option String → Option String) (es : List ApiEvent) : Prop where
  /-- A hit shows what each miss for its parcel and tier has shown, for an hour. -/
  hit : ∀ parcel_id tier content contentType stored before read found answer,
    MissAt parcel_id tier content contentType stored before →
    HitAt parcel_id tier before read found answer es → content ≠ .empty → read ≤ stored + 3600 →
    answer.Shows header content contentType
  /-- A miss returns the response although it cannot be stored. -/
  write : ∀ content contentType answer, UnwrittenAt content contentType answer es →
    answer.Shows header content contentType

/-! ### When it is so -/

/-- The body that an event stores under a key. -/
def storedBy? (key : String) : ApiEvent → Option ByteArray
  | (_, .cmd _ _ (.setex k _ content) o) => if k = key ∧ o.effect.isSome then some content else none
  | _ => none

/-- The last body that has been stored under a key. -/
def lastStored? (key : String) (es : List ApiEvent) : Option ByteArray :=
  es.reverse.findSome? (storedBy? key)

/-- The bodies that are found can be stored, and are what the cache takes them for. -/
structure Cacheable (es : List ApiEvent) : Prop where
  /-- When a hit reads the cache, the body of the miss is the last one that has been stored for the parcel
  and the tier, is a text, and came as JSON. -/
  hit : ∀ parcel_id tier content contentType stored before read found answer,
    MissAt parcel_id tier content contentType stored before →
    HitAt parcel_id tier before read found answer es → content ≠ .empty → read ≤ stored + 3600 →
    lastStored? (cacheKey parcel_id tier) before = some content ∧ content.IsValidUTF8 ∧
      contentType = some "application/json"
  /-- No write fails. -/
  write : ∀ content contentType answer, ¬ UnwrittenAt content contentType answer es

/-! ### How a request for a property ends -/

/-- The commands that a request sends before its handler runs. -/
def Await.isGuard : Await → Bool
  | .incr _ => true
  | .expire _ _ => true
  | .tokenBucket .. => true
  | _ => false

/-- The handler has not run yet. -/
def BeforeHandler (own : List (Op Await AwaitReply)) : Prop := ∀ op ∈ own, op.1.isGuard = true

/-- How `get_property` ends when the cache has nothing. -/
inductive FetchEnds (request : ApiRequest) (parcel_id : String) :
    List (Op Await AwaitReply) → Answer → Prop where
  | failed (e : String) : FetchEnds request parcel_id
      [⟨.upstream (request.propertyRequest parcel_id), .error e⟩] (badGateway "Upstream service error")
  | passed (response : UpstreamResponse) (h : response.status_code ≠ 200) : FetchEnds request parcel_id
      [⟨.upstream (request.propertyRequest parcel_id), .ok response⟩]
      (.response response.content response.status_code response.contentType (some "MISS"))
  | stored (content : ByteArray) (contentType : Option String) : FetchEnds request parcel_id
      [⟨.upstream (request.propertyRequest parcel_id), .ok ⟨200, content, contentType⟩⟩,
        ⟨.setex (cacheKey parcel_id request.tier) 3600 content, .ok ()⟩]
      (.response content 200 contentType (some "MISS"))
  | unwritten (content : ByteArray) (contentType : Option String) (e : String) :
      FetchEnds request parcel_id
        [⟨.upstream (request.propertyRequest parcel_id), .ok ⟨200, content, contentType⟩⟩,
          ⟨.setex (cacheKey parcel_id request.tier) 3600 content, .error e⟩]
        (badGateway "Upstream service error")

/-- How a request for a property ends. -/
inductive PropertyEnds (request : ApiRequest) (parcel_id : String) :
    List (Op Await AwaitReply) → Answer → Prop where
  /-- The guard has answered. -/
  | guarded {own : List (Op Await AwaitReply)} {answer : Answer} (hown : BeforeHandler own)
      (hanswer : ∀ content status_code mediaType xCache,
        answer ≠ .response content status_code mediaType xCache) :
      PropertyEnds request parcel_id own answer
  | raised {own : List (Op Await AwaitReply)} {r : Except String (Except String (Option ByteArray))}
      {e : String} (hown : BeforeHandler own) (hget : decodeResponse (raiseError r) = .error e) :
      PropertyEnds request parcel_id (own ++ [⟨.get (cacheKey parcel_id request.tier), r⟩]) (.raised e)
  | hit {own : List (Op Await AwaitReply)} {r : Except String (Except String (Option ByteArray))}
      {data : String} (hown : BeforeHandler own) (hget : decodeResponse (raiseError r) = .ok (some data))
      (hdata : data ≠ "") :
      PropertyEnds request parcel_id (own ++ [⟨.get (cacheKey parcel_id request.tier), r⟩])
        (.response data.toByteArray 200 (some "application/json") (some "HIT"))
  | fetched {own fetch : List (Op Await AwaitReply)}
      {r : Except String (Except String (Option ByteArray))} {cached_data : Option String} {answer : Answer}
      (hown : BeforeHandler own) (hget : decodeResponse (raiseError r) = .ok cached_data)
      (hnone : truthy cached_data = none) (hfetch : FetchEnds request parcel_id fetch answer) :
      PropertyEnds request parcel_id
        (own ++ ⟨.get (cacheKey parcel_id request.tier), r⟩ :: fetch) answer

section Ends

variable {request : ApiRequest} {parcel_id : String} {own : List (Op Await AwaitReply)}

theorem BeforeHandler.append (h : BeforeHandler own) {c : Await} (hc : c.isGuard = true)
    {r : Except String (AwaitReply c)} : BeforeHandler (own ++ [⟨c, r⟩]) := by
  intro op hop
  rcases List.mem_append.mp hop with hop | hop
  · exact h op hop
  · obtain rfl := List.mem_singleton.mp hop
    exact hc

theorem fetchProperty_ends : (request.fetchProperty parcel_id).Obeys (fun _ _ => True)
    (fun own' answer => ∃ fetch, own' = own ++ fetch ∧ FetchEnds request parcel_id fetch answer) own := by
  refine obeys_orFail (obeys_issue (G := fun _ _ => True) trivial) ?_ ?_
  · rintro own' e rfl
    exact ⟨_, rfl, .failed e⟩
  · rintro own' ⟨status_code, content, contentType⟩ rfl
    by_cases hstatus : status_code = 200
    · subst hstatus
      change (orFail _ _ _).Obeys _ _ _
      refine obeys_orFail (obeys_issue (G := fun _ _ => True) trivial) ?_ ?_
      · rintro own' e rfl
        exact ⟨_, List.append_assoc .., .unwritten content contentType e⟩
      · rintro own' ⟨⟩ rfl
        exact ⟨_, List.append_assoc .., .stored content contentType⟩
    · change (if status_code = 200 then _ else _ : Prog Await AwaitReply Answer).Obeys _ _ _
      rw [if_neg hstatus]
      exact ⟨_, rfl, .passed ⟨status_code, content, contentType⟩ hstatus⟩

theorem getProperty_ends (hown : BeforeHandler own) : (request.getProperty parcel_id).Obeys (fun _ _ => True)
    (PropertyEnds request parcel_id) own := by
  have hget : (get (cacheKey parcel_id request.tier)).Obeys (fun _ _ => True)
      (fun own' val => ∃ r, own' = own ++ [⟨.get (cacheKey parcel_id request.tier), r⟩] ∧
        decodeResponse (raiseError r) = val) own := ⟨trivial, fun r => ⟨r, rfl, rfl⟩⟩
  refine obeys_orFail hget ?_ ?_
  · rintro own' e ⟨r, rfl, hr⟩
    exact .raised hown hr
  · rintro own' cached_data ⟨r, rfl, hr⟩
    cases hdata : truthy cached_data with
    | some data =>
      obtain ⟨rfl, hne⟩ := Option.filter_eq_some_iff.mp hdata
      exact .hit hown hr (of_decide_eq_true hne)
    | none =>
      refine fetchProperty_ends.mono (fun _ _ h => h) ?_
      rintro own' answer ⟨fetch, rfl, hfetch⟩
      rw [List.append_assoc]
      exact .fetched hown hr hdata hfetch

/-- The guard leaves the cache and Parser alone. -/
theorem checkAndIncrement_beforeHandler (u : UsageCall) (hown : BeforeHandler own) :
    u.checkAndIncrement.Obeys (fun _ _ => True) (fun own' _ => BeforeHandler own') own := by
  have hguard : u.checkAndIncrement.Obeys (fun _ c => c.isGuard = true) (fun own r => u.Ends own r) own := by
    refine UsageCall.checkAndIncrement_obeys fun own c h hkey => ?_
    cases c with
    | incr key => rfl
    | expire key ttl => rfl
    | tokenBucket key clock rate burst requested => rfl
    | get key => exact absurd hkey (by simp [Await.key?])
    | upstream r => exact absurd hkey (by simp [Await.key?])
    -- no other command writes a key of the tracker
    | setex key ttl content => exact absurd u.tally.isUsageKey_key (h _ hkey)
    | hset key fields => exact absurd u.tally.isUsageKey_key (h _ hkey)
  exact (hguard.and_preserved hown fun own c r hc hown => hown.append hc).mono (fun _ _ _ => trivial)
    fun _ _ h => h.2

/-- The guard comes first. -/
theorem enforceTier_ends (hroute : request.route = .get_property parcel_id) (hown : BeforeHandler own)
    (feature : String) : (request.enforceTier feature request.handle).Obeys (fun _ _ => True)
      (PropertyEnds request parcel_id) own := by
  unfold ApiRequest.enforceTier
  cases request.caller? with
  | none => exact .guarded hown (by simp)
  | some user_id =>
    refine obeys_orFail (checkAndIncrement_beforeHandler _ hown)
      (fun own e hown => .guarded hown (by simp)) ?_
    intro own allowed hown
    cases allowed with
    | false => exact .guarded hown (by simp [tierLimitExceeded, httpException])
    | true =>
      have hhandle : request.handle = request.getProperty parcel_id := by
        unfold ApiRequest.handle
        rw [hroute]
      show request.handle.Obeys _ _ _
      rw [hhandle]
      exact getProperty_ends hown

/-- **The ways in which a request for a property ends.** -/
theorem dispatch_propertyEnds : Obeyed ApiRequest.dispatch (fun _ _ _ => True) fun request own response =>
    ∀ parcel_id, request.route = .get_property parcel_id →
      PropertyEnds request parcel_id own response.answer := by
  intro request
  by_cases hroute : ∃ parcel_id, request.route = .get_property parcel_id
  · obtain ⟨parcel_id, hroute⟩ := hroute
    suffices hends : request.dispatch.Obeys (fun _ _ => True)
        (fun own response => PropertyEnds request parcel_id own response.answer) [] by
      refine hends.mono (fun _ _ h => h) fun own response h parcel_id' hroute' => ?_
      obtain rfl := Route.get_property.inj (hroute.symm.trans hroute')
      exact h
    have hown : ∀ r, BeforeHandler [⟨request.bucketCall, r⟩] :=
      fun r op hop => List.mem_singleton.mp hop ▸ rfl
    have hendpoint : request.endpoint = request.enforceTier "daily_details" request.handle := by
      unfold ApiRequest.endpoint
      rw [hroute]
      rfl
    refine obeys_dispatch trivial (fun r e => .guarded (hown r) (by simp))
      (fun r => .guarded (hown r) (by simp [rateLimitExceeded])) fun r => ?_
    rw [hendpoint]
    exact enforceTier_ends hroute (hown r) _
  · exact (dispatch_obeys request).mono (fun _ _ _ => trivial)
      fun _ _ _ parcel_id h => absurd ⟨parcel_id, h⟩ hroute

/-! ### The answer, by what was read and written -/

theorem FetchEnds.not_get {fetch : List (Op Await AwaitReply)} {answer : Answer}
    (h : FetchEnds request parcel_id fetch answer) (key : String) : ∀ op ∈ fetch, op.1 ≠ .get key := by
  cases h <;> simp

/-- The cache is read once. -/
theorem BeforeHandler.reply_eq (hown : BeforeHandler own) {key : String} {fetch : List (Op Await AwaitReply)}
    {r r' : Except String (Except String (Option ByteArray))} (hfetch : ∀ op ∈ fetch, op.1 ≠ .get key)
    (hmem : (⟨.get key, r'⟩ : Op Await AwaitReply) ∈ own ++ ⟨.get key, r⟩ :: fetch) : r' = r := by
  rcases List.mem_append.mp hmem with hmem | hmem
  · exact absurd (hown _ hmem) (by simp [Await.isGuard])
  · rcases List.mem_cons.mp hmem with heq | hmem
    · cases heq
      rfl
    · exact absurd rfl (hfetch _ hmem)

/-- **What a request answers that finds a body in the cache.** A text is returned as JSON, and anything
else raises. -/
theorem PropertyEnds.of_found {answer : Answer} (h : PropertyEnds request parcel_id own answer)
    {found : ByteArray} (hne : found ≠ .empty)
    (hmem : (⟨.get (cacheKey parcel_id request.tier), .ok (.ok (some found))⟩ : Op Await AwaitReply) ∈
      own) :
    (found.IsValidUTF8 → answer = .response found 200 (some "application/json") (some "HIT")) ∧
      (¬ found.IsValidUTF8 → answer = .raised "UnicodeDecodeError") := by
  -- what was read
  have hvalid : found.IsValidUTF8 → ∃ data : String, data.toByteArray = found ∧ data ≠ "" ∧
      decodeResponse (raiseError (.ok (.ok (some found)))) = .ok (some data) := by
    intro hvalid
    refine ⟨String.ofByteArray found hvalid, rfl, ?_, decodeResponse_toByteArray (.ofByteArray found hvalid)⟩
    intro hempty
    exact hne (congrArg String.toByteArray hempty)
  have hinvalid : ¬ found.IsValidUTF8 →
      decodeResponse (raiseError (.ok (.ok (some found)))) = .error "UnicodeDecodeError" :=
    decodeResponse_of_not_valid
  cases h with
  | guarded hown hanswer => exact absurd (hown _ hmem) (by simp [Await.isGuard])
  | raised hown hget =>
    obtain rfl := hown.reply_eq (by simp) hmem
    refine ⟨fun h => ?_, fun h => ?_⟩
    · obtain ⟨data, -, -, hdata⟩ := hvalid h
      exact absurd (hdata.symm.trans hget) (by simp)
    · exact congrArg Answer.raised (Except.error.inj ((hinvalid h).symm.trans hget)).symm
  | hit hown hget hdata =>
    obtain rfl := hown.reply_eq (by simp) hmem
    refine ⟨fun h => ?_, fun h => absurd ((hinvalid h).symm.trans hget) (by simp)⟩
    obtain ⟨data, rfl, -, hdata⟩ := hvalid h
    obtain rfl := Option.some.inj (Except.ok.inj (hdata.symm.trans hget))
    rfl
  | fetched hown hget hnone hfetch =>
    obtain rfl := hown.reply_eq (hfetch.not_get _) hmem
    refine ⟨fun h => ?_, fun h => absurd ((hinvalid h).symm.trans hget) (by simp)⟩
    -- a text that is not empty counts as something
    obtain ⟨data, -, hdata, hread⟩ := hvalid h
    obtain rfl := Except.ok.inj (hread.symm.trans hget)
    rw [truthy, Option.filter_some, if_pos (decide_eq_true hdata)] at hnone
    exact absurd hnone (by simp)

/-- **What a request answers that cannot store a body.** -/
theorem PropertyEnds.of_unwritten {answer : Answer} (h : PropertyEnds request parcel_id own answer)
    {content : ByteArray} {e : String}
    (hmem : (⟨.setex (cacheKey parcel_id request.tier) 3600 content, .error e⟩ : Op Await AwaitReply) ∈
      own) :
    answer = badGateway "Upstream service error" := by
  have hguard : ∀ {own : List (Op Await AwaitReply)}, BeforeHandler own →
      (⟨.setex (cacheKey parcel_id request.tier) 3600 content, .error e⟩ : Op Await AwaitReply) ∉ own :=
    fun hown hmem => absurd (hown _ hmem) (by simp [Await.isGuard])
  cases h with
  | guarded hown hanswer => exact absurd hmem (hguard hown)
  | raised hown hget => exact absurd hmem (by simp [hguard hown])
  | hit hown hget hdata => exact absurd hmem (by simp [hguard hown])
  | fetched hown hget hnone hfetch =>
    cases hfetch with
    | failed e' => rfl
    | unwritten content' contentType' e' => rfl
    | passed response hstatus => exact absurd hmem (by simp [hguard hown])
    | stored content' contentType' =>
      -- this write has been answered
      refine absurd hmem ?_
      simp [hguard hown]

/-- A miss with status 200 has stored its body. -/
theorem PropertyEnds.stored_of_miss {answer : Answer} (h : PropertyEnds request parcel_id own answer)
    {content : ByteArray} {contentType : Option String}
    (hmiss : answer = .response content 200 contentType (some "MISS")) :
    (⟨.setex (cacheKey parcel_id request.tier) 3600 content, .ok ()⟩ : Op Await AwaitReply) ∈ own := by
  cases h with
  | guarded hown hanswer => exact absurd hmiss (hanswer _ _ _ _)
  | raised hown hget => exact absurd hmiss (by simp)
  | hit hown hget hdata => exact absurd hmiss (by simp)
  | fetched hown hget hnone hfetch =>
    cases hfetch with
    | failed e => exact absurd hmiss (by simp [badGateway, httpException])
    | unwritten content' contentType' e => exact absurd hmiss (by simp [badGateway, httpException])
    | passed response hstatus => exact absurd (Answer.response.inj hmiss).2.1 hstatus
    | stored content' contentType' =>
      obtain ⟨rfl, -, rfl, -⟩ := Answer.response.inj hmiss
      simp

/-- A hit has read its body. -/
theorem PropertyEnds.found_of_hit {answer : Answer} (h : PropertyEnds request parcel_id own answer)
    {content : ByteArray} {status_code : ℕ} {mediaType : Option String}
    (hhit : answer = .response content status_code mediaType (some "HIT")) : content ≠ .empty ∧
      (⟨.get (cacheKey parcel_id request.tier), .ok (.ok (some content))⟩ : Op Await AwaitReply) ∈
        own := by
  cases h with
  | guarded hown hanswer => exact absurd hhit (hanswer _ _ _ _)
  | raised hown hget => exact absurd hhit (by simp)
  | hit hown hget hdata =>
    obtain ⟨rfl, -⟩ := Answer.response.inj hhit
    rw [of_decodeResponse hget]
    exact ⟨fun hempty => hdata (String.toByteArray_inj.mp hempty), by simp⟩
  | fetched hown hget hnone hfetch =>
    cases hfetch with
    | failed e => exact absurd hhit (by simp [badGateway, httpException])
    | unwritten content' contentType' e => exact absurd hhit (by simp [badGateway, httpException])
    | passed response hstatus => exact absurd hhit (by simp)
    | stored content' contentType' => exact absurd hhit (by simp)

end Ends

/-! ### What a hit finds -/

theorem lastStored?_append_singleton (key : String) (es : List ApiEvent) (e : ApiEvent) :
    lastStored? key (es ++ [e]) = (storedBy? key e).or (lastStored? key es) := by
  unfold lastStored?
  rw [List.reverse_append, List.reverse_singleton, List.singleton_append, List.findSome?_cons]
  cases storedBy? key e <;> rfl

theorem storedBy?_of_idle {key : String} {t : ℚ}
    {e : Event Await AwaitReply ApiRequest fun _ => ApiResponse} (h : e.applied? = none) : storedBy? key (t, e) = none := by
  cases e with
  | cmd i request c o =>
    cases c with
    | setex k ttl content =>
      have heffect : o.effect = none := Option.map_eq_none_iff.mp h
      show (if k = key ∧ o.effect.isSome then some content else none) = none
      rw [heffect]
      exact if_neg fun h => Bool.false_ne_true h.2
    | _ => rfl
  | start i request => rfl
  | finish i request response => rfl
  | crash i request => rfl

theorem storedBy?_setex {key : String} {t : ℚ} {i : ℕ} {request : ApiRequest} {ttl : ℕ}
    {content : ByteArray} {o : Outcome Unit} {r : Unit} (ho : o.effect = some r) :
    storedBy? key (t, .cmd i request (.setex key ttl content) o) = some content := by
  show (if key = key ∧ o.effect.isSome then some content else none) = _
  rw [ho]
  exact if_pos ⟨rfl, rfl⟩

theorem storedBy?_of_ne {key : String} {t : ℚ} {i : ℕ} {request : ApiRequest} {c : Await}
    {o : Outcome (AwaitReply c)} (h : ∀ ttl content, c ≠ .setex key ttl content) :
    storedBy? key (t, .cmd i request c o) = none := by
  cases c with
  | setex k ttl content =>
    unfold storedBy?
    exact if_neg fun hk => h ttl content (by rw [hk.1])
  | _ => rfl

variable {es : List ApiEvent}
  {s : ℚ × Pool Await AwaitReply ApiRequest (fun _ => ApiResponse) Backends}

/-- What is under a key of the cache is the last body that was stored there. -/
theorem lastStored_of_run (hr : publicApi.Run es s) {key : String} (hcache : IsCacheKey key) :
    ∀ e ∈ s.2.store.redis.entries key,
      ∃ content, e.value = .bytes content ∧ lastStored? key es = some content := by
  refine dispatch_obeyed.timed_invariant (I := fun es s => ∀ e ∈ s.redis.entries key,
    ∃ content, e.value = .bytes content ∧ lastStored? key es = some content) ?_ ?_ ?_ hr
  · intro s hs e he
    rw [hs _ (.inr hcache)] at he
    exact absurd he (by simp)
  · intro es s t e ih hidle entry hentry
    rw [lastStored?_append_singleton, storedBy?_of_idle hidle, Option.none_or]
    exact ih entry hentry
  · intro es s t i request c k o r s' hr ih hclock hth hrule ho hx entry hentry
    rw [lastStored?_append_singleton]
    by_cases hset : ∃ ttl content, c = .setex key ttl content
    · obtain ⟨ttl, content, rfl⟩ := hset
      rw [exec_setex hx, ExpiringStore.entries_set_self] at hentry
      obtain rfl := Option.some.inj hentry
      rw [storedBy?_setex ho, Option.some_or]
      exact ⟨content, rfl, rfl⟩
    · have hset : ∀ ttl content, c ≠ .setex key ttl content :=
        fun ttl content hc => hset ⟨ttl, content, hc⟩
      rw [entries_of_cacheRule hrule.cache hx hcache hset] at hentry
      rw [storedBy?_of_ne hset, Option.none_or]
      exact ih entry hentry

/-- **A hit finds the last body that was stored** for its parcel and tier. -/
theorem found_eq_lastStored {parcel_id : String} {tier : UserTier} {before : List ApiEvent} {read : ℚ}
    {found : ByteArray} {answer : Answer} (hr : publicApi.Run es s)
    (h : HitAt parcel_id tier before read found answer es) :
    lastStored? (cacheKey parcel_id tier) before = some found := by
  obtain ⟨i, request, o, t, remaining, mid, post, rfl, -, -, -, hseen, -⟩ := h
  obtain ⟨s₀, s', h₀, hx⟩ := executed_of_seen hr hseen
  obtain ⟨e, hentry, -, hget⟩ := entry_of_getValue (exec_get hx).2.symm
  obtain ⟨content, hvalue, hlast⟩ := lastStored_of_run h₀ (isCacheKey_cacheKey parcel_id tier) e hentry
  rw [hvalue] at hget
  obtain rfl := Option.some.inj (Except.ok.inj hget)
  exact hlast

/-! ### When hits and misses show the same -/

/-- JSON is the only media type that is sent as JSON. -/
theorem SendsMediaType.eq_json_iff {header : Option String → Option String} (h : SendsMediaType header)
    {contentType : Option String} : header (some "application/json") = header contentType ↔
      contentType = some "application/json" := by
  have hjson : header (some "application/json") = some "application/json" :=
    h.other _ (by decide)
  rw [hjson]
  refine ⟨fun hsame => ?_, fun hsame => by rw [hsame, hjson]⟩
  cases contentType with
  | none =>
    rw [h.absent] at hsame
    exact absurd hsame (by simp)
  | some mediaType =>
    by_cases htext : "text/".toList <+: mediaType.toList
    · -- a text stays one with a charset
      obtain ⟨charset, hcharset⟩ := h.text mediaType htext
      rw [hcharset] at hsame
      have hl : "text/".toList <+: "application/json".toList := by
        rw [Option.some.inj hsame, String.toList_append]
        exact htext.trans (List.prefix_append _ _)
      exact absurd hl (by decide)
    · rw [h.other _ htext] at hsame
      exact hsame.symm

/-- Every response with status 200 that is returned as a miss has been stored. -/
theorem missAt_of_finish {pre post : List ApiEvent} {t : ℚ} {i : ℕ} {request : ApiRequest}
    {parcel_id : String} {content : ByteArray} {contentType : Option String} {remaining : Option ℤ}
    (hr : publicApi.Run (pre ++ (t, .finish i request
      ⟨.response content 200 contentType (some "MISS"), remaining⟩) :: post) s)
    (hroute : request.route = .get_property parcel_id) :
    ∃ e ∈ pre, MissAt parcel_id request.tier content contentType e.1 (pre ++ (t, .finish i request
      ⟨.response content 200 contentType (some "MISS"), remaining⟩) :: post) := by
  have hown := (dispatch_propertyEnds.returns hr _ hroute).stored_of_miss rfl
  obtain ⟨pre₁, stored, o, mid, rfl, -, hstart⟩ := exists_split_of_finish hr hown
  refine ⟨_, List.mem_append_right _ List.mem_cons_self, i, request, o, t, remaining, pre₁, mid, post, ?_,
    hstart, hroute, rfl⟩
  rw [List.append_assoc, List.cons_append]

/-- Every hit has found its body in the cache. -/
theorem hitAt_of_finish {pre post : List ApiEvent} {t : ℚ} {i : ℕ} {request : ApiRequest}
    {parcel_id : String} {content : ByteArray} {status_code : ℕ} {mediaType : Option String}
    {remaining : Option ℤ}
    (hr : publicApi.Run (pre ++ (t, .finish i request
      ⟨.response content status_code mediaType (some "HIT"), remaining⟩) :: post) s)
    (hroute : request.route = .get_property parcel_id) :
    ∃ before read, HitAt parcel_id request.tier before read content
      (.response content status_code mediaType (some "HIT")) (pre ++ (t, .finish i request
        ⟨.response content status_code mediaType (some "HIT"), remaining⟩) :: post) := by
  obtain ⟨hne, hown⟩ := (dispatch_propertyEnds.returns hr _ hroute).found_of_hit rfl
  obtain ⟨before, read, o, mid, rfl, hseen, hstart⟩ := exists_split_of_finish hr hown
  refine ⟨before, read, i, request, o, t, remaining, mid, post, ?_, hstart, hroute, rfl, hseen, hne⟩
  rw [List.append_assoc, List.cons_append]

/-- The answer of a hit. -/
theorem answer_of_hit {parcel_id : String} {tier : UserTier} {before : List ApiEvent} {read : ℚ}
    {found : ByteArray} {answer : Answer} (hr : publicApi.Run es s)
    (h : HitAt parcel_id tier before read found answer es) :
    (found.IsValidUTF8 → answer = .response found 200 (some "application/json") (some "HIT")) ∧
      (¬ found.IsValidUTF8 → answer = .raised "UnicodeDecodeError") := by
  obtain ⟨i, request, o, t, remaining, mid, post, rfl, hstart, hroute, rfl, hseen, hne⟩ := h
  rw [← List.cons_append, ← List.append_assoc] at hr
  refine (dispatch_propertyEnds.returns hr _ hroute).of_found hne ?_
  rw [← hseen]
  exact mem_ownOps_of_split hstart

/-- **When a hit shows what a miss has shown.** -/
theorem shows_iff {header : Option String → Option String} (hheader : SendsMediaType header)
    {parcel_id : String} {tier : UserTier} {before : List ApiEvent} {read : ℚ} {found content : ByteArray}
    {contentType : Option String} {answer : Answer} (hr : publicApi.Run es s)
    (h : HitAt parcel_id tier before read found answer es) :
    answer.Shows header content contentType ↔
      lastStored? (cacheKey parcel_id tier) before = some content ∧ content.IsValidUTF8 ∧
        contentType = some "application/json" := by
  obtain ⟨hvalid, hinvalid⟩ := answer_of_hit hr h
  rw [found_eq_lastStored hr h, ← hheader.eq_json_iff]
  constructor
  · rintro ⟨mediaType, xCache, rfl, hsame⟩
    by_cases hfound : found.IsValidUTF8
    · obtain ⟨rfl, -, rfl, -⟩ := Answer.response.inj (hvalid hfound)
      exact ⟨rfl, hfound, hsame⟩
    · exact absurd (hinvalid hfound) (by simp)
  · rintro ⟨hfound, htext, hsame⟩
    obtain rfl := Option.some.inj hfound
    exact ⟨_, _, hvalid htext, hsame⟩

/-- A body that cannot be stored is never shown. -/
theorem not_shows_of_unwritten {header : Option String → Option String} {content : ByteArray}
    {contentType : Option String} {answer : Answer} (hr : publicApi.Run es s)
    (h : UnwrittenAt content contentType answer es) : ¬ answer.Shows header content contentType := by
  obtain ⟨i, request, parcel_id, e, t, remaining, pre, post, rfl, hroute, -, hown⟩ := h
  have hanswer := (dispatch_propertyEnds.returns hr _ hroute).of_unwritten hown
  rintro ⟨mediaType, xCache, hshown, -⟩
  exact absurd (hanswer.symm.trans hshown) (by simp [badGateway, httpException])

/-- **The cache is transparent** if and only if no write fails, and every hit finds a text that came as
JSON. -/
theorem transparent_iff (header : Option String → Option String) (hheader : SendsMediaType header)
    (es : List ApiEvent) (s : ℚ × Pool Await AwaitReply ApiRequest (fun _ => ApiResponse) Backends)
    (hr : publicApi.Run es s) : Transparent header es ↔ Cacheable es := by
  constructor
  · intro h
    constructor
    · intro parcel_id tier content contentType stored before read found answer hmiss hhit hne htime
      exact (shows_iff hheader hr hhit).mp (h.hit _ _ _ _ _ _ _ _ _ hmiss hhit hne htime)
    · intro content contentType answer hunwritten
      exact not_shows_of_unwritten hr hunwritten (h.write _ _ _ hunwritten)
  · intro h
    constructor
    · intro parcel_id tier content contentType stored before read found answer hmiss hhit hne htime
      exact (shows_iff hheader hr hhit).mpr (h.hit _ _ _ _ _ _ _ _ _ hmiss hhit hne htime)
    · intro content contentType answer hunwritten
      exact absurd hunwritten (h.write _ _ _)

/-! ### JSON and what is not called so -/

/-- The `Content-Type` that Starlette sends. -/
def contentTypeHeader : Option String → Option String
  | none => none
  | some mediaType =>
    if "text/".toList <+: mediaType.toList ∧ ¬ "charset=".toList <:+: mediaType.toLower.toList then
      some (mediaType ++ "; charset=utf-8")
    else some mediaType

theorem sendsMediaType_contentTypeHeader : SendsMediaType contentTypeHeader where
  absent := rfl
  text := by
    intro mediaType htext
    show ∃ charset, (if _ ∧ _ then _ else some mediaType) = some (mediaType ++ charset)
    split
    · exact ⟨"; charset=utf-8", rfl⟩
    · exact ⟨"", by rw [String.append_empty]⟩
  other := by
    intro mediaType htext
    exact if_neg fun h => htext h.1

/-- The parcel that a request is about. -/
def Route.parcel? : Route → Option String
  | get_property parcel_id => some parcel_id
  | _ => none

theorem Route.of_parcel? {route : Route} {parcel_id : String} (h : route.parcel? = some parcel_id) :
    route = .get_property parcel_id := by
  cases route with
  | get_property parcel_id' => rw [Option.some.inj h]
  | _ => exact absurd h (by simp [Route.parcel?])

/-- The body of a miss, and its type. -/
def missBody? : ApiEvent → Option (ByteArray × Option String)
  | (_, .finish _ _ ⟨.response content 200 contentType (some "MISS"), _⟩) => some (content, contentType)
  | _ => none

theorem of_missBody? {e : ApiEvent} {content : ByteArray} {contentType : Option String}
    (h : missBody? e = some (content, contentType)) : ∃ t i request remaining,
      e = (t, .finish i request ⟨.response content 200 contentType (some "MISS"), remaining⟩) := by
  unfold missBody? at h
  split at h
  · obtain ⟨rfl, rfl⟩ := Prod.mk.inj (Option.some.inj h)
    exact ⟨_, _, _, _, rfl⟩
  · exact absurd h (by simp)

/-- The body that a request sends to the cache, and whether it sees that it has been stored. -/
def sentBody? : ApiEvent → Option (ByteArray × Bool)
  | (_, .cmd _ _ (.setex _ _ content) o) => some (content, o.seen.isOk)
  | _ => none

theorem sentBody?_of_storedBy? {key : String} {e : ApiEvent} {content : ByteArray}
    (h : storedBy? key e = some content) : ∃ seen, sentBody? e = some (content, seen) := by
  unfold storedBy? at h
  split at h
  · split at h
    · obtain rfl := Option.some.inj h
      exact ⟨_, rfl⟩
    · exact absurd h (by simp)
  · exact absurd h (by simp)

/-- What a request finds in the cache. -/
def foundBody? : ApiEvent → Option ByteArray
  | (_, .cmd _ _ (.get _) (.ok (.ok found))) => found
  | _ => none

theorem foundBody?_get {t : ℚ} {i : ℕ} {request : ApiRequest} {key : String} {found : ByteArray}
    {o : Outcome (Except String (Option ByteArray))} (h : o.seen = .ok (.ok (some found))) :
    foundBody? (t, .cmd i request (.get key) o) = some found := by
  obtain rfl := Outcome.eq_of_seen h
  rfl

theorem repeatedDetails_transparent : Transparent contentTypeHeader repeatedDetails := by
  obtain ⟨s, hr⟩ : ∃ s, publicApi.Run repeatedDetails s :=
    run_guests [.get_property "p1", .get_property "p1"] fun _ _ => rfl
  have hmisses : ∀ e ∈ repeatedDetails, ∀ m ∈ missBody? e,
      m = (parcelBody, some "application/json") := by decide +kernel
  have hsent : ∀ e ∈ repeatedDetails, ∀ w ∈ sentBody? e, w = (parcelBody, true) := by decide +kernel
  refine (transparent_iff contentTypeHeader sendsMediaType_contentTypeHeader _ _ hr).mpr ⟨?_, ?_⟩
  · intro parcel_id tier content contentType stored before read found answer hmiss hhit hne htime
    have hlast := found_eq_lastStored hr hhit
    obtain ⟨_, _, _, _, _, _, _, hsplit, -⟩ := hhit
    have hbefore : ∀ e ∈ before, e ∈ repeatedDetails := by
      intro e he
      rw [hsplit]
      exact List.mem_append_left _ he
    -- every body is the same
    obtain ⟨e, he, hstored⟩ := List.exists_of_findSome?_eq_some hlast
    obtain ⟨seen, hseen⟩ := sentBody?_of_storedBy? hstored
    obtain ⟨rfl, -⟩ := Prod.mk.inj (hsent e (hbefore e (List.mem_reverse.mp he)) _ hseen)
    obtain ⟨i, request, o, t₁, remaining, pre, mid, post, rfl, -⟩ := hmiss
    have hbody := hmisses
      (t₁, .finish i request ⟨.response content 200 contentType (some "MISS"), remaining⟩)
      (hbefore _ (by simp)) _ rfl
    obtain ⟨rfl, rfl⟩ := Prod.mk.inj hbody
    exact ⟨hlast, String.isValidUTF8 _, rfl⟩
  · intro content contentType answer hunwritten
    obtain ⟨i, request, parcel_id, e, t₁, remaining, pre, post, hes, -, -, hown⟩ := hunwritten
    obtain ⟨pre₁, t₂, o, mid, rfl, hseen, -⟩ := exists_split_of_finish (hes ▸ hr) hown
    have hfailed := hsent (t₂, .cmd i request (.setex (cacheKey parcel_id request.tier) 3600 content) o)
      (hes ▸ by simp) _ rfl
    have hok : o.seen.isOk = true := (Prod.mk.inj hfailed).2
    rw [hseen] at hok
    exact absurd hok Bool.false_ne_true

/-- All requests are for this parcel and of this tier. -/
def OneParcel (parcel_id : String) (tier : UserTier) (es : List ApiEvent) : Prop :=
  ∀ e ∈ es, e.2.call.route.parcel? = some parcel_id ∧ e.2.call.tier = tier

/-- A miss among requests for one parcel. -/
theorem missAt_of_missBody? {parcel_id : String} {tier : UserTier} {content : ByteArray}
    {contentType : Option String} (hr : publicApi.Run es s) (hone : OneParcel parcel_id tier es)
    (hmiss : es.findSome? missBody? = some (content, contentType)) :
    ∃ e ∈ es, MissAt parcel_id tier content contentType e.1 es := by
  obtain ⟨e, hmem, he⟩ := List.exists_of_findSome?_eq_some hmiss
  obtain ⟨t, i, request, remaining, rfl⟩ := of_missBody? he
  obtain ⟨hparcel, htier⟩ := hone _ hmem
  obtain ⟨pre, post, rfl⟩ := List.append_of_mem hmem
  obtain ⟨e, he, hmissAt⟩ := missAt_of_finish hr (Route.of_parcel? hparcel)
  exact ⟨e, List.mem_append_left _ he, htier ▸ hmissAt⟩

/-- A hit among requests for one parcel. -/
theorem hitAt_of_hitBody? {parcel_id : String} {tier : UserTier} {content : ByteArray}
    (hr : publicApi.Run es s) (hone : OneParcel parcel_id tier es)
    (hhit : es.getLast?.bind hitBody? = some content) :
    ∃ before read answer, HitAt parcel_id tier before read content answer es := by
  obtain ⟨e, he, hbody⟩ := Option.bind_eq_some_iff.mp hhit
  obtain ⟨pre, rfl⟩ := List.getLast?_eq_some_iff.mp he
  obtain ⟨t, i, request, ⟨answer, remaining⟩, status_code, mediaType, rfl, rfl⟩ := of_hitBody? hbody
  obtain ⟨hparcel, htier⟩ := hone _ (List.mem_append_right _ List.mem_cons_self)
  obtain ⟨before, read, h⟩ := hitAt_of_finish hr (Route.of_parcel? hparcel)
  exact ⟨before, read, _, htier ▸ h⟩

/-- A parcel on a map, as Parser describes it. -/
def geoDetails : List ApiEvent :=
  timedSession backends ApiRequest.dispatch
    [guestRequest (.get_property "p1") 0, guestRequest (.get_property "p1") 1]
    { Backends.blank with responses := fun _ => ⟨200, parcelBody, some "application/geo+json"⟩ }

/-- **A hit is shown as JSON**, although the miss was not: the second request for a parcel gets the type
`application/json`, and the first one the type that Parser had given. -/
theorem geoDetails_not_transparent : ∃ s, publicApi.Run geoDetails s ∧
    ¬ Transparent contentTypeHeader geoDetails := by
  obtain ⟨s, hr⟩ : ∃ s, publicApi.Run geoDetails s :=
    run_guests [.get_property "p1", .get_property "p1"] fun _ _ => rfl
  refine ⟨s, hr, fun htransparent => ?_⟩
  have hone : OneParcel "p1" .anonymous geoDetails := by
    unfold OneParcel
    decide +kernel
  have htimes : ∀ e ∈ geoDetails, ∀ e' ∈ geoDetails, e.1 ≤ e'.1 + 3600 := by decide +kernel
  obtain ⟨before, read, answer, hhit⟩ :=
    hitAt_of_hitBody? hr hone (show _ = some parcelBody by decide +kernel)
  obtain ⟨j, request, o, t, remaining, mid, post, hsplit, -, -, -, hseen, -⟩ := id hhit
  -- the miss comes before it
  have hmiss : before.findSome? missBody? = some (parcelBody, some "application/geo+json") :=
    of_take (p := fun e => (foundBody? e).isSome)
      (P := fun es => es.findSome? missBody? = some (parcelBody, some "application/geo+json"))
      (by decide +kernel) hsplit (by rw [foundBody?_get hseen]; rfl)
  have hbefore : ∀ e ∈ before, e ∈ geoDetails := by
    intro e he
    rw [hsplit]
    exact List.mem_append_left _ he
  obtain ⟨s₀, -, h₀, -, -⟩ := (hsplit ▸ hr).step_at
  obtain ⟨stored, hstored, hmissAt⟩ :=
    missAt_of_missBody? h₀ (fun e he => hone e (hbefore e he)) hmiss
  have htime : read ≤ stored.1 + 3600 :=
    htimes (read, .cmd j request _ o) (hsplit ▸ List.mem_append_right _ List.mem_cons_self) stored
      (hbefore stored hstored)
  -- the types are different
  have hshown := (shows_iff sendsMediaType_contentTypeHeader hr hhit).mp
    (htransparent.hit _ _ _ _ _ _ _ _ _ hmissAt hhit (by decide +kernel) htime)
  exact absurd hshown.2.2 (by decide)

end Legacy

end TaxlienGateway
