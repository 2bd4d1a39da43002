import TaxlienGateway.Framework.Dict
import TaxlienGateway.Legacy.Auth
import TaxlienGateway.Legacy.UsageTracker

/-!
# The public API

The routes of `legacy/app/api/v1` behind `RateLimitMiddleware` and `enforce_tier`, as programs over the
commands of `Legacy/Await.lean`. A request comes with the context that `AuthMiddleware` gives it, whose
tier is a member of `UserTier`.

A request goes through three stages, and each may answer it: the rate limiter of its tier and
identifier, the daily limit of its route's feature, if the route declares one, and its handler.
-/

namespace TaxlienGateway

open Framework

namespace Legacy

/-! ### Requests and responses -/

/-- The routes, with what each of them takes from a request. -/
inductive Route where
  /-- `GET /v1/properties/{parcel_id}` -/
  | get_property (parcel_id : String)
  /-- `GET /v1/properties` -/
  | search_properties (query_params : List (String × String))
  /-- `GET /v1/search/address` -/
  | search_by_address (query_params : List (String × String))
  /-- `GET /v1/search/owner` -/
  | search_by_owner (query_params : List (String × String))
  /-- `POST /v1/predictions/batch`; `none` is a body that is not JSON -/
  | get_predictions_batch (body : Option Json)
  /-- `GET /v1/top-lists/{strategy}` -/
  | get_top_list (strategy : String) (query_params : List (String × String))
  /-- `GET /v1/usage` -/
  | get_usage

/-- A request to the public application; `user_id`, `worker_id` and `tier` are those of its context. -/
structure ApiRequest where
  user_id : Option String
  worker_id : Option String
  tier : UserTier
  /-- `request.client.host` -/
  client_host : Option String
  x_request_id : Option String
  route : Route
  /-- `datetime.date.today()`, which a request reads at most once. -/
  today : Date
  /-- `time.time()`, in the rate limiter. -/
  time : ℚ

/-- How a request is answered. -/
inductive Answer where
  /-- `Response`; of its headers, `X-Cache`. -/
  | response (content : ByteArray) (status_code : ℕ) (mediaType : Option String)
      (xCache : Option String)
  /-- `JSONResponse` -/
  | json (status_code : ℕ) (content : Json)
  /-- An exception that no handler catches. -/
  | raised (e : String)

/-- The answer, and the header that the rate limiter adds. -/
structure ApiResponse where
  answer : Answer
  x_ratelimit_remaining : Option ℤ

/-- `HTTPException` -/
def httpException (status_code : ℕ) (detail : Json) : Answer :=
  .json status_code (.obj [("detail", detail)])

/-- `HTTPException(status_code=502)`, when an upstream service fails. -/
def badGateway (detail : String) : Answer := httpException 502 (.str detail)

/-- The answer of `RateLimitMiddleware`. -/
def rateLimitExceeded : Answer :=
  .json 429 (.obj [("error", .obj [("code", .str "RATE_LIMIT_EXCEEDED"),
    ("message", .str "Too many requests. Please slow down.")])])

/-- The answer of `enforce_tier(feature)`. -/
def tierLimitExceeded (feature : String) : Answer :=
  httpException 403 (.obj [("code", .str "TIER_LIMIT_EXCEEDED"),
    ("message", .str ("Daily limit for " ++ feature ++ " exceeded. Upgrade your tier.")),
    ("upgrade_url", .str "https://taxlien.online/pricing")])

/-- Await `p`; an exception is answered with `fail`. -/
def orFail {α : Type} (p : Prog Await AwaitReply (Except String α)) (fail : String → Answer)
    (k : α → Prog Await AwaitReply Answer) : Prog Await AwaitReply Answer := do
  match ← p with
  | .error e => pure (fail e)
  | .ok a => k a

/-! ### The guard -/

/-- The feature that a route names in `Depends(enforce_tier(...))`. -/
def Route.feature? : Route → Option String
  | get_property _ => some "daily_details"
  -- no guard is declared here
  | search_properties _ => none
  | search_by_address _ => some "search"
  | search_by_owner _ => some "search"
  | get_predictions_batch _ => some "ai_analysis"
  | get_top_list _ _ => some "top_lists"
  | get_usage => none

/-- `auth.user_id or request.client.host` -/
def ApiRequest.caller? (request : ApiRequest) : Option String :=
  (truthy request.user_id).or request.client_host

/-- The call of `check_and_increment` that a request makes. -/
def ApiRequest.usage? (request : ApiRequest) : Option UsageCall :=
  request.route.feature?.bind fun feature =>
    request.caller?.map fun user_id => ⟨⟨user_id, feature, request.today⟩, request.tier⟩

/-- `enforce_tier(feature)`, before the handler `k`. -/
def ApiRequest.enforceTier (request : ApiRequest) (feature : String)
    (k : Prog Await AwaitReply Answer) : Prog Await AwaitReply Answer :=
  match request.caller? with
  | none => pure (.raised "AttributeError")
  | some user_id =>
    orFail (UsageCall.checkAndIncrement ⟨⟨user_id, feature, request.today⟩, request.tier⟩) .raised
      fun allowed => if allowed then k else pure (tierLimitExceeded feature)

/-! ### The handlers -/

/-- `auth.user_id or "anonymous"` -/
def ApiRequest.xUserId (request : ApiRequest) : String := (truthy request.user_id).getD "anonymous"

/-- The headers that every upstream request carries. -/
def ApiRequest.headers (request : ApiRequest) : List (String × String) :=
  [("X-User-ID", request.xUserId), ("X-User-Tier", request.tier.value)]

/-- Ask an upstream service and pass its response on. -/
def proxy (request : UpstreamRequest) (detail : String) : Prog Await AwaitReply Answer :=
  orFail (upstream request) (fun _ => badGateway detail) fun response =>
    pure (.response response.content response.status_code response.contentType none)

/-- `cache_key` of `get_property` -/
def cacheKey (parcel_id : String) (tier : UserTier) : String :=
  "cache:prop:" ++ parcel_id ++ ":" ++ tier.value

/-- The upstream request of `get_property`. -/
def ApiRequest.propertyRequest (request : ApiRequest) (parcel_id : String) : UpstreamRequest where
  service := "parser"
  method := "GET"
  path := "/api/v1/properties/" ++ parcel_id
  params := []
  headers := request.headers ++ [("X-Request-ID", request.x_request_id.getD "")]
  json := none

/-- What `get_property` does when the cache has nothing. -/
def ApiRequest.fetchProperty (request : ApiRequest) (parcel_id : String) : Prog Await AwaitReply Answer :=
  let failed := fun _ : String => badGateway "Upstream service error"
  orFail (upstream (request.propertyRequest parcel_id)) failed fun response =>
    let miss : Answer :=
      .response response.content response.status_code response.contentType (some "MISS")
    if response.status_code = 200 then
      -- a failure here is answered like one of the upstream service
      orFail (setex (cacheKey parcel_id request.tier) 3600 response.content) failed fun _ => pure miss
    else pure miss

/-- `get_property` -/
def ApiRequest.getProperty (request : ApiRequest) (parcel_id : String) : Prog Await AwaitReply Answer :=
  orFail (get (cacheKey parcel_id request.tier)) .raised fun cached_data =>
    -- an empty text counts as nothing
    match truthy cached_data with
    | some data => pure (.response data.toByteArray 200 (some "application/json") (some "HIT"))
    | none => request.fetchProperty parcel_id

/-- An upstream request of `search_properties`, `search_by_address`, `search_by_owner` or
`get_top_list`; its parameters are `dict(request.query_params)`. -/
def ApiRequest.listRequest (request : ApiRequest) (service path : String)
    (query_params : List (String × String)) : UpstreamRequest where
  service := service
  method := "GET"
  path := path
  params := Dict.ofItems query_params
  headers := request.headers
  json := none

/-- `search_properties` -/
def ApiRequest.searchProperties (request : ApiRequest) (query_params : List (String × String)) :
    Prog Await AwaitReply Answer :=
  proxy (request.listRequest "parser" "/api/v1/properties" query_params) "Upstream service error"

/-- `search_by_address` -/
def ApiRequest.searchByAddress (request : ApiRequest) (query_params : List (String × String)) :
    Prog Await AwaitReply Answer :=
  proxy (request.listRequest "parser" "/api/v1/search/address" query_params) "Upstream service error"

/-- `search_by_owner` -/
def ApiRequest.searchByOwner (request : ApiRequest) (query_params : List (String × String)) :
    Prog Await AwaitReply Answer :=
  proxy (request.listRequest "parser" "/api/v1/search/owner" query_params) "Upstream service error"

/-- `get_top_list` -/
def ApiRequest.getTopList (request : ApiRequest) (strategy : String) (query_params : List (String × String)) :
    Prog Await AwaitReply Answer :=
  proxy (request.listRequest "ml" ("/api/v1/top-lists/" ++ strategy) query_params)
    "Upstream ML service error"

/-- The upstream request of `get_predictions_batch`. -/
def ApiRequest.predictionsRequest (request : ApiRequest) (body : Json) : UpstreamRequest where
  service := "ml"
  method := "POST"
  path := "/api/v1/predict/batch"
  params := []
  headers := request.headers ++ [("Content-Type", "application/json")]
  json := some body

/-- `get_predictions_batch` -/
def ApiRequest.getPredictionsBatch (request : ApiRequest) : Option Json → Prog Await AwaitReply Answer
  | none => pure (httpException 400 (.str "Invalid JSON body"))
  | some body => proxy (request.predictionsRequest body) "Upstream ML service error"

/-- `UsageTracker.get_user_usage`, for one feature after the other: `int(val) if val else 0`, where
`val` is a numeral, as `INCR` writes them. -/
def getUserUsage (user_id : String) (today : Date) (k : List (String × Json) → Answer) :
    List String → List (String × Json) → Prog Await AwaitReply Answer
  | [], results => pure (k results)
  | feature :: features, results =>
    orFail (get (Tally.key ⟨user_id, feature, today⟩)) .raised fun val =>
      match truthy val with
      | none => getUserUsage user_id today k features (results ++ [(feature, .num (.ofInt 0))])
      | some text =>
        match readInt? text.toList with
        | none => pure (.raised "ValueError")
        | some n => getUserUsage user_id today k features (results ++ [(feature, .num (.ofInt n))])

/-- `get_usage` -/
def ApiRequest.getUsage (request : ApiRequest) : Prog Await AwaitReply Answer :=
  getUserUsage request.xUserId request.today
    (fun usage_stats => .json 200 (.obj [("user_id", .str request.xUserId),
      ("tier", .str request.tier.value), ("usage", .obj usage_stats)]))
    ["daily_search", "daily_details"] []

/-- The handler of a route. -/
def ApiRequest.handle (request : ApiRequest) : Prog Await AwaitReply Answer :=
  match request.route with
  | .get_property parcel_id => request.getProperty parcel_id
  | .search_properties query_params => request.searchProperties query_params
  | .search_by_address query_params => request.searchByAddress query_params
  | .search_by_owner query_params => request.searchByOwner query_params
  | .get_predictions_batch body => request.getPredictionsBatch body
  | .get_top_list strategy query_params => request.getTopList strategy query_params
  | .get_usage => request.getUsage

/-! ### The rate limiter -/

/-- `auth_context.user_id or auth_context.worker_id or client_ip` -/
def ApiRequest.identifier (request : ApiRequest) : String :=
  ((truthy request.user_id).or (truthy request.worker_id)).getD (request.client_host.getD "unknown")

/-- `key` of `is_rate_limited` -/
def rateLimitKey (identifier tier : String) : String := "ratelimit:" ++ tier ++ ":" ++ identifier

/-- `is_rate_limited`, one command. -/
def isRateLimitedAt (time : ℚ) (identifier tier : String) :
    Prog Await AwaitReply (Except String (Bool × ℤ)) :=
  evalTokenBucket (rateLimitKey identifier tier) time (limitsOf tier).1 (limitsOf tier).2 1

/-- The route with its guard. -/
def ApiRequest.endpoint (request : ApiRequest) : Prog Await AwaitReply Answer :=
  match request.route.feature? with
  | none => request.handle
  | some feature => request.enforceTier feature request.handle

/-- `RateLimitMiddleware.dispatch`, around the route. -/
def ApiRequest.dispatch (request : ApiRequest) : Prog Await AwaitReply ApiResponse := do
  match ← isRateLimitedAt request.time request.identifier request.tier.value with
  | .error e => pure ⟨.raised e, none⟩
  | .ok (allowed, remaining) =>
    if allowed then do
      match ← request.endpoint with
      -- an exception leaves no response to put the header on
      | .raised e => pure ⟨.raised e, none⟩
      | answer => pure ⟨answer, some remaining⟩
    else pure ⟨rateLimitExceeded, some remaining⟩

end Legacy

end TaxlienGateway
