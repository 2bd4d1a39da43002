import TaxlienGateway.Framework.Facade
import TaxlienGateway.Handler.RawFiles
import TaxlienGateway.Handler.Work
import TaxlienGateway.Legacy.DailyQuota
import TaxlienGateway.Middleware.WorkerAuth
import TaxlienGateway.Service.WorkerRegistry
import TaxlienGateway.WorkerApi.Conservation

/-!
# The HTTP server of the Go gateway

`server.New` of `internal/server/server.go`: the routes of the worker API, behind `RequestID` and, below
`/internal`, behind `WorkerAuth`. Which route a request belongs to is the router's business, and so is how a
request without one is answered. Redis, PostgreSQL and the registry of the workers are shared by all requests,
which are interleaved command by command, and any of them may be cut off.

* `serve_internal` — a request below `/internal` reaches its handler exactly if its token is listed;
* `httpServer_refines` — the server is a façade of `workerApi`: as far as tasks and parcels are concerned, a
  run of it is a run of the worker API, in which the requests that are refused do not occur at all;
* `http_guarantees` — so no task is lost, and only workers whose token is listed touch tasks and parcels, each
  under its own name.

An upload of a raw file issues no command; what it does to the file system is in `Handler/RawFiles.lean`. Requests
for `/metrics`, which belongs to the Prometheus client, do not occur in these runs.
-/

namespace TaxlienGateway

open Framework Model Legacy

/-! ### Responses -/

/-- What is written to a client. -/
structure HttpResponse where
  status : ℕ
  contentType : String
  body : String
  deriving DecidableEq

/-- `http.Error` -/
def httpError (error : String) (code : ℕ) : HttpResponse := ⟨code, "text/plain; charset=utf-8", error ++ "\n"⟩

/-- `json.NewEncoder(w).Encode(v)`, without a status. -/
def jsonResponse (body : String) : HttpResponse := ⟨200, "application/json", body⟩

/-- `middleware.RespondError` -/
def respondError (status : ℕ) (error : ErrorBody) : HttpResponse :=
  ⟨status, "application/json",
    encode (.obj [("error", .obj [("code", .str error.code), ("message", .str error.message)])])⟩

/-- `handler.Health` -/
def healthResponse : HttpResponse :=
  jsonResponse (encode (.obj [("app", .str "internal"), ("status", .str "healthy")]))

def workResponse : Except String WorkResponse → HttpResponse
  | .error e => httpError e 500
  | .ok resp => jsonResponse resp.body

def submitResponse (resp : SubmitResponse) : HttpResponse := jsonResponse resp.body

def completeResponse : Except String Bool → HttpResponse
  | .error e => httpError e 500
  | .ok ok => jsonResponse (encode (.obj [("success", .bool ok)]))

def failResponse : Except String Bool → HttpResponse
  | .error e => httpError e 500
  | .ok ok => jsonResponse (encode (.obj [("status", .str "reported"), ("success", .bool ok)]))

/-- `model.HeartbeatResponse`; there are never any commands. -/
def heartbeatResponse : Except String Unit → HttpResponse
  | .error e => httpError e 500
  | .ok () => jsonResponse (encode (.obj [("acknowledged", .bool true), ("commands", marshalSlice [])]))

/-- The answer to an upload. -/
def uploadResponse : UploadResponse → HttpResponse
  | .ok path => jsonResponse (encode (.obj [("path", .str (ofUtf8 path)), ("status", .str "ok")]))
  | .error status code message => respondError status ⟨code, ofUtf8 message⟩

/-! ### Requests -/

/-- Why the router has no handler for a request. -/
inductive Unrouted where
  | notFound
  | methodNotAllowed
  deriving DecidableEq

/-- How it answers then. -/
def Unrouted.response : Unrouted → HttpResponse
  | notFound => httpError "404 page not found" 404
  | methodNotAllowed => ⟨405, "", ""⟩

/-- The routes below `/internal`, with what their handlers read of a request, and of the file system. A body is
`none` if it cannot be decoded. -/
inductive InternalRoute where
  /-- `GET /internal/work` -/
  | getWork (capacity : String) (platforms : List String)
  /-- `POST /internal/results` -/
  | submitResults (body : Option (List Model.ParcelResult))
  /-- `POST /internal/tasks/{taskID}/complete` -/
  | completeTask (taskID : String)
  /-- `POST /internal/tasks/{taskID}/fail` -/
  | failTask (taskID : String)
  /-- `POST /internal/heartbeat`, at the time `now` -/
  | heartbeat (body : Option WorkerStatus) (now : ℤ)
  /-- `POST /internal/raw-files`, with the files of the disk -/
  | uploadRawFile (upload : Upload) (disk : Disk)
  | unrouted (reason : Unrouted)

inductive HttpRoute where
  /-- `GET /health` -/
  | health
  | internal (route : InternalRoute)
  | unrouted (reason : Unrouted)

structure HttpRequest where
  /-- The header `X-Request-ID`. -/
  xRequestID : String
  /-- `uuid.New()` -/
  newID : String
  /-- The header `X-Worker-Token`. -/
  workerToken : List UInt8
  /-- The header `X-Worker-ID`. -/
  workerID : String
  route : HttpRoute

/-- `RequestID` keeps the id that a request brings. -/
def HttpRequest.requestID (request : HttpRequest) : String :=
  if request.xRequestID = "" then request.newID else request.xRequestID

/-- A response, with the header `X-Request-ID`. -/
structure HttpAnswer where
  xRequestID : String
  response : HttpResponse
  deriving DecidableEq

def HttpRequest.answer (request : HttpRequest) (response : HttpResponse) : HttpAnswer :=
  ⟨request.requestID, response⟩

/-! ### The handlers -/

/-- Commands on tasks and parcels, and on the registry of the workers. -/
abbrev HttpCmd : Type := Cmd ⊕ Await

abbrev HttpReply : HttpCmd → Type := BothReply Reply AwaitReply

/-- The handler of a route, for the worker with this header. -/
def InternalRoute.handle (config : Config) (header : String) : InternalRoute → Prog HttpCmd HttpReply HttpResponse
  | getWork capacity platforms => do
    let resp ← (TaxlienGateway.getWork header capacity platforms).toOuter
    pure (workResponse resp)
  | submitResults none => pure (httpError "invalid JSON" 400)
  | submitResults (some results) => do
    let resp ← (TaxlienGateway.submitResults (workerIDOf header) results).toOuter
    pure (submitResponse resp)
  | completeTask taskID => do
    let ok ← (TaxlienGateway.completeTask (workerIDOf header) taskID).toOuter
    pure (completeResponse ok)
  | failTask taskID => do
    let ok ← (TaxlienGateway.failTask (workerIDOf header) taskID).toOuter
    pure (failResponse ok)
  | heartbeat none _ => pure (httpError "invalid JSON" 400)
  | heartbeat (some status) now => do
    let done ← (Heartbeat.update ⟨workerIDOf header, toString now, status⟩).toInner
    pure (heartbeatResponse done)
  | uploadRawFile upload disk =>
    pure (uploadResponse (TaxlienGateway.uploadRawFile config.rawStorage upload disk).2)
  | unrouted reason => pure reason.response

/-- `ServeHTTP` of the router, with its middlewares. -/
def HttpRequest.serve (config : Config) (request : HttpRequest) : Prog HttpCmd HttpReply HttpAnswer := do
  let response ← match request.route with
    | .health => pure healthResponse
    | .unrouted reason => pure reason.response
    | .internal route =>
      match workerAuth config.workerTokens request.workerToken with
      | .refused status error => pure (respondError status error)
      | .next => route.handle config request.workerID
  pure (request.answer response)

/-! ### The server -/

/-- What happens to the stores: requests, and the tasks that producers push. -/
inductive ServerCall where
  | push (task : Legacy.WorkTask)
  | http (request : HttpRequest)

abbrev ServerRet : ServerCall → Type
  | .push _ => Except String Unit
  | .http _ => HttpAnswer

def ServerCall.body (config : Config) : (call : ServerCall) → Prog HttpCmd HttpReply (ServerRet call)
  | push task => (pushTask task).toOuter
  | http request => request.serve config

abbrev HttpEvent : Type := ℚ × Event HttpCmd HttpReply ServerCall ServerRet

abbrev HttpState : Type := ℚ × Pool HttpCmd HttpReply ServerCall ServerRet (Store × Backends)

/-- The server, with the configuration it has been started with. -/
def httpServer (config : Config) : System HttpState HttpEvent :=
  timedPool (fun t => server.beside (backends t)) (ServerCall.body config) fun s => s.1.Fresh

/-! ### The façade -/

/-- The call of the worker API behind a route. -/
def InternalRoute.call? (workerID : String) : InternalRoute → Option Call
  | getWork capacity platforms => some (.popTasks workerID (platformsOf platforms) (capacityOf capacity))
  | submitResults body => body.map fun results => .submitResults workerID results
  | completeTask taskID => some (.completeTask workerID taskID)
  | failTask taskID => some (.failTask workerID taskID)
  | heartbeat _ _ => none
  | uploadRawFile _ _ => none
  | unrouted _ => none

/-- The call behind a request, if it is let through. -/
def HttpRequest.call? (config : Config) (request : HttpRequest) : Option Call :=
  match request.route with
  | .internal route =>
    if workerAuth config.workerTokens request.workerToken = .next then route.call? (workerIDOf request.workerID)
    else none
  | _ => none

/-- How a request is answered, when the call behind it has returned. -/
def showsAnswer : (req : ServerCall) → (call : Call) → ServerRet req → Ret call → Prop
  | .push _, .pushTask _, a, b => a = b
  | .http request, .popTasks .., a, b => ∃ resp : Except String WorkResponse,
      b = resp.map (fun resp => resp.tasks.map ZonedTask.task) ∧ a = request.answer (workResponse resp)
  | .http request, .submitResults .., a, b => a = request.answer (submitResponse b)
  | .http request, .completeTask .., a, b => a = request.answer (completeResponse b)
  | .http request, .failTask .., a, b => a = request.answer (failResponse b)
  | _, _, _, _ => False

/-- The worker API behind the server. -/
def serverView (config : Config) : View ServerRet Ret where
  call?
    | .push task => some (.pushTask task)
    | .http request => request.call? config
  shows := showsAnswer

theorem call?_eq_some_iff {config : Config} {request : HttpRequest} {call : Call} :
    request.call? config = some call ↔ ∃ route, request.route = .internal route ∧
      workerAuth config.workerTokens request.workerToken = .next ∧
      route.call? (workerIDOf request.workerID) = some call := by
  unfold HttpRequest.call?
  cases request.route with
  | health => simp
  | internal route => simp
  | unrouted reason => simp

/-- A request reaches its handler, or is answered at once. -/
theorem serve_cases (config : Config) (request : HttpRequest) :
    (∃ response, request.serve config = .done (request.answer response) ∧
      ∀ route, request.route = .internal route → workerAuth config.workerTokens request.workerToken ≠ .next) ∨
    ∃ route, request.route = .internal route ∧ workerAuth config.workerTokens request.workerToken = .next ∧
      request.serve config =
        route.handle config request.workerID >>= fun response => pure (request.answer response) := by
  unfold HttpRequest.serve
  cases request.route with
  | health => exact .inl ⟨_, rfl, fun _ h => absurd h (by simp)⟩
  | unrouted reason => exact .inl ⟨_, rfl, fun _ h => absurd h (by simp)⟩
  | internal route =>
    cases workerAuth config.workerTokens request.workerToken with
    | next => exact .inr ⟨route, rfl, rfl, rfl⟩
    | refused status error => exact .inl ⟨_, rfl, fun _ _ => by simp⟩

/-- **A request that is let through appears as its call.** -/
theorem handle_appears {config : Config} {request : HttpRequest} {route : InternalRoute} {call : Call}
    (h : route.call? (workerIDOf request.workerID) = some call) :
    (route.handle config request.workerID).AppearsAs
      (fun response b => showsAnswer (.http request) call (request.answer response) b) (body call) := by
  cases route with
  | getWork capacity platforms =>
    obtain rfl := Option.some.inj h
    change Prog.AppearsAs _ ((TaxlienGateway.getWork request.workerID capacity platforms).toOuter >>=
        fun resp => pure (workResponse resp))
      (popTasks (workerIDOf request.workerID) (platformsOf platforms) (capacityOf capacity))
    rw [popTasks_eq]
    unfold TaxlienGateway.getWork
    rw [Prog.toOuter_bind, Prog.bind_assoc]
    refine (Prog.appearsAs_toOuter _).bind fun a b hab => ?_
    subst hab
    cases a with
    | error e => exact ⟨_, rfl, .error e, rfl, rfl⟩
    | ok tasks => exact ⟨_, rfl, .ok _, rfl, rfl⟩
  | submitResults results =>
    obtain ⟨results, rfl, rfl⟩ := Option.map_eq_some_iff.mp h
    exact (Prog.appearsAs_toOuter _).map fun a b hab => congrArg _ (congrArg _ hab)
  | completeTask taskID =>
    obtain rfl := Option.some.inj h
    exact (Prog.appearsAs_toOuter _).map fun a b hab => congrArg _ (congrArg _ hab)
  | failTask taskID =>
    obtain rfl := Option.some.inj h
    exact (Prog.appearsAs_toOuter _).map fun a b hab => congrArg _ (congrArg _ hab)
  | _ => exact absurd h (by simp [InternalRoute.call?])

/-- A route without a call behind it does nothing to tasks and parcels. -/
theorem handle_hidden {config : Config} {header : String} {route : InternalRoute}
    (h : route.call? (workerIDOf header) = none) : (route.handle config header).Hidden := by
  cases route with
  | getWork capacity platforms => exact absurd h (by simp [InternalRoute.call?])
  | submitResults results =>
    cases results with
    | none => trivial
    | some results => exact absurd h (by simp [InternalRoute.call?])
  | completeTask taskID => exact absurd h (by simp [InternalRoute.call?])
  | failTask taskID => exact absurd h (by simp [InternalRoute.call?])
  | heartbeat status now =>
    cases status with
    | none => trivial
    | some status => exact (Prog.hidden_toInner _).bind fun _ => trivial
  | uploadRawFile upload disk => trivial
  | unrouted reason => trivial

/-- **The server is a façade of the worker API.** -/
theorem server_facade (config : Config) : Facade (serverView config) (ServerCall.body config) body where
  appears req call h := by
    cases req with
    | push task =>
      obtain rfl := Option.some.inj h
      exact Prog.appearsAs_toOuter _
    | http request =>
      obtain ⟨route, hroute, hnext, hcall⟩ := call?_eq_some_iff.mp h
      obtain ⟨response, -, hno⟩ | ⟨route', hroute', -, hserve⟩ := serve_cases config request
      · exact absurd hnext (hno route hroute)
      · obtain rfl := HttpRoute.internal.inj (hroute.symm.trans hroute')
        rw [ServerCall.body, hserve]
        exact (handle_appears hcall).map fun _ _ h => h
  hidden req h := by
    cases req with
    | push task => exact absurd h (by simp [serverView])
    | http request =>
      refine (serve_cases config request).elim (fun ⟨response, hserve, _⟩ => ?_) ?_
      · rw [ServerCall.body, hserve]
        trivial
      · rintro ⟨route, hroute, hnext, hserve⟩
        rw [ServerCall.body, hserve]
        refine (handle_hidden ?_).bind fun _ => trivial
        -- a call behind the route would be one behind the request
        cases hcall : route.call? (workerIDOf request.workerID) with
        | none => rfl
        | some call =>
          exact absurd (h.symm.trans (call?_eq_some_iff.mpr ⟨route, hroute, hnext, hcall⟩)) (by simp)

/-! ### Admission -/

/-- **Who reaches a handler.** A request below `/internal` reaches its handler if its token is listed, and is
answered with 401 at once if it is not. -/
theorem serve_internal (environ : Environ) {request : HttpRequest} {route : InternalRoute}
    (hroute : request.route = .internal route) :
    (Listed (environ "GATEWAY_WORKER_TOKENS") request.workerToken →
      request.serve (load environ) =
        route.handle (load environ) request.workerID >>= fun response => pure (request.answer response)) ∧
    (¬ Listed (environ "GATEWAY_WORKER_TOKENS") request.workerToken → ∃ message,
      request.serve (load environ) = .done (request.answer (respondError 401 ⟨"UNAUTHORIZED", message⟩))) := by
  unfold HttpRequest.serve
  rw [hroute]
  refine ⟨fun hlisted => ?_, fun hunlisted => ?_⟩
  · simp only [workerAuth_eq_next_iff_listed.mpr hlisted]
  · obtain ⟨message, hrefused⟩ := workerAuth_refused (mt workerAuth_eq_next_iff_listed.mp hunlisted)
    refine ⟨message, ?_⟩
    simp only [hrefused]
    rfl

/-! ### The requests behind the commands -/

/-- The request is let through to this route. -/
structure HttpRequest.Admitted (request : HttpRequest) (environ : Environ) (route : InternalRoute) : Prop where
  route_eq : request.route = .internal route
  listed : Listed (environ "GATEWAY_WORKER_TOKENS") request.workerToken

theorem HttpRequest.Admitted.call? {request : HttpRequest} {environ : Environ} {call : Call}
    (h : request.call? (load environ) = some call) :
    ∃ route, request.Admitted environ route ∧ route.call? (workerIDOf request.workerID) = some call := by
  obtain ⟨route, hroute, hnext, hcall⟩ := call?_eq_some_iff.mp h
  exact ⟨route, ⟨hroute, workerAuth_eq_next_iff_listed.mp hnext⟩, hcall⟩

/-- The route reports on the task. -/
def InternalRoute.Reports (taskID : String) : InternalRoute → Prop
  | completeTask id => id = taskID
  | failTask id => id = taskID
  | submitResults (some results) => ∃ r ∈ results, r.taskID = taskID
  | _ => False

/-- An executed command of the server. -/
abbrev HttpStep : Type := Applied HttpCmd HttpReply ServerCall

/-- The executed commands of a history. -/
def httpApplied (es : List HttpEvent) : List HttpStep := applied (es.map Prod.snd)

/-- The payload pushed. -/
def httpPushes : HttpStep → List String
  | ⟨_, .inl (.lpush _ payload), _⟩ => [payload]
  | _ => []

/-- The payloads removed by `LREM`. -/
def httpRemoves : HttpStep → List String
  | ⟨_, .inl (.lrem _ payload), n⟩ => List.replicate n payload
  | _ => []

/-- What holds of tasks and parcels after a history of the server. -/
structure HttpGuarantees (environ : Environ) (es : List HttpEvent) (redis : ListStore String String) : Prop where
  /-- Nothing is lost and nothing is made up. -/
  conserved : redis.content IsTaskKey + ((httpApplied es).flatMap httpRemoves : Multiset String) =
    ((httpApplied es).flatMap httpPushes : Multiset String)
  /-- A processing list holds what a listed worker of this name has fetched, from a queue it asked for. -/
  held : ∀ w, ∀ raw ∈ redis.lists (processingKey w), ∃ request capacity platforms platform priority,
    request.Admitted environ (.getWork capacity platforms) ∧ workerIDOf request.workerID = w ∧
    platform ∈ platformsOf platforms ∧ priority ∈ priorities ∧
    (⟨.http request, .inl (.rpoplpush (queueKey platform priority) (processingKey w)), some raw⟩ : HttpStep) ∈
      httpApplied es
  /-- A task is removed by a listed worker that reports on it, from its own list. -/
  removed : ∀ call key raw n, (⟨call, .inl (.lrem key raw), n⟩ : HttpStep) ∈ httpApplied es →
    ∃ request route t, call = .http request ∧ request.Admitted environ route ∧
      key = processingKey (workerIDOf request.workerID) ∧ unmarshalTask raw = some t ∧ route.Reports t.taskID
  /-- A parcel is written by a listed worker that submits it, under its own name. -/
  written : ∀ call key data scrapedAt w r,
    (⟨call, .inl (.insertParcel key data scrapedAt w), r⟩ : HttpStep) ∈ httpApplied es →
    ∃ request results result, call = .http request ∧
      request.Admitted environ (.submitResults (some results)) ∧ result ∈ results ∧
      Cmd.insertParcel key data scrapedAt w = insertResult result (workerIDOf request.workerID)

section Run

variable {environ : Environ} {es' : List HttpEvent} {s' : HttpState}

/-- **Refinement.** For tasks and parcels, a run of the server is a run of the worker API, of the calls behind
the requests that are let through. -/
theorem httpServer_refines (config : Config) (es' : List HttpEvent) (s' : HttpState)
    (hr : (httpServer config).Run es' s') :
    ∃ es p, workerApi.Run es p ∧ Behind (serverView config) es' es ∧ PoolView (serverView config) s'.2 p :=
  facade_refines (server_facade config) (fun _ h => h) hr

/-- A payload that has been fetched is one that a listed worker has asked for. -/
theorem exists_fetch {es : List (Event Cmd Reply Call Ret)} {p : Pool Cmd Reply Call Ret Store}
    (hr : workerApi.Run es p) (hbehind : Behind (serverView (load environ)) es' es) {w raw : String}
    (h : raw ∈ collect (movesTo (processingKey w)) es) :
    ∃ request capacity platforms platform priority,
      request.Admitted environ (.getWork capacity platforms) ∧ workerIDOf request.workerID = w ∧
      platform ∈ platformsOf platforms ∧ priority ∈ priorities ∧
      (⟨.http request, .inl (.rpoplpush (queueKey platform priority) (processingKey w)), some raw⟩ : HttpStep) ∈
        httpApplied es' := by
  obtain ⟨platforms, capacity, src, hmem⟩ := exists_move_of_mem hr h
  obtain ⟨req, hcall, hmem'⟩ := hbehind.exists_request hmem
  obtain ⟨platform, hplat, priority, hprio, rfl⟩ :
      ∃ platform ∈ platforms, ∃ priority ∈ priorities, src = queueKey platform priority := by
    cases allowed_of_applied hr hmem with
    | move hplat hprio => exact ⟨_, hplat, _, hprio, rfl⟩
  cases req with
  | push task => exact absurd hcall (by simp [serverView])
  | http request =>
    obtain ⟨route, hroute, hcall⟩ := HttpRequest.Admitted.call? hcall
    cases route with
    | getWork capacity' platforms' =>
      obtain ⟨rfl, rfl, rfl⟩ := Call.popTasks.inj (Option.some.inj hcall)
      exact ⟨request, capacity', platforms', platform, priority, hroute, rfl, hplat, hprio, hmem'⟩
    | submitResults results => exact absurd hcall (by cases results <;> simp [InternalRoute.call?])
    | _ => exact absurd hcall (by simp [InternalRoute.call?])

/-- The call behind a request to have a task removed. -/
theorem reports_of_requests {request : HttpRequest} {route : InternalRoute} {call : Call} {w taskID : String}
    (hcall : route.call? (workerIDOf request.workerID) = some call) (h : call.Requests w taskID) :
    w = workerIDOf request.workerID ∧ route.Reports taskID := by
  cases route with
  | completeTask id =>
    obtain rfl := Option.some.inj hcall
    exact ⟨h.1.symm, h.2⟩
  | failTask id =>
    obtain rfl := Option.some.inj hcall
    exact ⟨h.1.symm, h.2⟩
  | submitResults results =>
    obtain ⟨results, rfl, rfl⟩ := Option.map_eq_some_iff.mp hcall
    exact ⟨h.1.symm, h.2⟩
  | getWork capacity platforms =>
    obtain rfl := Option.some.inj hcall
    exact absurd h id
  | _ => exact absurd hcall (by simp [InternalRoute.call?])

/-- **Only listed workers touch tasks and parcels**, each under its own name, and no task is lost. For every
environment and every run of the server. -/
theorem http_guarantees (environ : Environ) (es' : List HttpEvent) (s' : HttpState)
    (hr : (httpServer (load environ)).Run es' s') :
    HttpGuarantees environ es' s'.2.store.1.redis := by
  obtain ⟨es, p, hrun, hbehind, hview⟩ := facade_refines (server_facade _) (fun _ h => h) hr
  rw [← hview.store]
  -- an executed command belongs to a call that is allowed it
  have hallowed : ∀ (call : ServerCall) (c : Cmd) (r : Reply c), (⟨call, .inl c, r⟩ : HttpStep) ∈ httpApplied es' →
      ∃ call', (serverView (load environ)).call? call = some call' ∧ Allowed call' c := by
    intro call c r hmem
    obtain ⟨call', hcall, hmem⟩ := hbehind.exists_call hmem
    exact ⟨call', hcall, allowed_of_applied hrun hmem⟩
  refine ⟨?conserved, ?held, ?removed, ?written⟩
  case conserved =>
    have hremoves : (httpApplied es').flatMap httpRemoves = collect removes es :=
      hbehind.flatMap_applied (fun _ _ c _ _ => by cases c <;> rfl) fun _ _ _ => rfl
    have hpushes : (httpApplied es').flatMap httpPushes = collect pushes es :=
      hbehind.flatMap_applied (fun _ _ c _ _ => by cases c <;> rfl) fun _ _ _ => rfl
    rw [hremoves, hpushes]
    exact content_add_removed hrun
  case held =>
    intro w raw hraw
    refine exists_fetch hrun hbehind ?_
    rw [← Multiset.mem_coe, ← processing_add_removed hrun w]
    exact Multiset.mem_add.mpr (.inl hraw)
  case removed =>
    intro call key raw n hmem
    obtain ⟨call', hcall, hallowed⟩ := hallowed _ _ _ hmem
    cases hallowed with
    | @remove _ w _ t hreq ht =>
      cases call with
      | push task =>
        obtain rfl := Option.some.inj hcall
        exact absurd hreq id
      | http request =>
        obtain ⟨route, hroute, hcall⟩ := HttpRequest.Admitted.call? hcall
        obtain ⟨rfl, hreports⟩ := reports_of_requests hcall hreq
        exact ⟨request, route, t, rfl, hroute, rfl, ht, hreports⟩
  case written =>
    intro call key data scrapedAt w r hmem
    obtain ⟨call', hcall, hallowed⟩ := hallowed _ _ _ hmem
    cases hallowed with
    | @insert _ results result hresult =>
      cases call with
      | push task => exact absurd hcall (by simp [serverView])
      | http request =>
        obtain ⟨route, hroute, hcall⟩ := HttpRequest.Admitted.call? hcall
        cases route with
        | submitResults body =>
          obtain ⟨results', rfl, heq⟩ := Option.map_eq_some_iff.mp hcall
          obtain ⟨rfl, rfl⟩ := Call.submitResults.inj heq
          exact ⟨request, results', result, rfl, hroute, hresult, rfl⟩
        | _ => exact absurd hcall (by simp [InternalRoute.call?])

end Run

/-! ### A delivery -/

/-- Two tokens are listed. -/
def twoTokens : Environ := fun key => if key = "GATEWAY_WORKER_TOKENS" then utf8 "alpha, beta" else []

/-- A request of worker `w1`. -/
def workerRequest (token : String) (route : InternalRoute) : HttpRequest :=
  ⟨"r1", "", utf8 token, "w1", .internal route⟩

/-- A report with a token that is not listed. -/
def strayReport : ℚ × ServerCall := (2, .http (workerRequest "gamma" (.completeTask "t1")))

/-- A task is pushed and fetched. To complete it takes a token that is listed. -/
def httpDelivery : List (ℚ × ServerCall) :=
  [(0, .push sampleTask), (1, .http (workerRequest "beta" (.getWork "5" ["beacon"]))), strayReport,
    (3, .http (workerRequest "alpha" (.completeTask "t1")))]

/-- The events of calls that run alone, with two tokens listed. -/
def httpSession (calls : List (ℚ × ServerCall)) : List HttpEvent :=
  timedSession (fun t => server.beside (backends t)) (ServerCall.body (load twoTokens)) calls
    (.blank, .blank)

theorem run_httpSession (calls : List (ℚ × ServerCall)) (hchain : List.IsChain (· ≤ ·) (0 :: calls.map Prod.fst)) :
    ∃ s, (httpServer (load twoTokens)).Run (httpSession calls) s := by
  obtain ⟨t, hr⟩ : ∃ t, (httpServer (load twoTokens)).Run (httpSession calls) (t, _) :=
    run_timedSession calls rfl hchain
  exact ⟨_, hr⟩

theorem httpServer_refines_delivery : ∃ es p, workerApi.Run es p ∧
    Behind (serverView (load twoTokens)) (httpSession httpDelivery) es := by
  obtain ⟨s, hr⟩ := run_httpSession httpDelivery (by decide +kernel)
  obtain ⟨es, p, hrun, hbehind, -⟩ := httpServer_refines _ _ s hr
  exact ⟨es, p, hrun, hbehind⟩

theorem http_guarantees_delivery : ∃ redis, HttpGuarantees twoTokens (httpSession httpDelivery) redis ∧
    (httpApplied (httpSession httpDelivery)).flatMap httpRemoves = [sampleTask.modelDumpJson] := by
  obtain ⟨s, hr⟩ := run_httpSession httpDelivery (by decide +kernel)
  exact ⟨_, http_guarantees _ _ s hr, by decide +kernel⟩

end TaxlienGateway
