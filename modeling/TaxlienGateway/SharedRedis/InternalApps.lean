import TaxlienGateway.Legacy.PublicApi
import TaxlienGateway.Legacy.RawFiles
import TaxlienGateway.Server.Answers
import TaxlienGateway.SharedRedis.Gateways

/-!
# The internal apps of the legacy gateway

`legacy/app/apps/parcel_internal.py` and `legacy/app/apps/party_internal.py` serve the workers. Both include all
routers of `legacy/app/api/internal`, of which `parcel` and `party` are the same code twice, behind
`AuthMiddleware`. FastAPI answers what does not have the declared parameters, and what raises an exception. What the
libraries do is a parameter (`Libraries`).

* `AppRequest.serve` — a request, from `dispatch` to its answer;
* `AppRequest.serve_appears`, `AppRequest.serve_hidden` — the call of `sharedApi` behind a request;
* `AppRequest.serve_answers` — the meaning of each status.

An upload of a raw file issues no command; what it does to the file system is in `Legacy/RawFiles.lean`. The pages
that FastAPI adds to an app (its documentation, and redirects from paths that end with a slash) are left out.
-/

namespace TaxlienGateway

open Framework

namespace Legacy

/-! ### Answers -/

/-- The response of `dispatch` to a request that it does not forward. -/
def unauthorizedAnswer (message : String) : Answer :=
  .json 401 (.obj [("error", .obj [("code", .str "UNAUTHORIZED"), ("message", .str message)])])

/-- How FastAPI answers when it has no handler. -/
def unroutedAnswer : Unrouted → Answer
  | .notFound => httpException 404 (.str "Not Found")
  | .methodNotAllowed => httpException 405 (.str "Method Not Allowed")

/-- How it answers to parameters that do not validate. -/
def unprocessable (detail : Json) : Answer := httpException 422 detail

/-- What a handler returns, or the exception that it does not catch. -/
def orRaise {α : Type} (answer : α → Answer) : Except String α → Answer
  | .error e => .raised e
  | .ok a => answer a

/-- `WorkResponse(tasks=tasks, retry_after=30 if not tasks else 5)` -/
def workAnswer (tasks : List WorkTask) : Answer :=
  .json 200 (.obj [("tasks", .arr (tasks.map WorkTask.modelDump)),
    ("retry_after", .num (.ofInt (if tasks.isEmpty then 30 else 5)))])

/-- `SubmitResponse` -/
def SubmitResponse.modelDump (r : SubmitResponse) : Json :=
  .obj [("inserted", .num (.ofInt r.inserted)), ("updated", .num (.ofInt r.updated)),
    ("failed", .num (.ofInt r.failed)), ("errors", .arr (r.errors.map Json.str))]

/-- The answer to a batch. The commit runs before the response is sent, and an exception of it reaches FastAPI. -/
def submitAnswer (commit : CommitOutcome) (r : SubmitResponse) : Answer :=
  match commit with
  | .ok => .json 200 r.modelDump
  | .lost e => .raised e
  | .failed e => .raised e

def completeAnswer (success : Bool) : Answer := .json 200 (.obj [("success", .bool success)])

def failAnswer : Answer := .json 200 (.obj [("status", .str "reported")])

def heartbeatAnswer : Answer := .json 200 (.obj [("acknowledged", .bool true), ("commands", .arr [])])

/-- The answer to an upload. The errors that the handler catches are answered with status 200. -/
def uploadAnswer : RawResponse → Answer
  | .ok path => .json 200 (.obj [("status", .str "ok"), ("path", .str (String.ofList path))])
  | .error message => .json 200 (.obj [("status", .str "error"), ("message", .str message)])
  | .raised message => .raised message

/-! ### The proxy service -/

/-- What the libraries do that an internal app is built on. -/
structure Libraries where
  /-- `firebase_auth.verify_id_token` -/
  verify_id_token : String → Except String Claims
  pydantic : Pydantic
  /-- `response.json()` of `httpx`, which detects the encoding of the text. -/
  json : UpstreamResponse → Option Json

/-- `response.raise_for_status()` and `ProxyInfo(**response.json())`. -/
def readProxy (libraries : Libraries) (response : UpstreamResponse) : Option ProxyInfo :=
  if 200 ≤ response.status_code ∧ response.status_code < 300 then
    (libraries.json response).bind (ProxyInfo.validate libraries.pydantic)
  else none

/-- The answer of both handlers of `proxy.py`: whatever goes wrong is an unavailable service. -/
def proxyAnswer (libraries : Libraries) (response : Except String UpstreamResponse) : Answer :=
  match response.toOption.bind (readProxy libraries) with
  | none => badGateway "Proxy service unavailable"
  | some proxy => .json 200 proxy.modelDump

/-- `create_proxy` -/
def createProxy (libraries : Libraries) (platform : String) : Prog Await AwaitReply Answer := do
  let response ← upstream ⟨"proxy", "GET", "/create", [("platform", platform)], [], none⟩
  pure (proxyAnswer libraries response)

/-- `rotate_proxy` -/
def rotateProxy (libraries : Libraries) (port : ℤ) (platform reason : String) : Prog Await AwaitReply Answer := do
  let response ← upstream
    ⟨"proxy", "POST", "/rotate/" ++ toString port, [("platform", platform), ("reason", reason)], [], none⟩
  pure (proxyAnswer libraries response)

/-! ### Requests -/

/-- The two internal apps. -/
inductive InternalApp where
  | parcel_internal
  | party_internal
  deriving DecidableEq

def InternalApp.name : InternalApp → String
  | parcel_internal => "parcel_internal"
  | party_internal => "party_internal"

/-- `health_check` -/
def healthAnswer (app : InternalApp) : Answer :=
  .json 200 (.obj [("status", .str "ok"), ("service", .str "gateway"), ("app", .str app.name)])

/-- The routes of an internal app, with what their handlers read of a request, and what the clock, the database
and the file system say meanwhile. A body is `none` if it does not validate, and so is a parameter that cannot be
read or is missing. -/
inductive AppRoute where
  /-- `GET /health` -/
  | health (app : InternalApp)
  /-- `GET /internal/parcel/work` and `GET /internal/party/work`; the capacity may be left out. -/
  | getWork (capacity : Option (Option ℤ)) (platforms : List String) (now : Datetime)
  /-- `POST /internal/parcel/results` and `POST /internal/party/results` -/
  | submitResults (body : Option (List ResultTurn)) (commit : CommitOutcome)
  /-- `POST /internal/parcel/tasks/{task_id}/complete`, and of `party` -/
  | completeTask (task_id : String)
  /-- `POST /internal/parcel/tasks/{task_id}/fail`, and of `party` -/
  | failTask (task_id : String)
  /-- `POST /internal/heartbeat` -/
  | heartbeat (body : Option WorkerStatus) (time : String)
  /-- `GET /internal/proxy/create` -/
  | createProxy (platform : Option String)
  /-- `POST /internal/proxy/{port}/rotate` -/
  | rotateProxy (port : Option ℤ) (platform reason : Option String)
  /-- `POST /internal/raw-files`, with the files of the disk -/
  | uploadRawFile (form : Option RawUpload) (disk : RawDisk)
  | unrouted (reason : Unrouted)

/-- A request. The router goes by the path that the server has received. The path that the middleware looks at,
`request.url.path`, is read off a URL that begins with the header `Host`, and need not be the same. A header that
makes no URL at all, so that reading it raises, is left out. -/
structure AppRequest where
  auth : AuthRequest
  route : AppRoute
  /-- What FastAPI says of its parameters if they do not validate. -/
  detail : Json

/-! ### The handlers -/

/-- `capacity: int = Query(10, ge=1, le=100), platforms: List[str] = Query(...)` -/
def workQuery (capacity : Option (Option ℤ)) (platforms : List String) : Option (ℤ × List String) :=
  (capacity.getD (some 10)).bind fun capacity =>
    if 1 ≤ capacity ∧ capacity ≤ 100 ∧ platforms ≠ [] then some (capacity, platforms) else none

/-- `get_work` -/
def getWork (pydantic : Pydantic) (detail : Json) (worker_id : String) (capacity : Option (Option ℤ))
    (platforms : List String) (now : Datetime) : Prog HttpCmd HttpReply Answer :=
  match workQuery capacity platforms with
  | none => pure (unprocessable detail)
  | some (capacity, platforms) => do
    let tasks ← (popTasks pydantic now worker_id platforms capacity).toOuter
    pure (orRaise workAnswer tasks)

/-- A route, for the worker that the request is authenticated as. -/
def AppRoute.handle (libraries : Libraries) (detail : Json) (worker_id : String) :
    AppRoute → Prog HttpCmd HttpReply Answer
  | health app => pure (healthAnswer app)
  | getWork capacity platforms now => Legacy.getWork libraries.pydantic detail worker_id capacity platforms now
  | submitResults none _ => pure (unprocessable detail)
  | submitResults (some turns) commit => do
    let response ← (submitLoop worker_id turns ⟨0, 0, 0, []⟩).toOuter
    pure (submitAnswer commit response)
  | completeTask task_id => do
    let success ← (Legacy.completeTask worker_id task_id).toOuter
    pure (orRaise completeAnswer success)
  -- the task is left where it is
  | failTask _ => pure failAnswer
  | heartbeat none _ => pure (unprocessable detail)
  | heartbeat (some status) time => do
    let done ← (Heartbeat.update ⟨worker_id, time, status⟩).toInner
    pure (orRaise (fun _ => heartbeatAnswer) done)
  | createProxy none => pure (unprocessable detail)
  | createProxy (some platform) => (Legacy.createProxy libraries platform).toInner
  | rotateProxy (some port) (some platform) reason =>
    (Legacy.rotateProxy libraries port platform (reason.getD "banned")).toInner
  | rotateProxy _ _ _ => pure (unprocessable detail)
  | uploadRawFile none _ => pure (unprocessable detail)
  | uploadRawFile (some form) disk => pure (uploadAnswer (Legacy.uploadRawFile form disk).2)
  | unrouted reason => pure (unroutedAnswer reason)

/-- An internal app: `AuthMiddleware`, and the handler of the route. -/
def AppRequest.serve (settings : Settings) (libraries : Libraries) (request : AppRequest) :
    Prog HttpCmd HttpReply Answer :=
  match dispatch settings libraries.verify_id_token request.auth with
  | .error message => pure (unauthorizedAnswer message)
  | .ok auth => request.route.handle libraries request.detail (workerID auth.worker_id)

/-! ### The call behind a route -/

/-- The call of `sharedApi` behind a route. -/
def AppRoute.call? (worker_id : String) : AppRoute → Option GatewayCall
  | getWork capacity platforms now =>
    (workQuery capacity platforms).map fun query => .popTasks now worker_id query.2 query.1
  | submitResults body _ => body.map fun turns => .submitResults worker_id turns
  | completeTask task_id => some (.completeTask worker_id task_id)
  | _ => none

/-- How a route is answered, when the call behind it has returned. -/
def AppRoute.shows : AppRoute → (call : GatewayCall) → Answer → GatewayRet call → Prop
  | getWork .., .popTasks .., a, b => a = orRaise workAnswer b
  | submitResults _ commit, .submitResults .., a, b => a = submitAnswer commit b
  | completeTask _, .completeTask .., a, b => a = orRaise completeAnswer b
  | _, _, _, _ => False

variable {libraries : Libraries} {detail : Json} {worker_id : String} {route : AppRoute} {call : GatewayCall}

/-- **A route appears as its call.** -/
theorem AppRoute.handle_appears (h : route.call? worker_id = some call) :
    (route.handle libraries detail worker_id).AppearsAs (route.shows call) (call.body libraries.pydantic) := by
  cases route with
  | getWork capacity platforms now =>
    obtain ⟨⟨capacity', platforms'⟩, hquery, rfl⟩ := Option.map_eq_some_iff.mp h
    change (Legacy.getWork libraries.pydantic detail worker_id capacity platforms now).AppearsAs _ _
    unfold Legacy.getWork
    rw [hquery]
    exact (Prog.appearsAs_toOuter _).map fun a b hab => congrArg _ hab
  | submitResults body commit =>
    obtain ⟨turns, rfl, rfl⟩ := Option.map_eq_some_iff.mp h
    exact (Prog.appearsAs_toOuter _).map fun a b hab => congrArg _ hab
  | completeTask task_id =>
    obtain rfl := Option.some.inj h
    exact (Prog.appearsAs_toOuter _).map fun a b hab => congrArg _ hab
  | _ => exact absurd h (by simp [AppRoute.call?])

/-- A route without a call does nothing to tasks. -/
theorem AppRoute.handle_hidden (h : route.call? worker_id = none) :
    (route.handle libraries detail worker_id).Hidden := by
  cases route with
  | getWork capacity platforms now =>
    have hquery := Option.map_eq_none_iff.mp h
    change (Legacy.getWork libraries.pydantic detail worker_id capacity platforms now).Hidden
    unfold Legacy.getWork
    rw [hquery]
    trivial
  | submitResults body commit =>
    obtain rfl := Option.map_eq_none_iff.mp h
    trivial
  | completeTask task_id => exact absurd h (by simp [AppRoute.call?])
  | heartbeat body time =>
    cases body with
    | none => trivial
    | some status => exact (Prog.hidden_toInner _).bind fun _ => trivial
  | createProxy platform =>
    cases platform with
    | none => trivial
    | some platform => exact Prog.hidden_toInner _
  | rotateProxy port platform reason =>
    rcases port with _ | port
    · trivial
    · rcases platform with _ | platform
      · trivial
      · exact Prog.hidden_toInner _
  | uploadRawFile form disk => cases form <;> trivial
  | _ => trivial

section Request

variable (settings : Settings) (libraries : Libraries) (request : AppRequest)

/-- The call of `sharedApi` behind a request, if it is forwarded. -/
def AppRequest.call? : Option GatewayCall :=
  match dispatch settings libraries.verify_id_token request.auth with
  | .error _ => none
  | .ok auth => request.route.call? (workerID auth.worker_id)

variable {settings libraries request}

theorem AppRequest.call?_eq_some_iff : request.call? settings libraries = some call ↔
    ∃ auth, dispatch settings libraries.verify_id_token request.auth = .ok auth ∧
      request.route.call? (workerID auth.worker_id) = some call := by
  unfold AppRequest.call?
  cases dispatch settings libraries.verify_id_token request.auth <;> simp

/-- **A request appears as its call.** -/
theorem AppRequest.serve_appears (h : request.call? settings libraries = some call) :
    (request.serve settings libraries).AppearsAs (request.route.shows call)
      (call.body libraries.pydantic) := by
  obtain ⟨auth, hdispatch, hcall⟩ := AppRequest.call?_eq_some_iff.mp h
  unfold AppRequest.serve
  rw [hdispatch]
  exact AppRoute.handle_appears hcall

theorem AppRequest.serve_hidden (h : request.call? settings libraries = none) :
    (request.serve settings libraries).Hidden := by
  unfold AppRequest.call? at h
  unfold AppRequest.serve
  cases hdispatch : dispatch settings libraries.verify_id_token request.auth with
  | error message => trivial
  | ok auth =>
    rw [hdispatch] at h
    exact AppRoute.handle_hidden h

end Request

/-! ### What makes a handler raise -/

/-- Collecting succeeds if and only if every payload decodes. -/
theorem decodeAll_ok_iff {τ : Type} {decode : String → Except String (Option τ)} {raws : List String} :
    ∀ {tasks : List τ}, (∃ tasks', decodeAll decode raws tasks = .ok tasks') ↔
      ∀ raw ∈ raws, ¬ ∃ e, decode raw = .error e := by
  induction raws with
  | nil => exact fun {tasks} => ⟨fun _ raw hraw => absurd hraw (by simp), fun _ => ⟨tasks, rfl⟩⟩
  | cons raw raws ih =>
    intro tasks
    rw [List.forall_mem_cons, decodeAll]
    cases decode raw with
    | error e => exact iff_of_false (by simp) fun h => h.1 ⟨e, rfl⟩
    | ok t =>
      rw [and_iff_right (by simp)]
      exact ih

/-- A command is answered with an error, or a payload does not load. -/
def PollRaises (pydantic : Pydantic) (now : Datetime) (own : List (Op Cmd Reply)) : Prop :=
  ¬ Answered own ∨ ∃ raw ∈ payloads own, ∃ e, decodeTask pydantic now raw = .error e

theorem popTasks_raises (pydantic : Pydantic) (now : Datetime) (worker_id : String) (platforms : List String)
    (capacity : ℤ) : (popTasks pydantic now worker_id platforms capacity).Obeys (fun _ _ => True)
      (fun own tasks => (∃ e, tasks = .error e) ↔ PollRaises pydantic now own) [] := by
  refine (pollPlatforms_collects platforms).mono (fun _ _ _ => trivial) fun own tasks h => ?_
  unfold PollRaises
  cases tasks with
  | error e =>
    refine iff_of_true ⟨e, rfl⟩ ?_
    -- otherwise the payloads would have been collected
    by_contra hno
    rw [not_or, not_not] at hno
    exact h ⟨hno.1, decodeAll_ok_iff.mpr fun raw hraw hfails => hno.2 ⟨raw, hraw, hfails⟩⟩
  | ok tasks =>
    refine iff_of_false (by simp) ?_
    rintro (hno | ⟨raw, hraw, hfails⟩)
    · exact hno h.1
    · exact decodeAll_ok_iff.mp ⟨tasks, h.2⟩ raw hraw hfails

/-- A command is answered with an error, or a payload before the task has no task id to look at. -/
def CompletionRaises (task_id : String) (own : List (Op Cmd Reply)) : Prop :=
  ¬ Answered own ∨ ∃ key tasks e, (⟨.lrange key, .ok tasks⟩ : Op Cmd Reply) ∈ own ∧ findTask task_id tasks = .error e

theorem completeTask_raises (worker_id task_id : String) :
    (completeTask worker_id task_id).Obeys (fun _ _ => True)
      (fun own found => (∃ e, found = .error e) ↔ CompletionRaises task_id own) [] := by
  refine completeTask_obeys trivial (fun e => ?_) (fun tasks e hfind => ?_) (fun tasks hfind => ?_)
    fun tasks raw hfind => ⟨trivial, fun r => ?_⟩
  · simp [CompletionRaises, Answered]
  · simp [CompletionRaises, Answered, hfind]
  · simp [CompletionRaises, Answered, hfind]
  · -- the removal may still fail
    show (∃ e, r.map (fun _ => true) = .error e) ↔ _
    cases r with
    | error e => simp [CompletionRaises, Answered, Except.map]
    | ok n => simp [CompletionRaises, Answered, Except.map, hfind]

/-! ### The meaning of a status -/

def Answer.status : Answer → ℕ
  | response _ status_code _ _ => status_code
  | json status_code _ => status_code
  -- Starlette answers for the handler
  | raised _ => 500

/-- The declared parameters do not validate. -/
def AppRoute.Malformed : AppRoute → Prop
  | getWork capacity platforms _ => workQuery capacity platforms = none
  | submitResults body _ => body = none
  | heartbeat body _ => body = none
  | createProxy platform => platform = none
  | rotateProxy port platform _ => port = none ∨ platform = none
  | uploadRawFile form _ => form = none
  | _ => False

/-- The handler does not catch what goes wrong. -/
def AppRoute.Raises (libraries : Libraries) (own : List (Op HttpCmd HttpReply)) : AppRoute → Prop
  | getWork _ _ now => PollRaises libraries.pydantic now (storeOps own)
  | submitResults _ commit => commit ≠ .ok
  | completeTask task_id => CompletionRaises task_id (storeOps own)
  | heartbeat _ _ => ∃ op ∈ registryOps own, Erred op
  -- the storage directory is made before anything is caught
  | uploadRawFile form _ => ∃ upload e, form = some upload ∧ upload.makedirs = some e
  | _ => False

/-- The proxy service has not answered with a proxy. -/
def ProxyFails (libraries : Libraries) (own : List (Op Await AwaitReply)) : Prop :=
  ∀ request response, (⟨.upstream request, .ok response⟩ : Op Await AwaitReply) ∈ own →
    readProxy libraries response = none

/-- A proxy is asked for, and there is none. -/
def AppRoute.Unavailable (libraries : Libraries) (own : List (Op HttpCmd HttpReply)) : AppRoute → Prop
  | createProxy _ => ProxyFails libraries (registryOps own)
  | rotateProxy _ _ _ => ProxyFails libraries (registryOps own)
  | _ => False

/-- The status that a route is answered with. -/
inductive AppRoute.Answers (libraries : Libraries) : AppRoute → List (Op HttpCmd HttpReply) → ℕ → Prop
  | unrouted (reason : Unrouted) : Answers libraries (.unrouted reason) [] (unroutedAnswer reason).status
  | malformed {route : AppRoute} (h : route.Malformed) : Answers libraries route [] 422
  | raised {route : AppRoute} {own : List (Op HttpCmd HttpReply)} (hform : ¬ route.Malformed)
      (h : route.Raises libraries own) : Answers libraries route own 500
  | unavailable {route : AppRoute} {own : List (Op HttpCmd HttpReply)} (hform : ¬ route.Malformed)
      (h : route.Unavailable libraries own) : Answers libraries route own 502
  | served {route : AppRoute} {own : List (Op HttpCmd HttpReply)} (hform : ¬ route.Malformed)
      (hraises : ¬ route.Raises libraries own) (h : ¬ route.Unavailable libraries own) :
      Answers libraries route own 200

/-- Only the routes of the proxy service can find it unavailable, and they raise nothing. -/
theorem AppRoute.not_raises_of_unavailable {own : List (Op HttpCmd HttpReply)} (h : route.Unavailable libraries own) :
    ¬ route.Raises libraries own := by
  cases route with
  | createProxy platform => exact id
  | rotateProxy port platform reason => exact id
  | _ => exact absurd h id

namespace AppRoute.Answers

variable {own : List (Op HttpCmd HttpReply)} {status : ℕ}

theorem ne_unauthorized (h : route.Answers libraries own status) : status ≠ 401 := by
  cases h with
  | unrouted reason => cases reason <;> decide
  | _ => decide

theorem malformed_iff (h : route.Answers libraries own status) : status = 422 ↔ route.Malformed := by
  cases h with
  | unrouted reason => exact iff_of_false (by cases reason <;> decide) id
  | malformed h => exact iff_of_true rfl h
  | raised hform h => exact iff_of_false (by decide) hform
  | unavailable hform h => exact iff_of_false (by decide) hform
  | served hform hraises h => exact iff_of_false (by decide) hform

theorem raised_iff (h : route.Answers libraries own status) :
    status = 500 ↔ ¬ route.Malformed ∧ route.Raises libraries own := by
  cases h with
  | unrouted reason => exact iff_of_false (by cases reason <;> decide) fun h => h.2
  | malformed h => exact iff_of_false (by decide) fun h' => h'.1 h
  | raised hform h => exact iff_of_true rfl ⟨hform, h⟩
  | unavailable hform h => exact iff_of_false (by decide) fun h' => not_raises_of_unavailable h h'.2
  | served hform hraises h => exact iff_of_false (by decide) fun h' => hraises h'.2

theorem unavailable_iff (h : route.Answers libraries own status) :
    status = 502 ↔ ¬ route.Malformed ∧ route.Unavailable libraries own := by
  cases h with
  | unrouted reason => exact iff_of_false (by cases reason <;> decide) fun h => h.2
  | malformed h => exact iff_of_false (by decide) fun h' => h'.1 h
  | raised hform h => exact iff_of_false (by decide) fun h' => not_raises_of_unavailable h'.2 h
  | unavailable hform h => exact iff_of_true rfl ⟨hform, h⟩
  | served hform hraises h => exact iff_of_false (by decide) fun h' => h h'.2

/-- A route that is not answered as one of a handler has done nothing. -/
theorem idle (h : route.Answers libraries own status) (hother : status ∉ [200, 500, 502]) : own = [] := by
  cases h with
  | unrouted reason => rfl
  | malformed h => rfl
  | raised hform h => exact absurd (by decide) hother
  | unavailable hform h => exact absurd (by decide) hother
  | served hform hraises h => exact absurd (by decide) hother

end AppRoute.Answers

/-- The answer of a handler that may raise. -/
theorem answers_orRaise {α : Type} {own : List (Op HttpCmd HttpReply)} {f : α → Answer} {a : Except String α}
    (hf : ∀ x, (f x).status = 200) (hform : ¬ route.Malformed) (havailable : ¬ route.Unavailable libraries own)
    (h : (∃ e, a = .error e) ↔ route.Raises libraries own) : route.Answers libraries own (orRaise f a).status := by
  cases a with
  | error e => exact .raised hform (h.mp ⟨e, rfl⟩)
  | ok x =>
    have hno : ¬ route.Raises libraries own := fun hraises => absurd (h.mpr hraises) (by simp)
    have hserved := AppRoute.Answers.served hform hno havailable
    rwa [← hf x] at hserved

theorem proxyFails_singleton {request : UpstreamRequest} {r : Except String UpstreamResponse} :
    ProxyFails libraries [⟨.upstream request, r⟩] ↔ r.toOption.bind (readProxy libraries) = none := by
  cases r with
  | error e => exact iff_of_true (fun _ _ h => by simp at h) rfl
  | ok response =>
    refine ⟨fun h => h request response (List.mem_singleton_self _), fun h request' response' hmem => ?_⟩
    obtain ⟨hc, hr⟩ := Sigma.mk.inj (List.mem_singleton.mp hmem)
    obtain rfl := Await.upstream.inj hc
    obtain rfl := Except.ok.inj (eq_of_heq hr)
    exact h

/-- The answer of a handler that has consulted the proxy service. -/
theorem answers_proxy {request : UpstreamRequest} (r : Except String UpstreamResponse)
    (hform : ¬ route.Malformed) (hraises : ∀ own, ¬ route.Raises libraries own)
    (hroute : ∀ own, route.Unavailable libraries own ↔ ProxyFails libraries (registryOps own)) :
    route.Answers libraries [Prog.innerOp ⟨.upstream request, r⟩] (proxyAnswer libraries r).status := by
  have hiff : route.Unavailable libraries [Prog.innerOp ⟨.upstream request, r⟩] ↔
      r.toOption.bind (readProxy libraries) = none :=
    (hroute _).trans proxyFails_singleton
  unfold proxyAnswer
  cases hread : r.toOption.bind (readProxy libraries) with
  | none => exact .unavailable hform (hiff.mpr hread)
  | some proxy => exact .served hform (hraises _) fun hfails => by simp [hiff.mp hfails] at hread

/-- With its directory, an upload is answered with status 200, stored or not. -/
theorem uploadAnswer_status {upload : RawUpload} (hmakedirs : upload.makedirs = none) (disk : RawDisk) :
    (uploadAnswer (Legacy.uploadRawFile upload disk).2).status = 200 := by
  unfold Legacy.uploadRawFile
  rw [hmakedirs]
  dsimp only
  -- the opening, the reading and the writing
  cases upload.openFile with
  | some e => rfl
  | none =>
    cases upload.read with
    | some e => rfl
    | none =>
      cases upload.write with
      | some fault => rfl
      | none => rfl

/-- **What a route is answered.** -/
theorem AppRoute.handle_answers (libraries : Libraries) (detail : Json) (worker_id : String) (route : AppRoute) :
    (route.handle libraries detail worker_id).Obeys (fun _ _ => True)
      (fun own answer => route.Answers libraries own answer.status) [] := by
  cases route with
  | health app => exact .served id id id
  | getWork capacity platforms now =>
    change (Legacy.getWork libraries.pydantic detail worker_id capacity platforms now).Obeys _ _ _
    unfold Legacy.getWork
    cases hquery : workQuery capacity platforms with
    | none => exact .malformed hquery
    | some query =>
      have hform : ¬ (getWork capacity platforms now).Malformed := by simp [AppRoute.Malformed, hquery]
      refine ((popTasks_raises libraries.pydantic now worker_id query.2 query.1).toOuter.mono (fun _ _ _ => trivial)
        fun _ _ h => h).bind ?_
      rintro - tasks ⟨own, rfl, hraises⟩
      refine answers_orRaise (f := workAnswer) (fun _ => rfl) hform id ?_
      rw [hraises, AppRoute.Raises, storeOps_map_outerOp]
  | submitResults body commit =>
    cases body with
    | none => exact .malformed rfl
    | some turns =>
      have hform : ¬ (submitResults (some turns) commit).Malformed := by simp [AppRoute.Malformed]
      have hloop : (submitLoop worker_id turns ⟨0, 0, 0, []⟩).Obeys (fun _ _ => True) (fun _ _ => True) [] :=
        submitLoop_conduct turns _ fun _ _ _ _ _ _ => trivial
      refine (hloop.toOuter.mono (fun _ _ _ => trivial) fun _ _ h => h).bind ?_
      rintro own response -
      -- only the commit can raise: the loop catches everything else
      cases commit with
      | ok => exact .served hform (by simp [AppRoute.Raises]) id
      | lost e => exact .raised hform (by simp [AppRoute.Raises])
      | failed e => exact .raised hform (by simp [AppRoute.Raises])
  | completeTask task_id =>
    refine ((completeTask_raises worker_id task_id).toOuter.mono (fun _ _ _ => trivial) fun _ _ h => h).bind ?_
    rintro - found ⟨own, rfl, hraises⟩
    refine answers_orRaise (f := completeAnswer) (fun _ => rfl) id id ?_
    rw [hraises, AppRoute.Raises, storeOps_map_outerOp]
  | failTask task_id => exact .served id id id
  | heartbeat body time =>
    cases body with
    | none => exact .malformed rfl
    | some status =>
      refine ((Heartbeat.update_obeys ⟨worker_id, time, status⟩).toInner.mono (fun _ _ _ => trivial)
        fun _ _ h => h).bind ?_
      rintro - done ⟨own, rfl, hends⟩
      refine answers_orRaise (fun _ => rfl) (by simp [AppRoute.Malformed]) id ?_
      rw [hends.error_iff, AppRoute.Raises, registryOps_map_innerOp]
  | createProxy platform =>
    cases platform with
    | none => exact .malformed rfl
    | some platform =>
      exact ⟨trivial, fun r => answers_proxy r (by simp [AppRoute.Malformed]) (fun _ => id) fun _ => Iff.rfl⟩
  | rotateProxy port platform reason =>
    rcases port with _ | port
    · exact .malformed (.inl rfl)
    · rcases platform with _ | platform
      · exact .malformed (.inr rfl)
      · exact ⟨trivial, fun r => answers_proxy r (by simp [AppRoute.Malformed]) (fun _ => id) fun _ => Iff.rfl⟩
  | uploadRawFile form disk =>
    cases form with
    | none => exact .malformed rfl
    | some upload =>
      have hform : ¬ (uploadRawFile (some upload) disk).Malformed := by simp [AppRoute.Malformed]
      change AppRoute.Answers libraries _ [] (uploadAnswer (Legacy.uploadRawFile upload disk).2).status
      cases hmakedirs : upload.makedirs with
      | some e =>
        have hraised : (Legacy.uploadRawFile upload disk).2 = .raised e := by
          unfold Legacy.uploadRawFile
          rw [hmakedirs]
        rw [hraised]
        exact .raised hform ⟨upload, e, rfl, hmakedirs⟩
      | none =>
        -- from there on everything is caught
        rw [uploadAnswer_status hmakedirs disk]
        refine .served hform ?_ id
        rintro ⟨upload', e, hupload, he⟩
        obtain rfl := Option.some.inj hupload
        exact absurd (hmakedirs.symm.trans he) (by simp)
  | unrouted reason => exact .unrouted reason

/-! ### The whole request -/

section Serve

variable (settings : Settings) (libraries : Libraries) (request : AppRequest)

/-- `AuthMiddleware` forwards the request. -/
def AppRequest.Forwarded : Prop := ∃ auth, dispatch settings libraries.verify_id_token request.auth = .ok auth

/-- What the answer to a request says. -/
structure AppRequest.Answers (own : List (Op HttpCmd HttpReply)) (answer : Answer) : Prop where
  /-- Status 401: it is not forwarded. -/
  unauthorized : answer.status = 401 ↔ ¬ request.Forwarded settings libraries
  /-- Status 422: it is forwarded, and its parameters do not validate. -/
  malformed : answer.status = 422 ↔ request.Forwarded settings libraries ∧ request.route.Malformed
  /-- Status 500: it is forwarded, and its handler raises. -/
  raised : answer.status = 500 ↔
    request.Forwarded settings libraries ∧ ¬ request.route.Malformed ∧ request.route.Raises libraries own
  /-- Status 502: it is forwarded to ask for a proxy, and there is none. -/
  unavailable : answer.status = 502 ↔
    request.Forwarded settings libraries ∧ ¬ request.route.Malformed ∧ request.route.Unavailable libraries own
  /-- With any other status but 200 it has done nothing. -/
  idle : answer.status ∉ [200, 500, 502] → own = []

/-- **What a request is answered.** -/
theorem AppRequest.serve_answers : (request.serve settings libraries).Obeys (fun _ _ => True)
    (request.Answers settings libraries) [] := by
  unfold AppRequest.serve
  cases hdispatch : dispatch settings libraries.verify_id_token request.auth with
  | error message =>
    have hno : ¬ request.Forwarded settings libraries := by
      rintro ⟨auth, hauth⟩
      exact absurd (hdispatch.symm.trans hauth) (by simp)
    exact ⟨iff_of_true rfl hno, iff_of_false (Nat.ne_of_beq_eq_false rfl) fun h => hno h.1,
      iff_of_false (Nat.ne_of_beq_eq_false rfl) fun h => hno h.1,
      iff_of_false (Nat.ne_of_beq_eq_false rfl) fun h => hno h.1, fun _ => rfl⟩
  | ok auth =>
    have hforwarded : request.Forwarded settings libraries := ⟨auth, hdispatch⟩
    refine (AppRoute.handle_answers libraries request.detail (workerID auth.worker_id) request.route).mono
      (fun _ _ h => h) fun own answer h => ?_
    exact ⟨iff_of_false h.ne_unauthorized fun hno => hno hforwarded,
      h.malformed_iff.trans (and_iff_right hforwarded).symm,
      h.raised_iff.trans (and_iff_right hforwarded).symm,
      h.unavailable_iff.trans (and_iff_right hforwarded).symm, h.idle⟩

end Serve

end Legacy

end TaxlienGateway
