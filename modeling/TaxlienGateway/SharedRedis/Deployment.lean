import TaxlienGateway.SharedRedis.InternalApps

/-!
# Both gateways deployed

During the migration the HTTP server of the Go gateway and the internal apps of the legacy gateway run beside
each other, on the same Redis. A worker may send each of its requests to either of them. `deployment` is the
system of all their requests, interleaved command by command, with any faults, at the times of one clock.

* `deployment_guarantees` — for tasks it is lease queues, in two steps: the requests that are let through appear
  as the calls of `sharedApi`, and these as transfers. So no task is lost, a queue is first-in first-out over both
  gateways, and the list of a worker is touched only by requests that may act for it (`ActsFor`). There are four
  kinds of those, and two of them are not meant: a user whose verified claims say that the tier is `internal`, and
  anybody whose header `Host` hides the path of the request from the middleware, act for the worker `unknown`;
* `deployment_answers` — the meaning of the statuses of either gateway is what it is without the other.
-/

namespace TaxlienGateway

open Framework Legacy

/-- What happens to the shared Redis: tasks that are pushed, and requests to either gateway. -/
inductive DeployCall where
  | push (task : Legacy.WorkTask)
  | go (request : HttpRequest)
  | legacy (request : AppRequest)

abbrev DeployRet : DeployCall → Type
  | .push _ => Except String Unit
  | .go _ => HttpAnswer
  | .legacy _ => Answer

/-- What the two gateways are started with: the environment of the one, and the settings and the libraries of the
other. -/
structure DeployConfig where
  environ : Environ
  settings : Settings
  libraries : Libraries

def DeployCall.body (config : DeployConfig) : (call : DeployCall) → Prog HttpCmd HttpReply (DeployRet call)
  | push task => (pushTask task).toOuter
  | go request => request.serve (load config.environ)
  | legacy request => request.serve config.settings config.libraries

abbrev DeployEvent : Type := ℚ × Event HttpCmd HttpReply DeployCall DeployRet

abbrev DeployState : Type := ℚ × Pool HttpCmd HttpReply DeployCall DeployRet (Store × Backends)

/-- Both gateways on one Redis. -/
def deployment (config : DeployConfig) : System DeployState DeployEvent :=
  timedPool (fun t => server.beside (backends t)) (DeployCall.body config) fun s => s.1.Fresh

/-! ### The calls behind the requests -/

/-- How a request is answered, when the call behind it has returned. -/
def deployShows : (req : DeployCall) → (call : GatewayCall) → DeployRet req → GatewayRet call → Prop
  | .push _, .go (.pushTask _), a, b => a = b
  | .go request, .go call, a, b => showsAnswer (.http request) call a b
  | .legacy request, call, a, b => request.route.shows call a b
  | _, _, _, _ => False

/-- The calls behind the deployment. -/
def deployView (config : DeployConfig) : View DeployRet GatewayRet where
  call?
    | .push task => some (.go (.pushTask task))
    | .go request => (request.call? (load config.environ)).map GatewayCall.go
    | .legacy request => request.call? config.settings config.libraries
  shows := deployShows

/-- **The deployment is a façade of both gateways' calls.** -/
theorem deployment_facade (config : DeployConfig) :
    Facade (deployView config) (DeployCall.body config) (GatewayCall.body config.libraries.pydantic) where
  appears req call h := by
    cases req with
    | push task =>
      obtain rfl := Option.some.inj h
      exact Prog.appearsAs_toOuter _
    | go request =>
      obtain ⟨call, hcall, rfl⟩ := Option.map_eq_some_iff.mp h
      exact (server_facade (load config.environ)).appears (.http request) call hcall
    | legacy request => exact AppRequest.serve_appears h
  hidden req h := by
    cases req with
    | push task => exact absurd h (by simp [deployView])
    | go request => exact (server_facade (load config.environ)).hidden (.http request) (Option.map_eq_none_iff.mp h)
    | legacy request => exact AppRequest.serve_hidden h

/-! ### Who may act for a worker -/

/-- The request may act for the worker. -/
inductive ActsFor (config : DeployConfig) : DeployCall → String → Prop
  /-- It carries a listed token, and names the worker. -/
  | listed {request : HttpRequest} (h : Listed (config.environ "GATEWAY_WORKER_TOKENS") request.workerToken) :
      ActsFor config (.go request) (workerIDOf request.workerID)
  /-- It carries the internal token, and names the worker. -/
  | token {request : AppRequest} (h : request.auth.x_worker_token = some config.settings.internal_api_token) :
      ActsFor config (.legacy request) (workerID (some (request.auth.x_worker_id.getD "unknown")))
  /-- It carries a user's token, whose claims say that the tier is internal. -/
  | claims {request : AppRequest}
      (h : ClaimsInternal config.settings config.libraries.verify_id_token request.auth) :
      ActsFor config (.legacy request) "unknown"
  /-- The middleware is shown a path that is not internal, and guards nothing. -/
  | unguarded {request : AppRequest} (h : ¬ "/internal".toList.isPrefixOf request.auth.path.toList = true) :
      ActsFor config (.legacy request) "unknown"

/-- The worker that a call is for. -/
def GatewayCall.worker? : GatewayCall → Option String
  | go (.pushTask _) => none
  | go (.popTasks w _ _) => some w
  | go (.completeTask w _) => some w
  | go (.failTask w _) => some w
  | go (.submitResults w _) => some w
  | popTasks _ w _ _ => some w
  | completeTask w _ => some w
  | submitResults w _ => some w

theorem GatewayCall.Polls.worker? {call : GatewayCall} {w platform : String} {priority : ℤ}
    (h : call.Polls w platform priority) : call.worker? = some w := by
  cases call with
  | go call =>
    cases call with
    | popTasks w' platforms capacity => exact congrArg some h.1
    | _ => exact absurd h id
  | popTasks now w' platforms capacity => exact congrArg some h.1
  | _ => exact absurd h id

theorem GatewayCall.Reports.worker? {call : GatewayCall} {w raw : String} (h : call.Reports w raw) :
    call.worker? = some w := by
  cases call with
  | go call =>
    obtain ⟨t, -, hreq⟩ := h
    cases call with
    | completeTask w' taskID => exact congrArg some hreq.1
    | failTask w' taskID => exact congrArg some hreq.1
    | submitResults w' results => exact congrArg some hreq.1
    | _ => exact absurd hreq id
  | popTasks now w' platforms capacity => exact absurd h id
  | completeTask w' taskID => exact congrArg some h.1
  | submitResults w' turns => exact congrArg some h.1

/-- The call behind a route is for the worker of the request. -/
theorem AppRoute.worker?_of_call? {route : AppRoute} {worker_id : String} {call : GatewayCall}
    (h : route.call? worker_id = some call) : call.worker? = some worker_id := by
  cases route with
  | getWork capacity platforms now =>
    obtain ⟨query, -, rfl⟩ := Option.map_eq_some_iff.mp h
    rfl
  | submitResults body commit =>
    obtain ⟨turns, -, rfl⟩ := Option.map_eq_some_iff.mp h
    rfl
  | completeTask task_id =>
    obtain rfl := Option.some.inj h
    rfl
  | _ => exact absurd h (by simp [AppRoute.call?])

/-- The same of a route of the Go gateway. -/
theorem InternalRoute.worker?_of_call? {route : InternalRoute} {workerID : String} {call : Call}
    (h : route.call? workerID = some call) : (GatewayCall.go call).worker? = some workerID := by
  cases route with
  | submitResults body =>
    obtain ⟨results, -, rfl⟩ := Option.map_eq_some_iff.mp h
    rfl
  | heartbeat body now => exact absurd h (by simp [InternalRoute.call?])
  | uploadRawFile upload disk => exact absurd h (by simp [InternalRoute.call?])
  | unrouted reason => exact absurd h (by simp [InternalRoute.call?])
  | _ =>
    obtain rfl := Option.some.inj h
    rfl

/-- **Who is let through** by the middleware of the legacy gateway. -/
theorem actsFor_of_dispatch {config : DeployConfig} {request : AppRequest} {auth : AuthContext}
    (h : dispatch config.settings config.libraries.verify_id_token request.auth = .ok auth) :
    ActsFor config (.legacy request) (workerID auth.worker_id) := by
  obtain ⟨hcred, hroute⟩ := credentials_of_dispatch h
  -- the guard has looked at the path, or has had no reason to
  by_cases hpath : "/internal".toList.isPrefixOf request.auth.path.toList = true
  · have htier := hroute hpath
    cases hcred with
    | worker hworker => exact .token (eq_some_of_truthy hworker)
    | anonymous hworker hbearer => exact absurd htier (by simp [AuthContext.new, TierValue.eq])
    | mock token hworker hbearer hdev => exact absurd htier (by simp [TierValue.eq])
    | plain token claims uid hworker hbearer hdev hverify huid hnone => exact absurd htier (by simp [TierValue.eq])
    | claimed token claims uid tier hworker hbearer hdev hverify huid hsome =>
      -- the claim passes for the tier itself
      obtain rfl := TierValue.eq_claim htier
      exact .claims ⟨hworker, hdev, token, claims, hbearer, hverify, by rw [huid]; rfl, hsome⟩
  · cases hcred with
    | worker hworker => exact .token (eq_some_of_truthy hworker)
    -- without the worker's token no worker is named
    | _ => exact .unguarded hpath

/-- **The call behind a request is for a worker that it may act for.** -/
theorem actsFor_of_call? {config : DeployConfig} {req : DeployCall} {call : GatewayCall} {w : String}
    (h : (deployView config).call? req = some call) (hw : call.worker? = some w) : ActsFor config req w := by
  cases req with
  | push task =>
    obtain rfl := Option.some.inj h
    exact absurd hw (by simp [GatewayCall.worker?])
  | go request =>
    obtain ⟨call, hcall, rfl⟩ := Option.map_eq_some_iff.mp h
    obtain ⟨route, hadmitted, hroute⟩ := HttpRequest.Admitted.call? hcall
    obtain rfl := Option.some.inj ((InternalRoute.worker?_of_call? hroute).symm.trans hw)
    exact .listed hadmitted.listed
  | legacy request =>
    obtain ⟨auth, hdispatch, hcall⟩ := AppRequest.call?_eq_some_iff.mp h
    obtain rfl := Option.some.inj ((AppRoute.worker?_of_call? hcall).symm.trans hw)
    exact actsFor_of_dispatch hdispatch

/-! ### Runs -/

section Run

variable {config : DeployConfig} {es' : List DeployEvent} {s' : DeployState}

/-- What holds of the tasks after a history of the deployment that has transferred `ts`. -/
structure DeploymentGuarantees (config : DeployConfig) (es' : List DeployEvent) (ts : List TaskTransfer)
    (redis : ListStore String String) : Prop where
  /-- All workers together take from a queue in push order, and nothing is left out. -/
  fifo : ∀ platform priority, leased (platform, priority) ts ++
    (redis.lists (queueKey platform priority)).reverse = enqueued (platform, priority) ts
  /-- What a worker has been given is in its list until it is removed from there. -/
  held : ∀ w, (redis.lists (processingKey w) : Multiset String) + (released w ts : Multiset String) =
    (granted w ts : Multiset String)
  /-- A worker finds a queue empty only when all that was pushed to it has been taken. -/
  emptied : ∀ pre post platform priority w, ts = pre ++ .miss (platform, priority) w :: post →
    leased (platform, priority) pre = enqueued (platform, priority) pre
  /-- A queue holds tasks that were pushed for it. -/
  pushed : ∀ platform priority raw, .enqueue (platform, priority) raw ∈ ts → ∃ t i task,
    (t, .start i (.push task)) ∈ es' ∧ task.platform = platform ∧ task.priority = priority ∧
      task.modelDumpJson = raw
  /-- A worker is given a task by a request that may act for it, from a queue that it asks for. -/
  polled : ∀ platform priority w raw, .lease (platform, priority) w raw ∈ ts → ∃ t i req call,
    (t, .start i req) ∈ es' ∧ ActsFor config req w ∧ (deployView config).call? req = some call ∧
      call.Polls w platform priority
  /-- A task is taken off the list of a worker by a request that may act for it, and reports this task. -/
  reported : ∀ w raw, .release w raw ∈ ts → ∃ t i req call,
    (t, .start i req) ∈ es' ∧ ActsFor config req w ∧ (deployView config).call? req = some call ∧
      call.Reports w raw

/-- **The deployment is lease queues**, and its guarantees. -/
theorem deployment_guarantees (config : DeployConfig) (es' : List DeployEvent) (s' : DeployState)
    (hr : (deployment config).Run es' s') :
    ∃ es p ts, (sharedApi config.libraries.pydantic).Run es p ∧ Behind (deployView config) es' es ∧
      Readout Transfers (applied es) ts ∧
      (leaseQueues (String × ℤ) String String).Run ts (taskKeys.view s'.2.store.1.redis) ∧
      DeploymentGuarantees config es' ts s'.2.store.1.redis := by
  obtain ⟨es, p, hrun, hbehind, hview⟩ := facade_refines (deployment_facade config) (fun _ h => h) hr
  -- the calls behind the requests, and the transfers behind the calls
  obtain ⟨ts, hqueues, hread⟩ := exists_transfers hrun
  have hts := guarantees_of_readout hrun hqueues hread
  rw [← hview.store]
  refine ⟨es, p, ts, hrun, hbehind, hread, hqueues, hts.fifo, hts.held, hts.emptied, ?pushed, ?polled, ?reported⟩
  case pushed =>
    intro platform priority raw hmem
    obtain ⟨i, task, hstart, htask⟩ := hts.pushed platform priority raw hmem
    obtain ⟨t, req, hcall, hreq⟩ := hbehind.exists_start hstart
    -- no request of either gateway pushes a task
    cases req with
    | push task' =>
      obtain rfl := Call.pushTask.inj (GatewayCall.go.inj (Option.some.inj hcall))
      exact ⟨t, i, task', hreq, htask⟩
    | go request =>
      -- a request has a worker, and a push has none
      obtain ⟨call, hcall, heq⟩ := Option.map_eq_some_iff.mp hcall
      obtain ⟨route, -, hroute⟩ := HttpRequest.Admitted.call? hcall
      have hworker := InternalRoute.worker?_of_call? hroute
      rw [heq] at hworker
      exact absurd hworker (by simp [GatewayCall.worker?])
    | legacy request =>
      obtain ⟨auth, -, hroute⟩ := AppRequest.call?_eq_some_iff.mp hcall
      exact absurd (AppRoute.worker?_of_call? hroute) (by simp [GatewayCall.worker?])
  case polled =>
    intro platform priority w raw hmem
    obtain ⟨i, call, hstart, hpolls⟩ := hts.polled platform priority w raw hmem
    obtain ⟨t, req, hcall, hstart⟩ := hbehind.exists_start hstart
    exact ⟨t, i, req, call, hstart, actsFor_of_call? hcall hpolls.worker?, hcall, hpolls⟩
  case reported =>
    intro w raw hmem
    obtain ⟨i, call, hstart, hreports⟩ := hts.reported w raw hmem
    obtain ⟨t, req, hcall, hstart⟩ := hbehind.exists_start hstart
    exact ⟨t, i, req, call, hstart, actsFor_of_call? hcall hreports.worker?, hcall, hreports⟩

/-! ### Answers -/

/-- What the answer of either gateway says. -/
def DeployCall.Ends (config : DeployConfig) :
    (call : DeployCall) → List (Op HttpCmd HttpReply) → DeployRet call → Prop
  | .push _, _, _ => True
  | .go request, own, answer => request.Answers config.environ own answer
  | .legacy request, own, answer => request.Answers config.settings config.libraries own answer

theorem deployCall_ends (config : DeployConfig) :
    Obeyed (DeployCall.body config) (fun _ _ _ => True) (DeployCall.Ends config) := by
  intro call
  cases call with
  | push task =>
    refine ⟨trivial, fun r => ?_⟩
    cases r <;> trivial
  | go request => exact serve_answers config.environ request
  | legacy request => exact AppRequest.serve_answers _ _ request

/-- **The meaning of a status**, of either gateway and in every run of both. -/
theorem deployment_answers (config : DeployConfig) (pre post : List DeployEvent) (s : DeployState) (t : ℚ) (i : ℕ)
    (call : DeployCall) (answer : DeployRet call)
    (hr : (deployment config).Run (pre ++ (t, .finish i call answer) :: post) s) :
    call.Ends config (ownOps i (pre.map Prod.snd)) answer :=
  (deployCall_ends config).returns hr

end Run

/-! ### A delivery by both gateways -/

/-- Libraries without a Firebase project. -/
def sampleLibraries : Libraries where
  verify_id_token _ := .error "no project"
  pydantic := .strict
  json response := (String.fromUTF8? response.content).bind jsonLoads

/-- Two tokens for the Go gateway, and one for the legacy gateway, which runs without Firebase. -/
def sampleConfig : DeployConfig := ⟨twoTokens, ⟨"secret", ""⟩, sampleLibraries⟩

/-- Worker `w1` asks the legacy gateway for a task. -/
def legacyWork : AppRequest where
  auth := ⟨"/internal/parcel/work", some "secret", some "w1", none⟩
  route := .getWork none ["beacon"] sampleDatetime
  detail := .null

/-- And a user tries to complete it. -/
def strayCompletion : AppRequest where
  auth := ⟨"/internal/parcel/tasks/t1/complete", none, some "w1", some "Bearer t"⟩
  route := .completeTask "t1"
  detail := .null

/-- A task is fetched from the legacy gateway and reported to the Go gateway. -/
def deployDelivery : List (ℚ × DeployCall) :=
  [(0, .push sampleTask), (1, .legacy legacyWork), (2, .legacy strayCompletion),
    (3, .go (workerRequest "alpha" (.completeTask "t1")))]

/-- The events of calls that run alone. -/
def deploySession (calls : List (ℚ × DeployCall)) : List DeployEvent :=
  timedSession (fun t => server.beside (backends t)) (DeployCall.body sampleConfig) calls (.blank, .blank)

/-- The stores that they leave. -/
def deployStore (calls : List (ℚ × DeployCall)) : Store × Backends :=
  timedStore (fun t => server.beside (backends t)) (DeployCall.body sampleConfig) calls (.blank, .blank)

theorem run_deploySession (calls : List (ℚ × DeployCall)) (hchain : List.IsChain (· ≤ ·) (0 :: calls.map Prod.fst)) :
    ∃ t, (deployment sampleConfig).Run (deploySession calls) (t, ⟨deployStore calls, fun _ => none⟩) :=
  run_timedSession calls rfl hchain

theorem deployment_guarantees_delivery : (∃ es p ts, (sharedApi sampleLibraries.pydantic).Run es p ∧
      Behind (deployView sampleConfig) (deploySession deployDelivery) es ∧ Readout Transfers (applied es) ts ∧
      (leaseQueues (String × ℤ) String String).Run ts (taskKeys.view (deployStore deployDelivery).1.redis) ∧
      DeploymentGuarantees sampleConfig (deploySession deployDelivery) ts (deployStore deployDelivery).1.redis) ∧
    (deployStore deployDelivery).1.redis.lists (processingKey "w1") = [] := by
  obtain ⟨t, hr⟩ := run_deploySession deployDelivery (by decide +kernel)
  refine ⟨?_, by decide +kernel⟩
  generalize deployStore deployDelivery = stores at hr ⊢
  generalize deploySession deployDelivery = es' at hr ⊢
  exact deployment_guarantees sampleConfig es' _ hr

/-- The last event answers a request to the legacy gateway with 401. -/
def endsForbidden (es : List DeployEvent) : Bool :=
  match es.getLast? with
  | some (_, .finish _ (.legacy _) answer) => answer.status == 401
  | _ => false

theorem deployment_answers_strayCompletion : ∃ pre t i request answer s,
    (deployment sampleConfig).Run (pre ++ [(t, .finish i (.legacy request) answer)]) s ∧
    (DeployCall.legacy request).Ends sampleConfig (ownOps i (pre.map Prod.snd)) answer ∧
    answer.status = 401 := by
  obtain ⟨t', hr⟩ := run_deploySession [(2, .legacy strayCompletion)] (by decide +kernel)
  have hends : endsForbidden (deploySession [(2, .legacy strayCompletion)]) = true := by decide +kernel
  unfold endsForbidden at hends
  split at hends
  · next t i request answer hlast =>
    obtain ⟨pre, hpre⟩ := List.getLast?_eq_some_iff.mp hlast
    rw [hpre] at hr
    exact ⟨pre, t, i, request, answer, _, hr, deployment_answers _ pre [] _ t i (.legacy request) answer hr,
      eq_of_beq hends⟩
  · exact absurd hends (by simp)

end TaxlienGateway
