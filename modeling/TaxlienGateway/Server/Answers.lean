import TaxlienGateway.Handler.UploadRun
import TaxlienGateway.Server.Http
import TaxlienGateway.WorkerApi.Acknowledged

/-!
# What the Go gateway answers its workers

The status of a response says what has become of the request, whatever other requests are interleaved with it
and however Redis and PostgreSQL behave.

* `handle_answers` — what a handler answers, and which of its own commands it looks at;
* `answered_exactly` — the meaning of each status, along every run of the server.

A batch of results is never answered with status 500: its errors are counted in the body. And a `LREM` that
fails is no error of `CompleteTask` or `FailTask`, but the answer that the task was not there.
-/

namespace TaxlienGateway

open Framework Model Legacy

/-! ### The commands of a handler -/

/-- The commands on tasks and parcels. -/
def storeOps (own : List (Op HttpCmd HttpReply)) : List (Op Cmd Reply) :=
  own.filterMap fun
    | ⟨.inl c, r⟩ => some ⟨c, r⟩
    | ⟨.inr _, _⟩ => none

/-- The commands on the registry of the workers. -/
def registryOps (own : List (Op HttpCmd HttpReply)) : List (Op Await AwaitReply) :=
  own.filterMap fun
    | ⟨.inl _, _⟩ => none
    | ⟨.inr d, r⟩ => some ⟨d, r⟩

@[simp] theorem storeOps_map_outerOp (own : List (Op Cmd Reply)) : storeOps (own.map Prog.outerOp) = own := by
  unfold storeOps
  rw [List.filterMap_map]
  exact List.filterMap_some

@[simp] theorem registryOps_map_innerOp (own : List (Op Await AwaitReply)) :
    registryOps (own.map Prog.innerOp) = own := by
  unfold registryOps
  rw [List.filterMap_map]
  exact List.filterMap_some

/-! ### The handlers -/

/-- The body cannot be decoded. -/
def InternalRoute.Malformed : InternalRoute → Prop
  | submitResults none => True
  | heartbeat none _ => True
  -- the form cannot be parsed, or has no file
  | uploadRawFile upload _ => ∀ file, upload.form ≠ .ok (some file)
  | _ => False

/-- The file of an upload is opened, and all of it copied. -/
def Upload.IsStored (storagePath : List UInt8) (upload : Upload) : Prop :=
  ∃ file, upload.Opens storagePath file ∧ upload.copy = none

/-- What the handler needs has failed. -/
def InternalRoute.Fails (config : Config) (own : List (Op HttpCmd HttpReply)) : InternalRoute → Prop
  | getWork _ _ => PollFails (storeOps own)
  | completeTask _ => ∃ key e, (⟨.lrange key, .error e⟩ : Op Cmd Reply) ∈ storeOps own
  | failTask _ => ∃ key e, (⟨.lrange key, .error e⟩ : Op Cmd Reply) ∈ storeOps own
  | heartbeat _ _ => ∃ op ∈ registryOps own, Erred op
  | uploadRawFile upload _ => ¬ upload.IsStored config.rawStorage
  | submitResults _ => False
  | unrouted _ => False

/-- The status that a handler answers with. -/
inductive InternalRoute.Answers (config : Config) : InternalRoute → List (Op HttpCmd HttpReply) → ℕ → Prop
  | unrouted (reason : Unrouted) : Answers config (.unrouted reason) [] reason.response.status
  | malformed {route : InternalRoute} (h : route.Malformed) : Answers config route [] 400
  | failed {route : InternalRoute} {own : List (Op HttpCmd HttpReply)} (hform : ¬ route.Malformed)
      (h : route.Fails config own) : Answers config route own 500
  | served {route : InternalRoute} {own : List (Op HttpCmd HttpReply)} (hroute : ∀ reason, route ≠ .unrouted reason)
      (hform : ¬ route.Malformed) (h : ¬ route.Fails config own) : Answers config route own 200

namespace InternalRoute.Answers

variable {config : Config} {route : InternalRoute} {own : List (Op HttpCmd HttpReply)} {status : ℕ}

theorem ne_unauthorized (h : route.Answers config own status) : status ≠ 401 := by
  cases h with
  | unrouted reason => cases reason <;> decide
  | _ => decide

theorem badRequest_iff (h : route.Answers config own status) : status = 400 ↔ route.Malformed := by
  cases h with
  | unrouted reason => exact iff_of_false (by cases reason <;> decide) id
  | malformed h => exact iff_of_true rfl h
  | failed hform h => exact iff_of_false (by decide) hform
  | served hroute hform h => exact iff_of_false (by decide) hform

theorem failed_iff (h : route.Answers config own status) :
    status = 500 ↔ ¬ route.Malformed ∧ route.Fails config own := by
  cases h with
  | unrouted reason => exact iff_of_false (by cases reason <;> decide) fun h => h.2
  | malformed h => exact iff_of_false (by decide) fun h' => h'.1 h
  | failed hform h => exact iff_of_true rfl ⟨hform, h⟩
  | served hroute hform h => exact iff_of_false (by decide) fun h' => h h'.2

theorem idle (h : route.Answers config own status) (h200 : status ≠ 200) (h500 : status ≠ 500) : own = [] := by
  cases h with
  | unrouted reason => rfl
  | malformed h => rfl
  | failed hform h => exact absurd rfl h500
  | served hroute hform h => exact absurd rfl h200

end InternalRoute.Answers

theorem CompletionEnds.error_iff {w taskID : String} {own : List (Op Cmd Reply)} {b : Except String Bool}
    (h : CompletionEnds w taskID own b) :
    (∃ e, b = .error e) ↔ ∃ key e, (⟨.lrange key, .error e⟩ : Op Cmd Reply) ∈ own := by
  cases h with
  | unread e => exact iff_of_true ⟨e, rfl⟩ ⟨_, e, List.mem_singleton_self _⟩
  | missing h => simp
  | kept h e => simp
  | removed h n => simp

section Handlers

variable {config : Config} {route : InternalRoute} {own : List (Op HttpCmd HttpReply)}

/-- An error is answered with 500, a value with 200. -/
theorem answers_of_iff {ρ : Type} {a : Except String ρ} {f : Except String ρ → HttpResponse}
    (herror : ∀ e, (f (.error e)).status = 500) (hok : ∀ x, (f (.ok x)).status = 200)
    (hroute : ∀ reason, route ≠ .unrouted reason) (hform : ¬ route.Malformed)
    (h : (∃ e, a = .error e) ↔ route.Fails config own) : route.Answers config own (f a).status := by
  cases a with
  | error e =>
    rw [herror]
    exact .failed hform (h.mp ⟨e, rfl⟩)
  | ok x =>
    rw [hok]
    exact .served hroute hform fun hfails => absurd (h.mpr hfails) (by simp)

/-- An upload issues no command. -/
theorem upload_answers (upload : Upload) (disk : Disk) : InternalRoute.Answers config (.uploadRawFile upload disk) []
    (uploadResponse (uploadRawFile config.rawStorage upload disk).2).status := by
  by_cases hform : ∃ file, upload.form = .ok (some file)
  · obtain ⟨file, hform⟩ := hform
    have hwell : ¬ (InternalRoute.uploadRawFile upload disk).Malformed := fun h => h file hform
    cases hanswer : (uploadRawFile config.rawStorage upload disk).2 with
    | ok path =>
      obtain ⟨hopens, hcopy, -⟩ := (answered_ok_iff hform).mp hanswer
      exact .served (by simp) hwell fun hfails => hfails ⟨file, hopens, hcopy⟩
    | error status code message =>
      obtain rfl := upload_error_status hform hanswer
      refine .failed hwell ?_
      rintro ⟨file', hopens, hcopy⟩
      -- a file that is stored is answered with ok
      have hok : (uploadRawFile config.rawStorage upload disk).2 = .ok (upload.path config.rawStorage file') :=
        (answered_ok_iff hopens.form).mpr ⟨hopens, hcopy, rfl⟩
      exact absurd (hanswer.symm.trans hok) (by simp)
  · have hno : ∀ file, upload.form ≠ .ok (some file) := not_exists.mp hform
    have hstatus : (uploadResponse (uploadRawFile config.rawStorage upload disk).2).status = 400 := by
      unfold uploadRawFile
      cases hparse : upload.form with
      | error err => rfl
      | ok part =>
        cases part with
        | none => rfl
        | some file => exact absurd hparse (hno file)
    rw [hstatus]
    exact .malformed hno

/-- **What a handler answers.** -/
theorem handle_answers (config : Config) (header : String) (route : InternalRoute) :
    (route.handle config header).Obeys (fun _ _ => True)
      (fun own response => route.Answers config own response.status) [] := by
  cases route with
  | getWork capacity platforms =>
    refine ((getWork_collects header capacity platforms).toOuter.mono (fun _ _ _ => trivial)
      fun _ _ h => h).bind ?_
    rintro - resp ⟨own, rfl, hfails, -⟩
    refine answers_of_iff (f := workResponse) (fun _ => rfl) (fun _ => rfl) (by simp) id ?_
    rw [hfails, InternalRoute.Fails, storeOps_map_outerOp]
  | submitResults results =>
    cases results with
    | none => exact .malformed trivial
    | some results =>
      refine ((submitResults_obeys (workerIDOf header) results).toOuter.mono (fun _ _ _ => trivial)
        fun _ _ h => h).bind ?_
      rintro own resp -
      -- errors are counted in the body
      exact .served (by simp) id id
  | completeTask taskID =>
    refine ((completeTask_ends (workerIDOf header) taskID).toOuter.mono (fun _ _ _ => trivial)
      fun _ _ h => h).bind ?_
    rintro - ok ⟨own, rfl, hends⟩
    refine answers_of_iff (f := completeResponse) (fun _ => rfl) (fun _ => rfl) (by simp) id ?_
    rw [hends.error_iff, InternalRoute.Fails, storeOps_map_outerOp]
  | failTask taskID =>
    refine ((completeTask_ends (workerIDOf header) taskID).toOuter.mono (fun _ _ _ => trivial)
      fun _ _ h => h).bind ?_
    rintro - ok ⟨own, rfl, hends⟩
    refine answers_of_iff (f := failResponse) (fun _ => rfl) (fun _ => rfl) (by simp) id ?_
    rw [hends.error_iff, InternalRoute.Fails, storeOps_map_outerOp]
  | heartbeat status now =>
    cases status with
    | none => exact .malformed trivial
    | some status =>
      refine ((Heartbeat.update_obeys ⟨workerIDOf header, toString now, status⟩).toInner.mono
        (fun _ _ _ => trivial) fun _ _ h => h).bind ?_
      rintro - done ⟨own, rfl, hends⟩
      refine answers_of_iff (f := heartbeatResponse) (fun _ => rfl) (fun _ => rfl) (by simp) id ?_
      rw [hends.error_iff, InternalRoute.Fails, registryOps_map_innerOp]
  | uploadRawFile upload disk => exact upload_answers upload disk
  | unrouted reason => exact .unrouted reason

end Handlers

/-! ### The server -/

/-- What the answer to a request says. -/
structure HttpRequest.Answers (request : HttpRequest) (environ : Environ) (own : List (Op HttpCmd HttpReply))
    (answer : HttpAnswer) : Prop where
  /-- The answer carries the id of the request. -/
  id : answer.xRequestID = request.requestID
  /-- Status 401: the request is for the workers, and its token is not listed. -/
  unauthorized : answer.response.status = 401 ↔
    (∃ route, request.route = .internal route) ∧ ¬ Listed (environ "GATEWAY_WORKER_TOKENS") request.workerToken
  /-- Status 400: it is let through, and its body cannot be decoded. -/
  badRequest : answer.response.status = 400 ↔ ∃ route, request.Admitted environ route ∧ route.Malformed
  /-- Status 500: it is let through, and what its handler needs has failed. -/
  failed : answer.response.status = 500 ↔
    ∃ route, request.Admitted environ route ∧ ¬ route.Malformed ∧ route.Fails (load environ) own
  /-- A request with another status than 200 and 500 has done nothing. -/
  idle : answer.response.status ≠ 200 → answer.response.status ≠ 500 → own = []

section Server

variable {request : HttpRequest} {environ : Environ} {own : List (Op HttpCmd HttpReply)}

/-- A request without a handler says nothing of tokens, bodies and failures. -/
theorem Answers.of_unrouted {response : HttpResponse} (hroute : ∀ route, request.route ≠ .internal route)
    (hstatus : response.status = 200 ∨ response.status = 404 ∨ response.status = 405) :
    request.Answers environ [] (request.answer response) := by
  have hne : ∀ status, status = 401 ∨ status = 400 ∨ status = 500 →
      (request.answer response).response.status ≠ status := by
    intro status hother
    show response.status ≠ status
    omega
  exact ⟨rfl, iff_of_false (hne _ (.inl rfl)) fun ⟨⟨route, h⟩, _⟩ => hroute route h,
    iff_of_false (hne _ (.inr (.inl rfl))) fun ⟨route, h, _⟩ => hroute route h.route_eq,
    iff_of_false (hne _ (.inr (.inr rfl))) fun ⟨route, h, _⟩ => hroute route h.route_eq, fun _ _ => rfl⟩

/-- A request whose token is not listed. -/
theorem Answers.of_refused {route : InternalRoute} {error : ErrorBody} (hroute : request.route = .internal route)
    (hlisted : ¬ Listed (environ "GATEWAY_WORKER_TOKENS") request.workerToken) :
    request.Answers environ [] (request.answer (respondError 401 error)) where
  id := rfl
  unauthorized := iff_of_true rfl ⟨⟨route, hroute⟩, hlisted⟩
  badRequest := iff_of_false (Nat.ne_of_beq_eq_false rfl) fun ⟨_, h, _⟩ => hlisted h.listed
  failed := iff_of_false (Nat.ne_of_beq_eq_false rfl) fun ⟨_, h, _⟩ => hlisted h.listed
  idle _ _ := rfl

/-- A request that is let through. -/
theorem Answers.of_admitted {route : InternalRoute} {response : HttpResponse} (h : request.Admitted environ route)
    (hresponse : route.Answers (load environ) own response.status) :
    request.Answers environ own (request.answer response) := by
  -- the route is the only one
  have hunique (P : InternalRoute → Prop) : (∃ route', request.Admitted environ route' ∧ P route') ↔ P route := by
    refine ⟨fun ⟨route', h', hP⟩ => ?_, fun hP => ⟨route, h, hP⟩⟩
    exact HttpRoute.internal.inj (h'.route_eq.symm.trans h.route_eq) ▸ hP
  exact ⟨rfl, iff_of_false hresponse.ne_unauthorized fun h' => h'.2 h.listed,
    hresponse.badRequest_iff.trans (hunique InternalRoute.Malformed).symm,
    hresponse.failed_iff.trans (hunique fun route => ¬ route.Malformed ∧ route.Fails (load environ) own).symm,
    hresponse.idle⟩

/-- **What a request is answered.** -/
theorem serve_answers (environ : Environ) (request : HttpRequest) :
    (request.serve (load environ)).Obeys (fun _ _ => True) (request.Answers environ) [] := by
  cases hroute : request.route with
  | health =>
    have hserve : request.serve (load environ) = .done (request.answer healthResponse) := by
      unfold HttpRequest.serve
      rw [hroute]
      rfl
    rw [hserve]
    exact Answers.of_unrouted (by simp [hroute]) (.inl rfl)
  | unrouted reason =>
    have hserve : request.serve (load environ) = .done (request.answer reason.response) := by
      unfold HttpRequest.serve
      rw [hroute]
      rfl
    rw [hserve]
    exact Answers.of_unrouted (by simp [hroute]) (by cases reason <;> simp [Unrouted.response, httpError])
  | internal route =>
    obtain ⟨hadmitted, hrefused⟩ := serve_internal environ hroute
    by_cases hlisted : Listed (environ "GATEWAY_WORKER_TOKENS") request.workerToken
    · rw [hadmitted hlisted]
      exact (handle_answers (load environ) request.workerID route).bind fun own response hresponse =>
        Answers.of_admitted ⟨hroute, hlisted⟩ hresponse
    · obtain ⟨message, hserve⟩ := hrefused hlisted
      rw [hserve]
      exact Answers.of_refused hroute hlisted

/-- What a call of the server ends with. -/
def ServerCall.Ends (environ : Environ) : (call : ServerCall) → List (Op HttpCmd HttpReply) → ServerRet call → Prop
  | .push _, _, _ => True
  | .http request, own, answer => request.Answers environ own answer

theorem serverCall_ends (environ : Environ) : Obeyed (ServerCall.body (load environ))
    (fun _ _ _ => True) (ServerCall.Ends environ) := by
  intro call
  cases call with
  | push task =>
    refine ⟨trivial, fun r => ?_⟩
    cases r <;> trivial
  | http request => exact serve_answers environ request

/-- **The meaning of a status.** In every run of the server, whatever is interleaved and whichever commands fail,
are lost or are not answered, a request is answered with 401 if and only if it is for the workers and its token
is not listed, with 400 if and only if it is let through and its body cannot be decoded, and with 500 if and only
if what its handler needs has failed; with any status but 200 and 500 it has done nothing. -/
theorem answered_exactly (environ : Environ) (pre post : List HttpEvent) (s : HttpState) (t : ℚ) (i : ℕ)
    (request : HttpRequest) (answer : HttpAnswer)
    (hr : (httpServer (load environ)).Run (pre ++ (t, .finish i (.http request) answer) :: post) s) :
    request.Answers environ (ownOps i (pre.map Prod.snd)) answer :=
  (serverCall_ends environ).returns hr

end Server

/-! ### A worker without a token -/

/-- The last event answers a request with 401. -/
def endsRefused (es : List HttpEvent) : Bool :=
  match es.getLast? with
  | some (_, .finish _ (.http _) answer) => answer.response.status == 401
  | _ => false

theorem answered_exactly_strayReport : ∃ pre t i request answer s,
    (httpServer (load twoTokens)).Run (pre ++ [(t, .finish i (.http request) answer)]) s ∧
    request.Answers twoTokens (ownOps i (pre.map Prod.snd)) answer ∧ answer.response.status = 401 := by
  obtain ⟨s, hr⟩ := run_httpSession [strayReport] (by decide +kernel)
  have hends : endsRefused (httpSession [strayReport]) = true := by decide +kernel
  unfold endsRefused at hends
  split at hends
  · next t i request answer hlast =>
    obtain ⟨pre, hpre⟩ := List.getLast?_eq_some_iff.mp hlast
    rw [hpre] at hr
    exact ⟨pre, t, i, request, answer, s, hr, answered_exactly _ pre [] s t i request answer hr, eq_of_beq hends⟩
  · exact absurd hends (by simp)

end TaxlienGateway
