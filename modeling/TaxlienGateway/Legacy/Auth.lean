import TaxlienGateway.Legacy.Usage
import TaxlienGateway.Legacy.Worker

/-!
# Authentication in the legacy gateway

`AuthMiddleware.dispatch` of `legacy/app/core/auth.py`. A request may carry two kinds of credential: the
token of a worker, and the token of a user, which Firebase verifies and decodes into claims. The claims
are assigned to the context as they come, so its tier may be any JSON value; a `UserTier` is a `str` and
equals the plain string of its value.

* `credentials_of_dispatch` — what `dispatch` forwards, case by case of the credentials;
* `guarded_iff` — an internal route and the internal tier need the worker token, exactly when no
  verified claims say that the tier is `internal`.
-/

namespace TaxlienGateway

open Framework

namespace Legacy

/-- The settings that `dispatch` reads; an empty string is an unset one. -/
structure Settings where
  internal_api_token : String
  firebase_project_id : String

/-- What `dispatch` reads of a request; the last three are headers. -/
structure AuthRequest where
  path : String
  x_worker_token : Option String
  x_worker_id : Option String
  authorization : Option String

/-- A decoded token. -/
abbrev Claims := List (String × Json)

/-- The value of `auth_context.tier`: a member of `UserTier`, or a claim as it was decoded. -/
inductive TierValue where
  | member (tier : UserTier)
  | claim (v : Json)

/-- `tier == UserTier...` -/
def TierValue.eq : TierValue → UserTier → Bool
  | member tier, tier' => tier == tier'
  | claim (.str s), tier' => s == tier'.value
  | claim _, _ => false

/-- `AuthContext`; `none` is `None`. -/
structure AuthContext where
  user_id : Option Json
  tier : TierValue
  worker_id : Option String

/-- `AuthContext()` -/
def AuthContext.new : AuthContext := ⟨none, .member .anonymous, none⟩

/-- A claim as an attribute: a JSON null is `None`. -/
def notNull : Json → Option Json
  | .null => none
  | v => some v

/-- A header, if it is there and not empty. -/
def truthy (header : Option String) : Option String := header.filter (· ≠ "")

/-- `auth_header[7:]`, if the header starts with `Bearer `. -/
def bearerToken (header : Option String) : Option String :=
  ((truthy header).filter fun h => "Bearer ".toList.isPrefixOf h.toList).map fun h =>
    String.ofList (h.toList.drop 7)

section Dispatch

variable (settings : Settings) (verify_id_token : String → Except String Claims) (request : AuthRequest)

/-- The first step of `dispatch`: the worker token, if there is one, must be the right one. -/
def checkWorkerToken (auth : AuthContext) : Except String AuthContext :=
  match truthy request.x_worker_token with
  | none => .ok auth
  | some worker_token =>
    if worker_token = settings.internal_api_token then
      .ok { auth with
        tier := .member .internal
        worker_id := some (request.x_worker_id.getD "unknown") }
    else .error "Invalid worker token"

/-- The claims of a verified token, as they come. -/
def applyClaims (claims : Claims) (auth : AuthContext) : Option AuthContext :=
  -- `decoded_token["uid"]` raises if there is none
  (getItem claims "uid").map fun uid =>
    { auth with
      user_id := notNull uid
      tier := match getItem claims "tier" with
        | none => .member .free
        | some v => .claim v }

/-- The second step: the Firebase token, of a context that is still anonymous. -/
def checkFirebaseToken (auth : AuthContext) : Except String AuthContext :=
  match bearerToken request.authorization with
  | none => .ok auth
  | some token =>
    if auth.tier.eq .anonymous then
      if settings.firebase_project_id = "" then
        -- development mode: no validation
        .ok { auth with user_id := some (.str "mock-user-123"), tier := .member .free }
      else match verify_id_token token with
        | .error _ => .error "Invalid or expired session"
        | .ok claims =>
          match applyClaims claims auth with
          | none => .error "Invalid or expired session"
          | some auth => .ok auth
    else .ok auth

/-- The third step: `/internal` routes are for the internal tier. -/
def guardInternal (auth : AuthContext) : Except String AuthContext :=
  if "/internal".toList.isPrefixOf request.path.toList ∧ auth.tier.eq .internal = false then
    .error "Internal access required"
  else .ok auth

/-- `AuthMiddleware.dispatch`: the context that is forwarded, or the message of the 401 response. -/
def dispatch : Except String AuthContext := do
  let auth ← checkWorkerToken settings request .new
  let auth ← checkFirebaseToken settings verify_id_token request auth
  guardInternal request auth

/-! ### What is forwarded -/

/-- The context after the two credentials have been looked at. -/
inductive Credentials : AuthContext → Prop
  /-- The right worker token. -/
  | worker (h : truthy request.x_worker_token = some settings.internal_api_token) :
      Credentials ⟨none, .member .internal, some (request.x_worker_id.getD "unknown")⟩
  /-- No credential. -/
  | anonymous (h : truthy request.x_worker_token = none)
      (h' : bearerToken request.authorization = none) : Credentials .new
  /-- A bearer token in development mode. -/
  | mock (token : String) (h : truthy request.x_worker_token = none)
      (h' : bearerToken request.authorization = some token)
      (hdev : settings.firebase_project_id = "") :
      Credentials ⟨some (.str "mock-user-123"), .member .free, none⟩
  /-- Verified claims without a tier. -/
  | plain (token : String) (claims : Claims) (uid : Json)
      (h : truthy request.x_worker_token = none)
      (h' : bearerToken request.authorization = some token)
      (hdev : settings.firebase_project_id ≠ "") (hverify : verify_id_token token = .ok claims)
      (huid : getItem claims "uid" = some uid) (htier : getItem claims "tier" = none) :
      Credentials ⟨notNull uid, .member .free, none⟩
  /-- Verified claims with a tier. -/
  | claimed (token : String) (claims : Claims) (uid tier : Json)
      (h : truthy request.x_worker_token = none)
      (h' : bearerToken request.authorization = some token)
      (hdev : settings.firebase_project_id ≠ "") (hverify : verify_id_token token = .ok claims)
      (huid : getItem claims "uid" = some uid) (htier : getItem claims "tier" = some tier) :
      Credentials ⟨notNull uid, .claim tier, none⟩

variable {settings verify_id_token request}

/-- The second step passes over a context that is not anonymous any more. -/
theorem checkFirebaseToken_of_ne {auth : AuthContext} (h : auth.tier.eq .anonymous = false) :
    checkFirebaseToken settings verify_id_token request auth = .ok auth := by
  unfold checkFirebaseToken
  cases bearerToken request.authorization with
  | none => rfl
  | some token => simp [h]

/-- The second step, when there is a bearer token to verify. -/
theorem checkFirebaseToken_new {token : String}
    (htoken : bearerToken request.authorization = some token)
    (hdev : settings.firebase_project_id ≠ "") :
    checkFirebaseToken settings verify_id_token request .new =
      match verify_id_token token with
      | .error _ => .error "Invalid or expired session"
      | .ok claims =>
        match applyClaims claims .new with
        | none => .error "Invalid or expired session"
        | some auth => .ok auth := by
  unfold checkFirebaseToken
  rw [htoken]
  have hanonymous : AuthContext.new.tier.eq .anonymous = true := rfl
  simp only [hanonymous, ↓reduceIte, hdev]

/-- The second step, of a request without a worker token. -/
theorem credentials_of_checkFirebaseToken {auth : AuthContext}
    (hworker : truthy request.x_worker_token = none)
    (h : checkFirebaseToken settings verify_id_token request .new = .ok auth) :
    Credentials settings verify_id_token request auth := by
  cases hbearer : bearerToken request.authorization with
  | none =>
    unfold checkFirebaseToken at h
    rw [hbearer] at h
    obtain rfl := Except.ok.inj h
    exact .anonymous hworker hbearer
  | some token =>
    by_cases hdev : settings.firebase_project_id = ""
    · unfold checkFirebaseToken at h
      -- without a project id the token is not verified
      have hanonymous : AuthContext.new.tier.eq .anonymous = true := rfl
      simp only [hbearer, hanonymous, ↓reduceIte, hdev] at h
      obtain rfl := Except.ok.inj h
      exact .mock token hworker hbearer hdev
    · rw [checkFirebaseToken_new hbearer hdev] at h
      -- claims are trusted once they are verified, and the tier is what they say
      cases hverify : verify_id_token token with
      | error e =>
        rw [hverify] at h
        exact absurd h (by simp)
      | ok claims =>
        rw [hverify] at h
        cases huid : getItem claims "uid" with
        | none =>
          simp only [applyClaims, huid, Option.map_none] at h
          exact absurd h (by simp)
        | some uid =>
          simp only [applyClaims, huid, Option.map_some] at h
          obtain rfl := Except.ok.inj h
          cases htier : getItem claims "tier" with
          | none => exact .plain token claims uid hworker hbearer hdev hverify huid htier
          | some tier => exact .claimed token claims uid tier hworker hbearer hdev hverify huid htier

/-- **The credentials of what passes the first two steps.** -/
theorem credentials_of_ok {auth : AuthContext}
    (h : (checkWorkerToken settings request .new >>=
      checkFirebaseToken settings verify_id_token request) = .ok auth) :
    Credentials settings verify_id_token request auth := by
  unfold checkWorkerToken at h
  cases hworker : truthy request.x_worker_token with
  | some worker_token =>
    rw [hworker] at h
    by_cases heq : worker_token = settings.internal_api_token
    · -- the internal tier is not anonymous, so a bearer token is not looked at
      subst heq
      simp only [↓reduceIte] at h
      change checkFirebaseToken settings verify_id_token request _ = _ at h
      rw [checkFirebaseToken_of_ne rfl] at h
      obtain rfl := Except.ok.inj h
      exact .worker hworker
    · simp only [heq, ↓reduceIte] at h
      exact absurd h (by simp [bind, Except.bind])
  | none =>
    rw [hworker] at h
    exact credentials_of_checkFirebaseToken hworker h

/-- **Forwarding.** What is forwarded has one of the credentials, and the internal tier if the route is
internal. -/
theorem credentials_of_dispatch {auth : AuthContext}
    (h : dispatch settings verify_id_token request = .ok auth) :
    Credentials settings verify_id_token request auth ∧
      ("/internal".toList.isPrefixOf request.path.toList = true → auth.tier.eq .internal = true) := by
  unfold dispatch at h
  rw [← bind_assoc] at h
  obtain ⟨auth', hcred, hguard⟩ : ∃ auth', (checkWorkerToken settings request .new >>=
      checkFirebaseToken settings verify_id_token request) = .ok auth' ∧
      guardInternal request auth' = .ok auth := by
    cases hc : checkWorkerToken settings request .new >>=
        checkFirebaseToken settings verify_id_token request with
    | error e =>
      rw [hc] at h
      exact absurd h (by simp [bind, Except.bind])
    | ok auth' =>
      rw [hc] at h
      exact ⟨auth', rfl, h⟩
  -- the guard passes the context on as it is
  unfold guardInternal at hguard
  split at hguard
  · exact absurd hguard (by simp)
  · next hpass =>
    obtain rfl := Except.ok.inj hguard
    refine ⟨credentials_of_ok hcred, fun hpath => ?_⟩
    by_contra htier
    exact hpass ⟨hpath, by simpa using htier⟩

/-! ### Internal routes and the internal tier -/

variable (settings request) in
/-- What an internal route and the internal tier need. -/
structure Guarded (auth : AuthContext) : Prop where
  /-- The worker token, on an internal route. -/
  route : "/internal".toList.isPrefixOf request.path.toList = true →
    request.x_worker_token = some settings.internal_api_token
  /-- A worker, for the internal tier and for no other. -/
  tier : auth.tier.eq .internal = true ↔ auth.worker_id.isSome
  /-- A user or a worker. -/
  single : ¬ (auth.user_id.isSome ∧ auth.worker_id.isSome)

variable (settings verify_id_token request) in
/-- The request has no worker token, and a bearer token whose verified claims say that the tier is
`internal`. -/
def ClaimsInternal : Prop :=
  truthy request.x_worker_token = none ∧ settings.firebase_project_id ≠ "" ∧
    ∃ token claims, bearerToken request.authorization = some token ∧
      verify_id_token token = .ok claims ∧ (getItem claims "uid").isSome ∧
      getItem claims "tier" = some (.str UserTier.internal.value)

/-- A header that is not empty is the header. -/
theorem eq_some_of_truthy {header : Option String} {v : String} (h : truthy header = some v) :
    header = some v := (Option.filter_eq_some_iff.mp h).1

/-- A claim equals a tier if it is the string of its value. -/
theorem TierValue.eq_claim {v : Json} {tier : UserTier} (h : (TierValue.claim v).eq tier = true) :
    v = .str tier.value := by
  cases v with
  | str s => exact congrArg Json.str (eq_of_beq h)
  | null => exact absurd h (by simp [TierValue.eq])
  | bool b => exact absurd h (by simp [TierValue.eq])
  | num l => exact absurd h (by simp [TierValue.eq])
  | arr xs => exact absurd h (by simp [TierValue.eq])
  | obj members => exact absurd h (by simp [TierValue.eq])

/-- Every credential but verified claims of the internal tier guards what it should. -/
theorem Credentials.guarded {auth : AuthContext}
    (hcred : Credentials settings verify_id_token request auth)
    (hroute : "/internal".toList.isPrefixOf request.path.toList = true → auth.tier.eq .internal = true)
    (hclaims : ¬ ClaimsInternal settings verify_id_token request) : Guarded settings request auth := by
  cases hcred with
  | worker h => exact ⟨fun _ => eq_some_of_truthy h, by simp [TierValue.eq], by simp⟩
  | anonymous h h' =>
    exact ⟨fun hpath => absurd (hroute hpath) (by simp [AuthContext.new, TierValue.eq]),
      by simp [AuthContext.new, TierValue.eq], by simp [AuthContext.new]⟩
  | mock token h h' hdev =>
    exact ⟨fun hpath => absurd (hroute hpath) (by simp [TierValue.eq]), by simp [TierValue.eq], by simp⟩
  | plain token claims uid h h' hdev hverify huid htier =>
    exact ⟨fun hpath => absurd (hroute hpath) (by simp [TierValue.eq]), by simp [TierValue.eq], by simp⟩
  | claimed token claims uid tier h h' hdev hverify huid htier =>
    -- the tier is not the internal one, or the claims would say so
    have hne : (TierValue.claim tier).eq .internal = false := by
      refine Bool.eq_false_iff.mpr fun heq => hclaims ⟨h, hdev, token, claims, h', hverify, ?_, ?_⟩
      · rw [huid]
        rfl
      · rw [htier, TierValue.eq_claim heq]
    exact ⟨fun hpath => absurd (hroute hpath) (by simp [hne]), by simp [hne], by simp⟩

/-- Verified claims with a tier are forwarded with the tier as it came, unless the guard stops them. -/
theorem dispatch_of_claims {token : String} {claims : Claims} {uid tier : Json}
    (hworker : truthy request.x_worker_token = none) (hdev : settings.firebase_project_id ≠ "")
    (hbearer : bearerToken request.authorization = some token)
    (hverify : verify_id_token token = .ok claims) (huid : getItem claims "uid" = some uid)
    (htier : getItem claims "tier" = some tier)
    (hroute : "/internal".toList.isPrefixOf request.path.toList = true →
      (TierValue.claim tier).eq .internal = true) :
    dispatch settings verify_id_token request = .ok ⟨notNull uid, .claim tier, none⟩ := by
  -- without a worker token the first step changes nothing
  have hfirst : checkWorkerToken settings request .new = .ok .new := by
    unfold checkWorkerToken
    rw [hworker]
  have hsecond : checkFirebaseToken settings verify_id_token request .new = _ :=
    checkFirebaseToken_new hbearer hdev
  simp only [hverify, applyClaims, huid, htier, Option.map_some] at hsecond
  unfold dispatch
  rw [hfirst]
  change (checkFirebaseToken settings verify_id_token request .new >>= guardInternal request) = _
  rw [hsecond]
  change guardInternal request _ = _
  -- an internal route comes with an internal claim
  unfold guardInternal
  rw [if_neg fun hguard => absurd (hroute hguard.1) (by simp [hguard.2])]
  rfl

/-- With verified claims of the internal tier, `dispatch` forwards a context of the internal tier
without a worker. -/
theorem dispatch_of_claimsInternal (h : ClaimsInternal settings verify_id_token request) :
    ∃ auth, dispatch settings verify_id_token request = .ok auth ∧ auth.tier.eq .internal = true ∧
      auth.worker_id = none := by
  obtain ⟨hworker, hdev, token, claims, hbearer, hverify, huid, htier⟩ := h
  obtain ⟨uid, huid⟩ := Option.isSome_iff_exists.mp huid
  have hinternal : (TierValue.claim (.str UserTier.internal.value)).eq .internal = true := by
    simp [TierValue.eq]
  exact ⟨_, dispatch_of_claims hworker hdev hbearer hverify huid htier fun _ => hinternal, hinternal,
    rfl⟩

end Dispatch

/-- **Internal routes and the internal tier need the worker token**, exactly when no verified claims
say that the tier is `internal`. -/
theorem guarded_iff (settings : Settings) (verify_id_token : String → Except String Claims)
    (request : AuthRequest) :
    (∀ auth, dispatch settings verify_id_token request = .ok auth → Guarded settings request auth) ↔
      ¬ ClaimsInternal settings verify_id_token request := by
  constructor
  · intro hguarded hclaims
    obtain ⟨auth, hforward, htier, hworker⟩ := dispatch_of_claimsInternal hclaims
    have hsome := (hguarded auth hforward).tier.mp htier
    rw [hworker] at hsome
    exact absurd hsome (by simp)
  · intro hclaims auth hforward
    obtain ⟨hcred, hroute⟩ := credentials_of_dispatch hforward
    exact hcred.guarded hroute hclaims

/-- The claims of a user whose tier is said to be internal. -/
def internalClaims : Claims := [("uid", .str "user-123"), ("tier", .str "internal")]

/-- **An internal route without the worker token** is forwarded to a user whose claims say that the
tier is internal. -/
theorem internal_route_forwarded :
    let settings : Settings := ⟨"secret", "taxlien"⟩
    let request : AuthRequest := ⟨"/internal/work", none, none, some "Bearer t"⟩
    ∃ auth, dispatch settings (fun _ => .ok internalClaims) request = .ok auth ∧
      "/internal".toList.isPrefixOf request.path.toList = true ∧
      request.x_worker_token ≠ some settings.internal_api_token ∧
      auth.tier.eq .internal = true ∧ auth.worker_id = none := by
  refine ⟨⟨some (.str "user-123"), .claim (.str "internal"), none⟩, rfl, by decide, by decide, ?_, rfl⟩
  decide

end Legacy

end TaxlienGateway
