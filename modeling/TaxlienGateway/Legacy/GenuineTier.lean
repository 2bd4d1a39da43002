import TaxlienGateway.Legacy.Auth

/-!
# Whether a forwarded tier is genuine

Three places read the tier of a context that `AuthMiddleware` forwards: the rate limiter, which takes
`value` only if there is one, `TIER_LIMITS.get`, for which a string is as good as the member it equals,
and the header `X-User-Tier` of the proxies, which takes `value` without asking. A claim is assigned to
the tier without validation, and none of its JSON types has a `value`.

`genuine_iff` says when every forwarded context carries a member of `UserTier`, which all three read as
that tier: exactly if no claim of a tier is forwarded (`ForwardsClaim`).
-/

namespace TaxlienGateway

open Framework

namespace Legacy

/-! ### The readers of a tier -/

/-- `t.value if hasattr(t, "value") else str(t)`, where `str` is the text of a value that is no string. -/
def TierValue.rateLimitTier (str : Json → String) : TierValue → String
  | member tier => tier.value
  | claim (.str s) => s
  | claim v => str v

/-- `TIER_LIMITS.get(tier, {}).get(feature, 0)` -/
def TierValue.limitFor (feature : String) : TierValue → Except String ℤ
  -- what cannot be hashed cannot be looked up
  | claim (.arr _) => .error "TypeError"
  | claim (.obj _) => .error "TypeError"
  | v => .ok (((((tierLimits.find? fun entry => v.eq entry.1).map Prod.snd).getD []).lookup
      feature).getD 0)

/-- `auth.tier.value` -/
def TierValue.value : TierValue → Except String String
  | member tier => .ok tier.value
  | claim _ => .error "AttributeError"

/-- All three readers take the value for `tier`, and none of them raises. -/
structure TierValue.SeenAs (v : TierValue) (tier : UserTier) : Prop where
  rateLimit : ∀ str, v.rateLimitTier str = tier.value
  limits : ∀ feature, v.limitFor feature = .ok (Legacy.limitFor tier feature)
  header : v.value = .ok tier.value

/-- The tier of the context is a member of `UserTier`, and seen as that member. -/
def AuthContext.Genuine (auth : AuthContext) : Prop :=
  ∃ tier, auth.tier = .member tier ∧ auth.tier.SeenAs tier

/-- A member is seen as what it is. -/
theorem seenAs_member (tier : UserTier) : (TierValue.member tier).SeenAs tier where
  rateLimit := fun _ => rfl
  limits := fun feature => by cases tier <;> rfl
  header := rfl

theorem genuine_of_member {auth : AuthContext} {tier : UserTier} (h : auth.tier = .member tier) :
    auth.Genuine :=
  ⟨tier, h, h ▸ seenAs_member tier⟩

/-! ### Claims that are forwarded -/

section Dispatch

variable {settings : Settings} {verify_id_token : String → Except String Claims} {request : AuthRequest}

variable (settings verify_id_token request) in
/-- The request has no worker token, and a bearer token whose verified claims name a user and a tier;
on an internal route, the tier is said to be `internal`. -/
def ForwardsClaim : Prop :=
  truthy request.x_worker_token = none ∧ settings.firebase_project_id ≠ "" ∧
    ∃ token claims tier, bearerToken request.authorization = some token ∧
      verify_id_token token = .ok claims ∧ (getItem claims "uid").isSome ∧
      getItem claims "tier" = some tier ∧
      ("/internal".toList.isPrefixOf request.path.toList = true →
        (TierValue.claim tier).eq .internal = true)

/-- Every credential but a claimed tier is genuine. -/
theorem Credentials.genuine {auth : AuthContext}
    (hcred : Credentials settings verify_id_token request auth)
    (hroute : "/internal".toList.isPrefixOf request.path.toList = true → auth.tier.eq .internal = true)
    (hclaims : ¬ ForwardsClaim settings verify_id_token request) : auth.Genuine := by
  cases hcred with
  | worker h => exact genuine_of_member rfl
  | anonymous h h' => exact genuine_of_member rfl
  | mock token h h' hdev => exact genuine_of_member rfl
  | plain token claims uid h h' hdev hverify huid htier => exact genuine_of_member rfl
  | claimed token claims uid tier h h' hdev hverify huid htier =>
    have huid' : (getItem claims "uid").isSome := huid ▸ rfl
    exact absurd ⟨h, hdev, token, claims, tier, h', hverify, huid', htier, hroute⟩ hclaims

/-- A claimed tier is forwarded as it came. -/
theorem dispatch_of_forwardsClaim (h : ForwardsClaim settings verify_id_token request) :
    ∃ auth v, dispatch settings verify_id_token request = .ok auth ∧ auth.tier = .claim v := by
  obtain ⟨hworker, hdev, token, claims, tier, hbearer, hverify, huid, htier, hroute⟩ := h
  obtain ⟨uid, huid⟩ := Option.isSome_iff_exists.mp huid
  exact ⟨_, tier, dispatch_of_claims hworker hdev hbearer hverify huid htier hroute, rfl⟩

end Dispatch

/-- **When every forwarded tier is genuine.** -/
theorem genuine_iff (settings : Settings) (verify_id_token : String → Except String Claims)
    (request : AuthRequest) :
    (∀ auth, dispatch settings verify_id_token request = .ok auth → auth.Genuine) ↔
      ¬ ForwardsClaim settings verify_id_token request := by
  constructor
  · intro hgenuine hclaims
    obtain ⟨auth, v, hforward, hclaim⟩ := dispatch_of_forwardsClaim hclaims
    obtain ⟨tier, htier, -⟩ := hgenuine auth hforward
    rw [hclaim] at htier
    exact absurd htier (by simp)
  · intro hclaims auth hforward
    obtain ⟨hcred, hroute⟩ := credentials_of_dispatch hforward
    exact hcred.genuine hroute hclaims

/-- The claims of a user who has paid. -/
def premiumClaims : Claims := [("uid", .str "user-123"), ("tier", .str "premium")]

/-- **The tier of a paying user raises.** The rate limiter and the daily limits see a premium user, and
the header of the proxies cannot be built. -/
theorem premium_user_raises :
    let settings : Settings := ⟨"secret", "taxlien"⟩
    let request : AuthRequest := ⟨"/v1/properties/12-34", none, none, some "Bearer t"⟩
    ∃ auth, dispatch settings (fun _ => .ok premiumClaims) request = .ok auth ∧ ¬ auth.Genuine ∧
      (∀ str, auth.tier.rateLimitTier str = "premium") ∧
      auth.tier.limitFor "daily_details" = .ok (-1) ∧ auth.tier.value = .error "AttributeError" := by
  refine ⟨⟨some (.str "user-123"), .claim (.str "premium"), none⟩, rfl, ?_, fun _ => rfl, rfl, rfl⟩
  rintro ⟨tier, htier, -⟩
  exact absurd htier (by simp)

end Legacy

end TaxlienGateway
