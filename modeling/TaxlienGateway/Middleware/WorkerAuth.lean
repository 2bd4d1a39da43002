import Mathlib.Data.Finset.Insert
import TaxlienGateway.Framework.Decimal
import TaxlienGateway.Framework.Text

/-!
# The tokens of the workers

`internal/config` reads the configuration from the environment; the tokens are the fields of
`GATEWAY_WORKER_TOKENS`, trimmed, without the empty ones. `internal/middleware/worker_auth.go` stands in front
of every route of the group `/internal`: it lets a request through if its `X-Worker-Token` is one of them.
Values of the environment and of headers are strings of bytes; what is not set is empty.

* `mem_workerTokens` — the set that `Load` builds;
* `workerAuth_exact` — a request passes exactly if its token stands between two commas, or a comma and an
  end of the list, up to white space.
-/

namespace TaxlienGateway

open Framework

/-! ### The configuration -/

/-- The environment of the process. -/
abbrev Environ : Type := String → List UInt8

def getEnv (environ : Environ) (key : String) (default : List UInt8) : List UInt8 :=
  if environ key ≠ [] then environ key else default

/-- The digits of a decimal number. -/
def digits? (s : List UInt8) : Option ℕ :=
  readNat? (s.map fun b => Char.ofNat b.toNat)

/-- `strconv.Atoi`, if it makes no error: an optional sign and digits, in the 64-bit range. -/
def atoi? (s : List UInt8) : Option ℤ :=
  let n : Option ℤ :=
    match s with
    | 45 :: ds => (digits? ds).map fun n => -(n : ℤ)
    | 43 :: ds => (digits? ds).map fun n => (n : ℤ)
    | ds => (digits? ds).map fun n => (n : ℤ)
  n.bind fun n => if -2 ^ 63 ≤ n ∧ n < 2 ^ 63 then some n else none

def getEnvInt (environ : Environ) (key : String) (default : ℤ) : ℤ :=
  if environ key ≠ [] then (atoi? (environ key)).getD default else default

/-- `config.Config`. -/
structure Config where
  port : ℤ
  postgresURL : List UInt8
  redisURL : List UInt8
  workerTokens : Finset (List UInt8)
  rawStorage : List UInt8

/-- The separator of the tokens. -/
def comma : UInt8 := 44

/-- The loop of `Load` over the fields. -/
def addToken (tokens : Finset (List UInt8)) (t : List UInt8) : Finset (List UInt8) :=
  if trimSpace t ≠ [] then insert (trimSpace t) tokens else tokens

/-- `config.Load` -/
def load (environ : Environ) : Config where
  port := getEnvInt environ "GATEWAY_PORT" 8081
  postgresURL := getEnv environ "GATEWAY_POSTGRES_URL" (utf8 "postgres://localhost:5432/taxlien")
  redisURL := getEnv environ "GATEWAY_REDIS_URL" (utf8 "redis://localhost:6379/0")
  workerTokens := ((getEnv environ "GATEWAY_WORKER_TOKENS" []).splitOn comma).foldl addToken ∅
  rawStorage := getEnv environ "GATEWAY_RAW_STORAGE_PATH" (utf8 "/data/raw")

/-! ### The middleware -/

/-- The body that `RespondError` writes. -/
structure ErrorBody where
  code : String
  message : String
  deriving DecidableEq

/-- What becomes of a request: an error response, or `next.ServeHTTP`. -/
inductive Passage where
  | next
  | refused (status : ℕ) (error : ErrorBody)
  deriving DecidableEq

/-- `middleware.WorkerAuth` -/
def workerAuth (tokens : Finset (List UInt8)) (token : List UInt8) : Passage :=
  if token = [] then .refused 401 ⟨"UNAUTHORIZED", "Missing X-Worker-Token"⟩
  else if token ∈ tokens then .next
  else .refused 401 ⟨"UNAUTHORIZED", "Invalid X-Worker-Token"⟩

/-- A request passes with a token of the set, and with no empty one. -/
theorem workerAuth_eq_next_iff {tokens : Finset (List UInt8)} {token : List UInt8} :
    workerAuth tokens token = .next ↔ token ≠ [] ∧ token ∈ tokens := by
  unfold workerAuth
  split
  · next hempty => simp [hempty]
  · next hne => split <;> simp_all

/-- A request that does not pass is answered with 401. -/
theorem workerAuth_refused {tokens : Finset (List UInt8)} {token : List UInt8}
    (h : workerAuth tokens token ≠ .next) :
    ∃ message, workerAuth tokens token = .refused 401 ⟨"UNAUTHORIZED", message⟩ := by
  unfold workerAuth at h ⊢
  split
  · exact ⟨_, rfl⟩
  · next hne =>
    rw [if_neg hne] at h
    split
    · next hmem => exact absurd (if_pos hmem) h
    · exact ⟨_, rfl⟩

/-! ### The set of tokens -/

theorem mem_foldl_addToken {fields : List (List UInt8)} {tokens : Finset (List UInt8)} {t : List UInt8} :
    t ∈ fields.foldl addToken tokens ↔ t ∈ tokens ∨ t ≠ [] ∧ ∃ field ∈ fields, trimSpace field = t := by
  induction fields generalizing tokens with
  | nil => simp
  | cons field fields ih =>
    rw [List.foldl_cons, ih, addToken]
    by_cases hempty : trimSpace field = []
    · -- a blank field adds nothing, and the empty token is not asked for
      rw [if_neg (not_not_intro hempty)]
      refine or_congr_right (and_congr_right fun hne => ?_)
      simp [hempty, Ne.symm hne]
    · rw [if_pos hempty, Finset.mem_insert]
      constructor
      · rintro ((rfl | hmem) | ⟨hne, field', hfield', htrim⟩)
        · exact .inr ⟨hempty, field, List.mem_cons_self, rfl⟩
        · exact .inl hmem
        · exact .inr ⟨hne, field', List.mem_cons_of_mem field hfield', htrim⟩
      · rintro (hmem | ⟨hne, field', hfield', rfl⟩)
        · exact .inl (.inr hmem)
        · obtain rfl | hfield' := List.mem_cons.mp hfield'
          · exact .inl (.inl rfl)
          · exact .inr ⟨hne, field', hfield', rfl⟩

/-- **The set that `Load` builds.** -/
theorem mem_workerTokens {environ : Environ} {t : List UInt8} :
    t ∈ (load environ).workerTokens ↔
      t ≠ [] ∧ ∃ field ∈ (environ "GATEWAY_WORKER_TOKENS").splitOn comma, trimSpace field = t := by
  have henv : getEnv environ "GATEWAY_WORKER_TOKENS" [] = environ "GATEWAY_WORKER_TOKENS" := by
    unfold getEnv
    split <;> simp_all
  show t ∈ ((getEnv environ "GATEWAY_WORKER_TOKENS" []).splitOn comma).foldl addToken ∅ ↔ _
  rw [mem_foldl_addToken, henv]
  simp

/-! ### Acceptance -/

/-- The token `t` is listed in `s`: it stands between two commas, or between a comma and an end of the list,
with nothing but white space around it, and neither starts nor ends with white space. -/
def Listed (s t : List UInt8) : Prop :=
  (t ≠ [] ∧ comma ∉ t ∧ ¬ StartsBlank spaceWords t ∧ ¬ EndsBlank spaceWords t) ∧
    ∃ a w₁ w₂ b, s = a ++ w₁ ++ t ++ w₂ ++ b ∧ Blank spaceWords w₁ ∧ Blank spaceWords w₂ ∧
      (a = [] ∨ ∃ a', a = a' ++ [comma]) ∧ (b = [] ∨ ∃ b', b = comma :: b')

theorem comma_notMem_of_blank {w : List UInt8} (hw : Blank spaceWords w) : comma ∉ w := by
  obtain ⟨ws, hws, rfl⟩ := hw
  intro hmem
  obtain ⟨u, hu, hcomma⟩ := List.mem_flatten.mp hmem
  have hall : ∀ u ∈ spaceWords, comma ∉ u := by decide +kernel
  exact hall u (hws u hu) hcomma

theorem mem_workerTokens_iff_listed {environ : Environ} {t : List UInt8} :
    t ∈ (load environ).workerTokens ↔ Listed (environ "GATEWAY_WORKER_TOKENS") t := by
  rw [mem_workerTokens]
  constructor
  · rintro ⟨hne, field, hfield, htrim⟩
    obtain ⟨a, b, henv, hcomma, ha, hb⟩ := mem_splitOn_iff.mp hfield
    obtain ⟨w₁, w₂, hw₁, hw₂, rfl, hstart, hend⟩ := (trim_eq_iff code_spaceWords hne).mp htrim
    refine ⟨⟨hne, fun hmem => hcomma ?_, hstart, hend⟩, a, w₁, w₂, b, ?_, hw₁, hw₂, ha, hb⟩
    · exact List.mem_append_left w₂ (List.mem_append_right w₁ hmem)
    · rw [henv]
      simp only [List.append_assoc]
  · rintro ⟨⟨hne, hcomma, hstart, hend⟩, a, w₁, w₂, b, henv, hw₁, hw₂, ha, hb⟩
    -- white space has no comma in it, so the token and its margins are one field
    refine ⟨hne, w₁ ++ t ++ w₂, mem_splitOn_iff.mpr ⟨a, b, ?_, ?_, ha, hb⟩,
      (trim_eq_iff code_spaceWords hne).mpr ⟨w₁, w₂, hw₁, hw₂, rfl, hstart, hend⟩⟩
    · rw [henv]
      simp only [List.append_assoc]
    · simp [hcomma, comma_notMem_of_blank hw₁, comma_notMem_of_blank hw₂]

theorem workerAuth_eq_next_iff_listed {environ : Environ} {t : List UInt8} :
    workerAuth (load environ).workerTokens t = .next ↔ Listed (environ "GATEWAY_WORKER_TOKENS") t := by
  rw [workerAuth_eq_next_iff, mem_workerTokens_iff_listed]
  exact and_iff_right_of_imp fun hlisted => hlisted.1.1

/-- **Worker authentication is exact and fails closed.** For every environment and every token, a request to
a route of the group reaches its handler exactly if the token is listed. No token with a comma in it or with
white space at an end is accepted, and none at all if every field of the list is blank. -/
theorem workerAuth_exact (environ : Environ) (t : List UInt8) :
    (workerAuth (load environ).workerTokens t = .next ↔
        Listed (environ "GATEWAY_WORKER_TOKENS") t) ∧
      (workerAuth (load environ).workerTokens t = .next →
        comma ∉ t ∧ ¬ StartsBlank spaceWords t ∧ ¬ EndsBlank spaceWords t) ∧
      ((∀ field ∈ (environ "GATEWAY_WORKER_TOKENS").splitOn comma, Blank spaceWords field) →
        workerAuth (load environ).workerTokens t ≠ .next) := by
  refine ⟨workerAuth_eq_next_iff_listed, fun hnext => (workerAuth_eq_next_iff_listed.mp hnext).1.2,
    fun hblank hnext => ?_⟩
  -- the token would be what is left of a blank field
  obtain ⟨hne, hmem⟩ := workerAuth_eq_next_iff.mp hnext
  obtain ⟨-, field, hfield, htrim⟩ := mem_workerTokens.mp hmem
  exact hne (htrim.symm.trans ((trim_eq_nil_iff code_spaceWords).mpr (hblank field hfield)))

end TaxlienGateway
