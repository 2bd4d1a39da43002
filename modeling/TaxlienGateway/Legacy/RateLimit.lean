import Mathlib.Algebra.Order.Floor.Defs
import Mathlib.Data.Rat.Floor
import TaxlienGateway.Framework.TokenBucket

/-!
# The rate limiter of the legacy gateway

`legacy/app/services/ratelimit.py`. The Lua script keeps a token bucket lazily: a call that is
refused writes nothing, and the key of a bucket expires an hour after it was last written, which
makes the next call find a full bucket. Numbers are exact rationals, and the expiry runs on the
clock that `now` is read from.

* `Tracks` — the key and the bucket of `Framework/TokenBucket.lean` agree at every later time;
  `check_tracks` is the step lemma and `answers_eq_serve` the refinement over whole runs, when an
  hour's refill fills the bucket;
* `admitted_le` — hence the admission bound, over every window of every run;
* `admissions_mono` — and the comparison of two limits over every prefix of a run.
-/

namespace TaxlienGateway

open Framework

namespace Legacy

/-! ### The script -/

/-- The hash under a rate limit key. -/
structure BucketHash where
  tokens : ℚ
  updated_at : ℚ
  deriving DecidableEq

/-- `new_tokens` of `TOKEN_BUCKET_LUA`; a missing hash counts as a full bucket updated now. -/
def newTokens (state : Option BucketHash) (now rate burst : ℚ) : ℚ :=
  let last_tokens := (state.map BucketHash.tokens).getD burst
  let last_updated := (state.map BucketHash.updated_at).getD now
  -- a `now` before `updated_at` refills nothing
  let delta := max 0 (now - last_updated)
  min burst (last_tokens + delta * rate)

/-- `TOKEN_BUCKET_LUA`: the hash it writes, if it writes one, and its reply. -/
def tokenBucketLua (state : Option BucketHash) (now rate burst requested : ℚ) :
    Option BucketHash × Bool × ℤ :=
  let new_tokens := newTokens state now rate burst
  if requested ≤ new_tokens then
    -- `now` is written as it came, even if it is before the stored `updated_at`
    (some ⟨new_tokens - requested, now⟩, true, ⌊new_tokens - requested⌋)
  else (none, false, ⌊new_tokens⌋)

/-! ### The key and its expiry -/

/-- A rate limit key. -/
structure StoredBucket where
  hash : BucketHash
  expireAt : ℚ
  deriving DecidableEq

/-- The key as a command at time `now` finds it. -/
def live (now : ℚ) (key : Option StoredBucket) : Option StoredBucket :=
  key.filter fun k => now ≤ k.expireAt

/-- `RateLimiter.check` at time `now`; `EXPIRE key 3600` goes with every write. -/
def check (rate burst requested now : ℚ) (key : Option StoredBucket) :
    Option StoredBucket × Bool × ℤ :=
  match tokenBucketLua ((live now key).map StoredBucket.hash) now rate burst requested with
  | (some hash, reply) => (some ⟨hash, now + 3600⟩, reply)
  | (none, reply) => (live now key, reply)

/-- The limits of `is_rate_limited`: tokens per second, and burst. -/
def limits : List (String × ℚ × ℚ) :=
  [("anonymous", 1 / 10, 5), ("free", 1 / 2, 10), ("starter", 1, 20), ("premium", 2, 50),
    ("internal", 10, 100)]

/-- `limits.get(tier, limits["anonymous"])` -/
def limitsOf (tier : String) : ℚ × ℚ := (limits.lookup tier).getD (1 / 10, 5)

/-- `is_rate_limited`, on the key of its tier and identifier: whether the request is let through,
and what remains. -/
def isRateLimited (tier : String) (now : ℚ) (key : Option StoredBucket) :
    Option StoredBucket × Bool × ℤ :=
  check (limitsOf tier).1 (limitsOf tier).2 1 now key

/-- The replies to one-token calls at the given times. -/
def answers (rate burst : ℚ) : Option StoredBucket → List ℚ → List (Bool × ℤ)
  | _, [] => []
  | key, now :: nows =>
    (check rate burst 1 now key).2 :: answers rate burst (check rate burst 1 now key).1 nows

/-- An hour's refill fills the bucket of every tier. -/
theorem limitsOf_spec (tier : String) :
    0 < (limitsOf tier).1 ∧ 1 ≤ (limitsOf tier).2 ∧ (limitsOf tier).2 ≤ 3600 * (limitsOf tier).1 := by
  have hall : ∀ p ∈ limits, 0 < p.2.1 ∧ 1 ≤ p.2.2 ∧ p.2.2 ≤ 3600 * p.2.1 := by
    unfold limits
    simp only [List.forall_mem_cons, List.not_mem_nil, false_imp_iff, implies_true, and_true]
    norm_num
  unfold limitsOf
  cases h : limits.lookup tier with
  | none =>
    rw [Option.getD_none]
    norm_num
  | some l =>
    obtain ⟨l₁, l₂, hl, -⟩ := List.lookup_eq_some_iff.mp h
    rw [Option.getD_some]
    exact hall (tier, l) (by rw [hl]; simp)

/-! ### The script, case by case -/

section Cases

variable {rate burst now : ℚ} {key : Option StoredBucket}

/-- Without a hash the bucket is full. -/
theorem newTokens_none : newTokens none now rate burst = burst := by
  unfold newTokens
  simp

/-- With a hash that is not from the future, the time since is refilled. -/
theorem newTokens_some {tokens updated : ℚ} (h : updated ≤ now) :
    newTokens (some ⟨tokens, updated⟩) now rate burst =
      min burst (tokens + rate * (now - updated)) := by
  unfold newTokens
  simp only [Option.map_some, Option.getD_some]
  rw [max_eq_right (sub_nonneg.mpr h), mul_comm]

theorem live_some (k : StoredBucket) :
    live now (some k) = if now ≤ k.expireAt then some k else none := by
  unfold live
  by_cases h : now ≤ k.expireAt
  · rw [if_pos h, Option.filter_some, if_pos (decide_eq_true h)]
  · rw [if_neg h, Option.filter_some, if_neg (by simpa using h)]

/-- A key that has expired stays expired. -/
theorem live_live {t t' : ℚ} (h : t ≤ t') (key : Option StoredBucket) :
    live t' (live t key) = live t' key := by
  cases key with
  | none => rfl
  | some k =>
    rw [live_some, live_some]
    by_cases ht : t ≤ k.expireAt
    · rw [if_pos ht, live_some]
    · -- expired at `t`, hence at `t'`
      rw [if_neg ht, if_neg (fun ht' => ht (h.trans ht'))]
      rfl

/-- An admitted call. -/
theorem check_of_le (h : 1 ≤ newTokens ((live now key).map StoredBucket.hash) now rate burst) :
    (check rate burst 1 now key).2.1 = true ∧
      (check rate burst 1 now key).1 = some
        ⟨⟨newTokens ((live now key).map StoredBucket.hash) now rate burst - 1, now⟩, now + 3600⟩ := by
  unfold check tokenBucketLua
  simp only [h, ↓reduceIte, and_self]

/-- A refused call. -/
theorem check_of_lt (h : newTokens ((live now key).map StoredBucket.hash) now rate burst < 1) :
    (check rate burst 1 now key).2.1 = false ∧ (check rate burst 1 now key).1 = live now key := by
  unfold check tokenBucketLua
  simp only [not_le.mpr h, ↓reduceIte, and_self]

end Cases

/-! ### The bucket behind the key -/

section Refinement

variable {rate burst now : ℚ} {key : Option StoredBucket} {b : Bucket ℚ}

/-- What the script would compute at any later time is what the bucket has then. -/
def Tracks (rate burst : ℚ) (key : Option StoredBucket) (b : Bucket ℚ) : Prop :=
  ∀ t, b.time ≤ t →
    newTokens ((live t key).map StoredBucket.hash) t rate burst = (b.advance rate burst t).level

theorem tracks_none (hrate : 0 ≤ rate) (t : ℚ) : Tracks rate burst none ⟨burst, t⟩ := by
  intro t' ht'
  have hgain : 0 ≤ rate * (t' - t) := mul_nonneg hrate (sub_nonneg.mpr ht')
  have hlive : live t' none = none := rfl
  rw [hlive, Option.map_none, newTokens_none]
  exact (min_eq_left (le_add_of_nonneg_right hgain)).symm

/-- A key just written. When it has expired, an hour's refill would have filled the bucket. -/
theorem tracks_written (hrate : 0 ≤ rate) (hfull : burst ≤ 3600 * rate) {tokens : ℚ}
    (htokens : 0 ≤ tokens) :
    Tracks rate burst (some ⟨⟨tokens, now⟩, now + 3600⟩) ⟨tokens, now⟩ := by
  intro t ht
  have ht : now ≤ t := ht
  rw [live_some]
  by_cases hlive : t ≤ now + 3600
  · rw [if_pos hlive, Option.map_some, newTokens_some ht]
    rfl
  · -- the script finds no key, and the bucket has been refilled for more than an hour
    have hhour : rate * 3600 ≤ rate * (t - now) :=
      mul_le_mul_of_nonneg_left (by linarith) hrate
    have hlevel : burst ≤ tokens + rate * (t - now) :=
      calc burst
          ≤ 3600 * rate := hfull
        _ = rate * 3600 := mul_comm _ _
        _ ≤ rate * (t - now) := hhour
        _ ≤ tokens + rate * (t - now) := le_add_of_nonneg_left htokens
    rw [if_neg hlive, Option.map_none, newTokens_none]
    exact (min_eq_left hlevel).symm

/-- **Step.** A call of the script is a call of the bucket. -/
theorem check_tracks (hrate : 0 ≤ rate) (hfull : burst ≤ 3600 * rate)
    (h : Tracks rate burst key b) (hnow : b.time ≤ now) :
    (check rate burst 1 now key).2.1 = (b.call rate burst now).2 ∧
      Tracks rate burst (check rate burst 1 now key).1 (b.call rate burst now).1 := by
  have hnew := h now hnow
  unfold Bucket.call
  by_cases hserved : 1 ≤ (b.advance rate burst now).level
  · obtain ⟨hreply, hkey⟩ := check_of_le (hnew ▸ hserved)
    rw [hreply, hkey, hnew, if_pos hserved]
    exact ⟨rfl, tracks_written hrate hfull (sub_nonneg.mpr hserved)⟩
  · obtain ⟨hreply, hkey⟩ := check_of_lt (hnew ▸ not_le.mp hserved)
    rw [hreply, hkey, if_neg hserved]
    refine ⟨rfl, fun t ht => ?_⟩
    -- nothing was written: the bucket has been brought up to date, the key has not
    have ht : now ≤ t := ht
    rw [live_live ht, h t (hnow.trans ht), Bucket.advance_advance hrate ht]

/-- **Refinement.** Over a whole run the script answers as the bucket does. -/
theorem answers_eq_serve (hrate : 0 ≤ rate) (hfull : burst ≤ 3600 * rate) :
    ∀ (nows : List ℚ) (key : Option StoredBucket) (b : Bucket ℚ), Tracks rate burst key b →
      (b.time :: nows).IsChain (· ≤ ·) →
      (answers rate burst key nows).map Prod.fst = b.serve rate burst nows := by
  intro nows
  induction nows with
  | nil => exact fun _ _ _ _ => rfl
  | cons now nows ih =>
    intro key b h hchain
    obtain ⟨hnow, hchain⟩ := List.isChain_cons_cons.mp hchain
    obtain ⟨hreply, hkey⟩ := check_tracks hrate hfull h hnow
    rw [answers, List.map_cons, Bucket.serve, hreply,
      ih _ _ hkey (by rwa [Bucket.call_time])]

end Refinement

/-! ### The admission bound -/

/-- How many of the calls `i`, ..., `j` of a run from an absent key are admitted. -/
def admittedBetween (rate burst : ℚ) (nows : List ℚ) (i j : ℕ) : ℕ :=
  ((((answers rate burst none nows).map Prod.fst).drop i).take (j + 1 - i)).count true

/-- There is a time before all calls of a run. -/
theorem exists_isChain_cons {nows : List ℚ} (hmono : nows.Pairwise (· ≤ ·)) :
    ∃ t : ℚ, (t :: nows).IsChain (· ≤ ·) := by
  cases nows with
  | nil => exact ⟨0, List.isChain_singleton _⟩
  | cons now nows =>
    exact ⟨now, List.isChain_cons_cons.mpr ⟨le_refl _, List.isChain_iff_pairwise.mpr hmono⟩⟩

/-- A run from an absent key is a run of a full bucket. -/
theorem answers_none {rate burst t : ℚ} (hrate : 0 ≤ rate) (hfull : burst ≤ 3600 * rate)
    {nows : List ℚ} (hchain : (t :: nows).IsChain (· ≤ ·)) :
    (answers rate burst none nows).map Prod.fst =
      (⟨burst, t⟩ : Bucket ℚ).serve rate burst nows :=
  answers_eq_serve hrate hfull nows none _ (tracks_none hrate t) hchain

/-- **Admission bound.** Between any two calls of a run, at most `burst` calls are admitted and what
is refilled in between, whether or not the key expires on the way. -/
theorem admitted_le {rate burst : ℚ} (hrate : 0 < rate) (hburst : 1 ≤ burst)
    (hfull : burst ≤ 3600 * rate) {nows : List ℚ} (hmono : nows.Pairwise (· ≤ ·)) {i j : ℕ}
    (hij : i ≤ j) (hj : j < nows.length) :
    (admittedBetween rate burst nows i j : ℚ) ≤ burst + rate * (nows[j] - nows[i]) := by
  have hburst0 : 0 ≤ burst := zero_le_one.trans hburst
  obtain ⟨t, hchain⟩ := exists_isChain_cons hmono
  unfold admittedBetween
  rw [answers_none hrate.le hfull hchain]
  exact Bucket.count_window_le hrate.le hburst0 hburst0 hchain hij hj

/-- Seven calls in the first two seconds, and one two hours later, when the key has expired. -/
theorem admitted_le_sample :
    (admittedBetween (1 / 10) 5 [0, 0, 0, 1, 1, 2, 2, 7202] 0 6 : ℚ) ≤ 5 + 1 / 10 * (2 - 0) ∧
    (admittedBetween (1 / 10) 5 [0, 0, 0, 1, 1, 2, 2, 7202] 7 7 : ℚ) ≤
      5 + 1 / 10 * (7202 - 7202) := by
  have hmono : ([0, 0, 0, 1, 1, 2, 2, 7202] : List ℚ).Pairwise (· ≤ ·) := by
    norm_num [List.pairwise_cons]
  exact ⟨admitted_le (by norm_num) (by norm_num) (by norm_num) hmono (by decide) (by decide),
    admitted_le (by norm_num) (by norm_num) (by norm_num) hmono (by decide) (by decide)⟩

/-! ### Larger buckets -/

/-- Which of the calls of a run from an absent key are admitted. -/
def admissions (rate burst : ℚ) (nows : List ℚ) : List Bool :=
  (answers rate burst none nows).map Prod.fst

/-- **A larger bucket admits no less.** After every prefix of a run, at least as many calls have been
admitted under a higher rate and a larger burst. -/
theorem admissions_mono {rate rate' burst burst' : ℚ} (hrate : 0 < rate)
    (hfull : burst ≤ 3600 * rate) (hrate' : 0 < rate') (hfull' : burst' ≤ 3600 * rate')
    (hle : rate ≤ rate') (hle' : burst ≤ burst') {nows : List ℚ} (hmono : nows.Pairwise (· ≤ ·))
    (k : ℕ) :
    ((admissions rate burst nows).take k).count true ≤
      ((admissions rate' burst' nows).take k).count true := by
  obtain ⟨t, hchain⟩ := exists_isChain_cons hmono
  have hprefix : (t :: nows.take k).IsChain (· ≤ ·) :=
    hchain.prefix (List.cons_prefix_cons.mpr ⟨rfl, List.take_prefix k nows⟩)
  unfold admissions
  rw [answers_none hrate.le hfull hchain, answers_none hrate'.le hfull' hchain, Bucket.take_serve,
    Bucket.take_serve]
  -- both buckets are full at the beginning
  have hahead := Bucket.count_serve_mono hle hle' (nows.take k) ⟨burst, t⟩ ⟨burst', t⟩ 0 0 rfl hprefix
    (le_refl 0) (by simpa using hle')
  simpa using hahead

/-- The third of three calls is admitted by the smaller bucket only; both have admitted two. -/
theorem admissions_mono_sample :
    admissions 1 1 [0, 1 / 2, 1] = [true, false, true] ∧
    admissions 1 (3 / 2) [0, 1 / 2, 1] = [true, true, false] ∧
    ((admissions 1 1 [0, 1 / 2, 1]).take 3).count true ≤
      ((admissions 1 (3 / 2) [0, 1 / 2, 1]).take 3).count true := by
  have hmono : ([0, 1 / 2, 1] : List ℚ).Pairwise (· ≤ ·) := by
    norm_num [List.pairwise_cons]
  refine ⟨by decide +kernel, by decide +kernel, ?_⟩
  exact admissions_mono (by norm_num) (by norm_num) (by norm_num) (by norm_num) (by norm_num)
    (by norm_num) hmono 3

end Legacy

end TaxlienGateway
