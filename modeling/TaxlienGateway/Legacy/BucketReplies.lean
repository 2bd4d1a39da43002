import TaxlienGateway.Legacy.ClockSkew

/-!
# What the rate limiter replies

Every reply of the script, the remaining allowance included, is a function of `new_tokens`
(`tokenBucketLua_reply`).

* `remaining_truthful` — the allowance that a call reports is what the calls that follow at the same
  time get: as many are admitted, counting down to 0, and the next one is refused. It rests on the
  invariant `Sound` of the key: the stored tokens lie between 0 and the burst.
* `expiry_unobservable` — for the limits of every tier, the replies are those of a key that never
  expires. Both keys follow the bucket of `Framework/TokenBucket.lean`, the expiring one by `Tracks`
  and the other one by `TracksHash`.
-/

namespace TaxlienGateway

open Framework

namespace Legacy

/-- The reply to a one-token call that finds so many tokens. -/
def replyTo (new_tokens : ℚ) : Bool × ℤ :=
  if 1 ≤ new_tokens then (true, ⌊new_tokens - 1⌋) else (false, ⌊new_tokens⌋)

variable {rate burst now : ℚ} {key : Option StoredBucket}

theorem tokenBucketLua_reply (state : Option BucketHash) (now rate burst : ℚ) :
    (tokenBucketLua state now rate burst 1).2 = replyTo (newTokens state now rate burst) := by
  unfold tokenBucketLua replyTo
  dsimp only
  split <;> rfl

theorem check_reply (rate burst now : ℚ) (key : Option StoredBucket) :
    (check rate burst 1 now key).2 =
      replyTo (newTokens ((live now key).map StoredBucket.hash) now rate burst) := by
  rw [← tokenBucketLua_reply]
  unfold check
  obtain ⟨hash, reply⟩ :=
    tokenBucketLua ((live now key).map StoredBucket.hash) now rate burst 1
  cases hash <;> rfl

/-! ### The remaining allowance -/

/-- The key after one-token calls at the given times, from an absent key. -/
def keyAfter (rate burst : ℚ) (nows : List ℚ) : Option StoredBucket :=
  nows.foldl (fun key now => (check rate burst 1 now key).1) none

theorem keyAfter_append_singleton (rate burst : ℚ) (nows : List ℚ) (now : ℚ) :
    keyAfter rate burst (nows ++ [now]) = (check rate burst 1 now (keyAfter rate burst nows)).1 := by
  unfold keyAfter
  rw [List.foldl_append]
  rfl

/-- The stored tokens are no debt, and the key is not from the future. -/
def Sound (now : ℚ) (key : Option StoredBucket) : Prop :=
  ∀ k ∈ key, 0 ≤ k.hash.tokens ∧ k.hash.updated_at ≤ now

theorem Sound.mono {now' : ℚ} (h : Sound now key) (hle : now ≤ now') : Sound now' key :=
  fun k hk => ⟨(h k hk).1, (h k hk).2.trans hle⟩

/-- A call finds at least 0 tokens. -/
theorem Sound.newTokens_nonneg (h : Sound now key) (hrate : 0 < rate) (hburst : 1 ≤ burst) :
    0 ≤ newTokens ((live now key).map StoredBucket.hash) now rate burst := by
  have hburst0 : 0 ≤ burst := zero_le_one.trans hburst
  cases hlive : live now key with
  | none =>
    rw [Option.map_none, newTokens_none]
    exact hburst0
  | some k =>
    obtain ⟨htokens, hupdated⟩ := h k (Option.filter_eq_some_iff.mp hlive).1
    have hgain : 0 ≤ rate * (now - k.hash.updated_at) :=
      mul_nonneg hrate.le (sub_nonneg.mpr hupdated)
    rw [Option.map_some, newTokens_some hupdated]
    exact le_min hburst0 (add_nonneg htokens hgain)

/-- And at most `burst`. -/
theorem newTokens_le (state : Option BucketHash) (now rate burst : ℚ) :
    newTokens state now rate burst ≤ burst :=
  min_le_left _ _

/-- **Step.** -/
theorem Sound.check (h : Sound now key) : Sound now (check rate burst 1 now key).1 := by
  by_cases hserved : 1 ≤ newTokens ((live now key).map StoredBucket.hash) now rate burst
  · rw [(check_of_le hserved).2]
    intro k hk
    obtain rfl := Option.some.inj hk
    exact ⟨sub_nonneg.mpr hserved, le_refl now⟩
  · rw [(check_of_lt (not_le.mp hserved)).2]
    exact fun k hk => h k (Option.filter_eq_some_iff.mp hk).1

/-- **Run.** -/
theorem sound_keyAfter {nows : List ℚ} (hmono : (nows ++ [now]).Pairwise (· ≤ ·)) :
    Sound now (keyAfter rate burst nows) := by
  induction nows using List.reverseRecOn generalizing now with
  | nil => exact fun k hk => absurd hk (by simp [keyAfter])
  | append_singleton nows last ih =>
    have hlast : last ≤ now := by
      rw [List.append_assoc] at hmono
      exact List.rel_of_pairwise_cons (List.pairwise_append.mp hmono).2.1 (List.mem_singleton_self _)
    rw [keyAfter_append_singleton]
    exact ((ih (List.pairwise_append.mp hmono).1).check).mono hlast

/-- A call at the time of the last write finds what that one left. -/
theorem newTokens_at_once (rate : ℚ) {tokens expireAt : ℚ} (hle : tokens ≤ burst)
    (hlive : now ≤ expireAt) :
    newTokens ((live now (some ⟨⟨tokens, now⟩, expireAt⟩)).map StoredBucket.hash) now rate burst =
      tokens := by
  rw [live_some, if_pos hlive, Option.map_some, newTokens_some (le_refl now), sub_self, mul_zero,
    add_zero]
  exact min_eq_right hle

/-- **Calls at one time.** They count the whole tokens down to 0, and then one is refused. -/
theorem answers_replicate (n : ℕ) : ∀ tokens expireAt : ℚ, tokens ≤ burst → ⌊tokens⌋ = n →
    now ≤ expireAt → answers rate burst (some ⟨⟨tokens, now⟩, expireAt⟩) (List.replicate (n + 1) now) =
      ((List.range n).reverse.map fun (j : ℕ) => (true, (j : ℤ))) ++ [(false, 0)] := by
  induction n with
  | zero =>
    intro tokens expireAt hle hfloor hlive
    have hnew := newTokens_at_once rate hle hlive
    -- less than one token is left
    have hlt : tokens < 1 := by
      have h := Int.lt_floor_add_one tokens
      rwa [hfloor, Nat.cast_zero, Int.cast_zero, zero_add] at h
    rw [List.replicate_one, answers, answers, check_reply, hnew, replyTo, if_neg (not_le.mpr hlt),
      hfloor]
    rfl
  | succ n ih =>
    intro tokens expireAt hle hfloor hlive
    have hnew := newTokens_at_once rate hle hlive
    have hone : 1 ≤ tokens := by
      have h := Int.floor_le tokens
      rw [hfloor, Int.cast_natCast, Nat.cast_succ] at h
      have hn : (0 : ℚ) ≤ n := Nat.cast_nonneg n
      linarith
    -- one token is taken, and the fraction stays
    have hfloor' : ⌊tokens - 1⌋ = n := by
      rw [Int.floor_sub_one, hfloor]
      exact add_sub_cancel_right (n : ℤ) 1
    have hkey : (check rate burst 1 now (some ⟨⟨tokens, now⟩, expireAt⟩)).1 =
        some ⟨⟨tokens - 1, now⟩, now + 3600⟩ := by
      rw [(check_of_le (hnew.symm ▸ hone)).2, hnew]
    have hrest := ih (tokens - 1) (now + 3600) (by linarith) hfloor' (by linarith)
    rw [List.replicate_succ, answers, hkey, hrest, check_reply, hnew, replyTo, if_pos hone, hfloor',
      List.range_succ, List.reverse_append]
    rfl

/-- **The remaining allowance is truthful.** After a run of calls, a call that is admitted with `k`
remaining is followed at the same time by exactly `k` more that are admitted, and a refused call
reports 0. -/
theorem remaining_truthful {rate burst : ℚ} (hrate : 0 < rate) (hburst : 1 ≤ burst) {nows : List ℚ}
    {now : ℚ} (hmono : (nows ++ [now]).Pairwise (· ≤ ·)) :
    (∀ k, (check rate burst 1 now (keyAfter rate burst nows)).2 = (true, k) → ∃ n : ℕ, k = n ∧
      answers rate burst (keyAfter rate burst (nows ++ [now])) (List.replicate (n + 1) now) =
        ((List.range n).reverse.map fun (j : ℕ) => (true, (j : ℤ))) ++ [(false, 0)]) ∧
    (∀ k, (check rate burst 1 now (keyAfter rate burst nows)).2 = (false, k) → k = 0) := by
  have hsound : Sound now (keyAfter rate burst nows) := sound_keyAfter hmono
  have hnonneg := hsound.newTokens_nonneg hrate hburst
  have hle := newTokens_le ((live now (keyAfter rate burst nows)).map StoredBucket.hash) now rate burst
  rw [check_reply, keyAfter_append_singleton]
  by_cases hserved : 1 ≤
      newTokens ((live now (keyAfter rate burst nows)).map StoredBucket.hash) now rate burst
  · rw [replyTo, if_pos hserved, (check_of_le hserved).2]
    refine ⟨?_, fun k hk => absurd (congrArg Prod.fst hk) (by simp)⟩
    intro k hk
    obtain rfl := congrArg Prod.snd hk
    -- what is left after the call is not negative, so its floor is a count
    obtain ⟨n, hn⟩ := Int.eq_ofNat_of_zero_le (Int.floor_nonneg.mpr (sub_nonneg.mpr hserved))
    exact ⟨n, hn, answers_replicate n _ _ (by linarith) hn (by linarith)⟩
  · rw [replyTo, if_neg hserved]
    refine ⟨fun k hk => absurd (congrArg Prod.fst hk) (by simp), ?_⟩
    intro k hk
    obtain rfl := congrArg Prod.snd hk
    exact Int.floor_eq_zero_iff.mpr ⟨hnonneg, not_le.mp hserved⟩

/-- The third call of a run leaves one token and a half, and reports one. -/
theorem remaining_truthful_sample :
    (check (1 / 2) 4 1 1 (keyAfter (1 / 2) 4 [0, 0])).2 = (true, 1) ∧
    (∃ n : ℕ, (1 : ℤ) = n ∧
      answers (1 / 2) 4 (keyAfter (1 / 2) 4 ([0, 0] ++ [1])) (List.replicate (n + 1) 1) =
        ((List.range n).reverse.map fun (j : ℕ) => (true, (j : ℤ))) ++ [(false, 0)]) := by
  have hmono : ([0, 0] ++ [1] : List ℚ).Pairwise (· ≤ ·) := by
    norm_num [List.pairwise_cons]
  have hreply : (check (1 / 2) 4 1 1 (keyAfter (1 / 2) 4 [0, 0])).2 = (true, 1) := by decide +kernel
  exact ⟨hreply, (remaining_truthful (by norm_num) (by norm_num) hmono).1 1 hreply⟩

/-! ### The expiry of the key -/

/-- The replies to one-token calls on a key that never expires. -/
def lastingAnswers (rate burst : ℚ) : Option BucketHash → List ℚ → List (Bool × ℤ)
  | _, [] => []
  | state, now :: nows =>
    (tokenBucketLua state now rate burst 1).2 ::
      lastingAnswers rate burst (step rate burst state ⟨now, 1⟩) nows

/-- The replies that a bucket gives. -/
def bucketAnswers (rate burst : ℚ) : Bucket ℚ → List ℚ → List (Bool × ℤ)
  | _, [] => []
  | b, now :: nows =>
    replyTo (b.advance rate burst now).level :: bucketAnswers rate burst (b.call rate burst now).1 nows

variable {state : Option BucketHash} {b : Bucket ℚ}

/-- `Tracks` for a key that never expires. -/
def TracksHash (rate burst : ℚ) (state : Option BucketHash) (b : Bucket ℚ) : Prop :=
  ∀ t, b.time ≤ t → newTokens state t rate burst = (b.advance rate burst t).level

theorem tracksHash_written (tokens : ℚ) :
    TracksHash rate burst (some ⟨tokens, now⟩) ⟨tokens, now⟩ :=
  fun _ ht => newTokens_some ht

/-- **Step**, without expiry. -/
theorem step_tracks (hrate : 0 ≤ rate) (h : TracksHash rate burst state b) (hnow : b.time ≤ now) :
    TracksHash rate burst (step rate burst state ⟨now, 1⟩) (b.call rate burst now).1 := by
  have hnew := h now hnow
  unfold Bucket.call
  by_cases hserved : 1 ≤ (b.advance rate burst now).level
  · have hle : (1 : ℚ) ≤ newTokens state now rate burst := hnew ▸ hserved
    rw [(step_of_le (c := ⟨now, 1⟩) hle).1, hnew, if_pos hserved]
    exact tracksHash_written _
  · have hlt : newTokens state now rate burst < 1 := hnew ▸ not_le.mp hserved
    rw [(step_of_lt (c := ⟨now, 1⟩) hlt).1, if_neg hserved]
    intro t ht
    have ht : now ≤ t := ht
    rw [h t (hnow.trans ht), Bucket.advance_advance hrate ht]

/-- **Run**, without expiry. -/
theorem lastingAnswers_eq_bucketAnswers (hrate : 0 ≤ rate) :
    ∀ (nows : List ℚ) (state : Option BucketHash) (b : Bucket ℚ), TracksHash rate burst state b →
      (b.time :: nows).IsChain (· ≤ ·) →
      lastingAnswers rate burst state nows = bucketAnswers rate burst b nows := by
  intro nows
  induction nows with
  | nil => exact fun _ _ _ _ => rfl
  | cons now nows ih =>
    intro state b h hchain
    obtain ⟨hnow, hchain⟩ := List.isChain_cons_cons.mp hchain
    rw [lastingAnswers, bucketAnswers, tokenBucketLua_reply, h now hnow,
      ih _ _ (step_tracks hrate h hnow) (by rwa [Bucket.call_time])]

/-- **Run**, with the expiry. -/
theorem answers_eq_bucketAnswers (hrate : 0 ≤ rate) (hfull : burst ≤ 3600 * rate) :
    ∀ (nows : List ℚ) (key : Option StoredBucket) (b : Bucket ℚ), Tracks rate burst key b →
      (b.time :: nows).IsChain (· ≤ ·) →
      answers rate burst key nows = bucketAnswers rate burst b nows := by
  intro nows
  induction nows with
  | nil => exact fun _ _ _ _ => rfl
  | cons now nows ih =>
    intro key b h hchain
    obtain ⟨hnow, hchain⟩ := List.isChain_cons_cons.mp hchain
    rw [answers, bucketAnswers, check_reply, h now hnow,
      ih _ _ (check_tracks hrate hfull h hnow).2 (by rwa [Bucket.call_time])]

/-- **The expiry cannot be observed.** Whatever the tier, the replies of a run are those of the same
script on a key that never expires. -/
theorem expiry_unobservable (tier : String) {nows : List ℚ} (hmono : nows.Pairwise (· ≤ ·)) :
    answers (limitsOf tier).1 (limitsOf tier).2 none nows =
      lastingAnswers (limitsOf tier).1 (limitsOf tier).2 none nows := by
  obtain ⟨hrate, -, hfull⟩ := limitsOf_spec tier
  obtain ⟨t, hchain⟩ := exists_isChain_cons hmono
  have hnone : TracksHash (limitsOf tier).1 (limitsOf tier).2 none ⟨(limitsOf tier).2, t⟩ :=
    tracks_none hrate.le t
  calc answers (limitsOf tier).1 (limitsOf tier).2 none nows
      = bucketAnswers (limitsOf tier).1 (limitsOf tier).2 ⟨(limitsOf tier).2, t⟩ nows :=
        answers_eq_bucketAnswers hrate.le hfull nows none _ (tracks_none hrate.le t) hchain
    _ = lastingAnswers (limitsOf tier).1 (limitsOf tier).2 none nows :=
        (lastingAnswers_eq_bucketAnswers hrate.le nows none _ hnone hchain).symm

/-- Six calls at once and one two hours later, when the key has expired. -/
theorem expiry_unobservable_sample :
    answers (limitsOf "anonymous").1 (limitsOf "anonymous").2 none [0, 0, 0, 0, 0, 0, 7200] =
      lastingAnswers (limitsOf "anonymous").1 (limitsOf "anonymous").2 none [0, 0, 0, 0, 0, 0, 7200] :=
  expiry_unobservable "anonymous" (by norm_num [List.pairwise_cons])

end Legacy

end TaxlienGateway
