import TaxlienGateway.Legacy.UsageTracker

/-!
# The daily quota under concurrency

Any number of calls of `check_and_increment`, interleaved command by command; a call may stop between
two commands, or see a command fail. Of the calls of one tally, made in tiers of the same limit, the
first ones to be counted are admitted, as many as the limit says, and no others: `quota_exact`.
-/

namespace TaxlienGateway

open Framework

namespace Legacy

/-- No key of the tracker exists. -/
def Backends.Unused (s : Backends) : Prop := ∀ key, IsUsageKey key → s.redis.entries key = none

/-- The calls of `check_and_increment`. -/
def trackerCalls :
    System (ℚ × Pool Await AwaitReply UsageCall (fun _ => Except String Bool) Backends)
      (TimedEvent fun _ : UsageCall => Except String Bool) :=
  timedPool backends UsageCall.checkAndIncrement Backends.Unused

/-- What becomes of the calls of a tally with a limit `L` in a history. -/
structure ExactQuota (q : Tally) (L : ℕ)
    (es : List (TimedEvent fun _ : UsageCall => Except String Bool)) : Prop where
  /-- A call that returns has been counted, and it returns `True` if and only if it was among the first
  `min n L` to be counted, of the `n` that are. -/
  returned : ∀ pre t i call b post, es = pre ++ (t, .finish i call (.ok b)) :: post →
    call.tally = q → ∃ pre₁ t' o pre₂, pre = pre₁ ++ (t', .cmd i call (.incr q.key) o) :: pre₂ ∧
      o.effect.isSome ∧ (∀ t' call', (t', Event.start i call') ∉ pre₂) ∧
      (b = true ↔ counted some q pre₁ < min (counted some q es) L)
  /-- A call that raises instead has been cut off: one of its commands has failed. -/
  raised : ∀ pre t i call e post, es = pre ++ (t, .finish i call (.error e)) :: post →
    call.tally = q → ∃ c, (⟨c, .error e⟩ : Op Await AwaitReply) ∈ ownOps i (pre.map Prod.snd)

theorem checkAndIncrement_obeyed :
    Obeyed UsageCall.checkAndIncrement (fun u => UsageRule (some u)) UsageCall.Ends :=
  fun _ => UsageCall.checkAndIncrement_obeys fun _ _ h _ => h

section

variable {q : Tally} {L : ℕ} {es : List (TimedEvent fun _ : UsageCall => Except String Bool)}
  {s : ℚ × Pool Await AwaitReply UsageCall (fun _ => Except String Bool) Backends}

/-- A call of the tally that sees the answer of its `INCR` sees its rank. -/
theorem rank_of_seen (hr : trackerCalls.Run es s) (hq : ':' ∉ q.feature.toList)
    (hday : OnItsDay some q es)
    {pre post : List (TimedEvent fun _ : UsageCall => Except String Bool)} {t : ℚ} {i : ℕ}
    {call : UsageCall} (hcall : call.tally = q) {o : Outcome (Except String ℤ)} {r : Except String ℤ}
    (hes : es = pre ++ (t, .cmd i call (.incr q.key) o) :: post) (hseen : o.seen = .ok r) :
    r = .ok (counted some q pre + 1) ∧ counted some q pre < counted some q es := by
  subst hes
  have heffect := Outcome.effect_of_seen hseen
  have hcounts : counts some q ((t, .cmd i call (.incr q.key) o) :
      TimedEvent fun _ : UsageCall => Except String Bool) = true := by
    rw [counts_incr heffect rfl]
    exact decide_eq_true hcall
  have hrank := reply_of_incr checkAndIncrement_obeyed (fun _ _ _ h => h) hq
    (fun s hs => hs _ q.isUsageKey_key) hr hday hcounts
  refine ⟨Option.some.inj (heffect.symm.trans hrank), ?_⟩
  -- this call is one of those counted after `pre`
  unfold counted
  rw [List.countP_append, List.countP_cons, if_pos hcounts]
  omega

/-- A call of the tally that has come to its end and has seen the answer of its `INCR` has its rank from
it. -/
theorem rank_of_finish (hr : trackerCalls.Run es s) (hq : ':' ∉ q.feature.toList)
    (hday : OnItsDay some q es)
    {pre post : List (TimedEvent fun _ : UsageCall => Except String Bool)} {t : ℚ} {i : ℕ}
    {call : UsageCall} {a : Except String Bool} (hcall : call.tally = q)
    (hes : es = pre ++ (t, .finish i call a) :: post) {r : Except String ℤ}
    (hown : (⟨.incr q.key, .ok r⟩ : Op Await AwaitReply) ∈ ownOps i (pre.map Prod.snd)) :
    ∃ pre₁ t' o pre₂, pre = pre₁ ++ (t', .cmd i call (.incr q.key) o) :: pre₂ ∧
      o.effect.isSome ∧ (∀ t' call', (t', Event.start i call') ∉ pre₂) ∧
      r = .ok (counted some q pre₁ + 1) ∧ counted some q pre₁ < counted some q es := by
  obtain ⟨pre₁, t', o, pre₂, hpre, hseen, hstart⟩ := exists_split_of_finish (hes ▸ hr) hown
  have hes' : es = pre₁ ++ (t', .cmd i call (.incr q.key) o) :: (pre₂ ++ (t, .finish i call a) :: post) := by
    rw [hes, hpre, List.append_assoc, List.cons_append]
  obtain ⟨hrank, hlt⟩ := rank_of_seen hr hq hday hcall hes' hseen
  refine ⟨pre₁, t', o, pre₂, hpre, ?_, hstart, hrank, hlt⟩
  rw [Outcome.effect_of_seen hseen]
  rfl

end

/-- **The daily quota is exact.** The counter of a tally is incremented on its day, and its calls are
all made in tiers of limit `L`. -/
theorem quota_exact (q : Tally) (L : ℕ) (hL : 0 < L)
    (es : List (TimedEvent fun _ : UsageCall => Except String Bool))
    (s : ℚ × Pool Await AwaitReply UsageCall (fun _ => Except String Bool) Backends)
    (hr : trackerCalls.Run es s) (hday : OnItsDay some q es)
    (hlimit : ∀ e ∈ es, e.2.call.tally = q → e.2.call.limit = L) : ExactQuota q L es := by
  -- the limit of a call of the tally that returns, and where the tally's feature comes from
  have hof : ∀ pre t i call (r : Except String Bool) post, es = pre ++ (t, .finish i call r) :: post →
      call.tally = q → call.limit = (L : ℤ) ∧ ':' ∉ q.feature.toList := by
    intro pre t i call r post hes hcall
    have hlim : call.limit = (L : ℤ) := hlimit (t, .finish i call r)
      (hes ▸ List.mem_append_right _ List.mem_cons_self) hcall
    have hne : call.limit ≠ 0 := by
      rw [hlim]
      exact_mod_cast hL.ne'
    exact ⟨hlim, hcall ▸ colon_notMem_of_limitFor_ne_zero hne⟩
  constructor
  case returned =>
    intro pre t i call b post hes hcall
    obtain ⟨hlim, hq⟩ := hof pre t i call _ post hes hcall
    have hends := checkAndIncrement_obeyed.returns (hes ▸ hr)
    rcases hends with ⟨hunlimited, -⟩ | ⟨hzero, -⟩ | ⟨-, -, n, hown, hb⟩
    · exact absurd (hlim.symm.trans hunlimited) (by omega)
    · exact absurd (hlim.symm.trans hzero) (by omega)
    · -- the call was counted, and its answer was its rank
      obtain ⟨pre₁, t', o, pre₂, hpre, hcounted, hstart, hrank, hlt⟩ :=
        rank_of_finish hr hq hday hcall hes (hcall ▸ hown)
      obtain rfl := Except.ok.inj hrank
      refine ⟨pre₁, t', o, pre₂, hpre, hcounted, hstart, ?_⟩
      rw [hb, hlim, decide_eq_true_iff, lt_min_iff]
      constructor
      · exact fun hle => ⟨hlt, by omega⟩
      · exact fun h => by omega
  case raised =>
    intro pre t i call e post hes hcall
    obtain ⟨-, hq⟩ := hof pre t i call _ post hes hcall
    rcases checkAndIncrement_obeyed.returns (hes ▸ hr) with herror | hown
    · exact herror
    · -- the key of the tally is never one that cannot be counted up
      obtain ⟨_, _, _, _, _, _, _, hrank, _⟩ := rank_of_finish hr hq hday hcall hes (hcall ▸ hown)
      exact absurd hrank (by simp)

/-! ### A day of requests -/

/-- The searches of a guest on a February day. -/
def guestTally : Tally :=
  ⟨"203.0.113.7", "daily_search", ⟨2026, 2, 3, by decide, sampleCivil.month_mem, sampleCivil.day_mem⟩⟩

/-- Seven of them, at one-second intervals from the start of the day on. -/
def guestDay : List (ℚ × UsageCall) :=
  (List.range 7).map fun n => (guestTally.today.epochDay * 86400 + n, ⟨guestTally, .anonymous⟩)

/-- Nothing in Redis. -/
def Backends.blank : Backends := ⟨.empty, fun _ => ⟨200, .empty, none⟩, 0⟩

theorem unused_blank : Backends.blank.Unused := fun _ _ => rfl

theorem guestDay_exact : ExactQuota guestTally 5
    (timedSession backends UsageCall.checkAndIncrement guestDay .blank) := by
  have hchain : List.IsChain (· ≤ ·) (0 :: guestDay.map Prod.fst) := by decide +kernel
  obtain ⟨t, hr⟩ : ∃ t, trackerCalls.Run _ (t, _) := run_timedSession guestDay unused_blank hchain
  refine quota_exact guestTally 5 (by decide) _ _ hr ?_ ?_
  · unfold OnItsDay
    decide +kernel
  · decide +kernel

end Legacy

end TaxlienGateway
