import Mathlib.Data.List.Induction
import Mathlib.Data.Finset.Card
import Mathlib.Data.Finset.Range

/-!
# Paid uses

Counting in histories. The occurrences of a kind of event in a history are ranked by the number of those
before them; there is one of every rank (`exists_split_of_lt_countP`) and only one
(`split_unique`).

`countP_le_of_paid` is the accounting rule: if every use in a history has been paid for by one of the
first `n` grants, by the same owner, who has not used anything since, then there are at most `n` uses.
-/

namespace Framework

variable {E ι : Type}

/-- There is an occurrence of every rank below the number of occurrences. -/
theorem exists_split_of_lt_countP {p : E → Bool} {es : List E} {n : ℕ} (h : n < es.countP p) :
    ∃ pre e post, es = pre ++ e :: post ∧ p e = true ∧ pre.countP p = n := by
  induction es using List.reverseRecOn with
  | nil => exact absurd h (by simp)
  | append_singleton es e ih =>
    by_cases hn : n < es.countP p
    · obtain ⟨pre, e', post, rfl, he', hpre⟩ := ih hn
      exact ⟨pre, e', post ++ [e], by simp, he', hpre⟩
    · -- the last one has the highest rank
      rw [List.countP_append, List.countP_singleton] at h
      split at h
      · next he => exact ⟨es, e, [], rfl, he, by omega⟩
      · omega

/-- There is only one occurrence of a rank. -/
theorem split_unique {p : E → Bool} {pre post pre' post' : List E} {e e' : E} (he : p e = true)
    (he' : p e' = true) (hes : pre ++ e :: post = pre' ++ e' :: post')
    (hcount : pre.countP p = pre'.countP p) : pre = pre' ∧ e = e' ∧ post = post' := by
  -- if one were further to the right, the other would be counted before it
  rcases List.append_eq_append_iff.mp hes with ⟨c, rfl, hc⟩ | ⟨c, rfl, hc⟩
  · cases c with
    | nil => exact ⟨by simp, List.cons.inj hc⟩
    | cons d c =>
      obtain ⟨rfl, -⟩ := List.cons.inj hc
      rw [List.countP_append, List.countP_cons, if_pos he] at hcount
      omega
  · cases c with
    | nil =>
      obtain ⟨rfl, rfl⟩ := List.cons.inj hc
      exact ⟨by simp, rfl, rfl⟩
    | cons d c =>
      obtain ⟨rfl, -⟩ := List.cons.inj hc
      rw [List.countP_append, List.countP_cons, if_pos he'] at hcount
      omega

/-- What holds of the history before every event of a kind, place by place, holds before this one. -/
theorem of_take {p : E → Bool} {P : List E → Prop} {es pre post : List E} {e : E}
    (h : ∀ n < es.length, (es[n]?).any p = true → P (es.take n)) (hes : es = pre ++ e :: post)
    (he : p e = true) : P pre := by
  subst hes
  have hpre := h pre.length (by simp) (by simpa using he)
  rwa [List.take_left] at hpre

/-- The use `e` that follows the history `pre` is paid for: one of the first `n` grants is its owner's,
who has not used anything since. -/
def Paid (grants uses : E → Bool) (owner : E → ι) (n : ℕ) (pre : List E) (e : E) : Prop :=
  ∃ pre₁ g pre₂, pre = pre₁ ++ g :: pre₂ ∧ grants g = true ∧ pre₁.countP grants < n ∧
    owner g = owner e ∧ ∀ e' ∈ pre₂, uses e' = true → owner e' ≠ owner e

/-- **The accounting rule.** -/
theorem countP_le_of_paid {grants uses : E → Bool} {owner : E → ι} {n : ℕ} {es : List E}
    (h : ∀ pre e post, es = pre ++ e :: post → uses e = true → Paid grants uses owner n pre e) :
    es.countP uses ≤ n := by
  -- the ranks of the grants that have been used up
  suffices hranks : ∃ ranks : List ℕ, ranks.length = es.countP uses ∧ ranks.Nodup ∧
      ∀ k ∈ ranks, k < n ∧ ∃ pre₁ g pre₂, es = pre₁ ++ g :: pre₂ ∧ grants g = true ∧
        pre₁.countP grants = k ∧ ∃ e ∈ pre₂, uses e = true ∧ owner e = owner g by
    obtain ⟨ranks, hlen, hnodup, hall⟩ := hranks
    calc es.countP uses = ranks.toFinset.card := by rw [List.toFinset_card_of_nodup hnodup, hlen]
      _ ≤ (Finset.range n).card := Finset.card_le_card fun k hk =>
          Finset.mem_range.mpr (hall k (List.mem_toFinset.mp hk)).1
      _ = n := Finset.card_range n
  induction es using List.reverseRecOn with
  | nil => exact ⟨[], by simp, List.nodup_nil, by simp⟩
  | append_singleton es e ih =>
    obtain ⟨ranks, hlen, hnodup, hall⟩ := ih fun pre e' post hes huse =>
      h pre e' (post ++ [e]) (by rw [hes, List.append_assoc, List.cons_append]) huse
    -- what has been used up stays so
    have hkeep : ∀ k ∈ ranks, k < n ∧ ∃ pre₁ g pre₂, es ++ [e] = pre₁ ++ g :: pre₂ ∧
        grants g = true ∧ pre₁.countP grants = k ∧ ∃ e ∈ pre₂, uses e = true ∧ owner e = owner g := by
      intro k hk
      obtain ⟨hkn, pre₁, g, pre₂, rfl, hg, hcount, e', he', huse, howner⟩ := hall k hk
      exact ⟨hkn, pre₁, g, pre₂ ++ [e], by simp, hg, hcount, e', List.mem_append_left _ he', huse, howner⟩
    rw [List.countP_append, List.countP_singleton]
    by_cases huse : uses e = true
    · rw [if_pos huse]
      obtain ⟨pre₁, g, pre₂, hes, hg, hlt, howner, hfresh⟩ := h es e [] rfl huse
      refine ⟨pre₁.countP grants :: ranks, by simp [hlen], List.nodup_cons.mpr ⟨fun hmem => ?_, hnodup⟩, ?_⟩
      · -- the owner would have used it before
        obtain ⟨-, pre₁', g', pre₂', hes', hg', hcount, e', he', huse', howner'⟩ := hall _ hmem
        obtain ⟨-, rfl, rfl⟩ := split_unique hg hg' (hes.symm.trans hes') hcount.symm
        exact hfresh e' he' huse' (howner'.trans howner)
      · intro k hk
        rcases List.mem_cons.mp hk with rfl | hk
        · exact ⟨hlt, pre₁, g, pre₂ ++ [e], by rw [hes]; simp, hg, rfl, e, by simp, huse, howner.symm⟩
        · exact hkeep k hk
    · rw [if_neg huse]
      exact ⟨ranks, hlen, hnodup, hkeep⟩

end Framework
