import Mathlib.Data.List.Induction
import Mathlib.Order.Lattice
import TaxlienGateway.Framework.ExpiringStore

/-!
# Leases

A key of an `ExpiringStore` that is written in one command and given its expiry in another. Each command is a
`Touch` of the key; one that sets the expiry of a key that is not found is none. After a history of touches

* the key holds what was written last (`lastWritten`), and
* its expiry is the deadline of the last renewal, unless that deadline had passed when the key was written
  again: then the key has been created anew, and has no expiry until the next renewal (`lease`,
  `lease_eq_some_iff`).

`Leased` says so of an entry; `Leased.write` and `Leased.renew` are its rules.
-/

namespace Framework

variable {ν T : Type}

/-- A command on the key. -/
inductive Touch (ν T : Type) where
  | write (time : T) (v : ν)
  | renew (time deadline : T)

namespace Touch

def time : Touch ν T → T
  | write t _ => t
  | renew t _ => t

/-- What is written. -/
def written? : Touch ν T → Option ν
  | write _ v => some v
  | renew _ _ => none

/-- What is written last. -/
def lastWritten (h : List (Touch ν T)) : Option ν := h.reverse.findSome? written?

theorem lastWritten_append_write (h : List (Touch ν T)) (t : T) (v : ν) :
    lastWritten (h ++ [write t v]) = some v := by
  unfold lastWritten
  rw [List.reverse_append]
  rfl

theorem lastWritten_append_renew (h : List (Touch ν T)) (t d : T) :
    lastWritten (h ++ [renew t d]) = lastWritten h := by
  unfold lastWritten
  rw [List.reverse_append]
  rfl

theorem lastWritten_ne_none {h : List (Touch ν T)} {t : T} {v : ν} (hmem : write t v ∈ h) :
    lastWritten h ≠ none := by
  intro hnone
  have hv := List.findSome?_eq_none_iff.mp hnone _ (List.mem_reverse.mpr hmem)
  exact absurd hv (by simp [written?])

variable [LinearOrder T]

/-- The expiry after one more touch. -/
def lease₁ (d? : Option T) : Touch ν T → Option T
  | write t _ => d?.filter (t ≤ ·)
  | renew _ d => some d

/-- The expiry, if there is one. -/
def lease (h : List (Touch ν T)) : Option T := h.foldl lease₁ none

theorem lease_append_singleton (h : List (Touch ν T)) (touch : Touch ν T) :
    lease (h ++ [touch]) = lease₁ (lease h) touch := by
  unfold lease
  rw [List.foldl_append, List.foldl_cons, List.foldl_nil]

/-- **The expiry is the deadline of the last renewal**, if it had not passed at any write since. -/
theorem lease_eq_some_iff {h : List (Touch ν T)} {d : T} : lease h = some d ↔
    ∃ pre t post, h = pre ++ renew t d :: post ∧ ∀ touch ∈ post, ∃ t' v, touch = write t' v ∧ t' ≤ d := by
  induction h using List.reverseRecOn with
  | nil => simp [lease]
  | append_singleton h touch ih =>
    rw [lease_append_singleton]
    cases touch with
    | renew t d' =>
      constructor
      · intro heq
        obtain rfl : d' = d := Option.some.inj heq
        exact ⟨h, t, [], rfl, by simp⟩
      · rintro ⟨pre, t', post, heq, hpost⟩
        rcases List.eq_nil_or_concat post with rfl | ⟨post, last, rfl⟩
        · obtain ⟨-, heq⟩ := List.append_inj' heq rfl
          exact congrArg some (renew.inj (List.singleton_inj.mp heq)).2
        · -- the last touch would be a write
          rw [List.concat_eq_append, ← List.cons_append, ← List.append_assoc] at heq
          obtain ⟨-, heq⟩ := List.append_inj' heq rfl
          obtain ⟨t'', v, hlast, -⟩ := hpost last (by simp)
          exact absurd ((List.singleton_inj.mp heq).trans hlast) (by simp)
    | write t v =>
      rw [lease₁, Option.filter_eq_some_iff, ih]
      constructor
      · rintro ⟨⟨pre, t', post, rfl, hpost⟩, hle⟩
        refine ⟨pre, t', post ++ [write t v], by simp, fun touch htouch => ?_⟩
        rcases List.mem_append.mp htouch with htouch | htouch
        · exact hpost touch htouch
        · exact ⟨t, v, List.mem_singleton.mp htouch, of_decide_eq_true hle⟩
      · rintro ⟨pre, t', post, heq, hpost⟩
        rcases List.eq_nil_or_concat post with rfl | ⟨post, last, rfl⟩
        · obtain ⟨-, heq⟩ := List.append_inj' heq rfl
          exact absurd (List.singleton_inj.mp heq) (by simp)
        · rw [List.concat_eq_append, ← List.cons_append, ← List.append_assoc] at heq
          obtain ⟨rfl, htouch⟩ := List.append_inj' heq rfl
          obtain ⟨t'', v', hlast, hle⟩ := hpost last (by simp)
          obtain ⟨rfl, rfl⟩ := write.inj ((List.singleton_inj.mp htouch).trans hlast)
          refine ⟨⟨pre, t', post, rfl, fun touch htouch => hpost touch (by simp [htouch])⟩, ?_⟩
          exact decide_eq_true hle

/-- From a renewal on, the key does not expire before its deadline, if later renewals have later deadlines. -/
theorem le_of_mem_lease {pre post : List (Touch ν T)} {t d d' : T}
    (hpost : ∀ t' d'', renew t' d'' ∈ post → d ≤ d'') (h : lease (pre ++ renew t d :: post) = some d') : d ≤ d' := by
  obtain ⟨pre', t', post', heq, hwrites⟩ := lease_eq_some_iff.mp h
  rcases List.append_eq_append_iff.mp heq with ⟨rest, rfl, hrest⟩ | ⟨rest, rfl, hrest⟩
  · cases rest with
    | nil => exact (renew.inj (List.cons.inj hrest).1).2.le
    | cons touch rest =>
      obtain ⟨rfl, rfl⟩ := List.cons.inj hrest
      exact hpost t' d' (by simp)
  · cases rest with
    | nil => exact (renew.inj (List.cons.inj hrest).1).2.ge
    | cons touch rest =>
      -- the renewal would be one of the writes since the last one
      obtain ⟨rfl, rfl⟩ := List.cons.inj hrest
      obtain ⟨t'', v, habsurd, -⟩ := hwrites (renew t d) (by simp)
      exact absurd habsurd (by simp)

/-! ### The entry -/

/-- The entry of a key after a history of touches. -/
structure Leased (h : List (Touch ν T)) (entry : Option (Entry ν T)) : Prop where
  entry_eq : entry = (lastWritten h).map fun v => ⟨v, lease h⟩
  lease_of_unwritten : lastWritten h = none → lease h = none

theorem Leased.nil : Leased ([] : List (Touch ν T)) none := ⟨rfl, fun _ => rfl⟩

section Store

variable {κ : Type} [DecidableEq κ] {st : ExpiringStore κ ν T} {k : κ} {h : List (Touch ν T)} {t d u : T} {v : ν}

omit [DecidableEq κ] in
/-- **What is found.** -/
theorem Leased.find?_iff {e : Entry ν T} (hst : Leased h (st.entries k)) : st.find? u k = some e ↔
    (lastWritten h = some e.value ∧ e.expireAt = lease h) ∧ ∀ d ∈ lease h, u ≤ d := by
  rw [ExpiringStore.find?_eq_some_iff, hst.entry_eq]
  obtain ⟨value, expireAt⟩ := e
  constructor
  · rintro ⟨hmap, hlive⟩
    obtain ⟨v, hv, heq⟩ := Option.map_eq_some_iff.mp hmap
    obtain ⟨rfl, rfl⟩ := Entry.mk.inj heq
    exact ⟨⟨hv, rfl⟩, hlive⟩
  · rintro ⟨⟨hv, rfl⟩, hlive⟩
    exact ⟨by rw [hv]; rfl, hlive⟩

omit [DecidableEq κ] in
/-- A key that has been written and is not found has expired. -/
theorem Leased.exists_lt (hst : Leased h (st.entries k)) (hwritten : lastWritten h ≠ none)
    (hnone : st.find? u k = none) : ∃ d, lease h = some d ∧ d < u := by
  obtain ⟨v, hv⟩ := Option.ne_none_iff_exists'.mp hwritten
  by_contra hlive
  have hfound : st.find? u k = some ⟨v, lease h⟩ :=
    hst.find?_iff.mpr ⟨⟨hv, rfl⟩, fun d hd => not_lt.mp fun hlt => hlive ⟨d, hd, hlt⟩⟩
  exact absurd (hnone.symm.trans hfound) (by simp)

/-- **Rule of writing.** -/
theorem Leased.write (hst : Leased h (st.entries k)) (t : T) (v : ν) :
    Leased (h ++ [.write t v]) ((st.write t k v).entries k) := by
  refine ⟨?_, fun hnone => absurd hnone (by simp [lastWritten_append_write])⟩
  rw [ExpiringStore.entries_write_self, lastWritten_append_write, lease_append_singleton, lease₁]
  refine congrArg some (congrArg _ ?_)
  cases hfind : st.find? t k with
  | some e =>
    obtain ⟨⟨-, hlease⟩, hlive⟩ := hst.find?_iff.mp hfind
    rw [Option.bind_some, hlease]
    cases hd : lease h with
    | none => rfl
    | some d => simp [Option.filter, hlive d hd]
  | none =>
    rw [Option.bind_none]
    -- what is not found has not been written yet, or has expired
    by_cases hwritten : lastWritten h = none
    · rw [hst.lease_of_unwritten hwritten]
      rfl
    · obtain ⟨d, hd, hlt⟩ := hst.exists_lt hwritten hfind
      rw [hd]
      exact (Option.filter_some_neg (by simpa using hlt)).symm

/-- **Rule of renewing.** -/
theorem Leased.renew {e : Entry ν T} (hst : Leased h (st.entries k)) (hfind : st.find? t k = some e) (d : T) :
    Leased (h ++ [.renew t d]) ((st.expire t k d).entries k) := by
  have hv := (hst.find?_iff.mp hfind).1.1
  refine ⟨?_, fun hnone => ?_⟩
  · rw [ExpiringStore.entries_expire_self hfind, lastWritten_append_renew, hv, lease_append_singleton]
    rfl
  · rw [lastWritten_append_renew, hv] at hnone
    exact absurd hnone (by simp)

end Store

end Touch

end Framework
