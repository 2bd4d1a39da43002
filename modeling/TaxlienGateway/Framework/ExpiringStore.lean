import Mathlib.Data.Option.Basic
import Mathlib.Logic.Function.Basic
import Mathlib.Order.Basic

/-!
# A store whose keys expire

An `ExpiringStore κ ν T` maps keys to values, each with or without a time after which the key does not
exist any more. An expired entry stays where it is until the key is written again, but no command sees
it: `find? st now k` is the entry that a command at time `now` finds. A key is written

* afresh (`set`), with the expiry it is given or without one,
* in place (`write`), which keeps the expiry of the entry it finds, or
* in its expiry alone (`expire`), if it is found.
-/

namespace Framework

/-- A value and the time until which it lives, if there is one. -/
structure Entry (ν T : Type) where
  value : ν
  expireAt : Option T

/-- A store of entries. -/
structure ExpiringStore (κ ν T : Type) where
  entries : κ → Option (Entry ν T)

namespace ExpiringStore

variable {κ ν T : Type} [DecidableEq κ] [LE T] [DecidableLE T]

omit [DecidableEq κ] [LE T] [DecidableLE T] in
/-- The store without keys. -/
def empty : ExpiringStore κ ν T := ⟨fun _ => none⟩

omit [DecidableEq κ] in
/-- The entry of a key, unless it has expired. -/
def find? (st : ExpiringStore κ ν T) (now : T) (k : κ) : Option (Entry ν T) :=
  (st.entries k).filter fun e => e.expireAt.all fun t => now ≤ t

/-- Write a whole entry. -/
def set (st : ExpiringStore κ ν T) (k : κ) (v : ν) (expireAt : Option T) : ExpiringStore κ ν T :=
  ⟨Function.update st.entries k (some ⟨v, expireAt⟩)⟩

/-- Write a value and keep the expiry; a key that is not found gets none. -/
def write (st : ExpiringStore κ ν T) (now : T) (k : κ) (v : ν) : ExpiringStore κ ν T :=
  st.set k v ((st.find? now k).bind Entry.expireAt)

/-- Set the expiry of a key, if it is found. -/
def expire (st : ExpiringStore κ ν T) (now : T) (k : κ) (expireAt : T) : ExpiringStore κ ν T :=
  match st.find? now k with
  | none => st
  | some e => st.set k e.value (some expireAt)

variable {st : ExpiringStore κ ν T} {now : T} {k : κ}

/-! ### What a command finds -/

omit [DecidableEq κ] in
theorem find?_eq_some_iff {e : Entry ν T} :
    st.find? now k = some e ↔ st.entries k = some e ∧ ∀ t ∈ e.expireAt, now ≤ t := by
  unfold find?
  rw [Option.filter_eq_some_iff]
  simp [Option.all_eq_true]

omit [DecidableEq κ] in
/-- An entry without expiry, or whose time has not come, is found. -/
theorem find?_of_entries {e : Entry ν T} (h : st.entries k = some e)
    (hlive : ∀ t ∈ e.expireAt, now ≤ t) : st.find? now k = some e :=
  find?_eq_some_iff.mpr ⟨h, hlive⟩

omit [DecidableEq κ] in
@[simp] theorem find?_of_none (h : st.entries k = none) : st.find? now k = none := by
  unfold find?
  rw [h]
  rfl

/-! ### What a command writes -/

omit [LE T] [DecidableLE T] in
@[simp] theorem entries_set_self (v : ν) (expireAt : Option T) :
    (st.set k v expireAt).entries k = some ⟨v, expireAt⟩ := Function.update_self ..

omit [LE T] [DecidableLE T] in
theorem entries_set_of_ne {j : κ} (v : ν) (expireAt : Option T) (h : j ≠ k) :
    (st.set k v expireAt).entries j = st.entries j := Function.update_of_ne h ..

@[simp] theorem entries_write_self (v : ν) :
    (st.write now k v).entries k = some ⟨v, (st.find? now k).bind Entry.expireAt⟩ :=
  entries_set_self ..

theorem entries_write_of_ne {j : κ} (v : ν) (h : j ≠ k) :
    (st.write now k v).entries j = st.entries j := entries_set_of_ne _ _ h

/-- Setting the expiry of a key that is found. -/
theorem entries_expire_self {e : Entry ν T} {expireAt : T} (h : st.find? now k = some e) :
    (st.expire now k expireAt).entries k = some ⟨e.value, some expireAt⟩ := by
  unfold expire
  rw [h]
  exact entries_set_self ..

/-- Setting the expiry of a key that is not found. -/
theorem expire_of_none {expireAt : T} (h : st.find? now k = none) :
    st.expire now k expireAt = st := by
  unfold expire
  rw [h]

theorem entries_expire_of_ne {j : κ} {expireAt : T} (h : j ≠ k) :
    (st.expire now k expireAt).entries j = st.entries j := by
  unfold expire
  split
  · rfl
  · exact entries_set_of_ne _ _ h

end ExpiringStore

end Framework
