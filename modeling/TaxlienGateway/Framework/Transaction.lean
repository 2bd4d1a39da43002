import Mathlib.Order.Nat

/-!
# A table written in transactions

A `Table κ ρ` maps keys to row versions. A version is stamped with the transaction that wrote it, and
the stamps of a table are below the number of its next transaction, so a transaction can tell its
own writes from whatever was there before.

A `Session` is a transaction on a table. A statement either succeeds, or fails and aborts the
transaction; in an aborted transaction every statement fails. Committing an active transaction
replaces the table by what the transaction sees; committing an aborted one rolls it back.

* `Session.execute_cases` — what one statement does;
* `Session.Wrote.execute` — what the transaction wrote stays written;
* `Session.writtenBy_commit`, `Session.not_writtenBy_commit` — after the end of the transaction all
  that it wrote is in the table, or nothing of it.
-/

namespace Framework

/-- A version of a row, and the transaction that wrote it. -/
structure Version (ρ : Type) where
  row : ρ
  xmin : ℕ

/-- The committed rows. -/
structure Table (κ ρ : Type) where
  rows : κ → Option (Version ρ)
  /-- The number of the next transaction. -/
  nextXid : ℕ
  xmin_lt : ∀ k, ∀ v ∈ rows k, v.xmin < nextXid

/-- The row of this key is as the transaction `xid` wrote it. -/
def Table.WrittenBy {κ ρ : Type} (t : Table κ ρ) (xid : ℕ) (k : κ) : Prop :=
  ∃ v ∈ t.rows k, v.xmin = xid

inductive TxStatus where
  | active
  | aborted
  deriving DecidableEq

/-- What can go wrong with a statement. -/
inductive StatementFault where
  /-- The client raises before anything is sent. -/
  | rejected (e : String)
  /-- The statement fails in the server. -/
  | failed (e : String)
  deriving DecidableEq

/-- The statement fails in the server, if it is sent. -/
def aborts : Option StatementFault → Bool
  | some (.failed _) => true
  | _ => false

/-- What becomes of a commit. -/
inductive CommitOutcome where
  | ok
  /-- It takes effect, but its reply does not arrive. -/
  | lost (e : String)
  /-- It takes no effect. -/
  | failed (e : String)
  deriving DecidableEq

/-- Does the commit take effect? -/
def CommitOutcome.effective : CommitOutcome → Bool
  | ok => true
  | lost _ => true
  | failed _ => false

/-- A transaction on a table; its number is the next one of the table. -/
structure Session (κ ρ : Type) where
  table : Table κ ρ
  /-- The rows as the transaction sees them. -/
  rows : κ → Option (Version ρ)
  status : TxStatus
  xmin_le : ∀ k, ∀ v ∈ rows k, v.xmin ≤ table.nextXid

namespace Session

variable {κ ρ : Type} [DecidableEq κ]

omit [DecidableEq κ] in
/-- A new transaction. -/
def start (table : Table κ ρ) : Session κ ρ where
  table := table
  rows := table.rows
  status := .active
  xmin_le k v hv := (table.xmin_lt k v hv).le

/-- A statement that writes the row of a key, whether there is one or not. -/
def write (s : Session κ ρ) (k : κ) (row : ρ) : Session κ ρ where
  table := s.table
  rows := Function.update s.rows k (some ⟨row, s.table.nextXid⟩)
  status := s.status
  xmin_le j v hv := by
    by_cases hjk : j = k
    · subst hjk
      rw [Function.update_self] at hv
      exact (Option.some.inj hv).symm ▸ le_refl s.table.nextXid
    · rw [Function.update_of_ne hjk] at hv
      exact s.xmin_le j v hv

/-- The message of a statement in an aborted transaction. -/
def abortedError : String :=
  "current transaction is aborted, commands ignored until end of transaction block"

/-- Execute a write under a fault. -/
def execute (s : Session κ ρ) (fault : Option StatementFault) (k : κ) (row : ρ) :
    Session κ ρ × Except String Unit :=
  match fault, s.status with
  -- nothing reaches the server
  | some (.rejected e), _ => (s, .error e)
  | _, .aborted => (s, .error abortedError)
  | some (.failed e), .active => ({ s with status := .aborted }, .error e)
  | none, .active => (s.write k row, .ok ())

omit [DecidableEq κ] in
/-- The committed rows after the end of the transaction. -/
def commit (s : Session κ ρ) (outcome : CommitOutcome) : Table κ ρ :=
  if s.status = .active ∧ outcome.effective then
    { rows := s.rows
      nextXid := s.table.nextXid + 1
      xmin_lt := fun k v hv => Nat.lt_succ_of_le (s.xmin_le k v hv) }
  else
    -- the number is used up all the same
    { rows := s.table.rows
      nextXid := s.table.nextXid + 1
      xmin_lt := fun k v hv => (s.table.xmin_lt k v hv).trans (Nat.lt_succ_self _) }

/-! ### Statements -/

section Statements

variable {s : Session κ ρ} {fault : Option StatementFault} {k : κ} {row : ρ}

/-- **Inversion of a statement.** It writes, or raises and changes nothing, or aborts. -/
theorem execute_cases (s : Session κ ρ) (fault : Option StatementFault) (k : κ) (row : ρ) :
    (fault = none ∧ s.status = .active ∧ s.execute fault k row = (s.write k row, .ok ())) ∨
      (∃ e, s.execute fault k row = (s, .error e) ∧
        (s.status = .active → fault ≠ none ∧ aborts fault = false)) ∨
      (∃ e, s.execute fault k row = ({ s with status := .aborted }, .error e) ∧
        aborts fault = true) := by
  match fault, hs : s.status with
  | some (.rejected e), _ => exact .inr (.inl ⟨e, rfl, fun _ => ⟨by simp, rfl⟩⟩)
  | none, .active => exact .inl ⟨rfl, rfl, by simp [execute, hs]⟩
  | none, .aborted => exact .inr (.inl ⟨abortedError, by simp [execute, hs], by simp⟩)
  | some (.failed e), .active => exact .inr (.inr ⟨e, by simp [execute, hs], rfl⟩)
  | some (.failed e), .aborted => exact .inr (.inl ⟨abortedError, by simp [execute, hs], by simp⟩)

/-- A statement without a fault in an active transaction. -/
theorem execute_none (hs : s.status = .active) : s.execute none k row = (s.write k row, .ok ()) := by
  simp [execute, hs]

@[simp] theorem execute_table : (s.execute fault k row).1.table = s.table := by
  obtain ⟨-, -, h⟩ | ⟨e, h, -⟩ | ⟨e, h, -⟩ := execute_cases s fault k row <;> rw [h]
  rfl

theorem execute_status : (s.execute fault k row).1.status = .active ↔
    s.status = .active ∧ aborts fault = false := by
  obtain ⟨rfl, hs, h⟩ | ⟨e, h, hfault⟩ | ⟨e, h, hfault⟩ := execute_cases s fault k row
  · rw [h]
    exact ⟨fun _ => ⟨hs, rfl⟩, fun _ => hs⟩
  · rw [h]
    exact ⟨fun hs => ⟨hs, (hfault hs).2⟩, And.left⟩
  · simp [h, hfault]

end Statements

/-! ### What a transaction wrote -/

/-- The transaction has written the row of this key. -/
def Wrote (s : Session κ ρ) (k : κ) : Prop := ∃ v ∈ s.rows k, v.xmin = s.table.nextXid

variable {s : Session κ ρ} {j k : κ} {row : ρ}

theorem wrote_write (s : Session κ ρ) (k : κ) (row : ρ) : (s.write k row).Wrote k :=
  ⟨⟨row, s.table.nextXid⟩, Function.update_self .., rfl⟩

/-- What the transaction wrote stays written, whatever statement follows. -/
theorem Wrote.execute (h : s.Wrote j) (fault : Option StatementFault) (k : κ) (row : ρ) :
    (s.execute fault k row).1.Wrote j := by
  obtain ⟨-, -, heq⟩ | ⟨e, heq, -⟩ | ⟨e, heq, -⟩ := execute_cases s fault k row
  · rw [heq]
    by_cases hjk : j = k
    · -- written again, by the same transaction
      subst hjk
      exact wrote_write s j row
    · obtain ⟨v, hv, hxmin⟩ := h
      exact ⟨v, (Function.update_of_ne hjk ..).trans hv, hxmin⟩
  · rw [heq]
    exact h
  · rw [heq]
    exact h

omit [DecidableEq κ] in
/-- The end of a transaction keeps what it wrote, if it is active and the commit takes effect. -/
theorem writtenBy_commit {outcome : CommitOutcome} (hs : s.status = .active)
    (houtcome : outcome.effective = true) (h : s.Wrote k) :
    (s.commit outcome).WrittenBy s.table.nextXid k := by
  unfold commit
  rw [if_pos ⟨hs, houtcome⟩]
  exact h

omit [DecidableEq κ] in
/-- Otherwise the rows are the ones from before. -/
theorem rows_commit {outcome : CommitOutcome}
    (h : ¬ (s.status = .active ∧ outcome.effective = true)) :
    (s.commit outcome).rows = s.table.rows := by
  unfold commit
  rw [if_neg h]

omit [DecidableEq κ] in
theorem not_writtenBy_commit {outcome : CommitOutcome}
    (h : ¬ (s.status = .active ∧ outcome.effective = true)) :
    ¬ (s.commit outcome).WrittenBy s.table.nextXid k := by
  rintro ⟨v, hv, hxmin⟩
  rw [rows_commit h] at hv
  exact absurd hxmin (s.table.xmin_lt k v hv).ne

end Session

end Framework
