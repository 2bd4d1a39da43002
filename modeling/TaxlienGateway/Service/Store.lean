import TaxlienGateway.Framework.Json
import TaxlienGateway.Framework.ListStore
import TaxlienGateway.Framework.Server

/-!
# What the worker API stores

The two stores behind the worker API and the commands it sends them, each command one atomic step:

* Redis, holding the task queues and the processing lists as lists of payload strings;
* the PostgreSQL table `parcels`, one row for each `(parcel_id, platform, state, county)`
  (the unique index `_parcel_platform_uc`), in autocommit mode: a statement that succeeds is
  committed.

The two have no transaction in common. A command that is not executed, or whose reply is lost, is a
`Fault` of the command and no business of the server.
-/

namespace TaxlienGateway

open Framework

/-! ### The parcels table -/

/-- The key columns of `parcels`. -/
structure ParcelKey where
  parcelID : String
  platform : String
  state : String
  county : String
  deriving DecidableEq

/-- The other columns of `parcels`. -/
structure ParcelRow where
  id : ℕ
  data : Json
  scrapedAt : ℤ
  workerID : String
  createdAt : ℕ

/-- The table, with the next value of its `id` sequence and a statement clock for `created_at`. -/
structure Parcels where
  rows : ParcelKey → Option ParcelRow
  nextID : ℕ
  now : ℕ

/-- `INSERT ... ON CONFLICT DO UPDATE SET data, scraped_at, worker_id`. The default of `id` is drawn
from the sequence before the conflict is noticed. A statement that the database refuses is one that has not
been executed: that it may draw an id as well, and so leave a gap, is assumed away, and so is the rounding of
`scraped_at` to the microseconds of its column. -/
def Parcels.upsert (p : Parcels) (key : ParcelKey) (data : Json) (scrapedAt : ℤ)
    (workerID : String) : Parcels where
  rows := Function.update p.rows key <| some <|
    match p.rows key with
    | some row => { row with data := data, scrapedAt := scrapedAt, workerID := workerID }
    | none => ⟨p.nextID, data, scrapedAt, workerID, p.now⟩
  nextID := p.nextID + 1
  now := p.now + 1

/-- The rows after an upsert: no row is ever deleted. -/
theorem Parcels.isSome_rows_upsert {p : Parcels} {key key' : ParcelKey} {data : Json} {scrapedAt : ℤ}
    {workerID : String} :
    ((p.upsert key data scrapedAt workerID).rows key').isSome ↔ key' = key ∨ (p.rows key').isSome := by
  unfold Parcels.upsert
  by_cases hk : key' = key
  · subst hk
    simp only [Function.update_self, Option.isSome_some, true_or]
  · simp only [Function.update_of_ne hk, hk, false_or]

/-- The row of the key holds what was inserted. -/
theorem Parcels.exists_row_upsert (p : Parcels) (key : ParcelKey) (data : Json) (scrapedAt : ℤ)
    (workerID : String) : ∃ row ∈ (p.upsert key data scrapedAt workerID).rows key,
      row.data = data ∧ row.scrapedAt = scrapedAt ∧ row.workerID = workerID := by
  unfold Parcels.upsert
  simp only [Function.update_self]
  cases p.rows key with
  | none => exact ⟨_, rfl, rfl, rfl, rfl⟩
  | some row => exact ⟨_, rfl, rfl, rfl, rfl⟩

/-! ### The commands -/

/-- The Redis commands and PostgreSQL statements of the worker API. -/
inductive Cmd where
  /-- `LPUSH key payload` -/
  | lpush (key payload : String)
  /-- `RPOPLPUSH src dst` -/
  | rpoplpush (src dst : String)
  /-- `LRANGE key 0 -1` -/
  | lrange (key : String)
  /-- `LREM key 1 payload` -/
  | lrem (key payload : String)
  /-- `SELECT EXISTS(SELECT 1 FROM parcels WHERE ...)` -/
  | selectExists (key : ParcelKey)
  /-- `INSERT INTO parcels ... ON CONFLICT ... DO UPDATE ...` -/
  | insertParcel (key : ParcelKey) (data : Json) (scrapedAt : ℤ) (workerID : String)

/-- The replies; `RPOPLPUSH` answers nil on an empty source. -/
abbrev Reply : Cmd → Type
  | .lpush _ _ => ℕ
  | .rpoplpush _ _ => Option String
  | .lrange _ => List String
  | .lrem _ _ => ℕ
  | .selectExists _ => Bool
  | .insertParcel .. => Unit

/-! The clients' calls: each issues one command. -/

abbrev lPush (key payload : String) : Prog Cmd Reply (Except String ℕ) :=
  Prog.issue (Cmd.lpush key payload)

abbrev rPopLPush (src dst : String) : Prog Cmd Reply (Except String (Option String)) :=
  Prog.issue (Cmd.rpoplpush src dst)

abbrev lRange (key : String) : Prog Cmd Reply (Except String (List String)) :=
  Prog.issue (Cmd.lrange key)

abbrev lRem (key payload : String) : Prog Cmd Reply (Except String ℕ) :=
  Prog.issue (Cmd.lrem key payload)

abbrev queryExists (key : ParcelKey) : Prog Cmd Reply (Except String Bool) :=
  Prog.issue (Cmd.selectExists key)

abbrev execInsert (key : ParcelKey) (data : Json) (scrapedAt : ℤ) (workerID : String) :
    Prog Cmd Reply (Except String Unit) :=
  Prog.issue (Cmd.insertParcel key data scrapedAt workerID)

/-- Both stores. -/
structure Store where
  redis : ListStore String String
  parcels : Parcels

/-- Redis and PostgreSQL as one server. -/
def server : Server Cmd Reply Store where
  exec
    | .lpush key payload, s =>
      ({ s with redis := s.redis.lpush key payload }, (s.redis.lists key).length + 1)
    | .rpoplpush src dst, s =>
      ({ s with redis := (s.redis.rpoplpush src dst).1 }, (s.redis.rpoplpush src dst).2)
    | .lrange key, s => (s, s.redis.lists key)
    | .lrem key payload, s =>
      ({ s with redis := (s.redis.lrem key payload).1 }, (s.redis.lrem key payload).2)
    | .selectExists key, s => (s, (s.parcels.rows key).isSome)
    | .insertParcel key data scrapedAt workerID, s =>
      ({ s with parcels := s.parcels.upsert key data scrapedAt workerID }, ())

/-- Empty lists in Redis and some table. -/
def Store.Fresh (s : Store) : Prop := s.redis = .empty

/-- Nothing stored yet. -/
def Store.blank : Store := ⟨.empty, fun _ => none, 1, 0⟩

/-! ### The effect of a command on Redis -/

section Exec

variable {s s' : Store}

theorem exec_lpush {key payload : String} {r : ℕ}
    (h : server.exec (.lpush key payload) s = (s', r)) : s'.redis = s.redis.lpush key payload := by
  obtain ⟨rfl, -⟩ := Prod.mk.inj h
  rfl

theorem exec_rpoplpush {src dst : String} {r : Option String}
    (h : server.exec (.rpoplpush src dst) s = (s', r)) :
    s.redis.rpoplpush src dst = (s'.redis, r) := by
  obtain ⟨rfl, rfl⟩ := Prod.mk.inj h
  rfl

/-- The same, forwards. -/
theorem exec_of_rpoplpush {src dst : String} {redis : ListStore String String} {r : Option String}
    (h : s.redis.rpoplpush src dst = (redis, r)) :
    server.exec (.rpoplpush src dst) s = ({ s with redis := redis }, r) := by
  change ({ s with redis := (s.redis.rpoplpush src dst).1 }, (s.redis.rpoplpush src dst).2) = _
  rw [h]

theorem exec_lrange {key : String} {r : List String}
    (h : server.exec (.lrange key) s = (s', r)) : s' = s ∧ r = s.redis.lists key := by
  obtain ⟨rfl, rfl⟩ := Prod.mk.inj h
  exact ⟨rfl, rfl⟩

theorem exec_lrem {key payload : String} {r : ℕ}
    (h : server.exec (.lrem key payload) s = (s', r)) :
    s.redis.lrem key payload = (s'.redis, r) := by
  obtain ⟨rfl, rfl⟩ := Prod.mk.inj h
  rfl

theorem exec_selectExists {key : ParcelKey} {r : Bool}
    (h : server.exec (.selectExists key) s = (s', r)) : s' = s := by
  obtain ⟨rfl, -⟩ := Prod.mk.inj h
  rfl

theorem exec_insertParcel {key : ParcelKey} {data : Json} {scrapedAt : ℤ} {workerID : String}
    {r : Unit} (h : server.exec (.insertParcel key data scrapedAt workerID) s = (s', r)) :
    s'.redis = s.redis ∧ s'.parcels = s.parcels.upsert key data scrapedAt workerID := by
  obtain ⟨rfl, -⟩ := Prod.mk.inj h
  exact ⟨rfl, rfl⟩

/-- The rows after a command: those of before, and the one it inserts. -/
theorem exec_rows {c : Cmd} {r : Reply c} (h : server.exec c s = (s', r)) (key : ParcelKey) :
    (s'.parcels.rows key).isSome ↔ (s.parcels.rows key).isSome ∨
      ∃ data scrapedAt workerID, c = .insertParcel key data scrapedAt workerID := by
  cases c with
  | insertParcel key' data scrapedAt workerID =>
    rw [(exec_insertParcel h).2, Parcels.isSome_rows_upsert, or_comm]
    refine or_congr_right ⟨?_, ?_⟩
    · rintro rfl
      exact ⟨data, scrapedAt, workerID, rfl⟩
    · rintro ⟨_, _, _, hc⟩
      exact (Cmd.insertParcel.inj hc).1.symm
  | _ =>
    -- no other command touches the table
    obtain ⟨rfl, -⟩ := Prod.mk.inj h
    exact ⟨.inl, fun h => h.resolve_right (by simp)⟩

end Exec

end TaxlienGateway
