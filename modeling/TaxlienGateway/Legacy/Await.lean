import TaxlienGateway.Framework.ExpiringStore
import TaxlienGateway.Framework.Server
import TaxlienGateway.Legacy.RateLimit
import TaxlienGateway.Framework.Json

/-!
# What the handlers await

Between two awaits a coroutine runs alone, so each thing that a handler awaits is one command: a Redis
command on a key that may expire, or an exchange with an upstream service. The two gateways share one
Redis; `HSET` is the only one of these commands that the Go gateway sends.

A key holds a counter, other bytes, the hash of a worker, or the hash of a rate limit bucket, and Redis
refuses a command on a key of another kind. The script of the rate limiter is one command. What an
upstream service answers is not the gateway's business: the answers are a sequence that is given with
the initial state, and may be any.
-/

namespace TaxlienGateway

open Framework

namespace Legacy

/-! ### Keys and values -/

/-- What a key holds. -/
inductive Value where
  /-- A string that is an integer. -/
  | counter (n : ℤ)
  /-- Any other string. -/
  | bytes (b : ByteArray)
  /-- The hash of a worker. -/
  | hash (fields : List (String × String))
  /-- The hash of a rate limit bucket. -/
  | bucket (h : BucketHash)

/-- The error of a command on a key of another kind. -/
def wrongType : String := "WRONGTYPE Operation against a key holding the wrong kind of value"

/-- The value that `INCR` writes. -/
def incrValue : Option Value → Except String ℤ
  | none => .ok 1
  | some (.counter n) => .ok (n + 1)
  | some (.bytes _) => .error "ERR value is not an integer or out of range"
  | some _ => .error wrongType

/-- The string that `GET` answers. -/
def getValue : Option Value → Except String (Option ByteArray)
  | none => .ok none
  | some (.counter n) => .ok (some (toString n).toByteArray)
  | some (.bytes b) => .ok (some b)
  | some _ => .error wrongType

/-- The fields that `HSET` finds. -/
def hashFields : Option Value → Except String (List (String × String))
  | none => .ok []
  | some (.hash fields) => .ok fields
  | some _ => .error wrongType

/-- The bucket that the script of the rate limiter finds. -/
def bucketState : Option Value → Except String (Option BucketHash)
  | none => .ok none
  | some (.bucket h) => .ok (some h)
  | some _ => .error wrongType

/-- The fields after `HSET`. -/
def setFields (old fields : List (String × String)) : List (String × String) :=
  old.filter (fun f => f.1 ∉ fields.map Prod.fst) ++ fields

/-! ### The commands -/

/-- A request to an upstream service, as `ServiceClient.request` is called. -/
structure UpstreamRequest where
  service : String
  method : String
  path : String
  params : List (String × String)
  headers : List (String × String)
  json : Option Json

/-- Its response, as far as the handlers look at it. -/
structure UpstreamResponse where
  status_code : ℕ
  content : ByteArray
  contentType : Option String

/-- What a handler awaits. -/
inductive Await where
  /-- `INCR key` -/
  | incr (key : String)
  /-- `EXPIRE key ttl` -/
  | expire (key : String) (ttl : ℕ)
  /-- `GET key` -/
  | get (key : String)
  /-- `SETEX key ttl content` -/
  | setex (key : String) (ttl : ℕ) (content : ByteArray)
  /-- `HSET key field value ...` -/
  | hset (key : String) (fields : List (String × String))
  /-- `TOKEN_BUCKET_LUA` on `key`, with the arguments `now`, `rate`, `burst`
  and `requested` -/
  | tokenBucket (key : String) (clock rate burst requested : ℚ)
  | upstream (request : UpstreamRequest)

/-- The replies; an inner error is one that Redis itself answers. -/
abbrev AwaitReply : Await → Type
  | .incr _ => Except String ℤ
  | .expire _ _ => Bool
  | .get _ => Except String (Option ByteArray)
  | .setex _ _ _ => Unit
  | .hset _ _ => Except String ℕ
  | .tokenBucket .. => Except String (Bool × ℤ)
  | .upstream _ => UpstreamResponse

/-- Redis, and the answers that upstream services are still to give. -/
structure Backends where
  redis : ExpiringStore String Value ℚ
  responses : ℕ → UpstreamResponse
  /-- How many requests have been answered. -/
  answered : ℕ

/-- The value that a command at time `now` finds under a key. -/
def Backends.value? (s : Backends) (now : ℚ) (key : String) : Option Value :=
  (s.redis.find? now key).map Entry.value

/-- `INCR` keeps the expiry of the key. -/
def Backends.incr (s : Backends) (now : ℚ) (key : String) : Backends × Except String ℤ :=
  match incrValue (s.value? now key) with
  | .error e => (s, .error e)
  | .ok n => ({ s with redis := s.redis.write now key (.counter n) }, .ok n)

/-- `HSET` keeps the expiry of the key; its reply is the number of new fields. -/
def Backends.hset (s : Backends) (now : ℚ) (key : String) (fields : List (String × String)) :
    Backends × Except String ℕ :=
  match hashFields (s.value? now key) with
  | .error e => (s, .error e)
  | .ok old =>
    ({ s with redis := s.redis.write now key (.hash (setFields old fields)) },
      .ok (fields.countP fun f => f.1 ∉ old.map Prod.fst))

/-- The script of the rate limiter; `clock` is the time that its caller passes. -/
def Backends.tokenBucket (s : Backends) (now : ℚ) (key : String) (clock rate burst requested : ℚ) :
    Backends × Except String (Bool × ℤ) :=
  match bucketState (s.value? now key) with
  | .error e => (s, .error e)
  | .ok state =>
    match tokenBucketLua state clock rate burst requested with
    -- `HMSET`, and `EXPIRE key 3600`
    | (some h, reply) =>
      ({ s with redis := s.redis.set key (.bucket h) (some (now + 3600)) }, .ok reply)
    | (none, reply) => (s, .ok reply)

/-- What the commands do at time `now`. -/
def backends (now : ℚ) : Server Await AwaitReply Backends where
  exec
    | .incr key, s => s.incr now key
    | .expire key ttl, s =>
      ({ s with redis := s.redis.expire now key (now + ttl) }, (s.redis.find? now key).isSome)
    | .get key, s => (s, getValue (s.value? now key))
    | .setex key ttl content, s =>
      ({ s with redis := s.redis.set key (.bytes content) (some (now + ttl)) }, ())
    | .hset key fields, s => s.hset now key fields
    | .tokenBucket key clock rate burst requested, s => s.tokenBucket now key clock rate burst requested
    | .upstream _, s => ({ s with answered := s.answered + 1 }, s.responses s.answered)

/-! ### The clients' calls -/

/-- An error that Redis answers is raised like one on the way. -/
def raiseError {α : Type} : Except String (Except String α) → Except String α
  | .error e => .error e
  | .ok r => r

/-- The client decodes what `GET` answers. -/
def decodeResponse : Except String (Option ByteArray) → Except String (Option String)
  | .error e => .error e
  | .ok none => .ok none
  | .ok (some b) =>
    match String.fromUTF8? b with
    | none => .error "UnicodeDecodeError"
    | some data => .ok (some data)

theorem fromUTF8?_toByteArray (data : String) : String.fromUTF8? data.toByteArray = some data := by
  unfold String.fromUTF8?
  rw [dif_pos data.isValidUTF8]
  rfl

/-- A text that was stored is read back. -/
theorem decodeResponse_toByteArray (data : String) :
    decodeResponse (.ok (some data.toByteArray)) = .ok (some data) := by
  show (match String.fromUTF8? data.toByteArray with
    | none => .error "UnicodeDecodeError"
    | some data => .ok (some data)) = (.ok (some data) : Except String (Option String))
  rw [fromUTF8?_toByteArray]

/-- What is no text cannot be read back. -/
theorem decodeResponse_of_not_valid {b : ByteArray} (h : ¬ b.IsValidUTF8) :
    decodeResponse (.ok (some b)) = .error "UnicodeDecodeError" := by
  have hnone : String.fromUTF8? b = none := dif_neg h
  show (match String.fromUTF8? b with
    | none => .error "UnicodeDecodeError"
    | some data => .ok (some data)) = (.error _ : Except String (Option String))
  rw [hnone]

abbrev incr (key : String) : Prog Await AwaitReply (Except String ℤ) :=
  .cmd (.incr key) fun r => .done (raiseError r)

abbrev expire (key : String) (ttl : ℕ) : Prog Await AwaitReply (Except String Bool) :=
  Prog.issue (Await.expire key ttl)

abbrev get (key : String) : Prog Await AwaitReply (Except String (Option String)) :=
  .cmd (.get key) fun r => .done (decodeResponse (raiseError r))

abbrev setex (key : String) (ttl : ℕ) (content : ByteArray) :
    Prog Await AwaitReply (Except String Unit) :=
  Prog.issue (Await.setex key ttl content)

abbrev hset (key : String) (fields : List (String × String)) :
    Prog Await AwaitReply (Except String ℕ) :=
  .cmd (.hset key fields) fun r => .done (raiseError r)

abbrev evalTokenBucket (key : String) (clock rate burst requested : ℚ) :
    Prog Await AwaitReply (Except String (Bool × ℤ)) :=
  .cmd (.tokenBucket key clock rate burst requested) fun r => .done (raiseError r)

/-- `ServiceClient.request`; a refusal by the circuit breaker is an error like any other. -/
abbrev upstream (request : UpstreamRequest) : Prog Await AwaitReply (Except String UpstreamResponse) :=
  Prog.issue (Await.upstream request)

/-! ### The effect of a command on Redis -/

section Exec

variable {now : ℚ} {s s' : Backends}

/-- The key that a command may write. -/
def Await.key? : Await → Option String
  | .incr key => some key
  | .expire key _ => some key
  | .get _ => none
  | .setex key _ _ => some key
  | .hset key _ => some key
  | .tokenBucket key _ _ _ _ => some key
  | .upstream _ => none

theorem exec_incr {key : String} {r : Except String ℤ}
    (h : (backends now).exec (.incr key) s = (s', r)) :
    r = incrValue (s.value? now key) ∧ ((∃ e, r = .error e ∧ s'.redis = s.redis) ∨
      ∃ n, r = .ok n ∧ s'.redis = s.redis.write now key (.counter n)) := by
  change s.incr now key = _ at h
  unfold Backends.incr at h
  split at h
  · next e heq =>
    obtain ⟨rfl, rfl⟩ := Prod.mk.inj h
    exact ⟨heq.symm, .inl ⟨e, rfl, rfl⟩⟩
  · next n heq =>
    obtain ⟨rfl, rfl⟩ := Prod.mk.inj h
    exact ⟨heq.symm, .inr ⟨n, rfl, rfl⟩⟩

theorem exec_expire {key : String} {ttl : ℕ} {r : Bool}
    (h : (backends now).exec (.expire key ttl) s = (s', r)) :
    s'.redis = s.redis.expire now key (now + ttl) := by
  obtain ⟨rfl, -⟩ := Prod.mk.inj h
  rfl

theorem exec_get {key : String} {r : Except String (Option ByteArray)}
    (h : (backends now).exec (.get key) s = (s', r)) : s' = s ∧ r = getValue (s.value? now key) := by
  obtain ⟨rfl, rfl⟩ := Prod.mk.inj h
  exact ⟨rfl, rfl⟩

theorem exec_setex {key : String} {ttl : ℕ} {content : ByteArray} {r : Unit}
    (h : (backends now).exec (.setex key ttl content) s = (s', r)) :
    s'.redis = s.redis.set key (.bytes content) (some (now + ttl)) := by
  obtain ⟨rfl, -⟩ := Prod.mk.inj h
  rfl

theorem exec_hset {key : String} {fields : List (String × String)} {r : Except String ℕ}
    (h : (backends now).exec (.hset key fields) s = (s', r)) :
    s'.redis = s.redis ∨ ∃ n v, r = .ok n ∧ s'.redis = s.redis.write now key v := by
  change s.hset now key fields = _ at h
  unfold Backends.hset at h
  split at h
  · obtain ⟨rfl, -⟩ := Prod.mk.inj h
    exact .inl rfl
  · obtain ⟨rfl, rfl⟩ := Prod.mk.inj h
    exact .inr ⟨_, _, rfl, rfl⟩

theorem exec_tokenBucket {key : String} {clock rate burst requested : ℚ}
    {r : Except String (Bool × ℤ)}
    (h : (backends now).exec (.tokenBucket key clock rate burst requested) s = (s', r)) :
    s'.redis = s.redis ∨ ∃ v, s'.redis = s.redis.set key v (some (now + 3600)) := by
  change s.tokenBucket now key clock rate burst requested = _ at h
  unfold Backends.tokenBucket at h
  split at h
  · obtain ⟨rfl, -⟩ := Prod.mk.inj h
    exact .inl rfl
  · split at h
    · obtain ⟨rfl, -⟩ := Prod.mk.inj h
      exact .inr ⟨_, rfl⟩
    · obtain ⟨rfl, -⟩ := Prod.mk.inj h
      exact .inl rfl

theorem exec_upstream {request : UpstreamRequest} {r : UpstreamResponse}
    (h : (backends now).exec (.upstream request) s = (s', r)) : s'.redis = s.redis := by
  obtain ⟨rfl, -⟩ := Prod.mk.inj h
  rfl

/-- **Frame.** A command leaves all other keys alone. -/
theorem entries_of_exec {c : Await} {r : AwaitReply c} (h : (backends now).exec c s = (s', r))
    {key : String} (hkey : c.key? ≠ some key) : s'.redis.entries key = s.redis.entries key := by
  cases c with
  | incr k =>
    have hne : key ≠ k := fun heq => hkey (congrArg some heq.symm)
    rcases (exec_incr h).2 with ⟨e, -, hredis⟩ | ⟨n, -, hredis⟩
    · rw [hredis]
    · rw [hredis]
      exact ExpiringStore.entries_write_of_ne _ hne
  | expire k ttl =>
    have hne : key ≠ k := fun heq => hkey (congrArg some heq.symm)
    rw [exec_expire h]
    exact ExpiringStore.entries_expire_of_ne hne
  | get k => rw [(exec_get h).1]
  | setex k ttl content =>
    have hne : key ≠ k := fun heq => hkey (congrArg some heq.symm)
    rw [exec_setex h]
    exact ExpiringStore.entries_set_of_ne _ _ hne
  | hset k fields =>
    have hne : key ≠ k := fun heq => hkey (congrArg some heq.symm)
    rcases exec_hset h with hredis | ⟨n, v, -, hredis⟩
    · rw [hredis]
    · rw [hredis]
      exact ExpiringStore.entries_write_of_ne _ hne
  | tokenBucket k clock rate burst requested =>
    have hne : key ≠ k := fun heq => hkey (congrArg some heq.symm)
    rcases exec_tokenBucket h with hredis | ⟨v, hredis⟩
    · rw [hredis]
    · rw [hredis]
      exact ExpiringStore.entries_set_of_ne _ _ hne
  | upstream request => rw [exec_upstream h]

end Exec

end Legacy

end TaxlienGateway
