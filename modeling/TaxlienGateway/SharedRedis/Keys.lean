import TaxlienGateway.Legacy.PropertyCache
import TaxlienGateway.Service.WorkerRegistry

/-!
# The keys of the shared Redis

Both gateways keep their queues, counters, buckets and caches in one Redis. The keys are joined with colons
from texts that clients choose, and nothing is escaped. There are six constructors of keys (`RedisKey`). Each
has a first field of its own, and one field at most that may hold a colon: the platform, the id of a worker,
a user or a parcel, or the identifier of a caller. So they form a `KeySpace`, and
`keys_do_not_collide`.
-/

namespace TaxlienGateway

open Framework Legacy

/-! ### The constructors -/

/-- A feature that `TIER_LIMITS` names. -/
abbrev TierFeature : Type :=
  { feature : String // ∃ entry ∈ tierLimits, feature ∈ entry.2.map Prod.fst }

theorem TierFeature.colon_notMem (feature : TierFeature) : ':' ∉ feature.1.toList := by
  obtain ⟨feature, entry, hentry, hfeature⟩ := feature
  have hall : ∀ entry ∈ tierLimits, ∀ name ∈ entry.2.map Prod.fst, ':' ∉ name.toList := by decide
  exact hall entry hentry feature hfeature

/-- A key, as the function that builds it and its arguments. -/
inductive RedisKey where
  /-- `queueKey` -/
  | queue (platform : String) (priority : ℤ)
  /-- `processingKey` -/
  | processing (workerID : String)
  /-- `workerKey` -/
  | worker (workerID : String)
  /-- `UsageTracker._get_key`, on the day `today` -/
  | usage (user_id : String) (feature : TierFeature) (today : Date)
  /-- `cache_key` of `get_property` -/
  | cache (parcel_id : String) (tier : UserTier)
  /-- `key` of `is_rate_limited` -/
  | bucket (identifier : String) (tier : UserTier)

namespace RedisKey

/-- The key itself. -/
def text : RedisKey → String
  | queue platform priority => queueKey platform priority
  | processing workerID => processingKey workerID
  | worker workerID => workerKey workerID
  | usage user_id feature today => Tally.key ⟨user_id, feature.1, today⟩
  | cache parcel_id tier => cacheKey parcel_id tier
  | bucket identifier tier => rateLimitKey identifier tier.value

end RedisKey

/-! ### Their fields -/

/-- The fields of the key of a worker. -/
def workerFields (workerID : String) : Fields ':' where
  before := ["worker".toList]
  free := workerID.toList
  after := ["status".toList]
  noSep_before := by decide
  noSep_after := by decide

theorem text_workerFields (w : String) : (workerFields w).text = (workerKey w).toList := by
  simp [Fields.text, workerFields, workerKey]

/-- The fields of the key of a bucket. The identifier of the caller is free, since the tier in front of it
has no colon. -/
def bucketFields (identifier : String) (tier : UserTier) : Fields ':' :=
  .freeLast ["ratelimit".toList, tier.value.toList] identifier.toList (by
    rw [List.forall_mem_cons, List.forall_mem_singleton]
    exact ⟨by decide, tier.colon_notMem_value⟩)

theorem text_bucketFields (identifier : String) (tier : UserTier) :
    (bucketFields identifier tier).text = (rateLimitKey identifier tier.value).toList := by
  simp [Fields.text, Fields.freeLast, bucketFields, rateLimitKey]

theorem bucketFields_inj {identifier identifier' : String} {tier tier' : UserTier}
    (h : bucketFields identifier tier = bucketFields identifier' tier') :
    identifier = identifier' ∧ tier = tier' := by
  have htier := List.singleton_inj.mp (List.cons.inj (congrArg Fields.before h)).2
  exact ⟨String.toList_inj.mp (congrArg Fields.free h), UserTier.value_inj (String.toList_inj.mp htier)⟩

/-- The constructors, without their arguments. -/
inductive KeyKind where
  | queue
  | processing
  | worker
  | usage
  | cache
  | bucket
  deriving DecidableEq

/-- The first field. -/
def KeyKind.tag : KeyKind → String
  | queue => "queue"
  | processing => "processing"
  | worker => "worker"
  | usage => "usage"
  | cache => "cache"
  | bucket => "ratelimit"

theorem KeyKind.tag_inj {kind kind' : KeyKind} (h : kind.tag = kind'.tag) : kind = kind' := by
  revert h
  cases kind <;> cases kind' <;> decide

/-- The key space of the shared Redis. -/
def redisKeys : KeySpace ':' KeyKind where
  tag kind := kind.tag.toList
  before
    | .cache => 2
    | .bucket => 2
    | _ => 1
  after
    | .processing => 0
    | .bucket => 0
    | .usage => 2
    | _ => 1
  tag_injective := fun _ _ h => KeyKind.tag_inj (String.toList_inj.mp h)

namespace RedisKey

/-- The constructor of a key. -/
def kind : RedisKey → KeyKind
  | queue _ _ => .queue
  | processing _ => .processing
  | worker _ => .worker
  | usage _ _ _ => .usage
  | cache _ _ => .cache
  | bucket _ _ => .bucket

/-- The fields of a key. -/
def fields : RedisKey → Fields ':'
  | queue platform priority => queueFields platform priority
  | processing workerID => processingFields workerID
  | worker workerID => workerFields workerID
  | usage user_id feature today => Tally.fields ⟨user_id, feature.1, today⟩ feature.colon_notMem
  | cache parcel_id tier => cacheFields parcel_id tier
  | bucket identifier tier => bucketFields identifier tier

/-- **The text of a key** is joined from its fields. -/
theorem text_fields (key : RedisKey) : key.fields.text = key.text.toList := by
  cases key with
  | queue platform priority => exact text_queueFields platform priority
  | processing workerID => exact text_processingFields workerID
  | worker workerID => exact text_workerFields workerID
  | usage user_id feature today => exact Tally.text_fields _ feature.colon_notMem
  | cache parcel_id tier => exact text_cacheFields parcel_id tier
  | bucket identifier tier => exact text_bucketFields identifier tier

/-- The first field tells the constructor. -/
theorem head?_fields (key : RedisKey) : key.fields.before.head? = some key.kind.tag.toList := by
  cases key <;> rfl

/-- A key in the key space. -/
def inSpace (key : RedisKey) : redisKeys.Key where
  kind := key.kind
  fields := key.fields
  head?_before := key.head?_fields
  length_before := by cases key <;> rfl
  length_after := by cases key <;> rfl

/-- **The constructor and the fields of a key** determine its arguments. -/
theorem inSpace_injective : Function.Injective inSpace := by
  intro key key' h
  have hkind : key.kind = key'.kind := congrArg KeySpace.Key.kind h
  have hfields : key.fields = key'.fields := congrArg KeySpace.Key.fields h
  -- the kinds agree, and within a kind the fields decide
  cases key with
  | queue platform priority =>
    cases key' with
    | queue platform' priority' =>
      obtain ⟨rfl, rfl⟩ := queueFields_inj hfields
      rfl
    | _ => exact absurd hkind (by simp [kind])
  | processing workerID =>
    cases key' with
    | processing workerID' =>
      obtain rfl := processingFields_inj hfields
      rfl
    | _ => exact absurd hkind (by simp [kind])
  | worker workerID =>
    cases key' with
    | worker workerID' =>
      obtain rfl := String.toList_inj.mp (congrArg Fields.free hfields)
      rfl
    | _ => exact absurd hkind (by simp [kind])
  | usage user_id feature today =>
    cases key' with
    | usage user_id' feature' today' =>
      have hfields : Tally.fields ⟨user_id, feature.1, today⟩ feature.colon_notMem =
          Tally.fields ⟨user_id', feature'.1, today'⟩ feature'.colon_notMem := hfields
      obtain ⟨rfl, hfeature, rfl⟩ := Tally.mk.inj (Tally.fields_inj hfields)
      obtain rfl := Subtype.ext hfeature
      rfl
    | _ => exact absurd hkind (by simp [kind])
  | cache parcel_id tier =>
    cases key' with
    | cache parcel_id' tier' =>
      obtain ⟨rfl, rfl⟩ := cacheFields_inj hfields
      rfl
    | _ => exact absurd hkind (by simp [kind])
  | bucket identifier tier =>
    cases key' with
    | bucket identifier' tier' =>
      obtain ⟨rfl, rfl⟩ := bucketFields_inj hfields
      rfl
    | _ => exact absurd hkind (by simp [kind])

end RedisKey

/-- **Keys do not collide.** Two keys are equal only if the same function has built them from the same
arguments, whatever characters the clients' texts have. -/
theorem keys_do_not_collide : Function.Injective RedisKey.text := by
  intro key key' h
  have htext : key.inSpace.fields.text = key'.inSpace.fields.text := by
    calc key.fields.text = key.text.toList := key.text_fields
      _ = key'.text.toList := by rw [h]
      _ = key'.fields.text := key'.text_fields.symm
  exact RedisKey.inSpace_injective (redisKeys.text_injective htext)

/-- A tier that is no `UserTier` could move the border between the tier and the identifier. -/
example : rateLimitKey "10.0.0.1" "free:x" = rateLimitKey "x:10.0.0.1" "free" := by decide

end TaxlienGateway
