import TaxlienGateway.Framework.Civil
import TaxlienGateway.Framework.JsonRoundTrip

/-!
# The worker models of the legacy gateway

`legacy/app/models/worker.py`: the pydantic models `ProxyInfo`, `WorkTask` and `ParcelResult`, with
what `model_dump_json` writes for a task (`WorkTask.modelDumpJson`) and what `json.loads` followed by
`WorkTask(**task_data)` reads back (`WorkTask.loads`).

A `dict` is the list of its items, and its values are JSON. A `datetime` has microseconds and may or may not
carry a UTC offset; its text is ISO 8601, without an offset if it has none.

Pydantic coerces: it takes the text `"3"` for the integer 3, and a number for a time. Which values it takes for an
`int` or a `datetime` is its own business, so `Pydantic` is a parameter of everything that validates, and
`Pydantic.Documented` says what is relied on. For the other declared types it takes one kind of JSON value each.
-/

namespace TaxlienGateway

open Framework

namespace Legacy

/-! ### datetime -/

/-- A Python `datetime`: microsecond resolution, `utcoffset` in minutes or `none` if naive. -/
structure Datetime where
  civil : Civil
  utcoffset : Option ℤ
  year_pos : 1 ≤ civil.year
  micro : civil.nano % 1000 = 0
  offset_lt : ∀ m ∈ utcoffset, m.natAbs < 24 * 60
  deriving DecidableEq

/-- A naive time, with microseconds. -/
def sampleDatetime : Datetime := ⟨sampleCivil, none, by decide, by decide, by decide⟩

/-- The offset of an aware `datetime`: `Z` for zero, else sign, hours and minutes. -/
def offsetChars (m : ℤ) : List Char :=
  if m = 0 then ['Z']
  else (if 0 < m then '+' else '-') ::
    (padChars 2 (m.natAbs / 60) ++ ':' :: padChars 2 (m.natAbs % 60))

/-- The microseconds, if there are any. -/
def fractionChars (nano : ℕ) : List Char :=
  if nano = 0 then [] else '.' :: padChars 6 (nano / 1000)

/-- The offset, if there is one. -/
def zoneChars : Option ℤ → List Char
  | none => []
  | some m => offsetChars m

/-- The ISO 8601 text of a `datetime`. -/
def Datetime.isoformat (d : Datetime) : String :=
  String.ofList (d.civil.dateTimeChars ++ (fractionChars d.civil.nano ++ zoneChars d.utcoffset))

/-- An optional offset and nothing after it, in minutes. -/
def readOffset : List Char → Option (Option ℤ)
  | [] => some none
  | cs => (readZone .rfc3339 cs).map fun s => some (s / 60)

/-- Reading an ISO 8601 text in the form of RFC 3339, except that the offset may be missing. -/
def Datetime.fromisoformat (s : String) : Option Datetime :=
  (readDateTime .rfc3339 s.toList).bind fun (t, cs) =>
    let (us, cs) := readFraction .rfc3339 6 cs
    (readOffset cs).bind fun offset =>
      if h : us * 1000 < 10 ^ 9 ∧ 1 ≤ t.year ∧ ∀ m ∈ offset, m.natAbs < 24 * 60 then
        some ⟨{ t with nano := us * 1000, nano_lt := h.1 }, offset, h.2.1,
          Nat.mul_mod_left us 1000, h.2.2⟩
      else none

/-! ### The models -/

/-- `ProxyInfo`. -/
structure ProxyInfo where
  host : String
  port : ℤ
  type : String
  username : Option String
  password : Option String
  expires_at : Option Datetime

/-- `WorkTask`, with a target of JSON values. -/
structure WorkTask where
  task_id : String
  type : String
  platform : String
  target : List (String × Json)
  priority : ℤ
  proxy : Option ProxyInfo
  created_at : Datetime

/-- `ParcelResult`, the fields that are stored or used to complete the task. -/
structure ParcelResult where
  task_id : String
  parcel_id : String
  platform : String
  state : String
  county : String
  data : List (String × Json)
  scraped_at : Datetime

/-! ### Writing -/

def optStr : Option String → Json
  | none => .null
  | some s => .str s

def ProxyInfo.modelDump (p : ProxyInfo) : Json :=
  .obj [("host", .str p.host), ("port", .num (.ofInt p.port)), ("type", .str p.type),
    ("username", optStr p.username), ("password", optStr p.password),
    ("expires_at", optStr (p.expires_at.map Datetime.isoformat))]

def dumpProxy : Option ProxyInfo → Json
  | none => .null
  | some p => p.modelDump

/-- The members of a dumped task, in the order of the model's fields. -/
def WorkTask.modelDump (t : WorkTask) : Json :=
  .obj [("task_id", .str t.task_id), ("type", .str t.type), ("platform", .str t.platform),
    ("target", .obj t.target), ("priority", .num (.ofInt t.priority)),
    ("proxy", dumpProxy t.proxy),
    ("created_at", .str t.created_at.isoformat)]

/-- `task.model_dump_json()`. -/
def WorkTask.modelDumpJson (t : WorkTask) : String := t.modelDump.render Json.minimalEscape

/-! ### Reading -/

/-- The constants `NaN`, `Infinity` and `-Infinity` outside of strings, replaced by `null`. -/
def withoutConstants : Bool → List Char → List Char
  | _, [] => []
  | true, '\\' :: c :: cs => '\\' :: c :: withoutConstants true cs
  | inString, '"' :: cs => '"' :: withoutConstants (!inString) cs
  | false, 'N' :: 'a' :: 'N' :: cs => "null".toList ++ withoutConstants false cs
  | false, '-' :: 'I' :: 'n' :: 'f' :: 'i' :: 'n' :: 'i' :: 't' :: 'y' :: cs =>
    "null".toList ++ withoutConstants false cs
  | false, 'I' :: 'n' :: 'f' :: 'i' :: 'n' :: 'i' :: 't' :: 'y' :: cs =>
    "null".toList ++ withoutConstants false cs
  | inString, c :: cs => c :: withoutConstants inString cs

/-- `json.loads`, which reads these constants as well as JSON. They are no text, no object and no task
id, like `null`. `model_dump_json` never writes them. -/
def jsonLoads (raw : String) : Option Json :=
  (Json.parse raw).or (Json.parse (String.ofList (withoutConstants false raw.toList)))

/-- `d.get(name)`: the last item of this name counts. -/
def getItem (members : List (String × Json)) (name : String) : Option Json :=
  (members.reverse.find? fun m => m.1 == name).map Prod.snd

def asStr : Json → Option String
  | .str s => some s
  | _ => none

def asDict : Json → Option (List (String × Json))
  | .obj members => some members
  | _ => none

/-- How pydantic validates the declared types that it takes several kinds of JSON value for. -/
structure Pydantic where
  int : Json → Option ℤ
  datetime : Json → Option Datetime

/-- What is documented of it: an integer is itself, a `datetime` is read back from its text, and a text of
RFC 3339 is the time that it says, if Python has this time. -/
structure Pydantic.Documented (pydantic : Pydantic) : Prop where
  int_ofInt : ∀ n, pydantic.int (.num (.ofInt n)) = some n
  datetime_isoformat : ∀ d : Datetime, pydantic.datetime (.str d.isoformat) = some d
  datetime_rfc3339 : ∀ s, (readInstant .rfc3339 s.toList).isSome →
    pydantic.datetime (.str s) = Datetime.fromisoformat s

def asInt : Json → Option ℤ
  | .num l => l.toInt?
  | _ => none

def asDatetime : Json → Option Datetime
  | .str s => Datetime.fromisoformat s
  | _ => none

/-- Without any coercion. -/
def Pydantic.strict : Pydantic := ⟨asInt, asDatetime⟩

/-- A field declared `Optional[...] = None`. -/
def optionalField {α : Type} (read : Json → Option α) : Option Json → Option (Option α)
  | none => some none
  | some .null => some none
  | some v => (read v).map some

/-- A field with a default. -/
def defaultField {α : Type} (read : Json → Option α) (default : α) : Option Json → Option α
  | none => some default
  | some v => read v

/-- `ProxyInfo(**d)` -/
def ProxyInfo.validate (pydantic : Pydantic) (v : Json) : Option ProxyInfo := do
  let d ← asDict v
  let host ← (← getItem d "host") |> asStr
  let port ← (← getItem d "port") |> pydantic.int
  let type ← defaultField asStr "socks5" (getItem d "type")
  let username ← optionalField asStr (getItem d "username")
  let password ← optionalField asStr (getItem d "password")
  let expires_at ← optionalField pydantic.datetime (getItem d "expires_at")
  some { host, port, type, username, password, expires_at }

/-- `WorkTask(**d)`; `now` is what the default factory of `created_at` returns. -/
def WorkTask.validate (pydantic : Pydantic) (now : Datetime) (d : List (String × Json)) : Option WorkTask := do
  let task_id ← (← getItem d "task_id") |> asStr
  let type ← defaultField asStr "scrape" (getItem d "type")
  let platform ← (← getItem d "platform") |> asStr
  let target ← (← getItem d "target") |> asDict
  let priority ← defaultField pydantic.int 3 (getItem d "priority")
  let proxy ← optionalField (ProxyInfo.validate pydantic) (getItem d "proxy")
  let created_at ← defaultField pydantic.datetime now (getItem d "created_at")
  some { task_id, type, platform, target, priority, proxy, created_at }

/-- `task_data = json.loads(raw_task); WorkTask(**task_data)`; `none` is an exception. -/
def WorkTask.loads (pydantic : Pydantic) (now : Datetime) (raw : String) : Option WorkTask :=
  (jsonLoads raw).bind fun v => (asDict v).bind (WorkTask.validate pydantic now)

end Legacy

end TaxlienGateway
