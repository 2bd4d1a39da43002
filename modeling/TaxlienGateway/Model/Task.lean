import TaxlienGateway.Framework.Civil
import TaxlienGateway.Framework.Json

/-!
# The task model of the Go gateway

`internal/model/task.go` and what `json.Unmarshal` makes of a payload for these types.

`encoding/json` decodes into the value it is given: a member whose name matches a field, up to
letter case, overwrites the field; other members are ignored; `null` leaves a field as it is; and
any value of the wrong kind makes the whole call fail. A `time.Time` reads a string in RFC 3339,
which carries a zone, and lets some more pass (`timeSyntax`). Times are kept as instants, in nanoseconds since
the zero `time.Time`.

Timestamps are matched after unescaping; `time.Time` looks at the raw literal, which differs only
for timestamps written with escapes.
-/

namespace TaxlienGateway

open Framework

namespace Model

/-- `model.Target`. -/
structure Target where
  parcelID : String
  state : String
  county : String
  url : String
  deriving DecidableEq

/-- `model.WorkTask`. -/
structure WorkTask where
  taskID : String
  type : String
  platform : String
  target : Target
  priority : ℤ
  createdAt : ℤ
  deriving DecidableEq

/-- `model.ParcelResult`, the fields that are stored or used to complete the task. A nil `Data` map
is `Json.null`. -/
structure ParcelResult where
  taskID : String
  parcelID : String
  platform : String
  state : String
  county : String
  data : Json
  scrapedAt : ℤ

/-- The zero values that decoding starts from. -/
def Target.zero : Target := ⟨"", "", "", ""⟩

def WorkTask.zero : WorkTask := ⟨"", "", "", .zero, 0, 0⟩

/-! ### Decoding -/

/-- Case folding of one character of a member name, as far as it can yield an ASCII letter. -/
def foldRune (c : Char) : Char :=
  if 'a' ≤ c ∧ c ≤ 'z' then c.toUpper
  else if c = '\u017f' then 'S'
  else if c = '\u212a' then 'K'
  else c

/-- Does a member name select the field of this name? -/
def isField (field name : String) : Bool :=
  name.toList.map foldRune == field.toList.map foldRune

def unmarshalString (old : String) : Json → Option String
  | .str s => some s
  | .null => some old
  | _ => none

/-- A Go `int`: an integer literal in the 64-bit range. -/
def unmarshalInt (old : ℤ) : Json → Option ℤ
  | .num l => l.toInt?.bind fun n => if -2 ^ 63 ≤ n ∧ n < 2 ^ 63 then some n else none
  | .null => some old
  | _ => none

/-- What `time.Parse` takes for `time.RFC3339`: an hour may have one digit, a fraction may follow a comma, and an
offset may have 24 hours and 60 minutes. -/
def timeSyntax : TimeSyntax := ⟨true, true, 24, 60, by decide, by decide⟩

/-- `time.Time.UnmarshalJSON`. -/
def unmarshalTime (old : ℤ) : Json → Option ℤ
  | .str s => readInstant timeSyntax s.toList
  | .null => some old
  | _ => none

def Target.setField (t : Target) (name : String) (v : Json) : Option Target :=
  if isField "parcel_id" name then
    (unmarshalString t.parcelID v).map fun s => { t with parcelID := s }
  else if isField "state" name then (unmarshalString t.state v).map fun s => { t with state := s }
  else if isField "county" name then
    (unmarshalString t.county v).map fun s => { t with county := s }
  else if isField "url" name then (unmarshalString t.url v).map fun s => { t with url := s }
  else some t

def Target.unmarshal (t : Target) : Json → Option Target
  | .obj members => members.foldlM (fun t m => t.setField m.1 m.2) t
  | .null => some t
  | _ => none

def WorkTask.setField (t : WorkTask) (name : String) (v : Json) : Option WorkTask :=
  if isField "task_id" name then (unmarshalString t.taskID v).map fun s => { t with taskID := s }
  else if isField "type" name then (unmarshalString t.type v).map fun s => { t with type := s }
  else if isField "platform" name then
    (unmarshalString t.platform v).map fun s => { t with platform := s }
  else if isField "target" name then (t.target.unmarshal v).map fun x => { t with target := x }
  else if isField "priority" name then
    (unmarshalInt t.priority v).map fun n => { t with priority := n }
  else if isField "created_at" name then
    (unmarshalTime t.createdAt v).map fun x => { t with createdAt := x }
  else some t

def WorkTask.unmarshal (t : WorkTask) : Json → Option WorkTask
  | .obj members => members.foldlM (fun t m => t.setField m.1 m.2) t
  | .null => some t
  | _ => none

/-- `var t model.WorkTask; err := json.Unmarshal([]byte(raw), &t)`; `none` is an error. -/
def unmarshalTask (raw : String) : Option WorkTask :=
  (Json.parse raw).bind WorkTask.zero.unmarshal

end Model

end TaxlienGateway
