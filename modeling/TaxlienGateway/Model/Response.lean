import TaxlienGateway.Framework.JsonRoundTrip
import TaxlienGateway.Framework.Timestamp
import TaxlienGateway.Model.Task

/-!
# What the Go gateway answers

The response of `GET /internal/work` from `internal/model/task.go`, and the text that
`json.NewEncoder(w).Encode` makes of a response. A slice that nothing was ever appended to is nil, and
`encoding/json` writes it as `null`. A time whose offset is a day or more, which `time.Time` reads, cannot be
written, and then nothing is.

`WorkTask` keeps an instant, but a `time.Time` is written in the zone it was read with. A `ZonedTask`
remembers this zone; `createdAt_of_unmarshalTask` says that it is no other time.
-/

namespace TaxlienGateway

open Framework

namespace Model

/-! ### The zone of a decoded time -/

/-- The zero `time.Time`, in UTC. -/
def zeroTime : Zoned where
  civil := ⟨1, 1, 1, 0, 0, 0, 0, by decide, by decide, by decide, by decide, by decide, by decide,
    nano_zero_lt⟩
  offset := 0

/-- `unmarshalTime`, with the zone. -/
def unmarshalZoned (old : Zoned) : Json → Option Zoned
  | .str s => readZoned timeSyntax s.toList
  | .null => some old
  | _ => none

/-- What one member makes of `CreatedAt`, as long as it can be decoded. -/
def setCreatedAt (old : Zoned) (name : String) (v : Json) : Zoned :=
  if isField "created_at" name then (unmarshalZoned old v).getD old else old

/-- `CreatedAt` after decoding a payload. -/
def createdAtOf (raw : String) : Zoned :=
  match Json.parse raw with
  | some (.obj members) => members.foldl (fun z m => setCreatedAt z m.1 m.2) zeroTime
  | _ => zeroTime

theorem unmarshalTime_instant (old : Zoned) (v : Json) :
    unmarshalTime old.instant v = (unmarshalZoned old v).map Zoned.instant := by
  cases v with
  | str s => exact readInstant_eq timeSyntax s.toList
  | null => rfl
  | bool b => rfl
  | num l => rfl
  | arr xs => rfl
  | obj members => rfl

/-- A name selects one field at most. -/
theorem isField_inj {field field' name : String} (h : isField field name = true)
    (h' : isField field' name = true) : field.toList.map foldRune = field'.toList.map foldRune :=
  (eq_of_beq h).symm.trans (eq_of_beq h')

/-- One member keeps instant and zone together. -/
theorem createdAt_setField {t t' : WorkTask} {z : Zoned} {name : String} {v : Json}
    (hz : t.createdAt = z.instant) (h : t.setField name v = some t') :
    t'.createdAt = (setCreatedAt z name v).instant := by
  unfold setCreatedAt
  cases hname : isField "created_at" name with
  | true =>
    -- then no other field is selected
    have hne : ∀ {field : String}, field.toList.map foldRune ≠ "created_at".toList.map foldRune →
        isField field name = false := by
      intro field hne
      rw [← Bool.not_eq_true]
      exact fun hfield => hne (isField_inj hfield hname)
    unfold WorkTask.setField at h
    rw [hne (by decide), hne (by decide), hne (by decide), hne (by decide), hne (by decide), hname,
      if_neg Bool.false_ne_true, if_neg Bool.false_ne_true, if_neg Bool.false_ne_true,
      if_neg Bool.false_ne_true, if_neg Bool.false_ne_true, if_pos rfl, hz,
      unmarshalTime_instant] at h
    obtain ⟨x, hx, rfl⟩ := Option.map_eq_some_iff.mp h
    obtain ⟨z', hz', rfl⟩ := Option.map_eq_some_iff.mp hx
    rw [hz', if_pos rfl]
    rfl
  | false =>
    rw [if_neg Bool.false_ne_true, ← hz]
    unfold WorkTask.setField at h
    rw [hname, if_neg Bool.false_ne_true] at h
    split_ifs at h
    all_goals first
      | obtain rfl := Option.some.inj h; rfl
      | obtain ⟨x, -, rfl⟩ := Option.map_eq_some_iff.mp h; rfl

/-- **The zone belongs to the instant.** -/
theorem createdAt_of_unmarshalTask {raw : String} {t : WorkTask} (h : unmarshalTask raw = some t) :
    t.createdAt = (createdAtOf raw).instant := by
  have fold : ∀ (members : List (String × Json)) (t' : WorkTask) (z : Zoned),
      t'.createdAt = z.instant →
      members.foldlM (fun (t : WorkTask) (m : String × Json) => t.setField m.1 m.2) t' = some t →
      t.createdAt = (members.foldl (fun z m => setCreatedAt z m.1 m.2) z).instant := by
    intro members
    induction members with
    | nil =>
      intro t' z hz ht
      obtain rfl : t' = t := Option.some.inj ht
      exact hz
    | cons m members ih =>
      intro t' z hz ht
      rw [List.foldlM_cons] at ht
      obtain ⟨t'', hstep, hrest⟩ := Option.bind_eq_some_iff.mp ht
      rw [List.foldl_cons]
      -- both folds take the same members, one after the other
      exact ih t'' _ (createdAt_setField hz hstep) hrest
  have hzero : WorkTask.zero.createdAt = zeroTime.instant := by decide
  obtain ⟨v, hv, ht⟩ := Option.bind_eq_some_iff.mp h
  unfold createdAtOf
  rw [hv]
  cases v with
  | obj members => exact fold members _ _ hzero ht
  | null =>
    obtain rfl : WorkTask.zero = t := Option.some.inj ht
    exact hzero
  | bool b => exact absurd ht (by simp [WorkTask.unmarshal])
  | num l => exact absurd ht (by simp [WorkTask.unmarshal])
  | str s => exact absurd ht (by simp [WorkTask.unmarshal])
  | arr xs => exact absurd ht (by simp [WorkTask.unmarshal])

/-- A decoded task that still knows the zone of its `CreatedAt`. -/
structure ZonedTask where
  task : WorkTask
  createdAt : Zoned
  same : task.createdAt = createdAt.instant

/-! ### Encoding -/

/-- `json.NewEncoder(w).Encode(v)`: the compact text, safe for HTML, and a line feed. -/
def encode (v : Json) : String := v.render Json.htmlEscape ++ "\n"

/-- A slice that is nil until the first append. -/
def marshalSlice : List Json → Json
  | [] => .null
  | x :: xs => .arr (x :: xs)

/-- `json:"url,omitempty"` leaves out an empty text. -/
def Target.marshal (t : Target) : Json :=
  .obj ([("parcel_id", .str t.parcelID), ("state", .str t.state), ("county", .str t.county)] ++
    if t.url = "" then [] else [("url", .str t.url)])

/-- `time.Time.MarshalJSON`; `none` is an error. -/
def marshalTime (z : Zoned) : Option Json := if z.WithinDay then some (.str z.rfc3339Nano) else none

def ZonedTask.marshal (t : ZonedTask) : Option Json :=
  (marshalTime t.createdAt).map fun createdAt =>
    .obj [("task_id", .str t.task.taskID), ("type", .str t.task.type),
      ("platform", .str t.task.platform), ("target", t.task.target.marshal),
      ("priority", .num (.ofInt t.task.priority)), ("created_at", createdAt)]

/-- `model.WorkResponse`. -/
structure WorkResponse where
  tasks : List ZonedTask
  retryAfter : ℤ

def WorkResponse.marshal (resp : WorkResponse) : Option Json :=
  (resp.tasks.mapM ZonedTask.marshal).map fun tasks =>
    .obj [("tasks", marshalSlice tasks), ("retry_after", .num (.ofInt resp.retryAfter))]

/-- What `Encode` writes of a value that may have no text: all of it, or nothing. Its error is dropped. -/
def encodeOrNothing (v : Option Json) : String := (v.map encode).getD ""

/-- `2026-02-03T04:05:06+24:00` is read, and cannot be written. -/
example : ((unmarshalZoned zeroTime (.str "2026-02-03T04:05:06+24:00")).map marshalTime).isSome = true ∧
    ((unmarshalZoned zeroTime (.str "2026-02-03T04:05:06+24:00")).bind marshalTime).isNone = true := by
  decide +kernel

end Model

end TaxlienGateway
