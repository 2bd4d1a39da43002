import TaxlienGateway.Handler.Results
import TaxlienGateway.Handler.Work
import TaxlienGateway.Legacy.WireFormat

/-!
# The responses that workers expect

Workers read the answers of the gateway with the pydantic models `WorkResponse` and `SubmitResponse` of
`legacy/app/models/worker.py`. The Go gateway writes a slice that nothing was appended to as `null`, and
`null` is no list. If the time of a task cannot be written, it answers with status 200 and no text at all.

* `Datetime.fromisoformat_rfc3339Nano` — a worker reads the time of a task to the microsecond, unless it
  is in the year 0, which Python does not have;
* `decodesWork_iff`, `decodesSubmit_iff` — which responses a worker can read;
* `responses_decode_iff` — for which answers of Redis and the database the handlers write such a response.
-/

namespace TaxlienGateway

open Framework

namespace Legacy

/-! ### The models on the side of the worker -/

/-- `WorkResponse`. -/
structure Client.WorkResponse where
  tasks : List WorkTask
  retry_after : ℤ

/-- `SubmitResponse`. -/
structure Client.SubmitResponse where
  inserted : ℤ
  updated : ℤ
  failed : ℤ
  errors : List String

/-- A field declared `List[...]`. -/
def asList {α : Type} (read : Json → Option α) : Json → Option (List α)
  | .arr xs => xs.mapM read
  | _ => none

section Validate

variable (pydantic : Pydantic)

def Client.WorkResponse.validate (now : Datetime) (d : List (String × Json)) : Option Client.WorkResponse := do
  let tasks ← (← getItem d "tasks") |> asList fun v => (asDict v).bind (WorkTask.validate pydantic now)
  let retry_after ← defaultField pydantic.int 30 (getItem d "retry_after")
  some { tasks, retry_after }

def Client.SubmitResponse.validate (d : List (String × Json)) : Option Client.SubmitResponse := do
  let inserted ← (← getItem d "inserted") |> pydantic.int
  let updated ← (← getItem d "updated") |> pydantic.int
  let failed ← (← getItem d "failed") |> pydantic.int
  let errors ← defaultField (asList asStr) [] (getItem d "errors")
  some { inserted, updated, failed, errors }

/-- `WorkResponse(**json.loads(body))`; `none` is an exception. -/
def Client.WorkResponse.loads (now : Datetime) (body : String) : Option Client.WorkResponse :=
  (jsonLoads body).bind fun v => (asDict v).bind (Client.WorkResponse.validate pydantic now)

/-- `SubmitResponse(**json.loads(body))`. -/
def Client.SubmitResponse.loads (body : String) : Option Client.SubmitResponse :=
  (jsonLoads body).bind fun v => (asDict v).bind (Client.SubmitResponse.validate pydantic)

/-- The worker accepts the body, and has the same counts and errors. -/
def DecodesSubmit (resp : TaxlienGateway.SubmitResponse) : Prop :=
  ∃ d, Client.SubmitResponse.loads pydantic resp.body = some d ∧ d.inserted = resp.inserted ∧
    d.updated = resp.updated ∧ d.failed = resp.failed ∧ d.errors = resp.errors

end Validate

/-! ### Reading a task -/

/-- A zoned time to the microsecond. -/
def Datetime.ofZoned (z : Zoned) (hday : z.WithinDay) (h : 1 ≤ z.civil.year) : Datetime where
  civil := { z.civil with
    nano := z.civil.nano / 1000 * 1000
    nano_lt := (Nat.div_mul_le_self _ _).trans_lt z.civil.nano_lt }
  utcoffset := some z.offset
  year_pos := h
  micro := Nat.mul_mod_left _ _
  offset_lt := by
    rintro m ⟨⟩
    exact hday

/-- **A time in the layout of Go**, as Python reads it. -/
theorem Datetime.fromisoformat_rfc3339Nano (z : Zoned) (hday : z.WithinDay) :
    Datetime.fromisoformat z.rfc3339Nano =
      if h : 1 ≤ z.civil.year then some (Datetime.ofZoned z hday h) else none := by
  obtain ⟨t, m⟩ := z
  have hm : m.natAbs < 24 * 60 := hday
  have hlt : t.nano / 1000 * 1000 < 10 ^ 9 := (Nat.div_mul_le_self _ _).trans_lt t.nano_lt
  have hfraction := readFraction_nanoFraction .rfc3339 (show 6 ≤ 9 by decide) t.nano_lt (endsFraction_zoneText m)
  have hoffset : readOffset (zoneText m) = some (some m) :=
    readOffset_zoneChars (o := some m) fun m' hm' => Option.some.inj hm' ▸ hm
  unfold Datetime.fromisoformat Zoned.rfc3339Nano
  simp only [String.toList_ofList, readDateTime_append, Option.bind_some, hfraction, hoffset]
  by_cases hyear : 1 ≤ t.year
  · have hall : t.nano / 10 ^ (9 - 6) * 1000 < 10 ^ 9 ∧ 1 ≤ t.truncate.year ∧
        ∀ m' ∈ some m, m'.natAbs < 24 * 60 :=
      ⟨hlt, hyear, fun m' hm' => Option.some.inj hm' ▸ hm⟩
    rw [dif_pos hall, dif_pos hyear]
    rfl
  · rw [dif_neg hyear, dif_neg fun hall => hyear hall.2.1]

/-- It is a text of RFC 3339. -/
theorem readInstant_rfc3339Nano (x : TimeSyntax) (z : Zoned) (hday : z.WithinDay) :
    (readInstant x z.rfc3339Nano.toList).isSome := by
  have hfraction := readFraction_nanoFraction x (le_refl 9) z.civil.nano_lt (endsFraction_zoneText z.offset)
  have hzone := readZone_zoneText x hday
  unfold readInstant Zoned.rfc3339Nano
  simp only [String.toList_ofList, readDateTime_append, Option.bind_some, hfraction, hzone]
  rfl

/-- The worker's task has the fields of the task that was sent. -/
structure Received (g : Model.ZonedTask) (t : WorkTask) : Prop where
  task_id : t.task_id = g.task.taskID
  type : t.type = g.task.type
  platform : t.platform = g.task.platform
  priority : t.priority = g.task.priority
  target : t.target = targetDict g.task.target.parcelID g.task.target.state g.task.target.county
    (if g.task.target.url = "" then none else some g.task.target.url)

theorem marshal_target (t : Model.Target) :
    t.marshal = .obj (targetDict t.parcelID t.state t.county (if t.url = "" then none else some t.url)) := by
  unfold Model.Target.marshal targetDict
  split_ifs <;> rfl

/-- The task as the worker has it, with a time. -/
def receive (g : Model.ZonedTask) (d : Datetime) : WorkTask where
  task_id := g.task.taskID
  type := g.task.type
  platform := g.task.platform
  target := targetDict g.task.target.parcelID g.task.target.state g.task.target.county
    (if g.task.target.url = "" then none else some g.task.target.url)
  priority := g.task.priority
  proxy := none
  created_at := d

theorem received_receive (g : Model.ZonedTask) (d : Datetime) : Received g (receive g d) :=
  ⟨rfl, rfl, rfl, rfl, rfl⟩

/-- The time of the task can be written, and read. -/
def Readable (z : Zoned) : Prop := z.WithinDay ∧ 1 ≤ z.civil.year

section Read

variable (pydantic : Pydantic) (hpydantic : pydantic.Documented) (now : Datetime)

/-- How an element of `tasks` is read. -/
def readTask (v : Json) : Option WorkTask := (asDict v).bind (WorkTask.validate pydantic now)

include hpydantic

/-- Only the time of a task can fail. -/
theorem readTask_marshal (g : Model.ZonedTask) (v : Json) (hv : g.marshal = some v) :
    readTask pydantic now v =
      (Datetime.fromisoformat g.createdAt.rfc3339Nano).map (receive g) := by
  obtain ⟨createdAt, hcreatedAt, rfl⟩ := Option.map_eq_some_iff.mp hv
  unfold Model.marshalTime at hcreatedAt
  split at hcreatedAt
  · next hday =>
    obtain rfl := Option.some.inj hcreatedAt
    have htime := hpydantic.datetime_rfc3339 _ (readInstant_rfc3339Nano .rfc3339 g.createdAt hday)
    unfold readTask
    rw [marshal_target]
    -- each field is found under its own name
    simp [WorkTask.validate, asDict, getItem, asStr, defaultField, optionalField, hpydantic.int_ofInt, htime]
    cases Datetime.fromisoformat g.createdAt.rfc3339Nano with
    | none => rfl
    | some d => rfl
  · exact absurd hcreatedAt (by simp)

/-- The tasks of a response, written and read one after the other. -/
theorem readTasks_iff (gs : List Model.ZonedTask) :
    (∃ vs ts, gs.mapM Model.ZonedTask.marshal = some vs ∧ vs.mapM (readTask pydantic now) = some ts ∧
      List.Forall₂ Received gs ts) ↔ ∀ g ∈ gs, Readable g.createdAt := by
  induction gs with
  | nil => exact ⟨fun _ g hg => absurd hg (by simp), fun _ => ⟨[], [], rfl, rfl, .nil⟩⟩
  | cons g gs ih =>
    rw [List.forall_mem_cons, ← ih]
    constructor
    · rintro ⟨vs, ts, hvs, hts, hreceived⟩
      -- the first task is written and read, and then the others are
      rw [List.mapM_cons] at hvs
      obtain ⟨v, hv, hvs⟩ := Option.bind_eq_some_iff.mp hvs
      obtain ⟨vs', hvs', hcons⟩ := Option.bind_eq_some_iff.mp hvs
      obtain rfl := Option.some.inj hcons
      rw [List.mapM_cons] at hts
      obtain ⟨t, ht, hts⟩ := Option.bind_eq_some_iff.mp hts
      obtain ⟨ts', hts', hcons⟩ := Option.bind_eq_some_iff.mp hts
      obtain rfl := Option.some.inj hcons
      refine ⟨?_, vs', ts', hvs', hts', (List.forall₂_cons.mp hreceived).2⟩
      have hday : g.createdAt.WithinDay := by
        by_contra hno
        simp [Model.ZonedTask.marshal, Model.marshalTime, hno] at hv
      rw [readTask_marshal pydantic hpydantic now g v hv, Datetime.fromisoformat_rfc3339Nano _ hday] at ht
      by_contra hno
      rw [dif_neg fun hyear => hno ⟨hday, hyear⟩] at ht
      exact absurd ht (by simp)
    · rintro ⟨⟨hday, hyear⟩, vs, ts, hvs, hts, hreceived⟩
      have hv : ∃ v, g.marshal = some v := by simp [Model.ZonedTask.marshal, Model.marshalTime, hday]
      obtain ⟨v, hv⟩ := hv
      have ht := readTask_marshal pydantic hpydantic now g v hv
      rw [Datetime.fromisoformat_rfc3339Nano _ hday, dif_pos hyear, Option.map_some] at ht
      refine ⟨v :: vs, receive g (Datetime.ofZoned g.createdAt hday hyear) :: ts, ?_, ?_,
        .cons (received_receive g _) hreceived⟩
      · rw [List.mapM_cons, hv, hvs]
        rfl
      · rw [List.mapM_cons, ht, hts]
        rfl

end Read

/-! ### Reading a response -/

/-- The text that Go writes is JSON. -/
theorem jsonLoads_encode (v : Json) : jsonLoads (Model.encode v) = some v := by
  unfold jsonLoads Model.encode
  rw [show ("\n" : String) = String.ofList ['\n'] from rfl,
    Json.parse_render_append Json.escapes_htmlEscape v rfl, Option.some_or]

/-- Nothing is no JSON. -/
theorem jsonLoads_empty : jsonLoads "" = none := rfl

section Decode

variable (pydantic : Pydantic) (hpydantic : pydantic.Documented) (now : Datetime)

/-- The worker accepts the body, and has the same tasks. -/
def DecodesWork (resp : Model.WorkResponse) : Prop :=
  ∃ d, Client.WorkResponse.loads pydantic now resp.body = some d ∧ List.Forall₂ Received resp.tasks d.tasks ∧
    d.retry_after = resp.retryAfter

include hpydantic

theorem loads_work (resp : Model.WorkResponse) :
    Client.WorkResponse.loads pydantic now resp.body =
      (resp.tasks.mapM Model.ZonedTask.marshal).bind fun vs =>
        (asList (readTask pydantic now) (Model.marshalSlice vs)).map fun ts => ⟨ts, resp.retryAfter⟩ := by
  unfold Client.WorkResponse.loads Model.WorkResponse.body Model.encodeOrNothing Model.WorkResponse.marshal
  cases resp.tasks.mapM Model.ZonedTask.marshal with
  | none =>
    -- nothing is written
    rw [Option.map_none, Option.map_none, Option.getD_none, jsonLoads_empty]
    rfl
  | some vs =>
    rw [Option.map_some, Option.map_some, Option.getD_some, jsonLoads_encode, Option.bind_some, Option.bind_some]
    generalize Model.marshalSlice vs = slice
    simp [asDict, Client.WorkResponse.validate, getItem, defaultField, hpydantic.int_ofInt]
    show (asList (readTask pydantic now) slice).bind _ = _
    cases asList (readTask pydantic now) slice with
    | none => rfl
    | some ts => rfl

/-- **Which work a worker can read**: a task at least, and none whose time cannot be written or read. -/
theorem decodesWork_iff (resp : Model.WorkResponse) :
    DecodesWork pydantic now resp ↔ resp.tasks ≠ [] ∧ ∀ g ∈ resp.tasks, Readable g.createdAt := by
  unfold DecodesWork
  rw [loads_work pydantic hpydantic, ← readTasks_iff pydantic hpydantic now]
  cases htasks : resp.tasks with
  | nil =>
    -- `null` is no list
    refine iff_of_false ?_ fun h => h.1 rfl
    rintro ⟨d, hd, -⟩
    exact absurd hd (by simp [Model.marshalSlice, asList])
  | cons g gs =>
    rw [and_iff_right (by simp)]
    -- what is written of a task at least is a list
    have hslice : ∀ vs, (g :: gs).mapM Model.ZonedTask.marshal = some vs → Model.marshalSlice vs = .arr vs := by
      rintro vs hvs
      cases vs with
      | nil =>
        rw [List.mapM_cons] at hvs
        obtain ⟨v, -, hvs⟩ := Option.bind_eq_some_iff.mp hvs
        obtain ⟨vs, -, hcons⟩ := Option.bind_eq_some_iff.mp hvs
        exact absurd hcons (by simp)
      | cons v vs => rfl
    constructor
    · rintro ⟨d, hd, hreceived, -⟩
      obtain ⟨vs, hvs, hd⟩ := Option.bind_eq_some_iff.mp hd
      obtain ⟨ts, hts, rfl⟩ := Option.map_eq_some_iff.mp hd
      rw [hslice vs hvs] at hts
      exact ⟨vs, ts, hvs, hts, hreceived⟩
    · rintro ⟨vs, ts, hvs, hts, hreceived⟩
      have hlist : asList (readTask pydantic now) (Model.marshalSlice vs) = some ts := by
        rw [hslice vs hvs]
        exact hts
      refine ⟨⟨ts, resp.retryAfter⟩, ?_, hreceived, rfl⟩
      rw [hvs, Option.bind_some, hlist]
      rfl

end Decode

theorem asList_asStr (errors : List String) : (errors.map Json.str).mapM asStr = some errors := by
  induction errors with
  | nil => rfl
  | cons e errors ih =>
    rw [List.map_cons, List.mapM_cons, ih]
    rfl

/-- **Which counts a worker can read**: those with an error at least. -/
theorem decodesSubmit_iff {pydantic : Pydantic} (hpydantic : pydantic.Documented)
    (resp : TaxlienGateway.SubmitResponse) : DecodesSubmit pydantic resp ↔ resp.errors ≠ [] := by
  have hloads : Client.SubmitResponse.loads pydantic resp.body =
      (asList asStr (Model.marshalSlice (resp.errors.map Json.str))).map fun errors =>
        ⟨resp.inserted, resp.updated, resp.failed, errors⟩ := by
    unfold Client.SubmitResponse.loads TaxlienGateway.SubmitResponse.body
    rw [jsonLoads_encode]
    generalize Model.marshalSlice (resp.errors.map Json.str) = slice
    rw [Option.bind_some]
    simp [asDict, Client.SubmitResponse.validate, getItem, defaultField, hpydantic.int_ofInt]
    cases asList asStr slice with
    | none => rfl
    | some errors => rfl
  unfold DecodesSubmit
  rw [hloads]
  cases herrors : resp.errors with
  | nil =>
    constructor
    · -- no errors are written as null, and null is no list
      rintro ⟨d, hd, -⟩
      exact absurd hd (by simp [Model.marshalSlice, asList])
    · exact fun h => absurd rfl h
  | cons e errors =>
    refine ⟨fun _ => by simp, fun _ => ?_⟩
    refine ⟨⟨resp.inserted, resp.updated, resp.failed, e :: errors⟩, ?_, rfl, rfl, rfl, rfl⟩
    show ((List.map Json.str (e :: errors)).mapM asStr).map _ = _
    rw [asList_asStr]
    rfl

/-! ### The handlers -/

/-- What was answered to `GetWork` lets it write a body that a worker can read, if it writes one at all: the
poll fails, or some payload is handed out and none has a time of the year 0 or with an offset of a day. -/
def WorkReadable (h : List (Op Cmd Reply)) : Prop :=
  PollFails h ∨ payloads h ≠ [] ∧ ∀ raw ∈ payloads h, Readable (Model.createdAtOf raw)

/-- **Workers can read the responses** — exactly when `GetWork` hands out a task, and `SubmitResults` has
an error to tell. -/
theorem responses_decode_iff (pydantic : Pydantic) (hpydantic : pydantic.Documented) (now : Datetime)
    (header capacityQuery : String) (platformsQuery : List String) (results : List Model.ParcelResult) :
    (getWork header capacityQuery platformsQuery).Obeys (fun _ _ => True)
      (fun h out => (∀ resp, out = .ok resp → DecodesWork pydantic now resp) ↔ WorkReadable h) [] ∧
    (TaxlienGateway.submitResults (workerIDOf header) results).Obeys (fun _ _ => True)
      (fun h resp => DecodesSubmit pydantic resp ↔ SomeInsertFailed h) [] := by
  constructor
  · refine (getWork_collects header capacityQuery platformsQuery).mono (fun _ _ h => h) ?_
    rintro h out ⟨herror, hzones⟩
    unfold WorkReadable
    cases out with
    | error e =>
      -- no body is written
      have hfails : PollFails h := herror.mp ⟨e, rfl⟩
      exact ⟨fun _ => .inl hfails, fun _ resp hresp => absurd hresp (by simp)⟩
    | ok resp =>
      have hfails : ¬ PollFails h := fun hfails => by
        obtain ⟨e, he⟩ := herror.mpr hfails
        exact absurd he (by simp)
      have hzones := hzones resp rfl
      rw [or_iff_right hfails]
      -- the zones tell how many tasks there are, and which of them are readable
      have hnil : resp.tasks = [] ↔ payloads h = [] := by
        rw [← List.map_eq_nil_iff (f := Model.ZonedTask.createdAt), hzones, List.map_eq_nil_iff]
      have hreadable : (∀ z ∈ resp.tasks.map Model.ZonedTask.createdAt, Readable z) ↔
          ∀ z ∈ (payloads h).map Model.createdAtOf, Readable z := by rw [hzones]
      rw [List.forall_mem_map, List.forall_mem_map] at hreadable
      rw [ne_eq, ← hnil, ← hreadable, ← ne_eq, ← decodesWork_iff pydantic hpydantic now resp]
      constructor
      · exact fun hall => hall resp rfl
      · rintro hdecodes _ ⟨⟩
        exact hdecodes
  · refine (submitResults_errors (workerIDOf header) results).mono (fun _ _ h => h) ?_
    exact fun h resp herrors => (decodesSubmit_iff hpydantic resp).trans herrors

/-- A poll by a worker, and a batch without results. -/
theorem responses_decode_iff_idlePoll :
    (getWork "w1" "" []).Obeys (fun _ _ => True) (fun h out =>
      (∀ resp, out = .ok resp → DecodesWork .strict utcTask.created_at resp) ↔ WorkReadable h) [] ∧
    (TaxlienGateway.submitResults (workerIDOf "w1") []).Obeys (fun _ _ => True)
      (fun h resp => DecodesSubmit .strict resp ↔ SomeInsertFailed h) [] :=
  responses_decode_iff .strict Pydantic.strict_documented utcTask.created_at "w1" "" [] []

/-- **An idle poll and a batch without errors**: neither body can be read. -/
theorem idlePoll_rejected :
    (∃ resp, ((getWork "w1" "" []).runOk server Store.blank).2 = .ok resp ∧
      resp.body = "\x7b\"tasks\":null,\"retry_after\":30\x7d\n" ∧
      ¬ DecodesWork .strict utcTask.created_at resp) ∧
    ¬ DecodesSubmit .strict ((TaxlienGateway.submitResults "w1" []).runOk server Store.blank).2 := by
  have hstrict := Pydantic.strict_documented
  constructor
  · refine ⟨⟨[], 30⟩, rfl, by decide +kernel, fun h => ?_⟩
    exact ((decodesWork_iff .strict hstrict utcTask.created_at ⟨[], 30⟩).mp h).1 rfl
  · exact fun h => (decodesSubmit_iff hstrict ⟨0, 0, 0, []⟩).mp h rfl

end Legacy

end TaxlienGateway
