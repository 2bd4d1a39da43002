import TaxlienGateway.Framework.Timestamp
import TaxlienGateway.Legacy.WorkerQueue
import TaxlienGateway.Service.Queue

/-!
# The wire format of the queue

A task is written by the legacy gateway (`WorkTask.modelDumpJson`) and read by both gateways.

* `Datetime.fromisoformat_isoformat`, `WorkTask.loads_modelDumpJson` — the legacy gateway reads back
  what it writes, for every task;
* `readInstant_isoformat` — the Go gateway reads the time of a `datetime` if and only if it carries
  an offset, and then it is the right instant;
* `unmarshalTask_modelDumpJson` — so a task with an offset is read with the same fields;
* `not_goReads_of_naive` — and a task whose `created_at` was made by `datetime.utcnow` never is.
-/

namespace TaxlienGateway

open Framework

namespace Legacy

/-! ### datetime -/

theorem readZone_offsetChars (x : TimeSyntax) {m : ℤ} (hm : m.natAbs < 24 * 60) :
    readZone x (offsetChars m) = some (m * 60) := readZone_zoneText x hm

/-- An offset starts neither with a digit nor with a point. -/
theorem endsFraction_zoneChars (o : Option ℤ) : EndsFraction (zoneChars o) := by
  cases o with
  | none => exact fun c hc => absurd hc (by simp [zoneChars])
  | some m => exact endsFraction_zoneText m

/-- The microseconds are read back to any precision that has room for them. -/
theorem readFraction_fractionChars (x : TimeSyntax) {p nano : ℕ} (hp : 6 ≤ p) (hn : nano < 10 ^ 9)
    (o : Option ℤ) : readFraction x p (fractionChars nano ++ zoneChars o) =
      (nano / 1000 * 10 ^ (p - 6), zoneChars o) := by
  have hends := endsFraction_zoneChars o
  unfold fractionChars
  by_cases h0 : nano = 0
  · rw [if_pos h0, h0, List.nil_append, readFraction_of_ends x hends, Nat.zero_div, Nat.zero_mul]
  · rw [if_neg h0, List.cons_append]
    exact readFraction_append x (by decide) hp (by omega) hends.endsDigits

theorem readOffset_zoneChars {o : Option ℤ} (ho : ∀ m ∈ o, m.natAbs < 24 * 60) :
    readOffset (zoneChars o) = some o := by
  cases o with
  | none => rfl
  | some m =>
    have hm : m.natAbs < 24 * 60 := ho m rfl
    have hne : offsetChars m ≠ [] := by
      unfold offsetChars
      split_ifs <;> simp
    unfold zoneChars readOffset
    split
    · next heq => exact absurd heq hne
    · rw [readZone_offsetChars _ hm, Option.map_some, Int.mul_ediv_cancel _ (by decide)]

/-- **A `datetime` is read back from its text.** -/
theorem Datetime.fromisoformat_isoformat (d : Datetime) :
    Datetime.fromisoformat d.isoformat = some d := by
  obtain ⟨t, o, hyear, hmicro, ho⟩ := d
  have hnano := t.nano_lt
  -- six digits hold the microseconds, and there is nothing below them
  have hback : t.nano / 1000 * 10 ^ (6 - 6) * 1000 = t.nano := by omega
  unfold Datetime.fromisoformat Datetime.isoformat
  simp only [String.toList_ofList, readDateTime_append, Option.bind_some,
    readFraction_fractionChars _ (le_refl 6) hnano, readOffset_zoneChars ho]
  rw [dif_pos ⟨by omega, hyear, ho⟩]
  simp only [Civil.truncate, hback]

/-- The instant a `datetime` means, a naive one being taken as UTC. -/
def Datetime.instant (d : Datetime) : ℤ := d.civil.instant - d.utcoffset.getD 0 * 60 * 10 ^ 9

/-- **RFC 3339 needs the offset.** However much a reader lets pass, it reads the time if there is an offset,
and then it reads the right instant. -/
theorem readInstant_isoformat (x : TimeSyntax) (d : Datetime) :
    readInstant x d.isoformat.toList = d.utcoffset.map fun _ => d.instant := by
  obtain ⟨t, o, hyear, hmicro, ho⟩ := d
  have hnano := t.nano_lt
  unfold readInstant Datetime.isoformat
  simp only [String.toList_ofList, readDateTime_append, Option.bind_some,
    readFraction_fractionChars x (show 6 ≤ 9 by decide) hnano]
  cases o with
  -- the text ends where the zone should be
  | none => rfl
  | some m =>
    have hback : t.nano / 1000 * 10 ^ (9 - 6) = t.nano := by omega
    have hzone : readZone x (zoneChars (some m)) = some (m * 60) := readZone_offsetChars x (ho m rfl)
    rw [hzone, hback, Option.map_some, Option.map_some]
    unfold Datetime.instant
    rw [t.instant_truncate]
    rfl

/-! ### The legacy gateway reads its own tasks -/

theorem Pydantic.strict_documented : Pydantic.strict.Documented := by
  refine ⟨fun n => ?_, fun d => ?_, fun s _ => ?_⟩
  · simp only [Pydantic.strict, asInt, Numeral.toInt?_ofInt]
  · simp only [Pydantic.strict, asDatetime, d.fromisoformat_isoformat]
  · simp only [Pydantic.strict, asDatetime]

section Loads

variable {pydantic : Pydantic} (hpydantic : pydantic.Documented)
include hpydantic

theorem ProxyInfo.validate_modelDump (p : ProxyInfo) : ProxyInfo.validate pydantic p.modelDump = some p := by
  obtain ⟨host, port, type, username, password, expires_at⟩ := p
  have opt : ∀ s, optionalField asStr (some (optStr s)) = some s := by
    intro s
    cases s <;> rfl
  have optTime : ∀ d : Option Datetime,
      optionalField pydantic.datetime (some (optStr (d.map Datetime.isoformat))) = some d := by
    intro d
    cases d with
    | none => rfl
    | some d => simp [optionalField, optStr, hpydantic.datetime_isoformat]
  simp [ProxyInfo.validate, ProxyInfo.modelDump, asDict, getItem, asStr, defaultField, opt, optTime,
    hpydantic.int_ofInt]

/-- **The legacy gateway reads back every task it writes.** -/
theorem WorkTask.loads_modelDumpJson (now : Datetime) (t : WorkTask) :
    WorkTask.loads pydantic now t.modelDumpJson = some t := by
  have optProxy : optionalField (ProxyInfo.validate pydantic) (some (dumpProxy t.proxy)) = some t.proxy := by
    cases t.proxy with
    | none => rfl
    | some p => exact congrArg (Option.map some) (p.validate_modelDump hpydantic)
  -- what is parsed is the dumped object, and each field is found under its own name
  obtain ⟨d, hd, task_id, type, platform, target, priority, proxy, created_at⟩ : ∃ d,
      t.modelDump = .obj d ∧ getItem d "task_id" = some (.str t.task_id) ∧
      getItem d "type" = some (.str t.type) ∧ getItem d "platform" = some (.str t.platform) ∧
      getItem d "target" = some (.obj t.target) ∧
      getItem d "priority" = some (.num (.ofInt t.priority)) ∧
      getItem d "proxy" = some (dumpProxy t.proxy) ∧
      getItem d "created_at" = some (.str t.created_at.isoformat) :=
    ⟨_, rfl, rfl, rfl, rfl, rfl, rfl, rfl, rfl⟩
  unfold WorkTask.loads jsonLoads WorkTask.modelDumpJson
  rw [Json.parse_render Json.escapes_minimalEscape, Option.some_or, hd]
  show WorkTask.validate pydantic now d = some t
  simp [WorkTask.validate, task_id, type, platform, target, priority, proxy, created_at, asDict, asStr,
    defaultField, optProxy, hpydantic.int_ofInt, hpydantic.datetime_isoformat]

end Loads

/-! ### The Go gateway reads a task with an offset -/

/-- A target as the Go gateway declares it. -/
def targetDict (parcelID state county : String) (url : Option String) : List (String × Json) :=
  [("parcel_id", .str parcelID), ("state", .str state), ("county", .str county)] ++
    (url.map fun u => ("url", Json.str u)).toList

theorem unmarshal_targetDict (parcelID state county : String) (url : Option String) :
    Model.Target.zero.unmarshal (.obj (targetDict parcelID state county url)) =
      some ⟨parcelID, state, county, url.getD ""⟩ := by
  cases url with
  | none =>
    simp +decide [Model.Target.unmarshal, Model.Target.setField, Model.unmarshalString, targetDict,
      Model.Target.zero]
  | some u =>
    simp +decide [Model.Target.unmarshal, Model.Target.setField, Model.unmarshalString, targetDict]

/-- Decoding a dumped task: the target, the priority and the time can fail, the rest cannot. -/
theorem unmarshal_modelDump (t : WorkTask) :
    Model.WorkTask.zero.unmarshal t.modelDump =
      (Model.Target.zero.unmarshal (.obj t.target)).bind fun target =>
        (Model.unmarshalInt 0 (.num (.ofInt t.priority))).bind fun priority =>
          (Model.unmarshalTime 0 (.str t.created_at.isoformat)).map fun createdAt =>
            ⟨t.task_id, t.type, t.platform, target, priority, createdAt⟩ := by
  simp +decide only [WorkTask.modelDump, Model.WorkTask.unmarshal, Model.WorkTask.setField,
    Model.unmarshalString, Model.WorkTask.zero, List.foldlM_cons, List.foldlM_nil, ↓reduceIte,
    Option.map_some, Option.bind_eq_bind, Option.bind_some, Option.pure_def]
  -- what is left of both sides fails at the same places
  cases Model.Target.zero.unmarshal (.obj t.target) with
  | none => rfl
  | some target =>
    cases hp : Model.unmarshalInt 0 (.num (.ofInt t.priority)) with
    | none => simp [hp]
    | some priority => simp [hp]

/-- The Go gateway reads the task with the same fields and the same instant. -/
def GoReads (t : WorkTask) : Prop :=
  ∃ g, Model.unmarshalTask t.modelDumpJson = some g ∧ g.taskID = t.task_id ∧ g.type = t.type ∧
    g.platform = t.platform ∧ g.priority = t.priority ∧
    getItem t.target "parcel_id" = some (.str g.target.parcelID) ∧
    getItem t.target "state" = some (.str g.target.state) ∧
    getItem t.target "county" = some (.str g.target.county) ∧
    (getItem t.target "url").getD (.str "") = .str g.target.url ∧
    g.createdAt = t.created_at.instant

theorem unmarshalTask_modelDumpJson (t : WorkTask) :
    Model.unmarshalTask t.modelDumpJson =
      (Model.Target.zero.unmarshal (.obj t.target)).bind fun target =>
        (Model.unmarshalInt 0 (.num (.ofInt t.priority))).bind fun priority =>
          t.created_at.utcoffset.map fun _ =>
            ⟨t.task_id, t.type, t.platform, target, priority, t.created_at.instant⟩ := by
  have htime : Model.unmarshalTime 0 (.str t.created_at.isoformat) =
      t.created_at.utcoffset.map fun _ => t.created_at.instant := readInstant_isoformat _ _
  unfold Model.unmarshalTask WorkTask.modelDumpJson
  rw [Json.parse_render Json.escapes_minimalEscape, Option.bind_some, unmarshal_modelDump, htime]
  simp only [Option.map_map, Function.comp_def]

/-- **A task with an offset crosses.** Within the priorities a Go `int` has room for, the Go gateway
reads a task if and only if its `created_at` carries an offset. -/
theorem goReads_iff {t : WorkTask} {parcelID state county : String} {url : Option String}
    (htarget : t.target = targetDict parcelID state county url)
    (hprio : -2 ^ 63 ≤ t.priority ∧ t.priority < 2 ^ 63) :
    GoReads t ↔ t.created_at.utcoffset.isSome := by
  have hint : Model.unmarshalInt 0 (.num (.ofInt t.priority)) = some t.priority := by
    simp only [Model.unmarshalInt, Numeral.toInt?_ofInt, Option.bind_some]
    exact if_pos hprio
  have hread := unmarshalTask_modelDumpJson t
  rw [htarget, unmarshal_targetDict, hint] at hread
  simp only [Option.bind_some] at hread
  constructor
  · rintro ⟨g, hg, -⟩
    rw [hread] at hg
    exact (Option.map_eq_some_iff.mp hg).elim fun m hm => by rw [hm.1]; rfl
  · intro hsome
    obtain ⟨m, hm⟩ := Option.isSome_iff_exists.mp hsome
    rw [hm, Option.map_some] at hread
    refine ⟨_, hread, rfl, rfl, rfl, rfl, ?_⟩
    rw [htarget]
    cases url <;> exact ⟨rfl, rfl, rfl, rfl, rfl⟩

/-- Without an offset nothing is decoded. -/
theorem unmarshalTask_of_naive {t : WorkTask} (h : t.created_at.utcoffset = none) :
    Model.unmarshalTask t.modelDumpJson = none := by
  rw [unmarshalTask_modelDumpJson, h]
  simp

/-- **A task made by the default factory does not.** `datetime.utcnow` gives a `datetime` without an
offset, so the Go gateway refuses every task whose `created_at` it made. -/
theorem not_goReads_of_naive (t : WorkTask) (h : t.created_at.utcoffset = none) :
    Model.unmarshalTask t.modelDumpJson = none ∧ ¬ GoReads t := by
  have hread := unmarshalTask_of_naive h
  refine ⟨hread, ?_⟩
  rintro ⟨g, hg, -⟩
  rw [hread] at hg
  exact absurd hg (by simp)

/-- A task as a producer makes it in the early hours of a February morning. -/
def utcTask : WorkTask where
  task_id := "t1"
  type := "scrape"
  platform := "beacon"
  target := targetDict "12-34" "FL" "Leon" none
  priority := 3
  proxy := none
  created_at := sampleDatetime

theorem not_goReads_utcTask : Model.unmarshalTask utcTask.modelDumpJson = none ∧ ¬ GoReads utcTask :=
  not_goReads_of_naive utcTask rfl

/-- The legacy gateway reads this task back, the Go gateway does not. -/
theorem utcTask_stranded :
    WorkTask.loads .strict utcTask.created_at utcTask.modelDumpJson = some utcTask ∧
    ¬ ∀ (t : WorkTask) (parcelID state county : String) (url : Option String),
      t.target = targetDict parcelID state county url → t.proxy = none →
      t.created_at.utcoffset = none → GoReads t := by
  refine ⟨utcTask.loads_modelDumpJson Pydantic.strict_documented _, fun h => ?_⟩
  have hnone : Model.unmarshalTask utcTask.modelDumpJson = none := unmarshalTask_of_naive rfl
  obtain ⟨g, hg, -⟩ := h utcTask "12-34" "FL" "Leon" none rfl rfl rfl
  rw [hnone] at hg
  exact absurd hg (by simp)

end Legacy

end TaxlienGateway
