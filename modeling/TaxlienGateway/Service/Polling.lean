import TaxlienGateway.Framework.Decimal
import TaxlienGateway.Framework.KeySpace
import TaxlienGateway.Service.Store

/-!
# Queue keys and the polling loop

What the Go gateway (`internal/service/queue.go`) and the legacy one
(`legacy/app/services/worker_queue.py`) have in common. A task waits as a payload string in the list
`queue:<platform>:p<priority>`. A worker is served by polling the queues of its platforms, in the
order of the platforms and for each in the order of the priorities 1 to 4, until it has as many tasks
as it asked for; a payload is moved to `processing:<workerID>` before it is decoded.

`pollPlatforms` is that loop over an arbitrary `decode`, since the two gateways decode differently.
`pollPlatforms_obeys` is its conduct and `pollPlatforms_collects` its result, whatever Redis answers. The
keys are injective and the two families of keys are disjoint (`queueKey_inj`, `processingKey_inj`,
`queueKey_ne_processingKey`).
-/

namespace TaxlienGateway

open Framework

/-! ### Keys -/

/-- `fmt.Sprintf("queue:%s:p%d", platform, priority)` -/
def queueKey (platform : String) (priority : ℤ) : String :=
  "queue:" ++ platform ++ ":p" ++ toString priority

/-- `fmt.Sprintf("processing:%s", workerID)` -/
def processingKey (workerID : String) : String := "processing:" ++ workerID

theorem toList_queueKey (platform : String) (priority : ℤ) :
    (queueKey platform priority).toList =
      "queue:".toList ++ (platform.toList ++ (':' :: 'p' :: intChars priority)) := by
  unfold queueKey
  simp only [String.toList_append, toList_toString_int, List.append_assoc]
  rfl

theorem colon_notMem_intChars (n : ℤ) : ':' ∉ intChars n := by
  intro hn
  rcases mem_intChars hn with hn | hn
  · exact absurd hn (by decide)
  · exact absurd hn (by decide)

/-- The fields of a queue key. The platform is free, since the numeral behind it has no colon. -/
def queueFields (platform : String) (priority : ℤ) : Fields ':' where
  before := ["queue".toList]
  free := platform.toList
  after := ['p' :: intChars priority]
  noSep_before := by decide
  noSep_after := by
    rw [List.forall_mem_singleton]
    exact List.not_mem_cons_of_ne_of_not_mem (by decide) (colon_notMem_intChars priority)

theorem text_queueFields (platform : String) (priority : ℤ) :
    (queueFields platform priority).text = (queueKey platform priority).toList := by
  rw [toList_queueKey]
  simp [Fields.text, queueFields]

theorem queueFields_inj {platform platform' : String} {priority priority' : ℤ}
    (h : queueFields platform priority = queueFields platform' priority') :
    platform = platform' ∧ priority = priority' := by
  have hpriority := List.singleton_inj.mp (congrArg Fields.after h)
  exact ⟨String.toList_inj.mp (congrArg Fields.free h), intChars_injective (List.cons.inj hpriority).2⟩

/-- **The key of a queue** determines the platform and the priority, whatever characters the platform has. -/
theorem queueKey_inj {platform platform' : String} {priority priority' : ℤ}
    (h : queueKey platform priority = queueKey platform' priority') :
    platform = platform' ∧ priority = priority' := by
  refine queueFields_inj (Fields.eq_of_text (Eq.refl 1) (Eq.refl 1) ?_)
  rw [text_queueFields, text_queueFields, h]

/-- The fields of the key of a processing list. -/
def processingFields (workerID : String) : Fields ':' :=
  .freeLast ["processing".toList] workerID.toList (by decide)

theorem text_processingFields (w : String) : (processingFields w).text = (processingKey w).toList := by
  simp [Fields.text, Fields.freeLast, processingFields, processingKey]

theorem processingFields_inj {w w' : String} (h : processingFields w = processingFields w') : w = w' :=
  String.toList_inj.mp (congrArg Fields.free h)

theorem processingKey_inj {w w' : String} (h : processingKey w = processingKey w') : w = w' := by
  refine processingFields_inj (Fields.eq_of_text (Eq.refl 1) (Eq.refl 0) ?_)
  rw [text_processingFields, text_processingFields, h]

/-- No queue is a processing list: the first fields of their keys differ. -/
theorem queueKey_ne_processingKey (platform : String) (priority : ℤ) (w : String) :
    queueKey platform priority ≠ processingKey w := by
  intro h
  have htext : (queueFields platform priority).text = (processingFields w).text := by
    rw [text_queueFields, text_processingFields, h]
  have hne : ["queue".toList].head? ≠ ["processing".toList].head? := by decide
  exact hne (Fields.head?_before_of_text (List.cons_ne_nil _ _) (List.cons_ne_nil _ _) htext)

/-! ### The polling loop -/

section Polling

variable {τ : Type} (decode : String → Except String (Option τ))

/-- The inner loop, over the priorities still to be tried for one platform. -/
def pollPriorities (procKey platform : String) (capacity : ℤ) :
    List ℤ → List τ → Prog Cmd Reply (Except String (List τ))
  | [], tasks => pure (.ok tasks)
  | priority :: priorities, tasks =>
    if capacity ≤ tasks.length then pure (.ok tasks)
    else do
      match ← rPopLPush (queueKey platform priority) procKey with
      | .error e => pure (.error e)
      -- an empty queue: one attempt for each priority, and on to the next
      | .ok none => pollPriorities procKey platform capacity priorities tasks
      | .ok (some raw) =>
        -- the payload has been moved by now, whether or not it decodes
        match decode raw with
        | .error e => pure (.error e)
        | .ok t => pollPriorities procKey platform capacity priorities (tasks ++ t.toList)

/-- `for priority := 1; priority <= 4; priority++` -/
def priorities : List ℤ := [1, 2, 3, 4]

/-- The outer loop, over the platforms. -/
def pollPlatforms (procKey : String) (capacity : ℤ) :
    List String → List τ → Prog Cmd Reply (Except String (List τ))
  | [], tasks => pure (.ok tasks)
  | platform :: platforms, tasks =>
    if capacity ≤ tasks.length then pure (.ok tasks)
    else do
      match ← pollPriorities decode procKey platform capacity priorities tasks with
      | .error e => pure (.error e)
      | .ok tasks => pollPlatforms procKey capacity platforms tasks

variable {decode}

/-! ### Conduct -/

/-- What a poll may do: move from a polled queue to the worker's own processing list. -/
def PopRule (workerID : String) (platforms : List String) (c : Cmd) : Prop :=
  ∃ platform ∈ platforms, ∃ priority ∈ priorities,
    c = .rpoplpush (queueKey platform priority) (processingKey workerID)

variable {G : List (Op Cmd Reply) → Cmd → Prop} {h : List (Op Cmd Reply)}

theorem pollPriorities_obeys {workerID platform : String} {platforms : List String} {capacity : ℤ}
    (hplat : platform ∈ platforms) (hG : ∀ h c, PopRule workerID platforms c → G h c) :
    ∀ (ps : List ℤ) (tasks : List τ), (∀ p ∈ ps, p ∈ priorities) →
      ∀ h, (pollPriorities decode (processingKey workerID) platform capacity ps tasks).Obeys G
        (fun _ _ => True) h := by
  intro ps
  induction ps with
  | nil => exact fun _ _ _ => trivial
  | cons priority ps ih =>
    intro tasks hps h
    have hrest : ∀ p ∈ ps, p ∈ priorities := fun p hp => hps p (List.mem_cons_of_mem _ hp)
    unfold pollPriorities
    split
    · trivial
    · refine ⟨hG _ _ ⟨platform, hplat, priority, hps _ List.mem_cons_self, rfl⟩, fun r => ?_⟩
      -- the loop goes on after an empty queue and after a payload that decodes
      match r with
      | .error e => trivial
      | .ok none => exact ih tasks hrest _
      | .ok (some raw) =>
        change (match decode raw with
          | .error e => _
          | .ok t => _ : Prog Cmd Reply _).Obeys _ _ _
        split
        · trivial
        · exact ih _ hrest _

/-- **The conduct of a poll.** -/
theorem pollPlatforms_obeys {workerID : String} {platforms : List String} {capacity : ℤ}
    (hG : ∀ h c, PopRule workerID platforms c → G h c) :
    (pollPlatforms decode (processingKey workerID) capacity platforms []).Obeys G
      (fun _ _ => True) h := by
  have outer : ∀ (ps : List String) (tasks : List τ), (∀ p ∈ ps, p ∈ platforms) →
      ∀ h, (pollPlatforms decode (processingKey workerID) capacity ps tasks).Obeys G
        (fun _ _ => True) h := by
    intro ps
    induction ps with
    | nil => exact fun _ _ _ => trivial
    | cons platform ps ih =>
      intro tasks hps h
      have hrest : ∀ p ∈ ps, p ∈ platforms := fun p hp => hps p (List.mem_cons_of_mem _ hp)
      unfold pollPlatforms
      split
      · trivial
      · -- the inner loop keeps to the rule, and the rest does from wherever it stops
        refine (pollPriorities_obeys (hps _ List.mem_cons_self) hG priorities tasks
          (fun _ hp => hp) h).bind ?_
        intro h a _
        cases a with
        | error e => trivial
        | ok tasks => exact ih tasks hrest h
  exact outer platforms [] (fun _ hp => hp) h

/-! ### What a poll returns -/

/-- The payload that an answered `RPOPLPUSH` hands out. -/
def payload? : Op Cmd Reply → Option String
  | ⟨.rpoplpush _ _, .ok raw⟩ => raw
  | _ => none

/-- The payloads that have been handed out, in order. -/
def payloads (h : List (Op Cmd Reply)) : List String := h.filterMap payload?

/-- Every command has been answered without an error. -/
def Answered (h : List (Op Cmd Reply)) : Prop := ∀ op ∈ h, ∃ r, op.2 = .ok r

variable (decode) in
/-- Decoding one payload after the other, up to the first error. -/
def decodeAll : List String → List τ → Except String (List τ)
  | [], tasks => .ok tasks
  | raw :: raws, tasks =>
    match decode raw with
    | .error e => .error e
    | .ok t => decodeAll raws (tasks ++ t.toList)

theorem decodeAll_append_singleton (raws : List String) (raw : String) : ∀ tasks : List τ,
    decodeAll decode (raws ++ [raw]) tasks =
      match decodeAll decode raws tasks with
      | .error e => .error e
      | .ok tasks => (decode raw).map fun t => tasks ++ t.toList := by
  induction raws with
  | nil =>
    intro tasks
    show decodeAll decode [raw] tasks = (decode raw).map fun t => tasks ++ t.toList
    unfold decodeAll
    cases decode raw with
    | error e => rfl
    | ok t => rfl
  | cons raw' raws ih =>
    intro tasks
    rw [List.cons_append, decodeAll, decodeAll]
    cases decode raw' with
    | error e => rfl
    | ok t => exact ih _

variable (decode) in
/-- A poll has tasks if every command has been answered and every payload decodes, and fails otherwise. -/
def Collected (h : List (Op Cmd Reply)) : Except String (List τ) → Prop
  | .ok tasks => Answered h ∧ decodeAll decode (payloads h) [] = .ok tasks
  | .error _ => ¬ (Answered h ∧ ∃ tasks, decodeAll decode (payloads h) [] = .ok tasks)

theorem payloads_append_singleton (h : List (Op Cmd Reply)) (op : Op Cmd Reply) :
    payloads (h ++ [op]) = payloads h ++ (payload? op).toList := by
  unfold payloads
  rw [List.filterMap_append]
  cases hop : payload? op <;> simp [hop]

theorem answered_append_singleton {op : Op Cmd Reply} :
    Answered (h ++ [op]) ↔ Answered h ∧ ∃ r, op.2 = .ok r := by
  unfold Answered
  rw [List.forall_mem_append, List.forall_mem_singleton]

/-- An answer that is an error leaves nothing to collect. -/
theorem collected_of_failed (c : Cmd) (e e' : String) :
    Collected decode (h ++ [⟨c, .error e⟩]) (.error e') := by
  rintro ⟨hall, -⟩
  obtain ⟨-, r, hr⟩ := answered_append_singleton.mp hall
  exact absurd hr (by simp)

/-- An empty queue adds nothing. -/
theorem Collected.of_empty {tasks : List τ} {src dst : String}
    (hcollected : Collected decode h (.ok tasks)) :
    Collected decode (h ++ [⟨.rpoplpush src dst, .ok none⟩]) (.ok tasks) := by
  refine ⟨answered_append_singleton.mpr ⟨hcollected.1, none, rfl⟩, ?_⟩
  rw [payloads_append_singleton]
  exact (congrArg (fun raws => decodeAll decode raws []) (List.append_nil _)).trans hcollected.2

/-- One more payload is decoded after the others. -/
theorem Collected.of_payload {tasks : List τ} (hcollected : Collected decode h (.ok tasks))
    (src dst raw : String) :
    Collected decode (h ++ [⟨.rpoplpush src dst, .ok (some raw)⟩])
      ((decode raw).map fun t => tasks ++ t.toList) := by
  have hnext : decodeAll decode (payloads h ++ [raw]) [] = _ :=
    decodeAll_append_singleton (payloads h) raw []
  rw [hcollected.2] at hnext
  have hpayloads : payloads (h ++ [⟨.rpoplpush src dst, .ok (some raw)⟩]) = payloads h ++ [raw] :=
    payloads_append_singleton h _
  cases hdecode : decode raw with
  | error e =>
    -- a payload that does not decode cannot be collected either
    rintro ⟨-, tasks', htasks'⟩
    rw [hpayloads, hnext, hdecode] at htasks'
    exact absurd htasks' (by simp [Except.map])
  | ok t =>
    refine ⟨answered_append_singleton.mpr ⟨hcollected.1, some raw, rfl⟩, ?_⟩
    rw [hpayloads, hnext, hdecode]
    rfl

theorem pollPriorities_collects {procKey platform : String} {capacity : ℤ} :
    ∀ (ps : List ℤ) (tasks : List τ) (h : List (Op Cmd Reply)), Collected decode h (.ok tasks) →
      (pollPriorities decode procKey platform capacity ps tasks).Obeys (fun _ _ => True)
        (Collected decode) h := by
  intro ps
  induction ps with
  | nil => exact fun _ _ hcollected => hcollected
  | cons priority ps ih =>
    intro tasks h hcollected
    unfold pollPriorities
    split
    · exact hcollected
    · refine ⟨trivial, fun r => ?_⟩
      match r with
      | .error e => exact collected_of_failed _ e e
      | .ok none => exact ih tasks _ hcollected.of_empty
      | .ok (some raw) =>
        have hmore := hcollected.of_payload (queueKey platform priority) procKey raw
        change (match decode raw with
          | .error e => _
          | .ok t => _ : Prog Cmd Reply _).Obeys _ _ _
        cases hdecode : decode raw with
        | error e =>
          rw [hdecode] at hmore
          exact hmore
        | ok t =>
          rw [hdecode] at hmore
          exact ih _ _ hmore

/-- **What a poll returns**, whatever is answered. -/
theorem pollPlatforms_collects {procKey : String} {capacity : ℤ} (platforms : List String) :
    (pollPlatforms decode procKey capacity platforms []).Obeys (fun _ _ => True)
      (Collected decode) [] := by
  have outer : ∀ (ps : List String) (tasks : List τ) (h : List (Op Cmd Reply)),
      Collected decode h (.ok tasks) →
      (pollPlatforms decode procKey capacity ps tasks).Obeys (fun _ _ => True)
        (Collected decode) h := by
    intro ps
    induction ps with
    | nil => exact fun _ _ hcollected => hcollected
    | cons platform ps ih =>
      intro tasks h hcollected
      unfold pollPlatforms
      split
      · exact hcollected
      · -- the next platform starts from what the inner loop has collected
        refine (pollPriorities_collects priorities tasks h hcollected).bind ?_
        intro h a ha
        cases a with
        | error e => exact ha
        | ok tasks => exact ih tasks h ha
  exact outer platforms [] [] ⟨fun op hop => absurd hop (by simp), rfl⟩

/-! ### Two ways to decode -/

section Map

variable {σ : Type} {decode' : String → Except String (Option σ)} {f : σ → τ}

theorem pollPriorities_map (hdecode : ∀ raw, decode raw = (decode' raw).map (Option.map f))
    (procKey platform : String) (capacity : ℤ) : ∀ (ps : List ℤ) (tasks : List σ),
      pollPriorities decode procKey platform capacity ps (tasks.map f) =
        pollPriorities decode' procKey platform capacity ps tasks >>= fun r =>
          .done (r.map (List.map f)) := by
  intro ps
  induction ps with
  | nil => exact fun tasks => rfl
  | cons priority ps ih =>
    intro tasks
    unfold pollPriorities
    -- the condition of the loop sees the number of tasks only
    rw [List.length_map]
    by_cases hcap : capacity ≤ tasks.length
    · rw [if_pos hcap, if_pos hcap]
      rfl
    · rw [if_neg hcap, if_neg hcap]
      refine congrArg (Prog.cmd _) (funext fun r => ?_)
      match r with
      | .error e => rfl
      | .ok none => exact ih tasks
      | .ok (some raw) =>
        change (match decode raw with
          | .error e => _
          | .ok t => _ : Prog Cmd Reply _) = (match decode' raw with
          | .error e => _
          | .ok t => _ : Prog Cmd Reply _) >>= _
        -- both decode the payload, or both fail on it
        rw [hdecode raw]
        cases decode' raw with
        | error e => rfl
        | ok t =>
          have hmap : tasks.map f ++ (t.map f).toList = (tasks ++ t.toList).map f := by
            cases t <;> simp
          show pollPriorities decode procKey platform capacity ps
            (tasks.map f ++ (t.map f).toList) = _
          rw [hmap]
          exact ih _

/-- **A poll that decodes to more** is the same poll, and what it returns can be cut down afterwards. -/
theorem pollPlatforms_map (hdecode : ∀ raw, decode raw = (decode' raw).map (Option.map f))
    (procKey : String) (capacity : ℤ) : ∀ (platforms : List String) (tasks : List σ),
      pollPlatforms decode procKey capacity platforms (tasks.map f) =
        pollPlatforms decode' procKey capacity platforms tasks >>= fun r =>
          .done (r.map (List.map f)) := by
  intro platforms
  induction platforms with
  | nil => exact fun tasks => rfl
  | cons platform platforms ih =>
    intro tasks
    unfold pollPlatforms
    rw [List.length_map]
    by_cases hcap : capacity ≤ tasks.length
    · rw [if_pos hcap, if_pos hcap]
      rfl
    · rw [if_neg hcap, if_neg hcap, pollPriorities_map hdecode, Prog.bind_assoc, Prog.bind_assoc]
      congr 1
      funext r
      cases r with
      | error e => rfl
      | ok tasks => exact ih tasks

end Map

end Polling

end TaxlienGateway
