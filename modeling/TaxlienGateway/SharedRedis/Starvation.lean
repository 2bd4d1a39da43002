import TaxlienGateway.Framework.WholeCalls
import TaxlienGateway.SharedRedis.Gateways

/-!
# No task is passed over

A poll asks the queues of its platforms one after the other until it has as many tasks as the worker can take.
So one that comes back with fewer has asked all of them (`pollPlatforms_asks`), and every time a queue is asked
its oldest task is handed out. This holds whichever gateway polls, and whatever else happens to the poll in
between.

* `take_polls_prefix_handedOut` — after `n` polls of a queue that come back short, by any workers and at any
  time, the `n` oldest of the tasks that were waiting have been handed out, in order.

So a task with `n` tasks ahead of it has left the queue when `n + 1` such polls have come back, even if all of
them overlap. Polls that fail, or fill up elsewhere, promise nothing.
-/

namespace TaxlienGateway

open Framework

/-! ### A poll that comes back short -/

section Polling

variable {τ : Type} {decode : String → Except String (Option τ)} {h : List (Op Cmd Reply)}
  {procKey platform : String} {priority capacity : ℤ}

/-- The queue has been asked for a task, and has answered. -/
def Asked (procKey platform : String) (priority : ℤ) (h : List (Op Cmd Reply)) : Prop :=
  ∃ r, (⟨.rpoplpush (queueKey platform priority) procKey, .ok r⟩ : Op Cmd Reply) ∈ h

theorem Asked.append (hasked : Asked procKey platform priority h) (h' : List (Op Cmd Reply)) :
    Asked procKey platform priority (h ++ h') :=
  let ⟨r, hr⟩ := hasked
  ⟨r, List.mem_append_left _ hr⟩

theorem asked_append_answer (h : List (Op Cmd Reply)) (r : Option String) :
    Asked procKey platform priority (h ++ [⟨.rpoplpush (queueKey platform priority) procKey, .ok r⟩]) :=
  ⟨r, by simp⟩

/-- Fewer tasks than the worker can take. -/
def Short (capacity : ℤ) : Except String (List τ) → Prop
  | .ok tasks => tasks.length < capacity
  | .error _ => False

/-- The inner loop, when it comes back short, has asked every queue that was left. -/
theorem pollPriorities_asks : ∀ (ps : List ℤ) (tasks : List τ) (h : List (Op Cmd Reply)),
    (pollPriorities decode procKey platform capacity ps tasks).Obeys (fun _ _ => True)
      (fun h a => Short capacity a → ∀ priority ∈ ps, Asked procKey platform priority h) h := by
  intro ps
  induction ps with
  | nil => exact fun _ _ _ _ hmem => absurd hmem (by simp)
  | cons priority ps ih =>
    intro tasks h
    unfold pollPriorities rPopLPush
    split
    · next hfull => exact fun hshort => absurd hfull (not_le.mpr hshort)
    · -- once asked, it has been asked; the rest is up to the rest of the loop
      have hrest : ∀ (r : Option String) (tasks : List τ),
          (pollPriorities decode procKey platform capacity ps tasks).Obeys (fun _ _ => True)
            (fun h a => Short capacity a → ∀ priority' ∈ priority :: ps, Asked procKey platform priority' h)
            (h ++ [⟨.rpoplpush (queueKey platform priority) procKey, .ok r⟩]) := by
        intro r tasks
        refine ((ih tasks _).and_preserved (P := Asked procKey platform priority) (asked_append_answer h r)
          fun _ _ _ _ hasked => hasked.append _).mono (fun _ _ h => h) ?_
        rintro h a ⟨hall, hasked⟩ hshort priority' hmem
        rcases List.mem_cons.mp hmem with rfl | hmem
        · exact hasked
        · exact hall hshort priority' hmem
      rw [Prog.issue_bind]
      refine ⟨trivial, fun r => ?_⟩
      rcases r with e | (_ | raw)
      · exact fun hshort => absurd hshort id
      · exact hrest none tasks
      · dsimp only
        cases decode raw with
        | error e => exact fun hshort => absurd hshort id
        | ok t => exact hrest (some raw) _

/-- A loop that has as many tasks as it may take goes no further. -/
theorem pollPlatforms_full {tasks : List τ} (hfull : capacity ≤ tasks.length) (ps : List String) :
    pollPlatforms decode procKey capacity ps tasks = .done (.ok tasks) := by
  cases ps with
  | nil => rfl
  | cons platform ps =>
    unfold pollPlatforms
    exact if_pos hfull

/-- **A poll that comes back short** has asked every queue of its platforms. -/
theorem pollPlatforms_asks : ∀ (ps : List String) (tasks : List τ) (h : List (Op Cmd Reply)),
    (pollPlatforms decode procKey capacity ps tasks).Obeys (fun _ _ => True)
      (fun h a => Short capacity a → ∀ platform ∈ ps, ∀ priority ∈ priorities, Asked procKey platform priority h)
      h := by
  intro ps
  induction ps with
  | nil => exact fun _ _ _ _ hmem => absurd hmem (by simp)
  | cons platform ps ih =>
    intro tasks h
    unfold pollPlatforms
    split
    · next hfull => exact fun hshort => absurd hfull (not_le.mpr hshort)
    · refine (pollPriorities_asks priorities tasks h).bind fun h a ha => ?_
      cases a with
      | error e => exact fun hshort => absurd hshort id
      | ok tasks =>
        rcases lt_or_ge (tasks.length : ℤ) capacity with hshort | hfull
        · -- the queues of this platform have been asked, and stay so
          refine ((ih tasks h).and_preserved
            (P := fun h => ∀ priority ∈ priorities, Asked procKey platform priority h) (ha hshort)
            fun _ _ _ _ hall priority hp => (hall priority hp).append _).mono (fun _ _ h => h) ?_
          rintro h a ⟨hrest, hasked⟩ hshort platform' hmem
          rcases List.mem_cons.mp hmem with rfl | hmem
          · exact hasked
          · exact hrest hshort platform' hmem
        · change (pollPlatforms decode procKey capacity ps tasks).Obeys _ _ _
          rw [pollPlatforms_full hfull]
          exact fun hshort => absurd hfull (not_le.mpr hshort)

end Polling

/-! ### The polls of a queue -/

/-- The call polls the queue, and this answer has room for more. -/
def GatewayCall.comesBackShort (platform : String) (priority : ℤ) : (call : GatewayCall) → GatewayRet call → Bool
  | go (.popTasks _ platforms capacity), .ok tasks =>
    platform ∈ platforms && priority ∈ priorities && decide (tasks.length < capacity)
  | popTasks _ _ platforms capacity, .ok tasks =>
    platform ∈ platforms && priority ∈ priorities && decide (tasks.length < capacity)
  | _, _ => false

/-- What a call has asked for when it comes back short. -/
def GatewayCall.Asks (call : GatewayCall) (own : List (Op Cmd Reply)) (a : GatewayRet call) : Prop :=
  ∀ platform priority, call.comesBackShort platform priority a = true →
    ∃ w, Asked (processingKey w) platform priority own

/-- **The conduct of every call that comes back short.** -/
theorem gatewayBody_asks (pydantic : Legacy.Pydantic) :
    Obeyed (GatewayCall.body pydantic) (fun _ _ _ => True) GatewayCall.Asks := by
  intro call
  have hother (hnever : ∀ a platform priority, call.comesBackShort platform priority a = false) :
      (GatewayCall.body pydantic call).Obeys (fun _ _ => True) call.Asks [] :=
    (gatewayBody_obeys pydantic call).mono (fun _ _ _ => trivial) fun _ a _ platform priority hshort =>
      absurd hshort (by simp [hnever])
  cases call with
  | go call =>
    cases call with
    | popTasks w platforms capacity =>
      refine (pollPlatforms_asks platforms [] []).mono (fun _ _ _ => trivial) fun own a hasks platform priority h => ?_
      cases a with
      | error e => exact absurd h Bool.false_ne_true
      | ok tasks =>
        simp only [GatewayCall.comesBackShort, Bool.and_eq_true, decide_eq_true_eq] at h
        exact ⟨w, hasks h.2 platform h.1.1 priority h.1.2⟩
    | pushTask task => exact hother fun a _ _ => by cases a <;> rfl
    | completeTask w taskID => exact hother fun a _ _ => by cases a <;> rfl
    | failTask w taskID => exact hother fun a _ _ => by cases a <;> rfl
    | submitResults w results => exact hother fun _ _ _ => rfl
  | popTasks now w platforms capacity =>
    refine (pollPlatforms_asks platforms [] []).mono (fun _ _ _ => trivial) fun own a hasks platform priority h => ?_
    cases a with
    | error e => exact absurd h Bool.false_ne_true
    | ok tasks =>
      simp only [GatewayCall.comesBackShort, Bool.and_eq_true, decide_eq_true_eq] at h
      exact ⟨w, hasks h.2 platform h.1.1 priority h.1.2⟩
  | completeTask w taskID => exact hother fun a _ _ => by cases a <;> rfl
  | submitResults w turns => exact hother fun _ _ _ => rfl

/-! ### What is handed out -/

/-- The command asks this queue. -/
def asksQueue (key : String) (a : SharedStep) : Bool :=
  match a.cmd with
  | .rpoplpush src _ => src = key
  | _ => false

/-- The task that the command takes from this queue. -/
def takenFrom? (key : String) : SharedStep → Option String
  | ⟨_, .rpoplpush src _, raw⟩ => if src = key then raw else none
  | _ => none

/-- The tasks that are taken from a queue, in order. -/
def handedOut (platform : String) (priority : ℤ) (es : List (Event Cmd Reply GatewayCall GatewayRet)) : List String :=
  (applied es).filterMap (takenFrom? (queueKey platform priority))

/-- The call that this event ends has polled the queue, and comes back short. -/
def endsShort (platform : String) (priority : ℤ) : Event Cmd Reply GatewayCall GatewayRet → Bool
  | .finish _ call a => call.comesBackShort platform priority a
  | _ => false

/-- The polls of a queue that lie within this history and come back short. -/
def shortPolls (platform : String) (priority : ℤ) (es : List (Event Cmd Reply GatewayCall GatewayRet)) : ℕ :=
  wholeCalls (endsShort platform priority) es

/-- **One request each.** -/
theorem shortPolls_le {pydantic : Legacy.Pydantic} {platform : String} {priority : ℤ}
    {es₁ es₂ : List (Event Cmd Reply GatewayCall GatewayRet)}
    {p : Pool Cmd Reply GatewayCall GatewayRet Store} (hr : (sharedApi pydantic).Run (es₁ ++ es₂) p) :
    shortPolls platform priority es₂ ≤ (applied es₂).countP (asksQueue (queueKey platform priority)) := by
  unfold applied
  rw [List.countP_filterMap]
  refine wholeCalls_le_countP hr ?_ ?_
  · intro e he
    cases e with
    | finish i call a => exact ⟨i, call, a, rfl⟩
    | _ => exact absurd he Bool.false_ne_true
  · intro pre i call a post hes hshort
    obtain ⟨w, r, hasked⟩ := (gatewayBody_asks pydantic).returned (hes ▸ hr) platform priority hshort
    refine ⟨_, hasked, fun o ho => ?_⟩
    obtain rfl := Outcome.eq_of_seen ho
    simp [Event.applied?, asksQueue]

section Read

variable {a : SharedStep} {t : Option TaskTransfer} {platform : String} {priority : ℤ}

/-- A transfer is read off a command in one way. -/
theorem Transfers.unique {t' : Option TaskTransfer} (h : Transfers a t) (h' : Transfers a t') : t = t' := by
  generalize ha : a = a' at h'
  cases h <;> cases h' <;> simp only [Applied.mk.injEq, reduceCtorEq, false_and, and_false] at ha <;>
    obtain ⟨-, hc, hr⟩ := ha
  case push.push =>
    obtain ⟨hkey, rfl⟩ := Cmd.lpush.inj hc
    obtain ⟨rfl, rfl⟩ := queueKey_inj hkey
    rfl
  case move.move =>
    obtain ⟨hsrc, hdst⟩ := Cmd.rpoplpush.inj hc
    obtain ⟨rfl, rfl⟩ := queueKey_inj hsrc
    obtain rfl := processingKey_inj hdst
    obtain rfl := Option.some.inj (eq_of_heq hr)
    rfl
  case empty.empty =>
    obtain ⟨hsrc, hdst⟩ := Cmd.rpoplpush.inj hc
    obtain ⟨rfl, rfl⟩ := queueKey_inj hsrc
    obtain rfl := processingKey_inj hdst
    rfl
  case remove.remove =>
    obtain ⟨hkey, rfl⟩ := Cmd.lrem.inj hc
    obtain rfl := processingKey_inj hkey
    rfl
  -- the reply tells the others apart
  case move.empty => exact absurd (eq_of_heq hr) (by simp)
  case empty.move => exact absurd (eq_of_heq hr) (by simp)
  case remove.gone => exact absurd (eq_of_heq hr) (Nat.succ_ne_zero _)
  case gone.remove => exact absurd (eq_of_heq hr).symm (Nat.succ_ne_zero _)
  all_goals rfl

theorem Transfers.asks (h : Transfers a t) :
    asksQueue (queueKey platform priority) a = t.any (Transfer.asks (platform, priority)) := by
  have hkey (q : String × ℤ) : decide (taskKeys.queue q = taskKeys.queue (platform, priority)) =
      decide (q = (platform, priority)) := decide_eq_decide.mpr taskKeys.queue_injective.eq_iff
  cases h with
  | @move _ platform' _ _ priority' => exact hkey (platform', priority')
  | @empty _ platform' _ priority' => exact hkey (platform', priority')
  | _ => rfl

theorem Transfers.takenFrom (h : Transfers a t) :
    takenFrom? (queueKey platform priority) a = t.bind (Transfer.leased? (platform, priority)) := by
  cases h with
  | @move _ platform' _ raw priority' =>
    exact if_congr (taskKeys.queue_injective.eq_iff (a := (platform', priority')) (b := (platform, priority))) rfl rfl
  | empty => exact ite_self none
  | _ => rfl

end Read

/-- **No task is passed over.** -/
theorem take_polls_prefix_handedOut (pydantic : Legacy.Pydantic) (platform : String) (priority : ℤ)
    (es₁ es₂ : List (Event Cmd Reply GatewayCall GatewayRet)) (p₁ p : Pool Cmd Reply GatewayCall GatewayRet Store)
    (hr₁ : (sharedApi pydantic).Run es₁ p₁) (hr : (sharedApi pydantic).Run (es₁ ++ es₂) p) :
    (p₁.store.redis.lists (queueKey platform priority)).reverse.take (shortPolls platform priority es₂) <+:
      handedOut platform priority es₂ := by
  obtain ⟨ts₁, hrun₁, hread₁⟩ := exists_transfers hr₁
  obtain ⟨ts, hrun, hread⟩ := exists_transfers hr
  -- the second part of the history, read for itself
  unfold applied at hread hread₁
  rw [List.filterMap_append] at hread
  obtain ⟨ts₁', ts₂, rfl, hread₁', hread₂⟩ := hread.of_append
  obtain rfl := hread₁.unique (fun _ _ _ h h' => h.unique h') hread₁'
  have hasked : (applied es₂).countP (asksQueue (queueKey platform priority)) = _ :=
    hread₂.countP_eq fun _ _ h => h.asks
  have hhanded : handedOut platform priority es₂ = _ := hread₂.filterMap_eq fun _ _ h => h.takenFrom
  rw [hhanded]
  calc
    _ <+: (p₁.store.redis.lists (queueKey platform priority)).reverse.take
        (ts₂.countP (Transfer.asks (platform, priority))) :=
      List.take_prefix_take_left (hasked ▸ shortPolls_le hr)
    _ <+: leased (platform, priority) ts₂ := take_asked_prefix_leased hrun₁ hrun (platform, priority)

/-! ### Two polls that come back short -/

/-- Two tasks that wait in one queue. -/
def twoPushes : List GatewayCall :=
  [.go (.pushTask sampleTask), .go (.pushTask { sampleTask with task_id := "t2" })]

/-- A poll of either gateway, by workers that could take five. -/
def twoPolls : List GatewayCall :=
  [.go (.popTasks "w1" ["beacon"] 5), .popTasks Legacy.sampleDatetime "w2" ["beacon"] 5]

/-- The events of calls that run alone, from the store that the pushes leave. -/
def pushEvents : List (Event Cmd Reply GatewayCall GatewayRet) :=
  sessionEvents server (GatewayCall.body .strict) twoPushes .blank

def pushedStore : Store := sessionStore server (GatewayCall.body .strict) twoPushes .blank

def pollEvents : List (Event Cmd Reply GatewayCall GatewayRet) :=
  sessionEvents server (GatewayCall.body .strict) twoPolls pushedStore

theorem take_polls_prefix_handedOut_twoPolls :
    (pushedStore.redis.lists (queueKey "beacon" sampleTask.priority)).reverse.take
        (shortPolls "beacon" sampleTask.priority pollEvents) <+: handedOut "beacon" sampleTask.priority pollEvents ∧
      (pushedStore.redis.lists (queueKey "beacon" sampleTask.priority)).length = 2 ∧
      shortPolls "beacon" sampleTask.priority pollEvents = 2 := by
  have hr₁ : (sharedApi .strict).Run pushEvents ⟨pushedStore, fun _ => none⟩ := run_session twoPushes rfl
  have hr : (sharedApi .strict).Run
      (sessionEvents server (GatewayCall.body .strict) (twoPushes ++ twoPolls) .blank) _ := run_session _ rfl
  have hevents : sessionEvents server (GatewayCall.body .strict) (twoPushes ++ twoPolls) .blank =
      pushEvents ++ pollEvents := by
    simp [pushEvents, pollEvents, pushedStore, twoPushes, sessionEvents, sessionStore]
  rw [hevents] at hr
  exact ⟨take_polls_prefix_handedOut .strict "beacon" sampleTask.priority pushEvents pollEvents
    ⟨pushedStore, fun _ => none⟩ _ hr₁ hr, by decide +kernel, by decide +kernel⟩

end TaxlienGateway
