import TaxlienGateway.Service.Polling

/-!
# A poll that runs alone

When no other call interferes and the queues hold nothing but encodings of tasks, a poll cannot
fail. What it returns is what has left the queues (`PollResult`), and it returns nothing only if the
polled queues are empty: `pollPlatforms_run`.

Everything is stated for an encoding `enc` that `decode` reads back, and for an arbitrary predicate
`Q platform priority t` on what may wait in the queue of a platform and a priority.
-/

namespace TaxlienGateway

open Framework

/-- The keys that are polled for some platform. -/
def IsPolledKey (key : String) : Prop :=
  ∃ platform, ∃ priority ∈ priorities, key = queueKey platform priority

theorem isPolledKey_queueKey_iff {platform : String} {priority : ℤ} :
    IsPolledKey (queueKey platform priority) ↔ priority ∈ priorities := by
  constructor
  · rintro ⟨platform', priority', hprio, h⟩
    rwa [(queueKey_inj h).2]
  · exact fun h => ⟨platform, priority, h, rfl⟩

theorem not_isPolledKey_processingKey (w : String) : ¬ IsPolledKey (processingKey w) := by
  rintro ⟨platform, priority, -, h⟩
  exact queueKey_ne_processingKey platform priority w h.symm

section PollRun

variable {τ : Type} (enc : τ → String) (Q : String → ℤ → τ → Prop)

/-- Every queue holds encodings of values that belong there. -/
def QueuesHold (redis : ListStore String String) : Prop :=
  ∀ platform priority, ∀ raw ∈ redis.lists (queueKey platform priority),
    ∃ t, enc t = raw ∧ Q platform priority t

/-- Between `s` and `s'` the values `new` have left the polled queues. -/
structure PollResult (s s' : Store) (new : List τ) : Prop where
  holds : QueuesHold enc Q s'.redis
  content : s'.redis.content IsPolledKey + (new.map enc : Multiset String) =
    s.redis.content IsPolledKey
  same : new = [] → s' = s

variable {enc Q}

theorem PollResult.refl {s : Store} (hs : QueuesHold enc Q s.redis) : PollResult enc Q s s [] :=
  ⟨hs, by simp, fun _ => rfl⟩

theorem PollResult.trans {s s' s'' : Store} {new new' : List τ} (h : PollResult enc Q s s' new)
    (h' : PollResult enc Q s' s'' new') : PollResult enc Q s s'' (new ++ new') where
  holds := h'.holds
  content := by
    rw [← h.content, ← h'.content, List.map_append, ← Multiset.coe_add, add_assoc,
      add_comm (new'.map enc : Multiset String)]
  same hnew := by
    obtain ⟨hn, hn'⟩ := List.append_eq_nil_iff.mp hnew
    rw [h'.same hn', h.same hn]

/-- One `RPOPLPUSH` that finds something. -/
theorem PollResult.pop {s : Store} {redis : ListStore String String} {platform w : String}
    {priority : ℤ} {raw : String} {t : τ} (hs : QueuesHold enc Q s.redis)
    (hprio : priority ∈ priorities) (ht : enc t = raw)
    (hx : s.redis.rpoplpush (queueKey platform priority) (processingKey w) = (redis, some raw)) :
    PollResult enc Q s { s with redis := redis } [t] where
  holds := by
    intro platform' priority' raw' hraw'
    refine hs platform' priority' raw' ?_
    by_cases hk : queueKey platform' priority' = queueKey platform priority
    · -- what is left in the polled queue was in it before
      have hrev := ListStore.reverse_rpoplpush (queueKey_ne_processingKey _ _ w) hx
      rw [hk] at hraw' ⊢
      rw [← List.mem_reverse, hrev]
      exact List.mem_cons_of_mem _ (List.mem_reverse.mpr hraw')
    · rwa [ListStore.lists_rpoplpush_of_ne hk (queueKey_ne_processingKey _ _ w) hx] at hraw'
  content := by
    rw [← ListStore.content_rpoplpush_out ⟨platform, priority, hprio, rfl⟩
      (not_isPolledKey_processingKey w) hx, List.map_singleton, ht]
    rfl
  same h := absurd h (by simp)

variable {decode : String → Except String (Option τ)}

/-- **The inner loop.** -/
theorem pollPriorities_run (hdec : ∀ t, decode (enc t) = .ok (some t)) (w platform : String)
    (capacity : ℤ) :
    ∀ (ps : List ℤ) (tasks : List τ) (s : Store), (∀ p ∈ ps, p ∈ priorities) →
      QueuesHold enc Q s.redis →
      ∃ s' new,
        (pollPriorities decode (processingKey w) platform capacity ps tasks).runOk server s =
          (s', .ok (tasks ++ new)) ∧
        PollResult enc Q s s' new ∧
        (new = [] → tasks.length < capacity →
          ∀ p ∈ ps, s.redis.lists (queueKey platform p) = []) := by
  intro ps
  induction ps with
  | nil =>
    intro tasks s _ hs
    refine ⟨s, [], ?_, .refl hs, fun _ _ p hp => absurd hp (by simp)⟩
    rw [List.append_nil]
    rfl
  | cons priority ps ih =>
    intro tasks s hps hs
    have hprio : priority ∈ priorities := hps _ List.mem_cons_self
    have hrest : ∀ p ∈ ps, p ∈ priorities := fun p hp => hps p (List.mem_cons_of_mem _ hp)
    unfold pollPriorities
    by_cases hcap : capacity ≤ tasks.length
    · -- the capacity is used up, and the loop is left
      rw [if_pos hcap]
      refine ⟨s, [], ?_, .refl hs, fun _ hlt => absurd hlt (by omega)⟩
      rw [List.append_nil]
      rfl
    · rw [if_neg hcap, Prog.issue_bind, Prog.runOk_cmd]
      rcases hx : s.redis.rpoplpush (queueKey platform priority) (processingKey w)
        with ⟨redis, _ | raw⟩
      · -- an empty queue: the store has not changed
        obtain ⟨hempty, rfl⟩ := ListStore.rpoplpush_none hx
        rw [exec_of_rpoplpush hx]
        obtain ⟨s', new, hrun, hres, hnil⟩ := ih tasks s hrest hs
        refine ⟨s', new, hrun, hres, fun hnew hlt p hp => ?_⟩
        -- if the rest finds nothing either, this queue was empty as well
        rcases List.mem_cons.mp hp with rfl | hp
        · exact hempty
        · exact hnil hnew hlt p hp
      · -- a payload has moved: it is the encoding of a task, so decoding cannot fail
        obtain ⟨t, ht, -⟩ := hs platform priority raw (ListStore.mem_of_rpoplpush hx)
        have hpop := PollResult.pop hs hprio ht hx
        obtain ⟨s', new, hrun, hres, -⟩ := ih (tasks ++ [t]) _ hrest hpop.holds
        refine ⟨s', t :: new, ?_, hpop.trans hres, fun hnew => absurd hnew (by simp)⟩
        -- the loop goes on with the task appended
        rw [exec_of_rpoplpush hx, List.append_cons]
        simp only [← ht, hdec]
        exact hrun

/-- **A poll that runs alone** returns what has left the queues, and nothing only if they are
empty. -/
theorem pollPlatforms_run (hdec : ∀ t, decode (enc t) = .ok (some t)) (w : String)
    (capacity : ℤ) :
    ∀ (platforms : List String) (tasks : List τ) (s : Store), QueuesHold enc Q s.redis →
      ∃ s' new,
        (pollPlatforms decode (processingKey w) capacity platforms tasks).runOk server s =
          (s', .ok (tasks ++ new)) ∧
        PollResult enc Q s s' new ∧
        (new = [] → tasks.length < capacity → ∀ platform ∈ platforms, ∀ p ∈ priorities,
          s.redis.lists (queueKey platform p) = []) := by
  intro platforms
  induction platforms with
  | nil =>
    intro tasks s hs
    refine ⟨s, [], ?_, .refl hs, fun _ _ platform hplat => absurd hplat (by simp)⟩
    rw [List.append_nil]
    rfl
  | cons platform platforms ih =>
    intro tasks s hs
    unfold pollPlatforms
    by_cases hcap : capacity ≤ tasks.length
    · rw [if_pos hcap]
      refine ⟨s, [], ?_, .refl hs, fun _ hlt => absurd hlt (by omega)⟩
      rw [List.append_nil]
      rfl
    · obtain ⟨s₁, new₁, hrun₁, hres₁, hnil₁⟩ := pollPriorities_run hdec w platform capacity
        priorities tasks s (fun _ hp => hp) hs
      obtain ⟨s₂, new₂, hrun₂, hres₂, hnil₂⟩ := ih (tasks ++ new₁) s₁ hres₁.holds
      refine ⟨s₂, new₁ ++ new₂, ?_, hres₁.trans hres₂, ?_⟩
      · rw [if_neg hcap, Prog.runOk_bind, hrun₁, ← List.append_assoc]
        exact hrun₂
      · intro hnew hlt platform' hplat p hp
        obtain ⟨rfl, rfl⟩ := List.append_eq_nil_iff.mp hnew
        rcases List.mem_cons.mp hplat with rfl | hplat
        · exact hnil₁ rfl hlt p hp
        · -- the first platform has changed nothing
          rw [← hres₁.same rfl]
          exact hnil₂ rfl (by rwa [List.append_nil]) platform' hplat p hp

end PollRun

end TaxlienGateway
