import TaxlienGateway.Framework.Accounting
import TaxlienGateway.Framework.Lifetime
import TaxlienGateway.Framework.Schedule
import TaxlienGateway.WorkerApi.Conservation

/-!
# Acknowledged completions

`completeTask` looks for the payload with `LRANGE` and removes it with `LREM`; its answer says whether
`LREM` met an error, not whether it removed anything. Between the two commands another call may take the
payload away, and then both report the task as completed. Conversely, if the answer of an `LREM` is lost,
the payload is gone and the call says that it has not found it.

* `CompletionEnds` — how the two calls end, exactly;
* `StillThere` — the steps at which an `LREM` of theirs is answered if and only if the payload is still
  in the list;
* `acknowledged_once` — in every run of such steps, however it interleaves, a completion is acknowledged
  if and only if the call has itself removed a copy, and so no more often than copies were delivered.
-/

namespace TaxlienGateway

open Framework Model

/-! ### What acknowledgements should say -/

/-- The worker and the task of a `CompleteTask` or a `FailTask`. -/
def Call.completion? : Call → Option (String × String)
  | .completeTask w taskID => some (w, taskID)
  | .failTask w taskID => some (w, taskID)
  | _ => none

/-- Such a call returns. -/
def completes (w taskID : String) : Event Cmd Reply Call Ret → Bool
  | .finish _ call _ => call.completion? == some (w, taskID)
  | _ => false

/-- It returns `true`. -/
def acknowledges (w taskID : String) : Event Cmd Reply Call Ret → Bool
  | .finish _ (.completeTask w' t) (.ok b) => w' == w && t == taskID && b
  | .finish _ (.failTask w' t) (.ok b) => w' == w && t == taskID && b
  | _ => false

/-- Its `LREM` removes a payload of the task from the list of the worker. -/
def releases (w taskID : String) : Event Cmd Reply Call Ret → Bool
  | .cmd _ call (.lrem key raw) o =>
    call.completion? == some (w, taskID) && key == processingKey w && takes taskID raw &&
      o.effect.any (0 < ·)
  | _ => false

/-- The call at index `i` has removed a payload of the task. -/
def HasReleased (w taskID : String) (i : ℕ) (es : List (Event Cmd Reply Call Ret)) : Prop :=
  ∃ pre e post, es = pre ++ e :: post ∧ e.index = i ∧ releases w taskID e = true ∧ StaysInFlight i post

/-- Completions are acknowledged once. -/
structure AcknowledgedOnce (es : List (Event Cmd Reply Call Ret)) : Prop where
  /-- A call returns `true` if and only if its own `LREM` has removed a payload of the task. -/
  own : ∀ w taskID pre e post, es = pre ++ e :: post → completes w taskID e = true →
    (acknowledges w taskID e = true ↔ HasReleased w taskID e.index pre)
  /-- Hence no more calls return `true` than copies of the task were delivered to the worker. -/
  once : ∀ w taskID, es.countP (acknowledges w taskID) ≤
    (collect (movesTo (processingKey w)) es).countP (takes taskID)

/-! ### When they do -/

/-- If the step executes the `LREM` of a `CompleteTask` or `FailTask`, then its answer arrives if and
only if the payload is still in the list. -/
def StillThere (p : Pool Cmd Reply Call Ret Store) : Event Cmd Reply Call Ret → Prop
  | .cmd _ call (.lrem key raw) o => call.completion?.isSome → o.effect.isSome →
    (o.seen.isOk ↔ raw ∈ p.store.redis.lists key)
  | _ => True

/-! ### How the two calls end -/

/-- The history of a `CompleteTask` that returns, and its answer. -/
inductive CompletionEnds (w taskID : String) : List (Op Cmd Reply) → Except String Bool → Prop
  | unread (e : String) : CompletionEnds w taskID [⟨.lrange (processingKey w), .error e⟩] (.error e)
  | missing {items : List String} (h : findTask taskID items = none) :
      CompletionEnds w taskID [⟨.lrange (processingKey w), .ok items⟩] (.ok false)
  | kept {items : List String} {raw : String} (h : findTask taskID items = some raw) (e : String) :
      CompletionEnds w taskID
        [⟨.lrange (processingKey w), .ok items⟩, ⟨.lrem (processingKey w) raw, .error e⟩] (.ok false)
  | removed {items : List String} {raw : String} (h : findTask taskID items = some raw) (n : ℕ) :
      CompletionEnds w taskID
        [⟨.lrange (processingKey w), .ok items⟩, ⟨.lrem (processingKey w) raw, .ok n⟩] (.ok true)

theorem completeTask_ends (w taskID : String) :
    (completeTask w taskID).Obeys (fun _ _ => True) (CompletionEnds w taskID) [] := by
  refine ⟨trivial, fun r => ?_⟩
  cases r with
  | error e => exact .unread e
  | ok items =>
    simp only [Prog.bind]
    cases h : findTask taskID items with
    | none => exact .missing h
    | some raw =>
      refine ⟨trivial, fun r => ?_⟩
      cases r with
      | error e => exact .kept h e
      | ok n => exact .removed h n

/-- Such a call returns `true` if and only if its `LREM` has been answered. -/
theorem CompletionEnds.true_iff {w taskID : String} {own : List (Op Cmd Reply)} {b : Except String Bool}
    (h : CompletionEnds w taskID own b) : b = .ok true ↔
      ∃ raw n, takes taskID raw = true ∧
        (⟨.lrem (processingKey w) raw, .ok n⟩ : Op Cmd Reply) ∈ own := by
  cases h with
  | unread e => simp
  | missing h => simp
  | kept h e => simp
  | @removed items raw h n =>
    refine iff_of_true rfl ⟨raw, n, takes_of_findTask h, ?_⟩
    exact List.mem_cons_of_mem _ List.mem_cons_self

/-- How a call of the worker API ends, as far as it concerns completions. -/
def Call.Ends : (call : Call) → List (Op Cmd Reply) → Ret call → Prop
  | .completeTask w taskID, own, a => CompletionEnds w taskID own a
  | .failTask w taskID, own, a => CompletionEnds w taskID own a
  | _, _, _ => True

theorem body_ends : Obeyed body (fun _ _ _ => True) Call.Ends := by
  intro call
  cases call with
  | completeTask w taskID => exact completeTask_ends w taskID
  | failTask w taskID => exact completeTask_ends w taskID
  | pushTask task => exact (body_obeys (.pushTask task)).mono (fun _ _ _ => trivial) fun _ _ h => h
  | popTasks w platforms capacity =>
    exact (body_obeys (.popTasks w platforms capacity)).mono (fun _ _ _ => trivial) fun _ _ h => h
  | submitResults w results =>
    exact (body_obeys (.submitResults w results)).mono (fun _ _ _ => trivial) fun _ _ h => h

/-! ### One call -/

section Run

variable {es pre post : List (Event Cmd Reply Call Ret)} {p : Pool Cmd Reply Call Ret Store}
  {w taskID : String} {e : Event Cmd Reply Call Ret}

/-- A call that completes ends as `CompletionEnds` says, and its answer is its acknowledgement. -/
theorem ends_of_completes (hr : workerApi.Run (pre ++ e :: post) p) (he : completes w taskID e = true) :
    ∃ i call a b, e = .finish i call a ∧ call.completion? = some (w, taskID) ∧
      CompletionEnds w taskID (ownOps i pre) b ∧ (acknowledges w taskID e = true ↔ b = .ok true) := by
  cases e with
  | finish i call a =>
    have hcall : call.completion? = some (w, taskID) := eq_of_beq he
    have hends := body_ends.returned hr
    cases call with
    | completeTask w' t =>
      obtain ⟨rfl, rfl⟩ := Prod.mk.inj (Option.some.inj hcall)
      refine ⟨i, _, a, a, rfl, rfl, hends, ?_⟩
      cases a <;> simp [acknowledges]
    | failTask w' t =>
      obtain ⟨rfl, rfl⟩ := Prod.mk.inj (Option.some.inj hcall)
      refine ⟨i, _, a, a, rfl, rfl, hends, ?_⟩
      cases a <;> simp [acknowledges]
    | pushTask task => exact absurd hcall (by simp [Call.completion?])
    | popTasks w platforms capacity => exact absurd hcall (by simp [Call.completion?])
    | submitResults w results => exact absurd hcall (by simp [Call.completion?])
  | start i call => exact absurd he (by simp [completes])
  | cmd i call c o => exact absurd he (by simp [completes])
  | crash i call => exact absurd he (by simp [completes])

theorem completes_of_acknowledges (h : acknowledges w taskID e = true) :
    completes w taskID e = true := by
  unfold acknowledges at h
  split at h
  · obtain ⟨h, -⟩ := Bool.and_eq_true_iff.mp h
    obtain ⟨hw, ht⟩ := Bool.and_eq_true_iff.mp h
    rw [completes, Call.completion?, eq_of_beq hw, eq_of_beq ht]
    exact beq_self_eq_true _
  · obtain ⟨h, -⟩ := Bool.and_eq_true_iff.mp h
    obtain ⟨hw, ht⟩ := Bool.and_eq_true_iff.mp h
    rw [completes, Call.completion?, eq_of_beq hw, eq_of_beq ht]
    exact beq_self_eq_true _
  · exact absurd h Bool.false_ne_true

theorem of_releases (h : releases w taskID e = true) :
    ∃ i call raw o n, e = .cmd i call (.lrem (processingKey w) raw) o ∧
      call.completion? = some (w, taskID) ∧ takes taskID raw = true ∧ o.effect = some n ∧ 0 < n := by
  cases e with
  | cmd i call c o =>
    cases c with
    | lrem key raw =>
      obtain ⟨h, hn⟩ := Bool.and_eq_true_iff.mp h
      obtain ⟨h, htakes⟩ := Bool.and_eq_true_iff.mp h
      obtain ⟨hcall, hkey⟩ := Bool.and_eq_true_iff.mp h
      obtain rfl := eq_of_beq hkey
      obtain ⟨n, ho, hpos⟩ := (Option.any_eq_true _ _).mp hn
      exact ⟨i, call, raw, o, n, rfl, eq_of_beq hcall, htakes, ho, of_decide_eq_true hpos⟩
    | _ => exact absurd h (by simp [releases])
  | start i call => exact absurd h (by simp [releases])
  | finish i call a => exact absurd h (by simp [releases])
  | crash i call => exact absurd h (by simp [releases])

/-- What `LREM` answers: it has removed a payload if and only if there was one. -/
theorem lrem_reply {s s' : Pool Cmd Reply Call Ret Store} {i : ℕ} {call : Call} {key raw : String}
    {o : Outcome ℕ} {n : ℕ} (hs : workerApi.step s (.cmd i call (.lrem key raw) o) s')
    (ho : o.effect = some n) : 0 < n ↔ raw ∈ s.store.redis.lists key := by
  cases hs with
  | cmd hth hx =>
    have hn := (Prod.mk.inj (exec_lrem (Server.exec_of_answer hx ho))).2
    rw [← hn]
    split
    · next h => exact iff_of_true Nat.one_pos h
    · next h => exact iff_of_false (Nat.lt_irrefl 0) h

/-- **An acknowledgement is the call's own.** -/
theorem acknowledges_iff (hr : (workerApi.restrict StillThere).Run es p) (hes : es = pre ++ e :: post)
    (he : completes w taskID e = true) :
    acknowledges w taskID e = true ↔ HasReleased w taskID e.index pre := by
  obtain ⟨i, call, a, b, rfl, hcall, hends, hack⟩ := ends_of_completes (hes ▸ hr.of_restrict) he
  rw [hack, hends.true_iff]
  constructor
  · rintro ⟨raw, n, htakes, hop⟩
    obtain ⟨pre₁, o, pre₂, rfl, hseen, hstays⟩ := exists_cmd_of_finish (hes ▸ hr.of_restrict) hop
    obtain rfl := Outcome.eq_of_seen hseen
    refine ⟨pre₁, _, pre₂, rfl, rfl, ?_, hstays⟩
    -- it was answered, so the payload was still there
    rw [hes, List.append_assoc, List.cons_append] at hr
    obtain ⟨s, s', -, ⟨hstep, hthere⟩, -⟩ := hr.step_at
    have hmem := (hthere (by simp [hcall]) rfl).mp rfl
    have hpos := (lrem_reply hstep rfl).mpr hmem
    simp [releases, hcall, htakes, hpos]
  · rintro ⟨pre₁, e', pre₂, rfl, hindex, hreleases, hstays⟩
    obtain ⟨j, call', raw, o, n, rfl, hcall', htakes, ho, hpos⟩ := of_releases hreleases
    obtain rfl : j = i := hindex
    -- it removed a payload, so it was answered
    rw [hes, List.append_assoc, List.cons_append] at hr
    obtain ⟨s, s', -, ⟨hstep, hthere⟩, -⟩ := hr.step_at
    have hok := (hthere (by simp [hcall']) (by simp [ho])).mpr ((lrem_reply hstep ho).mp hpos)
    cases o with
    | ok n => exact ⟨raw, n, htakes, mem_ownOps_of_staysInFlight hstays⟩
    | lost n e => exact absurd hok Bool.false_ne_true
    | failed e => exact absurd ho (by simp)

/-! ### Counting -/

/-- Every release removes a copy of the task from the list of the worker. -/
theorem countP_releases_le (es : List (Event Cmd Reply Call Ret)) :
    es.countP (releases w taskID) ≤
      (collect (removesFrom (processingKey w)) es).countP (takes taskID) := by
  induction es using List.reverseRecOn with
  | nil => exact Nat.zero_le _
  | append_singleton es e ih =>
    rw [List.countP_append, List.countP_singleton, collect, applied_append_singleton,
      List.flatMap_append, List.countP_append]
    refine Nat.add_le_add ih ?_
    split
    · next h =>
      obtain ⟨i, call, raw, o, n, rfl, -, htakes, ho, hpos⟩ := of_releases h
      have hcopies : removesFrom (processingKey w) ⟨call, .lrem (processingKey w) raw, n⟩ =
          List.replicate n raw := if_pos rfl
      simp only [Event.applied?, ho, Option.map_some, Option.toList_some, List.flatMap_singleton, hcopies,
        List.countP_replicate, htakes, if_true]
      exact hpos
    · exact Nat.zero_le _

/-- What was removed from the list of a worker was delivered to it. -/
theorem countP_removes_le (hr : workerApi.Run es p) :
    (collect (removesFrom (processingKey w)) es).countP (takes taskID) ≤
      (collect (movesTo (processingKey w)) es).countP (takes taskID) := by
  have hmoved := congrArg (Multiset.countP (takes taskID · = true)) (processing_add_removed hr w)
  simp only [Multiset.countP_add, Multiset.coe_countP, Bool.decide_eq_true] at hmoved
  exact hmoved ▸ Nat.le_add_left _ _

/-- Every acknowledgement has a release of its own. -/
theorem countP_acknowledges_le (hr : (workerApi.restrict StillThere).Run es p) :
    es.countP (acknowledges w taskID) ≤ es.countP (releases w taskID) := by
  suffices hpaid : ∀ pre e post, es = pre ++ e :: post → acknowledges w taskID e = true →
      Paid (releases w taskID) (acknowledges w taskID) Event.index (es.countP (releases w taskID)) pre e
    from countP_le_of_paid hpaid
  intro pre e post hes he
  obtain ⟨pre₁, e', pre₂, rfl, hindex, hreleases, hstays⟩ :=
    (acknowledges_iff hr hes (completes_of_acknowledges he)).mp he
  refine ⟨pre₁, e', pre₂, rfl, hreleases, ?_, hindex, fun e'' he'' hack hindex' => ?_⟩
  · -- this release is one of them
    rw [hes, List.append_assoc, List.countP_append, List.cons_append, List.countP_cons, if_pos hreleases]
    omega
  · -- the call has not returned before
    obtain ⟨_, _, _, rfl⟩ := hstays e'' he'' hindex'
    exact absurd hack (by simp [acknowledges])

/-- **Completions are acknowledged once**, in every run in which the payload that a `CompleteTask` or
`FailTask` has found is still there when it removes it, and the answer to a removal is not lost. -/
theorem acknowledged_once (es : List (Event Cmd Reply Call Ret)) (p : Pool Cmd Reply Call Ret Store)
    (hr : (workerApi.restrict StillThere).Run es p) : AcknowledgedOnce es where
  own _ _ _ _ _ hes he := acknowledges_iff hr hes he
  once w taskID :=
    calc es.countP (acknowledges w taskID)
      _ ≤ es.countP (releases w taskID) := countP_acknowledges_le hr
      _ ≤ (collect (removesFrom (processingKey w)) es).countP (takes taskID) := countP_releases_le es
      _ ≤ (collect (movesTo (processingKey w)) es).countP (takes taskID) :=
        countP_removes_le hr.of_restrict

end Run

/-! ### Two completions of one delivery -/

/-- The moves of pushing the task, fetching it and completing it twice, the latter in the given order. -/
def completeTwice (order : List ℕ) : List (Move Call) :=
  .start 0 (.pushTask sampleTask) :: List.replicate 2 (.next 0 none) ++
    .start 0 (.popTasks "w1" ["beacon"] 5) :: List.replicate 5 (.next 0 none) ++
    .start 1 (.completeTask "w1" "t1") :: .start 2 (.completeTask "w1" "t1") :: order.map (.next · none)

/-- What happens then. -/
def completeTwiceEvents (order : List ℕ) : List (Event Cmd Reply Call Ret) :=
  (schedule server body (completeTwice order) ⟨.blank, fun _ => none⟩).1

instance decidableStillThere (p : Pool Cmd Reply Call Ret Store) :
    ∀ e, Decidable (StillThere p e)
  | .cmd _ call (.lrem key raw) o => inferInstanceAs (Decidable (call.completion?.isSome →
      o.effect.isSome → (o.seen.isOk ↔ raw ∈ p.store.redis.lists key)))
  | .cmd _ _ (.lpush ..) _ => isTrue trivial
  | .cmd _ _ (.rpoplpush ..) _ => isTrue trivial
  | .cmd _ _ (.lrange ..) _ => isTrue trivial
  | .cmd _ _ (.selectExists ..) _ => isTrue trivial
  | .cmd _ _ (.insertParcel ..) _ => isTrue trivial
  | .start .. => isTrue trivial
  | .finish .. => isTrue trivial
  | .crash .. => isTrue trivial

/-- One after the other: the second call finds nothing. -/
theorem completeTwice_acknowledged : AcknowledgedOnce (completeTwiceEvents [1, 1, 1, 2, 2]) := by
  have hpermits : Permits server body StillThere (completeTwice [1, 1, 1, 2, 2])
      ⟨.blank, fun _ => none⟩ := by decide +kernel
  exact acknowledged_once _ _ (run_of_permits _ rfl hpermits)

/-- **One delivery, two acknowledgements.** Both calls find the payload before either removes it. -/
theorem one_delivery_two_acknowledgements :
    (∃ p, workerApi.Run (completeTwiceEvents [1, 2, 1, 2, 1, 2]) p) ∧
    ¬ AcknowledgedOnce (completeTwiceEvents [1, 2, 1, 2, 1, 2]) := by
  refine ⟨⟨_, run_of_schedule _ rfl⟩, fun hack => ?_⟩
  have hle := hack.once "w1" "t1"
  exact absurd hle (by decide +kernel)

end TaxlienGateway
