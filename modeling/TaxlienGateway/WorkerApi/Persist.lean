import TaxlienGateway.WorkerApi.Conservation

/-!
# Persist before complete

Redis and PostgreSQL have no transaction in common, so the order of the commands has to protect a
task: it may leave the processing list only after its result is in the parcels table.

* `committed_of_removed` — a payload that a `SubmitResults` removed has a result of the same batch,
  inserted before and acknowledged, whose row held its data then (`RowWritten`);
* `persist_before_complete` — when tasks leave the processing lists only through `SubmitResults`,
  a copy of a task that is no longer in the list it was moved to has its result in the table.

The removal is tied to the insert by the caller's own history (`SubmitRule`), and the table never
loses a row (`rows_of_inserted`).
-/

namespace TaxlienGateway

open Framework Model

variable {es : List (Event Cmd Reply Call Ret)} {p : Pool Cmd Reply Call Ret Store}

/-! ### Committed results -/

/-- An insert of the result `r` was executed for the batch, and the row held the data of `r` then. -/
def RowWritten (es : List (Event Cmd Reply Call Ret)) (w : String) (results : List ParcelResult)
    (r : ParcelResult) : Prop :=
  ∃ pre post i o, es = pre ++ .cmd i (.submitResults w results) (insertResult r w) o :: post ∧
    o.effect.isSome ∧
    ∀ p, workerApi.Run (pre ++ [.cmd i (.submitResults w results) (insertResult r w) o]) p →
      ∃ row ∈ p.store.parcels.rows (parcelKey r),
        row.data = r.data ∧ row.scrapedAt = r.scrapedAt ∧ row.workerID = w

/-- The worker `w` submitted a result with this task id, its insert was executed and wrote its data, and the row
of its parcel is in the table. Later inserts for the parcel may have replaced the data. -/
def Committed (es : List (Event Cmd Reply Call Ret)) (parcels : Parcels) (w taskID : String) :
    Prop :=
  ∃ results, ∃ r ∈ results, r.taskID = taskID ∧
    ⟨.submitResults w results, insertResult r w, ()⟩ ∈ applied es ∧ RowWritten es w results r ∧
    (parcels.rows (parcelKey r)).isSome

/-- **An executed insert has written its row**, in whatever state the run is. -/
theorem rowWritten_of_mem {i : ℕ} {w : String} {results : List ParcelResult} {r : ParcelResult}
    {o : Outcome Unit} (he : .cmd i (.submitResults w results) (insertResult r w) o ∈ es)
    (ho : o.effect = some ()) : RowWritten es w results r := by
  obtain ⟨pre, post, rfl⟩ := List.append_of_mem he
  refine ⟨pre, post, i, o, rfl, by rw [ho]; rfl, fun p hr => ?_⟩
  obtain ⟨p₀, -, hstep⟩ := hr.of_append_singleton
  rcases hstep.exec_cases with ⟨hidle, -⟩ | ⟨i', call, c, k, o', reply, heq, -, -, hx⟩
  · exact absurd hidle (by simp [Event.applied?, ho])
  · cases heq
    rw [(exec_insertParcel hx).2]
    exact p₀.store.parcels.exists_row_upsert (parcelKey r) r.data r.scrapedAt w

/-- Every executed insert has its row, along every run. -/
theorem rows_of_inserted (hr : workerApi.Run es p) {call : Call} {key : ParcelKey} {data : Json}
    {scrapedAt : ℤ} {workerID : String}
    (h : ⟨call, .insertParcel key data scrapedAt workerID, ()⟩ ∈ applied es) :
    (p.store.parcels.rows key).isSome := by
  let I (hist : List Step) (s : Store) : Prop := ∀ a ∈ hist, ∀ key data scrapedAt workerID,
    a.cmd = .insertParcel key data scrapedAt workerID → (s.parcels.rows key).isSome
  have hI : I (applied es) p.store := by
    refine body_obeys.applied_invariant (I := I) ?_ ?_ hr
    · intro s _ a ha
      exact absurd ha (by simp)
    · intro hist s call own c s' r ih _ hx a ha key data scrapedAt workerID ha'
      rw [exec_rows hx]
      rcases List.mem_append.mp ha with ha | ha
      · exact .inl (ih a ha key data scrapedAt workerID ha')
      · obtain rfl := List.mem_singleton.mp ha
        exact .inr ⟨data, scrapedAt, workerID, ha'⟩
  exact hI _ h key data scrapedAt workerID rfl

/-! ### A removal is preceded by a commit -/

/-- A removal issued by `SubmitResults` comes after the acknowledged insert of a result of its batch
with the task id of the payload, and no other insert of the call is in between. -/
theorem lastInsert_of_removal {pre post : List (Event Cmd Reply Call Ret)} {i : ℕ}
    {w key raw : String} {results : List ParcelResult} {o : Outcome ℕ}
    (hr : workerApi.Run (pre ++ .cmd i (.submitResults w results) (.lrem key raw) o :: post) p) :
    ∃ r ∈ results, LastInsert r w (ownOps i pre) ∧ key = processingKey w ∧
      ∃ t, unmarshalTask raw = some t ∧ t.taskID = r.taskID := by
  obtain ⟨r, hres, hrule⟩ := body_obeys.guarded hr
  rcases hrule with (hc | hc) | ⟨hc, hlast⟩
  · exact absurd hc (by simp)
  · exact absurd hc (by simp)
  · rcases hc with hc | ⟨raw', t, hc, ht, hid⟩
    · exact absurd hc (by simp)
    · obtain ⟨rfl, rfl⟩ := Cmd.lrem.inj hc
      exact ⟨r, hres, hlast, rfl, t, ht, hid⟩

/-- **A removal by `SubmitResults` comes after the commit.** -/
theorem committed_of_removed (hr : workerApi.Run es p) {i : ℕ} {w key raw : String}
    {results : List ParcelResult} {o : Outcome ℕ}
    (he : .cmd i (.submitResults w results) (.lrem key raw) o ∈ es) :
    ∃ t, unmarshalTask raw = some t ∧ Committed es p.store.parcels w t.taskID := by
  obtain ⟨pre, post, rfl⟩ := List.append_of_mem he
  obtain ⟨r, hres, ⟨h₁, h₂, hown, -⟩, -, t, ht, hid⟩ := lastInsert_of_removal hr
  obtain ⟨s, th, hpre, hth, hcall⟩ := exists_thread_of_cmd hr
  -- the acknowledged insert of the call's own history is an event of the run
  obtain ⟨o', ho', hseen⟩ := exists_cmd_of_mem_ownOps hpre i th hth
    ⟨insertResult r w, .ok ()⟩ (by rw [hown]; simp)
  rw [hcall] at ho'
  have heffect : o'.effect = some () := Outcome.effect_of_seen hseen
  have hmem : .cmd i (.submitResults w results) (insertResult r w) o' ∈
      pre ++ .cmd i (.submitResults w results) (.lrem key raw) o :: post := List.mem_append_left _ ho'
  have happlied : ⟨.submitResults w results, insertResult r w, ()⟩ ∈
      applied (pre ++ .cmd i (.submitResults w results) (.lrem key raw) o :: post) := by
    refine List.mem_filterMap.mpr ⟨_, hmem, ?_⟩
    simp only [Event.applied?, heffect, Option.map_some]
  exact ⟨t, ht, results, r, hres, hid.symm, happlied, rowWritten_of_mem hmem heffect,
    rows_of_inserted hr happlied⟩

/-- Does the event start a `CompleteTask` or `FailTask`? -/
def startsCompletion : Event Cmd Reply Call Ret → Bool
  | .start _ (.completeTask ..) => true
  | .start _ (.failTask ..) => true
  | _ => false

/-- Tasks leave the processing lists through `SubmitResults` only. -/
def OnlyResults (es : List (Event Cmd Reply Call Ret)) : Prop :=
  ∀ e ∈ es, startsCompletion e = false

/-- **What has been removed** from a processing list was removed by a submission of its worker, if nothing
else completes tasks. -/
theorem submission_of_removed (hr : workerApi.Run es p) (honly : OnlyResults es) {w raw : String}
    (hrem : raw ∈ collect (removesFrom (processingKey w)) es) :
    ∃ i results o, .cmd i (.submitResults w results) (.lrem (processingKey w) raw) o ∈ es := by
  obtain ⟨a, ha, hraw⟩ := List.mem_flatMap.mp hrem
  obtain ⟨i, o, he, -⟩ := exists_cmd_of_mem_applied ha
  obtain ⟨call, c, n⟩ := a
  have hall := allowed_of_mem hr he
  cases hall with
  | @remove _ w' raw' t hreq ht =>
    have hkey : processingKey w' = processingKey w := by
      by_contra hne
      simp [removesFrom, hne] at hraw
    obtain rfl := processingKey_inj hkey
    obtain rfl : raw = raw' := by
      simp only [removesFrom, ↓reduceIte] at hraw
      exact List.eq_of_mem_replicate hraw
    -- the call is a `SubmitResults` of `w`, since it was started
    have hstart : .start i call ∈ es := by
      obtain ⟨pre, post, rfl⟩ := List.append_of_mem he
      obtain ⟨s, th, hpre, hth, rfl⟩ := exists_thread_of_cmd hr
      exact List.mem_append_left _ (start_mem_of_thread hpre i th hth)
    cases call with
    | pushTask task => exact absurd hreq id
    | popTasks w platforms capacity => exact absurd hreq id
    | completeTask w taskID => exact absurd (honly _ hstart) (by simp [startsCompletion])
    | failTask w taskID => exact absurd (honly _ hstart) (by simp [startsCompletion])
    | submitResults w results =>
      obtain ⟨rfl, -⟩ := hreq
      exact ⟨i, results, o, he⟩
  | _ => simp [removesFrom] at hraw

/-- **Persist before complete.** However the calls interleave, fail and crash: of a payload that was
moved to the processing list of `w`, either every copy is still there, or a result with its task id,
submitted by `w`, has been committed; and a removal is caused by a result whose insert succeeded. -/
theorem persist_before_complete (hr : workerApi.Run es p) (honly : OnlyResults es) :
    (∀ w, ∀ raw ∈ collect (movesTo (processingKey w)) es,
      (p.store.redis.lists (processingKey w)).count raw =
          (collect (movesTo (processingKey w)) es).count raw ∨
        ∃ t, unmarshalTask raw = some t ∧ Committed es p.store.parcels w t.taskID) ∧
    ∀ pre post i w results key raw o,
      es = pre ++ .cmd i (.submitResults w results) (.lrem key raw) o :: post →
      ∃ r ∈ results, LastInsert r w (ownOps i pre) ∧ key = processingKey w ∧
        ∃ t, unmarshalTask raw = some t ∧ t.taskID = r.taskID := by
  refine ⟨fun w raw _ => ?_, ?_⟩
  · by_cases hrem : raw ∈ collect (removesFrom (processingKey w)) es
    · obtain ⟨i, results, o, he⟩ := submission_of_removed hr honly hrem
      exact .inr (committed_of_removed hr he)
    · -- nothing was removed, so nothing is missing
      left
      have hcount := congrArg (Multiset.count raw) (processing_add_removed hr w)
      rw [Multiset.count_add, Multiset.coe_count, Multiset.coe_count, Multiset.coe_count,
        List.count_eq_zero_of_not_mem hrem, add_zero] at hcount
      exact hcount
  · rintro pre post i w results key raw o rfl
    exact lastInsert_of_removal hr

/-- A task pushed, fetched and reported: it has left the list, and its result is in the table. -/
theorem persist_before_complete_delivery :
    (samplePool [.submitResults "w1" [sampleResult]]).store.redis.lists (processingKey "w1") = [] ∧
    ∃ t, unmarshalTask sampleTask.modelDumpJson = some t ∧
      Committed (sampleEvents [.submitResults "w1" [sampleResult]])
        (samplePool [.submitResults "w1" [sampleResult]]).store.parcels "w1" t.taskID := by
  -- one evaluation of the session for all three
  have hends : (samplePool [.submitResults "w1" [sampleResult]]).store.redis.lists
      (processingKey "w1") = [] ∧
      collect (movesTo (processingKey "w1"))
        (sampleEvents [.submitResults "w1" [sampleResult]]) = [sampleTask.modelDumpJson] ∧
      ∀ e ∈ sampleEvents [.submitResults "w1" [sampleResult]], startsCompletion e = false := by
    decide +kernel
  obtain ⟨hempty, hmoved, honly⟩ := hends
  refine ⟨hempty, ?_⟩
  refine ((persist_before_complete (sample_run _) honly).1 "w1" sampleTask.modelDumpJson
    (by rw [hmoved]; exact List.mem_singleton_self _)).resolve_left ?_
  rw [hempty, hmoved]
  simp

end TaxlienGateway
