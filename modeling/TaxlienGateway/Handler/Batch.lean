import TaxlienGateway.Handler.Results

/-!
# What becomes of a batch

`submitResults` takes the results of a batch in order and gives the batch up once it has collected more
than ten errors. The specification counts every result and cuts the list of errors for the response
only (`errors=errors[:10]`).

A pattern `fails` fixes, position by position, for which results `UpsertParcel` returns an error, and a
history follows it if the `k`-th insert of the history failed exactly when `fails k` (`Follows`). A
response accounts for a batch (`AccountsFor`) if its counters add up to the length of the batch, every
result whose upsert does not fail has been stored, and at most ten errors are listed.

* `Tallied` — the invariant of the loop: what the counters and the list of errors say about the part of
  the batch that has been taken, whatever its outcomes.
* `submitResults_tallied` — the response tallies with a part of the batch, which is the whole batch
  unless eleven upserts have failed.
* `submitResults_accountsFor_iff` — so the batch is accounted for exactly if at most ten of its upserts
  fail.
-/

namespace TaxlienGateway

open Framework Model

/-! ### The upserts of a history -/

/-- The insert of an operation, and whether it was acknowledged. -/
def upsert? : Op Cmd Reply → Option (Cmd × Bool)
  | ⟨.insertParcel key data scrapedAt workerID, r⟩ =>
    some (.insertParcel key data scrapedAt workerID, r.isOk)
  | _ => none

/-- The inserts of a history, in order. -/
def upserts (h : List (Op Cmd Reply)) : List (Cmd × Bool) := h.filterMap upsert?

/-- The number of inserts that failed. -/
def failures (h : List (Op Cmd Reply)) : ℕ := (upserts h).countP fun u => !u.2

theorem upserts_append_singleton (h : List (Op Cmd Reply)) (op : Op Cmd Reply) :
    upserts (h ++ [op]) = upserts h ++ (upsert? op).toList := by
  unfold upserts
  rw [List.filterMap_append]
  cases hop : upsert? op <;> simp [hop]

/-- One more insert fails or does not. -/
theorem failures_of_upserts {h h' : List (Op Cmd Reply)} {c : Cmd} {ok : Bool}
    (hh : upserts h' = upserts h ++ [(c, ok)]) : failures h' = failures h + (!ok).toNat := by
  rw [failures, hh, List.countP_append]
  cases ok <;> rfl

/-- The commands of `CompleteTask` are no inserts. -/
theorem CompleteRule.upsert?_eq_none {workerID taskID : String} {c : Cmd}
    (hc : CompleteRule workerID taskID c) (r : Except String (Reply c)) : upsert? ⟨c, r⟩ = none := by
  obtain rfl | ⟨raw, t, rfl, -, -⟩ := hc
  · rfl
  · rfl

/-- `UpsertParcel` makes one insert, and returns an error if and only if that one failed. -/
theorem upsertParcel_upserts (r : ParcelResult) (workerID : String) (h : List (Op Cmd Reply)) :
    (upsertParcel r workerID).Obeys (fun _ _ => True)
      (fun h' a => upserts h' = upserts h ++ [(insertResult r workerID, a.isOk)]) h := by
  refine ⟨trivial, fun existed => ⟨trivial, fun reply => ?_⟩⟩
  have hselect : upserts (h ++ [⟨.selectExists (parcelKey r), existed⟩]) = upserts h := by
    rw [upserts_append_singleton]
    exact List.append_nil _
  match reply with
  | .error e =>
    show upserts (_ ++ [_]) = _
    rw [upserts_append_singleton, hselect]
    rfl
  | .ok () =>
    show upserts (_ ++ [_]) = _
    rw [upserts_append_singleton, hselect]
    rfl

/-! ### The invariant of the loop -/

/-- The response `resp` tallies with the part `taken` of a batch, after the history `h`. -/
structure Tallied (workerID : String) (taken : List ParcelResult) (h : List (Op Cmd Reply))
    (resp : SubmitResponse) : Prop where
  upserts : (upserts h).map Prod.fst = taken.map (insertResult · workerID)
  total : resp.inserted + resp.updated + resp.failed = taken.length
  failed : resp.failed = failures h
  errors : resp.errors.length = failures h

variable {workerID : String} {taken : List ParcelResult} {h h' : List (Op Cmd Reply)}
  {resp : SubmitResponse} {res : ParcelResult}

theorem Tallied.length_upserts (ht : Tallied workerID taken h resp) :
    (TaxlienGateway.upserts h).length = taken.length := by
  simpa using congrArg List.length ht.upserts

/-- A failed upsert is counted, and its error listed. -/
theorem Tallied.fail (ht : Tallied workerID taken h resp) (e : String)
    (hh : TaxlienGateway.upserts h' = TaxlienGateway.upserts h ++ [(insertResult res workerID, false)]) :
    Tallied workerID (taken ++ [res]) h'
      { resp with
        failed := resp.failed + 1, errors := resp.errors ++ [res.parcelID ++ ": " ++ e] } := by
  have hfailures : failures h' = failures h + 1 := failures_of_upserts hh
  constructor
  case upserts => rw [hh, List.map_append, List.map_append, ht.upserts]; rfl
  case total =>
    show resp.inserted + resp.updated + (resp.failed + 1) = (taken ++ [res]).length
    rw [List.length_append, ← ht.total]
    rfl
  case failed => rw [hfailures, ← ht.failed]
  case errors => rw [hfailures, ← ht.errors, List.length_append]; rfl

/-- A result that was stored is counted once, among the new or among the updated ones. -/
theorem Tallied.store (ht : Tallied workerID taken h resp) (inserted : Bool)
    (hh : TaxlienGateway.upserts h' = TaxlienGateway.upserts h ++ [(insertResult res workerID, true)]) :
    Tallied workerID (taken ++ [res]) h'
      (if inserted then { resp with inserted := resp.inserted + 1 }
        else { resp with updated := resp.updated + 1 }) := by
  have hfailures : failures h' = failures h := failures_of_upserts hh
  have htotal := ht.total
  constructor
  case upserts => rw [hh, List.map_append, List.map_append, ht.upserts]; rfl
  case total =>
    rw [List.length_append, List.length_singleton, ← htotal]
    cases inserted
    · show resp.inserted + (resp.updated + 1) + resp.failed = _
      omega
    · show resp.inserted + 1 + resp.updated + resp.failed = _
      omega
  case failed =>
    rw [hfailures, ← ht.failed]
    cases inserted <;> rfl
  case errors =>
    rw [hfailures, ← ht.errors]
    cases inserted <;> rfl

/-- How the loop over a batch ends: with the whole batch taken and at most ten errors, or with the
eleventh error. -/
def EndsTallied (workerID : String) (results : List ParcelResult) (h : List (Op Cmd Reply))
    (resp : SubmitResponse) : Prop :=
  ∃ taken rest, results = taken ++ rest ∧ Tallied workerID taken h resp ∧
    (rest = [] ∧ failures h ≤ 10 ∨ failures h = 11)

/-- **The loop over the batch**, from a response that tallies with what has been taken. -/
theorem submitLoop_tallied (workerID : String) (rest : List ParcelResult) :
    ∀ {taken : List ParcelResult} {h : List (Op Cmd Reply)} {resp : SubmitResponse},
      Tallied workerID taken h resp → failures h ≤ 10 →
      (submitLoop workerID rest resp).Obeys (fun _ _ => True)
        (EndsTallied workerID (taken ++ rest)) h := by
  induction rest with
  | nil =>
    intro taken h resp ht hten
    exact ⟨taken, [], rfl, ht, .inl ⟨rfl, hten⟩⟩
  | cons res rest ih =>
    intro taken h resp ht hten
    rw [List.append_cons]
    unfold submitLoop
    refine (upsertParcel_upserts res workerID h).bind ?_
    intro h' a hh
    cases a with
    | error e =>
      have ht' := ht.fail e hh
      have hfailures : failures h' = failures h + 1 := failures_of_upserts hh
      change (if _ then _ else _ : Prog Cmd Reply SubmitResponse).Obeys _ _ _
      split
      · -- the eleventh error: the rest of the batch is given up
        next hlong =>
        refine ⟨taken ++ [res], rest, rfl, ht', .inr ?_⟩
        have hlt : 10 < failures h' := ht'.errors ▸ hlong
        omega
      · next hshort => exact ih ht' (ht'.errors ▸ Nat.le_of_not_lt hshort)
    | ok inserted =>
      -- what `CompleteTask` does is no upsert
      refine (completeTask_obeys
        (Q := fun h'' => upserts h'' = upserts h ++ [(insertResult res workerID, true)])
        (fun _ _ _ _ => trivial) (fun h'' c r hh' hc => ?_) hh).bind ?_
      · rw [upserts_append_singleton, hc.upsert?_eq_none r]
        exact (List.append_nil _).trans hh'
      · intro h'' _ hh'
        have hfailures : failures h'' = failures h := failures_of_upserts hh'
        exact ih (ht.store inserted hh') (hfailures ▸ hten)

/-- **The response tallies** with a part of the batch, whatever is answered. -/
theorem submitResults_tallied (workerID : String) (results : List ParcelResult) :
    (submitResults workerID results).Obeys (fun _ _ => True) (EndsTallied workerID results) [] := by
  have hstart : Tallied workerID [] [] ⟨0, 0, 0, []⟩ := ⟨rfl, rfl, rfl, rfl⟩
  exact submitLoop_tallied workerID results hstart (Nat.zero_le 10)

/-! ### Accounting for a batch -/

/-- The `k`-th insert of the history failed if and only if the pattern says so. -/
def Follows (fails : ℕ → Bool) (h : List (Op Cmd Reply)) : Prop :=
  ∀ k u, (upserts h)[k]? = some u → u.2 = !fails k

/-- How many of the results of a batch have an upsert that fails. -/
def expectedFailures (fails : ℕ → Bool) (results : List ParcelResult) : ℕ :=
  (List.range results.length).countP fails

/-- Every result of the batch is accounted for. -/
structure AccountsFor (workerID : String) (results : List ParcelResult) (fails : ℕ → Bool)
    (h : List (Op Cmd Reply)) (resp : SubmitResponse) : Prop where
  total : resp.inserted + resp.updated + resp.failed = results.length
  stored : ∀ k (hk : k < results.length), fails k = false →
    (upserts h)[k]? = some (insertResult results[k] workerID, true)
  errors : resp.errors.length ≤ 10

/-- The outcomes of a history that follows a pattern. -/
theorem Follows.map_eq {fails : ℕ → Bool} (hf : Follows fails h) :
    (upserts h).map (fun u => !u.2) = (List.range (upserts h).length).map fails := by
  ext k : 1
  rw [List.getElem?_map, List.getElem?_map]
  cases hk : (upserts h)[k]? with
  | none =>
    rw [List.getElem?_eq_none_iff] at hk
    rw [List.getElem?_eq_none (by simpa using hk)]
    rfl
  | some u =>
    obtain ⟨hlt, -⟩ := List.getElem?_eq_some_iff.mp hk
    rw [List.getElem?_range hlt]
    simp [hf k u hk]

theorem Follows.failures_eq {fails : ℕ → Bool} (hf : Follows fails h) :
    failures h = (List.range (upserts h).length).countP fails := by
  have hcount := congrArg (List.countP id) hf.map_eq
  rwa [List.countP_map, List.countP_map] at hcount

/-- What the end of the loop says about a batch under a pattern. -/
theorem EndsTallied.accountsFor_iff {results : List ParcelResult} {fails : ℕ → Bool}
    (he : EndsTallied workerID results h resp) (hf : Follows fails h) :
    AccountsFor workerID results fails h resp ↔ expectedFailures fails results ≤ 10 := by
  obtain ⟨taken, rest, rfl, ht, ⟨rfl, hten⟩ | heleven⟩ := he
  · -- the whole batch has been taken
    rw [List.append_nil]
    have hcount : failures h = expectedFailures fails taken := by
      rw [hf.failures_eq, ht.length_upserts, expectedFailures]
    refine ⟨fun _ => hcount ▸ hten, fun _ => ⟨ht.total, fun k hk hfk => ?_, ht.errors ▸ hten⟩⟩
    obtain ⟨u, hu⟩ : ∃ u, (upserts h)[k]? = some u :=
      ⟨_, List.getElem?_eq_getElem (ht.length_upserts ▸ hk)⟩
    have hcmd : u.1 = insertResult taken[k] workerID := by
      have hmap := congrArg (·[k]?) ht.upserts
      simpa [hu, List.getElem?_eq_getElem hk] using hmap
    have hok : u.2 = true := by rw [hf k u hu, hfk]; rfl
    rw [hu, ← hcmd, ← hok]
  · -- the eleventh error is listed, and at least as many upserts of the batch fail
    have hcount : failures h = (List.range taken.length).countP fails := by
      rw [hf.failures_eq, ht.length_upserts]
    have hmore : failures h ≤ expectedFailures fails (taken ++ rest) := by
      rw [hcount, expectedFailures]
      refine List.Sublist.countP_le (List.range_sublist.mpr ?_)
      rw [List.length_append]
      exact Nat.le_add_right _ _
    rw [heleven] at hmore
    refine ⟨fun ha => absurd ha.errors ?_, fun hle => absurd hle (Nat.not_le_of_lt hmore)⟩
    rw [ht.errors, heleven]
    exact Nat.not_succ_le_self 10

/-- **When every result is accounted for.** For every batch and every pattern of outcomes, the response
accounts for the batch if and only if at most ten of its upserts fail. -/
theorem submitResults_accountsFor_iff (workerID : String) (results : List ParcelResult)
    (fails : ℕ → Bool) :
    (submitResults workerID results).Obeys (fun _ _ => True)
      (fun h resp => Follows fails h →
        (AccountsFor workerID results fails h resp ↔ expectedFailures fails results ≤ 10)) [] :=
  (submitResults_tallied workerID results).mono (fun _ _ h => h)
    fun _ _ he hf => he.accountsFor_iff hf

/-- Twelve results. -/
def sampleBatch : List ParcelResult :=
  ["p01", "p02", "p03", "p04", "p05", "p06", "p07", "p08", "p09", "p10", "p11", "p12"].map
    fun parcelID => ⟨"t-" ++ parcelID, parcelID, "beacon", "FL", "Leon", .obj [], 0⟩

/-- The inserts of all of them but the last fail. -/
def elevenFail (n : ℕ) : Option Fault :=
  if n % 2 = 1 ∧ n < 22 then some (.failed "connection refused") else none

/-- The twelfth result is never stored, and no counter shows it. -/
theorem twelfth_result_is_dropped :
    ¬ (submitResults "w1" sampleBatch).Obeys (fun _ _ => True)
      (fun h resp => Follows (fun k => k < 11) h →
        AccountsFor "w1" sampleBatch (fun k => k < 11) h resp) [] := by
  intro hobeys
  have hrun := hobeys.of_run server elevenFail .blank
  have hupserts : (upserts ((submitResults "w1" sampleBatch).ops server elevenFail .blank)).map
      Prod.snd = List.replicate 11 false := by decide +kernel
  have htotal : ((submitResults "w1" sampleBatch).run server elevenFail .blank).2.failed = 11 ∧
      ((submitResults "w1" sampleBatch).run server elevenFail .blank).2.inserted = 0 ∧
      ((submitResults "w1" sampleBatch).run server elevenFail .blank).2.updated = 0 := by
    decide +kernel
  have hfollows : Follows (fun k => k < 11)
      ((submitResults "w1" sampleBatch).ops server elevenFail .blank) := by
    intro k u hu
    have hk := congrArg (·[k]?) hupserts
    simp only [List.getElem?_map, hu, List.getElem?_replicate] at hk
    split at hk
    · next hlt => simpa [hlt] using hk
    · exact absurd hk (by simp)
  have hsum := (hrun hfollows).total
  rw [htotal.1, htotal.2.1, htotal.2.2] at hsum
  exact absurd hsum (by decide)

end TaxlienGateway
