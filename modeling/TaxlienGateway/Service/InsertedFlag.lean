import TaxlienGateway.Framework.Accounting
import TaxlienGateway.Framework.Lifetime
import TaxlienGateway.Framework.Schedule
import TaxlienGateway.Service.Properties

/-!
# The inserted flag of `UpsertParcel`

`upsertParcel` reads whether the row exists and writes it in two statements, and negates what it read. So
the flag speaks about the moment of the read, and nothing keeps another call from creating the row in
between; a read that fails passes for one that found nothing, and an insert whose answer is lost has
created a row that no call reports.

Any number of upserts run here at the same time (`upsertCalls`). `Undisturbed` says that none of this
happens to one key: a call whose insert is acknowledged while the row exists has read the table when it
did, and the insert that creates the row is reported by a call that lives to return.

* `creates_of_returns_true` — then a call returns `true` only if its own insert created the row;
* `returns_of_creates` — and the call whose insert did so returns `true`;
* `inserted_flag_counts_rows` — so the flags of an undisturbed key count its new rows.
-/

namespace TaxlienGateway

open Framework Model

/-- A call of `UpsertParcel`. -/
structure UpsertCall where
  result : ParcelResult
  workerID : String

/-- The row it writes. -/
def UpsertCall.key (call : UpsertCall) : ParcelKey := parcelKey call.result

/-- The events of a run of upserts. -/
abbrev UpsertEvent : Type := Event Cmd Reply UpsertCall fun _ => Except String Bool

/-- Interleaved upserts, on the tables `s₀`. -/
def upsertCalls (s₀ : Store) :
    System (Pool Cmd Reply UpsertCall (fun _ => Except String Bool) Store) UpsertEvent :=
  pool server (fun call => upsertParcel call.result call.workerID) (· = s₀)

/-! ### What the flags should say -/

/-- A call for the key succeeds, with any flag. -/
def succeeds (key : ParcelKey) : UpsertEvent → Bool
  | .finish _ call (.ok _) => call.key == key
  | _ => false

/-- A call for the key returns the flag `inserted`. -/
def returns (key : ParcelKey) (inserted : Bool) : UpsertEvent → Bool
  | .finish _ call (.ok b) => call.key == key && b == inserted
  | _ => false

/-- The number of rows of the key that are in `s` and not in `s₀`. -/
def rowsCreated (s₀ s : Store) (key : ParcelKey) : ℕ :=
  (s.parcels.rows key).toList.length - (s₀.parcels.rows key).toList.length

/-- The flags returned for the key count its new rows: never more of them are true than there are rows,
and in the end, with no call in flight, there are as many, and all other calls that succeed return
`false`. -/
structure FlagCountsRows (s₀ : Store) (key : ParcelKey) (es : List UpsertEvent)
    (p : Pool Cmd Reply UpsertCall (fun _ => Except String Bool) Store) : Prop where
  atMostOne : rowsCreated s₀ p.store key ≤ 1
  meanwhile : es.countP (returns key true) ≤ rowsCreated s₀ p.store key
  inTheEnd : p.threads = (fun _ => none) → es.countP (returns key true) = rowsCreated s₀ p.store key
  others : p.threads = (fun _ => none) →
    es.countP (returns key false) = es.countP (succeeds key) - rowsCreated s₀ p.store key

/-! ### When they do -/

/-- An insert for the key is executed. -/
def stores (key : ParcelKey) : UpsertEvent → Bool
  | .cmd _ _ (.insertParcel key' _ _ _) o => o.effect.isSome && key' == key
  | _ => false

/-- The row is there, from the beginning or since an insert. -/
def Stored (s₀ : Store) (key : ParcelKey) (es : List UpsertEvent) : Prop :=
  (s₀.parcels.rows key).isSome ∨ ∃ e ∈ es, stores key e

/-- The call at index `i` has had its read answered, at a moment when the row was there. -/
def HasRead (s₀ : Store) (key : ParcelKey) (i : ℕ) (es : List UpsertEvent) : Prop :=
  ∃ pre call found post, es = pre ++ .cmd i call (.selectExists key) (.ok found) :: post ∧
    StaysInFlight i post ∧ Stored s₀ key pre

/-- The call at index `i` has created the row. -/
def HasCreated (s₀ : Store) (key : ParcelKey) (i : ℕ) (es : List UpsertEvent) : Prop :=
  ∃ pre e post, es = pre ++ e :: post ∧ e.index = i ∧ stores key e ∧ StaysInFlight i post ∧
    ¬ Stored s₀ key pre

/-- Nothing disturbs the calls for the key. -/
structure Undisturbed (s₀ : Store) (key : ParcelKey) (es : List UpsertEvent) : Prop where
  /-- Where the row exists, an insert is acknowledged only to a call that has read the table since. -/
  hasRead : ∀ pre i call data scrapedAt workerID post,
    es = pre ++ .cmd i call (.insertParcel key data scrapedAt workerID) (.ok ()) :: post →
    Stored s₀ key pre → HasRead s₀ key i pre
  /-- The insert that creates the row is acknowledged. -/
  acknowledged : ∀ pre i call data scrapedAt workerID reply e post,
    es = pre ++ .cmd i call (.insertParcel key data scrapedAt workerID) (.lost reply e) :: post →
    Stored s₀ key pre
  /-- The call that has created the row is not dropped. -/
  survives : ∀ pre i call post, es = pre ++ .crash i call :: post → ¬ HasCreated s₀ key i pre

/-! ### The conduct of `UpsertParcel`, exactly -/

/-- What the flag makes of the answer to the read. -/
def reported : Except String Bool → Bool
  | .ok existed => !existed
  | .error _ => true

/-- The read comes first, then the insert. -/
def UpsertOrder (call : UpsertCall) (own : List (Op Cmd Reply)) (c : Cmd) : Prop :=
  (own = [] ∧ c = .selectExists call.key) ∨
    ∃ found, own = [⟨.selectExists call.key, found⟩] ∧ c = insertResult call.result call.workerID

/-- The insert decides whether the call succeeds, the read decides the flag. -/
def UpsertCall.Ends (call : UpsertCall) (own : List (Op Cmd Reply)) (a : Except String Bool) : Prop :=
  ∃ found reply, own = [⟨.selectExists call.key, found⟩,
    ⟨insertResult call.result call.workerID, reply⟩] ∧ a = reply.map fun _ => reported found

theorem upsertParcel_ordered :
    Obeyed (fun call => upsertParcel call.result call.workerID) UpsertOrder UpsertCall.Ends := by
  intro call
  refine ⟨.inl ⟨rfl, rfl⟩, fun found => ⟨.inr ⟨found, rfl, rfl⟩, fun reply => ?_⟩⟩
  match found, reply with
  | .ok _, .ok () => exact ⟨_, .ok (), rfl, rfl⟩
  | .ok _, .error e => exact ⟨_, .error e, rfl, rfl⟩
  | .error _, .ok () => exact ⟨_, .ok (), rfl, rfl⟩
  | .error _, .error e => exact ⟨_, .error e, rfl, rfl⟩

/-! ### The table along a run -/

section Run

variable {s₀ : Store} {key : ParcelKey} {es : List UpsertEvent}
  {p : Pool Cmd Reply UpsertCall (fun _ => Except String Bool) Store}

theorem stored_append_singleton {e : UpsertEvent} :
    Stored s₀ key (es ++ [e]) ↔ Stored s₀ key es ∨ stores key e := by
  simp only [Stored, List.mem_append, List.mem_singleton, or_and_right, exists_or, exists_eq_left,
    or_assoc]

theorem Stored.append (h : Stored s₀ key es) (es' : List UpsertEvent) : Stored s₀ key (es ++ es') := by
  rcases h with h | ⟨e, he, hstores⟩
  · exact .inl h
  · exact .inr ⟨e, List.mem_append_left _ he, hstores⟩

theorem of_stores {e : UpsertEvent} (h : stores key e = true) :
    ∃ i call data scrapedAt workerID o,
      e = .cmd i call (.insertParcel key data scrapedAt workerID) o ∧ o.effect.isSome := by
  cases e with
  | cmd i call c o =>
    cases c with
    | insertParcel key' data scrapedAt workerID =>
      obtain ⟨ho, hkey⟩ := Bool.and_eq_true_iff.mp h
      obtain rfl := eq_of_beq hkey
      exact ⟨i, call, data, scrapedAt, workerID, o, rfl, ho⟩
    | _ => exact absurd h (by simp [stores])
  | start i call => exact absurd h (by simp [stores])
  | finish i call a => exact absurd h (by simp [stores])
  | crash i call => exact absurd h (by simp [stores])

/-- **The table.** A row is in it if and only if it was at the beginning or an insert has stored it. -/
theorem isSome_rows_iff (hr : (upsertCalls s₀).Run es p) :
    (p.store.parcels.rows key).isSome ↔ Stored s₀ key es := by
  induction hr with
  | init h =>
    rw [h.1]
    exact ⟨.inl, fun hs => hs.resolve_right (by simp)⟩
  | @step es p e p' hr hs ih =>
    rw [stored_append_singleton, ← ih]
    rcases hs.exec_cases with ⟨he, hstore⟩ | ⟨i, call, c, k, o, r, rfl, ho, hth, hx⟩
    · rw [hstore]
      refine (or_iff_left fun hstores => ?_).symm
      -- an event that stores executes its command
      obtain ⟨i, call, data, scrapedAt, workerID, o, rfl, ho⟩ := of_stores hstores
      obtain ⟨r, hr⟩ := Option.isSome_iff_exists.mp ho
      exact absurd he (by simp [Event.applied?, hr])
    · rw [exec_rows hx]
      refine or_congr_right ⟨?_, fun hstores => ?_⟩
      · rintro ⟨data, scrapedAt, workerID, rfl⟩
        simp [stores, ho]
      · obtain ⟨_, _, data, scrapedAt, workerID, _, he, -⟩ := of_stores hstores
        exact ⟨data, scrapedAt, workerID, (Event.cmd.inj he).2.2.1⟩

/-- A read that is answered tells whether the row is there. -/
theorem found_iff {pre post : List UpsertEvent} {i : ℕ} {call : UpsertCall} {found : Bool}
    (hr : (upsertCalls s₀).Run (pre ++ .cmd i call (.selectExists key) (.ok found) :: post) p) :
    found = true ↔ Stored s₀ key pre := by
  obtain ⟨t, t', ht, hstep, -⟩ := hr.step_at
  rw [← isSome_rows_iff ht]
  cases hstep with
  | cmd hth hx =>
    obtain ⟨-, rfl⟩ := Prod.mk.inj (Server.exec_of_answer hx rfl)
    exact Iff.rfl

/-! ### The flags of an undisturbed key -/

/-- **A true flag is true.** A call that returns `true` has created the row. -/
theorem creates_of_returns_true {pre post : List UpsertEvent} {i : ℕ} {call : UpsertCall}
    (hr : (upsertCalls s₀).Run es p) (hu : Undisturbed s₀ key es)
    (hes : es = pre ++ .finish i call (.ok true) :: post) (hkey : call.key = key) :
    HasCreated s₀ key i pre := by
  subst hkey
  obtain ⟨found, reply, hown, hreply⟩ := upsertParcel_ordered.returned (hes ▸ hr)
  obtain ⟨rfl, hfound⟩ : reply = .ok () ∧ reported found = true := by
    cases reply with
    | error e => exact absurd hreply (by simp [Except.map])
    | ok _ => exact ⟨rfl, (Except.ok.inj hreply).symm⟩
  obtain ⟨pre₁, o, pre₂, rfl, hseen, hstays⟩ :=
    exists_cmd_of_finish (hes ▸ hr) (hown ▸ List.mem_cons_of_mem _ List.mem_cons_self)
  obtain rfl := Outcome.eq_of_seen hseen
  refine ⟨pre₁, _, pre₂, rfl, rfl, by simp [stores, UpsertCall.key], hstays, fun hstored => ?_⟩
  -- otherwise its read has found the row
  obtain ⟨pre₃, call', existed, pre₄, rfl, hstays', hthen⟩ :=
    hu.hasRead pre₁ i call _ _ _ _ (by rw [hes, List.append_assoc, List.cons_append]; rfl) hstored
  have hexisted : existed = true := by
    rw [List.append_assoc, List.append_assoc, List.cons_append] at hes
    exact (found_iff (hes ▸ hr)).mpr hthen
  have hread : (⟨.selectExists call.key, .ok existed⟩ : Op Cmd Reply) ∈
      [⟨.selectExists call.key, found⟩, ⟨insertResult call.result call.workerID, .ok ()⟩] := by
    rw [← hown, List.append_assoc, List.cons_append]
    exact mem_ownOps_of_staysInFlight (hstays'.append_cmd hstays)
  obtain rfl : found = .ok existed := by simpa [eq_comm] using hread
  rw [hexisted] at hfound
  exact absurd hfound Bool.false_ne_true

/-- A call in flight whose key has not been stored has not found it. -/
theorem reported_of_not_stored {pre : List UpsertEvent}
    {t : Pool Cmd Reply UpsertCall (fun _ => Except String Bool) Store} (ht : (upsertCalls s₀).Run pre t)
    {i : ℕ} {th : Thread Cmd Reply UpsertCall fun _ => Except String Bool} (hth : t.threads i = some th)
    {found : Except String Bool} (hown : ownOps i pre = [⟨.selectExists key, found⟩])
    (hnew : ¬ Stored s₀ key pre) : reported found = true := by
  cases found with
  | error e => rfl
  | ok existed =>
    obtain ⟨pre₁, o, pre₂, rfl, hseen, -⟩ :=
      exists_cmd_of_thread ht hth (hown ▸ List.mem_singleton_self _)
    obtain rfl := Outcome.eq_of_seen hseen
    cases existed with
    | false => rfl
    | true => exact absurd (((found_iff ht).mp rfl).append _) hnew

/-- **A new row is flagged.** When no call is in flight any more, the one that created the row has
returned `true`. -/
theorem returns_of_creates {pre post : List UpsertEvent} {e : UpsertEvent}
    (hr : (upsertCalls s₀).Run es p) (hu : Undisturbed s₀ key es) (hes : es = pre ++ e :: post)
    (hstores : stores key e = true) (hnew : ¬ Stored s₀ key pre)
    (hidle : p.threads = fun _ => none) : ∃ e ∈ es, returns key true e = true := by
  obtain ⟨i, call, data, scrapedAt, workerID, o, rfl, ho⟩ := of_stores hstores
  obtain rfl : o = .ok () := by
    cases o with
    | ok r => rfl
    | lost r e => exact absurd (hu.acknowledged _ _ _ _ _ _ _ _ _ hes) hnew
    | failed e => exact absurd ho (by simp)
  -- it comes after the read, which has not found the row
  obtain ⟨t, t', ht, hstep, -⟩ := (hes ▸ hr).step_at
  obtain ⟨th, hth⟩ : ∃ th, t.threads i = some th := by
    cases hstep with
    | cmd hth hx => exact ⟨_, hth⟩
  obtain ⟨-, hc⟩ | ⟨found, hown, hc⟩ := upsertParcel_ordered.guarded (hes ▸ hr)
  · exact absurd hc (by simp)
  obtain ⟨rfl, rfl, rfl, rfl⟩ := Cmd.insertParcel.inj hc
  have hfound : reported found = true := reported_of_not_stored ht hth hown hnew
  -- and its call can only return
  rcases in_flight_or_over (hes ▸ hr) with ⟨-, th, hth, -⟩ | ⟨post₁, e', post₂, rfl, hstays, hend⟩
  · rw [hidle] at hth
    exact absurd hth (by simp)
  rw [← List.cons_append, ← List.append_assoc] at hes
  cases hend with
  | crash => exact absurd ⟨pre, _, post₁, rfl, rfl, hstores, hstays, hnew⟩ (hu.survives _ _ _ _ hes)
  | finish a =>
    obtain ⟨found', reply, hown', rfl⟩ := upsertParcel_ordered.returned (hes ▸ hr)
    obtain ⟨own, happend⟩ := ownOps_append hstays
    rw [List.append_cons, happend, ownOps_append_singleton, hown] at hown'
    -- its own history is the read, the insert and nothing else
    obtain ⟨rfl, rfl, -⟩ : found = found' ∧ Except.ok () = reply ∧ own = [] := by
      simpa [ownStep] using hown'
    refine ⟨_, hes ▸ List.mem_append_right _ List.mem_cons_self, ?_⟩
    show (call.key == parcelKey call.result && reported found == true) = true
    rw [hfound, Bool.and_eq_true]
    exact ⟨beq_self_eq_true _, rfl⟩

/-! ### Counting -/

theorem of_returns {inserted : Bool} {e : UpsertEvent} (h : returns key inserted e = true) :
    ∃ i call, e = .finish i call (.ok inserted) ∧ call.key = key := by
  cases e with
  | finish i call a =>
    cases a with
    | ok b =>
      obtain ⟨hkey, hb⟩ := Bool.and_eq_true_iff.mp h
      obtain rfl := eq_of_beq hb
      exact ⟨i, call, rfl, eq_of_beq hkey⟩
    | error e => exact absurd h (by simp [returns])
  | start i call => exact absurd h (by simp [returns])
  | cmd i call c o => exact absurd h (by simp [returns])
  | crash i call => exact absurd h (by simp [returns])

/-- A call that succeeds returns one of the two flags. -/
theorem countP_succeeds (key : ParcelKey) (es : List UpsertEvent) :
    es.countP (succeeds key) = es.countP (returns key true) + es.countP (returns key false) := by
  have hflag : ∀ e : UpsertEvent,
      (succeeds key e).toNat = (returns key true e).toNat + (returns key false e).toNat := by
    intro e
    cases e with
    | finish i call a =>
      cases a with
      | ok b => cases b <;> simp [succeeds, returns]
      | error e => rfl
    | start i call => rfl
    | cmd i call c o => rfl
    | crash i call => rfl
  induction es with
  | nil => rfl
  | cons e es ih =>
    have he := hflag e
    simp only [Bool.toNat, Bool.cond_eq_ite] at he
    rw [List.countP_cons, List.countP_cons, List.countP_cons, ih, he]
    omega

theorem rowsCreated_le_one (s₀ s : Store) (key : ParcelKey) : rowsCreated s₀ s key ≤ 1 := by
  have hrow : (s.parcels.rows key).toList.length ≤ 1 := by
    cases s.parcels.rows key <;> simp
  exact (Nat.sub_le _ _).trans hrow

theorem rowsCreated_eq_one_iff (hr : (upsertCalls s₀).Run es p) :
    rowsCreated s₀ p.store key = 1 ↔ ¬ (s₀.parcels.rows key).isSome ∧ Stored s₀ key es := by
  rw [← isSome_rows_iff hr, rowsCreated]
  cases s₀.parcels.rows key <;> cases p.store.parcels.rows key <;> simp

/-- At most one call returns `true`. -/
theorem countP_returns_true_le_one (hr : (upsertCalls s₀).Run es p) (hu : Undisturbed s₀ key es) :
    es.countP (returns key true) ≤ 1 := by
  suffices hpaid : ∀ pre e post, es = pre ++ e :: post → returns key true e = true →
      Paid (stores key) (returns key true) Event.index 1 pre e from countP_le_of_paid hpaid
  intro pre e post hes he
  obtain ⟨i, call, rfl, hkey⟩ := of_returns he
  obtain ⟨pre₁, e', pre₂, hpre, hindex, hstores, hstays, hnew⟩ :=
    creates_of_returns_true hr hu hes hkey
  refine ⟨pre₁, e', pre₂, hpre, hstores, ?_, hindex, fun e'' he'' hreturns hindex' => ?_⟩
  · -- no insert for the key comes before
    have hnone : pre₁.countP (stores key) = 0 := by
      rw [List.countP_eq_zero]
      exact fun e he hstores => hnew (.inr ⟨e, he, hstores⟩)
    omega
  · -- the call has not returned before
    obtain ⟨_, _, _, rfl⟩ := hstays e'' he'' hindex'
    exact absurd hreturns (by simp [returns])

/-- **The flags of an undisturbed key count its new rows**, in every state of every run. -/
theorem inserted_flag_counts_rows (s₀ : Store) (key : ParcelKey) (es : List UpsertEvent)
    (p : Pool Cmd Reply UpsertCall (fun _ => Except String Bool) Store)
    (hr : (upsertCalls s₀).Run es p) (hu : Undisturbed s₀ key es) : FlagCountsRows s₀ key es p := by
  have hmeanwhile : es.countP (returns key true) ≤ rowsCreated s₀ p.store key := by
    rcases Nat.eq_zero_or_pos (es.countP (returns key true)) with hzero | hpos
    · exact hzero ▸ Nat.zero_le _
    · -- a call that has returned `true` has created the row
      obtain ⟨e, he, hreturns⟩ := List.countP_pos_iff.mp hpos
      obtain ⟨pre, post, hes⟩ := List.append_of_mem he
      obtain ⟨i, call, rfl, hkey⟩ := of_returns hreturns
      obtain ⟨pre₁, e', pre₂, rfl, -, hstores, -, hnew⟩ := creates_of_returns_true hr hu hes hkey
      have hone : rowsCreated s₀ p.store key = 1 := by
        refine (rowsCreated_eq_one_iff hr).mpr ⟨fun hrow => hnew (.inl hrow), .inr ⟨e', ?_, hstores⟩⟩
        rw [hes]
        simp
      exact hone ▸ countP_returns_true_le_one hr hu
  have hend : p.threads = (fun _ => none) →
      es.countP (returns key true) = rowsCreated s₀ p.store key := by
    intro hidle
    refine le_antisymm hmeanwhile ?_
    rcases Nat.eq_zero_or_pos (rowsCreated s₀ p.store key) with hzero | hpos
    · exact hzero ▸ Nat.zero_le _
    · have hone : rowsCreated s₀ p.store key = 1 := le_antisymm (rowsCreated_le_one ..) hpos
      obtain ⟨hrow, hstored⟩ := (rowsCreated_eq_one_iff hr).mp hone
      -- the first insert has created the row
      obtain ⟨pre, e, post, hes, hstores, hcount⟩ := exists_split_of_lt_countP
        (List.countP_pos_iff.mpr (hstored.resolve_left hrow))
      have hnew : ¬ Stored s₀ key pre := by
        rintro (h | ⟨e, he, hstores⟩)
        · exact hrow h
        · exact List.countP_eq_zero.mp hcount e he hstores
      rw [hone]
      exact List.countP_pos_iff.mpr (returns_of_creates hr hu hes hstores hnew hidle)
  refine ⟨rowsCreated_le_one .., hmeanwhile, hend, fun hidle => ?_⟩
  rw [countP_succeeds, ← hend hidle, Nat.add_sub_cancel_left]

end Run

/-! ### Two upserts of one parcel -/

/-- A result for a parcel in Leon County. -/
def leonParcel : UpsertCall := ⟨⟨"t1", "12-34", "beacon", "FL", "Leon", .obj [], 0⟩, "w1"⟩

/-- The moves of two upserts of it, from an empty table. -/
def upsertTwice (moves : List ℕ) :
    List UpsertEvent × Pool Cmd Reply UpsertCall (fun _ => Except String Bool) Store :=
  schedule server (fun call => upsertParcel call.result call.workerID)
    (.start 0 leonParcel :: .start 1 leonParcel :: moves.map (.next · none)) ⟨.blank, fun _ => none⟩

theorem upsertTwice_run (moves : List ℕ) :
    (upsertCalls .blank).Run (upsertTwice moves).1 (upsertTwice moves).2 :=
  run_of_schedule _ rfl

/-- One after the other: the second call finds the row of the first. -/
theorem upsertTwice_in_turn : (upsertTwice [0, 0, 1, 1, 0, 1]).1 =
    [.start 0 leonParcel, .start 1 leonParcel,
      .cmd 0 leonParcel (.selectExists leonParcel.key) (.ok false),
      .cmd 0 leonParcel (insertResult leonParcel.result "w1") (.ok ()),
      .cmd 1 leonParcel (.selectExists leonParcel.key) (.ok true),
      .cmd 1 leonParcel (insertResult leonParcel.result "w1") (.ok ()),
      .finish 0 leonParcel (.ok true), .finish 1 leonParcel (.ok false)] := rfl

/-- So the flags count the row. -/
theorem upsertTwice_flags : FlagCountsRows .blank leonParcel.key (upsertTwice [0, 0, 1, 1, 0, 1]).1
    (upsertTwice [0, 0, 1, 1, 0, 1]).2 := by
  refine inserted_flag_counts_rows _ _ _ _ (upsertTwice_run _) ?_
  rw [upsertTwice_in_turn]
  constructor
  case hasRead =>
    intro pre i call data scrapedAt workerID post hes
    simp [List.cons_eq_append_iff] at hes
    obtain ⟨_, rfl, ⟨rfl, -⟩ | ⟨rfl, ⟨rfl, -⟩, -⟩⟩ := hes
    · -- the first insert finds an empty table
      intro hstored
      rcases hstored with hrow | hinsert
      · exact absurd hrow Bool.false_ne_true
      · exact absurd hinsert (by decide +kernel)
    · intro _
      exact ⟨[_, _, _, _], leonParcel, true, [], rfl, staysInFlight_nil 1,
        .inr ⟨_, List.mem_cons_of_mem _ (List.mem_cons_of_mem _ (List.mem_cons_of_mem _
          List.mem_cons_self)), by decide +kernel⟩⟩
  case acknowledged =>
    intro pre i call data scrapedAt workerID reply e post hes
    simp [List.cons_eq_append_iff] at hes
  case survives =>
    intro pre i call post hes
    simp [List.cons_eq_append_iff] at hes

/-- **Two calls at once both insert.** Both look before either writes: one row, two true flags. -/
theorem one_row_two_flags :
    (upsertCalls .blank).Run (upsertTwice [0, 1, 0, 1, 0, 1]).1 (upsertTwice [0, 1, 0, 1, 0, 1]).2 ∧
    (upsertTwice [0, 1, 0, 1, 0, 1]).2.threads = (fun _ => none) ∧
    ¬ FlagCountsRows .blank leonParcel.key (upsertTwice [0, 1, 0, 1, 0, 1]).1
      (upsertTwice [0, 1, 0, 1, 0, 1]).2 := by
  refine ⟨upsertTwice_run _, ?_, fun hflags => ?_⟩
  · funext i
    match i with
    | 0 => rfl
    | 1 => rfl
    | i + 2 => rfl
  · have hle := hflags.meanwhile
    exact absurd hle (by decide +kernel)

end TaxlienGateway
