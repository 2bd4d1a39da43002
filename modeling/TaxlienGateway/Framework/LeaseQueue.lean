import TaxlienGateway.Framework.ListStore
import TaxlienGateway.Framework.System

/-!
# Lease queues

Producers enqueue items, holders lease the oldest one of a queue, and release it when they are done with it.
`LeaseQueues Q W α` is what there is to say about this: what waits in each queue, in order, and what each
holder has leased, with no order. `leaseQueues` is the system of the transfers; a holder who asks while the
queue is empty leaves with nothing, and this is one of them.

* `leased_append_waiting` — a queue is first-in first-out, whoever leases;
* `take_asked_prefix_leased` — whoever asks, `n` requests to a queue lease the `n` oldest items;
* `leased_eq_enqueued_of_miss` — nobody leaves with nothing while an item waits;
* `held_add_released`, `count_released_lt` — nobody releases an item more often than it was leased to them.

Redis lists are a common implementation: items are pushed on the left of a list, moved from its right end to a
list of the holder, and removed from there. `LeaseKeys` says which list is whose, and

* `LeaseKeys.step_rpoplpush`, `LeaseKeys.step_lrem` — each of these commands is a transfer, or does nothing;
* `Readout` — how the transfers are read off a history of commands, `Readout.of_append` part by part.
-/

namespace Framework

variable {Q W α κ : Type}

/-- What waits in each queue, from the oldest item on, and what each holder has leased. -/
structure LeaseQueues (Q W α : Type) where
  waiting : Q → List α
  held : W → Multiset α

/-- What can happen to an item, and what happens when there is none. -/
inductive Transfer (Q W α : Type) where
  | enqueue (q : Q) (a : α)
  | lease (q : Q) (w : W) (a : α)
  /-- `w` has asked `q` for an item. -/
  | miss (q : Q) (w : W)
  | release (w : W) (a : α)

namespace LeaseQueues

variable [DecidableEq Q] [DecidableEq W]

omit [DecidableEq Q] [DecidableEq W] in
theorem eq_mk {s : LeaseQueues Q W α} {waiting : Q → List α} {held : W → Multiset α}
    (hwaiting : s.waiting = waiting) (hheld : s.held = held) : s = ⟨waiting, held⟩ := by
  subst hwaiting hheld
  rfl

/-- One transfer. Only the oldest item of a queue can be leased, and only its holder can release it. Nobody leaves
with nothing while an item waits. -/
inductive Step : LeaseQueues Q W α → Transfer Q W α → LeaseQueues Q W α → Prop
  | enqueue {s : LeaseQueues Q W α} (q : Q) (a : α) :
      Step s (.enqueue q a) { s with waiting := Function.update s.waiting q (s.waiting q ++ [a]) }
  | lease {s : LeaseQueues Q W α} {q : Q} {a : α} {rest : List α} (w : W) (h : s.waiting q = a :: rest) :
      Step s (.lease q w a)
        ⟨Function.update s.waiting q rest, Function.update s.held w (a ::ₘ s.held w)⟩
  | miss {s : LeaseQueues Q W α} {q : Q} (w : W) (h : s.waiting q = []) : Step s (.miss q w) s
  | release {s : LeaseQueues Q W α} {w : W} {a : α} {rest : Multiset α} (h : s.held w = a ::ₘ rest) :
      Step s (.release w a) { s with held := Function.update s.held w rest }

end LeaseQueues

/-- The lease queues, from empty ones on. -/
def leaseQueues (Q W α : Type) [DecidableEq Q] [DecidableEq W] :
    System (LeaseQueues Q W α) (Transfer Q W α) where
  init s := s = ⟨fun _ => [], fun _ => 0⟩
  step := LeaseQueues.Step

/-! ### What a history has transferred -/

section Read

variable [DecidableEq Q] [DecidableEq W]

/-- The item that a transfer enqueues in `q`. -/
def Transfer.enqueued? (q : Q) : Transfer Q W α → Option α
  | enqueue q' a => if q' = q then some a else none
  | _ => none

/-- The item that it leases from `q`. -/
def Transfer.leased? (q : Q) : Transfer Q W α → Option α
  | lease q' _ a => if q' = q then some a else none
  | _ => none

/-- The item that it leases to `w`. -/
def Transfer.granted? (w : W) : Transfer Q W α → Option α
  | lease _ w' a => if w' = w then some a else none
  | _ => none

/-- The item that `w` releases. -/
def Transfer.released? (w : W) : Transfer Q W α → Option α
  | release w' a => if w' = w then some a else none
  | _ => none

/-- The transfer answers a request to `q`. -/
def Transfer.asks (q : Q) : Transfer Q W α → Bool
  | lease q' _ _ => q' = q
  | miss q' _ => q' = q
  | _ => false

/-- The items enqueued in `q`, in order. -/
def enqueued (q : Q) (ts : List (Transfer Q W α)) : List α := ts.filterMap (Transfer.enqueued? q)

/-- The items leased from `q`, in order, whoever leased them. -/
def leased (q : Q) (ts : List (Transfer Q W α)) : List α := ts.filterMap (Transfer.leased? q)

/-- The items leased to `w`. -/
def granted (w : W) (ts : List (Transfer Q W α)) : List α := ts.filterMap (Transfer.granted? w)

/-- The items that `w` has released. -/
def released (w : W) (ts : List (Transfer Q W α)) : List α := ts.filterMap (Transfer.released? w)

/-- One more label, read. -/
theorem filterMap_concat {A B : Type} (f : A → Option B) (as : List A) (a : A) :
    (as ++ [a]).filterMap f = as.filterMap f ++ (f a).toList := by
  rw [List.filterMap_append]
  cases h : f a <;> simp [h]

end Read

/-! ### Runs -/

section Runs

variable [DecidableEq Q] [DecidableEq W] {ts : List (Transfer Q W α)} {s : LeaseQueues Q W α}

/-- Queues and holders, accounted for by the transfers so far. -/
structure LeaseQueues.Balanced (ts : List (Transfer Q W α)) (s : LeaseQueues Q W α) : Prop where
  waiting : ∀ q, leased q ts ++ s.waiting q = enqueued q ts
  held : ∀ w, s.held w + (released w ts : Multiset α) = (granted w ts : Multiset α)

/-- **Step.** -/
theorem LeaseQueues.Balanced.step {t : Transfer Q W α} {s' : LeaseQueues Q W α} (h : Balanced ts s)
    (hs : Step s t s') : Balanced (ts ++ [t]) s' := by
  refine ⟨fun q => ?_, fun w => ?_⟩
  · have hq := h.waiting q
    rw [leased, enqueued, filterMap_concat, filterMap_concat, ← leased, ← enqueued, ← hq]
    cases hs with
    | enqueue q' a =>
      by_cases hqq : q' = q
      · subst hqq
        simp [Transfer.leased?, Transfer.enqueued?]
      · simp [Transfer.leased?, Transfer.enqueued?, hqq, Ne.symm hqq]
    | @lease q' a rest w' hfirst =>
      by_cases hqq : q' = q
      · -- the item changes sides: it was the first that waited, and is the last that was leased
        subst hqq
        simp [Transfer.leased?, Transfer.enqueued?, hfirst]
      · simp [Transfer.leased?, Transfer.enqueued?, hqq, Ne.symm hqq]
    | miss w' hempty => simp [Transfer.leased?, Transfer.enqueued?]
    | release hheld => simp [Transfer.leased?, Transfer.enqueued?]
  · have hw := h.held w
    rw [released, granted, filterMap_concat, filterMap_concat, ← released, ← granted, ← Multiset.coe_add,
      ← Multiset.coe_add, ← hw]
    cases hs with
    | enqueue q' a => simp [Transfer.released?, Transfer.granted?]
    | @lease q' a rest w' hfirst =>
      by_cases hww : w' = w
      · subst hww
        simp [Transfer.released?, Transfer.granted?, add_comm]
      · simp [Transfer.released?, Transfer.granted?, hww, Ne.symm hww]
    | miss w' hempty => simp [Transfer.released?, Transfer.granted?]
    | @release w' a rest hheld =>
      by_cases hww : w' = w
      · subst hww
        simp only [Transfer.released?, Transfer.granted?, Function.update_self, ↓reduceIte, Option.toList_some,
          Option.toList_none, Multiset.coe_singleton, Multiset.coe_nil, add_zero, hheld]
        rw [← Multiset.singleton_add, add_comm {a} rest, add_assoc, add_comm {a} (_ : Multiset α)]
      · simp [Transfer.released?, Transfer.granted?, hww, Ne.symm hww]

/-- **Run.** -/
theorem balanced_of_run (hr : (leaseQueues Q W α).Run ts s) : LeaseQueues.Balanced ts s := by
  refine hr.invariant ?_ fun _ _ _ _ _ h hs => h.step hs
  rintro s rfl
  exact ⟨fun _ => rfl, fun _ => rfl⟩

/-- **First in, first out.** What was leased from a queue, followed by what still waits, is what was enqueued. -/
theorem leased_append_waiting (hr : (leaseQueues Q W α).Run ts s) (q : Q) :
    leased q ts ++ s.waiting q = enqueued q ts := (balanced_of_run hr).waiting q

/-- What a holder has, or has released, was leased to it. -/
theorem held_add_released (hr : (leaseQueues Q W α).Run ts s) (w : W) :
    s.held w + (released w ts : Multiset α) = (granted w ts : Multiset α) := (balanced_of_run hr).held w

variable {pre post : List (Transfer Q W α)} {q : Q} {w : W} {a : α}

/-- **Nobody releases what they do not hold.** -/
theorem count_released_lt [DecidableEq α]
    (hr : (leaseQueues Q W α).Run (pre ++ .release w a :: post) s) :
    (released w pre).count a < (granted w pre).count a := by
  obtain ⟨s₁, s₂, hpre, hstep, -⟩ := hr.step_at
  have hcount := congrArg (Multiset.count a) (held_add_released hpre w)
  cases hstep with
  | release hheld =>
    rw [hheld, Multiset.count_add, Multiset.count_cons_self, Multiset.coe_count, Multiset.coe_count] at hcount
    omega

/-! ### Requests -/

variable {ts₁ ts₂ : List (Transfer Q W α)} {s₁ : LeaseQueues Q W α}

/-- First in, first out, from some point of the run on. -/
theorem leased_append_waiting_from (hr₁ : (leaseQueues Q W α).Run ts₁ s₁)
    (hr : (leaseQueues Q W α).Run (ts₁ ++ ts₂) s) (q : Q) :
    leased q ts₂ ++ s.waiting q = s₁.waiting q ++ enqueued q ts₂ := by
  have hwhole := leased_append_waiting hr q
  rw [leased, enqueued, List.filterMap_append, List.filterMap_append, ← leased, ← leased, ← enqueued, ← enqueued,
    ← leased_append_waiting hr₁ q, List.append_assoc, List.append_assoc] at hwhole
  exact List.append_cancel_left hwhole

/-- Every request has leased an item, or all that waited has been leased. -/
theorem asked_eq_or_prefix (hr₁ : (leaseQueues Q W α).Run ts₁ s₁) (q : Q) :
    ∀ {s : LeaseQueues Q W α}, (leaseQueues Q W α).Run (ts₁ ++ ts₂) s →
      ts₂.countP (Transfer.asks q) = (leased q ts₂).length ∨ s₁.waiting q <+: leased q ts₂ := by
  induction ts₂ using List.reverseRecOn with
  | nil => exact fun _ => .inl rfl
  | append_singleton ts₂ t ih =>
    intro s hr
    rw [← List.append_assoc] at hr
    obtain ⟨s₂, hr₂, hstep⟩ := hr.of_append_singleton
    rw [leased, filterMap_concat, ← leased, List.countP_append, List.countP_singleton]
    rcases ih hr₂ with hcount | hall
    · cases hstep with
      | enqueue q' a => exact .inl (by simpa [Transfer.asks, Transfer.leased?] using hcount)
      | @lease q' a rest w hfirst =>
        refine .inl ?_
        by_cases hqq : q' = q
        · simp [Transfer.asks, Transfer.leased?, hqq, hcount]
        · simp [Transfer.asks, Transfer.leased?, hqq, hcount]
      | @miss q' w hempty =>
        by_cases hqq : q' = q
        · -- nothing waits any more, so what waited was leased
          subst hqq
          have hfifo := leased_append_waiting_from hr₁ hr₂ q'
          rw [hempty, List.append_nil] at hfifo
          exact .inr ⟨enqueued q' ts₂, by simp [Transfer.leased?, hfifo]⟩
        · exact .inl (by simp [Transfer.asks, Transfer.leased?, hqq, hcount])
      | release hheld => exact .inl (by simpa [Transfer.asks, Transfer.leased?] using hcount)
    · exact .inr (hall.trans (List.prefix_append _ _))

/-- **Requests.** After `n` requests to a queue, the `n` oldest of the items that waited have been leased, in
order. -/
theorem take_asked_prefix_leased (hr₁ : (leaseQueues Q W α).Run ts₁ s₁)
    (hr : (leaseQueues Q W α).Run (ts₁ ++ ts₂) s) (q : Q) :
    (s₁.waiting q).take (ts₂.countP (Transfer.asks q)) <+: leased q ts₂ := by
  rcases asked_eq_or_prefix hr₁ q hr with hcount | hall
  · -- both lists begin what waited and was enqueued since
    have hleased : leased q ts₂ <+: s₁.waiting q ++ enqueued q ts₂ :=
      ⟨s.waiting q, leased_append_waiting_from hr₁ hr q⟩
    refine List.prefix_of_prefix_length_le ((List.take_prefix _ _).trans (List.prefix_append _ _)) hleased ?_
    rw [hcount]
    exact List.length_take_le _ _
  · exact (List.take_prefix _ _).trans hall

/-- **Nobody misses what is there.** Who leaves with nothing has come after all that was enqueued. -/
theorem leased_eq_enqueued_of_miss (hr : (leaseQueues Q W α).Run (pre ++ .miss q w :: post) s) :
    leased q pre = enqueued q pre := by
  obtain ⟨s₁, s₂, hpre, hstep, -⟩ := hr.step_at
  cases hstep with
  | miss w hempty => rw [← leased_append_waiting hpre q, hempty, List.append_nil]

end Runs

/-! ### Lists as lease queues -/

/-- Which list is which queue, and which is the list of which holder. -/
structure LeaseKeys (Q W κ : Type) where
  queue : Q → κ
  holder : W → κ
  queue_injective : Function.Injective queue
  holder_injective : Function.Injective holder
  queue_ne_holder : ∀ q w, queue q ≠ holder w

namespace LeaseKeys

variable [DecidableEq Q] [DecidableEq W] [DecidableEq κ] (keys : LeaseKeys Q W κ)

omit [DecidableEq Q] [DecidableEq W] [DecidableEq κ] in
/-- The lists as lease queues: a queue is read from the right. -/
def view (st : ListStore κ α) : LeaseQueues Q W α where
  waiting q := (st.lists (keys.queue q)).reverse
  held w := (st.lists (keys.holder w) : Multiset α)

omit [DecidableEq Q] [DecidableEq W] [DecidableEq κ] in
theorem view_empty : keys.view (.empty : ListStore κ α) = ⟨fun _ => [], fun _ => 0⟩ := rfl

variable {st st' : ListStore κ α} {q : Q} {w : W} {a : α}

/-- `LPUSH` to a queue. -/
theorem step_lpush (st : ListStore κ α) (q : Q) (a : α) :
    LeaseQueues.Step (keys.view st) (.enqueue q a) (keys.view (st.lpush (keys.queue q) a)) := by
  have hwaiting : (keys.view (st.lpush (keys.queue q) a)).waiting =
      Function.update (keys.view st).waiting q ((keys.view st).waiting q ++ [a]) :=
    Function.eq_update_iff.mpr ⟨st.reverse_lpush _ a, fun q' hq =>
      congrArg List.reverse (st.lists_lpush_of_ne a (keys.queue_injective.ne hq))⟩
  have hheld : (keys.view (st.lpush (keys.queue q) a)).held = (keys.view st).held :=
    funext fun w => congrArg _ (st.lists_lpush_of_ne a (keys.queue_ne_holder q w).symm)
  rw [LeaseQueues.eq_mk hwaiting hheld]
  exact .enqueue q a

/-- `RPOPLPUSH` that has moved an item from a queue to a holder. -/
theorem step_rpoplpush (h : st.rpoplpush (keys.queue q) (keys.holder w) = (st', some a)) :
    LeaseQueues.Step (keys.view st) (.lease q w a) (keys.view st') := by
  have hne := keys.queue_ne_holder q w
  have hwaiting : (keys.view st').waiting =
      Function.update (keys.view st).waiting q (st'.lists (keys.queue q)).reverse :=
    Function.eq_update_iff.mpr ⟨rfl, fun q' hq => congrArg List.reverse
      (ListStore.lists_rpoplpush_of_ne (keys.queue_injective.ne hq) (keys.queue_ne_holder q' w) h)⟩
  have hheld : (keys.view st').held = Function.update (keys.view st).held w (a ::ₘ (keys.view st).held w) :=
    Function.eq_update_iff.mpr ⟨congrArg _ (ListStore.lists_rpoplpush_dst hne h), fun w' hw => congrArg _
      (ListStore.lists_rpoplpush_of_ne (keys.queue_ne_holder q w').symm (keys.holder_injective.ne hw) h)⟩
  rw [LeaseQueues.eq_mk hwaiting hheld]
  exact .lease w (ListStore.reverse_rpoplpush hne h)

/-- `RPOPLPUSH` that has found the queue empty. -/
theorem step_rpoplpush_none (h : st.rpoplpush (keys.queue q) (keys.holder w) = (st', none)) :
    LeaseQueues.Step (keys.view st) (.miss q w) (keys.view st') := by
  obtain ⟨hempty, rfl⟩ := ListStore.rpoplpush_none h
  exact .miss w (congrArg List.reverse hempty)

/-- `LREM` that has removed an item from the list of a holder. -/
theorem step_lrem [DecidableEq α] {n : ℕ} (h : st.lrem (keys.holder w) a = (st', n + 1)) :
    LeaseQueues.Step (keys.view st) (.release w a) (keys.view st') := by
  obtain ⟨rfl, hn⟩ := Prod.mk.inj h
  -- one copy was removed, so there was one
  have hmem : a ∈ (keys.view st).held w := by
    by_contra hnot
    rw [if_neg (show a ∉ st.lists (keys.holder w) from hnot)] at hn
    exact absurd hn (by simp)
  have hwaiting : (keys.view (st.lrem (keys.holder w) a).1).waiting = (keys.view st).waiting :=
    funext fun q => congrArg List.reverse (st.lists_lrem_of_ne a (keys.queue_ne_holder q w))
  have hheld : (keys.view (st.lrem (keys.holder w) a).1).held =
      Function.update (keys.view st).held w ((keys.view st).held w |>.erase a) :=
    Function.eq_update_iff.mpr ⟨congrArg _ (st.lists_lrem_self _ a), fun w' hw =>
      congrArg _ (st.lists_lrem_of_ne a (keys.holder_injective.ne hw))⟩
  change LeaseQueues.Step _ _ (keys.view (st.lrem (keys.holder w) a).1)
  rw [LeaseQueues.eq_mk hwaiting hheld]
  exact .release (Multiset.cons_erase hmem).symm

omit [DecidableEq Q] [DecidableEq W] in
/-- `LREM` that has found nothing. -/
theorem view_lrem_zero [DecidableEq α] {k : κ} (h : st.lrem k a = (st', 0)) : keys.view st' = keys.view st := by
  obtain ⟨rfl, hn⟩ := Prod.mk.inj h
  have hnot : a ∉ st.lists k := by
    intro hmem
    rw [if_pos hmem] at hn
    exact absurd hn (by simp)
  have hst : (st.lrem k a).1 = st := by
    ext j : 1
    by_cases hj : j = k
    · subst hj
      rw [ListStore.lists_lrem_self, List.erase_of_not_mem hnot]
    · exact st.lists_lrem_of_ne a hj
  exact congrArg keys.view hst

end LeaseKeys

/-! ### Reading transfers off a history -/

/-- A history and what is read off it, one element after the other: `R a (some b)` says that `a` is read as `b`,
and `R a none` that nothing is read off `a`. -/
inductive Readout {A B : Type} (R : A → Option B → Prop) : List A → List B → Prop
  | nil : Readout R [] []
  | concat {as : List A} {bs : List B} {a : A} {b : Option B} (h : Readout R as bs) (hab : R a b) :
      Readout R (as ++ [a]) (bs ++ b.toList)

/-- What is read is read off something. -/
theorem Readout.exists_of_mem {A B : Type} {R : A → Option B → Prop} {as : List A} {bs : List B}
    (h : Readout R as bs) {b : B} (hb : b ∈ bs) : ∃ a ∈ as, R a (some b) := by
  induction h with
  | nil => exact absurd hb (by simp)
  | @concat as bs a b' h hab ih =>
    rcases List.mem_append.mp hb with hb | hb
    · obtain ⟨a', ha', hR⟩ := ih hb
      exact ⟨a', List.mem_append_left _ ha', hR⟩
    · obtain rfl := Option.mem_toList.mp hb
      exact ⟨a, by simp, hab⟩

/-- Inverting the last reading. -/
theorem Readout.of_concat {A B : Type} {R : A → Option B → Prop} {as : List A} {a : A} {bs : List B}
    (h : Readout R (as ++ [a]) bs) : ∃ bs' b, bs = bs' ++ b.toList ∧ Readout R as bs' ∧ R a b := by
  generalize hL : as ++ [a] = L at h
  cases h with
  | nil => exact absurd hL (by simp)
  | concat h hab =>
    obtain ⟨rfl, ha⟩ := List.append_inj' hL rfl
    obtain rfl := List.singleton_inj.mp ha
    exact ⟨_, _, rfl, h, hab⟩

/-- What is read off a history is read off its parts. -/
theorem Readout.of_append {A B : Type} {R : A → Option B → Prop} {as₁ as₂ : List A} :
    ∀ {bs : List B}, Readout R (as₁ ++ as₂) bs →
      ∃ bs₁ bs₂, bs = bs₁ ++ bs₂ ∧ Readout R as₁ bs₁ ∧ Readout R as₂ bs₂ := by
  induction as₂ using List.reverseRecOn with
  | nil =>
    intro bs h
    rw [List.append_nil] at h
    exact ⟨bs, [], (List.append_nil _).symm, h, .nil⟩
  | append_singleton as₂ a ih =>
    intro bs h
    rw [← List.append_assoc] at h
    obtain ⟨bs', b, rfl, h', hab⟩ := h.of_concat
    obtain ⟨bs₁, bs₂, rfl, h₁, h₂⟩ := ih h'
    exact ⟨bs₁, bs₂ ++ b.toList, List.append_assoc _ _ _, h₁, h₂.concat hab⟩

/-- Where each element can be read in one way, so can the history. -/
theorem Readout.unique {A B : Type} {R : A → Option B → Prop} (hR : ∀ a b b', R a b → R a b' → b = b')
    {as : List A} {bs bs' : List B} (h : Readout R as bs) (h' : Readout R as bs') : bs = bs' := by
  induction h generalizing bs' with
  | nil =>
    generalize hnil : ([] : List A) = as at h'
    cases h' with
    | nil => rfl
    | concat => exact absurd hnil (by simp)
  | concat h hab ih =>
    obtain ⟨bs'', b', rfl, h'', hab'⟩ := h'.of_concat
    rw [ih h'', hR _ _ _ hab hab']

/-- What can be counted on the elements and on what is read off them. -/
theorem Readout.countP_eq {A B : Type} {R : A → Option B → Prop} {p : A → Bool} {q : B → Bool}
    (hR : ∀ a b, R a b → p a = b.any q) {as : List A} {bs : List B} (h : Readout R as bs) :
    as.countP p = bs.countP q := by
  induction h with
  | nil => rfl
  | @concat as bs a b h hab ih =>
    rw [List.countP_append, List.countP_append, ih, List.countP_singleton, hR a b hab]
    cases b with
    | none => rfl
    | some b => exact congrArg _ (List.countP_singleton ..).symm

/-- What can be read off the elements directly. -/
theorem Readout.filterMap_eq {A B γ : Type} {R : A → Option B → Prop} {f : A → Option γ} {g : B → Option γ}
    (hR : ∀ a b, R a b → f a = b.bind g) {as : List A} {bs : List B} (h : Readout R as bs) :
    as.filterMap f = bs.filterMap g := by
  induction h with
  | nil => rfl
  | @concat as bs a b h hab ih =>
    rw [filterMap_concat, List.filterMap_append, ih, hR a b hab]
    cases b with
    | none => rfl
    | some b => cases hg : g b <;> simp [hg]

end Framework
