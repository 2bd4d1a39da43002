import TaxlienGateway.Framework.Implement

/-!
# Calls behind a façade

A façade takes requests, turns some of them into calls of the programs behind it, and answers the others
itself. On the way it may consult a component with a state of its own. The server behind it sees only the
commands of these calls.

* `Prog.AppearsAs V p q` — as far as the server can see, the program `p` of a request is the program `q` of a
  call, and what they end with is related by `V`;
* `Prog.Hidden p` — the server sees nothing of `p`;
* `Facade` — each request is one or the other;
* `facade_refines` — then every run of the façade, whatever requests are interleaved, is a run of the programs
  behind it, from which the hidden requests are missing altogether (`Behind`).
-/

namespace Framework

variable {C D : Type} {R : C → Type} {S : D → Type} {α β : Type}

/-! ### Programs -/

namespace Prog

/-- A program of the server's commands alone. -/
def toOuter : Prog C R α → Prog (C ⊕ D) (BothReply R S) α
  | done a => done a
  | cmd c k => cmd (.inl c) fun r => (k r).toOuter

/-- A program of the component's commands alone. -/
def toInner : Prog D S α → Prog (C ⊕ D) (BothReply R S) α
  | done a => done a
  | cmd d k => cmd (.inr d) fun r => (k r).toInner

/-- The commands of the server are those of `q`, one after the other, with the same answers. -/
def AppearsAs (V : α → β → Prop) : Prog (C ⊕ D) (BothReply R S) α → Prog C R β → Prop
  | done a, q => ∃ b, q = done b ∧ V a b
  | cmd (.inl c) k, q => ∃ k', q = cmd c k' ∧ ∀ r, (k r).AppearsAs V (k' r)
  | cmd (.inr _) k, q => ∀ r, (k r).AppearsAs V q

/-- There is no command of the server. -/
def Hidden : Prog (C ⊕ D) (BothReply R S) α → Prop
  | done _ => True
  | cmd (.inl _) _ => False
  | cmd (.inr _) k => ∀ r, (k r).Hidden

theorem appearsAs_toOuter (p : Prog C R α) : (p.toOuter : Prog (C ⊕ D) (BothReply R S) α).AppearsAs Eq p := by
  induction p with
  | done a => exact ⟨a, rfl, rfl⟩
  | cmd c k ih => exact ⟨k, rfl, ih⟩

theorem hidden_toInner (p : Prog D S α) : (p.toInner : Prog (C ⊕ D) (BothReply R S) α).Hidden := by
  induction p with
  | done a => trivial
  | cmd d k ih => exact ih

/-- **Rule of sequencing.** -/
theorem AppearsAs.bind {α' β' : Type} {V : α → β → Prop} {W : α' → β' → Prop}
    {p : Prog (C ⊕ D) (BothReply R S) α} {q : Prog C R β} {f : α → Prog (C ⊕ D) (BothReply R S) α'}
    {g : β → Prog C R β'} (hp : p.AppearsAs V q) (hf : ∀ a b, V a b → (f a).AppearsAs W (g b)) :
    (p >>= f).AppearsAs W (q >>= g) := by
  induction p generalizing q with
  | done a =>
    obtain ⟨b, rfl, hV⟩ := hp
    exact hf a b hV
  | cmd c k ih =>
    cases c with
    | inl c =>
      obtain ⟨k', rfl, hk⟩ := hp
      exact ⟨fun r => k' r >>= g, rfl, fun r => ih r (hk r)⟩
    | inr d => exact fun r => ih r (hp r)

theorem Hidden.bind {p : Prog (C ⊕ D) (BothReply R S) α} {f : α → Prog (C ⊕ D) (BothReply R S) β}
    (hp : p.Hidden) (hf : ∀ a, (f a).Hidden) : (p >>= f).Hidden := by
  induction p with
  | done a => exact hf a
  | cmd c k ih =>
    cases c with
    | inl c => exact absurd hp id
    | inr d => exact fun r => ih r (hp r)

/-- **Rule of consequence.** -/
theorem AppearsAs.mono {V W : α → β → Prop} {p : Prog (C ⊕ D) (BothReply R S) α} {q : Prog C R β}
    (hp : p.AppearsAs V q) (h : ∀ a b, V a b → W a b) : p.AppearsAs W q := by
  induction p generalizing q with
  | done a =>
    obtain ⟨b, rfl, hV⟩ := hp
    exact ⟨b, rfl, h a b hV⟩
  | cmd c k ih =>
    cases c with
    | inl c =>
      obtain ⟨k', rfl, hk⟩ := hp
      exact ⟨k', rfl, fun r => ih r (hk r)⟩
    | inr d => exact fun r => ih r (hp r)

/-- What is made of the value in the end is not seen. -/
theorem AppearsAs.map {α' : Type} {V : α → β → Prop} {W : α' → β → Prop}
    {p : Prog (C ⊕ D) (BothReply R S) α} {q : Prog C R β} {f : α → α'} (hp : p.AppearsAs V q)
    (hf : ∀ a b, V a b → W (f a) b) : (p >>= fun a => pure (f a)).AppearsAs W q := by
  induction p generalizing q with
  | done a =>
    obtain ⟨b, rfl, hV⟩ := hp
    exact ⟨b, rfl, hf a b hV⟩
  | cmd c k ih =>
    cases c with
    | inl c =>
      obtain ⟨k', rfl, hk⟩ := hp
      exact ⟨k', rfl, fun r => ih r (hk r)⟩
    | inr d => exact fun r => ih r (hp r)

theorem toOuter_bind (p : Prog C R α) (f : α → Prog C R β) :
    ((p >>= f).toOuter : Prog (C ⊕ D) (BothReply R S) β) = p.toOuter >>= fun a => (f a).toOuter := by
  induction p with
  | done a => rfl
  | cmd c k ih => exact congrArg (cmd (Sum.inl c)) (funext ih)

/-! ### Their conduct -/

/-- A command of the server, with its answer, in a history of both. -/
def outerOp (op : Op C R) : Op (C ⊕ D) (BothReply R S) := ⟨.inl op.1, op.2⟩

/-- A command of the component, with its answer. -/
def innerOp (op : Op D S) : Op (C ⊕ D) (BothReply R S) := ⟨.inr op.1, op.2⟩

/-- **Conduct of a program of the server's commands**, in the history of both. -/
theorem Obeys.toOuter {G : List (Op C R) → C → Prop} {Q : List (Op C R) → α → Prop} {h : List (Op C R)}
    {p : Prog C R α} (hp : p.Obeys G Q h) : (p.toOuter : Prog (C ⊕ D) (BothReply R S) α).Obeys
      (fun h' c' => ∃ h c, h' = h.map outerOp ∧ c' = .inl c ∧ G h c)
      (fun h' a => ∃ h, h' = h.map outerOp ∧ Q h a) (h.map outerOp) := by
  induction p generalizing h with
  | done a => exact ⟨h, rfl, hp⟩
  | cmd c k ih =>
    refine ⟨⟨h, c, rfl, rfl, hp.1⟩, fun r => ?_⟩
    have hrest := ih r (hp.2 r)
    rw [List.map_append] at hrest
    exact hrest

/-- **Conduct of a program of the component's commands.** -/
theorem Obeys.toInner {G : List (Op D S) → D → Prop} {Q : List (Op D S) → α → Prop} {h : List (Op D S)}
    {p : Prog D S α} (hp : p.Obeys G Q h) : (p.toInner : Prog (C ⊕ D) (BothReply R S) α).Obeys
      (fun h' c' => ∃ h d, h' = h.map innerOp ∧ c' = .inr d ∧ G h d)
      (fun h' a => ∃ h, h' = h.map innerOp ∧ Q h a) (h.map innerOp) := by
  induction p generalizing h with
  | done a => exact ⟨h, rfl, hp⟩
  | cmd d k ih =>
    refine ⟨⟨h, d, rfl, rfl, hp.1⟩, fun r => ?_⟩
    have hrest := ih r (hp.2 r)
    rw [List.map_append] at hrest
    exact hrest

end Prog

/-! ### Histories -/

variable {Req Call : Type} {Resp : Req → Type} {Ret : Call → Type} {σ τ T : Type}

/-- Which requests are calls, and how they are answered. -/
structure View (Resp : Req → Type) (Ret : Call → Type) where
  call? : Req → Option Call
  shows : (req : Req) → (call : Call) → Resp req → Ret call → Prop

/-- What the server sees of an event of the façade. -/
inductive View.Sees (v : View Resp Ret) :
    Event (C ⊕ D) (BothReply R S) Req Resp → Event C R Call Ret → Prop
  | start {i : ℕ} {req : Req} {call : Call} (h : v.call? req = some call) : Sees v (.start i req) (.start i call)
  | cmd {i : ℕ} {req : Req} {call : Call} {c : C} {o : Outcome (R c)} (h : v.call? req = some call) :
      Sees v (.cmd i req (.inl c) o) (.cmd i call c o)
  | finish {i : ℕ} {req : Req} {call : Call} {a : Resp req} {b : Ret call} (h : v.call? req = some call)
      (hshows : v.shows req call a b) : Sees v (.finish i req a) (.finish i call b)
  | crash {i : ℕ} {req : Req} {call : Call} (h : v.call? req = some call) : Sees v (.crash i req) (.crash i call)

/-- The events that it does not see: those of hidden requests, and the commands of the component. -/
inductive View.Misses (v : View Resp Ret) : Event (C ⊕ D) (BothReply R S) Req Resp → Prop
  | start {i : ℕ} {req : Req} (h : v.call? req = none) : Misses v (.start i req)
  | cmd {i : ℕ} {req : Req} {d : D} {o : Outcome (S d)} : Misses v (.cmd i req (.inr d) o)
  | finish {i : ℕ} {req : Req} {a : Resp req} (h : v.call? req = none) : Misses v (.finish i req a)
  | crash {i : ℕ} {req : Req} (h : v.call? req = none) : Misses v (.crash i req)

/-- The history behind a history of the façade. -/
inductive Behind (v : View Resp Ret) :
    List (T × Event (C ⊕ D) (BothReply R S) Req Resp) → List (Event C R Call Ret) → Prop
  | nil : Behind v [] []
  | sees {es' : List (T × Event (C ⊕ D) (BothReply R S) Req Resp)} {es : List (Event C R Call Ret)} {t : T}
      {e' : Event (C ⊕ D) (BothReply R S) Req Resp} {e : Event C R Call Ret} (h : Behind v es' es)
      (he : v.Sees e' e) : Behind v (es' ++ [(t, e')]) (es ++ [e])
  | misses {es' : List (T × Event (C ⊕ D) (BothReply R S) Req Resp)} {es : List (Event C R Call Ret)} {t : T}
      {e' : Event (C ⊕ D) (BothReply R S) Req Resp} (h : Behind v es' es) (he : v.Misses e') :
      Behind v (es' ++ [(t, e')]) es

/-- What is read off the executed commands of the server is the same on both sides. -/
theorem Behind.flatMap_applied {ρ : Type} {v : View Resp Ret}
    {f : Applied C R Call → List ρ} {g : Applied (C ⊕ D) (BothReply R S) Req → List ρ}
    (hfg : ∀ req call c r, v.call? req = some call → g ⟨req, .inl c, r⟩ = f ⟨call, c, r⟩)
    (hg : ∀ req d r, g ⟨req, .inr d, r⟩ = [])
    {es' : List (T × Event (C ⊕ D) (BothReply R S) Req Resp)} {es : List (Event C R Call Ret)}
    (h : Behind v es' es) : (applied (es'.map Prod.snd)).flatMap g = (applied es).flatMap f := by
  induction h with
  | nil => rfl
  | @sees es' es t e' e h he ih =>
    rw [List.map_append, List.map_singleton, applied_append_singleton, applied_append_singleton,
      List.flatMap_append, List.flatMap_append, ih]
    refine congrArg _ ?_
    cases he with
    | start h => rfl
    | @cmd i req call c o h => cases o <;> simp [Event.applied?, hfg req call c _ h]
    | finish h hshows => rfl
    | crash h => rfl
  | @misses es' es t e' h he ih =>
    rw [List.map_append, List.map_singleton, applied_append_singleton, List.flatMap_append, ih]
    cases he with
    | start h => simp [Event.applied?]
    | @cmd i req d o => cases o <;> simp [Event.applied?, hg]
    | finish h => simp [Event.applied?]
    | crash h => simp [Event.applied?]

/-- An executed command behind the façade has been issued for a request. -/
theorem Behind.exists_request {v : View Resp Ret} {es' : List (T × Event (C ⊕ D) (BothReply R S) Req Resp)}
    {es : List (Event C R Call Ret)} (h : Behind v es' es) {a : Applied C R Call} (ha : a ∈ applied es) :
    ∃ req, v.call? req = some a.call ∧ ⟨req, .inl a.cmd, a.reply⟩ ∈ applied (es'.map Prod.snd) := by
  induction h with
  | nil => exact absurd ha (by simp)
  | @sees es' es t e' e h he ih =>
    rw [applied_append_singleton] at ha
    rw [List.map_append, List.map_singleton, applied_append_singleton]
    rcases List.mem_append.mp ha with ha | ha
    · obtain ⟨req, hcall, hmem⟩ := ih ha
      exact ⟨req, hcall, List.mem_append_left _ hmem⟩
    · cases he with
      | start h => exact absurd ha (by simp [Event.applied?])
      | @cmd i req call c o h =>
        obtain ⟨r, hr, rfl⟩ := Option.map_eq_some_iff.mp (Option.mem_toList.mp ha)
        refine ⟨req, h, List.mem_append_right _ (Option.mem_toList.mpr ?_)⟩
        exact congrArg (Option.map fun r => (⟨req, .inl c, r⟩ : Applied (C ⊕ D) (BothReply R S) Req)) hr
      | finish h hshows => exact absurd ha (by simp [Event.applied?])
      | crash h => exact absurd ha (by simp [Event.applied?])
  | misses h he ih =>
    obtain ⟨req, hcall, hmem⟩ := ih ha
    rw [List.map_append, List.map_singleton, applied_append_singleton]
    exact ⟨req, hcall, List.mem_append_left _ hmem⟩

/-- A call behind the façade was started for a request. -/
theorem Behind.exists_start {v : View Resp Ret} {es' : List (T × Event (C ⊕ D) (BothReply R S) Req Resp)}
    {es : List (Event C R Call Ret)} (h : Behind v es' es) {i : ℕ} {call : Call} (hstart : .start i call ∈ es) :
    ∃ t req, v.call? req = some call ∧ (t, .start i req) ∈ es' := by
  induction h with
  | nil => exact absurd hstart (by simp)
  | @sees es' es t e' e h he ih =>
    rcases List.mem_append.mp hstart with hstart | hstart
    · obtain ⟨t', req, hcall, hmem⟩ := ih hstart
      exact ⟨t', req, hcall, List.mem_append_left _ hmem⟩
    · obtain rfl := List.mem_singleton.mp hstart
      cases he with
      | start hcall => exact ⟨t, _, hcall, List.mem_append_right _ (List.mem_singleton_self _)⟩
  | misses h he ih =>
    obtain ⟨t', req, hcall, hmem⟩ := ih hstart
    exact ⟨t', req, hcall, List.mem_append_left _ hmem⟩

/-- An executed command of the server belongs to a call behind the façade. -/
theorem Behind.exists_call {v : View Resp Ret} {es' : List (T × Event (C ⊕ D) (BothReply R S) Req Resp)}
    {es : List (Event C R Call Ret)} (h : Behind v es' es) {req : Req} {c : C} {r : R c}
    (ha : ⟨req, .inl c, r⟩ ∈ applied (es'.map Prod.snd)) :
    ∃ call, v.call? req = some call ∧ ⟨call, c, r⟩ ∈ applied es := by
  induction h with
  | nil => exact absurd ha (by simp)
  | @sees es' es t e' e h he ih =>
    rw [List.map_append, List.map_singleton, applied_append_singleton] at ha
    rw [applied_append_singleton]
    rcases List.mem_append.mp ha with ha | ha
    · obtain ⟨call, hcall, hmem⟩ := ih ha
      exact ⟨call, hcall, List.mem_append_left _ hmem⟩
    · cases he with
      | start h => exact absurd ha (by simp [Event.applied?])
      | @cmd i req' call c' o h =>
        obtain ⟨r', hr, heq⟩ := Option.map_eq_some_iff.mp (Option.mem_toList.mp ha)
        cases heq
        exact ⟨call, h, List.mem_append_right _ (Option.mem_toList.mpr (Option.map_eq_some_iff.mpr ⟨r, hr, rfl⟩))⟩
      | finish h hshows => exact absurd ha (by simp [Event.applied?])
      | crash h => exact absurd ha (by simp [Event.applied?])
  | misses h he ih =>
    rw [List.map_append, List.map_singleton, applied_append_singleton] at ha
    rcases List.mem_append.mp ha with ha | ha
    · exact ih ha
    · -- what is missed is no command of the server
      cases he with
      | start h => exact absurd ha (by simp [Event.applied?])
      | @cmd i req' d o =>
        obtain ⟨r', hr, heq⟩ := Option.map_eq_some_iff.mp (Option.mem_toList.mp ha)
        cases heq
      | finish h => exact absurd ha (by simp [Event.applied?])
      | crash h => exact absurd ha (by simp [Event.applied?])

/-! ### Runs -/

section Runs

variable {v : View Resp Ret} {front : (req : Req) → Prog (C ⊕ D) (BothReply R S) (Resp req)}
  {body : (call : Call) → Prog C R (Ret call)} {srv : Server C R σ} {component : T → Server D S τ}
  {init : σ → Prop} {init' : σ × τ → Prop}

/-- Each request appears as its call, or is hidden. -/
structure Facade (v : View Resp Ret) (front : (req : Req) → Prog (C ⊕ D) (BothReply R S) (Resp req))
    (body : (call : Call) → Prog C R (Ret call)) : Prop where
  appears : ∀ req call, v.call? req = some call → (front req).AppearsAs (v.shows req call) (body call)
  hidden : ∀ req, v.call? req = none → (front req).Hidden

/-- A request in flight, as the server sees it. -/
inductive ThreadView (v : View Resp Ret) :
    Option (Thread (C ⊕ D) (BothReply R S) Req Resp) → Option (Thread C R Call Ret) → Prop
  | none : ThreadView v none none
  | appears {req : Req} {call : Call} {p : Prog (C ⊕ D) (BothReply R S) (Resp req)} {q : Prog C R (Ret call)}
      (hcall : v.call? req = some call) (h : p.AppearsAs (v.shows req call) q) :
      ThreadView v (some ⟨req, p⟩) (some ⟨call, q⟩)
  | hidden {req : Req} {p : Prog (C ⊕ D) (BothReply R S) (Resp req)} (hcall : v.call? req = none)
      (h : p.Hidden) : ThreadView v (some ⟨req, p⟩) none

theorem ThreadView.of_none {x : Option (Thread C R Call Ret)}
    (h : ThreadView v (Option.none : Option (Thread (C ⊕ D) (BothReply R S) Req Resp)) x) : x = Option.none := by
  cases h with
  | none => rfl

/-- **Inversion.** A request in flight is a call in flight, or hidden. -/
theorem ThreadView.of_some {x : Option (Thread C R Call Ret)} {th : Thread (C ⊕ D) (BothReply R S) Req Resp}
    (h : ThreadView v (Option.some th) x) :
    (∃ call q, v.call? th.call = Option.some call ∧ x = Option.some ⟨call, q⟩ ∧
      th.rest.AppearsAs (v.shows th.call call) q) ∨
    (v.call? th.call = Option.none ∧ x = Option.none ∧ th.rest.Hidden) := by
  cases h with
  | appears hcall h => exact .inl ⟨_, _, hcall, rfl, h⟩
  | hidden hcall h => exact .inr ⟨hcall, rfl, h⟩

theorem ThreadView.update {th' : ℕ → Option (Thread (C ⊕ D) (BothReply R S) Req Resp)}
    {th : ℕ → Option (Thread C R Call Ret)} {i : ℕ} {x' : Option (Thread (C ⊕ D) (BothReply R S) Req Resp)}
    {x : Option (Thread C R Call Ret)} (h : ∀ j, ThreadView v (th' j) (th j)) (hx : ThreadView v x' x) (j : ℕ) :
    ThreadView v (Function.update th' i x' j) (Function.update th i x j) := by
  by_cases hj : j = i
  · subst hj
    rwa [Function.update_self, Function.update_self]
  · rw [Function.update_of_ne hj, Function.update_of_ne hj]
    exact h j

/-- A step that is not seen leaves the thread of its index as it was. -/
theorem ThreadView.update_left {th' : ℕ → Option (Thread (C ⊕ D) (BothReply R S) Req Resp)}
    {th : ℕ → Option (Thread C R Call Ret)} {i : ℕ} {x' : Option (Thread (C ⊕ D) (BothReply R S) Req Resp)}
    (h : ∀ j, ThreadView v (th' j) (th j)) (hx : ThreadView v x' (th i)) (j : ℕ) :
    ThreadView v (Function.update th' i x' j) (th j) := by
  have hupdate := ThreadView.update (i := i) h hx j
  rwa [Function.update_eq_self] at hupdate

/-- The states that the two runs have reached. -/
structure PoolView (v : View Resp Ret) (p' : Pool (C ⊕ D) (BothReply R S) Req Resp (σ × τ))
    (p : Pool C R Call Ret σ) : Prop where
  store : p.store = p'.store.1
  threads : ∀ i, ThreadView v (p'.threads i) (p.threads i)

/-- **Step.** A step of the façade is a step behind it, or none. -/
theorem PoolView.step [Preorder T] (hf : Facade v front body) {es : List (Event C R Call Ret)}
    {es' : List (T × Event (C ⊕ D) (BothReply R S) Req Resp)} {p : Pool C R Call Ret σ}
    {p' p₁' : Pool (C ⊕ D) (BothReply R S) Req Resp (σ × τ)} {t : T}
    {e' : Event (C ⊕ D) (BothReply R S) Req Resp} (hr : (pool srv body init).Run es p) (hbehind : Behind v es' es)
    (h : PoolView v p' p) (hs : PoolStep (srv.beside (component t)) front p' e' p₁') :
    ∃ es₁ p₁, (pool srv body init).Run es₁ p₁ ∧ Behind v (es' ++ [(t, e')]) es₁ ∧ PoolView v p₁' p₁ := by
  cases hs with
  | @start i req hfree =>
    have hnone : p.threads i = none := ThreadView.of_none (hfree ▸ h.threads i)
    cases hcall : v.call? req with
    | some call =>
      exact ⟨_, _, hr.step (.start hnone), hbehind.sees (.start hcall), h.store,
        ThreadView.update h.threads (.appears hcall (hf.appears _ _ hcall))⟩
    | none =>
      refine ⟨es, p, hr, hbehind.misses (.start hcall), h.store, ThreadView.update_left h.threads ?_⟩
      rw [hnone]
      exact .hidden hcall (hf.hidden _ hcall)
  | @cmd i req c k f s' o hth hx =>
    cases c with
    | inl c =>
      -- a hidden request does not issue a command of the server
      obtain ⟨call, q, hcall, hp, k', rfl, hk⟩ | ⟨-, -, hhidden⟩ := ThreadView.of_some (hth ▸ h.threads i)
      · obtain ⟨hx, -⟩ := Server.answer_of_inl hx
        rw [← h.store] at hx
        exact ⟨_, _, hr.step (.cmd hp hx), hbehind.sees (.cmd hcall), rfl,
          ThreadView.update h.threads (.appears hcall (hk _))⟩
      · exact absurd hhidden id
    | inr d =>
      obtain ⟨-, hstore⟩ := Server.answer_of_inr hx
      refine ⟨es, p, hr, hbehind.misses .cmd, h.store.trans hstore.symm, ThreadView.update_left h.threads ?_⟩
      obtain ⟨call, q, hcall, hp, happears⟩ | ⟨hcall, hp, hhidden⟩ := ThreadView.of_some (hth ▸ h.threads i)
      · rw [hp]
        exact .appears hcall (happears _)
      · rw [hp]
        exact .hidden hcall (hhidden _)
  | @finish i req a hth =>
    obtain ⟨call, q, hcall, hp, b, rfl, hshows⟩ | ⟨hcall, hp, -⟩ := ThreadView.of_some (hth ▸ h.threads i)
    · exact ⟨_, _, hr.step (.finish hp), hbehind.sees (.finish hcall hshows), h.store,
        ThreadView.update h.threads .none⟩
    · refine ⟨es, p, hr, hbehind.misses (.finish hcall), h.store, ThreadView.update_left h.threads ?_⟩
      rw [hp]
      exact .none
  | @crash i th hth =>
    obtain ⟨call, q, hcall, hp, -⟩ | ⟨hcall, hp, -⟩ := ThreadView.of_some (hth ▸ h.threads i)
    · exact ⟨_, _, hr.step (.crash hp), hbehind.sees (.crash hcall), h.store,
        ThreadView.update h.threads .none⟩
    · refine ⟨es, p, hr, hbehind.misses (.crash hcall), h.store, ThreadView.update_left h.threads ?_⟩
      rw [hp]
      exact .none

/-- **Refinement.** A run of the façade is a run of the programs behind it. -/
theorem facade_refines [Preorder T] (hf : Facade v front body) (hinit : ∀ s, init' s → init s.1)
    {es' : List (T × Event (C ⊕ D) (BothReply R S) Req Resp)}
    {s' : T × Pool (C ⊕ D) (BothReply R S) Req Resp (σ × τ)}
    (hr : (timedPool (fun t => srv.beside (component t)) front init').Run es' s') :
    ∃ es p, (pool srv body init).Run es p ∧ Behind v es' es ∧ PoolView v s'.2 p := by
  induction hr with
  | @init s' h =>
    refine ⟨[], ⟨s'.2.store.1, fun _ => none⟩, .init ⟨hinit _ h.1, rfl⟩, .nil, rfl, ?_⟩
    rw [h.2]
    exact fun _ => .none
  | step hr hs ih =>
    obtain ⟨es, p, hr, hbehind, hview⟩ := ih
    exact hview.step hf hr hbehind hs.2.2

end Runs

end Framework
