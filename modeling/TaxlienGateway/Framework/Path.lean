import Mathlib.Data.List.DropRight
import Mathlib.Data.List.Infix
import TaxlienGateway.Framework.Text

/-!
# Paths

A path is a text over an alphabet with a separator and a dot (`PathSyntax`). Where it leads, symbolic links
apart, is its `Location`: from the root or from the working directory some levels up and then down along
names. The parts of a path between separators move the location one by one (`Location.step`): an empty part
and `.` stay, `..` goes up, and any other part is a name.

* `locate` — where a path leads;
* `walk_eq_follow`, `locate_append` — a path that is continued leads where the continuation leads from there;
* `inside_follow_iff` — when a way from a directory ends inside of it;
* `clean`, `locate_clean` — the shortest path to a location;
* `base` — the last part of a path, `base_of_not_onlySeps`.
-/

namespace Framework

/-- The two letters with a meaning in paths. -/
structure PathSyntax (α : Type) where
  sep : α
  dot : α
  dot_ne_sep : dot ≠ sep

variable {α : Type}

/-- The name of an entry of a directory. -/
def PathSyntax.Name (syn : PathSyntax α) (part : List α) : Prop :=
  part ≠ [] ∧ part ≠ [syn.dot] ∧ part ≠ [syn.dot, syn.dot] ∧ syn.sep ∉ part

instance [DecidableEq α] (syn : PathSyntax α) (part : List α) : Decidable (syn.Name part) :=
  inferInstanceAs (Decidable (_ ∧ _ ∧ _ ∧ _))

/-- Where a path leads: from the root, or from `ups` levels above the working directory, down along the
names. -/
@[ext] structure Location (syn : PathSyntax α) where
  rooted : Bool
  ups : ℕ
  names : List (List α)
  ups_eq_zero : rooted = true → ups = 0
  isName : ∀ name ∈ names, syn.Name name

namespace Location

variable {syn : PathSyntax α}

instance [DecidableEq α] : DecidableEq (Location syn) := fun a b =>
  decidable_of_iff (a.rooted = b.rooted ∧ a.ups = b.ups ∧ a.names = b.names) Location.ext_iff.symm

/-- The root, or the working directory. -/
def start (rooted : Bool) : Location syn := ⟨rooted, 0, [], fun _ => rfl, by simp⟩

/-- An entry of a directory. -/
def child (loc : Location syn) (name : List α) (hname : syn.Name name) : Location syn where
  rooted := loc.rooted
  ups := loc.ups
  names := loc.names ++ [name]
  ups_eq_zero := loc.ups_eq_zero
  isName := List.forall_mem_append.mpr ⟨loc.isName, by simpa using hname⟩

/-- The directory above. Above the root is the root. -/
def parent (loc : Location syn) : Location syn where
  rooted := loc.rooted
  ups := if loc.names = [] ∧ loc.rooted = false then loc.ups + 1 else loc.ups
  names := loc.names.dropLast
  ups_eq_zero := by
    intro hrooted
    simpa [hrooted] using loc.ups_eq_zero hrooted
  isName := fun name hname => loc.isName name (List.mem_of_mem_dropLast hname)

variable [DecidableEq α]

/-- The part of a path between two separators. -/
def step (loc : Location syn) (part : List α) : Location syn :=
  if hname : syn.Name part then loc.child part hname
  else if part = [syn.dot, syn.dot] then loc.parent
  else loc

/-- Several parts. -/
def walk (loc : Location syn) (parts : List (List α)) : Location syn := parts.foldl step loc

theorem walk_cons (loc : Location syn) (part : List α) (parts : List (List α)) :
    loc.walk (part :: parts) = (loc.step part).walk parts := rfl

omit [DecidableEq α] in
/-- Go on from a location: `next.ups` levels up and down along its names, or from the root. -/
def follow (loc next : Location syn) : Location syn where
  rooted := next.rooted || loc.rooted
  ups := if next.rooted || loc.rooted then 0 else loc.ups + (next.ups - loc.names.length)
  names := (if next.rooted then [] else loc.names.take (loc.names.length - next.ups)) ++ next.names
  ups_eq_zero := fun hrooted => if_pos hrooted
  isName := by
    refine List.forall_mem_append.mpr ⟨fun name hname => ?_, next.isName⟩
    split at hname
    · exact absurd hname List.not_mem_nil
    · exact loc.isName name (List.mem_of_mem_take hname)

omit [DecidableEq α] in
theorem follow_start (loc : Location syn) : loc.follow (start false) = loc := by
  ext : 1
  · rfl
  · show (if loc.rooted = true then 0 else loc.ups + (0 - loc.names.length)) = loc.ups
    split
    · next hrooted => exact (loc.ups_eq_zero hrooted).symm
    · rw [Nat.zero_sub, Nat.add_zero]
  · show loc.names.take loc.names.length ++ [] = loc.names
    rw [List.take_length, List.append_nil]

omit [DecidableEq α] in
theorem follow_child (loc next : Location syn) {name : List α} (hname : syn.Name name) :
    (loc.follow next).child name hname = loc.follow (next.child name hname) := by
  ext : 1
  · rfl
  · rfl
  · exact List.append_assoc _ _ _

omit [DecidableEq α] in
/-- As many names off the end of a list as there are, or more, leave none. -/
theorem take_length_sub_eq_nil_iff {names : List (List α)} {ups : ℕ} :
    names.take (names.length - ups) = [] ↔ names.length ≤ ups := by
  rw [← List.length_eq_zero_iff, List.length_take]
  omega

omit [DecidableEq α] in
/-- The levels above, when the way goes up at its end. -/
theorem ups_follow_parent (loc next : Location syn) :
    (loc.follow next).parent.ups = (loc.follow next.parent).ups := by
  obtain ⟨rooted, ups, names, hups, hnames⟩ := next
  cases rooted with
  | true => simp [follow, parent]
  | false =>
    cases hloc : loc.rooted with
    | true => simp [follow, parent, hloc]
    | false =>
      by_cases hempty : names = []
      · -- only what is above the names of `loc` is counted
        subst hempty
        simp only [follow, parent, hloc, Bool.or_false, Bool.false_eq_true, if_false, List.append_nil,
          and_true, if_true]
        by_cases hle : loc.names.length ≤ ups
        · rw [if_pos (take_length_sub_eq_nil_iff.mpr hle)]
          omega
        · rw [if_neg (mt take_length_sub_eq_nil_iff.mp hle)]
          omega
      · simp [follow, parent, hloc, hempty]

omit [DecidableEq α] in
/-- The names, when the way goes up at its end: the last one goes, of `next` or else of what is kept of
`loc`. -/
theorem names_follow_parent (loc next : Location syn) :
    (loc.follow next).parent.names = (loc.follow next.parent).names := by
  obtain ⟨rooted, ups, names, hups, hnames⟩ := next
  by_cases hempty : names = []
  · subst hempty
    cases rooted with
    | true => rfl
    | false =>
      show (loc.names.take (loc.names.length - ups) ++ []).dropLast =
        loc.names.take (loc.names.length - (ups + 1)) ++ []
      rw [List.append_nil, List.append_nil, List.dropLast_eq_take, List.length_take, List.take_take]
      exact congrArg (loc.names.take ·) (by omega)
  · have hsame : (if names = [] ∧ rooted = false then ups + 1 else ups) = ups :=
      if_neg fun h => hempty h.1
    show (_ ++ names).dropLast = (if rooted then [] else loc.names.take (loc.names.length -
      (if names = [] ∧ rooted = false then ups + 1 else ups))) ++ names.dropLast
    rw [hsame, List.dropLast_append_of_ne_nil hempty]

omit [DecidableEq α] in
/-- Going up at the end of the way. -/
theorem follow_parent (loc next : Location syn) : (loc.follow next).parent = loc.follow next.parent :=
  Location.ext rfl (ups_follow_parent loc next) (names_follow_parent loc next)

theorem follow_step (loc next : Location syn) (part : List α) :
    (loc.follow next).step part = loc.follow (next.step part) := by
  unfold step
  by_cases hname : syn.Name part
  · rw [dif_pos hname, dif_pos hname, follow_child]
  · rw [dif_neg hname, dif_neg hname]
    split
    · exact follow_parent loc next
    · rfl

/-- **The law of walking**: the parts lead from a location to where they lead on their own, seen from it. -/
theorem walk_eq_follow (loc : Location syn) (parts : List (List α)) :
    loc.walk parts = loc.follow ((start false).walk parts) := by
  induction parts using List.reverseRecOn with
  | nil => exact (follow_start loc).symm
  | append_singleton parts part ih =>
    -- the last part is a step from both ends
    unfold walk at ih ⊢
    rw [List.foldl_append, List.foldl_append, ih]
    exact follow_step _ _ _

theorem step_of_name (loc : Location syn) {part : List α} (hname : syn.Name part) :
    loc.step part = loc.child part hname := dif_pos hname

theorem step_nil (loc : Location syn) : loc.step [] = loc := by
  unfold step
  rw [dif_neg fun h => h.1 rfl, if_neg (by simp)]

theorem step_dot (loc : Location syn) : loc.step [syn.dot] = loc := by
  unfold step
  rw [dif_neg fun h => h.2.1 rfl, if_neg (by simp)]

theorem step_dots (loc : Location syn) : loc.step [syn.dot, syn.dot] = loc.parent := by
  unfold step
  rw [dif_neg fun h => h.2.2.1 rfl, if_pos rfl]

omit [DecidableEq α] in
/-- A way from the root does not depend on where one is. -/
theorem follow_of_rooted (loc : Location syn) {next : Location syn} (hnext : next.rooted = true) :
    loc.follow next = next := by
  ext : 1
  · show (next.rooted || loc.rooted) = next.rooted
    rw [hnext, Bool.true_or]
  · show (if (next.rooted || loc.rooted) = true then 0 else _) = next.ups
    rw [hnext, Bool.true_or, if_pos rfl, next.ups_eq_zero hnext]
  · show (if next.rooted = true then [] else _) ++ next.names = next.names
    rw [hnext, if_pos rfl, List.nil_append]

theorem step_rooted (loc : Location syn) (part : List α) : (loc.step part).rooted = loc.rooted := by
  unfold step
  split
  · rfl
  · split <;> rfl

theorem walk_rooted (loc : Location syn) (parts : List (List α)) :
    (loc.walk parts).rooted = loc.rooted := by
  induction parts generalizing loc with
  | nil => rfl
  | cons part parts ih => rw [walk_cons, ih, step_rooted]

/-! ### What is in a directory -/

/-- In the directory, or in a directory in it, at any depth. -/
def Inside (loc dir : Location syn) : Prop :=
  loc.rooted = dir.rooted ∧ loc.ups = dir.ups ∧ ∃ rest, rest ≠ [] ∧ loc.names = dir.names ++ rest

/-- The names go on after these names. -/
def GoesOn (start names : List (List α)) : Prop := ∃ rest, rest ≠ [] ∧ names = start ++ rest

omit [DecidableEq α] in
/-- **When a way from a directory ends inside of it**: if it comes back down what it went up, and goes on. -/
theorem inside_follow_iff {dir : Location syn} (hdir : dir.rooted = true) (next : Location syn) :
    (dir.follow next).Inside dir ↔
      GoesOn (if next.rooted then dir.names else dir.names.drop (dir.names.length - next.ups)) next.names := by
  have hrooted : (dir.follow next).rooted = dir.rooted := by
    show (next.rooted || dir.rooted) = dir.rooted
    rw [hdir, Bool.or_true]
  have hups : (dir.follow next).ups = dir.ups := by
    show (if (next.rooted || dir.rooted) = true then 0 else _) = dir.ups
    rw [hdir, Bool.or_true, if_pos rfl, dir.ups_eq_zero hdir]
  unfold Inside GoesOn
  rw [and_iff_right hrooted, and_iff_right hups]
  refine exists_congr fun rest => and_congr_right fun _ => ?_
  show (if next.rooted = true then [] else dir.names.take (dir.names.length - next.ups)) ++ next.names =
    dir.names ++ rest ↔ _
  cases next.rooted with
  | true => exact Iff.rfl
  | false =>
    rw [if_neg Bool.false_ne_true, if_neg Bool.false_ne_true]
    -- what is kept of the names is the same on both sides
    have hnames := List.take_append_drop (dir.names.length - next.ups) dir.names
    constructor
    · intro heq
      rw [← hnames, List.append_assoc, hnames] at heq
      exact List.append_cancel_left heq
    · intro heq
      rw [heq, ← List.append_assoc, hnames]

end Location

/-! ### Where a path leads -/

namespace PathSyntax

variable [DecidableEq α] (syn : PathSyntax α)

/-- Where a path leads. -/
def locate (path : List α) : Location syn :=
  (Location.start (decide (path.head? = some syn.sep))).walk (path.splitOn syn.sep)

/-- **A path that is continued** leads where the continuation leads from there. -/
theorem locate_append {path : List α} (hne : path ≠ []) (rest : List α) :
    syn.locate (path ++ syn.sep :: rest) =
      (syn.locate path).follow ((Location.start false).walk (rest.splitOn syn.sep)) := by
  obtain ⟨c, path, rfl⟩ := List.exists_cons_of_ne_nil hne
  unfold locate
  rw [List.splitOn_append_cons_self, ← Location.walk_eq_follow]
  exact List.foldl_append

/-- A continuation that does not start at the root. -/
theorem locate_of_relative {path : List α} (hrel : path.head? ≠ some syn.sep) :
    syn.locate path = (Location.start false).walk (path.splitOn syn.sep) := by
  unfold locate
  rw [decide_eq_false hrel]

/-- A path from the root. -/
theorem locate_rooted (path : List α) :
    syn.locate (syn.sep :: path) = (Location.start true).walk (path.splitOn syn.sep) := by
  have hroot : decide ((syn.sep :: path).head? = some syn.sep) = true := decide_eq_true rfl
  have hsplit : (syn.sep :: path).splitOn syn.sep = [] :: path.splitOn syn.sep :=
    List.splitOn_append_cons_self_of_not_mem List.not_mem_nil path
  unfold locate
  rw [hroot, hsplit, Location.walk_cons, Location.step_nil]

/-! ### The shortest path -/

/-- The parts of the shortest path to a location, from the root or from the working directory. -/
def parts (loc : Location syn) : List (List α) :=
  List.replicate loc.ups [syn.dot, syn.dot] ++ loc.names

/-- The shortest path to a location. -/
def render (loc : Location syn) : List α :=
  if syn.parts loc = [] then if loc.rooted then [syn.sep] else [syn.dot]
  else if loc.rooted then syn.sep :: [syn.sep].intercalate (syn.parts loc)
  else [syn.sep].intercalate (syn.parts loc)

/-- The shortest path that leads where a path leads. -/
def clean (path : List α) : List α := syn.render (syn.locate path)

omit [DecidableEq α] in
theorem mem_parts {loc : Location syn} {part : List α} (hpart : part ∈ syn.parts loc) :
    part ≠ [] ∧ syn.sep ∉ part := by
  obtain hups | hname := List.mem_append.mp hpart
  · obtain rfl := List.eq_of_mem_replicate hups
    exact ⟨List.cons_ne_nil _ _, by simpa using syn.dot_ne_sep.symm⟩
  · exact ⟨(loc.isName part hname).1, (loc.isName part hname).2.2.2⟩

variable {syn}

/-- Names lead down. -/
theorem walk_names (loc : Location syn) {names : List (List α)} (hnames : ∀ name ∈ names, syn.Name name) :
    (loc.walk names).rooted = loc.rooted ∧ (loc.walk names).ups = loc.ups ∧
      (loc.walk names).names = loc.names ++ names := by
  induction names generalizing loc with
  | nil => exact ⟨rfl, rfl, (List.append_nil _).symm⟩
  | cons name names ih =>
    obtain ⟨hname, hrest⟩ := List.forall_mem_cons.mp hnames
    have hstep : loc.walk (name :: names) = (loc.child name hname).walk names := by
      rw [Location.walk_cons, Location.step_of_name]
    obtain ⟨hrooted, hups, heq⟩ := ih (loc.child name hname) hrest
    rw [hstep, hrooted, hups, heq]
    exact ⟨rfl, rfl, List.append_assoc _ _ _⟩

/-- Dots lead up. -/
theorem walk_dots (n : ℕ) :
    ((Location.start false : Location syn).walk (List.replicate n [syn.dot, syn.dot])).rooted = false ∧
      ((Location.start false : Location syn).walk (List.replicate n [syn.dot, syn.dot])).ups = n ∧
      ((Location.start false : Location syn).walk (List.replicate n [syn.dot, syn.dot])).names = [] := by
  induction n with
  | zero => exact ⟨rfl, rfl, rfl⟩
  | succ n ih =>
    obtain ⟨hrooted, hups, hnames⟩ := ih
    have hstep : (Location.start false : Location syn).walk (List.replicate (n + 1) [syn.dot, syn.dot]) =
        ((Location.start false : Location syn).walk (List.replicate n [syn.dot, syn.dot])).parent := by
      rw [← Location.step_dots, List.replicate_succ']
      exact List.foldl_append
    rw [hstep]
    generalize (Location.start false : Location syn).walk (List.replicate n [syn.dot, syn.dot]) = loc at *
    refine ⟨hrooted, ?_, ?_⟩
    · show (if loc.names = [] ∧ loc.rooted = false then loc.ups + 1 else loc.ups) = n + 1
      rw [if_pos ⟨hnames, hrooted⟩, hups]
    · show loc.names.dropLast = []
      rw [hnames, List.dropLast_nil]

/-- The parts of the shortest path lead there. -/
theorem walk_parts (loc : Location syn) :
    (Location.start loc.rooted : Location syn).walk (syn.parts loc) = loc := by
  let top : Location syn := (Location.start loc.rooted).walk (List.replicate loc.ups [syn.dot, syn.dot])
  have hparts : (Location.start loc.rooted : Location syn).walk (syn.parts loc) = top.walk loc.names :=
    List.foldl_append
  have htop : top.rooted = loc.rooted ∧ top.ups = loc.ups ∧ top.names = [] := by
    cases hroot : loc.rooted with
    | true =>
      -- nothing is above the root
      have hups := loc.ups_eq_zero hroot
      have heq : top = Location.start true := by
        show (Location.start loc.rooted).walk (List.replicate loc.ups _) = _
        rw [hroot, hups]
        rfl
      rw [heq, hups]
      exact ⟨rfl, rfl, rfl⟩
    | false =>
      have heq : top = (Location.start false).walk (List.replicate loc.ups [syn.dot, syn.dot]) := by
        rw [← hroot]
      rw [heq]
      exact walk_dots loc.ups
  obtain ⟨hrooted, hups, hnames⟩ := walk_names top loc.isName
  rw [hparts]
  ext : 1
  · exact hrooted.trans htop.1
  · exact hups.trans htop.2.1
  · rw [hnames, htop.2.2, List.nil_append]

/-- **The shortest path** leads to the location. -/
theorem locate_render (loc : Location syn) : syn.locate (syn.render loc) = loc := by
  have hwalk := walk_parts loc
  unfold render
  by_cases hempty : syn.parts loc = []
  · -- the root or the working directory
    rw [if_pos hempty]
    rw [hempty] at hwalk
    cases hrooted : loc.rooted with
    | true =>
      rw [hrooted] at hwalk
      rw [if_pos rfl, ← hwalk, locate_rooted, List.splitOn_nil]
      exact Location.step_nil _
    | false =>
      rw [hrooted] at hwalk
      have hsep : syn.sep ∉ [syn.dot] := by simpa using syn.dot_ne_sep.symm
      rw [if_neg Bool.false_ne_true, ← hwalk, locate_of_relative _ (by simpa using syn.dot_ne_sep),
        List.splitOn_eq_singleton hsep]
      exact Location.step_dot _
  · rw [if_neg hempty]
    have hsplit : ([syn.sep].intercalate (syn.parts loc)).splitOn syn.sep = syn.parts loc :=
      List.splitOn_intercalate _ (fun part hpart => (syn.mem_parts hpart).2) hempty
    cases hrooted : loc.rooted with
    | true =>
      rw [hrooted] at hwalk
      rw [if_pos rfl, locate_rooted, hsplit]
      exact hwalk
    | false =>
      rw [hrooted] at hwalk
      rw [if_neg Bool.false_ne_true, locate_of_relative, hsplit]
      · exact hwalk
      · -- the path starts with its first part, and that with no separator
        obtain ⟨part, rest, hparts⟩ := List.exists_cons_of_ne_nil hempty
        obtain ⟨hne, hsep⟩ := syn.mem_parts (hparts ▸ List.mem_cons_self : part ∈ syn.parts loc)
        obtain ⟨c, cs, rfl⟩ := List.exists_cons_of_ne_nil hne
        have hhead : ([syn.sep].intercalate ((c :: cs) :: rest)).head? = some c := by
          cases rest <;> rfl
        rw [hparts, hhead]
        intro h
        exact hsep (Option.some.inj h ▸ List.mem_cons_self)

/-- Cleaning a path does not change where it leads. -/
theorem locate_clean (path : List α) : syn.locate (syn.clean path) = syn.locate path := locate_render _

/-! ### The last part -/

/-- The last part of a path, separators at its end aside: a dot for the empty path, and one separator for a
path that has nothing else. -/
def base (syn : PathSyntax α) (path : List α) : List α :=
  if path = [] then [syn.dot]
  else if (path.rdropWhile (· == syn.sep)).rtakeWhile (· != syn.sep) = [] then [syn.sep]
  else (path.rdropWhile (· == syn.sep)).rtakeWhile (· != syn.sep)

/-- The path consists of separators. -/
def OnlySeps (syn : PathSyntax α) (path : List α) : Prop := path ≠ [] ∧ ∀ a ∈ path, a = syn.sep

theorem base_of_onlySeps {path : List α} (h : syn.OnlySeps path) : syn.base path = [syn.sep] := by
  have hdrop : path.rdropWhile (· == syn.sep) = [] :=
    List.rdropWhile_eq_nil_iff.mpr fun a ha => beq_iff_eq.mpr (h.2 a ha)
  unfold base
  rw [if_neg h.1, hdrop, List.rtakeWhile_nil, if_pos rfl]

/-- Any other path has a last part without separators. -/
theorem base_of_not_onlySeps {path : List α} (h : ¬ syn.OnlySeps path) :
    syn.base path ≠ [] ∧ syn.sep ∉ syn.base path := by
  unfold base
  by_cases hempty : path = []
  · rw [if_pos hempty]
    exact ⟨List.cons_ne_nil _ _, by simpa using syn.dot_ne_sep.symm⟩
  · -- what is not a separator ends the path that is left, so the last part is not empty
    have hdrop : path.rdropWhile (· == syn.sep) ≠ [] := by
      intro hnil
      exact h ⟨hempty, fun a ha => beq_iff_eq.mp (List.rdropWhile_eq_nil_iff.mp hnil a ha)⟩
    have htake : (path.rdropWhile (· == syn.sep)).rtakeWhile (· != syn.sep) ≠ [] := by
      intro hnil
      refine List.rtakeWhile_eq_nil_iff.mp hnil hdrop ?_
      have hlast := List.rdropWhile_last_not _ _ hdrop
      simpa using hlast
    rw [if_neg hempty, if_neg htake]
    refine ⟨htake, fun hsep => ?_⟩
    have hne := List.mem_rtakeWhile_imp hsep
    simp at hne

end PathSyntax

end Framework
