import TaxlienGateway.Framework.Civil
import TaxlienGateway.Framework.Path

/-!
# Raw files of the workers

`internal/handler/raw_files.go`. `UploadRawFile` stores the file of a multipart form in the storage
directory, under the sanitized base name that the client gave it, or under a name made from the time if
nothing is left of that. File names, paths and contents are strings of bytes.

A disk maps locations to the contents of the files there (`Disk`); directories are no files. What may fail
besides is part of the request (`Upload`): the parsing of the form, the creation of the directory or of the
file, and the copy after any number of bytes.

* `sanitizeFilename_spec` — the names that are left by `sanitizeFilename`;
* `upload_of_opens`, `upload_of_not_opens` — what a request does to the disk, and what it answers;
* `confined_iff` — the uploads stay inside the storage directory;
* `unchanged_on_error_iff` — when a request that is answered with an error has left the disk as it was.
-/

namespace TaxlienGateway

open Framework

/-- Paths on Unix. -/
def unix : PathSyntax UInt8 := ⟨47, 46, by decide⟩

/-! ### File names -/

/-- `sanitizeFilename` -/
def sanitizeFilename (s : List UInt8) : List UInt8 :=
  let s := unix.base s
  let s := trimSpace s
  let s := dropPairs unix.dot s
  let s := if 200 < s.length then s.take 200 else s
  if s = [] ∨ s = [unix.dot] then [] else s

/-- A name that can only stand for a file in a directory. -/
structure SafeName (s : List UInt8) : Prop where
  ne_nil : s ≠ []
  length_le : s.length ≤ 200
  noSep : unix.sep ∉ s
  noDots : ¬ [unix.dot, unix.dot] <:+: s
  ne_dot : s ≠ [unix.dot]

theorem SafeName.isName {s : List UInt8} (h : SafeName s) : unix.Name s :=
  ⟨h.ne_nil, h.ne_dot, fun heq => h.noDots (heq ▸ List.infix_rfl), h.noSep⟩

/-- **What is left of a name.** -/
theorem sanitizeFilename_spec {s : List UInt8} (hs : ¬ unix.OnlySeps s) :
    sanitizeFilename s = [] ∨ SafeName (sanitizeFilename s) := by
  have hbase := (PathSyntax.base_of_not_onlySeps hs).2
  have htrim : unix.sep ∉ trimSpace (unix.base s) :=
    fun hmem => hbase ((isInfix_trim code_spaceWords.nonempty _).sublist.mem hmem)
  have hpairs : unix.sep ∉ dropPairs unix.dot (trimSpace (unix.base s)) :=
    fun hmem => htrim ((dropPairs_sublist _ _).mem hmem)
  have hdots := not_infix_dropPairs unix.dot (trimSpace (unix.base s))
  unfold sanitizeFilename
  dsimp only
  generalize dropPairs unix.dot (trimSpace (unix.base s)) = name at hpairs hdots ⊢
  -- a name that is cut is a prefix of the name before
  have hcut : (if 200 < name.length then name.take 200 else name) <+: name ∧
      (if 200 < name.length then name.take 200 else name).length ≤ 200 := by
    split
    · exact ⟨List.take_prefix 200 name, List.length_take_le 200 name⟩
    · next hle => exact ⟨List.prefix_rfl, Nat.le_of_not_lt hle⟩
  generalize (if 200 < name.length then name.take 200 else name) = cut at hcut ⊢
  by_cases hempty : cut = [] ∨ cut = [unix.dot]
  · exact .inl (if_pos hempty)
  · rw [if_neg hempty]
    obtain ⟨hne, hdot⟩ := not_or.mp hempty
    exact .inr ⟨hne, hcut.2, fun hmem => hpairs (hcut.1.sublist.mem hmem),
      fun hinf => hdots (hinf.trans hcut.1.isInfix), hdot⟩

/-- A name of separators only is left as one separator. -/
theorem sanitizeFilename_of_onlySeps {s : List UInt8} (hs : unix.OnlySeps s) :
    sanitizeFilename s = [unix.sep] := by
  unfold sanitizeFilename
  rw [PathSyntax.base_of_onlySeps hs]
  decide +kernel

/-- `time.Format("20060102_150405")` -/
def formatStamp (t : Civil) : List Char :=
  padChars 4 t.year ++ padChars 2 t.month ++ padChars 2 t.day ++ '_' ::
    (padChars 2 t.hour ++ padChars 2 t.minute ++ padChars 2 t.second)

/-- The bytes of the name that is made from the time. -/
def stampedName (t : Civil) : List UInt8 := utf8 "raw_" ++ (formatStamp t).flatMap String.utf8EncodeChar

/-- The characters of a time stamp are single bytes, and none of them has a meaning in paths. -/
theorem encode_of_mem_formatStamp {t : Civil} {c : Char} (hc : c ∈ formatStamp t) :
    (String.utf8EncodeChar c).length = 1 ∧ unix.sep ∉ String.utf8EncodeChar c ∧
      unix.dot ∉ String.utf8EncodeChar c := by
  have hdigits : ∀ n < 10, (String.utf8EncodeChar (Char.ofNat (48 + n))).length = 1 ∧
      unix.sep ∉ String.utf8EncodeChar (Char.ofNat (48 + n)) ∧
      unix.dot ∉ String.utf8EncodeChar (Char.ofNat (48 + n)) := by decide +kernel
  -- a character of the stamp is a digit or the underscore
  have hmem : c = '_' ∨ c.isDigit = true := by
    have hall : ∀ w n, c ∈ padChars w n → c.isDigit = true :=
      fun w n => List.all_eq_true.mp (padChars_all_isDigit w n) c
    simp only [formatStamp, List.mem_append, List.mem_cons] at hc
    rcases hc with ((h | h) | h) | h | (h | h) | h
    case inr.inl => exact .inl h
    all_goals exact .inr (hall _ _ h)
  obtain rfl | hdigit := hmem
  · decide +kernel
  · have hrange : 48 ≤ c.toNat ∧ c.toNat ≤ 57 := by
      simpa [Char.isDigit, UInt32.le_iff_toNat_le] using hdigit
    have hc' : Char.ofNat (48 + (c.toNat - 48)) = c := by
      rw [Nat.add_sub_cancel' hrange.1, Char.ofNat_toNat]
    have hn := hdigits (c.toNat - 48) (by omega)
    rwa [hc'] at hn

theorem length_formatStamp (t : Civil) : (formatStamp t).length = 15 := by
  have hyear : t.year < 10 ^ 4 := Nat.lt_of_le_of_lt t.year_le (by decide)
  have hmonth : t.month < 10 ^ 2 := Nat.lt_of_le_of_lt t.month_mem.2 (by decide)
  have hday : t.day < 10 ^ 2 := Nat.lt_of_le_of_lt (t.day_mem.2.trans (daysIn_le _ _)) (by decide)
  have hhour : t.hour < 10 ^ 2 := Nat.lt_of_le_of_lt t.hour_le (by decide)
  have hminute : t.minute < 10 ^ 2 := Nat.lt_of_le_of_lt t.minute_le (by decide)
  have hsecond : t.second < 10 ^ 2 := Nat.lt_of_le_of_lt t.second_le (by decide)
  simp only [formatStamp, List.length_append, List.length_cons]
  rw [length_padChars (by decide) hyear, length_padChars (by decide) hmonth,
    length_padChars (by decide) hday, length_padChars (by decide) hhour,
    length_padChars (by decide) hminute, length_padChars (by decide) hsecond]

/-- A name that is made from the time is safe. -/
theorem safeName_stampedName (t : Civil) : SafeName (stampedName t) := by
  -- the characters of the stamp are single bytes
  have hlength : ∀ cs : List Char, (∀ c ∈ cs, (String.utf8EncodeChar c).length = 1) →
      (cs.flatMap String.utf8EncodeChar).length = cs.length := by
    intro cs hcs
    induction cs with
    | nil => rfl
    | cons c cs ih =>
      obtain ⟨hc, hrest⟩ := List.forall_mem_cons.mp hcs
      rw [List.flatMap_cons, List.length_append, hc, ih hrest, List.length_cons, Nat.add_comm]
  have hprefix : (utf8 "raw_").length = 4 ∧ unix.sep ∉ utf8 "raw_" ∧ unix.dot ∉ utf8 "raw_" := by
    decide +kernel
  have hlen : (stampedName t).length = 19 := by
    rw [stampedName, List.length_append, hprefix.1, hlength _ fun c hc => (encode_of_mem_formatStamp hc).1,
      length_formatStamp]
  -- neither a dot nor a separator is in the prefix, and none is in the stamp
  have hnot : ∀ b, b ∉ utf8 "raw_" → (∀ c ∈ formatStamp t, b ∉ String.utf8EncodeChar c) →
      b ∉ stampedName t := by
    intro b hb hall hmem
    obtain hmem | hmem := List.mem_append.mp hmem
    · exact hb hmem
    · obtain ⟨c, hc, hbc⟩ := List.mem_flatMap.mp hmem
      exact hall c hc hbc
  have hdot : unix.dot ∉ stampedName t :=
    hnot _ hprefix.2.2 fun c hc => (encode_of_mem_formatStamp hc).2.2
  constructor
  case ne_nil => exact List.ne_nil_of_length_pos (by omega)
  case length_le => omega
  case noSep => exact hnot _ hprefix.2.1 fun c hc => (encode_of_mem_formatStamp hc).2.1
  case noDots => exact fun hinf => hdot (hinf.sublist.mem List.mem_cons_self)
  case ne_dot => exact fun heq => hdot (heq ▸ List.mem_cons_self)

/-- The name under which a file is stored. -/
def storedName (now : Civil) (filename : List UInt8) : List UInt8 :=
  if sanitizeFilename filename = [] then stampedName now else sanitizeFilename filename

theorem storedName_of_onlySeps {s : List UInt8} (hs : unix.OnlySeps s) (now : Civil) :
    storedName now s = [unix.sep] := by
  unfold storedName
  rw [sanitizeFilename_of_onlySeps hs]
  rfl

/-- All other names are stored under a safe name. -/
theorem safeName_storedName {s : List UInt8} (hs : ¬ unix.OnlySeps s) (now : Civil) :
    SafeName (storedName now s) := by
  unfold storedName
  obtain hempty | hsafe := sanitizeFilename_spec hs
  · rw [if_pos hempty]
    exact safeName_stampedName now
  · rw [if_neg hsafe.ne_nil]
    exact hsafe

/-! ### Files -/

/-- `filepath.Join` -/
def filepathJoin (elem : List (List UInt8)) : List UInt8 :=
  if elem.dropWhile List.isEmpty = [] then []
  else unix.clean ([unix.sep].intercalate (elem.dropWhile List.isEmpty))

/-- A name after a path. -/
theorem locate_filepathJoin {storagePath : List UInt8} (hpath : storagePath ≠ []) (name : List UInt8) :
    unix.locate (filepathJoin [storagePath, name]) =
      (unix.locate storagePath).follow ((Location.start false).walk (name.splitOn unix.sep)) := by
  have hdrop : [storagePath, name].dropWhile List.isEmpty = [storagePath, name] := by
    obtain ⟨a, path, rfl⟩ := List.exists_cons_of_ne_nil hpath
    rfl
  have hjoin : [unix.sep].intercalate [storagePath, name] = storagePath ++ unix.sep :: name := by
    simp [List.intercalate]
  rw [filepathJoin, hdrop, if_neg (List.cons_ne_nil _ _), hjoin, PathSyntax.locate_clean]
  exact unix.locate_append hpath name

/-- A file with a safe name is in the directory. -/
theorem locate_of_safeName {storagePath name : List UInt8} (hpath : storagePath ≠ [])
    (hname : SafeName name) :
    unix.locate (filepathJoin [storagePath, name]) =
      (unix.locate storagePath).child name hname.isName := by
  rw [locate_filepathJoin hpath, List.splitOn_eq_singleton hname.noSep, Location.walk_cons,
    Location.step_of_name _ hname.isName]
  show (unix.locate storagePath).follow ((Location.start false).child name hname.isName) = _
  rw [← Location.follow_child, Location.follow_start]

/-- A separator leads to the directory itself. -/
theorem locate_of_sep {storagePath : List UInt8} (hpath : storagePath ≠ []) :
    unix.locate (filepathJoin [storagePath, [unix.sep]]) = unix.locate storagePath := by
  have hwalk : (Location.start false : Location unix).walk ([unix.sep].splitOn unix.sep) =
      Location.start false := by
    show (Location.start false : Location unix).walk (([] ++ unix.sep :: []).splitOn unix.sep) = _
    rw [List.splitOn_append_cons_self, List.splitOn_nil]
    exact (congrArg (Location.step · []) (Location.step_nil _)).trans (Location.step_nil _)
  rw [locate_filepathJoin hpath, hwalk, Location.follow_start]

/-- The files of a disk. -/
abbrev Disk : Type := Location unix → Option (List UInt8)

def pathError (op : String) (path : List UInt8) (err : String) : List UInt8 :=
  utf8 op ++ utf8 " " ++ path ++ utf8 ": " ++ utf8 err

/-- `os.MkdirAll`, as far as files are concerned. -/
def mkdirAll (path : List UInt8) (fault : Option (List UInt8)) : Except (List UInt8) Unit :=
  if path = [] then .error (pathError "mkdir" path "no such file or directory")
  else match fault with
    | some err => .error err
    | none => .ok ()

/-- `os.Create`, where `dir` is a directory: the file is there, and empty. -/
def osCreate (dir path : List UInt8) (fault : Option (List UInt8)) (disk : Disk) :
    Except (List UInt8) Disk :=
  if 0 ∈ path then .error (pathError "open" path "invalid argument")
  else if unix.locate path = unix.locate dir then .error (pathError "open" path "is a directory")
  else match fault with
    | some err => .error err
    | none => .ok (Function.update disk (unix.locate path) (some []))

/-- `dst.ReadFrom(file)` on an empty file, which may fail after any number of bytes. -/
def readFrom (path content : List UInt8) (fault : Option (ℕ × List UInt8)) (disk : Disk) :
    Disk × Option (List UInt8) :=
  match fault with
  | some (n, err) => (Function.update disk (unix.locate path) (some (content.take n)), some err)
  | none => (Function.update disk (unix.locate path) (some content), none)

theorem mkdirAll_ok {path : List UInt8} {fault : Option (List UInt8)} {done : Unit}
    (h : mkdirAll path fault = .ok done) : path ≠ [] ∧ fault = none := by
  unfold mkdirAll at h
  by_cases hpath : path = []
  · rw [if_pos hpath] at h
    exact absurd h (by simp)
  · rw [if_neg hpath] at h
    cases fault with
    | some err => exact absurd h (by simp)
    | none => exact ⟨hpath, rfl⟩

theorem osCreate_ok {dir path : List UInt8} {fault : Option (List UInt8)} {disk disk' : Disk}
    (h : osCreate dir path fault disk = .ok disk') :
    0 ∉ path ∧ unix.locate path ≠ unix.locate dir ∧ fault = none := by
  unfold osCreate at h
  by_cases hnul : 0 ∈ path
  · rw [if_pos hnul] at h
    exact absurd h (by simp)
  · rw [if_neg hnul] at h
    by_cases hdir : unix.locate path = unix.locate dir
    · rw [if_pos hdir] at h
      exact absurd h (by simp)
    · rw [if_neg hdir] at h
      cases fault with
      | some err => exact absurd h (by simp)
      | none => exact ⟨hnul, hdir, rfl⟩

/-! ### Uploads -/

/-- The part `file` of a form. -/
structure FormFile where
  filename : List UInt8
  content : List UInt8

/-- A request, with the time at which it is handled and with what fails. -/
structure Upload where
  /-- The form: what parsing it ends with, and its file if it has one. -/
  form : Except (List UInt8) (Option FormFile)
  now : Civil
  mkdir : Option (List UInt8)
  create : Option (List UInt8)
  copy : Option (ℕ × List UInt8)

/-- A response: the path of the file, or an error. -/
inductive UploadResponse where
  | ok (path : List UInt8)
  | error (status : ℕ) (code : String) (message : List UInt8)
  deriving DecidableEq

def UploadResponse.isOk : UploadResponse → Bool
  | .ok _ => true
  | .error .. => false

/-- `RawFilesHandler.UploadRawFile` -/
def uploadRawFile (storagePath : List UInt8) (u : Upload) (disk : Disk) : Disk × UploadResponse :=
  match u.form with
  | .error _ => (disk, .error 400 "INVALID_REQUEST" (utf8 "failed to parse multipart form"))
  | .ok none => (disk, .error 400 "INVALID_REQUEST" (utf8 "missing file"))
  | .ok (some file) =>
    match mkdirAll storagePath u.mkdir with
    | .error err => (disk, .error 500 "INTERNAL_ERROR" err)
    | .ok () =>
      let path := filepathJoin [storagePath, storedName u.now file.filename]
      match osCreate storagePath path u.create disk with
      | .error err => (disk, .error 500 "INTERNAL_ERROR" err)
      | .ok disk =>
        match readFrom path file.content u.copy disk with
        -- what has been copied stays
        | (disk, some err) => (disk, .error 500 "INTERNAL_ERROR" err)
        | (disk, none) => (disk, .ok path)

section Upload

variable {storagePath : List UInt8} {u : Upload} {file : FormFile}

/-- The path of the file of a request. -/
def Upload.path (storagePath : List UInt8) (u : Upload) (file : FormFile) : List UInt8 :=
  filepathJoin [storagePath, storedName u.now file.filename]

/-- The request comes to open its file. -/
structure Upload.Opens (storagePath : List UInt8) (u : Upload) (file : FormFile) : Prop where
  form : u.form = .ok (some file)
  path : storagePath ≠ []
  mkdir : u.mkdir = none
  noNul : 0 ∉ u.path storagePath file
  notDir : unix.locate (u.path storagePath file) ≠ unix.locate storagePath
  create : u.create = none

/-- There is one file in the form. -/
theorem Upload.Opens.file_eq {file' : FormFile} (h : u.Opens storagePath file)
    (hform : u.form = .ok (some file')) : file = file' :=
  Option.some.inj (Except.ok.inj (h.form.symm.trans hform))

/-- What it leaves there. -/
def Upload.left (u : Upload) (file : FormFile) : List UInt8 :=
  match u.copy with
  | some (n, _) => file.content.take n
  | none => file.content

/-- **A request that opens its file.** -/
theorem upload_of_opens (h : u.Opens storagePath file) (disk : Disk) :
    (uploadRawFile storagePath u disk).1 =
        Function.update disk (unix.locate (u.path storagePath file)) (some (u.left file)) ∧
      (uploadRawFile storagePath u disk).2 =
        match u.copy with
        | some (_, err) => .error 500 "INTERNAL_ERROR" err
        | none => .ok (u.path storagePath file) := by
  have hmkdir : mkdirAll storagePath u.mkdir = .ok () := by
    unfold mkdirAll
    rw [if_neg h.path, h.mkdir]
  have hcreate : osCreate storagePath (u.path storagePath file) u.create disk =
      .ok (Function.update disk (unix.locate (u.path storagePath file)) (some [])) := by
    unfold osCreate
    rw [if_neg h.noNul, if_neg h.notDir, h.create]
  -- both steps before the copy succeed, and the copy writes the file that is empty by then
  unfold uploadRawFile
  rw [h.form]
  dsimp only
  rw [hmkdir]
  dsimp only
  rw [← Upload.path, hcreate]
  unfold readFrom Upload.left
  cases u.copy with
  | none => exact ⟨Function.update_idem .., rfl⟩
  | some fault => exact ⟨Function.update_idem .., rfl⟩

/-- **A request that does not** changes nothing, and is answered with an error. -/
theorem upload_of_not_opens (h : ∀ file, ¬ u.Opens storagePath file) (disk : Disk) :
    (uploadRawFile storagePath u disk).1 = disk ∧ (uploadRawFile storagePath u disk).2.isOk = false := by
  unfold uploadRawFile
  cases hform : u.form with
  | error err => exact ⟨rfl, rfl⟩
  | ok part =>
    cases part with
    | none => exact ⟨rfl, rfl⟩
    | some file =>
      cases hmkdir : mkdirAll storagePath u.mkdir with
      | error err => exact ⟨rfl, rfl⟩
      | ok done =>
        dsimp only
        rw [← Upload.path]
        cases hcreate : osCreate storagePath (u.path storagePath file) u.create disk with
        | error err => exact ⟨rfl, rfl⟩
        | ok disk' =>
          -- then nothing has stopped it
          obtain ⟨hpath, hmkdir⟩ := mkdirAll_ok hmkdir
          obtain ⟨hnul, hdir, hcreate⟩ := osCreate_ok hcreate
          exact absurd ⟨hform, hpath, hmkdir, hnul, hdir, hcreate⟩ (h file)

/-- A form with a file is answered with status 500, if it is answered with an error. -/
theorem upload_error_status {disk : Disk} {status : ℕ} {code : String} {message : List UInt8}
    (hform : u.form = .ok (some file)) (h : (uploadRawFile storagePath u disk).2 = .error status code message) :
    status = 500 := by
  unfold uploadRawFile at h
  rw [hform] at h
  -- the directory, the file and the copy, in this order
  cases hmkdir : mkdirAll storagePath u.mkdir with
  | error err =>
    simp only [hmkdir, UploadResponse.error.injEq] at h
    exact h.1.symm
  | ok done =>
    cases hcreate : osCreate storagePath (filepathJoin [storagePath, storedName u.now file.filename]) u.create disk with
    | error err =>
      simp only [hmkdir, hcreate, UploadResponse.error.injEq] at h
      exact h.1.symm
    | ok disk' =>
      cases hcopy : u.copy with
      | none => simp [hmkdir, hcreate, readFrom, hcopy] at h
      | some fault =>
        simp only [hmkdir, hcreate, readFrom, hcopy, UploadResponse.error.injEq] at h
        exact h.1.symm

/-- **Where the file of a request is.** -/
theorem Upload.Opens.locate (h : u.Opens storagePath file) :
    ∃ hsafe : SafeName (storedName u.now file.filename),
      unix.locate (u.path storagePath file) =
        (unix.locate storagePath).child (storedName u.now file.filename) hsafe.isName := by
  -- with separators only, the path would be the directory
  have hname : ¬ unix.OnlySeps file.filename := by
    intro honly
    refine h.notDir ?_
    rw [Upload.path, storedName_of_onlySeps honly]
    exact locate_of_sep h.path
  have hsafe := safeName_storedName hname u.now
  exact ⟨hsafe, locate_of_safeName h.path hsafe⟩

/-! ### Inside the storage directory -/

/-- An entry of the directory `dir`, under the given name. -/
def IsChild (loc dir : Location unix) (name : List UInt8) : Prop :=
  loc.rooted = dir.rooted ∧ loc.ups = dir.ups ∧ loc.names = dir.names ++ [name]

/-- A client's file name stays inside the storage directory: what is left of it is nothing or a safe name,
and whatever file a request with this name creates or changes is a direct child of the directory. -/
structure Confined (s : List UInt8) : Prop where
  name : sanitizeFilename s = [] ∨ SafeName (sanitizeFilename s)
  child : ∀ storagePath (u : Upload) file disk loc, u.form = .ok (some file) → file.filename = s →
    (uploadRawFile storagePath u disk).1 loc ≠ disk loc →
      ∃ name, SafeName name ∧ IsChild loc (unix.locate storagePath) name

/-- Whatever its name, the file that a request creates is a direct child of the directory. -/
theorem isChild_of_changed {disk : Disk} {loc : Location unix}
    (hchanged : (uploadRawFile storagePath u disk).1 loc ≠ disk loc) :
    ∃ name, SafeName name ∧ IsChild loc (unix.locate storagePath) name := by
  by_cases hopens : ∃ file, u.Opens storagePath file
  · obtain ⟨file, hopens⟩ := hopens
    obtain ⟨hsafe, hlocate⟩ := hopens.locate
    rw [(upload_of_opens hopens disk).1] at hchanged
    have hloc : loc = unix.locate (u.path storagePath file) := by
      by_contra hne
      exact hchanged (Function.update_of_ne hne ..)
    refine ⟨_, hsafe, ?_⟩
    rw [hloc, hlocate]
    exact ⟨rfl, rfl, rfl⟩
  · rw [(upload_of_not_opens (not_exists.mp hopens) disk).1] at hchanged
    exact absurd rfl hchanged

/-- **When a file name stays inside**: exactly if it does not consist of separators only. -/
theorem confined_iff (s : List UInt8) : Confined s ↔ ¬ unix.OnlySeps s := by
  constructor
  · intro hconfined honly
    have hname := hconfined.name
    rw [sanitizeFilename_of_onlySeps honly] at hname
    obtain hnil | hsafe := hname
    · exact absurd hnil (List.cons_ne_nil _ _)
    · exact hsafe.noSep List.mem_cons_self
  · exact fun hs => ⟨sanitizeFilename_spec hs, fun _ _ _ _ _ _ _ => isChild_of_changed⟩

/-- **The root is no name.** Nothing is cut off from `/`. -/
theorem slash_not_confined :
    ¬ (sanitizeFilename (utf8 "/") = [] ∨ SafeName (sanitizeFilename (utf8 "/"))) := by
  have honly : unix.OnlySeps (utf8 "/") := by
    unfold PathSyntax.OnlySeps
    decide +kernel
  rw [sanitizeFilename_of_onlySeps honly]
  rintro (hnil | hsafe)
  · exact absurd hnil (List.cons_ne_nil _ _)
  · exact hsafe.noSep List.mem_cons_self

/-! ### Requests that are answered with an error -/

/-- A request that is answered with an error leaves every file as it was. -/
def UnchangedOnError (storagePath : List UInt8) (u : Upload) (disk : Disk) : Prop :=
  (uploadRawFile storagePath u disk).2.isOk = false →
    ∀ loc, (uploadRawFile storagePath u disk).1 loc = disk loc

/-- **When an error leaves the disk as it was**: exactly if the copy does not fail once the file is open, or
the file held before just the bytes that are copied before the failure. -/
theorem unchanged_on_error_iff (storagePath : List UInt8) (u : Upload) (disk : Disk) :
    UnchangedOnError storagePath u disk ↔
      ∀ file n err, u.Opens storagePath file → u.copy = some (n, err) →
        disk (unix.locate (u.path storagePath file)) = some (file.content.take n) := by
  unfold UnchangedOnError
  by_cases hopens : ∃ file, u.Opens storagePath file
  · obtain ⟨file, hopens⟩ := hopens
    obtain ⟨hdisk, hresponse⟩ := upload_of_opens hopens disk
    rw [hdisk, hresponse]
    cases hcopy : u.copy with
    | none =>
      -- the answer is no error
      constructor
      · intro _ file' n err _ hfault
        exact absurd hfault (by simp)
      · exact fun _ herror => absurd herror (by simp [UploadResponse.isOk])
    | some fault =>
      obtain ⟨n, err⟩ := fault
      have hleft : u.left file = file.content.take n := by
        unfold Upload.left
        rw [hcopy]
      rw [hleft]
      -- only the file that was opened can have changed
      constructor
      · rintro hsame file' n' err' hopens' hfault
        obtain rfl := hopens.file_eq hopens'.form
        obtain ⟨rfl, rfl⟩ := Prod.mk.inj (Option.some.inj hfault)
        rw [← hsame rfl, Function.update_self]
      · intro hheld _ loc
        rw [← hheld file n err hopens rfl, Function.update_eq_self]
  · have hnot := upload_of_not_opens (not_exists.mp hopens) disk
    constructor
    · exact fun _ file _ _ hopens' _ => absurd ⟨file, hopens'⟩ hopens
    · exact fun _ _ loc => congrFun hnot.1 loc

end Upload

/-- A second upload of a file, which breaks off at once. -/
def brokenUpload : Upload :=
  ⟨.ok (some ⟨utf8 "p-1.html", utf8 "<html>"⟩), sampleCivil, none, none,
    some (0, utf8 "unexpected EOF")⟩

/-- The disk after the first one. -/
def firstUploaded : Disk :=
  Function.update (fun _ => none) (unix.locate (utf8 "/data/raw/p-1.html")) (some (utf8 "<html>"))

/-- **An upload that fails empties the file** of the one before. -/
theorem broken_upload_truncates : ¬ UnchangedOnError (utf8 "/data/raw") brokenUpload firstUploaded := by
  intro hunchanged
  have hloc := hunchanged (by decide +kernel) (unix.locate (utf8 "/data/raw/p-1.html"))
  exact absurd hloc (by decide +kernel)

end TaxlienGateway
