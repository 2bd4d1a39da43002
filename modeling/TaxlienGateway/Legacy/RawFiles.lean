import TaxlienGateway.Framework.Path

/-!
# Raw files in the legacy API

`legacy/app/api/internal/raw_files.py`. `upload_raw_file` joins the file name of the client to the storage
path and opens the result for writing. The name is not looked at: `os.path.join` drops the storage path if
the name starts at the root, and `..` leads out of it.

* `locate_filePath` — the file is where the name leads, seen from the storage directory;
* `inside_storage_iff` — when that is inside of the storage directory.
-/

namespace TaxlienGateway

open Framework

namespace Legacy

/-- Paths in `os.path`. -/
def posix : PathSyntax Char := ⟨'/', '.', by decide⟩

/-- `os.path.join` of two paths. -/
def osPathJoin (a b : List Char) : List Char :=
  if b.head? = some posix.sep then b
  else if a = [] ∨ a.getLast? = some posix.sep then a ++ b
  else a ++ posix.sep :: b

/-- `storage_path` -/
def storage_path : List Char := "/Users/anton/proj/TAXLIEN.online/taxlien-sdd/data/raw".toList

/-- `file_path` -/
def filePath (filename : List Char) : List Char := osPathJoin storage_path filename

/-! ### The request -/

/-- The files of a disk. -/
abbrev RawDisk : Type := Location posix → Option (List UInt8)

/-- An upload, and what raises an exception while it is handled. -/
structure RawUpload where
  filename : List Char
  content : List UInt8
  makedirs : Option String
  openFile : Option String
  read : Option String
  /-- A write that fails after some bytes. -/
  write : Option (ℕ × String)

inductive RawResponse where
  | ok (path : List Char)
  | error (message : String)
  /-- An exception that is not caught. -/
  | raised (message : String)
  deriving DecidableEq

/-- `upload_raw_file` -/
def uploadRawFile (u : RawUpload) (disk : RawDisk) : RawDisk × RawResponse :=
  match u.makedirs with
  -- before the `try`
  | some e => (disk, .raised e)
  | none =>
    let path := filePath u.filename
    let write (content : List UInt8) : RawDisk := Function.update disk (posix.locate path) (some content)
    match u.openFile with
    | some e => (disk, .error e)
    | none =>
      match u.read with
      -- the file is open, and empty
      | some e => (write [], .error e)
      | none =>
        match u.write with
        | some (n, e) => (write (u.content.take n), .error e)
        | none => (write u.content, .ok path)

/-! ### Where the file is -/

theorem storage_path_ends : storage_path ≠ [] ∧ storage_path.getLast? ≠ some posix.sep := by
  decide +kernel

/-- **The file is where its name leads**, seen from the storage directory. -/
theorem locate_filePath (filename : List Char) :
    posix.locate (filePath filename) = (posix.locate storage_path).follow (posix.locate filename) := by
  unfold filePath osPathJoin
  by_cases hroot : filename.head? = some posix.sep
  · have hrooted : (posix.locate filename).rooted = true := by
      unfold PathSyntax.locate
      rw [Location.walk_rooted]
      exact decide_eq_true hroot
    rw [if_pos hroot, Location.follow_of_rooted _ hrooted]
  · rw [if_neg hroot, if_neg (not_or.mpr storage_path_ends), posix.locate_append storage_path_ends.1,
      posix.locate_of_relative hroot]

/-- The directories on the way to the storage directory. -/
def storageNames : List (List Char) :=
  ["Users", "anton", "proj", "TAXLIEN.online", "taxlien-sdd", "data", "raw"].map String.toList

theorem locate_storage_path :
    (posix.locate storage_path).rooted = true ∧ (posix.locate storage_path).names = storageNames := by
  decide +kernel

/-- **When an upload stays inside the storage directory.** For every file name, the file that is opened is
inside exactly if the name, wherever it leads on its own, comes back down what it went up (all of the way to
the storage directory, if it starts at the root), and goes on. -/
theorem inside_storage_iff (filename : List Char) :
    (posix.locate (filePath filename)).Inside (posix.locate storage_path) ↔
      Location.GoesOn
        (if (posix.locate filename).rooted then storageNames
          else storageNames.drop (7 - (posix.locate filename).ups))
        (posix.locate filename).names := by
  rw [locate_filePath, Location.inside_follow_iff locate_storage_path.1, locate_storage_path.2]
  rfl

/-- **A file name leads out of the storage directory.** -/
theorem passwd_not_inside :
    ¬ (posix.locate (filePath "../../../../../../../etc/passwd".toList)).Inside
      (posix.locate storage_path) := by
  rintro ⟨-, -, rest, -, hnames⟩
  have hfile : (posix.locate (filePath "../../../../../../../etc/passwd".toList)).names =
      ["etc".toList, "passwd".toList] := by decide +kernel
  rw [hfile, locate_storage_path.2] at hnames
  have hhead : some "etc".toList = some "Users".toList := congrArg List.head? hnames
  exact absurd hhead (by decide +kernel)

end Legacy

end TaxlienGateway
