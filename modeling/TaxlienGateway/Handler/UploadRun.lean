import TaxlienGateway.Handler.RawFiles

/-!
# Runs of uploads

Uploads that are handled one after another. A response with status ok promises that the path holds the bytes
of the request (`NothingLost`). The promise is broken by a later request that comes to open its file under
the same stored name, whatever the client calls the file: names lose pairs of dots, white space at their ends
and everything after 200 bytes, and a name made from the time is the same for a whole second.

* `runUploads_append_singleton` — the step of a run;
* `nothingLost_step` — what one more request does to the promises;
* `nothingLost_iff` — all promises are kept at all times exactly if no later request leaves other bytes under
  the stored name of an acknowledged one.
-/

namespace TaxlienGateway

open Framework

/-- Requests that are handled one after another. -/
def runUploads (storagePath : List UInt8) (us : List Upload) (disk : Disk) : Disk :=
  us.foldl (fun disk u => (uploadRawFile storagePath u disk).1) disk

/-- Every path that was returned with status ok holds the bytes of the request that returned it. -/
def NothingLost (storagePath : List UInt8) (us : List Upload) (disk : Disk) : Prop :=
  ∀ (i : ℕ) (u : Upload) file path, us[i]? = some u → u.form = .ok (some file) →
    (uploadRawFile storagePath u (runUploads storagePath (us.take i) disk)).2 = .ok path →
      runUploads storagePath us disk (unix.locate path) = some file.content

section Run

variable {storagePath : List UInt8} {us : List Upload} {disk : Disk} {u v : Upload} {file file' : FormFile}

theorem runUploads_append_singleton (us : List Upload) (v : Upload) (disk : Disk) :
    runUploads storagePath (us ++ [v]) disk =
      (uploadRawFile storagePath v (runUploads storagePath us disk)).1 := List.foldl_append

/-- A request that is answered with ok has opened its file, and copied all of it. -/
theorem answered_ok_iff {path : List UInt8} (hform : u.form = .ok (some file)) :
    (uploadRawFile storagePath u disk).2 = .ok path ↔
      u.Opens storagePath file ∧ u.copy = none ∧ u.path storagePath file = path := by
  constructor
  · intro hok
    by_cases hopens : ∃ file, u.Opens storagePath file
    · obtain ⟨file', hopens⟩ := hopens
      obtain rfl := hopens.file_eq hform
      rw [(upload_of_opens hopens disk).2] at hok
      cases hcopy : u.copy with
      | none =>
        rw [hcopy] at hok
        exact ⟨hopens, rfl, UploadResponse.ok.inj hok⟩
      | some fault =>
        rw [hcopy] at hok
        exact absurd hok (by simp)
    · -- a request that opens no file is answered with an error
      have herror := (upload_of_not_opens (not_exists.mp hopens) disk).2
      rw [hok] at herror
      exact absurd herror (by simp [UploadResponse.isOk])
  · rintro ⟨hopens, hcopy, rfl⟩
    rw [(upload_of_opens hopens disk).2, hcopy]

/-- Two requests have the same file exactly if it has the same stored name. -/
theorem locate_path_eq_iff (hu : u.Opens storagePath file) (hv : v.Opens storagePath file') :
    unix.locate (u.path storagePath file) = unix.locate (v.path storagePath file') ↔
      storedName u.now file.filename = storedName v.now file'.filename := by
  obtain ⟨hsafe, hlocate⟩ := hu.locate
  obtain ⟨hsafe', hlocate'⟩ := hv.locate
  rw [hlocate, hlocate']
  constructor
  · intro heq
    have hnames := congrArg Location.names heq
    exact (List.append_inj' hnames rfl).2 |> List.singleton_inj.mp
  · intro heq
    ext : 1
    · rfl
    · rfl
    · exact congrArg ((unix.locate storagePath).names ++ [·]) heq

/-- The request `v` leaves other bytes under the stored name of `u`. -/
def Overwrites (storagePath : List UInt8) (u v : Upload) : Prop :=
  ∃ file file', u.Opens storagePath file ∧ u.copy = none ∧ v.Opens storagePath file' ∧
    storedName u.now file.filename = storedName v.now file'.filename ∧ v.left file' ≠ file.content

/-- The promise of an acknowledged request, as a fact about its file. -/
theorem nothingLost_iff_opens :
    NothingLost storagePath us disk ↔
      ∀ (i : ℕ) (u : Upload) file, us[i]? = some u → u.Opens storagePath file →
      u.copy = none →
        runUploads storagePath us disk (unix.locate (u.path storagePath file)) = some file.content := by
  constructor
  · intro hlost i u file hu hopens hcopy
    exact hlost i u file _ hu hopens.form ((answered_ok_iff hopens.form).mpr ⟨hopens, hcopy, rfl⟩)
  · intro hkept i u file path hu hform hok
    obtain ⟨hopens, hcopy, rfl⟩ := (answered_ok_iff hform).mp hok
    exact hkept i u file hu hopens hcopy

/-- **One more request**: the promises made before are kept exactly if it overwrites none of them. -/
theorem nothingLost_step (hlost : NothingLost storagePath us disk) (v : Upload) :
    NothingLost storagePath (us ++ [v]) disk ↔ ∀ u ∈ us, ¬ Overwrites storagePath u v := by
  rw [nothingLost_iff_opens] at hlost ⊢
  constructor
  · rintro hkept u hu ⟨file, file', hopens, hcopy, hopens', hname, hleft⟩
    -- the promise of `u` is about the file that `v` has written last
    obtain ⟨i, hi⟩ := List.mem_iff_getElem?.mp hu
    have hlt : i < us.length := (List.getElem?_eq_some_iff.mp hi).1
    have hheld := hkept i u file (by rwa [List.getElem?_append_left hlt]) hopens hcopy
    rw [runUploads_append_singleton, (upload_of_opens hopens' _).1,
      (locate_path_eq_iff hopens hopens').mpr hname, Function.update_self] at hheld
    exact hleft (Option.some.inj hheld)
  · intro hnone i u file hi hopens hcopy
    rw [runUploads_append_singleton]
    by_cases hlt : i < us.length
    · rw [List.getElem?_append_left hlt] at hi
      have hheld := hlost i u file hi hopens hcopy
      by_cases hv : ∃ file', v.Opens storagePath file'
      · obtain ⟨file', hv⟩ := hv
        rw [(upload_of_opens hv _).1]
        by_cases hloc : unix.locate (u.path storagePath file) = unix.locate (v.path storagePath file')
        · -- the same file: then the same bytes are left there
          rw [hloc, Function.update_self]
          have hname := (locate_path_eq_iff hopens hv).mp hloc
          by_contra hleft
          exact hnone u (List.mem_of_getElem? hi)
            ⟨file, file', hopens, hcopy, hv, hname, fun h => hleft (congrArg some h)⟩
        · rw [Function.update_of_ne hloc]
          exact hheld
      · rw [(upload_of_not_opens (not_exists.mp hv) _).1]
        exact hheld
    · -- its own promise
      obtain rfl : u = v := by
        rw [List.getElem?_append_right (Nat.le_of_not_lt hlt)] at hi
        exact (List.mem_singleton.mp (List.mem_of_getElem? hi))
      rw [(upload_of_opens hopens _).1, Function.update_self, Upload.left, hcopy]

end Run

/-- **No acknowledged upload is lost**, at any time of a run, exactly if no request of the run leaves other
bytes under the stored name of an acknowledged request before it. -/
theorem nothingLost_iff (storagePath : List UInt8) (us : List Upload) (disk : Disk) :
    (∀ k, NothingLost storagePath (us.take k) disk) ↔
      us.Pairwise fun u v => ¬ Overwrites storagePath u v := by
  induction us using List.reverseRecOn with
  | nil =>
    refine ⟨fun _ => List.Pairwise.nil, fun _ k i u file path hu => ?_⟩
    rw [List.take_nil] at hu
    exact absurd hu (by simp)
  | append_singleton us v ih =>
    -- the states of the longer run are those of the shorter one, and its end
    have hsplit : (∀ k, NothingLost storagePath ((us ++ [v]).take k) disk) ↔
        (∀ k, NothingLost storagePath (us.take k) disk) ∧ NothingLost storagePath (us ++ [v]) disk := by
      constructor
      · refine fun hall => ⟨fun k => ?_, ?_⟩
        · have hk := hall (min k us.length)
          rwa [List.take_append_of_le_length (Nat.min_le_right k us.length), ← List.take_eq_take_min] at hk
        · have hk := hall (us ++ [v]).length
          rwa [List.take_length] at hk
      · rintro ⟨hall, hlast⟩ k
        by_cases hk : k ≤ us.length
        · rw [List.take_append_of_le_length hk]
          exact hall k
        · rw [List.take_of_length_le]
          · exact hlast
          · rw [List.length_append, List.length_singleton]
            exact Nat.lt_of_not_le hk
    rw [hsplit, List.pairwise_append, ← ih]
    refine and_congr_right fun hall => ?_
    have hlost := hall us.length
    rw [List.take_length] at hlost
    rw [nothingLost_step hlost]
    simp

/-! ### Two names for one file -/

/-- A file that is stored without a failure. -/
def plainUpload (filename content : String) : Upload :=
  ⟨.ok (some ⟨utf8 filename, utf8 content⟩), sampleCivil, none, none, none⟩

/-- Two files whose names differ by a pair of dots. -/
def twoNames : List Upload := [plainUpload "p..1.html" "<p>", plainUpload "p1.html" "<html>"]

/-- **An acknowledged upload is lost.** The second upload replaces the file of the first one. -/
theorem acknowledged_upload_lost :
    unix.base (utf8 "p..1.html") ≠ unix.base (utf8 "p1.html") ∧
      ¬ NothingLost (utf8 "/data/raw") twoNames fun _ => none := by
  refine ⟨by decide +kernel, fun hlost => ?_⟩
  have hheld := hlost 0 (plainUpload "p..1.html" "<p>") ⟨utf8 "p..1.html", utf8 "<p>"⟩
    (utf8 "/data/raw/p1.html") rfl rfl (by decide +kernel)
  exact absurd hheld (by decide +kernel)

end TaxlienGateway
