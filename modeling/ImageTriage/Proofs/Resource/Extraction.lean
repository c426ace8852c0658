import ImageTriage.Batch.Target
import ImageTriage.Proofs.Batch.Streams
import ImageTriage.Proofs.Resource.Naming

/-!
# Saved resources

The resources of an image are saved one after the other, each under a name that is made up of its
kind, its name and its language. However that ends, nothing changes but the entries of these names
in the directory (`look?_run_saveAll`).

Characters that are not safe in a file name all become the same one, and a number reads like the
text of its digits, so that two resources may come to the same name. The later one then takes the
place of the earlier one. How the kind of the data is told is left open, as long as every kind has a
word for its extension (`Content.HasWords`).

In a directory that was empty, saving leaves the last resource of each name
(`extractResources_into_fresh`). The count that is answered is that of the resources, not of the
files; both agree, and nothing is lost, exactly if no two names are the same.
-/

namespace ImageTriage

namespace Resource

/-- The files that the resources are saved as: those whose data the file of the image holds, in
order. -/
def savedFiles [Sniffer] (file : Bytes) (rs : List Resource) : NamedFiles :=
  rs.filterMap fun r => (r.data? file).map fun data => (r.fileName data, data)

end Resource

/-! ## Saving -/

namespace Image

open Resource

section

variable [Sniffer] {w w' : World} {directory : Path} {n saved : Nat} {file : Bytes} {r : Resource}
  {rs : List Resource} {inside : List (String × FileEntry)}

theorem savedFiles_cons_of_none (hdata : r.data? file = none) :
    savedFiles file (r :: rs) = savedFiles file rs := by
  simp [savedFiles, hdata]

theorem savedFiles_cons_of_some {data : Bytes} (hdata : r.data? file = some data) :
    savedFiles file (r :: rs) = (r.fileName data, data) :: savedFiles file rs := by
  simp [savedFiles, hdata]

/-- A resource whose data the file does not hold is passed over. -/
theorem run_saveAll_of_none (hdata : r.data? file = none) :
    (saveAll World.host file directory saved (r :: rs)).run.run w =
      (saveAll World.host file directory saved rs).run.run w := by
  rw [saveAll, hdata]

/-- A resource that can be written is counted. -/
theorem run_saveAll_of_ok {data : Bytes} {files : FileTree} (hdata : r.data? file = some data)
    (hwrite : w.files.write (Path.join directory (r.fileName data)) data = .ok files) :
    (saveAll World.host file directory saved (r :: rs)).run.run w =
      (saveAll World.host file directory (saved + 1) rs).run.run { w with files } := by
  have hwrites : (World.host.writeFile (Path.join directory (r.fileName data)) data).run w =
      (.ok (), { w with files }) := by
    change w.writeFile _ _ = _
    rw [World.writeFile, hwrite]
  rw [saveAll, hdata]
  exact run_bind_eq (run_lift_eq hwrites)

/-- A resource that cannot be written ends it. -/
theorem run_saveAll_of_error {data : Bytes} {fault : FileFault} (hdata : r.data? file = some data)
    (hwrite : w.files.write (Path.join directory (r.fileName data)) data = .error fault) :
    (saveAll World.host file directory saved (r :: rs)).run.run w =
      (.error (.extraction directory fault.message), w) := by
  have hfails : (World.host.writeFile (Path.join directory (r.fileName data)) data).run w =
      (.error fault.message, w) := by
    change w.writeFile _ _ = _
    rw [World.writeFile, hwrite]
  rw [saveAll, hdata]
  exact run_bind_eq (run_lift_eq hfails)

/-- Saving first makes the directory, and then all is as in a directory that was there. -/
theorem run_extractResources_of_ok {image : Image} {made : FileTree}
    (hresources : image.resources = .ok rs)
    (hmade : w.files.createAll directory = (.ok (), made)) :
    (image.extractResources World.host directory).run.run w =
      (saveAll World.host image.data directory 0 rs).run.run { w with files := made } := by
  have hmakes : (World.host.createDirectory directory).run w =
      (.ok (), { w with files := made }) := by
    change w.createDirectory directory = _
    rw [World.createDirectory, hmade]
    rfl
  rw [extractResources, hresources]
  exact run_bind_eq (run_lift_eq hmakes)

variable (hwords : Content.HasWords Content.detect?)
include hwords

/-- However saving ends, what is no entry of one of the names, nor inside one, nor above it, is as
it was. -/
theorem look?_run_saveAll {result : Except Failure Nat} {other : Place} {p : Place}
    (hdirectory : w.files.place directory = .ok p)
    (hlook : w.files.look? p = some (.directory inside))
    (hrun : (saveAll World.host file directory saved rs).run.run w = (result, w'))
    (habove : ¬ other <+: p) (hbelow : ∀ f ∈ savedFiles file rs, ¬ p ++ [f.1] <+: other) :
    w'.files.look? other = w.files.look? other := by
  induction rs generalizing w saved inside with
  | nil =>
    cases hrun
    rfl
  | cons r rs ih =>
    cases hdata : r.data? file with
    | none =>
      rw [run_saveAll_of_none hdata] at hrun
      rw [savedFiles_cons_of_none hdata] at hbelow
      exact ih hdirectory hlook hrun hbelow
    | some data =>
      rw [savedFiles_cons_of_some hdata, List.forall_mem_cons] at hbelow
      obtain ⟨hfirst, hrest⟩ := hbelow
      have hname := isPlain_fileName hwords r data
      cases hwrite : w.files.write (Path.join directory (r.fileName data)) data with
      | error fault =>
        rw [run_saveAll_of_error hdata hwrite] at hrun
        cases hrun
        rfl
      | ok files =>
        rw [run_saveAll_of_ok hdata hwrite] at hrun
        obtain ⟨hdirectory', hlook'⟩ := FileTree.place_write hname hdirectory hlook hwrite
        obtain ⟨-, hothers⟩ := FileTree.look?_write hname hdirectory hlook hwrite
        rw [ih (w := { w with files }) hdirectory' hlook' hrun hrest]
        exact hothers other hfirst habove

/-- Every resource whose data the file holds is written and counted. -/
theorem run_saveAll (hfind : w.files.find directory = .ok (.directory inside))
    (hrun : (saveAll World.host file directory saved rs).run.run w = (.ok n, w')) :
    n = saved + (savedFiles file rs).length ∧
      w'.files.find directory = .ok (.directory ((savedFiles file rs).leave inside)) := by
  induction rs generalizing w saved inside with
  | nil =>
    cases hrun
    exact ⟨rfl, hfind⟩
  | cons r rs ih =>
    cases hdata : r.data? file with
    | none =>
      rw [run_saveAll_of_none hdata] at hrun
      rw [savedFiles_cons_of_none hdata]
      exact ih hfind hrun
    | some data =>
      rw [savedFiles_cons_of_some hdata]
      cases hwrite : w.files.write (Path.join directory (r.fileName data)) data with
      | error fault =>
        rw [run_saveAll_of_error hdata hwrite] at hrun
        cases hrun
      | ok files =>
        rw [run_saveAll_of_ok hdata hwrite] at hrun
        -- the rest is saved into a directory with one file more
        have hwritten := FileTree.find_write (isPlain_fileName hwords r data) hfind hwrite
        obtain ⟨hcount, hleft⟩ := ih (w := { w with files }) hwritten hrun
        refine ⟨?_, hleft⟩
        rw [hcount, List.length_cons]
        omega

/-- Nothing keeps the resources from being written but a name or a path that is too long. -/
theorem exists_run_saveAll (hfind : w.files.find directory = .ok (.directory inside))
    (hfree : ∀ name, ∀ entry ∈ inside.lookup name, ∃ old, entry = .file old)
    (hfit : ∀ f ∈ savedFiles file rs, FileTree.check (Path.join directory f.1) = .ok () ∧
      f.1.utf8ByteSize ≤ FileTree.nameBound) :
    ∃ n w', (saveAll World.host file directory saved rs).run.run w = (.ok n, w') := by
  induction rs generalizing w saved inside with
  | nil => exact ⟨saved, w, rfl⟩
  | cons r rs ih =>
    cases hdata : r.data? file with
    | none =>
      rw [savedFiles_cons_of_none hdata] at hfit
      rw [run_saveAll_of_none hdata]
      exact ih hfind hfree hfit
    | some data =>
      rw [savedFiles_cons_of_some hdata, List.forall_mem_cons] at hfit
      obtain ⟨⟨hcheck, hshort⟩, hrest⟩ := hfit
      have hname := isPlain_fileName hwords r data
      obtain ⟨files, hwrite⟩ :
          ∃ files, w.files.write (Path.join directory (r.fileName data)) data = .ok files :=
        FileTree.exists_write hname hfind hcheck hshort (hfree _)
      rw [run_saveAll_of_ok hdata hwrite]
      refine ih (w := { w with files }) (FileTree.find_write hname hfind hwrite) ?_ hrest
      intro name
      by_cases h : name = r.fileName data
      · simp [h]
      · rw [List.lookup_cons, beq_false_of_ne h, FileEntry.lookup_filter_of_ne inside h]
        exact hfree name

/-- Saving into a directory that was empty leaves the last resource of each name. The count is that
of the resources, and nothing is lost exactly if no two names are the same. -/
theorem extractResources_into_fresh {image : Image} {made : FileTree}
    (hresources : image.resources = .ok rs)
    (hmade : w.files.createAll directory = (.ok (), made))
    (hempty : made.find directory = .ok (.directory []))
    (hrun : (image.extractResources World.host directory).run.run w = (.ok n, w')) :
    n = (savedFiles image.data rs).length ∧
      ∃ inside, w'.files.find directory = .ok (.directory inside) ∧
        (inside.map Prod.fst).Nodup ∧
        inside.length = ((savedFiles image.data rs).map Prod.fst).dedup.length ∧
        (∀ name entry, (name, entry) ∈ inside ↔ ∃ data, entry = .file data ∧
          (savedFiles image.data rs).reverse.lookup name = some data) ∧
        ((inside.length = n ∧ ∀ f ∈ savedFiles image.data rs, (f.1, .file f.2) ∈ inside) ↔
          ((savedFiles image.data rs).map Prod.fst).Nodup) := by
  rw [run_extractResources_of_ok hresources hmade] at hrun
  obtain ⟨hcount, hleft⟩ := run_saveAll hwords hempty hrun
  rw [Nat.zero_add] at hcount
  subst hcount
  exact ⟨rfl, _, hleft, NamedFiles.nodup_leave List.nodup_nil, NamedFiles.length_leave,
    fun name entry => NamedFiles.mem_leave_iff, NamedFiles.nothing_lost_iff⟩

end

/-- An image with two resources of one kind and language, named `+` and `*`. -/
def twoSigns : Bytes :=
  ⟨⟨[0x4D, 0x5A] ++ List.replicate 58 0 ++ [64, 0, 0, 0, 0x50, 0x45, 0, 0, 0x4C, 1, 1, 0] ++
    List.replicate 12 0 ++ [120, 0, 0, 0, 0x0B, 1] ++ List.replicate 90 0 ++ [3, 0, 0, 0] ++
    List.replicate 16 0 ++ [0, 0x10, 0, 0, 146, 0, 0, 0] ++
    List.replicate 8 0 ++ [146, 0, 0, 0, 0, 0x10, 0, 0, 146, 0, 0, 0, 248, 0, 0, 0] ++
    List.replicate 16 0 ++
    List.replicate 12 0 ++ [0, 0, 1, 0, 10, 0, 0, 0, 24, 0, 0, 0x80] ++
    List.replicate 12 0 ++ [2, 0, 0, 0, 136, 0, 0, 0x80, 56, 0, 0, 0x80,
      140, 0, 0, 0x80, 80, 0, 0, 0x80] ++
    List.replicate 12 0 ++ [0, 0, 1, 0, 9, 4, 0, 0, 104, 0, 0, 0] ++
    List.replicate 12 0 ++ [0, 0, 1, 0, 9, 4, 0, 0, 120, 0, 0, 0] ++
    [0x90, 0x10, 0, 0, 1, 0, 0, 0, 0, 0, 0, 0, 0, 0, 0, 0] ++
    [0x91, 0x10, 0, 0, 1, 0, 0, 0, 0, 0, 0, 0, 0, 0, 0, 0] ++
    [1, 0, 0x2B, 0, 1, 0, 0x2A, 0, 0x41, 0x42]⟩⟩

/-- The resources of `twoSigns`. -/
def signs : List Resource :=
  [⟨.number 10, .named "+", 0x409, 0, 0x1090, 1, some 392⟩,
    ⟨.number 10, .named "*", 0x409, 0, 0x1091, 1, some 393⟩]

theorem data_of_parse {b : Bytes} {limits : Limits} {image : Image}
    (h : parse b limits = .ok image) : image.data = b := by
  obtain ⟨dos, -, h⟩ := bind_eq_ok_iff.1 h
  obtain ⟨headers, -, h⟩ := bind_eq_ok_iff.1 h
  obtain ⟨declared, -, h⟩ := bind_eq_ok_iff.1 h
  cases h
  rfl

theorem resources_twoSigns :
    ∃ image, parse twoSigns {} = .ok image ∧ image.resources = .ok signs := by
  obtain ⟨image, hparse, h⟩ := exists_ok_of_any (x := parse twoSigns {})
    (p := fun image => image.resources.toOption == some signs) (by decide +kernel)
  have hfound := beq_iff_eq.1 h
  refine ⟨image, hparse, ?_⟩
  cases hresources : image.resources with
  | error fault =>
    rw [hresources] at hfound
    cases hfound
  | ok rs =>
    rw [hresources] at hfound
    exact congrArg Except.ok (Option.some.inj hfound)

/-- The name that both resources come to. -/
def signName : String := "RT_RCDATA___0409.bin"

theorem savedFiles_signs :
    letI := Sniffer.programs
    savedFiles twoSigns signs = [(signName, ⟨#[0x41]⟩), (signName, ⟨#[0x42]⟩)] := by
  decide +kernel

/-- A tree with an empty directory where paths start. -/
def emptyOut : FileTree := { root := .directory [("", .directory [("out", .directory [])])] }

theorem createAll_out : FileTree.empty.createAll "out" = (.ok (), emptyOut) := rfl

theorem find_emptyOut : emptyOut.find "out" = .ok (.directory []) := rfl

theorem exists_run_twoSigns {image : Image} (hparse : parse twoSigns {} = .ok image)
    (hresources : image.resources = .ok signs) :
    letI := Sniffer.programs
    ∃ n w', (image.extractResources World.host "out").run.run {} = (.ok n, w') := by
  let := Sniffer.programs
  rw [run_extractResources_of_ok hresources createAll_out, data_of_parse hparse]
  refine exists_run_saveAll Sniffer.hasWords_programs find_emptyOut (fun name => by simp) ?_
  rw [savedFiles_signs]
  decide +kernel

theorem extractResources_into_fresh_twoSigns :
    letI := Sniffer.programs
    Content.HasWords Content.detect? ∧
    ∃ image n w', parse twoSigns {} = .ok image ∧ image.resources = .ok signs ∧
      ({} : World).files.createAll "out" = (.ok (), emptyOut) ∧
      emptyOut.find "out" = .ok (.directory []) ∧
      (image.extractResources World.host "out").run.run {} = (.ok n, w') ∧ n = 2 ∧
      ∃ inside, w'.files.find "out" = .ok (.directory inside) ∧ inside.length = 1 := by
  let := Sniffer.programs
  obtain ⟨image, hparse, hresources⟩ := resources_twoSigns
  obtain ⟨n, w', hrun⟩ := exists_run_twoSigns hparse hresources
  obtain ⟨hcount, inside, hinside, -, hlength, -⟩ :=
    extractResources_into_fresh Sniffer.hasWords_programs hresources createAll_out find_emptyOut
      hrun
  rw [data_of_parse hparse, savedFiles_signs] at hcount hlength
  exact ⟨Sniffer.hasWords_programs, image, n, w', hparse, hresources, createAll_out, find_emptyOut,
    hrun, hcount, inside, hinside, hlength.trans (by decide)⟩

/-- Two resources are counted and one file is left, the second of the two. -/
theorem sign_lost :
    letI := Sniffer.programs
    ∃ image w', parse twoSigns {} = .ok image ∧ image.resources = .ok signs ∧
      savedFiles image.data signs = [(signName, ⟨#[0x41]⟩), (signName, ⟨#[0x42]⟩)] ∧
      FileTree.empty.createAll "out" = (.ok (), emptyOut) ∧
      emptyOut.find "out" = .ok (.directory []) ∧
      (image.extractResources World.host "out").run.run {} = (.ok 2, w') ∧
      w'.files.find "out" = .ok (.directory [(signName, .file ⟨#[0x42]⟩)]) := by
  let := Sniffer.programs
  obtain ⟨image, hparse, hresources⟩ := resources_twoSigns
  obtain ⟨n, w', hrun⟩ := exists_run_twoSigns hparse hresources
  have hdata := data_of_parse hparse
  have hsaved := hrun
  rw [run_extractResources_of_ok hresources createAll_out] at hsaved
  obtain ⟨hcount, hleft⟩ := run_saveAll Sniffer.hasWords_programs find_emptyOut hsaved
  rw [hdata, savedFiles_signs] at hcount hleft
  subst hcount
  have hleave : NamedFiles.leave [] [(signName, ⟨#[0x41]⟩), (signName, ⟨#[0x42]⟩)] =
      [(signName, .file ⟨#[0x42]⟩)] := by
    simp [NamedFiles.leave]
  rw [hleave] at hleft
  have hfiles := savedFiles_signs
  rw [← hdata] at hfiles
  exact ⟨image, w', hparse, hresources, hfiles, createAll_out, find_emptyOut, hrun, hleft⟩

end Image

end ImageTriage
