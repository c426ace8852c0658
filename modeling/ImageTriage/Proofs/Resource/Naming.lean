import ImageTriage.Proofs.Content
import ImageTriage.Proofs.Files.Writing
import ImageTriage.Resource.FileName

/-!
# Names of saved resources

The name of a saved resource is made up of texts from the image, which may hold any character, and
of an extension that the kind of the resource or its data tell. Whatever they
are, it has only letters, digits, `_`, `.` and `-` (`isPortable_of_mem_fileNameBy`) and the two `_`
that part kind, name and language (`two_le_count_fileNameBy`). So it is the name of an entry and no
path (`isPlain_fileNameBy`): in any directory it leads to a direct child (`fileName_stays_inside`).

How the kind of the data is told is left open. All that is asked is that every kind has an extension
of letters and digits (`Content.HasWords`).
-/

namespace ImageTriage

/-! ## Characters -/

namespace FileName

/-- A letter from A to Z, large or small, a digit, `_`, `.` or `-`. -/
def IsPortable (c : Char) : Prop :=
  'A' ≤ c ∧ c ≤ 'Z' ∨ 'a' ≤ c ∧ c ≤ 'z' ∨ '0' ≤ c ∧ c ≤ '9' ∨ c = '_' ∨ c = '.' ∨ c = '-'

variable {c : Char} {s : String}

theorem isSafe_iff_isPortable : isSafe c ↔ IsPortable c := by
  have hrange (low high : Char) : (decide (c.val ≥ low.val) && decide (c.val ≤ high.val)) ↔
      low ≤ c ∧ c ≤ high := by
    rw [Bool.and_eq_true, decide_eq_true_eq, decide_eq_true_eq]
    exact Iff.rfl
  have hupper : c.isUpper ↔ 'A' ≤ c ∧ c ≤ 'Z' := decide_eq_true_iff
  have hlower : c.isLower ↔ 'a' ≤ c ∧ c ≤ 'z' := hrange 'a' 'z'
  have hdigit : c.isDigit ↔ '0' ≤ c ∧ c ≤ '9' := hrange '0' '9'
  have hword : c.isAlphanum ↔ (c.isUpper ∨ c.isLower) ∨ c.isDigit := by
    rw [← Bool.or_eq_true, ← Bool.or_eq_true]
    exact Iff.rfl
  simp only [isSafe, IsPortable, Bool.or_eq_true, beq_iff_eq, hword, hupper, hlower, hdigit,
    or_assoc]

theorem isPortable_of_isAlphanum (h : c.isAlphanum) : IsPortable c := by
  rw [← isSafe_iff_isPortable, isSafe, h]
  rfl

theorem isPortable_of_mem_sanitize (h : c ∈ (sanitize s).toList) : IsPortable c :=
  isSafe_iff_isPortable.1 (isSafe_of_mem_sanitize h)

/-- Sanitizing changes no character that is portable and every other one. -/
theorem sanitize_eq_self_iff : sanitize s = s ↔ ∀ c ∈ s.toList, IsPortable c := by
  constructor
  · intro h c hc
    rw [← h] at hc
    exact isPortable_of_mem_sanitize hc
  · intro h
    rw [sanitize, ← String.toList_inj, String.toList_map]
    refine (List.map_congr_left fun c hc => ?_).trans (List.map_id _)
    exact if_pos (isSafe_iff_isPortable.2 (h c hc))

theorem sanitize_sanitize (s : String) : sanitize (sanitize s) = sanitize s :=
  sanitize_eq_self_iff.2 fun _ => isPortable_of_mem_sanitize

theorem length_sanitize (s : String) : (sanitize s).length = s.length := by
  rw [sanitize, ← String.length_toList, String.toList_map, List.length_map, String.length_toList]

/-- The underscores of a text are still there when it is sanitized. -/
theorem count_le_count_sanitize (s : String) :
    s.toList.count '_' ≤ (sanitize s).toList.count '_' := by
  rw [sanitize, String.toList_map]
  exact List.count_le_count_map (l := s.toList) (f := fun c => if isSafe c then c else '_')
    (x := '_')

end FileName

/-! ## Names -/

namespace Resource

open FileName

theorem isAlphanum_kindExtension {kind : ResourceId} {extension : String}
    (hkind : kindExtension? kind = some extension) :
    extension.toList.all Char.isAlphanum := by
  cases kind with
  | named text => cases hkind
  | number n =>
    rw [kindExtension?] at hkind
    split_ifs at hkind <;> cases hkind <;> decide

variable {detect : Bytes → Option Content}

/-- Every character of a name is portable. -/
theorem isPortable_of_mem_fileNameBy (hdetect : Content.HasWords detect) {r : Resource}
    {data : Bytes} {c : Char} (h : c ∈ (r.fileNameBy detect data).toList) : IsPortable c := by
  rw [fileNameBy, String.toList_append, String.toList_append, List.mem_append, List.mem_append] at h
  rcases h with (hstem | hpoint) | hextension
  · exact isPortable_of_mem_sanitize hstem
  · obtain rfl : c = '.' := List.mem_singleton.1 hpoint
    exact isSafe_iff_isPortable.1 (by decide)
  · refine isPortable_of_isAlphanum ?_
    cases hkind : kindExtension? r.kind with
    | none =>
      rw [hkind] at hextension
      exact List.all_eq_true.1 (Content.isAlphanum_extensionBy hdetect data) c hextension
    | some extension =>
      rw [hkind] at hextension
      exact List.all_eq_true.1 (isAlphanum_kindExtension hkind) c hextension

/-- Two underscores part the kind, the name and the language. -/
theorem two_le_count_fileNameBy (detect : Bytes → Option Content) (r : Resource) (data : Bytes) :
    2 ≤ (r.fileNameBy detect data).toList.count '_' := by
  have hstem := count_le_count_sanitize
    (r.kind.kindName ++ "_" ++ r.name.text ++ "_" ++ Text.hex 4 r.language.toNat)
  have hparts : ("_" : String).toList.count '_' = 1 := rfl
  simp only [String.toList_append, List.count_append, hparts] at hstem
  simp only [fileNameBy, String.toList_append, List.count_append]
  omega

/-- A saved resource stands in the directory it is saved in. -/
theorem isPlain_fileNameBy (hdetect : Content.HasWords detect) (r : Resource) (data : Bytes) :
    Path.IsPlain (r.fileNameBy detect data) := by
  have hcount := two_le_count_fileNameBy detect r data
  -- none of the names that lead elsewhere has two underscores
  have hne : ∀ s : String, s.toList.count '_' < 2 → r.fileNameBy detect data ≠ s := by
    rintro s hs rfl
    omega
  refine ⟨fun hslash => ?_, hne _ (by decide), hne _ (by decide), hne _ (by decide)⟩
  exact absurd (isSafe_iff_isPortable.2 (isPortable_of_mem_fileNameBy hdetect hslash)) (by decide)

theorem isPlain_fileName [Sniffer] (hwords : Content.HasWords Content.detect?) (r : Resource)
    (data : Bytes) : Path.IsPlain (r.fileName data) :=
  isPlain_fileNameBy hwords r data

end Resource

/-! ## Where a name leads -/

namespace FileTree

variable {t t' : FileTree} {directory name : String} {p q : Place}
  {inside : List (String × FileEntry)} {content : Bytes}

/-- A file that is written into a directory stands there, and nothing else is changed but what is
above it. -/
theorem look?_write (hname : Path.IsPlain name) (hdirectory : t.place directory = .ok p)
    (hlook : t.look? p = some (.directory inside))
    (hwrite : t.write (Path.join directory name) content = .ok t') :
    t'.look? (p ++ [name]) = some (.file content) ∧
      ∀ other, ¬ p ++ [name] <+: other → ¬ other <+: p → t'.look? other = t.look? other := by
  obtain ⟨q, hjoined, -, rfl⟩ := write_eq_ok_iff.1 hwrite
  obtain ⟨-, -, rfl⟩ := (place_join hname hdirectory hlook).1 hjoined
  refine ⟨FileEntry.look?_put_self name (.file content) hlook, fun other hbelow habove => ?_⟩
  refine FileEntry.look?_put_of_apart (.file content) t.root hbelow fun hprefix => ?_
  rcases List.prefix_concat_iff.1 hprefix with hself | hprefix
  · exact hbelow (hself ▸ List.prefix_rfl)
  · exact habove hprefix

end FileTree

namespace Resource

open FileName

variable {detect : Bytes → Option Content}

/-- Whatever a resource is called and whatever its data are, the name that it is saved under is a
name of an entry, and in any directory it leads to a direct child and nowhere else. Sanitizing,
which the name owes this to, is done after one time, keeps the length, and changes no text that has
only portable characters. -/
theorem fileName_stays_inside (hdetect : Content.HasWords detect) (r : Resource) (data : Bytes) :
    (r.fileNameBy detect data ≠ "" ∧
      (∀ c ∈ (r.fileNameBy detect data).toList, IsPortable c) ∧
      (∀ c ∈ ['/', '\\', ':', Char.ofNat 0], c ∉ (r.fileNameBy detect data).toList) ∧
      2 ≤ (r.fileNameBy detect data).toList.count '_' ∧
      r.fileNameBy detect data ≠ "." ∧ r.fileNameBy detect data ≠ "..") ∧
    (∀ directory,
      Path.isAbsolute (Path.join directory (r.fileNameBy detect data)) =
        Path.isAbsolute directory ∧
      Path.steps (Path.join directory (r.fileNameBy detect data)) =
        Path.steps directory ++ [r.fileNameBy detect data]) ∧
    (∀ (t : FileTree) directory p inside, t.place directory = .ok p →
      t.look? p = some (.directory inside) →
        (∀ q, t.place (Path.join directory (r.fileNameBy detect data)) = .ok q →
          q = p ++ [r.fileNameBy detect data]) ∧
        ∀ content t', t.write (Path.join directory (r.fileNameBy detect data)) content = .ok t' →
          t'.look? (p ++ [r.fileNameBy detect data]) = some (.file content) ∧
          ∀ other, ¬ p ++ [r.fileNameBy detect data] <+: other → ¬ other <+: p →
            t'.look? other = t.look? other) ∧
    ∀ s, sanitize (sanitize s) = sanitize s ∧ (sanitize s).length = s.length ∧
      (sanitize s = s ↔ ∀ c ∈ s.toList, IsPortable c) := by
  have hname := isPlain_fileNameBy hdetect r data
  have hportable : ∀ c ∈ (r.fileNameBy detect data).toList, IsPortable c :=
    fun c hc => isPortable_of_mem_fileNameBy hdetect hc
  have hmarkers : ∀ c ∈ ['/', '\\', ':', Char.ofNat 0], ¬ IsPortable c := by
    have hunsafe : ['/', '\\', ':', Char.ofNat 0].all fun c => !isSafe c := by decide
    intro c hc h
    have hsafe := List.all_eq_true.1 hunsafe c hc
    rw [isSafe_iff_isPortable.2 h] at hsafe
    cases hsafe
  refine ⟨⟨hname.ne_empty, hportable, fun c hc hmem => hmarkers c hc (hportable c hmem),
    two_le_count_fileNameBy detect r data, hname.ne_point, hname.ne_points⟩, ?_, ?_, ?_⟩
  · exact fun directory => ⟨Path.isAbsolute_join hname, Path.steps_join hname⟩
  · intro t directory p inside hdirectory hlook
    refine ⟨fun q hq => ((FileTree.place_join hname hdirectory hlook).1 hq).2.2, ?_⟩
    exact fun content t' hwrite => FileTree.look?_write hname hdirectory hlook hwrite
  · exact fun s => ⟨sanitize_sanitize s, length_sanitize s, sanitize_eq_self_iff⟩

/-- A resource whose kind and name are made to lead out of the directory and into a stream. -/
def evil : Resource := ⟨.named "../../evil", .named "..\\x:y/", 0x409, 0, 0x1000, 2, some 512⟩

theorem fileName_stays_inside_evil :
    letI := Sniffer.programs
    Content.HasWords Content.detect? ∧
      evil.fileNameBy Content.detect? ⟨#[0x4D, 0x5A]⟩ ≠ "" ∧
      Path.steps (Path.join "out/" (evil.fileNameBy Content.detect? ⟨#[0x4D, 0x5A]⟩)) =
        ["out", ".._.._evil_.._x_y__0409.exe"] := by
  let := Sniffer.programs
  obtain ⟨⟨hne, -⟩, hjoin, -⟩ :=
    fileName_stays_inside Sniffer.hasWords_programs evil ⟨#[0x4D, 0x5A]⟩
  refine ⟨Sniffer.hasWords_programs, hne, (hjoin "out/").2.trans ?_⟩
  decide +kernel

end Resource

end ImageTriage
