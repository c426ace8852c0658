import Mathlib.Data.Nat.Find
import ImageTriage.Image
import ImageTriage.Proofs.Header.Layout
import ImageTriage.Proofs.Section.Lookup

/-!
# What is behind the sections

The overlay of an image should be what follows the last byte that a section owns
(`Image.IsLastOwned`, `Image.tail?`). It begins behind the end of every section instead, also of a
section that owns no byte of the file: one without bytes, which may state any place, or one whose
bytes lie past the end of the file. Such an idle section does no harm as long as it does not end
behind the last owned byte (`Image.overlay?_eq_tail?_iff`). One that does cuts the overlay or hides
it (`Image.appended_bytes_hidden`).
-/

namespace ImageTriage

namespace SectionHeader

/-- The byte of the file at offset `i` belongs to the section. -/
def Owns (h : SectionHeader) (file : Bytes) (i : Nat) : Prop :=
  i < file.size ∧ h.fileStart ≤ i ∧ i < h.fileEnd

instance (h : SectionHeader) (file : Bytes) (i : Nat) : Decidable (h.Owns file i) :=
  inferInstanceAs (Decidable (_ ∧ _))

/-- No byte of the file belongs to the section: it has no bytes, or they lie past the end. -/
def IsIdle (h : SectionHeader) (file : Bytes) : Prop :=
  file.size ≤ h.fileStart ∨ h.fileEnd ≤ h.fileStart

instance (h : SectionHeader) (file : Bytes) : Decidable (h.IsIdle file) :=
  inferInstanceAs (Decidable (_ ∨ _))

variable {h : SectionHeader} {file : Bytes} {i last : Nat}

theorem IsIdle.not_owns (hidle : h.IsIdle file) : ¬ h.Owns file i := by
  rintro ⟨hi, hstart, hend⟩
  rcases hidle with hpast | hempty <;> omega

theorem exists_owns (hidle : ¬ h.IsIdle file) : ∃ i, h.Owns file i := by
  have hsome := not_or.1 hidle
  exact ⟨h.fileStart, by omega, by omega, by omega⟩

/-- A section that owns some bytes, all of them up to `last`, ends there, unless the file does. -/
theorem fileEnd_le_of_owns (hi : h.Owns file i) (hlast : ∀ j, h.Owns file j → j ≤ last)
    (hmore : last + 1 < file.size) : h.fileEnd ≤ last + 1 := by
  obtain ⟨hsize, hstart, hend⟩ := hi
  have hle := hlast (min h.fileEnd file.size - 1) ⟨by omega, by omega, by omega⟩
  omega

end SectionHeader

theorem foldl_max_le_iff {ns : List Nat} {start n : Nat} :
    ns.foldl max start ≤ n ↔ start ≤ n ∧ ∀ k ∈ ns, k ≤ n := by
  induction ns generalizing start with
  | nil => simp
  | cons k ns ih => rw [List.foldl_cons, ih, Nat.max_le, List.forall_mem_cons, and_assoc]

namespace Image

variable {image other : Image} {last n : Nat}

theorem sectionsEnd_le_iff :
    image.sectionsEnd ≤ n ↔ ∀ h ∈ image.sections.headers, h.fileEnd ≤ n := by
  simp [sectionsEnd, foldl_max_le_iff]

/-! ## The last owned byte -/

/-- The byte of the file at offset `i` belongs to a section. -/
def IsOwned (image : Image) (i : Nat) : Prop :=
  ∃ h ∈ image.sections.headers, h.Owns image.data i

instance (image : Image) (i : Nat) : Decidable (image.IsOwned i) :=
  inferInstanceAs (Decidable (∃ h ∈ image.sections.headers, h.Owns image.data i))

/-- The byte at offset `last` belongs to a section, and no later one does. -/
structure IsLastOwned (image : Image) (last : Nat) : Prop where
  owned : image.IsOwned last
  le_last : ∀ i, image.IsOwned i → i ≤ last

/-- The bytes of the file behind offset `last`, when there are any. -/
def tail? (image : Image) (last : Nat) : Option Bytes :=
  if last + 1 < image.data.size then some (image.data.extract (last + 1) image.data.size) else none

theorem IsOwned.lt_size {i : Nat} (hi : image.IsOwned i) : i < image.data.size := by
  obtain ⟨h, -, howns⟩ := hi
  exact howns.1

theorem exists_isLastOwned (hsome : ∃ h ∈ image.sections.headers, ¬ h.IsIdle image.data) :
    ∃ last, image.IsLastOwned last := by
  obtain ⟨h, hh, hidle⟩ := hsome
  obtain ⟨i, hi⟩ := SectionHeader.exists_owns hidle
  have howned : image.IsOwned i := ⟨h, hh, hi⟩
  exact ⟨Nat.findGreatest image.IsOwned image.data.size,
    Nat.findGreatest_spec (Nat.le_of_lt howned.lt_size) howned,
    fun _ hj => Nat.le_findGreatest (Nat.le_of_lt hj.lt_size) hj⟩

theorem IsLastOwned.lt_sectionsEnd (hlast : image.IsLastOwned last) : last < image.sectionsEnd := by
  obtain ⟨h, hh, howns⟩ := hlast.owned
  exact Nat.lt_of_lt_of_le howns.2.2 (sectionsEnd_le_iff.1 (Nat.le_refl _) h hh)

/-- Where there are bytes behind the last owned one, the sections end there exactly if no idle
section ends later. -/
theorem IsLastOwned.sectionsEnd_eq_iff (hlast : image.IsLastOwned last)
    (hmore : last + 1 < image.data.size) :
    image.sectionsEnd = last + 1 ↔
      ∀ h ∈ image.sections.headers, h.IsIdle image.data → h.fileEnd ≤ last + 1 := by
  have hlt := hlast.lt_sectionsEnd
  constructor
  · intro hend h hh _
    exact sectionsEnd_le_iff.1 (Nat.le_of_eq hend) h hh
  · intro hidle
    refine Nat.le_antisymm (sectionsEnd_le_iff.2 fun h hh => ?_) hlt
    by_cases hnone : h.IsIdle image.data
    · exact hidle h hh hnone
    · obtain ⟨i, hi⟩ := SectionHeader.exists_owns hnone
      exact SectionHeader.fileEnd_le_of_owns hi (fun j hj => hlast.le_last j ⟨h, hh, hj⟩) hmore

/-- The overlay is what follows the last owned byte exactly if nothing does, or no idle section ends
behind that byte. -/
theorem IsLastOwned.overlay?_eq_iff (hlast : image.IsLastOwned last) :
    image.overlay? = image.tail? last ↔
      (last + 1 < image.data.size →
        ∀ h ∈ image.sections.headers, h.IsIdle image.data → h.fileEnd ≤ last + 1) := by
  have hlt := hlast.lt_sectionsEnd
  by_cases hmore : last + 1 < image.data.size
  · rw [← hlast.sectionsEnd_eq_iff hmore, overlay?, tail?, if_pos hmore]
    constructor
    · intro h _
      split at h
      case isTrue hinside =>
        have hsize := congrArg ByteArray.size (Option.some.inj h)
        rw [ByteArray.size_extract, ByteArray.size_extract] at hsize
        omega
      case isFalse => cases h
    · intro hend
      rw [hend hmore, if_pos ⟨by omega, hmore⟩]
  · have hpast : ¬ image.sectionsEnd < image.data.size := by omega
    rw [overlay?, tail?, if_neg hmore, if_neg fun h => hpast h.2]
    exact ⟨fun _ h => absurd h hmore, fun _ => rfl⟩

/-! ## Idle sections and the order of sections -/

/-- The image without its idle sections. -/
def withoutIdle (image : Image) : Image :=
  { image with
    sections := .ofHeaders (image.sections.headers.filter fun h => ¬ h.IsIdle image.data) }

theorem mem_withoutIdle {h : SectionHeader} :
    h ∈ image.withoutIdle.sections.headers ↔
      h ∈ image.sections.headers ∧ ¬ h.IsIdle image.data := by
  simp [withoutIdle, SectionTable.ofHeaders]

theorem IsLastOwned.withoutIdle (hlast : image.IsLastOwned last) :
    image.withoutIdle.IsLastOwned last := by
  obtain ⟨h, hh, howns⟩ := hlast.owned
  refine ⟨⟨h, mem_withoutIdle.2 ⟨hh, fun hidle => hidle.not_owns howns⟩, howns⟩, ?_⟩
  rintro i ⟨h', hh', hi⟩
  exact hlast.le_last i ⟨h', (mem_withoutIdle.1 hh').1, hi⟩

theorem IsLastOwned.overlay?_withoutIdle (hlast : image.IsLastOwned last) :
    image.withoutIdle.overlay? = image.tail? last :=
  hlast.withoutIdle.overlay?_eq_iff.2 fun _ _ hh hidle => absurd hidle (mem_withoutIdle.1 hh).2

theorem overlay?_congr_perm (hdata : other.data = image.data)
    (hperm : other.sections.headers.Perm image.sections.headers) :
    other.overlay? = image.overlay? := by
  have hle : ∀ n, other.sectionsEnd ≤ n ↔ image.sectionsEnd ≤ n := by
    intro n
    simp only [sectionsEnd_le_iff, hperm.mem_iff]
  have hend : other.sectionsEnd = image.sectionsEnd :=
    Nat.le_antisymm ((hle _).2 (Nat.le_refl _)) ((hle _).1 (Nat.le_refl _))
  rw [overlay?, overlay?, hend, hdata]

/-- The overlay does not depend on the order of the sections, and it would be what follows the last
owned byte if there were no idle sections. As it is, it is that exactly if nothing follows, or no
idle section ends behind that byte. -/
theorem overlay?_eq_tail?_iff (image : Image)
    (hsome : ∃ h ∈ image.sections.headers, ¬ h.IsIdle image.data) :
    ∃ last, image.IsLastOwned last ∧ image.withoutIdle.overlay? = image.tail? last ∧
      (image.overlay? = image.tail? last ↔
        (last + 1 < image.data.size →
          ∀ h ∈ image.sections.headers, h.IsIdle image.data → h.fileEnd ≤ last + 1)) ∧
      ∀ other : Image, other.data = image.data →
        other.sections.headers.Perm image.sections.headers → other.overlay? = image.overlay? := by
  obtain ⟨last, hlast⟩ := exists_isLastOwned hsome
  exact ⟨last, hlast, hlast.overlay?_withoutIdle, hlast.overlay?_eq_iff,
    fun _ => overlay?_congr_perm⟩

/-! ### A section without bytes -/

/-- An image with seven bytes behind its headers. The first four belong to its first section; the
second section has no bytes and states the place `start` for them. -/
def emptySectionAt (start : UInt32) : StoredImage :=
  { StoredImage.sample with
    coff := { StoredImage.sample.coff with sectionCount := 2 }
    sections := [SectionTable.placed 0x1000 4 282 4, SectionTable.placed 0x2000 16 start 0]
    rest := [1, 2, 3, 4, 5, 6, 7]
    machine_eq := StoredImage.sample.machine_eq
    sectionCount_eq := rfl
    optionalSize_eq := rfl }

theorem headers_emptySectionAt (start : UInt32) :
    ((emptySectionAt start).image {}).sections.headers =
      [SectionTable.placed 0x1000 4 282 4, SectionTable.placed 0x2000 16 start 0] :=
  StoredImage.headers_image _ _

theorem size_emptySectionAt (start : UInt32) :
    ((emptySectionAt start).image {}).data.size = 289 := by
  rw [StoredImage.data_image, StoredImage.size_file]
  rfl

theorem isLastOwned_emptySectionAt (start : UInt32) :
    ((emptySectionAt start).image {}).IsLastOwned 285 := by
  have hheaders := headers_emptySectionAt start
  have hsize := size_emptySectionAt start
  constructor
  · rw [IsOwned, hheaders]
    exact ⟨_, List.mem_cons_self, by omega, by decide, by decide⟩
  · intro i hi
    rw [IsOwned, hheaders] at hi
    obtain ⟨h, hh, -, hstart, hend⟩ := hi
    rcases List.mem_pair.1 hh with rfl | rfl
    · exact Nat.le_of_lt_succ hend
    · exact absurd hend (Nat.not_lt.2 hstart)

theorem tail?_emptySectionAt (start : UInt32) :
    ((emptySectionAt start).image {}).tail? 285 = some ⟨#[5, 6, 7]⟩ := by
  have hsize := size_emptySectionAt start
  rw [StoredImage.data_image] at hsize
  -- four of the seven bytes belong to the first section
  have hrest : (emptySectionAt start).file.Holds 282 ([1, 2, 3, 4] ++ [5, 6, 7]) :=
    (emptySectionAt start).holds_rest
  have htail : (emptySectionAt start).file.Holds 286 [5, 6, 7] := hrest.right
  have hcut := htail.extract (by omega)
  rw [tail?, StoredImage.data_image, hsize, if_pos (by decide)]
  exact congrArg some hcut

/-- An empty section that states no place does not count. -/
theorem overlay?_eq_tail?_iff_emptySection :
    ∃ image, parse (emptySectionAt 0).file {} = .ok image ∧
      (∃ h ∈ image.sections.headers, ¬ h.IsIdle image.data) ∧ image.IsLastOwned 285 ∧
      image.overlay? = some ⟨#[5, 6, 7]⟩ := by
  have hlast := isLastOwned_emptySectionAt 0
  have hsome : ∃ h ∈ ((emptySectionAt 0).image {}).sections.headers,
      ¬ h.IsIdle ((emptySectionAt 0).image {}).data := by
    obtain ⟨h, hh, howns⟩ := hlast.owned
    exact ⟨h, hh, fun hidle => hidle.not_owns howns⟩
  obtain ⟨last, hlast', -, hoverlay, -⟩ := overlay?_eq_tail?_iff _ hsome
  obtain rfl : last = 285 := Nat.le_antisymm (hlast.le_last _ hlast'.owned)
    (hlast'.le_last _ hlast.owned)
  refine ⟨_, StoredImage.parse_file _ {}, hsome, hlast, (hoverlay.2 fun _ h hh _ => ?_).trans
    (tail?_emptySectionAt 0)⟩
  rw [headers_emptySectionAt] at hh
  rcases List.mem_pair.1 hh with rfl | rfl <;> decide

/-- An empty section that states a place past the end of the file hides three bytes behind the
sections. -/
theorem appended_bytes_hidden :
    ∃ image, parse (emptySectionAt 0x1000).file {} = .ok image ∧ image.IsLastOwned 285 ∧
      image.tail? 285 = some ⟨#[5, 6, 7]⟩ ∧ image.overlay? = none := by
  refine ⟨_, StoredImage.parse_file _ {}, isLastOwned_emptySectionAt 0x1000,
    tail?_emptySectionAt 0x1000, if_neg fun hinside => ?_⟩
  have hsize := size_emptySectionAt 0x1000
  have hends := sectionsEnd_le_iff.1 (Nat.le_refl ((emptySectionAt 0x1000).image {}).sectionsEnd)
  rw [headers_emptySectionAt] at hends
  have hstated : 0x1000 ≤ ((emptySectionAt 0x1000).image {}).sectionsEnd :=
    hends (SectionTable.placed 0x2000 16 0x1000 0) (List.mem_cons_of_mem _ List.mem_cons_self)
  omega

end Image

end ImageTriage
