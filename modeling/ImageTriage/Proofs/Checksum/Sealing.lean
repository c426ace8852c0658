import ImageTriage.Proofs.Bytes.Overwrite
import ImageTriage.Proofs.Checksum.Sum
import ImageTriage.Proofs.Header.Chain

/-!
# Sealing an image

The checksum field of an image may be overwritten with any number: no header overlaps it, so the
result is the same image with another stated checksum (`Image.parse_withChecksum`). The checksum is
meant not to depend on the field, so that storing the computed checksum there seals the image. It
does not when the headers begin at an even offset. At an odd one the words of the field are added up
like all others, and no seal can be relied on (`Image.sealing_iff_even`).
-/

namespace ImageTriage

open Bytes

/-! ## Headers apart from the overwritten bytes -/

section Apart

variable {b : Bytes} {i start : Nat} {xs : List UInt8} (h : i + xs.length ≤ b.size)
include h

theorem DosHeader.parse_overwrite (hi : 64 ≤ i) : parse (b.overwrite i xs) = parse b := by
  unfold parse
  simp (disch := omega) only [size_overwrite h, Header.u16_overwrite h, Header.u32_overwrite h]

theorem CoffHeader.parse_overwrite (hi : start + 20 ≤ i) :
    parse (b.overwrite i xs) start = parse b start := by
  unfold parse
  simp (disch := omega) only [size_overwrite h, Header.u16_overwrite h, Header.u32_overwrite h]

theorem DataDirectories.parse_overwrite {count : Nat} (hi : i + xs.length ≤ start) :
    parse (b.overwrite i xs) start count = parse b start count := by
  unfold parse slotAt?
  simp (disch := omega) only [u32?_overwrite h]

theorem SectionHeader.parseAll_overwrite {count : UInt16} (hi : i + xs.length ≤ start) :
    parseAll (b.overwrite i xs) start count = parseAll b start count := by
  have hi' : ∀ k, i + xs.length ≤ start + k * size := fun k => by omega
  unfold parseAll
  simp only [size_overwrite h, slice?_overwrite h (.inr (hi' _))]

end Apart

/-! ## The header that states the checksum -/

section Restated

variable {b : Bytes} {start : Nat} (v : UInt32)

/-- The file with another number in its checksum field. -/
def Bytes.withChecksum (b : Bytes) (field : Nat) (v : UInt32) : Bytes :=
  b.overwrite field (leBytes 4 v.toNat)

theorem Bytes.room_withChecksum {field : Nat} (h : field + 4 ≤ b.size) :
    (leBytes 4 v.toNat).length = 4 ∧ field + (leBytes 4 v.toNat).length ≤ b.size := by
  rw [length_leBytes]
  exact ⟨rfl, h⟩

theorem Header.u32_withChecksum {field : Nat} (h : field + 4 ≤ b.size) :
    u32 (b.withChecksum field v) field = .ok v := by
  rw [u32, withChecksum, (holds_overwrite (room_withChecksum v h).2).u32?, orFault_some]

/-- The header with another checksum. -/
def OptionalHeader.restated (header : OptionalHeader) (v : UInt32) : OptionalHeader :=
  { header with checksum := v }

theorem OptionalHeader.parseFields_withChecksum (layout : OptionalLayout) (imageBase : UInt64)
    (h : start + 64 + 4 ≤ b.size) :
    parseFields (b.withChecksum (start + 64) v) start layout imageBase =
      (·.restated v) <$> parseFields b start layout imageBase := by
  obtain ⟨hlength, hroom⟩ := room_withChecksum v h
  have hfixed := layout.le_fixedSize
  have hstated := Header.u32_withChecksum v h
  have hbefore : Header.u32 b (start + 64) = .ok (UInt32.ofNat (b.le (start + 64) 4)) :=
    Header.u32_eq_ok h
  unfold withChecksum at hstated ⊢
  unfold parseFields checksumOffset sizeField
  simp (disch := omega) only [Header.u8_overwrite hroom, Header.u16_overwrite hroom,
    Header.u32_overwrite hroom, Header.u64_overwrite hroom, hstated, hbefore, map_bind, map_pure,
    ok_bind]
  rfl

theorem OptionalHeader.parse_withChecksum {size : UInt16} (hlong : 96 ≤ size.toNat)
    (hfits : start + size.toNat ≤ b.size) :
    parse (b.withChecksum (start + 64) v) start size = (·.restated v) <$> parse b start size := by
  have hfields : ∀ layout imageBase,
      parseFields (b.withChecksum (start + 64) v) start layout imageBase =
        (·.restated v) <$> parseFields b start layout imageBase := fun layout imageBase =>
    parseFields_withChecksum v layout imageBase (by omega)
  obtain ⟨hlength, hroom⟩ := room_withChecksum v (show start + 64 + 4 ≤ b.size by omega)
  have hmagic : le (b.withChecksum (start + 64) v) start 2 = b.le start 2 := by
    rw [le, withChecksum, leNat?_overwrite hroom (by omega), le]
  have hsize : (b.withChecksum (start + 64) v).size = b.size := size_overwrite hroom
  rw [parse_eq_of_fits (by omega) hfits, parse_eq_of_fits (by omega) (by omega), hmagic]
  unfold withChecksum at hfields ⊢
  simp (disch := omega) only [Header.u32_overwrite hroom, Header.u64_overwrite hroom, hfields]
  split
  · split
    · rfl
    · simp only [map_bind]
  · split
    · split
      · rfl
      · simp only [map_bind]
    · rfl

theorem OptionalHeader.bounds_of_parse {size : UInt16} {header : OptionalHeader}
    (h : parse b start size = .ok header) : 96 ≤ size.toNat ∧ start + size.toNat ≤ b.size := by
  by_cases hstated : 2 ≤ size.toNat
  case neg =>
    rw [parse_of_unstated hstated] at h
    cases h
  by_cases hfits : start + size.toNat ≤ b.size
  case neg =>
    rw [parse_of_short hstated hfits] at h
    cases h
  refine ⟨?_, hfits⟩
  rw [parse_eq_of_fits hstated hfits] at h
  split at h
  · split at h
    · cases h
    · omega
  · split at h
    · split at h
      · cases h
      · omega
    · cases h

/-- The headers with another checksum. -/
def PeHeaders.restated (headers : PeHeaders) (v : UInt32) : PeHeaders :=
  { headers with optional := headers.optional.restated v }

theorem PeHeaders.marked_of_parse {headers : PeHeaders} (h : parse b start = .ok headers) :
    start + 4 ≤ b.size ∧ b.extract start (start + 4) = "PE\x00\x00".toUTF8 := by
  by_cases hfits : start + 4 ≤ b.size
  case neg =>
    rw [parse_of_short hfits] at h
    cases h
  by_cases hmark : b.extract start (start + 4) = "PE\x00\x00".toUTF8
  case neg =>
    rw [parse_of_unmarked hfits hmark] at h
    cases h
  exact ⟨hfits, hmark⟩

theorem PeHeaders.parse_withChecksum {headers : PeHeaders} (h : parse b start = .ok headers) :
    96 ≤ headers.coff.optionalSize.toNat ∧ start + 24 + 64 + 4 ≤ b.size ∧
      parse (b.withChecksum (start + 24 + 64) v) start = .ok (headers.restated v) := by
  obtain ⟨hfits, hmark⟩ := marked_of_parse h
  rw [parse_of_marked hfits hmark] at h
  obtain ⟨coff, hcoff, h⟩ := bind_eq_ok_iff.1 h
  obtain ⟨optional, hoptional, h⟩ := bind_eq_ok_iff.1 h
  cases h
  obtain ⟨hlong, hin⟩ := OptionalHeader.bounds_of_parse hoptional
  have hfield : start + 24 + 64 + 4 ≤ b.size := by omega
  refine ⟨hlong, hfield, ?_⟩
  have hrestated := OptionalHeader.parse_withChecksum v hlong hin
  obtain ⟨hlength, hroom⟩ := room_withChecksum v hfield
  have hfixed := optional.layout.le_fixedSize
  unfold withChecksum at hrestated ⊢
  rw [parse_of_marked (by rw [size_overwrite hroom]; exact hfits)
    (by rw [extract_overwrite hroom (by omega)]; exact hmark),
    CoffHeader.parse_overwrite hroom (by omega), hcoff, ok_bind, hrestated, hoptional]
  change Except.ok _ = Except.ok _
  -- the table of directories begins behind the fixed part, and that behind the field
  rw [DataDirectories.parse_overwrite hroom]
  · rfl
  · change _ ≤ start + 24 + optional.layout.fixedSize
    omega

end Restated

/-! ## Two checksums -/

section Checksum

variable {b : Bytes} {field k : Nat} (hfits : field + 4 ≤ b.size) (v w : UInt32)
include hfits

theorem Bytes.getElem?_withChecksum_of_apart (hk : k < field ∨ field + 4 ≤ k) :
    (b.withChecksum field v)[k]? = b[k]? := by
  obtain ⟨hlength, hroom⟩ := room_withChecksum v hfits
  exact getElem?_overwrite hroom (by omega)

theorem Bytes.getElem?_withChecksum (hk : k < 4) :
    (b.withChecksum field v)[field + k]? = (leBytes 4 v.toNat)[k]? := by
  obtain ⟨hlength, hroom⟩ := room_withChecksum v hfits
  exact holds_iff_getElem?.1 (holds_overwrite hroom) k (by omega)

theorem Bytes.size_withChecksum : (b.withChecksum field v).size = b.size :=
  size_overwrite (room_withChecksum v hfits).2

/-- The words of a field at an even offset are left out. -/
theorem Checksum.compute_withChecksum (heven : field % 2 = 0) :
    compute (b.withChecksum field v) field = compute b field := by
  rw [compute_eq_around, compute_eq_around, size_withChecksum hfits, total_congr]
  intro k _ hparity hlow hhigh
  rw [wordAt, getElem?_withChecksum_of_apart hfits v (by omega),
    getElem?_withChecksum_of_apart hfits v (by omega), wordAt]

/-- The words of a field at an odd offset are not. -/
theorem Checksum.compute_withChecksum_ne (hodd : field % 2 = 1) :
    compute (b.withChecksum field 1) field ≠ compute (b.withChecksum field 0) field := by
  have hzero : leBytes 4 (0 : UInt32).toNat = [0, 0, 0, 0] := by decide
  have hone : leBytes 4 (1 : UInt32).toNat = [1, 0, 0, 0] := by decide
  refine compute_ne_of_flip (fun k hk => ?_) ?_ ?_ hodd ?_
  · by_cases hapart : k < field ∨ field + 4 ≤ k
    · rw [getElem?_withChecksum_of_apart hfits 1 hapart,
        getElem?_withChecksum_of_apart hfits 0 hapart]
    · obtain ⟨j, rfl⟩ : ∃ j, k = field + (j + 1) := ⟨k - field - 1, by omega⟩
      rw [getElem?_withChecksum hfits 1 (by omega), getElem?_withChecksum hfits 0 (by omega),
        hone, hzero, List.getElem?_cons_succ, List.getElem?_cons_succ]
  · have hbyte := getElem?_withChecksum hfits 0 (show 0 < 4 by decide)
    rwa [hzero] at hbyte
  · have hbyte := getElem?_withChecksum hfits 1 (show 0 < 4 by decide)
    rwa [hone] at hbyte
  · rw [size_withChecksum hfits, size_withChecksum hfits]

end Checksum

/-! ## The whole image -/

namespace Image

variable {b : Bytes} {limits : Limits} {image : Image}

/-- The image with another number in its checksum field. -/
def restated (image : Image) (v : UInt32) : Image where
  toPeHeaders := image.toPeHeaders.restated v
  data := image.data.withChecksum image.checksumOffset v
  dos := image.dos
  sections := image.sections
  limits := image.limits

theorem checksumOffset_eq (image : Image) :
    image.checksumOffset = image.dos.headerOffset.toNat + 24 + 64 := rfl

/-- Of an image that was read, the checksum field alone may be overwritten, with any number. -/
theorem parse_withChecksum (h : parse b limits = .ok image) (v : UInt32) :
    image.data = b ∧ image.checksumOffset + 4 ≤ b.size ∧
      parse (b.withChecksum image.checksumOffset v) limits = .ok (image.restated v) := by
  obtain ⟨dos, hdos, h⟩ := bind_eq_ok_iff.1 h
  obtain ⟨headers, hheaders, h⟩ := bind_eq_ok_iff.1 h
  obtain ⟨declared, hdeclared, h⟩ := bind_eq_ok_iff.1 h
  cases h
  obtain ⟨hlong, hfits, hrestated⟩ := PeHeaders.parse_withChecksum v hheaders
  refine ⟨rfl, hfits, ?_⟩
  obtain ⟨hlength, hroom⟩ := room_withChecksum v hfits
  have hsections : dos.headerOffset.toNat + 24 + 64 + (leBytes 4 v.toNat).length ≤
      dos.headerOffset.toNat + headers.sectionsOffset := by
    change _ ≤ dos.headerOffset.toNat + (24 + headers.coff.optionalSize.toNat)
    omega
  have hdos' : DosHeader.parse (b.withChecksum (dos.headerOffset.toNat + 24 + 64) v) = .ok dos := by
    rw [withChecksum, DosHeader.parse_overwrite hroom (by omega), hdos]
  have hdeclared' : SectionHeader.parseAll (b.withChecksum (dos.headerOffset.toNat + 24 + 64) v)
      (dos.headerOffset.toNat + headers.sectionsOffset) headers.coff.sectionCount =
        .ok declared := by
    rw [withChecksum, SectionHeader.parseAll_overwrite hroom hsections, hdeclared]
  exact bind_eq_ok_iff.2 ⟨dos, hdos', bind_eq_ok_iff.2 ⟨headers.restated v, hrestated,
    bind_eq_ok_iff.2 ⟨declared, hdeclared', rfl⟩⟩⟩

theorem computedChecksum_restated (hfits : image.checksumOffset + 4 ≤ image.data.size)
    (heven : image.dos.headerOffset.toNat % 2 = 0) (v : UInt32) :
    (image.restated v).computedChecksum = image.computedChecksum := by
  have hfield : image.checksumOffset % 2 = 0 := by
    rw [checksumOffset_eq]
    omega
  exact Checksum.compute_withChecksum hfits v hfield

/-- The checksum of an image does not depend on what it states exactly if its headers begin at an
even offset; and then the image can be sealed. -/
theorem sealing_iff_even (h : parse b limits = .ok image) :
    (∀ v, parse (b.withChecksum image.checksumOffset v) limits = .ok (image.restated v)) ∧
      ((∀ v, (image.restated v).computedChecksum = image.computedChecksum) ↔
        image.dos.headerOffset.toNat % 2 = 0) ∧
      (image.dos.headerOffset.toNat % 2 = 0 →
        (image.restated image.computedChecksum).isChecksumValid) := by
  obtain ⟨hdata, hfits, -⟩ := parse_withChecksum h 0
  rw [← hdata] at hfits
  refine ⟨fun v => (parse_withChecksum h v).2.2, ⟨fun hsame => ?_, ?_⟩, fun heven => ?_⟩
  · rcases Nat.mod_two_eq_zero_or_one image.dos.headerOffset.toNat with heven | hodd
    · exact heven
    · have hfield : image.checksumOffset % 2 = 1 := by
        rw [checksumOffset_eq]
        omega
      exact absurd ((hsame 1).trans (hsame 0).symm) (Checksum.compute_withChecksum_ne hfits hfield)
  · exact computedChecksum_restated hfits
  · have hsealed : (image.restated image.computedChecksum).optional.checksum =
        (image.restated image.computedChecksum).computedChecksum :=
      (computedChecksum_restated hfits heven _).symm
    rw [isChecksumValid, hsealed, beq_self_eq_true, Bool.or_true]

/-- An image without sections whose headers begin at offset `start`, inside the DOS header. -/
def headersAt (start : Nat) : Bytes :=
  ⟨#[0x4D, 0x5A] ++ Array.replicate (start - 2) 0 ++ #[0x50, 0x45] ++ Array.replicate 18 0 ++
    #[96, 0, 0, 0, 0x0B, 0x01] ++ Array.replicate (34 - start) 0 ++ #[UInt8.ofNat start] ++
    Array.replicate (start + 59) 0⟩

/-- At an even offset the seal holds. -/
theorem sealing_iff_even_headersAt :
    ∃ image, parse (headersAt 4) {} = .ok image ∧
      parse ((headersAt 4).withChecksum image.checksumOffset image.computedChecksum) {} =
        .ok (image.restated image.computedChecksum) ∧
      (image.restated image.computedChecksum).isChecksumValid := by
  obtain ⟨image, hparse, heven⟩ := exists_ok_of_any (x := parse (headersAt 4) {})
    (p := fun image => image.dos.headerOffset.toNat % 2 == 0) (by decide +kernel)
  obtain ⟨hrestated, -, hsealed⟩ := sealing_iff_even hparse
  exact ⟨image, hparse, hrestated _, hsealed (by simpa using heven)⟩

/-- At an odd offset the sealed image states a checksum that it does not have. -/
theorem seal_broken_at_odd_offset :
    ∃ image, parse (headersAt 5) {} = .ok image ∧ image.computedChecksum = 0x1616 ∧
      ∃ sealed, parse ((headersAt 5).withChecksum image.checksumOffset 0x1616) {} = .ok sealed ∧
        sealed.computedChecksum = 0x2C2C ∧ sealed.isChecksumValid = false := by
  obtain ⟨image, hparse, hsums⟩ := exists_ok_of_any (x := parse (headersAt 5) {})
    (p := fun image => image.computedChecksum == 0x1616 &&
      (image.restated 0x1616).computedChecksum == 0x2C2C) (by decide +kernel)
  simp only [Bool.and_eq_true, beq_iff_eq] at hsums
  obtain ⟨hcomputed, hbroken⟩ := hsums
  obtain ⟨-, -, hsealed⟩ := parse_withChecksum hparse 0x1616
  have hstated : (image.restated 0x1616).optional.checksum = 0x1616 := rfl
  refine ⟨image, hparse, hcomputed, _, hsealed, hbroken, ?_⟩
  rw [isChecksumValid, hbroken, hstated]
  decide

end Image

end ImageTriage
