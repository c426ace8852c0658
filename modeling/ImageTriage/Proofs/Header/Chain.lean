import Mathlib.Data.List.Forall2
import ImageTriage.Image
import ImageTriage.Proofs.Bytes.Reading

/-!
# The chain of headers

A file is an image when its chain of headers is whole (`HeaderChain`): each link is long enough,
opens with the right mark, and leads to a next one that is in the file. The links are tested in
order, and a file that is no image is refused for the first link that is broken (`firstFault?`).

`Image.parse` reads some fifty fields on its way. None of them can fail on its own: each lemma below
shows that the tests at the head of a header cover all the fields of that header.
-/

namespace ImageTriage

open Bytes

variable {b : Bytes} {i : Nat}

/-! ## The fields that matter -/

namespace HeaderChain

/-- Where the image headers begin. -/
def start (b : Bytes) : Nat := b.le 60 4

/-- The number of sections. -/
def sectionCount (b : Bytes) : Nat := b.le (start b + 6) 2

/-- The size that the optional header states for itself. -/
def optionalSize (b : Bytes) : Nat := b.le (start b + 20) 2

/-- The first word of the optional header. -/
def magic (b : Bytes) : Nat := b.le (start b + 24) 2

/-- Where the section headers begin. -/
def sectionsStart (b : Bytes) : Nat := start b + 24 + optionalSize b

/-- The header of section `k`. -/
def sectionAt (b : Bytes) (k : Nat) : SectionHeader :=
  .ofBytes (b.extract (sectionsStart b + 40 * k) (sectionsStart b + 40 * k + 40))

/-- The number of bytes of the optional header before the data directories. -/
def fixedSize (b : Bytes) : Nat := if magic b = 0x10B then 96 else 112

/-- Where the data directories begin. -/
def directoriesStart (b : Bytes) : Nat := start b + 24 + fixedSize b

/-- The number of data directories that the optional header states. -/
def directoryCount (b : Bytes) : Nat := b.le (directoriesStart b - 4) 4

/-- Slot `k` of the data directories: a place and a size, both zero when fewer slots are stated or
when the file ends before this one does. -/
def slotAt (b : Bytes) (k : Nat) : Nat × Nat :=
  if k < directoryCount b ∧ directoriesStart b + 8 * k + 8 ≤ b.size then
    (b.le (directoriesStart b + 8 * k) 4, b.le (directoriesStart b + 8 * k + 4) 4)
  else (0, 0)

/-- A test of a file, and the fault of a file that fails it. -/
abbrev Link := Bool × Fault

/-- The fault of the first link that is broken. -/
def firstBroken? (links : List Link) : Option Fault := (links.find? (!·.1)).map (·.2)

/-- The links before the sections, in order. -/
def fixedLinks (b : Bytes) : List Link :=
  [(64 ≤ b.size, .truncatedHeader 64 b.size),
    (b.extract 0 2 = "MZ".toUTF8, .dosSignature),
    (start b + 4 ≤ b.size, .truncatedHeader (start b + 4) b.size),
    (b.extract (start b) (start b + 4) = "PE\x00\x00".toUTF8, .peSignature),
    (start b + 24 ≤ b.size, .truncatedHeader (start b + 24) b.size),
    (2 ≤ optionalSize b, .truncatedHeader (start b + 26) b.size),
    (sectionsStart b ≤ b.size, .truncatedHeader (sectionsStart b) b.size),
    (magic b = 0x10B ∨ magic b = 0x20B, .optionalMagic (UInt16.ofNat (magic b))),
    (magic b = 0x10B → 96 ≤ optionalSize b,
      .truncatedHeader (start b + 24 + 96) (sectionsStart b)),
    (magic b = 0x20B → 112 ≤ optionalSize b,
      .truncatedHeader (start b + 24 + 112) (sectionsStart b))]

/-- The link to the header of section `k`. -/
def sectionLink (b : Bytes) (k : Nat) : Link :=
  (sectionsStart b + 40 * (k + 1) ≤ b.size,
    .truncatedHeader (sectionsStart b + 40 * (k + 1)) b.size)

/-- The links of the chain, in order. -/
def links (b : Bytes) : List Link :=
  fixedLinks b ++ (List.range (sectionCount b)).map (sectionLink b)

/-- Why the file is no image: the fault of its first link that is broken. -/
def firstFault? (b : Bytes) : Option Fault := firstBroken? (links b)

end HeaderChain

open HeaderChain in
/-- The chain of headers is whole. -/
structure HeaderChain (b : Bytes) : Prop where
  dos_fits : 64 ≤ b.size
  dos_mark : b.extract 0 2 = "MZ".toUTF8
  signature_fits : start b + 4 ≤ b.size
  signature : b.extract (start b) (start b + 4) = "PE\x00\x00".toUTF8
  coff_fits : start b + 24 ≤ b.size
  optional_states : 2 ≤ optionalSize b
  optional_fits : start b + 24 + optionalSize b ≤ b.size
  layout : magic b = 0x10B ∧ 96 ≤ optionalSize b ∨ magic b = 0x20B ∧ 112 ≤ optionalSize b
  sections_fit : start b + 24 + optionalSize b + 40 * sectionCount b ≤ b.size

/-- The forty bytes from offset `i` are those of the section header. -/
structure SectionHeader.StandsAt (b : Bytes) (i : Nat) (h : SectionHeader) : Prop where
  rawName : ∀ k : Fin 8, b[i + k.val]? = some h.rawName[k]
  virtualSize : h.virtualSize.toNat = b.le (i + 8) 4
  virtualAddress : h.virtualAddress.toNat = b.le (i + 12) 4
  rawSize : h.rawSize.toNat = b.le (i + 16) 4
  rawOffset : h.rawOffset.toNat = b.le (i + 20) 4
  relocationOffset : h.relocationOffset.toNat = b.le (i + 24) 4
  lineNumberOffset : h.lineNumberOffset.toNat = b.le (i + 28) 4
  relocationCount : h.relocationCount.toNat = b.le (i + 32) 2
  lineNumberCount : h.lineNumberCount.toNat = b.le (i + 34) 2
  characteristics : h.characteristics.toNat = b.le (i + 36) 4

/-- The place and the size of a table, as numbers. -/
def DataDirectory.numbers (d : DataDirectory) : Nat × Nat := (d.address.toNat, d.size.toNat)

/-! ## The DOS header -/

theorem le_two (h : i + 2 ≤ b.size) : b.le i 2 = b[i].toNat + 256 * b[i + 1].toNat := by
  have hlow : b[i]? = some b[i] := getElem?_pos b i (by omega)
  have hhigh : b[i + 1]? = some b[i + 1] := getElem?_pos b (i + 1) (by omega)
  simp [le, leNat?, hlow, hhigh]

theorem ofNat_le_two_eq_iff {word : UInt16} :
    UInt16.ofNat (b.le i 2) = word ↔ b.le i 2 = word.toNat := by
  rw [← UInt16.toNat_inj, toNat_ofNat_le_two]

/-- The letters `MZ` are the mark of the DOS header, read as one word. -/
theorem ofNat_le_eq_mark_iff (h : 0 + 2 ≤ b.size) :
    UInt16.ofNat (b.le 0 2) = DosHeader.mark ↔ b.extract 0 2 = "MZ".toUTF8 := by
  have hbytes : b.extract 0 2 = ⟨#[b[0], b[0 + 1]]⟩ := ByteArray.extract_add_two h
  have hletters : "MZ".toUTF8 = ⟨#[0x4D, 0x5A]⟩ := by decide
  have hlow := b[0].toNat_lt
  have hhigh := b[0 + 1].toNat_lt
  rw [hbytes, hletters, ofNat_le_two_eq_iff, le_two h]
  simp only [DosHeader.mark, ByteArray.mk.injEq, Array.mk.injEq, List.cons.injEq, and_true,
    ← UInt8.toNat_inj]
  constructor
  · intro hsum
    have hvalue : b[0].toNat + 256 * b[0 + 1].toNat = 0x5A4D := hsum
    change b[0].toNat = 0x4D ∧ b[0 + 1].toNat = 0x5A
    omega
  · rintro ⟨h0, h1⟩
    rw [h0, h1]
    decide

namespace DosHeader

theorem parse_of_short (h : ¬ 64 ≤ b.size) : parse b = .error (.truncatedHeader 64 b.size) := by
  have hshort : b.size < size := by unfold size; omega
  rw [parse, if_pos hshort]
  rfl

theorem parse_of_unmarked (h : 64 ≤ b.size) (hmark : b.extract 0 2 ≠ "MZ".toUTF8) :
    parse b = .error .dosSignature := by
  have hlong : ¬ b.size < size := by unfold size; omega
  have hword := mt (ofNat_le_eq_mark_iff (by omega)).1 hmark
  simp [parse, hlong, Header.u16_eq_ok (show 0 + 2 ≤ b.size by omega), hword]

theorem exists_parse (h : 64 ≤ b.size) (hmark : b.extract 0 2 = "MZ".toUTF8) :
    ∃ dos, parse b = .ok dos ∧ dos.headerOffset.toNat = HeaderChain.start b := by
  have hlong : ¬ b.size < size := by unfold size; omega
  have hword := (ofNat_le_eq_mark_iff (by omega)).2 hmark
  rw [parse, if_neg hlong]
  simp (disch := omega) only [Header.u16_eq_ok, Header.u32_eq_ok, ok_bind, pure_eq_ok, hword,
    ne_eq, not_true_eq_false, if_false]
  exact ⟨_, rfl, toNat_ofNat_le_four b 60⟩

end DosHeader

/-! ## The COFF header -/

namespace CoffHeader

variable {start : Nat}

theorem parse_of_short (h : ¬ start + 20 ≤ b.size) :
    parse b start = .error (.truncatedHeader (start + 20) b.size) := by
  have hshort : b.size < start + size := by unfold size; omega
  rw [parse, if_pos hshort]
  rfl

theorem exists_parse (h : start + 20 ≤ b.size) :
    ∃ coff, parse b start = .ok coff ∧ coff.sectionCount.toNat = b.le (start + 2) 2 ∧
      coff.optionalSize.toNat = b.le (start + 16) 2 := by
  have hlong : ¬ b.size < start + size := by unfold size; omega
  rw [parse, if_neg hlong]
  simp (disch := omega) only [Header.u16_eq_ok, Header.u32_eq_ok, ok_bind, pure_eq_ok]
  exact ⟨_, rfl, toNat_ofNat_le_two b _, toNat_ofNat_le_two b _⟩

end CoffHeader

/-! ## The optional header -/

namespace OptionalHeader

variable {start : Nat} {size : UInt16}

theorem exists_sizeField {wide : Bool} {k : Nat}
    (h : start + 72 + (if wide then 8 else 4) * (k + 1) ≤ b.size) :
    ∃ v, sizeField b start wide k = .ok v := by
  unfold sizeField
  cases wide with
  | false =>
    simp only [Bool.false_eq_true, if_false] at h ⊢
    rw [Header.u32_eq_ok (by omega)]
    exact ⟨_, rfl⟩
  | true =>
    simp only [if_true] at h ⊢
    rw [Header.u64_eq_ok (by omega)]
    exact ⟨_, rfl⟩

/-- A header that holds the fixed part of its layout has all its fields; the last of them is the
number of directories. -/
theorem exists_parseFields (layout : OptionalLayout) (imageBase : UInt64)
    (h : start + layout.fixedSize ≤ b.size) :
    ∃ header, parseFields b start layout imageBase = .ok header ∧ header.layout = layout ∧
      header.directoryCount.toNat = b.le (start + layout.fixedSize - 4) 4 := by
  have hfixed := layout.le_fixedSize
  have hlast : start + layout.fixedSize - 8 + 4 = start + layout.fixedSize - 4 := by omega
  have hsize : ∀ k < 4, ∃ v, sizeField b start layout.is64Bit k = .ok v := by
    intro k hk
    refine exists_sizeField (Nat.le_trans ?_ h)
    cases layout <;> simp [OptionalLayout.fixedSize, OptionalLayout.is64Bit] <;> omega
  obtain ⟨_, hsize0⟩ := hsize 0 (by omega)
  obtain ⟨_, hsize1⟩ := hsize 1 (by omega)
  obtain ⟨_, hsize2⟩ := hsize 2 (by omega)
  obtain ⟨_, hsize3⟩ := hsize 3 (by omega)
  unfold parseFields checksumOffset
  simp (disch := omega) only [Header.u8_eq_ok, Header.u16_eq_ok, Header.u32_eq_ok, hsize0, hsize1,
    hsize2, hsize3, ok_bind, pure_eq_ok, hlast]
  exact ⟨_, rfl, rfl, toNat_ofNat_le_four b _⟩

theorem parse_of_unstated (h : ¬ 2 ≤ size.toNat) :
    parse b start size = .error (.truncatedHeader (start + 2) b.size) := by
  rw [parse, if_pos (by omega)]
  rfl

theorem parse_of_short (hstated : 2 ≤ size.toNat) (h : ¬ start + size.toNat ≤ b.size) :
    parse b start size = .error (.truncatedHeader (start + size.toNat) b.size) := by
  have hnot : ¬ size.toNat < 2 := by omega
  have hshort : b.size < start + size.toNat := by omega
  simp [parse, hnot, hshort]

variable (hstated : 2 ≤ size.toNat) (hfits : start + size.toNat ≤ b.size)
include hstated hfits

/-- Once the header is in the file, its first word decides the rest. -/
theorem parse_eq_of_fits :
    parse b start size =
      if b.le start 2 = 0x10B then
        if size.toNat < 96 then .error (.truncatedHeader (start + 96) (start + size.toNat))
        else do
          let baseOfData ← Header.u32 b (start + 24)
          let imageBase ← Header.u32 b (start + 28)
          parseFields b start (.pe32 baseOfData) imageBase.toUInt64
      else if b.le start 2 = 0x20B then
        if size.toNat < 112 then .error (.truncatedHeader (start + 112) (start + size.toNat))
        else do
          let imageBase ← Header.u64 b (start + 24)
          parseFields b start .pe32Plus imageBase
      else .error (.optionalMagic (UInt16.ofNat (b.le start 2))) := by
  have hnot : ¬ size.toNat < 2 := by omega
  have hlong : ¬ b.size < start + size.toNat := by omega
  simp only [parse, if_neg hnot, if_neg hlong, Header.u16_eq_ok (show start + 2 ≤ b.size by omega),
    ok_bind, throw_eq_error, OptionalLayout.magic, ofNat_le_two_eq_iff, UInt16.reduceToNat]
  split <;> split <;> rfl

theorem parse_of_magic (h32 : b.le start 2 ≠ 0x10B) (h64 : b.le start 2 ≠ 0x20B) :
    parse b start size = .error (.optionalMagic (UInt16.ofNat (b.le start 2))) := by
  rw [parse_eq_of_fits hstated hfits, if_neg h32, if_neg h64]

theorem parse_of_pe32_short (h32 : b.le start 2 = 0x10B) (hshort : ¬ 96 ≤ size.toNat) :
    parse b start size = .error (.truncatedHeader (start + 96) (start + size.toNat)) := by
  rw [parse_eq_of_fits hstated hfits, if_pos h32, if_pos (by omega)]

theorem parse_of_pe32Plus_short (h64 : b.le start 2 = 0x20B) (hshort : ¬ 112 ≤ size.toNat) :
    parse b start size = .error (.truncatedHeader (start + 112) (start + size.toNat)) := by
  rw [parse_eq_of_fits hstated hfits, if_neg (by omega), if_pos h64, if_pos (by omega)]

theorem exists_parse (hlayout : b.le start 2 = 0x10B ∧ 96 ≤ size.toNat ∨
    b.le start 2 = 0x20B ∧ 112 ≤ size.toNat) : ∃ header, parse b start size = .ok header ∧
      header.layout.fixedSize = (if b.le start 2 = 0x10B then 96 else 112) ∧
      header.directoryCount.toNat = b.le (start + header.layout.fixedSize - 4) 4 := by
  rw [parse_eq_of_fits hstated hfits]
  rcases hlayout with ⟨h32, hlong⟩ | ⟨h64, hlong⟩
  · rw [if_pos h32, if_pos h32, if_neg (by omega), Header.u32_eq_ok (by omega),
      Header.u32_eq_ok (by omega)]
    obtain ⟨header, hparse, hheader, hcount⟩ := exists_parseFields
      (.pe32 (UInt32.ofNat (b.le (start + 24) 4)))
      (UInt32.ofNat (b.le (start + 28) 4)).toUInt64 (show start + 96 ≤ b.size by omega)
    rw [← hheader] at hcount
    exact ⟨header, hparse, by rw [hheader]; rfl, hcount⟩
  · have h32 : ¬ b.le start 2 = 0x10B := by omega
    rw [if_neg h32, if_neg h32, if_pos h64, if_neg (by omega), Header.u64_eq_ok (by omega)]
    obtain ⟨header, hparse, hheader, hcount⟩ := exists_parseFields .pe32Plus
      (UInt64.ofNat (b.le (start + 24) 8)) (show start + 112 ≤ b.size by omega)
    rw [← hheader] at hcount
    exact ⟨header, hparse, by rw [hheader]; rfl, hcount⟩

end OptionalHeader

/-! ## The data directories -/

namespace DataDirectories

theorem numbers_slotAt? (b : Bytes) (i : Nat) :
    ((slotAt? b i).getD ⟨0, 0⟩).numbers =
      if i + 8 ≤ b.size then (b.le i 4, b.le (i + 4) 4) else (0, 0) := by
  split
  · next h =>
    have hslot : slotAt? b i =
        some ⟨UInt32.ofNat (b.le i 4), UInt32.ofNat (b.le (i + 4) 4)⟩ := by
      rw [slotAt?, u32?_eq_some (by omega), u32?_eq_some (by omega)]
      rfl
    rw [hslot, Option.getD_some, DataDirectory.numbers, toNat_ofNat_le_four, toNat_ofNat_le_four]
  · next h =>
    have hslot : slotAt? b i = none := by
      rw [slotAt?, u32?_eq_none (i := i + 4) (by omega)]
      cases b.u32? i <;> rfl
    rw [hslot]
    rfl

/-- The sixteen slots, on the bytes. -/
theorem map_numbers_parse (b : Bytes) (start count : Nat) :
    (parse b start count).toList.map DataDirectory.numbers = (List.range 16).map fun k =>
      if k < count ∧ start + 8 * k + 8 ≤ b.size then
        (b.le (start + 8 * k) 4, b.le (start + 8 * k + 4) 4)
      else (0, 0) := by
  refine List.ext_getElem (by simp) fun k hk _ => ?_
  simp only [parse, List.getElem_map, Vector.getElem_toList, Vector.getElem_ofFn,
    List.getElem_range, ite_and]
  split
  · exact numbers_slotAt? b (start + 8 * k)
  · rfl

end DataDirectories

/-! ## From the signature to the directories -/

namespace PeHeaders

variable {start : Nat}

theorem parse_of_short (h : ¬ start + 4 ≤ b.size) :
    parse b start = .error (.truncatedHeader (start + 4) b.size) := by
  have hnone : b.slice? start coffOffset = none :=
    slice?_eq_none_iff.2 (by unfold coffOffset; omega)
  rw [parse, hnone]
  rfl

theorem parse_of_unmarked (h : start + 4 ≤ b.size)
    (hmark : b.extract start (start + 4) ≠ "PE\x00\x00".toUTF8) :
    parse b start = .error .peSignature := by
  have hsome : b.slice? start coffOffset = some (b.extract start (start + 4)) := slice?_eq_some h
  have hletters : b.extract start (start + 4) ≠ signature := hmark
  simp only [parse, hsome, orFault_some, ok_bind, if_pos hletters]
  rfl

theorem parse_of_marked (h : start + 4 ≤ b.size)
    (hmark : b.extract start (start + 4) = "PE\x00\x00".toUTF8) :
    parse b start = do
      let coff ← CoffHeader.parse b (start + 4)
      let optional ← OptionalHeader.parse b (start + 24) coff.optionalSize
      return {
        coff
        optional
        directories := DataDirectories.parse b (start + 24 + optional.layout.fixedSize)
          optional.directoryCount.toNat } := by
  have hsome : b.slice? start coffOffset = some (b.extract start (start + 4)) := slice?_eq_some h
  have hletters : ¬ b.extract start (start + 4) ≠ signature := fun hne => hne hmark
  simp only [parse, hsome, orFault_some, ok_bind, if_neg hletters]
  rfl

/-- Once the COFF header is in the file, the optional header decides the rest. -/
theorem parse_of_coff (hfits : start + 24 ≤ b.size)
    (hmark : b.extract start (start + 4) = "PE\x00\x00".toUTF8) : ∃ coff : CoffHeader,
    coff.sectionCount.toNat = b.le (start + 6) 2 ∧ coff.optionalSize.toNat = b.le (start + 20) 2 ∧
      parse b start = do
        let optional ← OptionalHeader.parse b (start + 24) coff.optionalSize
        return {
          coff
          optional
          directories := DataDirectories.parse b (start + 24 + optional.layout.fixedSize)
            optional.directoryCount.toNat } := by
  have hcoff : start + 4 + 20 ≤ b.size := by omega
  obtain ⟨coff, hcoff, hcount, hsize⟩ := CoffHeader.exists_parse hcoff
  refine ⟨coff, hcount, hsize, ?_⟩
  rw [parse_of_marked (by omega) hmark, hcoff, ok_bind]

end PeHeaders

/-! ## The section headers -/

namespace SectionHeader

variable {start : Nat} {count : UInt16}

theorem standsAt_ofBytes (h : i + 40 ≤ b.size) :
    StandsAt b i (ofBytes (b.extract i (i + 40))) := by
  have hwide : ∀ k, k + 4 ≤ 40 →
      ((u32? (b.extract i (i + 40)) k).getD 0).toNat = b.le (i + k) 4 := by
    intro k hk
    rw [u32?_extract h (by omega), u32?_eq_some (by omega), Option.getD_some, toNat_ofNat_le_four]
  have hnarrow : ∀ k, k + 2 ≤ 40 →
      ((u16? (b.extract i (i + 40)) k).getD 0).toNat = b.le (i + k) 2 := by
    intro k hk
    rw [u16?_extract h (by omega), u16?_eq_some (by omega), Option.getD_some, toNat_ofNat_le_two]
  have hname : ∀ k : Fin 8, b[i + k.val]? =
      some (ofBytes (b.extract i (i + 40))).rawName[k] := by
    intro k
    have hk := k.isLt
    have hbyte : u8? (b.extract i (i + 40)) k.val = b[i + k.val]? :=
      getElem?_extract h (by omega)
    have hget : (ofBytes (b.extract i (i + 40))).rawName[k] =
        (u8? (b.extract i (i + 40)) k.val).getD 0 := Vector.getElem_ofFn _
    rw [hget, hbyte, getElem?_pos b (i + k.val) (by omega), Option.getD_some]
  exact {
    rawName := hname
    virtualSize := hwide 8 (by omega)
    virtualAddress := hwide 12 (by omega)
    rawSize := hwide 16 (by omega)
    rawOffset := hwide 20 (by omega)
    relocationOffset := hwide 24 (by omega)
    lineNumberOffset := hwide 28 (by omega)
    relocationCount := hnarrow 32 (by omega)
    lineNumberCount := hnarrow 34 (by omega)
    characteristics := hwide 36 (by omega) }

theorem readAt_of_fits {k : Nat} (h : start + 40 * (k + 1) ≤ b.size) :
    (do
      let raw ← orFault (.truncatedHeader (start + k * size + size) b.size)
        (b.slice? (start + k * size) size)
      return ofBytes raw) =
      Except.ok (ofBytes (b.extract (start + 40 * k) (start + 40 * k + 40))) := by
  have hslice : b.slice? (start + k * size) size =
      some (b.extract (start + 40 * k) (start + 40 * k + 40)) := by
    rw [slice?_eq_some (by unfold size; omega), Nat.mul_comm]
    rfl
  rw [hslice, orFault_some, ok_bind, pure_eq_ok]

theorem parseAll_of_fits (h : start + 40 * count.toNat ≤ b.size) :
    parseAll b start count = .ok ((List.range count.toNat).map fun k =>
      ofBytes (b.extract (start + 40 * k) (start + 40 * k + 40))) := by
  refine mapM_eq_ok fun k hk => readAt_of_fits ?_
  have hk := List.mem_range.1 hk
  omega

/-- The fault of the first header that is not in the file. -/
theorem parseAll_of_short {k : Nat} (hk : k < count.toNat) (hfits : start + 40 * k ≤ b.size)
    (hshort : ¬ start + 40 * (k + 1) ≤ b.size) :
    parseAll b start count = .error (.truncatedHeader (start + 40 * (k + 1)) b.size) := by
  have hsplit : List.range count.toNat =
      List.range k ++ k :: (List.range (count.toNat - k - 1)).map (k + 1 + ·) := by
    calc List.range count.toNat = List.range (k + 1 + (count.toNat - k - 1)) := by
          congr 1
          omega
      _ = List.range k ++ k :: (List.range (count.toNat - k - 1)).map (k + 1 + ·) := by
          rw [List.range_add, List.range_succ, List.append_assoc, List.singleton_append]
  rw [parseAll, hsplit]
  refine mapM_eq_error (fun j hj => readAt_of_fits ?_) ?_
  · have hj := List.mem_range.1 hj
    omega
  · have hnone : b.slice? (start + k * size) size = none :=
      slice?_eq_none_iff.2 (by unfold size; omega)
    have hend : start + k * size + size = start + 40 * (k + 1) := by unfold size; omega
    simp only [hnone, orFault_none, error_bind, hend]

end SectionHeader

/-! ## The whole chain -/

namespace HeaderChain

@[simp] theorem firstBroken?_cons_eq_none {p : Prop} [Decidable p] {fault : Fault}
    {links : List Link} :
    firstBroken? ((decide p, fault) :: links) = none ↔ p ∧ firstBroken? links = none := by
  by_cases hp : p <;> simp [firstBroken?, hp]

theorem firstBroken?_cons_eq_some {p : Prop} [Decidable p] {fault first : Fault}
    {links : List Link} :
    firstBroken? ((decide p, fault) :: links) = some first ↔
      ¬ p ∧ first = fault ∨ p ∧ firstBroken? links = some first := by
  by_cases hp : p <;> simp [firstBroken?, hp, eq_comm]

theorem firstBroken?_sections_eq_none {n : Nat} :
    firstBroken? ((List.range n).map (sectionLink b)) = none ↔
      ∀ k < n, sectionsStart b + 40 * (k + 1) ≤ b.size := by
  simp [firstBroken?, sectionLink]

theorem firstBroken?_sections_eq_some {n : Nat} {first : Fault} :
    firstBroken? ((List.range n).map (sectionLink b)) = some first ↔
      ∃ k < n, first = .truncatedHeader (sectionsStart b + 40 * (k + 1)) b.size ∧
        ¬ sectionsStart b + 40 * (k + 1) ≤ b.size ∧
          ∀ j < k, sectionsStart b + 40 * (j + 1) ≤ b.size := by
  simp only [firstBroken?, List.find?_map, Option.map_map, Option.map_eq_some_iff,
    List.find?_range_eq_some, sectionLink, Function.comp_apply, List.mem_range,
    Bool.not_eq_true', decide_eq_false_iff_not, Bool.not_not,
    decide_eq_true_eq]
  constructor
  · rintro ⟨k, ⟨hshort, hk, hfits⟩, rfl⟩
    exact ⟨k, hk, rfl, hshort, hfits⟩
  · rintro ⟨k, hk, rfl, hshort, hfits⟩
    exact ⟨k, ⟨hshort, hk, hfits⟩, rfl⟩

theorem firstFault?_eq_none_iff : firstFault? b = none ↔ HeaderChain b := by
  simp only [firstFault?, links, fixedLinks, List.cons_append, List.nil_append,
    firstBroken?_cons_eq_none, firstBroken?_sections_eq_none]
  constructor
  · rintro ⟨hdos, hmz, hpe, hmark, hcoff, hstated, hoptional, hmagic, h32, h64, hsections⟩
    refine ⟨hdos, hmz, hpe, hmark, hcoff, hstated, hoptional, ?_, ?_⟩
    · exact hmagic.imp (fun h => ⟨h, h32 h⟩) fun h => ⟨h, h64 h⟩
    · change sectionsStart b + 40 * sectionCount b ≤ b.size
      match hcount : sectionCount b with
      | 0 => exact hoptional
      | n + 1 => exact hsections n (by omega)
  · intro h
    refine ⟨h.dos_fits, h.dos_mark, h.signature_fits, h.signature, h.coff_fits, h.optional_states,
      h.optional_fits, h.layout.imp And.left And.left, ?_, ?_, ?_⟩
    · intro h32
      have := h.layout
      omega
    · intro h64
      have := h.layout
      omega
    · intro k hk
      have hfit := h.sections_fit
      unfold sectionsStart
      omega

end HeaderChain

namespace Image

open HeaderChain

variable {limits : Limits} {fault : Fault}

section Start

variable (hfits : 64 ≤ b.size) (hmark : b.extract 0 2 = "MZ".toUTF8)
include hfits hmark

/-- Past the DOS header, the image headers and the section headers decide. -/
theorem parse_of_dos (limits : Limits) : ∃ dos, parse b limits = do
    let headers ← PeHeaders.parse b (start b)
    let declared ← SectionHeader.parseAll b (start b + headers.sectionsOffset)
      headers.coff.sectionCount
    return { headers with data := b, dos, sections := .ofHeaders declared, limits } := by
  obtain ⟨dos, hdos, hstart⟩ := DosHeader.exists_parse hfits hmark
  refine ⟨dos, ?_⟩
  rw [parse, hdos, ok_bind, hstart]

theorem parse_of_headers (h : PeHeaders.parse b (start b) = .error fault) :
    parse b limits = .error fault := by
  obtain ⟨dos, hparse⟩ := parse_of_dos hfits hmark limits
  rw [hparse, h, error_bind]

theorem parse_of_optional (hcoff : start b + 24 ≤ b.size)
    (hsignature : b.extract (start b) (start b + 4) = "PE\x00\x00".toUTF8)
    (h : ∀ size : UInt16, size.toNat = optionalSize b →
      OptionalHeader.parse b (start b + 24) size = .error fault) :
    parse b limits = .error fault := by
  obtain ⟨coff, -, hsize, hheaders⟩ := PeHeaders.parse_of_coff hcoff hsignature
  refine parse_of_headers hfits hmark ?_
  rw [hheaders, h coff.optionalSize hsize, error_bind]

/-- With the optional header read, the section headers decide. -/
theorem parse_of_layout (limits : Limits) (hcoff : start b + 24 ≤ b.size)
    (hsignature : b.extract (start b) (start b + 4) = "PE\x00\x00".toUTF8)
    (hstated : 2 ≤ optionalSize b) (hoptional : sectionsStart b ≤ b.size)
    (hlayout : magic b = 0x10B ∧ 96 ≤ optionalSize b ∨ magic b = 0x20B ∧ 112 ≤ optionalSize b) :
    ∃ (dos : DosHeader) (headers : PeHeaders) (count : UInt16),
      count.toNat = sectionCount b ∧
      headers.directories.toList.map DataDirectory.numbers = (List.range 16).map (slotAt b) ∧
      parse b limits = do
        let declared ← SectionHeader.parseAll b (sectionsStart b) count
        return { headers with data := b, dos, sections := .ofHeaders declared, limits } := by
  obtain ⟨dos, hparse⟩ := parse_of_dos hfits hmark limits
  obtain ⟨coff, hcount, hsize, hheaders⟩ := PeHeaders.parse_of_coff hcoff hsignature
  have hsize : coff.optionalSize.toNat = optionalSize b := hsize
  rw [← hsize] at hstated hlayout
  have hfits : start b + 24 + coff.optionalSize.toNat ≤ b.size := by
    rw [hsize]
    exact hoptional
  obtain ⟨optional, hoptional, hfixed, hnamed⟩ := OptionalHeader.exists_parse hstated hfits hlayout
  have hfixed : optional.layout.fixedSize = fixedSize b := hfixed
  have hnamed : optional.directoryCount.toNat = directoryCount b := by
    rw [hnamed, hfixed]
    rfl
  let headers : PeHeaders := {
    coff
    optional
    directories := DataDirectories.parse b (start b + 24 + optional.layout.fixedSize)
      optional.directoryCount.toNat }
  have hstart : start b + headers.sectionsOffset = sectionsStart b := by
    change start b + (24 + coff.optionalSize.toNat) = start b + 24 + optionalSize b
    omega
  have hdirectories : headers.directories.toList.map DataDirectory.numbers =
      (List.range 16).map (slotAt b) := by
    rw [DataDirectories.map_numbers_parse, hfixed, hnamed]
    rfl
  refine ⟨dos, headers, coff.sectionCount, hcount, hdirectories, ?_⟩
  rw [hparse, hheaders, hoptional, ok_bind, pure_eq_ok, ok_bind, hstart]

end Start

/-- A file whose chain of headers is whole is an image. -/
theorem parse_of_chain (h : HeaderChain b) (limits : Limits) : ∃ image, parse b limits = .ok image ∧
    image.sections.headers = (List.range (sectionCount b)).map (sectionAt b) ∧
    image.directories.toList.map DataDirectory.numbers = (List.range 16).map (slotAt b) := by
  obtain ⟨dos, headers, count, hcount, hdirectories, hparse⟩ := parse_of_layout h.dos_fits
    h.dos_mark limits h.coff_fits h.signature h.optional_states h.optional_fits h.layout
  have hsections : SectionHeader.parseAll b (sectionsStart b) count =
      .ok ((List.range (sectionCount b)).map (sectionAt b)) := by
    rw [← hcount]
    exact SectionHeader.parseAll_of_fits (by rw [hcount]; exact h.sections_fit)
  exact ⟨_, by rw [hparse, hsections, ok_bind, pure_eq_ok], rfl, hdirectories⟩

/-- The section headers of a whole chain stand one after the other. -/
theorem forall₂_standsAt (h : HeaderChain b) :
    List.Forall₂ (fun k header => SectionHeader.StandsAt b (sectionsStart b + 40 * k) header)
      (List.range (sectionCount b)) ((List.range (sectionCount b)).map (sectionAt b)) := by
  refine List.forall₂_map_right_iff.2 (List.forall₂_same.2 fun k hk => ?_)
  have hk := List.mem_range.1 hk
  have hfits : sectionsStart b + 40 * sectionCount b ≤ b.size := h.sections_fit
  exact SectionHeader.standsAt_ofBytes (by omega)

/-- A file is refused for the first link that is broken. -/
theorem parse_of_firstFault? (h : firstFault? b = some fault) : parse b limits = .error fault := by
  simp only [firstFault?, links, fixedLinks, List.cons_append, List.nil_append] at h
  rcases firstBroken?_cons_eq_some.1 h with ⟨hdos, rfl⟩ | ⟨hdos, h⟩
  · rw [parse, DosHeader.parse_of_short hdos, error_bind]
  rcases firstBroken?_cons_eq_some.1 h with ⟨hmz, rfl⟩ | ⟨hmz, h⟩
  · rw [parse, DosHeader.parse_of_unmarked hdos hmz, error_bind]
  rcases firstBroken?_cons_eq_some.1 h with ⟨hpe, rfl⟩ | ⟨hpe, h⟩
  · exact parse_of_headers hdos hmz (PeHeaders.parse_of_short hpe)
  rcases firstBroken?_cons_eq_some.1 h with ⟨hmark, rfl⟩ | ⟨hmark, h⟩
  · exact parse_of_headers hdos hmz (PeHeaders.parse_of_unmarked hpe hmark)
  rcases firstBroken?_cons_eq_some.1 h with ⟨hcoff, rfl⟩ | ⟨hcoff, h⟩
  · refine parse_of_headers hdos hmz ?_
    rw [PeHeaders.parse_of_marked hpe hmark, CoffHeader.parse_of_short (by omega), error_bind]
  rcases firstBroken?_cons_eq_some.1 h with ⟨hstated, rfl⟩ | ⟨hstated, h⟩
  · refine parse_of_optional hdos hmz hcoff hmark fun size hsize => ?_
    exact OptionalHeader.parse_of_unstated (by omega)
  rcases firstBroken?_cons_eq_some.1 h with ⟨hoptional, rfl⟩ | ⟨hoptional, h⟩
  · refine parse_of_optional hdos hmz hcoff hmark fun size hsize => ?_
    unfold sectionsStart at hoptional ⊢
    rw [← hsize] at hoptional ⊢
    exact OptionalHeader.parse_of_short (by omega) hoptional
  rcases firstBroken?_cons_eq_some.1 h with ⟨hmagic, rfl⟩ | ⟨hmagic, h⟩
  · refine parse_of_optional hdos hmz hcoff hmark fun size hsize => ?_
    obtain ⟨h32, h64⟩ := not_or.1 hmagic
    exact OptionalHeader.parse_of_magic (by omega) (by rw [hsize]; exact hoptional) h32 h64
  rcases firstBroken?_cons_eq_some.1 h with ⟨h32, rfl⟩ | ⟨h32, h⟩
  · refine parse_of_optional hdos hmz hcoff hmark fun size hsize => ?_
    obtain ⟨hlayout, hshort⟩ := Decidable.not_imp_iff_and_not.1 h32
    rw [sectionsStart, ← hsize]
    exact OptionalHeader.parse_of_pe32_short (by omega) (by rw [hsize]; exact hoptional) hlayout
      (by omega)
  rcases firstBroken?_cons_eq_some.1 h with ⟨h64, rfl⟩ | ⟨h64, h⟩
  · refine parse_of_optional hdos hmz hcoff hmark fun size hsize => ?_
    obtain ⟨hlayout, hshort⟩ := Decidable.not_imp_iff_and_not.1 h64
    rw [sectionsStart, ← hsize]
    exact OptionalHeader.parse_of_pe32Plus_short (by omega) (by rw [hsize]; exact hoptional)
      hlayout (by omega)
  obtain ⟨k, hk, rfl, hshort, hfits⟩ := firstBroken?_sections_eq_some.1 h
  obtain ⟨dos, headers, count, hcount, -, hparse⟩ := parse_of_layout hdos hmz limits
    hcoff hmark hstated hoptional (hmagic.imp (fun h => ⟨h, h32 h⟩) fun h => ⟨h, h64 h⟩)
  -- the record before the first that does not fit has ended where this one begins
  have hbefore : sectionsStart b + 40 * k ≤ b.size := by
    cases k with
    | zero => exact hoptional
    | succ j => exact hfits j (by omega)
  rw [hparse, SectionHeader.parseAll_of_short (by omega) hbefore hshort, error_bind]

/-- The files that are images, and why the others are none. An image has the sections and the
directories that its bytes say, field by field. -/
theorem parse_accepts_exactly (b : Bytes) (limits : Limits) :
    ((∃ image, parse b limits = .ok image) ↔ HeaderChain b) ∧
      (∀ fault, parse b limits = .error fault ↔ firstFault? b = some fault) ∧
      ∀ image, parse b limits = .ok image →
        image.sections.headers = (List.range (sectionCount b)).map (sectionAt b) ∧
          image.sections.headers.length = sectionCount b ∧
          List.Forall₂ (fun k header => SectionHeader.StandsAt b (sectionsStart b + 40 * k) header)
            (List.range (sectionCount b)) image.sections.headers ∧
          image.directories.toList.length = 16 ∧
          image.directories.toList.map DataDirectory.numbers =
            (List.range 16).map (slotAt b) := by
  have hok : HeaderChain b → ∃ image, parse b limits = .ok image := fun h =>
    (parse_of_chain h limits).imp fun _ => And.left
  have herror : ∀ fault, parse b limits = .error fault ↔ firstFault? b = some fault := by
    intro fault
    refine ⟨?_, parse_of_firstFault?⟩
    intro hparse
    match hfirst : firstFault? b with
    | none =>
      obtain ⟨image, himage⟩ := hok (firstFault?_eq_none_iff.1 hfirst)
      rw [hparse] at himage
      cases himage
    | some first =>
      rw [parse_of_firstFault? hfirst] at hparse
      cases hparse
      rfl
  have hchain : ∀ image, parse b limits = .ok image → HeaderChain b := by
    intro image himage
    rw [← firstFault?_eq_none_iff, Option.eq_none_iff_forall_ne_some]
    intro fault hfault
    rw [(herror fault).2 hfault] at himage
    cases himage
  refine ⟨⟨fun ⟨image, himage⟩ => hchain image himage, hok⟩, herror, ?_⟩
  intro image himage
  obtain ⟨found, hfound, hsections, hdirectories⟩ := parse_of_chain (hchain image himage) limits
  obtain rfl : image = found := by
    rw [himage] at hfound
    cases hfound
    rfl
  refine ⟨hsections, ?_, ?_, Vector.length_toList, hdirectories⟩
  · rw [hsections, List.length_map, List.length_range]
  · rw [hsections]
    exact forall₂_standsAt (hchain image himage)

end Image

end ImageTriage
