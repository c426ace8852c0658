import ImageTriage.Proofs.Relocation.Tiling

/-!
# The limit on relocation blocks

The reader of a relocation directory looks at the limit before it looks at what lies behind the
blocks that it has read. So it gives up when as many blocks are read as the limit allows and eight
more bytes are left, whatever these are (`readFrom_eq_tooMany_iff`): another block, a block of zeros
or bytes that make up no block.

Hence padding with a block of zeros changes nothing as long as there are fewer blocks than the limit
(`padding_below_limit`). A directory with exactly as many is read without the padding and refused
with it (`padding_at_limit_refused`).
-/

namespace ImageTriage

open Bytes

/-- The image has the directory, and these bytes are what it covers of the file. -/
def MappedFile.Covers (m : MappedFile) (dir : DataDirectory) (xs : List UInt8) : Prop :=
  dir.isPresent = true ∧ ∃ start, m.sections.offset? dir.address = some start ∧
    list (m.file.extract start (min (start + dir.size.toNat) m.file.size)) = xs

namespace RelocationBlock

variable {b : Bytes} {limit i stop : Nat} {found : Array RelocationBlock}
  {stored : List StoredBlock} {rest : List UInt8}

/-- The fault of a directory with too many blocks. -/
abbrev tooMany : Fault := .tooMany "relocation blocks"

/-- When the limit is reached, only a rest too short for a block is passed over. -/
theorem readFrom_at_limit (hlimit : limit ≤ found.size) :
    readFrom b limit i stop found = if i + 8 ≤ stop then .error tooMany else .ok found := by
  rw [readFrom, if_pos hlimit]

/-- Blocks that end in time are kept, up to the limit, and reading goes on behind them. -/
theorem readFrom_of_stored (hstop : stop ≤ b.size)
    (h : list (b.extract i stop) = stored.flatMap StoredBlock.bytes ++ rest)
    (hlimit : found.size + stored.length ≤ limit) :
    ∃ j kept, list (b.extract j stop) = rest ∧
      kept.toList = found.toList ++ stored.map StoredBlock.block ∧
      readFrom b limit i stop found = readFrom b limit j stop kept := by
  induction stored generalizing i found with
  | nil => exact ⟨i, found, h, by simp, rfl⟩
  | cons s stored ih =>
    rw [List.length_cons] at hlimit
    rw [List.flatMap_cons, List.append_assoc] at h
    have hlength := s.length_bytes
    have hi : i ≤ stop := by
      have hcut := congrArg List.length h
      rw [length_list_extract, List.length_append] at hcut
      omega
    obtain ⟨hs, hend, hbehind⟩ := holds_of_list_extract hi hstop h
    have hroom : (found.push s.block).size + stored.length ≤ limit := by
      rw [Array.size_push]
      omega
    obtain ⟨j, kept, hrest, hkept, hread⟩ := ih hbehind hroom
    refine ⟨j, kept, hrest, ?_, ?_⟩
    · rw [hkept, Array.toList_push, List.append_assoc, List.singleton_append, List.map_cons]
    · rw [readFrom_of_block hs hend (by omega), hread]

/-- Reading gives up exactly when the limit is reached and eight more bytes are left. -/
theorem readFrom_eq_tooMany_iff (hstop : stop ≤ b.size) (hfound : found.size ≤ limit) :
    readFrom b limit i stop found = .error tooMany ↔
      ∃ (stored : List StoredBlock) (rest : List UInt8),
        list (b.extract i stop) = stored.flatMap StoredBlock.bytes ++ rest ∧
          found.size + stored.length = limit ∧ 8 ≤ rest.length := by
  constructor
  · -- induction on how many blocks may still be read
    induction hleft : limit - found.size generalizing i found with
    | zero =>
      intro hread
      have hreached : limit ≤ found.size := by omega
      rw [readFrom_at_limit hreached] at hread
      split at hread
      case isTrue hroom =>
        refine ⟨[], list (b.extract i stop), rfl, by rw [List.length_nil]; omega, ?_⟩
        rw [length_list_extract]
        omega
      case isFalse => cases hread
    | succ left ih =>
      intro hread
      have hlimit : found.size < limit := by omega
      rcases rest_or_block hstop i with hrest | ⟨s, hs, hend⟩ | hbad
      · rw [readFrom_of_rest hstop hrest hlimit] at hread
        cases hread
      · rw [readFrom_of_block hs hend hlimit] at hread
        have hsize : (found.push s.block).size = found.size + 1 := Array.size_push _
        obtain ⟨stored, rest, hsplit, hcount, hlong⟩ := ih (by omega) (by omega) hread
        refine ⟨s :: stored, rest, ?_, by rw [List.length_cons]; omega, hlong⟩
        rw [list_extract_append (Nat.le_add_right _ _) hend, hs.list_extract (by omega), hsplit,
          List.flatMap_cons, List.append_assoc]
      · rw [hbad limit found hlimit] at hread
        cases hread
  · rintro ⟨stored, rest, hsplit, hcount, hlong⟩
    obtain ⟨j, kept, hrest, hkept, hread⟩ := readFrom_of_stored hstop hsplit (Nat.le_of_eq hcount)
    have hsize : kept.size = limit := by
      rw [← Array.length_toList, hkept, List.length_append, List.length_map, Array.length_toList,
        hcount]
    rw [← hrest, length_list_extract] at hlong
    rw [hread, readFrom_at_limit (Nat.le_of_eq hsize.symm), if_pos (by omega)]

/-! ## The whole directory -/

variable {m : MappedFile} {dir : DataDirectory} {xs : List UInt8}

/-- What is read of a directory that an image has. -/
theorem parseAll_eq_readFrom {start : Nat} (hpresent : dir.isPresent = true)
    (hstart : m.sections.offset? dir.address = some start) :
    parseAll m dir limit =
      (readFrom m.file limit start (min (start + dir.size.toNat) m.file.size) #[]).map
        Array.toList := by
  simp only [parseAll, hpresent, Bool.not_true, Bool.false_eq_true, if_false,
    m.offset_eq_ok hstart, ok_bind]
  cases readFrom m.file limit start (min (start + dir.size.toNat) m.file.size) #[] <;> rfl

/-- Blocks and a rest are read when there are no more blocks than the limit, and fewer when eight
bytes or more are left. -/
theorem parseAll_of_covers (h : m.Covers dir (stored.flatMap StoredBlock.bytes ++ rest))
    (hrest : IsRelocationRest rest) (hlimit : stored.length ≤ limit)
    (hroom : stored.length < limit ∨ rest.length < 8) :
    parseAll m dir limit = .ok (stored.map StoredBlock.block) := by
  obtain ⟨hpresent, start, hstart, hcovers⟩ := h
  have hstop : min (start + dir.size.toNat) m.file.size ≤ m.file.size := Nat.min_le_right _ _
  have hcount : (#[] : Array RelocationBlock).size + stored.length ≤ limit := by simpa using hlimit
  obtain ⟨j, kept, hbehind, hkept, hread⟩ := readFrom_of_stored hstop hcovers hcount
  rw [Array.toList_empty, List.nil_append] at hkept
  have hsize : kept.size = stored.length := by
    rw [← Array.length_toList, hkept, List.length_map]
  have hend : readFrom m.file limit j (min (start + dir.size.toNat) m.file.size) kept =
      .ok kept := by
    rcases hroom with hless | hshort
    · exact readFrom_of_rest hstop (hbehind ▸ hrest) (by omega)
    · rw [← hbehind, length_list_extract] at hshort
      rw [readFrom, if_neg (by omega)]
  rw [parseAll_eq_readFrom hpresent hstart, hread, hend, ← hkept]
  rfl

/-- A directory has too many blocks exactly if it begins with as many as the limit and goes on for
eight bytes or more. -/
theorem parseAll_eq_tooMany_iff :
    parseAll m dir limit = .error tooMany ↔
      ∃ (stored : List StoredBlock) (rest : List UInt8),
        m.Covers dir (stored.flatMap StoredBlock.bytes ++ rest) ∧
          stored.length = limit ∧ 8 ≤ rest.length := by
  by_cases hpresent : dir.isPresent = true
  case neg =>
    rw [Bool.not_eq_true] at hpresent
    have habsent : parseAll m dir limit = .ok [] := by simp [parseAll, hpresent]
    simp [habsent, MappedFile.Covers, hpresent]
  cases hstart : m.sections.offset? dir.address with
  | none =>
    have hunmapped : parseAll m dir limit = .error (.unmappedAddress dir.address) := by
      simp [parseAll, hpresent, MappedFile.offset, SectionTable.offset, hstart]
    simp [hunmapped, MappedFile.Covers, hstart]
  | some start =>
    have herror : ∀ x : Except Fault (Array RelocationBlock),
        x.map Array.toList = .error tooMany ↔ x = .error tooMany := by
      intro x
      cases x <;> simp [Except.map]
    have hfound : (#[] : Array RelocationBlock).size ≤ limit := Nat.zero_le limit
    rw [parseAll_eq_readFrom hpresent hstart, herror,
      readFrom_eq_tooMany_iff (Nat.min_le_right _ _) hfound]
    simp [MappedFile.Covers, hpresent, hstart]

/-- A directory that blocks fill is read the same with a block of zeros behind them, provided that
there are fewer than the limit. At the limit the block of zeros is one too many, as are any eight
bytes. -/
theorem padding_below_limit {m m' : MappedFile} {dir dir' : DataDirectory} {more : List UInt8}
    (hfull : m.Covers dir (stored.flatMap StoredBlock.bytes))
    (hpadded : m'.Covers dir'
      (stored.flatMap StoredBlock.bytes ++ (List.replicate 8 0 ++ more)))
    (hlimit : stored.length ≤ limit) :
    parseAll m dir limit = .ok (stored.map StoredBlock.block) ∧
    (stored.length < limit → parseAll m' dir' limit = .ok (stored.map StoredBlock.block)) ∧
    (stored.length = limit → parseAll m' dir' limit = .error (.tooMany "relocation blocks")) ∧
    ∀ (m : MappedFile) (dir : DataDirectory) (limit : Nat),
      parseAll m dir limit = .error (.tooMany "relocation blocks") ↔
        ∃ (first : List StoredBlock) (rest : List UInt8),
          m.Covers dir (first.flatMap StoredBlock.bytes ++ rest) ∧
            first.length = limit ∧ 8 ≤ rest.length := by
  have hzeros : 8 ≤ (List.replicate 8 0 ++ more).length := by
    rw [List.length_append, List.length_replicate]
    omega
  rw [← List.append_nil (stored.flatMap StoredBlock.bytes)] at hfull
  refine ⟨parseAll_of_covers hfull (.inl (by decide)) hlimit (.inr (by decide)), fun hless => ?_,
    fun hreached => ?_, fun m dir limit => parseAll_eq_tooMany_iff⟩
  · exact parseAll_of_covers hpadded (.inr ⟨more, rfl⟩) hlimit (.inl hless)
  · exact parseAll_eq_tooMany_iff.2 ⟨stored, _, hpadded, hreached, hzeros⟩

theorem covers_sample : sampleFile.Covers ⟨0x3000, 23⟩ (sampleBlocks.flatMap StoredBlock.bytes) :=
  ⟨by decide, 4, by decide +kernel, by decide +kernel⟩

theorem covers_sample_padded :
    sampleFile.Covers ⟨0x3000, 0x40⟩
      (sampleBlocks.flatMap StoredBlock.bytes ++ (List.replicate 8 0 ++ [7, 7, 7])) :=
  ⟨by decide, 4, by decide +kernel, by decide +kernel⟩

/-- Two blocks, with and without padding, where three are allowed. -/
theorem padding_below_limit_sample :
    sampleFile.Covers ⟨0x3000, 23⟩ (sampleBlocks.flatMap StoredBlock.bytes) ∧
      sampleFile.Covers ⟨0x3000, 0x40⟩
        (sampleBlocks.flatMap StoredBlock.bytes ++ (List.replicate 8 0 ++ [7, 7, 7])) ∧
      sampleBlocks.length ≤ 3 ∧
      parseAll sampleFile ⟨0x3000, 23⟩ 3 = .ok (sampleBlocks.map StoredBlock.block) ∧
      parseAll sampleFile ⟨0x3000, 0x40⟩ 3 = .ok (sampleBlocks.map StoredBlock.block) := by
  have hlimit : sampleBlocks.length ≤ 3 := by decide
  obtain ⟨hfull, hpadded, -⟩ := padding_below_limit covers_sample covers_sample_padded hlimit
  exact ⟨covers_sample, covers_sample_padded, hlimit, hfull, hpadded (by decide)⟩

/-- Two blocks, where two are allowed: they are read, and refused with padding. -/
theorem padding_at_limit_refused :
    sampleFile.Covers ⟨0x3000, 23⟩ (sampleBlocks.flatMap StoredBlock.bytes) ∧
      sampleFile.Covers ⟨0x3000, 0x40⟩
        (sampleBlocks.flatMap StoredBlock.bytes ++ (List.replicate 8 0 ++ [7, 7, 7])) ∧
      sampleBlocks.length ≤ 2 ∧
      parseAll sampleFile ⟨0x3000, 23⟩ 2 = .ok (sampleBlocks.map StoredBlock.block) ∧
      parseAll sampleFile ⟨0x3000, 0x40⟩ 2 = .error (.tooMany "relocation blocks") := by
  refine ⟨covers_sample, covers_sample_padded, by decide, by decide +kernel, ?_⟩
  exact parseAll_eq_tooMany_iff.2 ⟨sampleBlocks, _, covers_sample_padded, rfl, by decide⟩

end RelocationBlock

end ImageTriage
