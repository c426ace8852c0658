import ImageTriage.Proofs.Checked.Mapping
import ImageTriage.Version.Info

/-!
# Checked version information

All lengths in a block are cut down to the end of the block, and that to the end of the data. So
the value lies in the data, between two offsets in order (`Inside`), and the next block begins at
most three bytes past the end. Offsets grow from block to block, which ends every list of blocks.
-/

namespace ImageTriage

namespace Checked

open Version

/-! ## Blocks -/

/-- A 16-bit field at place `k` of the block at offset `i`. -/
def blockU16 (b : Bytes) (i k : Nat) : Checked UInt16 := do Block.u16 b (← add i k)

/-- The key of a block, and the number of bytes it takes. -/
def blockKey (b : Bytes) (i : Nat) : Checked (String × Nat) :=
  match utf16z b i Block.keyBound with
  | done (.error _) => fail .versionInfo
  | result => result

/-- The number of bytes of a value whose length is counted in units or in bytes. -/
def valueSize (isText : Bool) (length : Nat) : Checked Nat :=
  if isText then mul length 2 else pure length

/-- `Version.Block.read` with checked steps. Where the next block begins is worked out with it. -/
def versionBlock (b : Bytes) (i : Nat) : Checked Block := do
  let length ← blockU16 b i 0
  let valueLength ← blockU16 b i 2
  let mark ← blockU16 b i 4
  if length < 6 then
    fail .versionInfo
  else
    let stop := min (← add i length.toNat) b.size
    let keyStart ← add i 6
    let (key, taken) ← blockKey b keyStart
    let isText := mark == 1
    let size ← valueSize isText valueLength.toNat
    let valueStart := min (← align 4 (← add keyStart taken)) stop
    let valueStop := min (← add valueStart size) stop
    let value ← cut b valueStart valueStop
    let innerStart := min (← align 4 valueStop) stop
    let _next ← align 4 stop
    return { key, isText, value, innerStart, stop }

/-- How far the blocks are read. -/
structure BlockState where
  offset : Nat
  found : Array Block

/-- Reads one block, unless there is no room for it. -/
def blockTurn (b : Bytes) (stop : Nat) (s : BlockState) :
    Checked (Turn BlockState (List Block)) := do
  let least ← add s.offset 6
  if stop < least then
    return .answer s.found.toList
  else
    let block ← versionBlock b s.offset
    if block.next ≤ s.offset then
      return .answer s.found.toList
    else
      return .again { offset := block.next, found := s.found.push block }

/-- `Version.Block.inner` with checked steps. -/
def innerBlocks (b : Bytes) (block : Block) : Checked (List Block) :=
  loop (blockTurn b block.stop) (block.stop + 1) { offset := block.innerStart, found := #[] }

/-! ## The information in the blocks -/

/-- `VersionInfo.readTable` with checked steps. -/
def versionTable (b : Bytes) (table : Block) : Checked VersionStrings := do
  let strings ← innerBlocks b table
  return { key := table.key, strings := strings.map fun s => (s.key, s.text) }

/-- `VersionInfo.addChild` with checked steps. -/
def versionChild (b : Bytes) (info : VersionInfo) (child : Block) : Checked VersionInfo :=
  if child.key = "StringFileInfo" then do
    let tables ← (← innerBlocks b child).mapM (versionTable b)
    return { info with tables := info.tables ++ tables }
  else if child.key = "VarFileInfo" then do
    let lists := (← innerBlocks b child).filter (·.key == "Translation")
    return { info with
      languages := info.languages ++ lists.flatMap fun v => VersionInfo.readPairs v.value }
  else
    pure info

/-- `VersionInfo.parse` with checked steps. -/
def versionInfo (b : Bytes) : Checked VersionInfo := do
  let root ← versionBlock b 0
  if root.key ≠ "VS_VERSION_INFO" then
    fail .versionInfo
  else
    let children ← innerBlocks b root
    children.foldlM (versionChild b)
      { fixed := FixedVersion.read? root.value, tables := [], languages := [] }

/-! ## Blocks lie inside the data -/

variable {b : Bytes} {i : Nat}

/-- The offsets of a block are in order, and end in the data. -/
structure Inside (b : Bytes) (block : Block) : Prop where
  inner_le : block.innerStart ≤ block.stop
  stop_le : block.stop ≤ b.size

theorem taken_le {bound taken : Nat} {s : String} (h : b.utf16z i bound = .ok (s, taken)) :
    taken ≤ 2 * bound := by
  unfold Bytes.utf16z at h
  split at h
  · cases h
  · dsimp only at h
    split at h
    · cases h
      have := Bytes.length_units_le b i (min bound ((b.size - i) / 2))
      omega
    · cases h

theorem inside_of_read {block : Block} (h : Block.read b i = .ok block) : Inside b block := by
  obtain ⟨length, -, h⟩ := bind_eq_ok_iff.1 h
  obtain ⟨valueLength, -, h⟩ := bind_eq_ok_iff.1 h
  obtain ⟨mark, -, h⟩ := bind_eq_ok_iff.1 h
  dsimp only at h
  split at h
  · cases h
  · split at h
    · cases h
    · cases h
      exact ⟨Nat.min_le_right _ _, Nat.min_le_right _ _⟩

theorem inside_of_mem_readAll {stop : Nat} {blocks : List Block}
    (h : Block.readAll b i stop = .ok blocks) : ∀ block ∈ blocks, Inside b block := by
  fun_induction Block.readAll b i stop generalizing blocks with
  | case1 => cases h
  | case2 =>
    cases h
    simp
  | case3 => cases h
  | case4 i hroom block hblock hnext rest hrest ih =>
    cases h
    rw [List.forall_mem_cons]
    exact ⟨inside_of_read hblock, ih hrest⟩
  | case5 =>
    cases h
    simp

/-! ## No step goes too far -/

theorem blockKey_eq (hb : b.size < 2 ^ 62) : blockKey b i =
    done (match b.utf16z i Block.keyBound with
      | .error _ => .error .versionInfo
      | .ok key => .ok key) := by
  have hbound : 0 < Block.keyBound := by unfold Block.keyBound; omega
  have hkey : utf16z b i Block.keyBound = done (b.utf16z i Block.keyBound) := utf16z_eq hb hbound
  unfold blockKey
  rw [hkey]
  generalize b.utf16z i Block.keyBound = key
  cases key <;> rfl

theorem valueSize_eq (isText : Bool) (length : UInt16) : valueSize isText length.toNat =
    done (.ok (if isText then length.toNat * 2 else length.toNat)) := by
  have := length.toNat_lt
  rw [valueSize, mul_eq (by omega)]
  split <;> rfl

theorem versionBlock_eq (hb : b.size < 2 ^ 62) (hi : i < 2 ^ 63) :
    versionBlock b i = done (Block.read b i) := by
  unfold versionBlock blockU16 Block.read
  simp (disch := omega) only [add_eq, ok_bind, Nat.add_zero]
  refine bind_eq fun length _ => bind_eq fun valueLength _ => bind_eq fun mark _ => ?_
  have hlength := length.toNat_lt
  have hvalue := valueLength.toNat_lt
  split
  · rfl
  · rw [add_eq (by omega), ok_bind, blockKey_eq hb]
    cases hkey : b.utf16z (i + 6) Block.keyBound with
    | error fault => rfl
    | ok found =>
      obtain ⟨key, taken⟩ := found
      have htaken : taken ≤ 512 := taken_le hkey
      dsimp only
      rw [ok_bind]
      dsimp only
      -- both ends of the value are held below the end of the block, and that below the end of `b`
      have hsize : (if mark == 1 then valueLength.toNat * 2 else valueLength.toNat) ≤ 2 ^ 17 := by
        split <;> omega
      rw [valueSize_eq, ok_bind, add_eq (by omega), ok_bind, align_eq (by omega), ok_bind,
        add_eq (by omega), ok_bind, cut_eq (by omega) (by omega), ok_bind, align_eq (by omega),
        ok_bind, align_eq (by omega), ok_bind]
      rfl

/-- A turn over a block that there is room for. -/
theorem blockTurn_eq (hb : b.size < 2 ^ 62) {stop : Nat} (hi : i < 2 ^ 63) (hroom : i + 6 ≤ stop)
    (found : Array Block) : blockTurn b stop ⟨i, found⟩ =
      done (Block.read b i >>= fun block => .ok (
        if block.next ≤ i then .answer found.toList
        else .again ⟨block.next, found.push block⟩)) := by
  rw [blockTurn]
  dsimp only
  rw [add_eq (by omega), ok_bind, if_neg (by omega), versionBlock_eq hb hi]
  refine bind_eq fun block _ => ?_
  split <;> rfl

/-- The loop over the blocks up to `stop`. An offset is at most three bytes past the data. -/
theorem blockLoop_eq (hb : b.size < 2 ^ 62) {stop : Nat} (hi : i ≤ b.size + 3) :
    loop (blockTurn b stop) (stop + 1) ⟨i, #[]⟩ = done (Block.readAll b i stop) := by
  have hrun : loop (blockTurn b stop) (stop + 1) ⟨i, #[]⟩ =
      done ((Block.readAll b i stop).map ([] ++ ·)) := by
    refine loop_eq
      (fun s : BlockState => (Block.readAll b s.offset stop).map (s.found.toList ++ ·))
      (fun s => s.offset ≤ b.size + 3) (fun s => stop - s.offset) ?_ hi (by dsimp only; omega)
    rintro ⟨i, found⟩ hi
    dsimp only at hi
    by_cases hroom : i + 6 ≤ stop
    case neg =>
      refine .answer found.toList ?_ ?_
      · rw [blockTurn]
        dsimp only
        rw [add_eq (by omega), ok_bind, if_pos (by omega)]
        rfl
      · dsimp only
        rw [Block.readAll, dif_neg hroom]
        simp [Except.map]
    have hturn := blockTurn_eq hb (show i < 2 ^ 63 by omega) hroom found
    cases hblock : Block.read b i with
    | error fault =>
      rw [hblock, ImageTriage.error_bind] at hturn
      refine .fault fault hturn ?_
      dsimp only
      rw [Block.readAll, dif_pos hroom, hblock]
      rfl
    | ok block =>
      rw [hblock, ImageTriage.ok_bind] at hturn
      have hinside := inside_of_read hblock
      have hnext : block.next ≤ b.size + 3 := by
        have := alignUp_le 4 block.stop
        have := hinside.stop_le
        unfold Block.next
        omega
      -- a block that leads nowhere new ends the list, which is why the loop ends
      by_cases hstuck : block.next ≤ i
      · rw [if_pos hstuck] at hturn
        refine .answer _ hturn ?_
        dsimp only
        rw [Block.readAll, dif_pos hroom, hblock]
        simp [hstuck, Except.map]
      · rw [if_neg hstuck] at hturn
        refine .again _ hturn hnext (by dsimp only; omega) ?_
        dsimp only
        rw [Block.readAll, dif_pos hroom, hblock]
        simp only [dif_neg hstuck, Array.toList_push]
        cases Block.readAll b block.next stop <;> simp [Except.map]
  rw [hrun]
  cases Block.readAll b i stop <;> rfl

section Information

variable (hb : b.size < 2 ^ 62) {block : Block} (hblock : Inside b block)
include hb hblock

theorem innerBlocks_eq : innerBlocks b block = done (block.inner b) := by
  have hinner := hblock.inner_le
  have hstop := hblock.stop_le
  exact blockLoop_eq hb (by omega)

theorem versionTable_eq : versionTable b block = done (VersionInfo.readTable b block) := by
  unfold versionTable VersionInfo.readTable
  rw [innerBlocks_eq hb hblock]
  exact bind_done _ _

theorem versionChild_eq (info : VersionInfo) :
    versionChild b info block = done (VersionInfo.addChild b info block) := by
  unfold versionChild VersionInfo.addChild
  rw [innerBlocks_eq hb hblock]
  split
  · refine bind_eq fun tables htables => ?_
    have hinside := inside_of_mem_readAll htables
    rw [mapM_eq fun table htable => versionTable_eq hb (hinside table htable)]
    exact bind_done _ _
  · split
    · exact bind_done _ _
    · rfl

omit hblock in
/-- Version information is read without a trap. -/
theorem versionInfo_eq : versionInfo b = done (VersionInfo.parse b) := by
  unfold versionInfo VersionInfo.parse
  rw [versionBlock_eq hb (by omega)]
  refine bind_eq fun root hroot => ?_
  split
  · rfl
  · rw [innerBlocks_eq hb (inside_of_read hroot)]
    refine bind_eq fun children hchildren => ?_
    have hinside := inside_of_mem_readAll hchildren
    exact foldlM_eq fun info child hchild => versionChild_eq hb (hinside child hchild) info

end Information

end Checked

end ImageTriage
