import ImageTriage.Proofs.Version.Encoding

/-!
# What lies behind the version information

The value and the inner blocks of a block are cut down to the end of the block, and the root block
ends where it says. But an inner block is cut down to the end of the data only, not to the end of
the block that holds it, and a key is read as far as it goes. So an inner block may reach past the
root block, and what lies behind is then reported as a part of the version information
(`parse_overlong`). It needs such a block: where every block that is read ends before a limit,
with its key, nothing behind the limit counts (`parse_extract`), and the limit may be the end of the
root block (`parse_rootBlock`). Version information that was written as such is of that kind
(`confined_of_holds`).

Both runs, the one over all bytes and the one over the first of them, read the same blocks at the
same offsets. That is shown for one block (`read_extract`), then for a row of blocks along the
recursion that reads it, and then for the three levels of the tree.
-/

namespace ImageTriage

open Bytes Utf16 Version

variable {b : Bytes} {limit i j stop : Nat}

/-! ## Blocks -/

namespace Version

/-- The block at offset `i` ends in the first `limit` bytes, and so does its key. Nothing is asked
where a length too small for a block makes the reader fail. -/
def EndsWithin (b : Bytes) (limit i : Nat) : Prop :=
  ∀ length, b.u16? i = some length → ¬ length < 6 →
    i + length.toNat ≤ limit ∧ b.TextEndsWithin limit (i + 6) Block.keyBound

/-- One of the blocks that are read in a row, from offset `i` up to `stop`, begins at offset `j`. -/
inductive InRow (b : Bytes) (stop : Nat) : Nat → Nat → Prop where
  | here {i : Nat} : i + 6 ≤ stop → InRow b stop i i
  | there {i j : Nat} {block : Block} : i + 6 ≤ stop → Block.read b i = .ok block →
      InRow b stop block.next j → InRow b stop i j

/-- An inner block of `outer` is read at offset `i`. -/
def Begins (b : Bytes) (outer : Block) (i : Nat) : Prop := InRow b outer.stop outer.innerStart i

variable {block : Block} {blocks : List Block} (hlimit : limit ≤ b.size)

section Extract

include hlimit

theorem blockU16_extract (hi : i + 2 ≤ limit) :
    Block.u16 (b.extract 0 limit) i = Block.u16 b i := by
  rw [Block.u16, u16?_extract hlimit (by omega), Nat.zero_add, Block.u16]

/-- A block that ends in the first bytes is read in them. -/
theorem read_extract (hi : i + 6 ≤ limit) (h : EndsWithin b limit i) :
    Block.read (b.extract 0 limit) i = Block.read b i := by
  have hlength : b.u16? i = some (UInt16.ofNat (b.le i 2)) := u16?_eq_some (by omega)
  have hsize : (b.extract 0 limit).size = limit := by
    rw [ByteArray.size_extract]
    omega
  unfold Block.read
  rw [blockU16_extract hlimit (by omega), blockU16_extract hlimit (by omega),
    blockU16_extract hlimit (by omega), Block.u16, hlength, orFault_some, ok_bind, ok_bind]
  refine bind_congr fun valueLength => bind_congr fun mark => ?_
  by_cases hshort : UInt16.ofNat (b.le i 2) < 6
  · rw [if_pos hshort, if_pos hshort]
    rfl
  · obtain ⟨hstop, hkey⟩ := h _ hlength hshort
    have hcut : ∀ start stop, stop ≤ limit →
        (b.extract 0 limit).extract start stop = b.extract start stop := by
      intro start stop hle
      rw [ByteArray.extract_extract, Nat.zero_add, Nat.zero_add, Nat.min_eq_left hle]
    rw [if_neg hshort, if_neg hshort, utf16z_extract hlimit (by decide) hkey, hsize,
      Nat.min_eq_left hstop, Nat.min_eq_left (Nat.le_trans hstop hlimit)]
    cases b.utf16z (i + 6) Block.keyBound with
    | error fault => rfl
    | ok text =>
      dsimp only
      rw [hcut _ _ (by omega)]

theorem readAll_extract (hstop : stop ≤ limit)
    (h : ∀ j, InRow b stop i j → EndsWithin b limit j) :
    Block.readAll (b.extract 0 limit) i stop = Block.readAll b i stop := by
  fun_induction Block.readAll b i stop with
  | case1 i hroom fault hfault =>
    rw [Block.readAll, dif_pos hroom, read_extract hlimit (by omega) (h i (.here hroom)), hfault]
  | case2 i hroom block hblock hback =>
    rw [Block.readAll, dif_pos hroom, read_extract hlimit (by omega) (h i (.here hroom)), hblock]
    exact dif_pos hback
  | case3 i hroom block hblock hback fault hfault ih =>
    rw [Block.readAll, dif_pos hroom, read_extract hlimit (by omega) (h i (.here hroom)), hblock]
    dsimp only
    rw [dif_neg hback, ih fun j hj => h j (.there hroom hblock hj), hfault]
  | case4 i hroom block hblock hback rest hrest ih =>
    rw [Block.readAll, dif_pos hroom, read_extract hlimit (by omega) (h i (.here hroom)), hblock]
    dsimp only
    rw [dif_neg hback, ih fun j hj => h j (.there hroom hblock hj), hrest]
  | case5 i hroom => rw [Block.readAll, dif_neg hroom]

end Extract

theorem exists_inRow_of_mem (h : Block.readAll b i stop = .ok blocks) (hblock : block ∈ blocks) :
    ∃ j, InRow b stop i j ∧ Block.read b j = .ok block := by
  fun_induction Block.readAll b i stop generalizing blocks with
  | case1 => cases h
  | case2 =>
    cases h
    cases hblock
  | case3 => cases h
  | case4 i hroom first hfirst hback rest hrest ih =>
    cases h
    rcases List.mem_cons.1 hblock with rfl | hblock
    · exact ⟨i, .here hroom, hfirst⟩
    · obtain ⟨j, hj, hread⟩ := ih hrest hblock
      exact ⟨j, .there hroom hfirst hj, hread⟩
  | case5 =>
    cases h
    cases hblock

theorem stop_le_of_read (h : EndsWithin b limit i) (hread : Block.read b i = .ok block) :
    block.stop ≤ limit := by
  obtain ⟨length, hlength, hread⟩ := bind_eq_ok_iff.1 hread
  obtain ⟨valueLength, -, hread⟩ := bind_eq_ok_iff.1 hread
  obtain ⟨mark, -, hread⟩ := bind_eq_ok_iff.1 hread
  dsimp only at hread
  split at hread
  case isTrue => cases hread
  case isFalse hlong =>
    obtain ⟨hstop, -⟩ := h length (orFault_eq_ok_iff.1 hlength) hlong
    split at hread
    · cases hread
    · cases hread
      exact Nat.le_trans (Nat.min_le_left _ _) hstop

end Version

/-! ## The tree of blocks -/

namespace VersionInfo

/-- The root block, with the key it must have. -/
def IsRoot (b : Bytes) (root : Block) : Prop :=
  Block.read b 0 = .ok root ∧ root.key = "VS_VERSION_INFO"

/-- One of the inner blocks of `outer`. -/
def IsInner (b : Bytes) (outer block : Block) : Prop :=
  ∃ i, Begins b outer i ∧ Block.read b i = .ok block

/-- The blocks whose inner blocks are read. -/
inductive IsOpened (b : Bytes) : Block → Prop where
  | root {root : Block} : IsRoot b root → IsOpened b root
  | child {root child : Block} : IsRoot b root → IsInner b root child →
      child.key = "StringFileInfo" ∨ child.key = "VarFileInfo" → IsOpened b child
  | table {root child table : Block} : IsRoot b root → IsInner b root child →
      child.key = "StringFileInfo" → IsInner b child table → IsOpened b table

/-- Every inner block that is read ends in the first `limit` bytes. -/
def Confined (b : Bytes) (limit : Nat) : Prop :=
  ∀ outer i, IsOpened b outer → Begins b outer i → EndsWithin b limit i

section Extract

variable {root child table outer block : Block} {blocks : List Block} (hlimit : limit ≤ b.size)
  (hroot : EndsWithin b limit 0) (hconfined : Confined b limit)
include hlimit hroot hconfined

omit hlimit in
theorem stop_le_of_isOpened (h : IsOpened b outer) : outer.stop ≤ limit := by
  have hinner : ∀ outer block, IsOpened b outer → IsInner b outer block → block.stop ≤ limit := by
    rintro outer block hopened ⟨i, hi, hread⟩
    exact stop_le_of_read (hconfined outer i hopened hi) hread
  cases h with
  | root h => exact stop_le_of_read hroot h.1
  | child hroot hchild => exact hinner _ _ (.root hroot) hchild
  | table hroot hchild hkey htable => exact hinner _ _ (.child hroot hchild (.inl hkey)) htable

theorem inner_extract (h : IsOpened b outer) : outer.inner (b.extract 0 limit) = outer.inner b :=
  readAll_extract hlimit (stop_le_of_isOpened hroot hconfined h) fun j => hconfined outer j h

theorem readTables_extract (h : ∀ table ∈ blocks, IsOpened b table) :
    blocks.mapM (readTable (b.extract 0 limit)) = blocks.mapM (readTable b) := by
  induction blocks with
  | nil => rw [List.mapM_nil, List.mapM_nil]
  | cons table blocks ih =>
    rw [List.mapM_cons, List.mapM_cons, ih fun table htable => h table (by simp [htable]),
      readTable, inner_extract hlimit hroot hconfined (h table (by simp)), readTable]

theorem addChild_extract (h : IsRoot b root) (hchild : IsInner b root child) (info : VersionInfo) :
    addChild (b.extract 0 limit) info child = addChild b info child := by
  unfold addChild
  split
  case isTrue hkey =>
    rw [inner_extract hlimit hroot hconfined (.child h hchild (.inl hkey))]
    cases hinner : child.inner b with
    | error => rw [error_bind, error_bind]
    | ok tables =>
      rw [ok_bind, ok_bind, readTables_extract hlimit hroot hconfined fun table htable =>
        .table h hchild hkey (exists_inRow_of_mem hinner htable)]
  case isFalse =>
    split
    case isTrue hkey => rw [inner_extract hlimit hroot hconfined (.child h hchild (.inr hkey))]
    case isFalse => rfl

theorem addChildren_extract (h : IsRoot b root) (hblocks : ∀ child ∈ blocks, IsInner b root child)
    (info : VersionInfo) :
    blocks.foldlM (addChild (b.extract 0 limit)) info = blocks.foldlM (addChild b) info := by
  induction blocks generalizing info with
  | nil => rw [List.foldlM_nil, List.foldlM_nil]
  | cons child blocks ih =>
    rw [List.foldlM_cons, List.foldlM_cons,
      addChild_extract hlimit hroot hconfined h (hblocks child (by simp))]
    exact bind_congr fun info => ih (fun child hchild => hblocks child (by simp [hchild])) info

/-- What lies behind all blocks does not count. -/
theorem parse_extract (hsix : 6 ≤ limit) : parse (b.extract 0 limit) = parse b := by
  rw [parse, parse, read_extract hlimit (by omega) hroot]
  cases hread : Block.read b 0 with
  | error => rw [error_bind, error_bind]
  | ok root =>
    rw [ok_bind, ok_bind]
    split
    case isTrue => rw [throw_eq_error, error_bind, error_bind]
    case isFalse hkey =>
      have h : IsRoot b root := ⟨hread, by simpa using hkey⟩
      rw [inner_extract hlimit hroot hconfined (.root h)]
      cases hinner : root.inner b with
      | error => rw [error_bind, error_bind]
      | ok children =>
        rw [ok_bind, ok_bind]
        exact addChildren_extract hlimit hroot hconfined h
          (fun child => exists_inRow_of_mem hinner) _

end Extract

end VersionInfo

/-! ## What was written -/

namespace Version.Written

variable {w : Written} {ws : List Written} {block inner : Block}

theorem endsWithin (hw : w.Fits) (h : b.Holds i w.bytes) (hle : i + w.length ≤ limit) :
    EndsWithin b limit i := by
  intro length hlength _
  obtain ⟨hstated, -, -⟩ := numbers_eq h hw
  have hlength : length = UInt16.ofNat w.length :=
    Option.some.inj (hlength.symm.trans (orFault_eq_ok_iff.1 hstated))
  have hnumber : length.toNat = w.length := by
    rw [hlength]
    exact UInt16.toNat_ofNat_of_lt hw.length_lt
  have hshort := hw.key.length_le
  have hfits := stop_le_size h
  obtain ⟨hhead, hvalue, hinner, htotal⟩ := length_parts_eq w
  have hunits : b.units (i + 6) (encode w.key ++ [0]).length = encode w.key ++ [0] :=
    (head_holds h).right.right.right.units
  have hzero : b.u16? (i + 6 + 2 * (encode w.key).length) = some 0 := by
    rw [← getElem?_units (n := (encode w.key ++ [0]).length) (by simp) (by omega), hunits,
      List.getElem?_concat_length]
  refine ⟨by omega, .inr ⟨(encode w.key).length, ?_, hzero, by omega⟩⟩
  exact Nat.lt_succ_of_le hshort

/-- A block that is read in a row of written blocks is one of them. -/
theorem exists_of_inRow (hfits : ∀ w ∈ ws, w.Fits) (h : b.Holds i (ws.flatMap bytes))
    (hi : i % 4 = 0) (hj : InRow b (i + (ws.flatMap bytes).length) i j) :
    ∃ w ∈ ws, b.Holds j w.bytes ∧ j % 4 = 0 ∧ j + w.length ≤ i + (ws.flatMap bytes).length := by
  induction ws generalizing i with
  | nil =>
    have hroom : i + 6 ≤ i + 0 := by
      cases hj <;> assumption
    omega
  | cons w ws ih =>
    rw [List.flatMap_cons, List.length_append, length_bytes] at hj ⊢
    rw [List.flatMap_cons] at h
    have hw := hfits w (by simp)
    cases hj with
    | here => exact ⟨w, by simp, h.left, hi, by omega⟩
    | there _ hread hrest =>
      rw [read_eq hw h.left hi] at hread
      cases hread
      rw [next_blockAt hw hi, ← Nat.add_assoc] at hrest
      have hrow := h.right
      rw [length_bytes] at hrow
      have hmod := hw.length_mod
      obtain ⟨x, hx, hholds, hj, hle⟩ :=
        ih (fun w hw => hfits w (by simp [hw])) hrow (by omega) hrest
      exact ⟨x, by simp [hx], hholds, hj, by omega⟩

section Stands

variable (h : Stands b w block) (hw : w.inner = ws.flatMap bytes) (hfits : ∀ w ∈ ws, w.Fits)
include h hw hfits

theorem Stands.exists_of_begins (hj : Begins b block j) :
    ∃ x ∈ ws, b.Holds j x.bytes ∧ j % 4 = 0 ∧ j + x.length ≤ block.stop := by
  have hinner := h.inner_holds
  unfold Begins at hj
  rw [h.stop_eq] at hj ⊢
  rw [hw] at hj hinner ⊢
  exact exists_of_inRow hfits hinner h.innerStart_mod hj

theorem Stands.endsWithin_of_begins (hstop : block.stop ≤ limit) (hj : Begins b block j) :
    EndsWithin b limit j := by
  obtain ⟨x, hx, hholds, -, hle⟩ := h.exists_of_begins hw hfits hj
  exact endsWithin (hfits x hx) hholds (by omega)

theorem Stands.exists_of_isInner (hinner : VersionInfo.IsInner b block inner) :
    ∃ x ∈ ws, Stands b x inner ∧ inner.stop ≤ block.stop := by
  obtain ⟨j, hj, hread⟩ := hinner
  obtain ⟨x, hx, hholds, hmod, hle⟩ := h.exists_of_begins hw hfits hj
  rw [read_eq (hfits x hx) hholds hmod] at hread
  cases hread
  exact ⟨x, hx, stands_blockAt hholds hmod, hle⟩

end Stands

end Version.Written

namespace VersionInfo

open Written

variable {v : VersionInfo} {unread : UnreadVersion} {root child : Block}

theorem Encodable.rootBlocks_fit (h : v.Encodable unread) :
    ∀ w ∈ [v.stringsBlock, v.languagesBlock], w.Fits := by
  simpa using ⟨h.stringsBlock_fits, h.languagesBlock_fits⟩

section Encodable

variable (h : v.Encodable unread) (hholds : b.Holds 0 (v.rootBlock unread).bytes)
include h hholds

theorem stands_of_isRoot (hroot : IsRoot b root) :
    Stands b (v.rootBlock unread) root ∧ root.stop = (v.rootBlock unread).length := by
  obtain ⟨hread, -⟩ := hroot
  rw [read_eq h.rootBlock_fits hholds rfl] at hread
  cases hread
  exact ⟨stands_blockAt hholds rfl, Nat.zero_add _⟩

theorem stands_of_isInner (hroot : IsRoot b root) (hchild : IsInner b root child) :
    (Stands b v.stringsBlock child ∨ Stands b v.languagesBlock child) ∧
      child.stop ≤ (v.rootBlock unread).length := by
  obtain ⟨hstands, hstop⟩ := stands_of_isRoot h hholds hroot
  obtain ⟨w, hw, hchild, hle⟩ := hstands.exists_of_isInner rfl h.rootBlocks_fit hchild
  simp only [List.mem_cons, List.not_mem_nil, or_false] at hw
  rcases hw with rfl | rfl
  · exact ⟨.inl hchild, by omega⟩
  · exact ⟨.inr hchild, by omega⟩

/-- The inner blocks of what was written end where it ends. -/
theorem confined_of_holds : Confined b (v.rootBlock unread).length := by
  intro outer i hopened hi
  cases hopened with
  | root hroot =>
    obtain ⟨hstands, hstop⟩ := stands_of_isRoot h hholds hroot
    exact hstands.endsWithin_of_begins rfl h.rootBlocks_fit (Nat.le_of_eq hstop) hi
  | child hroot hchild =>
    obtain ⟨hstrings | hlanguages, hstop⟩ := stands_of_isInner h hholds hroot hchild
    · exact hstrings.endsWithin_of_begins rfl h.tableBlocks_fit hstop hi
    · exact hlanguages.endsWithin_of_begins rfl (by simpa using h.translationBlock_fits) hstop hi
  | table hroot hchild hkey htable =>
    rename_i child
    obtain ⟨hstrings | hlanguages, hstop⟩ := stands_of_isInner h hholds hroot hchild
    · obtain ⟨w, hw, hstands, hle⟩ := hstrings.exists_of_isInner rfl h.tableBlocks_fit htable
      obtain ⟨t, ht, rfl⟩ := List.mem_map.1 hw
      exact hstands.endsWithin_of_begins rfl
        (stringBlocks_fit (h.strings_key t ht) (h.tableBlock_lt ht)) (by omega) hi
    · have hother : child.key = "VarFileInfo" := hlanguages.key_eq
      rw [hother] at hkey
      exact absurd hkey (by decide)

/-- What was written reads as if nothing followed it. -/
theorem parse_of_holds : parse b = parse (v.bytes unread) := by
  have hlength := length_bytes (v.rootBlock unread)
  have hsize := stop_le_size hholds
  have hcut : b.extract 0 (v.rootBlock unread).length = v.bytes unread := by
    have hcut := hholds.extract (Nat.zero_le _)
    rwa [Nat.zero_add, hlength] at hcut
  rw [Nat.zero_add] at hsize
  have hroot : EndsWithin b (v.rootBlock unread).length 0 :=
    endsWithin h.rootBlock_fits hholds (Nat.le_of_eq (Nat.zero_add _))
  have hlong := six_lt_length (v.rootBlock unread)
  rw [← hcut, parse_extract hsize hroot (confined_of_holds h hholds) (Nat.le_of_lt hlong)]

end Encodable

/-- What lies behind the root block does not count for the root block, and for nothing else as long
as every inner block that is read ends in the root block. -/
theorem parse_rootBlock {length : UInt16} (hlength : b.u16? 0 = some length)
    (hsize : length.toNat ≤ b.size) (hkey : b.TextEndsWithin length.toNat 6 Block.keyBound) :
    Block.read (b.extract 0 length.toNat) 0 = Block.read b 0 ∧
      (Confined b length.toNat → parse (b.extract 0 length.toNat) = parse b) := by
  have hroot : EndsWithin b length.toNat 0 := by
    intro stated hstated _
    obtain rfl : length = stated := Option.some.inj (hlength.symm.trans hstated)
    exact ⟨by rw [Nat.zero_add], hkey⟩
  have hsix : 6 ≤ length.toNat := by
    rcases hkey with hall | ⟨k, -, -, hk⟩ <;> omega
  exact ⟨read_extract hsize (by omega) hroot, fun h => parse_extract hsize hroot h hsix⟩

/-- One string and one language. -/
def single : VersionInfo where
  fixed := none
  tables := [⟨"040904b0", [("A", "B")]⟩]
  languages := [(0x409, 0x4B0)]

/-- Version information with four bytes behind it. -/
def followed : Bytes := ((single.rootBlock ⟨0, 0, 0⟩).bytes ++ [9, 4, 0xB0, 4]).toByteArray

theorem parse_rootBlock_followed :
    followed.u16? 0 = some 184 ∧ 184 < followed.size ∧
      followed.TextEndsWithin 184 6 Block.keyBound ∧ Confined followed 184 ∧
      Block.read (followed.extract 0 184) 0 = Block.read followed 0 ∧
      parse (followed.extract 0 184) = parse followed := by
  have hencodable : single.Encodable ⟨0, 0, 0⟩ := by
    constructor <;> decide +kernel
  have hlength : (single.rootBlock ⟨0, 0, 0⟩).length = 184 := by decide +kernel
  have hholds : followed.Holds 0 (single.rootBlock ⟨0, 0, 0⟩).bytes := (holds_toByteArray _).left
  have hstated : followed.u16? 0 = some 184 := by
    have hnumber := orFault_eq_ok_iff.1 (numbers_eq hholds hencodable.rootBlock_fits).1
    rwa [hlength] at hnumber
  have hsize : 184 < followed.size := by
    rw [followed, List.size_toByteArray, List.length_append, length_bytes, hlength]
    decide
  have hroot : EndsWithin followed 184 0 :=
    endsWithin hencodable.rootBlock_fits hholds (by rw [hlength])
  obtain ⟨-, hkey⟩ := hroot 184 hstated (by decide)
  have hconfined : Confined followed 184 := hlength ▸ confined_of_holds hencodable hholds
  obtain ⟨hread, hparse⟩ := parse_rootBlock hstated (Nat.le_of_lt hsize) hkey
  exact ⟨hstated, hsize, hkey, hconfined, hread, hparse hconfined⟩

/-- A root block of 104 bytes that holds one block. That one is said to end at 108, and the
language in it stands in the last four bytes. -/
def overlong : Bytes :=
  let root : List UInt8 := [104, 0, 0, 0, 0, 0, 86, 0, 83, 0, 95, 0, 86, 0, 69, 0, 82, 0, 83, 0, 73,
    0, 79, 0, 78, 0, 95, 0, 73, 0, 78, 0, 70, 0, 79, 0, 0, 0, 0, 0]
  let languages : List UInt8 := [68, 0, 0, 0, 1, 0, 86, 0, 97, 0, 114, 0, 70, 0, 105, 0, 108, 0, 101,
    0, 73, 0, 110, 0, 102, 0, 111, 0, 0, 0, 0, 0]
  let translation : List UInt8 := [36, 0, 4, 0, 0, 0, 84, 0, 114, 0, 97, 0, 110, 0, 115, 0, 108, 0,
    97, 0, 116, 0, 105, 0, 111, 0, 110, 0, 0, 0, 0, 0, 9, 4, 0xB0, 4]
  (root ++ languages ++ translation).toByteArray

/-- A language is reported from behind the root block. -/
theorem parse_overlong :
    overlong.u16? 0 = some 104 ∧ 104 < overlong.size ∧
      overlong.TextEndsWithin 104 6 Block.keyBound ∧
      (parse (overlong.extract 0 104)).toOption = some ⟨none, [], []⟩ ∧
      (parse overlong).toOption = some ⟨none, [], [(0x409, 0x4B0)]⟩ := by
  refine ⟨by decide +kernel, by decide +kernel, ?_, by decide +kernel, by decide +kernel⟩
  exact .inr ⟨15, by decide, by decide +kernel, by decide⟩

end VersionInfo

end ImageTriage
