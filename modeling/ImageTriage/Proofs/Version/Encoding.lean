import ImageTriage.Proofs.Version.Blocks
import ImageTriage.Version.Info

/-!
# Writing version information

`VersionInfo.bytes` writes version information as a tree of blocks: a root block with the fixed part
as its value, in it the tables of strings and the list of languages. What was written reads as what
it was (`VersionInfo.parse_bytes`), as long as it is `Encodable`: keys have an end that can be seen,
texts do not end in what their reader takes off, and no length is too large for its field.
-/

namespace ImageTriage

open Bytes Utf16 Version Written

/-! ## The fixed part -/

namespace VersionNumber

/-- The first two numbers, in one word. -/
def highWord (v : VersionNumber) : UInt32 := UInt32.ofNat (v.first.toNat * 65536 + v.second.toNat)

/-- The last two numbers, in one word. -/
def lowWord (v : VersionNumber) : UInt32 := UInt32.ofNat (v.third.toNat * 65536 + v.fourth.toNat)

theorem halves (high low : UInt16) :
    (UInt32.ofNat (high.toNat * 65536 + low.toNat) >>> 16).toUInt16 = high ∧
      (UInt32.ofNat (high.toNat * 65536 + low.toNat)).toUInt16 = low := by
  have hhigh := high.toNat_lt
  have hlow := low.toNat_lt
  have hword : (UInt32.ofNat (high.toNat * 65536 + low.toNat)).toNat =
      high.toNat * 65536 + low.toNat := UInt32.toNat_ofNat_of_lt (by unfold UInt32.size; omega)
  constructor
  · rw [← UInt16.toNat_inj, UInt32.toNat_toUInt16, UInt32.toNat_shiftRight, hword]
    change (high.toNat * 65536 + low.toNat) >>> 16 % 65536 = _
    rw [Nat.shiftRight_eq_div_pow]
    omega
  · rw [← UInt16.toNat_inj, UInt32.toNat_toUInt16, hword]
    omega

theorem ofWords_words (v : VersionNumber) : ofWords v.highWord v.lowWord = v := by
  simp only [ofWords, highWord, lowWord, halves]

end VersionNumber

/-- The fields of the fixed part that are not kept. -/
structure UnreadVersion where
  format : UInt32
  dateHigh : UInt32
  dateLow : UInt32

namespace FixedVersion

/-- The thirteen words of the fixed part. -/
def words (v : FixedVersion) (unread : UnreadVersion) : List UInt32 :=
  [mark, unread.format, v.file.highWord, v.file.lowWord, v.product.highWord, v.product.lowWord,
    v.flagsMask, v.flags, v.system, v.fileKind, v.fileSubkind, unread.dateHigh, unread.dateLow]

/-- The fixed part, written. -/
def bytes (v : FixedVersion) (unread : UnreadVersion) : List UInt8 :=
  (v.words unread).flatMap (leBytes 4 ·.toNat)

theorem read?_of_holds {b : Bytes} {v : FixedVersion} {unread : UnreadVersion}
    (h : b.Holds 0 (v.bytes unread)) : read? b = some v := by
  have hword : ∀ k < 13, b.u32? (4 * k) = (v.words unread)[k]? := by
    intro k hk
    have hword := Holds.u32?_word h (k := k) hk
    rwa [Nat.zero_add] at hword
  have h0 : b.u32? 0 = some mark := hword 0 (by decide)
  have h8 : b.u32? 8 = some v.file.highWord := hword 2 (by decide)
  have h12 : b.u32? 12 = some v.file.lowWord := hword 3 (by decide)
  have h16 : b.u32? 16 = some v.product.highWord := hword 4 (by decide)
  have h20 : b.u32? 20 = some v.product.lowWord := hword 5 (by decide)
  have h24 : b.u32? 24 = some v.flagsMask := hword 6 (by decide)
  have h28 : b.u32? 28 = some v.flags := hword 7 (by decide)
  have h32 : b.u32? 32 = some v.system := hword 8 (by decide)
  have h36 : b.u32? 36 = some v.fileKind := hword 9 (by decide)
  have h40 : b.u32? 40 = some v.fileSubkind := hword 10 (by decide)
  rw [read?, h0, h8, h12, h16, h20, h24, h28, h32, h36, h40]
  change some (FixedVersion.mk (.ofWords v.file.highWord v.file.lowWord)
    (.ofWords v.product.highWord v.product.lowWord) v.flagsMask v.flags v.system v.fileKind
    v.fileSubkind) = some v
  rw [VersionNumber.ofWords_words, VersionNumber.ofWords_words]

end FixedVersion

namespace VersionInfo

/-- A string of a table. -/
def stringBlock (s : String × String) : Written where
  key := s.1
  isText := true
  value := unitBytes (encode s.2 ++ [0])
  inner := []

/-- A table of strings. -/
def tableBlock (t : VersionStrings) : Written where
  key := t.key
  isText := true
  value := []
  inner := (t.strings.map stringBlock).flatMap bytes

/-- All tables of strings. -/
def stringsBlock (v : VersionInfo) : Written where
  key := "StringFileInfo"
  isText := true
  value := []
  inner := (v.tables.map tableBlock).flatMap bytes

/-- A language and its code page. -/
def pairBytes (pair : UInt16 × UInt16) : List UInt8 :=
  leBytes 2 pair.1.toNat ++ leBytes 2 pair.2.toNat

/-- The list of languages. -/
def translationBlock (v : VersionInfo) : Written where
  key := "Translation"
  isText := false
  value := v.languages.flatMap pairBytes
  inner := []

/-- The languages. -/
def languagesBlock (v : VersionInfo) : Written where
  key := "VarFileInfo"
  isText := true
  value := []
  inner := [v.translationBlock].flatMap bytes

/-- Everything. -/
def rootBlock (v : VersionInfo) (unread : UnreadVersion) : Written where
  key := "VS_VERSION_INFO"
  isText := false
  value := (v.fixed.map (·.bytes unread)).getD []
  inner := [v.stringsBlock, v.languagesBlock].flatMap bytes

/-- Version information, written. -/
def bytes (v : VersionInfo) (unread : UnreadVersion) : Bytes :=
  (v.rootBlock unread).bytes.toByteArray

/-- Version information that can be written. -/
structure Encodable (v : VersionInfo) (unread : UnreadVersion) : Prop where
  tables_key : ∀ t ∈ v.tables, IsKey t.key
  strings_key : ∀ t ∈ v.tables, ∀ s ∈ t.strings, IsKey s.1
  strings_value : ∀ t ∈ v.tables, ∀ s ∈ t.strings, s.2.toList.getLast? ≠ some nul
  /-- The root block is the longest. -/
  length_lt : (v.rootBlock unread).length < 0x10000

/-! ### What is written fits -/

variable {v : VersionInfo} {unread : UnreadVersion} {t : VersionStrings} {s : String × String}

theorem isKey_root : IsKey "VS_VERSION_INFO" := by decide

theorem isKey_stringFileInfo : IsKey "StringFileInfo" := by decide

theorem isKey_varFileInfo : IsKey "VarFileInfo" := by decide

theorem isKey_translation : IsKey "Translation" := by decide

theorem stringBlock_fits (hkey : IsKey s.1) (hlength : (stringBlock s).length < 0x10000) :
    (stringBlock s).Fits where
  key := hkey
  value_even _ := by
    rw [stringBlock, length_unitBytes]
    omega
  inner_mod := rfl
  length_lt := hlength

theorem stringBlocks_fit (hstrings : ∀ s ∈ t.strings, IsKey s.1)
    (hlength : (tableBlock t).length < 0x10000) : ∀ w ∈ t.strings.map stringBlock, w.Fits := by
  intro w hw
  have hle := length_le_of_mem (w := tableBlock t) hw rfl
  obtain ⟨s, hs, rfl⟩ := List.mem_map.1 hw
  exact stringBlock_fits (hstrings s hs) (by omega)

theorem tableBlock_fits (hkey : IsKey t.key) (hstrings : ∀ s ∈ t.strings, IsKey s.1)
    (hlength : (tableBlock t).length < 0x10000) : (tableBlock t).Fits where
  key := hkey
  value_even _ := rfl
  inner_mod := length_flatMap_mod (stringBlocks_fit hstrings hlength)
  length_lt := hlength

namespace Encodable

variable (h : v.Encodable unread)
include h

theorem stringsBlock_lt : v.stringsBlock.length < 0x10000 := by
  have hle := length_le_of_mem (x := v.stringsBlock) (w := v.rootBlock unread) (by simp) rfl
  have hlt := h.length_lt
  omega

theorem tableBlock_lt (ht : t ∈ v.tables) : (tableBlock t).length < 0x10000 := by
  have hle := length_le_of_mem (x := tableBlock t) (w := v.stringsBlock)
    (List.mem_map_of_mem ht) rfl
  have hlt := h.stringsBlock_lt
  omega

theorem tableBlocks_fit : ∀ w ∈ v.tables.map tableBlock, w.Fits := by
  intro w hw
  obtain ⟨t, ht, rfl⟩ := List.mem_map.1 hw
  exact tableBlock_fits (h.tables_key t ht) (h.strings_key t ht) (h.tableBlock_lt ht)

theorem stringsBlock_fits : v.stringsBlock.Fits where
  key := isKey_stringFileInfo
  value_even _ := rfl
  inner_mod := length_flatMap_mod h.tableBlocks_fit
  length_lt := h.stringsBlock_lt

theorem languagesBlock_lt : v.languagesBlock.length < 0x10000 := by
  have hle := length_le_of_mem (x := v.languagesBlock) (w := v.rootBlock unread) (by simp) rfl
  have hlt := h.length_lt
  omega

theorem translationBlock_fits : v.translationBlock.Fits where
  key := isKey_translation
  value_even := nofun
  inner_mod := rfl
  length_lt := by
    have hle := length_le_of_mem (x := v.translationBlock) (w := v.languagesBlock) (by simp) rfl
    have hlt := h.languagesBlock_lt
    omega

theorem languagesBlock_fits : v.languagesBlock.Fits where
  key := isKey_varFileInfo
  value_even _ := rfl
  inner_mod := length_flatMap_mod (by simpa using h.translationBlock_fits)
  length_lt := h.languagesBlock_lt

theorem rootBlock_fits : (v.rootBlock unread).Fits where
  key := isKey_root
  value_even := nofun
  inner_mod := length_flatMap_mod (by
    simpa using ⟨h.stringsBlock_fits, h.languagesBlock_fits⟩)
  length_lt := h.length_lt

end Encodable

/-! ### Reading what was written -/

variable {b : Bytes} {block : Block} {blocks : List Block}

/-- The one NUL that ends a text is taken off, and no more. -/
theorem dropWhile_nul {cs : List Char} (h : cs.getLast? ≠ some nul) :
    ((cs ++ [nul]).reverse.dropWhile (· == nul)).reverse = cs := by
  rw [List.reverse_append, List.reverse_singleton, List.singleton_append,
    List.dropWhile_cons_of_pos (by rfl)]
  rw [List.getLast?_eq_head?_reverse] at h
  conv_rhs => rw [← cs.reverse_reverse]
  cases hcs : cs.reverse with
  | nil => rfl
  | cons c rest =>
    have hc : c ≠ nul := by
      rintro rfl
      simp [hcs] at h
    rw [List.dropWhile_cons_of_neg (by simpa using hc)]

theorem charsLossy_encode_nul (s : String) :
    charsLossy (encode s ++ [0]) = s.toList ++ [nul] := by
  refine charsLossy_of_chars? ?_
  have hunits : encode s ++ [0] = (s.toList ++ [nul]).flatMap charUnits := by
    rw [List.flatMap_append]
    rfl
  rw [hunits, chars?_flatMap_charUnits]

theorem text_of_stands (h : Stands b (stringBlock s) block)
    (hvalue : s.2.toList.getLast? ≠ some nul) : block.text = s.2 := by
  have hunits : units block.value 0 (block.value.size / 2) = encode s.2 ++ [0] := by
    have hholds := holds_toByteArray (unitBytes (encode s.2 ++ [0]))
    have hsize : (unitBytes (encode s.2 ++ [0])).toByteArray.size / 2 =
        (encode s.2 ++ [0]).length := by
      rw [List.size_toByteArray, length_unitBytes]
      omega
    rw [h.value_eq]
    change units _ 0 ((unitBytes (encode s.2 ++ [0])).toByteArray.size / 2) = _
    rw [hsize]
    exact hholds.units
  have htext : block.isText = true := h.isText_eq
  rw [Block.text, if_pos htext, hunits, charsLossy_encode_nul]
  exact (congrArg String.ofList (dropWhile_nul hvalue)).trans String.ofList_toList

theorem strings_of_stands {ss : List (String × String)}
    (h : List.Forall₂ (Stands b) (ss.map stringBlock) blocks)
    (hvalue : ∀ s ∈ ss, s.2.toList.getLast? ≠ some nul) :
    blocks.map (fun s => (s.key, s.text)) = ss := by
  induction ss generalizing blocks with
  | nil =>
    cases h
    rfl
  | cons s ss ih =>
    cases h with
    | cons hfirst hrest =>
      rw [List.map_cons, ih hrest fun s hs => hvalue s (by simp [hs]), hfirst.key_eq,
        text_of_stands hfirst (hvalue s (by simp))]
      rfl

theorem readTable_of_stands (h : Stands b (tableBlock t) block)
    (hfits : ∀ w ∈ t.strings.map stringBlock, w.Fits)
    (hvalue : ∀ s ∈ t.strings, s.2.toList.getLast? ≠ some nul) : readTable b block = .ok t := by
  obtain ⟨strings, hstrings, hall⟩ := h.exists_inner rfl hfits
  rw [readTable, hstrings, ok_bind, strings_of_stands hall hvalue, h.key_eq]
  rfl

theorem readTables_of_stands {ts : List VersionStrings}
    (hall : List.Forall₂ (Stands b) (ts.map tableBlock) blocks)
    (hread : ∀ t ∈ ts, ∀ block, Stands b (tableBlock t) block → readTable b block = .ok t) :
    blocks.mapM (readTable b) = .ok ts := by
  induction ts generalizing blocks with
  | nil =>
    cases hall
    rfl
  | cons t ts ih =>
    cases hall with
    | cons hfirst hrest =>
      rw [List.mapM_cons, hread t (by simp) _ hfirst, ok_bind,
        ih hrest fun t ht => hread t (by simp [ht])]
      rfl

theorem readPairs_toByteArray (pairs : List (UInt16 × UInt16)) :
    readPairs (pairs.flatMap pairBytes).toByteArray = pairs := by
  have hlength : ∀ pair, (pairBytes pair).length = 4 := fun pair => by simp [pairBytes]
  have hsize : (pairs.flatMap pairBytes).toByteArray.size / 4 = pairs.length := by
    rw [List.size_toByteArray, length_parts hlength]
    omega
  rw [readPairs, hsize]
  refine List.ext_getElem (by simp) fun k hk hk' => ?_
  have hpart := (holds_toByteArray (pairs.flatMap pairBytes)).part hlength hk'
  rw [Nat.zero_add] at hpart
  have hfirst := hpart.left.u16?
  have hsecond := hpart.right.u16?
  rw [length_leBytes] at hsecond
  rw [List.getElem_map, List.getElem_range, hfirst, hsecond]
  rfl

/-- The tables are added to those that were found before. -/
theorem addChild_stringsBlock (hv : v.Encodable unread) (h : Stands b v.stringsBlock block)
    (info : VersionInfo) :
    addChild b info block = .ok { info with tables := info.tables ++ v.tables } := by
  obtain ⟨tables, htables, hall⟩ := h.exists_inner rfl hv.tableBlocks_fit
  have hkey : block.key = "StringFileInfo" := h.key_eq
  have hread : tables.mapM (readTable b) = .ok v.tables :=
    readTables_of_stands hall fun t ht _ hstands => readTable_of_stands hstands
      (stringBlocks_fit (hv.strings_key t ht) (hv.tableBlock_lt ht)) (hv.strings_value t ht)
  rw [addChild, if_pos hkey, htables, ok_bind, hread]
  rfl

/-- The languages are added to those that were found before. -/
theorem addChild_languagesBlock (hv : v.Encodable unread) (h : Stands b v.languagesBlock block)
    (info : VersionInfo) :
    addChild b info block = .ok { info with languages := info.languages ++ v.languages } := by
  obtain ⟨lists, hlists, hall⟩ := h.exists_inner rfl
    (by simpa using hv.translationBlock_fits)
  have hkey : block.key = "VarFileInfo" := h.key_eq
  cases hall with
  | cons hlist hnil =>
    cases hnil
    rename_i list
    have htranslation : list.key = "Translation" := hlist.key_eq
    have hpairs : readPairs list.value = v.languages := by
      rw [hlist.value_eq]
      exact readPairs_toByteArray v.languages
    rw [addChild, if_neg (by rw [hkey]; decide), if_pos hkey, hlists, ok_bind]
    simp [htranslation, hpairs]

theorem read?_rootBlock (v : VersionInfo) (unread : UnreadVersion) :
    FixedVersion.read? (v.rootBlock unread).value.toByteArray = v.fixed := by
  rw [rootBlock]
  cases v.fixed with
  | none => rfl
  | some fixed => exact FixedVersion.read?_of_holds (holds_toByteArray _)

/-- Reading undoes writing. -/
theorem parse_bytes (h : v.Encodable unread) : parse (v.bytes unread) = .ok v := by
  have hholds : (v.bytes unread).Holds 0 (v.rootBlock unread).bytes := holds_toByteArray _
  have hread := read_eq h.rootBlock_fits hholds rfl
  have hroot := stands_blockAt hholds rfl
  obtain ⟨children, hchildren, hall⟩ := hroot.exists_inner rfl
    (by simpa using ⟨h.stringsBlock_fits, h.languagesBlock_fits⟩)
  have hkey : ((v.rootBlock unread).blockAt 0).key = "VS_VERSION_INFO" := hroot.key_eq
  have hfixed : FixedVersion.read? ((v.rootBlock unread).blockAt 0).value = v.fixed := by
    rw [hroot.value_eq, read?_rootBlock]
  cases hall with
  | cons hstrings hrest =>
    cases hrest with
    | cons hlanguages hnil =>
      cases hnil
      rw [parse, hread, ok_bind, if_neg (by rw [hkey]; decide), hchildren, hfixed]
      change List.foldlM _ _ _ = _
      rw [List.foldlM_cons, addChild_stringsBlock h hstrings, ok_bind, List.foldlM_cons,
        addChild_languagesBlock h hlanguages, ok_bind]
      rfl

/-- Two tables, one of them empty, and a character beyond the basic plane. -/
def sample : VersionInfo where
  fixed := some {
    file := ⟨1, 2, 3, 4⟩
    product := ⟨1, 2, 0, 0xFFFF⟩
    flagsMask := 0x3F
    flags := 1
    system := 0x40004
    fileKind := 2
    fileSubkind := 0 }
  tables := [⟨"040904b0", [("CompanyName", "Example Corp"), ("Comments", "𝄞")]⟩, ⟨"040704b0", []⟩]
  languages := [(0x409, 0x4B0), (0x407, 0x4B0)]

theorem parse_bytes_sample : sample.Encodable ⟨0x10000, 0, 0⟩ ∧
    parse (sample.bytes ⟨0x10000, 0, 0⟩) = .ok sample := by
  have h : sample.Encodable ⟨0x10000, 0, 0⟩ := by
    constructor
    · decide
    · decide
    · decide
    · decide +kernel
  exact ⟨h, parse_bytes h⟩

end VersionInfo

end ImageTriage
