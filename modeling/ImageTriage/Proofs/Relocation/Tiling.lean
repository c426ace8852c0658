import ImageTriage.Proofs.Bytes.Layout
import ImageTriage.Proofs.Section.Lookup
import ImageTriage.Relocation

/-!
# Relocation directories are tiled by blocks

`Tiles xs blocks` says that bytes are blocks, one after the other, and a rest: too short for a block
or begun by a block of zeros. A relocation directory is read exactly if it is tiled, and what is
read are the blocks of the tiling; every other directory is malformed (`parseAll_eq_ok_iff_tiles`).

Two lemmas carry this. What lies at an offset is a rest, a block that ends in time, or neither
(`rest_or_block`), and the reader passes over a block that ends in time (`readFrom_of_block`).
-/

namespace ImageTriage

open Bytes

/-! ## Patches as bytes -/

namespace Relocation

/-- The patches that bytes make up, two bytes a patch: the kind is the high half of the second. A
last byte without a second is passed over. -/
def ofBytes : List UInt8 → List Relocation
  | low :: high :: rest =>
    ⟨UInt8.ofNat (high.toNat / 16), UInt16.ofNat (high.toNat % 16 * 256 + low.toNat)⟩
      :: ofBytes rest
  | _ => []

/-- The two bytes of a patch: the kind above twelve bits for the place. -/
def bytes (r : Relocation) : List UInt8 := leBytes 2 (r.kind.toNat * 4096 + r.offset.toNat)

theorem toNat_kind_ofWord (w : UInt16) : (ofWord w).kind.toNat = w.toNat / 4096 := by
  have hw := w.toNat_lt
  have hshift : (w >>> 12).toNat = w.toNat / 4096 := by
    rw [UInt16.toNat_shiftRight, Nat.shiftRight_eq_div_pow]
    rfl
  rw [ofWord, UInt16.toNat_toUInt8, hshift, Nat.mod_eq_of_lt (by omega)]

theorem toNat_offset_ofWord (w : UInt16) : (ofWord w).offset.toNat = w.toNat % 4096 := by
  rw [ofWord, UInt16.toNat_and]
  exact Nat.and_two_pow_sub_one_eq_mod w.toNat 12

theorem ofWord_ofNat (low high : UInt8) :
    ofWord (UInt16.ofNat (low.toNat + 256 * high.toNat)) =
      ⟨UInt8.ofNat (high.toNat / 16), UInt16.ofNat (high.toNat % 16 * 256 + low.toNat)⟩ := by
  have hlow := low.toNat_lt
  have hhigh := high.toNat_lt
  have hkind := toNat_kind_ofWord (UInt16.ofNat (low.toNat + 256 * high.toNat))
  have hoffset := toNat_offset_ofWord (UInt16.ofNat (low.toNat + 256 * high.toNat))
  rw [UInt16.toNat_ofNat'] at hkind hoffset
  rw [Relocation.mk.injEq, ← UInt8.toNat_inj, ← UInt16.toNat_inj, hkind, hoffset,
    UInt8.toNat_ofNat', UInt16.toNat_ofNat']
  constructor <;> omega

variable {b : Bytes} {i : Nat} {low high : UInt8}

theorem u16?_of_pair {xs : List UInt8} (h : b.Holds i (low :: high :: xs)) :
    b.u16? i = some (UInt16.ofNat (low.toNat + 256 * high.toNat)) := by
  obtain ⟨hlow, hhigh, -⟩ := h
  simp [Bytes.u16?, Bytes.leNat?, hlow, hhigh]

theorem length_ofBytes : ∀ xs, (ofBytes xs).length = xs.length / 2
  | [] => rfl
  | [x] => by simp [ofBytes]
  | low :: high :: rest => by
    rw [ofBytes, List.length_cons, length_ofBytes rest, List.length_cons, List.length_cons]
    omega

/-- An even number of bytes is lost in no part. -/
theorem flatMap_bytes_ofBytes : ∀ xs, 2 ∣ xs.length → (ofBytes xs).flatMap bytes = xs
  | [], _ => rfl
  | [x], h => absurd h (by simp)
  | low :: high :: rest, h => by
    have hlow := low.toNat_lt
    have hhigh := high.toNat_lt
    have hrest : 2 ∣ rest.length := by
      rw [List.length_cons, List.length_cons] at h
      omega
    have hpair : bytes ⟨UInt8.ofNat (high.toNat / 16),
        UInt16.ofNat (high.toNat % 16 * 256 + low.toNat)⟩ = [low, high] := by
      have hword : high.toNat / 16 % 2 ^ 8 * 4096 + (high.toNat % 16 * 256 + low.toNat) % 2 ^ 16 =
          low.toNat + 256 * high.toNat := by omega
      have hfirst : (low.toNat + 256 * high.toNat) % 256 = low.toNat := by omega
      have hsecond : (low.toNat + 256 * high.toNat) / 256 % 256 = high.toNat := by omega
      rw [bytes, UInt8.toNat_ofNat', UInt16.toNat_ofNat', hword, leBytes, leBytes, leBytes, hfirst,
        hsecond, UInt8.ofNat_toNat, UInt8.ofNat_toNat]
    rw [ofBytes, List.flatMap_cons, hpair, flatMap_bytes_ofBytes rest hrest]
    rfl

/-- Each patch is the word that stands at its place. -/
theorem exists_word_of_holds {j : Nat} : ∀ {i : Nat} (xs : List UInt8), b.Holds i xs →
    (hj : j < (ofBytes xs).length) →
    ∃ w, b.u16? (i + 2 * j) = some w ∧ (ofBytes xs)[j] = ofWord w
  | _, [], _, hj => absurd hj (Nat.not_lt_zero j)
  | _, [_], _, hj => absurd hj (Nat.not_lt_zero j)
  | i, low :: high :: rest, h, hj => by
    cases j with
    | zero => exact ⟨_, u16?_of_pair h, (ofWord_ofNat low high).symm⟩
    | succ j =>
      obtain ⟨w, hw, hentry⟩ := exists_word_of_holds rest h.2.2 (Nat.lt_of_succ_lt_succ hj)
      refine ⟨w, ?_, hentry⟩
      rw [← hw]
      congr 1
      omega

end Relocation

namespace RelocationBlock

variable {b : Bytes} {i : Nat}

theorem readEntries_succ {w : UInt16} (h : b.u16? i = some w) (n : Nat) :
    readEntries b i (n + 1) = Relocation.ofWord w :: readEntries b (i + 2) n := by
  have hplace : ∀ k, i + 2 * (k + 1) = i + 2 + 2 * k := by omega
  simp only [readEntries, List.range_succ_eq_map, List.filterMap_cons, Nat.mul_zero, Nat.add_zero,
    h, Option.map_some, List.filterMap_map, Function.comp_def, Nat.succ_eq_add_one, hplace]

theorem readEntries_of_holds : ∀ {i : Nat} (xs : List UInt8), b.Holds i xs →
    readEntries b i (xs.length / 2) = Relocation.ofBytes xs
  | _, [], _ => rfl
  | _, [x], _ => by simp [readEntries, Relocation.ofBytes]
  | i, low :: high :: rest, h => by
    have hcount : (low :: high :: rest).length / 2 = rest.length / 2 + 1 := by
      rw [List.length_cons, List.length_cons]
      omega
    rw [hcount, readEntries_succ (Relocation.u16?_of_pair h), readEntries_of_holds rest h.2.2,
      Relocation.ofWord_ofNat, Relocation.ofBytes]

end RelocationBlock

/-! ## Blocks as bytes -/

/-- A block as it lies in a file: the page, and the bytes behind the fixed part. -/
structure StoredBlock where
  page : UInt32
  body : List UInt8
  fits : 8 + body.length < UInt32.size

namespace StoredBlock

/-- The bytes of a block: the page, the size of the whole, the rest. -/
def bytes (s : StoredBlock) : List UInt8 :=
  leBytes 4 s.page.toNat ++ leBytes 4 (8 + s.body.length) ++ s.body

/-- What the reader should find. -/
def block (s : StoredBlock) : RelocationBlock :=
  ⟨s.page, UInt32.ofNat (8 + s.body.length), Relocation.ofBytes s.body⟩

variable {b : Bytes} {i : Nat} (s : StoredBlock)

@[simp] theorem length_bytes : s.bytes.length = 8 + s.body.length := by
  simp [bytes]
  omega

theorem toNat_size_block : s.block.size.toNat = 8 + s.body.length :=
  UInt32.toNat_ofNat_of_lt s.fits

variable {s}

theorem page_of_holds (h : b.Holds i s.bytes) : b.u32? i = some s.block.page := h.left.left.u32?

theorem size_of_holds (h : b.Holds i s.bytes) : b.u32? (i + 4) = some s.block.size := by
  have hsize := h.left.right
  rw [length_leBytes, ← s.toNat_size_block] at hsize
  exact hsize.u32?

theorem body_of_holds (h : b.Holds i s.bytes) : b.Holds (i + 8) s.body := by
  have hbody := h.right
  rwa [List.length_append, length_leBytes, length_leBytes] at hbody

/-- Where a page and a size stand, a block does. -/
theorem exists_of_size {page size : UInt32} (hpage : b.u32? i = some page)
    (hsize : b.u32? (i + 4) = some size) (hlarge : 8 ≤ size.toNat)
    (hend : i + size.toNat ≤ b.size) :
    ∃ s : StoredBlock, b.Holds i s.bytes ∧ s.bytes.length = size.toNat := by
  have hlt := size.toNat_lt
  obtain ⟨body, hbody, hlength⟩ : ∃ body, b.Holds (i + 8) body ∧ 8 + body.length = size.toNat := by
    refine ⟨_, holds_list_extract b (i + 8) (i + size.toNat), ?_⟩
    rw [length_list_extract]
    omega
  have hfields : b.Holds i (leBytes 4 page.toNat ++ leBytes 4 (8 + body.length) ++ body) := by
    rw [hlength]
    refine holds_append.2 ⟨holds_append.2 ⟨holds_of_u32? hpage, ?_⟩, ?_⟩
    · rw [length_leBytes]
      exact holds_of_u32? hsize
    · rwa [List.length_append, length_leBytes, length_leBytes]
  refine ⟨⟨page, body, ?_⟩, hfields, by rw [length_bytes, hlength]⟩
  rw [hlength]
  exact hlt

end StoredBlock

/-- A rest of a directory that holds no block: too short for one, or begun by a block of zeros. -/
def IsRelocationRest (xs : List UInt8) : Prop :=
  xs.length < 8 ∨ ∃ more, xs = List.replicate 8 0 ++ more

/-- The bytes are the blocks, one after the other, and a rest. -/
def Tiles (xs : List UInt8) (blocks : List RelocationBlock) : Prop :=
  ∃ (stored : List StoredBlock) (rest : List UInt8),
    xs = stored.flatMap StoredBlock.bytes ++ rest ∧ IsRelocationRest rest ∧
      blocks = stored.map StoredBlock.block

theorem tiles_nil {xs : List UInt8} (h : IsRelocationRest xs) : Tiles xs [] := ⟨[], xs, rfl, h, rfl⟩

theorem Tiles.cons {xs : List UInt8} {blocks : List RelocationBlock} (h : Tiles xs blocks)
    (s : StoredBlock) : Tiles (s.bytes ++ xs) (s.block :: blocks) := by
  obtain ⟨stored, rest, rfl, hrest, rfl⟩ := h
  exact ⟨s :: stored, rest, by rw [List.flatMap_cons, List.append_assoc], hrest, rfl⟩

namespace RelocationBlock

/-! ## One step of the reader -/

variable {b : Bytes} {limit i stop : Nat} {found : Array RelocationBlock}

theorem u32_eq_ok {w : UInt32} (h : b.u32? i = some w) : u32 b i = .ok w := by
  rw [u32, h, orFault_some]

/-- A block that ends in time is kept, and reading goes on behind it. -/
theorem readFrom_of_block {s : StoredBlock} (h : b.Holds i s.bytes)
    (hend : i + s.bytes.length ≤ stop) (hlimit : found.size < limit) :
    readFrom b limit i stop found =
      readFrom b limit (i + s.bytes.length) stop (found.push s.block) := by
  have hsize := s.toNat_size_block
  have hlength := s.length_bytes
  have hentries := readEntries_of_holds s.body (s.body_of_holds h)
  have hnonzero : ¬ (s.block.page = 0 ∧ s.block.size = 0) := by
    rintro ⟨-, hzero⟩
    rw [hzero] at hsize
    simp at hsize
    omega
  have hcount : (8 + s.body.length - 8) / 2 = s.body.length / 2 := by omega
  rw [readFrom, if_pos (by omega), if_neg (by omega), u32_eq_ok (s.page_of_holds h),
    u32_eq_ok (s.size_of_holds h)]
  dsimp only
  rw [if_neg hnonzero, if_neg (by omega), hsize, hcount, hentries, hlength]
  rfl

/-- A rest ends the blocks. -/
theorem readFrom_of_rest (hstop : stop ≤ b.size) (h : IsRelocationRest (list (b.extract i stop)))
    (hlimit : found.size < limit) : readFrom b limit i stop found = .ok found := by
  rw [readFrom]
  by_cases hroom : i + 8 ≤ stop
  · obtain ⟨more, hmore⟩ := h.resolve_left (by rw [length_list_extract]; omega)
    obtain ⟨hzeros, -, -⟩ := holds_of_list_extract (by omega) hstop hmore
    have hzeros : b.Holds i (leBytes 4 (0 : UInt32).toNat ++ leBytes 4 (0 : UInt32).toNat) := hzeros
    have hsize := hzeros.right.u32?
    rw [length_leBytes] at hsize
    rw [if_pos hroom, if_neg (by omega), u32_eq_ok hzeros.left.u32?, u32_eq_ok hsize]
    rfl
  · rw [if_neg hroom]

/-- What lies at an offset is a rest, or a block that ends in time, or malformed. -/
theorem rest_or_block (hstop : stop ≤ b.size) (i : Nat) :
    IsRelocationRest (list (b.extract i stop)) ∨
      (∃ s : StoredBlock, b.Holds i s.bytes ∧ i + s.bytes.length ≤ stop) ∨
      ∀ limit (found : Array RelocationBlock), found.size < limit →
        readFrom b limit i stop found = .error .relocations := by
  by_cases hroom : i + 8 ≤ stop
  case neg => exact .inl (.inl (by rw [length_list_extract]; omega))
  obtain ⟨page, hpage⟩ : ∃ page, b.u32? i = some page := ⟨_, u32?_eq_some (by omega)⟩
  obtain ⟨size, hsize⟩ : ∃ size, b.u32? (i + 4) = some size := ⟨_, u32?_eq_some (by omega)⟩
  have hfixed : b.Holds i (leBytes 4 page.toNat ++ leBytes 4 size.toNat) :=
    holds_append.2 ⟨holds_of_u32? hpage, by rw [length_leBytes]; exact holds_of_u32? hsize⟩
  by_cases hzero : page = 0 ∧ size = 0
  · obtain ⟨rfl, rfl⟩ := hzero
    have hcut := hfixed.list_extract (by omega)
    refine .inl (.inr ⟨list (b.extract (i + 8) stop), ?_⟩)
    rw [list_extract_append (k := i + 8) (by omega) hroom]
    exact congrArg (· ++ _) hcut
  by_cases hbad : size.toNat < 8 ∨ stop < i + size.toNat
  · refine .inr (.inr fun limit found hlimit => ?_)
    rw [readFrom, if_pos hroom, if_neg (by omega), u32_eq_ok hpage, u32_eq_ok hsize]
    dsimp only
    rw [if_neg hzero, if_pos hbad]
  · obtain ⟨s, hs, hlength⟩ := StoredBlock.exists_of_size hpage hsize (by omega) (by omega)
    exact .inr (.inl ⟨s, hs, by omega⟩)

/-! ## The whole directory -/

/-- Blocks that tile what is left of a directory are read, behind those that were read before. -/
theorem readFrom_of_tiles {blocks : List RelocationBlock} (hstop : stop ≤ b.size)
    (h : Tiles (list (b.extract i stop)) blocks) (hlimit : found.size + (stop - i) / 8 < limit) :
    (readFrom b limit i stop found).map Array.toList = .ok (found.toList ++ blocks) := by
  obtain ⟨stored, rest, hsplit, hrest, rfl⟩ := h
  induction stored generalizing i found with
  | nil =>
    rw [List.flatMap_nil, List.nil_append] at hsplit
    rw [readFrom_of_rest hstop (hsplit ▸ hrest) (by omega), List.map_nil, List.append_nil]
    rfl
  | cons s stored ih =>
    rw [List.flatMap_cons, List.append_assoc] at hsplit
    have hlength := s.length_bytes
    have hi : i ≤ stop := by
      have hcut := congrArg List.length hsplit
      rw [length_list_extract, List.length_append] at hcut
      omega
    obtain ⟨hs, hend, hbehind⟩ := holds_of_list_extract hi hstop hsplit
    have hroom : (found.push s.block).size + (stop - (i + s.bytes.length)) / 8 < limit := by
      rw [Array.size_push]
      omega
    rw [readFrom_of_block hs hend (by omega), ih hroom hbehind, Array.toList_push,
      List.append_assoc]
    rfl

/-- What is left of a directory is tiled by what is read of it, or malformed. -/
theorem tiles_or_malformed (hstop : stop ≤ b.size) (hlimit : found.size + (stop - i) / 8 < limit) :
    (∃ blocks, Tiles (list (b.extract i stop)) blocks ∧
      (readFrom b limit i stop found).map Array.toList = .ok (found.toList ++ blocks)) ∨
    readFrom b limit i stop found = .error .relocations := by
  -- induction on what is left of the directory; a block takes at least eight bytes of it
  induction hleft : stop - i using Nat.strong_induction_on generalizing i found with
  | _ left ih =>
    rcases rest_or_block hstop i with hrest | ⟨s, hs, hend⟩ | hbad
    · have htiles := tiles_nil hrest
      exact .inl ⟨[], htiles, readFrom_of_tiles hstop htiles hlimit⟩
    · have hlength := s.length_bytes
      have hroom : (found.push s.block).size + (stop - (i + s.bytes.length)) / 8 < limit := by
        rw [Array.size_push]
        omega
      rw [readFrom_of_block hs hend (by omega)]
      rcases ih _ (by omega) hroom rfl with ⟨blocks, htiles, hread⟩ | hbad
      · refine .inl ⟨s.block :: blocks, ?_, ?_⟩
        · rw [list_extract_append (Nat.le_add_right _ _) hend, hs.list_extract (by omega)]
          exact htiles.cons s
        · rw [hread, Array.toList_push, List.append_assoc]
          rfl
      · exact .inr hbad
    · exact .inr (hbad limit found (by omega))

/-! ## Where the blocks stand -/

/-- The bytes of a block that is made of whole patches. -/
def bytes (block : RelocationBlock) : List UInt8 :=
  leBytes 4 block.page.toNat ++ leBytes 4 block.size.toNat ++
    block.entries.flatMap Relocation.bytes

/-- The block is what the bytes from offset `i` on say, and it ends at `stop` at the latest. -/
structure StandsAt (b : Bytes) (i stop : Nat) (block : RelocationBlock) : Prop where
  page_eq : b.u32? i = some block.page
  size_eq : b.u32? (i + 4) = some block.size
  eight_le : 8 ≤ block.size.toNat
  end_le : i + block.size.toNat ≤ stop
  length_entries : block.entries.length = (block.size.toNat - 8) / 2
  /-- A patch is a word: the high four bits are its kind, the low twelve its place. -/
  entry_eq : ∀ j (hj : j < block.entries.length), ∃ w, b.u16? (i + 8 + 2 * j) = some w ∧
    block.entries[j].kind.toNat = w.toNat / 4096 ∧ block.entries[j].offset.toNat = w.toNat % 4096
  /-- Written out again, a block of even size gives the bytes that it was read from. -/
  bytes_eq : 2 ∣ block.size.toNat → list (b.extract i (i + block.size.toNat)) = block.bytes

theorem standsAt_of_holds {s : StoredBlock} (h : b.Holds i s.bytes)
    (hend : i + s.bytes.length ≤ stop) (hstop : stop ≤ b.size) : s.block.StandsAt b i stop := by
  have hsize := s.toNat_size_block
  have hlength := s.length_bytes
  refine ⟨s.page_of_holds h, s.size_of_holds h, by omega, by omega, ?_, ?_, ?_⟩
  · have hcount : (8 + s.body.length - 8) / 2 = s.body.length / 2 := by omega
    rw [hsize, hcount]
    exact Relocation.length_ofBytes s.body
  · intro j hj
    obtain ⟨w, hw, hentry⟩ := Relocation.exists_word_of_holds s.body (s.body_of_holds h) hj
    refine ⟨w, hw, ?_, ?_⟩
    · exact (congrArg (·.kind.toNat) hentry).trans (Relocation.toNat_kind_ofWord w)
    · exact (congrArg (·.offset.toNat) hentry).trans (Relocation.toNat_offset_ofWord w)
  · intro heven
    have hbody : s.block.entries.flatMap Relocation.bytes = s.body :=
      Relocation.flatMap_bytes_ofBytes s.body (by omega)
    rw [hsize, ← hlength, h.list_extract (by omega), bytes, hbody, hsize]
    rfl

/-- Each block of a tiling stands behind those before it. -/
theorem standsAt_of_tiles {blocks : List RelocationBlock} (hstop : stop ≤ b.size)
    (h : Tiles (list (b.extract i stop)) blocks) (k : Nat) (hk : k < blocks.length) :
    blocks[k].StandsAt b (i + ((blocks.take k).map (·.size.toNat)).sum) stop := by
  obtain ⟨stored, rest, hsplit, -, rfl⟩ := h
  rw [List.length_map] at hk
  have hstored : stored = stored.take k ++ stored[k] :: stored.drop (k + 1) := by
    rw [List.getElem_cons_drop, List.take_append_drop]
  rw [hstored, List.flatMap_append, List.flatMap_cons, ← List.append_assoc,
    List.append_assoc] at hsplit
  have hi : i ≤ stop := by
    have hcut := congrArg List.length hsplit
    have hlength := stored[k].length_bytes
    simp only [length_list_extract, List.length_append] at hcut
    omega
  obtain ⟨hs, hend, -⟩ := holds_of_list_extract hi hstop hsplit
  have hplace : ((stored.take k).flatMap StoredBlock.bytes).length =
      (((stored.map StoredBlock.block).take k).map (·.size.toNat)).sum := by
    rw [← List.map_take, List.map_map, List.length_flatMap]
    congr 1
    refine List.map_congr_left fun s _ => ?_
    rw [Function.comp_apply, s.toNat_size_block, s.length_bytes]
  rw [List.length_append, ← Nat.add_assoc, hplace] at hend
  have hbehind := hs.right
  rw [hplace] at hbehind
  rw [List.getElem_map]
  exact standsAt_of_holds hbehind hend hstop

/-- A block takes at least eight bytes. -/
theorem length_le_of_tiles {xs : List UInt8} {blocks : List RelocationBlock}
    (h : Tiles xs blocks) : 8 * blocks.length ≤ xs.length := by
  obtain ⟨stored, rest, rfl, -, rfl⟩ := h
  induction stored with
  | nil => exact Nat.zero_le _
  | cons s stored ih =>
    have hlength := s.length_bytes
    simp only [List.flatMap_cons, List.length_append, List.map_cons, List.length_cons] at ih ⊢
    omega

/-- A relocation directory is read exactly if blocks tile it, and each block is read from where the
blocks before it leave it. -/
theorem parseAll_eq_ok_iff_tiles {m : MappedFile} {dir : DataDirectory} {start stop limit : Nat}
    (hpresent : dir.isPresent = true) (hstart : m.sections.offset? dir.address = some start)
    (hstop : stop = min (start + dir.size.toNat) m.file.size)
    (hlimit : (stop - start) / 8 < limit) :
    (∀ blocks, parseAll m dir limit = .ok blocks ↔
        Tiles (list (m.file.extract start stop)) blocks) ∧
      ((¬ ∃ blocks, Tiles (list (m.file.extract start stop)) blocks) →
        parseAll m dir limit = .error .relocations) ∧
      ∀ blocks, parseAll m dir limit = .ok blocks → 8 * blocks.length ≤ stop - start ∧
        ∀ k (hk : k < blocks.length),
          blocks[k].StandsAt m.file (start + ((blocks.take k).map (·.size.toNat)).sum) stop := by
  have hsize : stop ≤ m.file.size := hstop ▸ Nat.min_le_right _ _
  have hparse : parseAll m dir limit =
      (readFrom m.file limit start stop #[]).map Array.toList := by
    simp only [parseAll, hpresent, Bool.not_true, Bool.false_eq_true, if_false,
      m.offset_eq_ok hstart, ok_bind, ← hstop]
    cases readFrom m.file limit start stop #[] <;> rfl
  have hroom : (#[] : Array RelocationBlock).size + (stop - start) / 8 < limit := by
    simpa using hlimit
  have hread : ∀ blocks, Tiles (list (m.file.extract start stop)) blocks →
      parseAll m dir limit = .ok blocks := by
    intro blocks hblocks
    rw [hparse]
    exact readFrom_of_tiles hsize hblocks hroom
  have houtcome := tiles_or_malformed hsize hroom
  have htiles : ∀ blocks, parseAll m dir limit = .ok blocks →
      Tiles (list (m.file.extract start stop)) blocks := by
    intro blocks hblocks
    rw [hparse] at hblocks
    rcases houtcome with ⟨tiling, htiling, hok⟩ | hbad
    · obtain rfl : tiling = blocks := Except.ok.inj (hok.symm.trans hblocks)
      exact htiling
    · rw [hbad] at hblocks
      cases hblocks
  refine ⟨fun blocks => ⟨htiles blocks, hread blocks⟩, fun hnone => ?_,
    fun blocks hblocks => ⟨?_, ?_⟩⟩
  · rcases houtcome with ⟨blocks, hblocks, -⟩ | hbad
    · exact absurd ⟨blocks, hblocks⟩ hnone
    · rw [hparse, hbad]
      rfl
  · have hlength := length_le_of_tiles (htiles blocks hblocks)
    rw [length_list_extract] at hlength
    omega
  · exact standsAt_of_tiles hsize (htiles blocks hblocks)

/-- Two blocks, the second of odd size. -/
def sampleBlocks : List StoredBlock :=
  [⟨0x1000, [0x10, 0x30, 0, 0], by decide⟩, ⟨0x2000, [0x23, 0xA1, 0x55], by decide⟩]

/-- A file that ends with a relocation directory: two blocks, a block of zeros and what follows. -/
def sampleFile : MappedFile where
  file := ⟨⟨[9, 9, 9, 9] ++ sampleBlocks.flatMap StoredBlock.bytes ++
    [0, 0, 0, 0, 0, 0, 0, 0, 7, 7, 7]⟩⟩
  sections := .ofHeaders [SectionTable.placed 0x3000 0x100 4 0x100]

/-- The directory is larger than what the file holds of it. -/
theorem parseAll_eq_ok_iff_tiles_sample :
    let dir : DataDirectory := ⟨0x3000, 0x40⟩
    dir.isPresent = true ∧ sampleFile.sections.offset? dir.address = some 4 ∧
      38 = min (4 + dir.size.toNat) sampleFile.file.size ∧ (38 - 4) / 8 < 5 ∧
      parseAll sampleFile dir 5 =
        .ok [⟨0x1000, 12, [⟨3, 0x10⟩, ⟨0, 0⟩]⟩, ⟨0x2000, 11, [⟨10, 0x123⟩]⟩] ∧
      StandsAt sampleFile.file 16 38 ⟨0x2000, 11, [⟨10, 0x123⟩]⟩ := by
  have hpresent : DataDirectory.isPresent ⟨0x3000, 0x40⟩ = true := by decide
  have hstart : sampleFile.sections.offset? 0x3000 = some 4 := by decide +kernel
  have hstop : 38 = min (4 + (0x40 : UInt32).toNat) sampleFile.file.size := by decide +kernel
  have hlimit : (38 - 4) / 8 < 5 := by decide
  obtain ⟨hiff, -, hstands⟩ := parseAll_eq_ok_iff_tiles hpresent hstart hstop hlimit
  have hread := (hiff (sampleBlocks.map StoredBlock.block)).2
    ⟨sampleBlocks, [0, 0, 0, 0, 0, 0, 0, 0, 7, 7, 7], by decide +kernel, .inr ⟨[7, 7, 7], rfl⟩, rfl⟩
  exact ⟨hpresent, hstart, hstop, hlimit, hread, (hstands _ hread).2 1 (by decide)⟩

end RelocationBlock

end ImageTriage
