import Mathlib.Data.List.Forall2
import ImageTriage.Proofs.Text.Utf16
import ImageTriage.Version.Block

/-!
# Writing blocks of version information

`Written` is a block to be written, its inner blocks written already. Every part of it is filled up
to a multiple of four bytes, so that a block which begins at such an offset has its value and its
inner blocks at such offsets too. That invariant carries the induction over a row of blocks: each is
read where the one before it ends (`exists_readAll`).
-/

namespace ImageTriage.Version

open Bytes Utf16

variable {b : Bytes} {i : Nat}

/-- The bytes, filled up with zeros to a multiple of four. -/
def pad (xs : List UInt8) : List UInt8 := xs ++ List.replicate (alignUp 4 xs.length - xs.length) 0

@[simp] theorem length_pad (xs : List UInt8) : (pad xs).length = alignUp 4 xs.length := by
  rw [pad, List.length_append, List.length_replicate, alignUp_four]
  omega

/-- A key that can be read back. -/
structure IsKey (key : String) : Prop where
  nul_notMem : nul ∉ key.toList
  length_le : (encode key).length ≤ 255

instance (key : String) : Decidable (IsKey key) :=
  decidable_of_iff (nul ∉ key.toList ∧ (encode key).length ≤ 255)
    ⟨fun h => ⟨h.1, h.2⟩, fun h => ⟨h.1, h.2⟩⟩

/-- A block to be written. -/
structure Written where
  key : String
  isText : Bool
  value : List UInt8
  /-- The inner blocks. -/
  inner : List UInt8

namespace Written

variable {w : Written} {ws : List Written}

/-- The number of bytes of the three numbers and the key. -/
def headLength (w : Written) : Nat := 6 + 2 * ((encode w.key).length + 1)

/-- Where the value begins. -/
def valueStart (w : Written) : Nat := alignUp 4 w.headLength

/-- Where the inner blocks begin. -/
def innerStart (w : Written) : Nat := w.valueStart + alignUp 4 w.value.length

/-- The number of bytes of a block. -/
def length (w : Written) : Nat := w.innerStart + w.inner.length

/-- The length of the value, as a block states it. -/
def valueLength (w : Written) : Nat := if w.isText then w.value.length / 2 else w.value.length

/-- The three numbers and the key. -/
def head (w : Written) : List UInt8 :=
  leBytes 2 w.length ++ (leBytes 2 w.valueLength ++
    (leBytes 2 (if w.isText then 1 else 0) ++ unitBytes (encode w.key ++ [0])))

/-- The bytes of a block. -/
def bytes (w : Written) : List UInt8 := pad w.head ++ (pad w.value ++ w.inner)

theorem length_head (w : Written) : w.head.length = w.headLength := by
  simp [head, headLength]
  omega

@[simp] theorem length_bytes (w : Written) : w.bytes.length = w.length := by
  simp [bytes, length, innerStart, valueStart, length_head, Nat.add_assoc]

/-- A block that can be written: the numbers of its head fit, and its key can be read back. -/
structure Fits (w : Written) : Prop where
  key : IsKey w.key
  value_even : w.isText → w.value.length % 2 = 0
  inner_mod : w.inner.length % 4 = 0
  length_lt : w.length < 0x10000

/-- The block stands in the file as it was written. -/
structure Stands (b : Bytes) (w : Written) (block : Block) : Prop where
  key_eq : block.key = w.key
  isText_eq : block.isText = w.isText
  value_eq : block.value = w.value.toByteArray
  inner_holds : b.Holds block.innerStart w.inner
  innerStart_mod : block.innerStart % 4 = 0
  stop_eq : block.stop = block.innerStart + w.inner.length
  stop_le : block.stop ≤ b.size

theorem u16_eq_ok {n : Nat} (h : b.Holds i (leBytes 2 n)) (hn : n < 0x10000) :
    Block.u16 b i = .ok (UInt16.ofNat n) := by
  rw [Block.u16, Bytes.u16?, h.leNat? hn, Option.map_some, orFault_some]

theorem Fits.valueLength_lt (hw : w.Fits) : w.valueLength < 0x10000 := by
  have hlength := hw.length_lt
  rw [length, innerStart, alignUp_four] at hlength
  unfold valueLength
  split <;> omega

/-- The size of a value, worked out from the length that a block states. -/
theorem Fits.valueSize_eq (hw : w.Fits) :
    (if w.isText then (UInt16.ofNat w.valueLength).toNat * 2
      else (UInt16.ofNat w.valueLength).toNat) = w.value.length := by
  have hstated : (UInt16.ofNat w.valueLength).toNat = w.valueLength :=
    UInt16.toNat_ofNat_of_lt hw.valueLength_lt
  rw [hstated, valueLength]
  split
  case isTrue htext =>
    have heven := hw.value_even htext
    omega
  case isFalse => rfl

/-! ### The parts of a block that stands in a file -/

section Parts

theorem length_parts_eq (w : Written) :
    w.headLength = 6 + 2 * ((encode w.key).length + 1) ∧
      w.valueStart = (w.headLength + 3) / 4 * 4 ∧
      w.innerStart = w.valueStart + (w.value.length + 3) / 4 * 4 ∧
      w.length = w.innerStart + w.inner.length :=
  ⟨rfl, alignUp_four _, congrArg (w.valueStart + ·) (alignUp_four _), rfl⟩

theorem six_lt_length (w : Written) : 6 < w.length := by
  obtain ⟨hhead, hvalue, hinner, hlength⟩ := length_parts_eq w
  omega

variable (h : b.Holds i w.bytes)
include h

theorem stop_le_size : i + w.length ≤ b.size := by
  have hlong := six_lt_length w
  have hfits := h.fits_of_ne_nil (List.ne_nil_of_length_pos (by rw [length_bytes]; omega))
  rwa [length_bytes] at hfits

theorem head_holds : b.Holds i w.head := h.left.left

theorem utf16z_key (hkey : IsKey w.key) :
    b.utf16z (i + 6) Block.keyBound = .ok (w.key, 2 * ((encode w.key).length + 1)) :=
  (head_holds h).right.right.right.utf16z hkey.nul_notMem (Nat.lt_succ_of_le hkey.length_le)

theorem value_holds : b.Holds (i + w.valueStart) w.value := by
  have hvalue := h.right.left.left
  rwa [length_pad, length_head] at hvalue

theorem inner_holds : b.Holds (i + w.innerStart) w.inner := by
  have hinner := h.right.right
  rwa [length_pad, length_pad, length_head, Nat.add_assoc] at hinner

/-- The three numbers of a block. -/
theorem numbers_eq (hw : w.Fits) :
    Block.u16 b i = .ok (UInt16.ofNat w.length) ∧
      Block.u16 b (i + 2) = .ok (UInt16.ofNat w.valueLength) ∧
      Block.u16 b (i + 4) = .ok (UInt16.ofNat (if w.isText then 1 else 0)) := by
  have hhead := head_holds h
  refine ⟨u16_eq_ok hhead.left hw.length_lt, u16_eq_ok hhead.right.left hw.valueLength_lt, ?_⟩
  exact u16_eq_ok hhead.right.right.left (by split <;> decide)

end Parts

/-- Where the reader finds the parts of a block: nothing is cut down. -/
theorem places_eq (w : Written) (hi : i % 4 = 0) :
    min (alignUp 4 (i + 6 + 2 * ((encode w.key).length + 1))) (i + w.length) = i + w.valueStart ∧
      min (i + w.valueStart + w.value.length) (i + w.length) =
        i + w.valueStart + w.value.length ∧
      min (alignUp 4 (i + w.valueStart + w.value.length)) (i + w.length) = i + w.innerStart := by
  obtain ⟨hhead, hvalue, hinner, hlength⟩ := length_parts_eq w
  rw [alignUp_four, alignUp_four]
  omega

/-- The block at the offset where it was written. -/
def blockAt (w : Written) (i : Nat) : Block where
  key := w.key
  isText := w.isText
  value := w.value.toByteArray
  innerStart := i + w.innerStart
  stop := i + w.length

theorem read_eq (hw : w.Fits) (h : b.Holds i w.bytes) (hi : i % 4 = 0) :
    Block.read b i = .ok (w.blockAt i) := by
  obtain ⟨hlengthAt, hvalueLengthAt, hmarkAt⟩ := numbers_eq h hw
  obtain ⟨hvalueStart, hvalueStop, hinnerStart⟩ := places_eq w hi
  have hstated : (UInt16.ofNat w.length).toNat = w.length :=
    UInt16.toNat_ofNat_of_lt hw.length_lt
  have hlong : ¬ UInt16.ofNat w.length < 6 := by
    have hlong := six_lt_length w
    rw [UInt16.lt_iff_toNat_lt, hstated]
    change ¬ w.length < 6
    omega
  have hisText : (UInt16.ofNat (if w.isText then 1 else 0) == 1) = w.isText := by
    cases w.isText <;> rfl
  have hstop : min (i + w.length) b.size = i + w.length := Nat.min_eq_left (stop_le_size h)
  have hcut : b.extract (i + w.valueStart) (i + w.valueStart + w.value.length) =
      w.value.toByteArray := by
    obtain ⟨-, -, hinner, hlength⟩ := length_parts_eq w
    have hfits := stop_le_size h
    exact (value_holds h).extract (by omega)
  rw [Block.read, hlengthAt, ok_bind, hvalueLengthAt, ok_bind, hmarkAt, ok_bind, if_neg hlong,
    utf16z_key h hw.key]
  -- the reader cuts each place down to the end of the block, and that to the end of the file
  simp only [hisText, hw.valueSize_eq, hstated, hstop, hvalueStart, hvalueStop, hinnerStart, hcut]
  rfl

theorem stands_blockAt (h : b.Holds i w.bytes) (hi : i % 4 = 0) : Stands b w (w.blockAt i) where
  key_eq := rfl
  isText_eq := rfl
  value_eq := rfl
  inner_holds := inner_holds h
  innerStart_mod := by
    obtain ⟨-, hvalue, hinner, -⟩ := length_parts_eq w
    change (i + w.innerStart) % 4 = 0
    omega
  stop_eq := (Nat.add_assoc i w.innerStart w.inner.length).symm
  stop_le := stop_le_size h

theorem Fits.length_mod (hw : w.Fits) : w.length % 4 = 0 := by
  obtain ⟨-, hvalue, hinner, hlength⟩ := length_parts_eq w
  have hmod := hw.inner_mod
  omega

/-- The next block follows at once. -/
theorem next_blockAt (hw : w.Fits) (hi : i % 4 = 0) : (w.blockAt i).next = i + w.length := by
  have hmod := hw.length_mod
  change alignUp 4 (i + w.length) = _
  rw [alignUp_four]
  omega

theorem length_flatMap_mod (hfits : ∀ w ∈ ws, w.Fits) : (ws.flatMap bytes).length % 4 = 0 := by
  induction ws with
  | nil => rfl
  | cons w ws ih =>
    have hfirst := (hfits w (by simp)).length_mod
    have hrest := ih fun w hw => hfits w (by simp [hw])
    rw [List.flatMap_cons, List.length_append, length_bytes]
    omega

/-- No inner block is longer than the block that holds it. -/
theorem length_le_of_mem {x : Written} (hx : x ∈ ws) (hw : w.inner = ws.flatMap bytes) :
    x.length ≤ w.length := by
  obtain ⟨before, after, rfl⟩ := List.append_of_mem hx
  rw [length.eq_1 w, hw, List.flatMap_append, List.flatMap_cons]
  simp only [List.length_append, length_bytes]
  omega

/-- A row of blocks is read in order. -/
theorem exists_readAll (hfits : ∀ w ∈ ws, w.Fits) (h : b.Holds i (ws.flatMap bytes))
    (hi : i % 4 = 0) : ∃ blocks, Block.readAll b i (i + (ws.flatMap bytes).length) = .ok blocks ∧
      List.Forall₂ (Stands b) ws blocks := by
  induction ws generalizing i with
  | nil =>
    rw [Block.readAll, dif_neg (by simp)]
    exact ⟨[], rfl, .nil⟩
  | cons w ws ih =>
    rw [List.flatMap_cons] at h
    have hw := hfits w (by simp)
    have hrest := h.right
    rw [length_bytes] at hrest
    have hmod := hw.length_mod
    have hlong := six_lt_length w
    obtain ⟨blocks, hblocks, hall⟩ := ih (fun w hw => hfits w (by simp [hw])) hrest (by omega)
    refine ⟨w.blockAt i :: blocks, ?_, .cons (stands_blockAt h.left hi) hall⟩
    have hnext := next_blockAt hw hi
    -- a block is longer than its head, so the reader does not stop for want of progress
    rw [List.flatMap_cons, List.length_append, length_bytes, ← Nat.add_assoc, Block.readAll,
      dif_pos (by omega), read_eq hw h.left hi]
    simp only [hnext, hblocks]
    rw [dif_neg (by omega)]

/-- The inner blocks of a block. -/
theorem Stands.exists_inner {block : Block} (h : Stands b w block) (hw : w.inner = ws.flatMap bytes)
    (hfits : ∀ w ∈ ws, w.Fits) :
    ∃ blocks, block.inner b = .ok blocks ∧ List.Forall₂ (Stands b) ws blocks := by
  have hinner := h.inner_holds
  rw [Block.inner, h.stop_eq]
  rw [hw] at hinner ⊢
  exact exists_readAll hfits hinner h.innerStart_mod

end Written

end ImageTriage.Version
