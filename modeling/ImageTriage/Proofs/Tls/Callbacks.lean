import ImageTriage.Proofs.Bytes.Reading
import ImageTriage.Proofs.Section.Lookup
import ImageTriage.Tls

/-!
# Where the callbacks of a TLS directory are read

The directory gives an absolute address for the list of its callbacks. `IsRun` says what is read at
a place of the file: the longest run of words that are not zero, up to the limit.

The reader takes the address off the image base and goes on with the low 32 bits of the difference.
So the callbacks are a run, and it is the one that the directory names exactly if the address lies
less than 4 GiB above the image base (`callbacks_at_low_half`). An address beyond that leads to an
unrelated place (`callbacks_beyond_four_gib`).
-/

namespace ImageTriage

namespace MappedFile

variable {m : MappedFile} {i limit : Nat}

/-- The words are those stored from offset `i` on, none of them zero: as many as the limit allows,
unless a zero word or the end of the file comes first. -/
structure IsRun (m : MappedFile) (i limit : Nat) (ws : List UInt64) : Prop where
  length_le : ws.length ≤ limit
  pointer_eq : ∀ k (hk : k < ws.length), m.pointer? (i + k * m.pointerSize) = some ws[k]
  zero_notMem : 0 ∉ ws
  ends : ws.length = limit ∨ m.pointer? (i + ws.length * m.pointerSize) = some 0 ∨
    m.file.size < i + (ws.length + 1) * m.pointerSize

theorem size_lt_of_pointer?_eq_none (h : m.pointer? i = none) :
    m.file.size < i + m.pointerSize := by
  rw [pointer?] at h
  rw [pointerSize]
  by_contra hfits
  split at h <;> rename_i hwide
  · rw [if_pos hwide] at hfits
    rw [Bytes.u64?_eq_some (by omega)] at h
    cases h
  · rw [if_neg hwide] at hfits
    rw [Bytes.u32?_eq_some (by omega)] at h
    cases h

theorem toNat_lt_of_narrow {w : UInt64} (h : m.pointer? i = some w) (hnarrow : m.wide = false) :
    w.toNat < 2 ^ 32 := by
  rw [pointer?, hnarrow, if_neg Bool.false_ne_true] at h
  obtain ⟨word, -, rfl⟩ := Option.map_eq_some_iff.1 h
  rw [UInt32.toNat_toUInt64]
  exact word.toNat_lt

theorem isRun_nil (h : limit = 0 ∨ m.pointer? i = some 0 ∨ m.pointer? i = none) :
    m.IsRun i limit [] where
  length_le := Nat.zero_le _
  pointer_eq k hk := absurd hk (Nat.not_lt_zero k)
  zero_notMem := List.not_mem_nil
  ends := by
    rw [List.length_nil, Nat.zero_mul, Nat.add_zero, Nat.zero_add, Nat.one_mul, eq_comm]
    exact h.imp_right (Or.imp_right size_lt_of_pointer?_eq_none)

theorem IsRun.cons {w : UInt64} {ws : List UInt64} (h : m.IsRun (i + m.pointerSize) limit ws)
    (hw : m.pointer? i = some w) (hne : w ≠ 0) : m.IsRun i (limit + 1) (w :: ws) := by
  have hplace : ∀ k, i + (k + 1) * m.pointerSize = i + m.pointerSize + k * m.pointerSize := by
    intro k
    rw [Nat.succ_mul]
    omega
  refine ⟨Nat.succ_le_succ h.length_le, fun k hk => ?_, ?_, ?_⟩
  · cases k with
    | zero => rwa [Nat.zero_mul]
    | succ k =>
      rw [hplace]
      exact h.pointer_eq k (Nat.lt_of_succ_lt_succ hk)
  · rw [List.mem_cons, not_or]
    exact ⟨hne.symm, h.zero_notMem⟩
  · rw [List.length_cons, hplace, hplace, Nat.add_right_cancel_iff]
    exact h.ends

/-- What is read from an offset on is a run. -/
theorem isRun_pointers (m : MappedFile) (i limit : Nat) : m.IsRun i limit (m.pointers i limit) := by
  induction limit generalizing i with
  | zero => exact isRun_nil (.inl rfl)
  | succ limit ih =>
    match hw : m.pointer? i with
    | none =>
      rw [m.pointers_of_none _ hw]
      exact isRun_nil (.inr (.inr hw))
    | some w =>
      by_cases hzero : w = 0
      · rw [hzero] at hw
        rw [m.pointers_of_zero _ hw]
        exact isRun_nil (.inr (.inl hw))
      · rw [m.pointers_succ limit hw hzero]
        exact (ih _).cons hw hzero

end MappedFile

namespace TlsDirectory

variable {m : MappedFile} {dir : DataDirectory} {limit : Nat} {tls : TlsDirectory}

theorem callbacks_of_parse (h : parse m dir limit = .ok (some tls)) :
    tls.callbacks = readCallbacks m tls.callbacksAddress limit ∧
      ∃ i, m.pointer? i = some tls.callbacksAddress := by
  unfold parse at h
  split at h
  · cases h
  obtain ⟨i, -, h⟩ := bind_eq_ok_iff.1 h
  obtain ⟨dataStart, -, h⟩ := bind_eq_ok_iff.1 h
  obtain ⟨dataEnd, -, h⟩ := bind_eq_ok_iff.1 h
  obtain ⟨indexAddress, -, h⟩ := bind_eq_ok_iff.1 h
  obtain ⟨callbacksAddress, haddress, h⟩ := bind_eq_ok_iff.1 h
  obtain ⟨zeroFill, -, h⟩ := bind_eq_ok_iff.1 h
  obtain ⟨characteristics, -, h⟩ := bind_eq_ok_iff.1 h
  cases h
  exact ⟨rfl, _, orFault_eq_ok_iff.1 haddress⟩

/-- The callbacks are the run at address `r`. -/
def ReadAt (m : MappedFile) (limit : Nat) (r : UInt32) (callbacks : List UInt64) : Prop :=
  ∃ i, m.sections.offset? r = some i ∧ m.IsRun i limit callbacks

/-- The address is as far above the image base as the low 32 bits `r` of the distance say, but for
a multiple of 4 GiB. -/
def LowHalf (m : MappedFile) (address : UInt64) (r : UInt32) : Prop :=
  m.imageBase < address ∧ r.toNat = (address.toNat - m.imageBase.toNat) % 2 ^ 32

theorem lowHalf_iff {address : UInt64} {r : UInt32} (hlt : m.imageBase < address) :
    LowHalf m address r ↔ r = (address - m.imageBase).toUInt32 := by
  have hle : m.imageBase ≤ address := UInt64.le_of_lt hlt
  rw [← UInt32.toNat_inj, UInt64.toNat_toUInt32, UInt64.toNat_sub_of_le _ _ hle, LowHalf]
  exact and_iff_right hlt

/-- The callbacks are read at the low half of the distance, when a section backs it. -/
theorem isRun_readCallbacks {address : UInt64} {r : UInt32} {i : Nat} (hr : LowHalf m address r)
    (hi : m.sections.offset? r = some i) : m.IsRun i limit (readCallbacks m address limit) := by
  obtain rfl := (lowHalf_iff hr.1).1 hr
  rw [readCallbacks, if_pos hr.1, hi]
  exact m.isRun_pointers i limit

/-- Callbacks that are found are read at the low half of the distance. -/
theorem exists_lowHalf_of_ne_nil {address : UInt64} (h : readCallbacks m address limit ≠ []) :
    ∃ r, LowHalf m address r ∧ ReadAt m limit r (readCallbacks m address limit) := by
  by_cases hlt : m.imageBase < address
  · have hr := (lowHalf_iff hlt).2 rfl
    refine ⟨_, hr, ?_⟩
    cases hi : m.sections.offset? (address - m.imageBase).toUInt32 with
    | none =>
      rw [readCallbacks, if_pos hlt, hi] at h
      exact absurd rfl h
    | some i => exact ⟨i, hi, isRun_readCallbacks hr hi⟩
  · rw [readCallbacks, if_neg hlt] at h
    exact absurd rfl h

/-- The callbacks are the run at the low half of the distance of their address from the image base.
This is the run that the address names exactly if the distance is below 4 GiB, as it always is in an
image with 32-bit addresses. -/
theorem callbacks_at_low_half (hparse : parse m dir limit = .ok (some tls)) :
    (∀ r i, LowHalf m tls.callbacksAddress r → m.sections.offset? r = some i →
      m.IsRun i limit tls.callbacks) ∧
    (tls.callbacks ≠ [] → ∃ r, LowHalf m tls.callbacksAddress r ∧ ReadAt m limit r tls.callbacks) ∧
    (tls.callbacks ≠ [] →
      ((∃ r : UInt32, tls.callbacksAddress.toNat = m.imageBase.toNat + r.toNat ∧
          ReadAt m limit r tls.callbacks) ↔
        tls.callbacksAddress.toNat < m.imageBase.toNat + 2 ^ 32)) ∧
    (m.wide = false → tls.callbacksAddress.toNat < m.imageBase.toNat + 2 ^ 32) := by
  obtain ⟨hcallbacks, j, hj⟩ := callbacks_of_parse hparse
  rw [hcallbacks]
  refine ⟨fun r i hr hi => isRun_readCallbacks hr hi, exists_lowHalf_of_ne_nil, fun hne => ?_,
    fun hnarrow => ?_⟩
  · constructor
    · rintro ⟨r, hr, -⟩
      have hlt := r.toNat_lt
      omega
    · intro hnear
      obtain ⟨r, ⟨hlt, hr⟩, hread⟩ := exists_lowHalf_of_ne_nil hne
      have hlt := UInt64.lt_iff_toNat_lt.1 hlt
      exact ⟨r, by omega, hread⟩
  · exact Nat.lt_of_lt_of_le (m.toNat_lt_of_narrow hj hnarrow) (Nat.le_add_left _ _)

/-- A file with 64-bit addresses that is one section: a TLS directory that gives `callbacks` as the
address of its callbacks, and a list of two callbacks 0x1040 above the image base. -/
def fileNaming (callbacks : UInt64) : MappedFile where
  file := ⟨⟨Bytes.leBytes 8 1 ++ Bytes.leBytes 8 2 ++ Bytes.leBytes 8 3 ++
    Bytes.leBytes 8 callbacks.toNat ++ List.replicate 32 0 ++ Bytes.leBytes 8 7 ++
    Bytes.leBytes 8 8 ++ Bytes.leBytes 8 0⟩⟩
  sections := .ofHeaders [SectionTable.placed 0x1000 0x58 0 0x58]
  imageBase := 0x140000000
  wide := true

theorem callbacks_at_low_half_named :
    parse (fileNaming 0x140001040) ⟨0x1000, 0x58⟩ 256 =
        .ok (some ⟨1, 2, 3, 0x140001040, 0, 0, [7, 8]⟩) ∧
      ∃ r : UInt32, (0x140001040 : UInt64).toNat = (0x140000000 : UInt64).toNat + r.toNat ∧
        ReadAt (fileNaming 0x140001040) 256 r [7, 8] := by
  have hparse : parse (fileNaming 0x140001040) ⟨0x1000, 0x58⟩ 256 =
      .ok (some ⟨1, 2, 3, 0x140001040, 0, 0, [7, 8]⟩) := by decide +kernel
  obtain ⟨-, -, hnamed, -⟩ := callbacks_at_low_half hparse
  exact ⟨hparse, (hnamed (by decide)).2 (by decide)⟩

/-- An address 4 GiB above the list of callbacks leads to that list all the same, though it names no
address of the image. -/
theorem callbacks_beyond_four_gib :
    parse (fileNaming 0x240001040) ⟨0x1000, 0x58⟩ 256 =
        .ok (some ⟨1, 2, 3, 0x240001040, 0, 0, [7, 8]⟩) ∧
      ∀ r : UInt32,
        (0x240001040 : UInt64).toNat ≠ (fileNaming 0x240001040).imageBase.toNat + r.toNat := by
  refine ⟨by decide +kernel, fun r => ?_⟩
  have hlt := r.toNat_lt
  change 0x240001040 ≠ 0x140000000 + r.toNat
  omega

end TlsDirectory

end ImageTriage
