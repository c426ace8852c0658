import ImageTriage.Certificate
import ImageTriage.Proofs.Checked.Mapping
import ImageTriage.Relocation
import ImageTriage.Tls

/-!
# Checked tables of records

The functions of the TLS directory, the base relocations and the certificates are runs of records.
Before the size that a record states for itself is relied on, it is compared with the end of the
table; so whatever is cut out of the record, or taken off its size, is there, and the next record
begins at most seven bytes past the end.
-/

namespace ImageTriage

namespace Checked

/-! ## The TLS directory -/

/-- Field `k` of the TLS directory at offset `i`. -/
def tlsField (m : Mapped) (i k : Nat) : Checked UInt64 := do
  orFault .tlsDirectory (m.pointer? (← row i m.pointerSize k))

/-- How far the functions are read. -/
structure CallbackState where
  offset : Nat
  found : Array UInt64

/-- Reads the address of one function, unless the limit is reached or the list ends. -/
def callbackTurn (m : Mapped) (limit : Nat) (s : CallbackState) :
    Checked (Turn CallbackState (List UInt64)) :=
  if limit ≤ s.found.size then pure (.answer s.found.toList)
  else
    match m.pointer? s.offset with
    | none => pure (.answer s.found.toList)
    | some address =>
      if address = 0 then pure (.answer s.found.toList)
      else do
        let offset ← add s.offset m.pointerSize
        return .again { offset, found := s.found.push address }

/-- `TlsDirectory.readCallbacks` with checked steps. -/
def tlsCallbacks (m : Mapped) (address : UInt64) (limit : Nat) : Checked (List UInt64) :=
  if m.imageBase < address then do
    let distance ← sub address.toNat m.imageBase.toNat
    match ← m.sections.offset? (UInt32.ofNat distance) with
    | some offset => loop (callbackTurn m limit) (m.file.size + 1) { offset, found := #[] }
    | none => return []
  else
    pure []

/-- `TlsDirectory.parse` with checked steps. -/
def tls (m : Mapped) (dir : DataDirectory) (limit : Nat) : Checked (Option TlsDirectory) :=
  if !dir.isPresent then pure none
  else do
    let i ← m.offset dir.address
    let dataStart ← tlsField m i 0
    let dataEnd ← tlsField m i 1
    let indexAddress ← tlsField m i 2
    let callbacksAddress ← tlsField m i 3
    let j ← row i m.pointerSize 4
    let zeroFill ← orFault .tlsDirectory (m.file.u32? j)
    let characteristics ← orFault .tlsDirectory (m.file.u32? (← add j 4))
    let callbacks ← tlsCallbacks m callbacksAddress limit
    return some {
      dataStart
      dataEnd
      indexAddress
      callbacksAddress
      zeroFill
      characteristics
      callbacks }

variable {m : MappedFile}

theorem tlsField_eq {i k : Nat} (hi : i < 2 ^ 33) (hk : k ≤ 4) :
    tlsField (.of m) i k = done (orFault .tlsDirectory (m.pointer? (i + m.pointerSize * k))) := by
  have hsize := Mapped.pointerSize_le m
  have hproduct : m.pointerSize * k ≤ 8 * 4 := Nat.mul_le_mul hsize hk
  rw [tlsField, Mapped.of_pointerSize, row_eq (by omega), ok_bind, Mapped.of_pointer?]
  rfl

section Tls

variable (hm : Mapped.Fits m)
include hm

/-- The loop over the functions. An offset is added to only after it was read from. -/
theorem callbackLoop_eq (limit i : Nat) :
    loop (callbackTurn (.of m) limit) (m.file.size + 1) ⟨i, #[]⟩ =
      done (.ok (m.pointers i limit)) := by
  have hrun : loop (callbackTurn (.of m) limit) (m.file.size + 1) ⟨i, #[]⟩ =
      done (.ok ([] ++ m.pointers i (limit - 0))) := by
    refine loop_eq
      (fun s : CallbackState =>
        .ok (s.found.toList ++ m.pointers s.offset (limit - s.found.size)))
      (fun _ => True) (fun s => m.file.size - s.offset) ?_ trivial (by dsimp only; omega)
    rintro ⟨i, found⟩ -
    by_cases hlimit : limit ≤ found.size
    · refine .answer found.toList (if_pos hlimit) ?_
      simp [Nat.sub_eq_zero_of_le hlimit]
    obtain ⟨left, hleft⟩ : ∃ left, limit - found.size = left + 1 :=
      ⟨limit - found.size - 1, by omega⟩
    match hpointer : m.pointer? i with
    | none =>
      refine .answer found.toList (by simp [callbackTurn, hlimit, hpointer]) ?_
      simp [m.pointers_of_none _ hpointer]
    | some address =>
      by_cases hzero : address = 0
      · refine .answer found.toList (by simp [callbackTurn, hlimit, hpointer, hzero]) ?_
        simp [m.pointers_of_zero _ (hzero ▸ hpointer)]
      · have hfits := Mapped.fits_of_pointer? hpointer
        have hfile := hm.file_lt
        have hsize := Mapped.pointerSize_pos m
        refine .again ⟨i + m.pointerSize, found.push address⟩ ?_ trivial (by dsimp only; omega) ?_
        · simp only [callbackTurn, if_neg hlimit, Mapped.of_pointer?, hpointer, if_neg hzero]
          rw [Mapped.of_pointerSize, add_eq (by omega)]
          rfl
        · have hrest : limit - (found.push address).size = left := by
            rw [Array.size_push]
            omega
          dsimp only
          rw [hrest, hleft, m.pointers_succ left hpointer hzero]
          simp
  exact hrun

theorem tlsCallbacks_eq (address : UInt64) (limit : Nat) :
    tlsCallbacks (.of m) address limit =
      done (.ok (TlsDirectory.readCallbacks m address limit)) := by
  unfold tlsCallbacks TlsDirectory.readCallbacks
  rw [Mapped.of_imageBase, Mapped.of_sections, Mapped.of_file]
  by_cases hlt : m.imageBase < address
  · have hle := Nat.le_of_lt (UInt64.lt_iff_toNat_lt.1 hlt)
    -- the distance is cut down to 32 bits, whether it is taken in words or in numbers
    have hword : UInt32.ofNat (address.toNat - m.imageBase.toNat) =
        (address - m.imageBase).toUInt32 := by
      rw [← UInt32.toNat_inj, UInt64.toNat_toUInt32,
        UInt64.toNat_sub_of_le _ _ (UInt64.le_iff_toNat_le.2 hle)]
      rfl
    rw [if_pos hlt, if_pos hlt, sub_eq hle, ok_bind, Sections.offset?_eq hm.sections_lt, ok_bind,
      hword]
    cases m.sections.offset? (address - m.imageBase).toUInt32 with
    | none => rfl
    | some i => exact callbackLoop_eq hm limit i
  · rw [if_neg hlt, if_neg hlt]
    rfl

/-- The TLS directory is read without a trap. -/
theorem tls_eq (dir : DataDirectory) (limit : Nat) :
    tls (.of m) dir limit = done (TlsDirectory.parse m dir limit) := by
  unfold tls TlsDirectory.parse
  cases hpresent : dir.isPresent with
  | false => rfl
  | true =>
    simp only [Bool.not_true, Bool.false_eq_true, if_false]
    rw [Mapped.offset_eq hm]
    refine bind_eq fun i hi => ?_
    have hi := Mapped.lt_of_offset hi
    have hsize := Mapped.pointerSize_le m
    have hcommute : ∀ k, m.pointerSize * k = k * m.pointerSize := Nat.mul_comm m.pointerSize
    simp (disch := omega) only [tlsField_eq, row_eq, add_eq, Mapped.of_pointerSize, ok_bind,
      tlsCallbacks_eq hm, Mapped.of_file, hcommute, Nat.zero_mul, Nat.one_mul, Nat.add_zero,
      monadLift_eq, pure_eq, bind_done]
    rfl

end Tls

/-! ## The base relocations -/

/-- The patch of word `k` of those from offset `i` on. -/
def relocationEntry (b : Bytes) (i k : Nat) : Checked (Option Relocation) := do
  return (b.u16? (← row i 2 k)).map Relocation.ofWord

/-- `RelocationBlock.readEntries` with checked steps. -/
def relocationEntries (b : Bytes) (i n : Nat) : Checked (List Relocation) := do
  return (← (List.range n).mapM (relocationEntry b i)).filterMap id

/-- How far the blocks are read. -/
structure RelocationState where
  offset : Nat
  found : Array RelocationBlock

/-- Reads one block, unless it ends the blocks. -/
def relocationTurn (b : Bytes) (limit stop : Nat) (s : RelocationState) :
    Checked (Turn RelocationState (List RelocationBlock)) := do
  let head ← add s.offset 8
  if stop < head then
    return .answer s.found.toList
  else if limit ≤ s.found.size then
    fail (.tooMany "relocation blocks")
  else
    let page ← RelocationBlock.u32 b s.offset
    let size ← RelocationBlock.u32 b (← add s.offset 4)
    if page = 0 ∧ size = 0 then
      return .answer s.found.toList
    else if size.toNat < 8 then
      fail .relocations
    else
      let next ← add s.offset size.toNat
      if stop < next then
        fail .relocations
      else
        let rest ← sub size.toNat 8
        let entries ← relocationEntries b head (rest / 2)
        return .again { offset := next, found := s.found.push ⟨page, size, entries⟩ }

/-- `RelocationBlock.parseAll` with checked steps. -/
def relocations (m : Mapped) (dir : DataDirectory) (limit : Nat) : Checked (List RelocationBlock) :=
  if !dir.isPresent then pure []
  else do
    let offset ← m.offset dir.address
    let stop := min (addSaturating offset dir.size.toNat) m.file.size
    loop (relocationTurn m.file limit stop) (stop + 1) { offset, found := #[] }

section Relocations

variable {b : Bytes} {limit i stop : Nat}

theorem relocationEntries_eq {n : Nat} (h : i + 2 * n < 2 ^ 64) :
    relocationEntries b i n = done (.ok (RelocationBlock.readEntries b i n)) := by
  have hwords : (List.range n).mapM (relocationEntry b i) =
      done (.ok ((List.range n).map fun k => (b.u16? (i + 2 * k)).map Relocation.ofWord)) := by
    refine mapM_eq_map fun k hk => ?_
    have hk := List.mem_range.1 hk
    rw [relocationEntry, row_eq (by omega)]
    rfl
  rw [relocationEntries, hwords, ok_bind, List.filterMap_map]
  rfl

/-- A turn over a block that there is room for. -/
theorem relocationTurn_eq (b : Bytes) (limit : Nat) (found : Array RelocationBlock)
    (hstop : stop < 2 ^ 62) (hroom : i + 8 ≤ stop) : relocationTurn b limit stop ⟨i, found⟩ = done (
      if limit ≤ found.size then .error (.tooMany "relocation blocks")
      else do
        let page ← RelocationBlock.u32 b i
        let size ← RelocationBlock.u32 b (i + 4)
        if page = 0 ∧ size = 0 then .ok (.answer found.toList)
        else if size.toNat < 8 ∨ stop < i + size.toNat then .error .relocations
        else .ok (.again ⟨i + size.toNat, found.push
          ⟨page, size, RelocationBlock.readEntries b (i + 8) ((size.toNat - 8) / 2)⟩⟩)) := by
  rw [relocationTurn]
  dsimp only
  rw [add_eq (by omega), ok_bind, if_neg (by omega), add_eq (by omega)]
  simp only [ok_bind]
  split
  · rfl
  · refine bind_eq fun page _ => bind_eq fun size _ => ?_
    have hsize := size.toNat_lt
    split
    · rfl
    · by_cases hsmall : size.toNat < 8
      · rw [if_pos hsmall, if_pos (.inl hsmall)]
        rfl
      · rw [if_neg hsmall, add_eq (by omega), ok_bind]
        by_cases hlong : stop < i + size.toNat
        · rw [if_pos hlong, if_pos (.inr hlong)]
          rfl
        · rw [if_neg hlong, if_neg (by omega), sub_eq (by omega), ok_bind,
            relocationEntries_eq (by omega), ok_bind]
          rfl

/-- What the reader does with a block that there is room for. -/
theorem readFrom_of_room {found : Array RelocationBlock} (hroom : i + 8 ≤ stop)
    (hlimit : ¬ limit ≤ found.size) : RelocationBlock.readFrom b limit i stop found = (do
      let page ← RelocationBlock.u32 b i
      let size ← RelocationBlock.u32 b (i + 4)
      if page = 0 ∧ size = 0 then .ok found
      else if size.toNat < 8 ∨ stop < i + size.toNat then .error .relocations
      else RelocationBlock.readFrom b limit (i + size.toNat) stop (found.push
        ⟨page, size, RelocationBlock.readEntries b (i + 8) ((size.toNat - 8) / 2)⟩)) := by
  rw [RelocationBlock.readFrom, if_pos hroom, if_neg hlimit]
  cases RelocationBlock.u32 b i with
  | error fault => rfl
  | ok page => cases RelocationBlock.u32 b (i + 4) <;> rfl

/-- The loop over the blocks up to `stop`. No block reaches further. -/
theorem relocationLoop_eq (hstop : stop < 2 ^ 62) (hi : i < 2 ^ 63) :
    loop (relocationTurn b limit stop) (stop + 1) ⟨i, #[]⟩ =
      done ((RelocationBlock.readFrom b limit i stop #[]).map Array.toList) := by
  refine loop_eq
    (fun s : RelocationState =>
      (RelocationBlock.readFrom b limit s.offset stop s.found).map Array.toList)
    (fun s => s.offset < 2 ^ 63) (fun s => stop - s.offset) ?_ hi (by dsimp only; omega)
  rintro ⟨i, found⟩ hi
  dsimp only at hi
  by_cases hroom : i + 8 ≤ stop
  case neg =>
    refine .answer found.toList ?_ ?_
    · rw [relocationTurn]
      dsimp only
      rw [add_eq (by omega), ok_bind, if_pos (by omega)]
      rfl
    · dsimp only
      rw [RelocationBlock.readFrom, if_neg hroom]
      rfl
  have hturn := relocationTurn_eq b limit found hstop hroom
  by_cases hlimit : limit ≤ found.size
  · rw [if_pos hlimit] at hturn
    refine .fault _ hturn ?_
    dsimp only
    rw [RelocationBlock.readFrom, if_pos hroom, if_pos hlimit]
    rfl
  have hread : RelocationBlock.readFrom b limit i stop found = _ := readFrom_of_room hroom hlimit
  rw [if_neg hlimit] at hturn
  cases hpage : RelocationBlock.u32 b i with
  | error fault =>
    rw [hpage, ImageTriage.error_bind] at hturn hread
    exact .fault fault hturn (by dsimp only; rw [hread]; rfl)
  | ok page =>
    rw [hpage, ImageTriage.ok_bind] at hturn hread
    cases hsize : RelocationBlock.u32 b (i + 4) with
    | error fault =>
      rw [hsize, ImageTriage.error_bind] at hturn hread
      exact .fault fault hturn (by dsimp only; rw [hread]; rfl)
    | ok size =>
      rw [hsize, ImageTriage.ok_bind] at hturn hread
      by_cases hend : page = 0 ∧ size = 0
      · rw [if_pos hend] at hturn hread
        exact .answer _ hturn (by dsimp only; rw [hread]; rfl)
      rw [if_neg hend] at hturn hread
      -- a block that is kept has a size, and ends in the table
      by_cases hbad : size.toNat < 8 ∨ stop < i + size.toNat
      · rw [if_pos hbad] at hturn hread
        exact .fault _ hturn (by dsimp only; rw [hread]; rfl)
      · rw [if_neg hbad] at hturn hread
        refine .again _ hturn (by dsimp only; omega) (by dsimp only; omega) ?_
        dsimp only
        rw [hread]

end Relocations

/-- The base relocations are read without a trap. -/
theorem relocations_eq (hm : Mapped.Fits m) (dir : DataDirectory) (limit : Nat) :
    relocations (.of m) dir limit = done (RelocationBlock.parseAll m dir limit) := by
  unfold relocations RelocationBlock.parseAll
  cases hpresent : dir.isPresent with
  | false => rfl
  | true =>
    simp only [Bool.not_true, Bool.false_eq_true, if_false]
    rw [Mapped.offset_eq hm]
    refine bind_eq fun start hstart => ?_
    have hlt := Mapped.lt_of_offset hstart
    have hsize := dir.size.toNat_lt
    have hfile := hm.file_lt
    rw [Mapped.of_file, addSaturating_eq (by omega), relocationLoop_eq (by omega) (by omega)]
    generalize RelocationBlock.readFrom _ _ _ _ _ = found
    cases found <;> rfl

/-! ## The certificates -/

/-- How far the certificates are read. -/
structure CertificateState where
  offset : Nat
  found : Array Certificate

/-- Reads one certificate, unless it would be one too many or there is no room for it. -/
def certificateTurn (b : Bytes) (stop : Nat) (s : CertificateState) :
    Checked (Turn CertificateState (List Certificate)) := do
  let head ← add s.offset 8
  if stop < head ∨ Certificate.bound ≤ s.found.size then
    return .answer s.found.toList
  else
    let length ← orFault .certificateTable (b.u32? s.offset)
    let revision ← orFault .certificateTable (b.u16? (← add s.offset 4))
    let kind ← orFault .certificateTable (b.u16? (← add s.offset 6))
    if length.toNat < 8 then
      fail .certificateTable
    else
      let last ← add s.offset length.toNat
      if stop < last then
        fail .certificateTable
      else
        let payload ← cut b head last
        let next ← align 8 last
        return .again {
          offset := next
          found := s.found.push {
            offset := UInt32.ofNat s.offset, length, revision, kind, payload } }

/-- `Certificate.parseAll` with checked steps. -/
def certificates (b : Bytes) (dir : DataDirectory) : Checked (List Certificate) :=
  if !dir.isPresent then pure []
  else if b.size < dir.address.toNat + dir.size.toNat then fail .certificateTable
  else loop (certificateTurn b (dir.address.toNat + dir.size.toNat)) (Certificate.bound + 1)
    { offset := dir.address.toNat, found := #[] }

section Certificates

variable {b : Bytes} {i stop : Nat}

theorem stop_of_read {c : Certificate} (h : Certificate.read b i stop = .ok c) :
    i + c.length.toNat ≤ stop := by
  obtain ⟨length, -, h⟩ := bind_eq_ok_iff.1 h
  obtain ⟨revision, -, h⟩ := bind_eq_ok_iff.1 h
  obtain ⟨kind, -, h⟩ := bind_eq_ok_iff.1 h
  dsimp only at h
  split at h
  · cases h
  · cases h
    dsimp only
    omega

/-- A turn over a certificate that there is room for. -/
theorem certificateTurn_eq (hb : b.size < 2 ^ 62) (hstop : stop ≤ b.size) (hroom : i + 8 ≤ stop)
    {found : Array Certificate} (hfound : found.size < Certificate.bound) :
    certificateTurn b stop ⟨i, found⟩ = done (Certificate.read b i stop >>= fun c =>
      .ok (.again ⟨alignUp 8 (i + c.length.toNat), found.push c⟩)) := by
  rw [certificateTurn]
  dsimp only
  rw [add_eq (by omega), ok_bind, if_neg (by omega), add_eq (by omega), add_eq (by omega)]
  simp only [ok_bind, Certificate.read, bind_assoc]
  refine bind_eq fun length _ => bind_eq fun revision _ => bind_eq fun kind _ => ?_
  have hlength := length.toNat_lt
  by_cases hsmall : length.toNat < 8
  · rw [if_pos hsmall, if_pos (.inl hsmall)]
    rfl
  · rw [if_neg hsmall, add_eq (by omega), ok_bind]
    by_cases hlong : stop < i + length.toNat
    · rw [if_pos hlong, if_pos (.inr hlong)]
      rfl
    · rw [if_neg hlong, if_neg (by omega), cut_eq (by omega) (by omega), ok_bind,
        align_eq (by omega), ok_bind]
      rfl

/-- The loop over the certificates up to `stop`. None reaches further. -/
theorem certificateLoop_eq (hb : b.size < 2 ^ 62) (hstop : stop ≤ b.size) (hi : i ≤ stop) :
    loop (certificateTurn b stop) (Certificate.bound + 1) ⟨i, #[]⟩ =
      done (Certificate.readFrom b stop Certificate.bound i) := by
  have hrun : loop (certificateTurn b stop) (Certificate.bound + 1) ⟨i, #[]⟩ =
      done ((Certificate.readFrom b stop (Certificate.bound - 0) i).map ([] ++ ·)) := by
    refine loop_eq
      (fun s : CertificateState =>
        (Certificate.readFrom b stop (Certificate.bound - s.found.size) s.offset).map
          (s.found.toList ++ ·))
      (fun s => s.offset ≤ stop + 7) (fun s => Certificate.bound - s.found.size) ?_
      (Nat.le_add_right_of_le hi) (by dsimp only; omega)
    rintro ⟨i, found⟩ hi
    dsimp only at hi
    by_cases hgo : i + 8 ≤ stop ∧ found.size < Certificate.bound
    case neg =>
      refine .answer found.toList ?_ ?_
      · rw [certificateTurn]
        dsimp only
        rw [add_eq (by omega), ok_bind, if_pos (by omega)]
        rfl
      · have hnone : Certificate.readFrom b stop (Certificate.bound - found.size) i = .ok [] := by
          unfold Certificate.readFrom
          split
          · rfl
          · rw [if_neg (by omega)]
        dsimp only
        rw [hnone]
        simp [Except.map]
    obtain ⟨hroom, hfound⟩ := hgo
    obtain ⟨left, hleft⟩ : ∃ left, Certificate.bound - found.size = left + 1 :=
      ⟨Certificate.bound - found.size - 1, by omega⟩
    have hturn := certificateTurn_eq hb hstop hroom hfound
    cases hc : Certificate.read b i stop with
    | error fault =>
      rw [hc, ImageTriage.error_bind] at hturn
      refine .fault fault hturn ?_
      dsimp only
      rw [hleft, Certificate.readFrom, if_pos hroom, hc]
      rfl
    | ok c =>
      rw [hc, ImageTriage.ok_bind] at hturn
      -- rounding up may lead past the end of the table, but then no certificate follows
      have hlast := stop_of_read hc
      have hnext := alignUp_le 8 (i + c.length.toNat)
      have hrest : Certificate.bound - (found.push c).size = left := by
        rw [Array.size_push]
        omega
      refine .again _ hturn (by dsimp only; omega) (by dsimp only; omega) ?_
      dsimp only
      rw [hrest, hleft, Certificate.readFrom, if_pos hroom, hc, ImageTriage.ok_bind]
      cases Certificate.readFrom b stop left (alignUp 8 (i + c.length.toNat)) <;>
        simp [Except.map]
  rw [hrun]
  cases Certificate.readFrom b stop (Certificate.bound - 0) i <;> rfl

/-- The certificates are read without a trap. -/
theorem certificates_eq (hb : b.size < 2 ^ 62) (dir : DataDirectory) :
    certificates b dir = done (Certificate.parseAll b dir) := by
  unfold certificates Certificate.parseAll
  split
  · rfl
  · split
    · rfl
    · exact certificateLoop_eq hb (by omega) (by omega)

end Certificates

end Checked

end ImageTriage
