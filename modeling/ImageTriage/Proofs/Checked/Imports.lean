import ImageTriage.Import.Table
import ImageTriage.Proofs.Checked.Mapping

/-!
# Checked import tables

Three numbers grow while imports are read: the offset of the next record or thunk, the number of the
thunk, and the number of functions read so far. An offset is added to only after something was read
there, so it is within the file; the number of the thunk is no greater than its offset. What is left
of the limit is a difference that is taken only while less than the limit is spent, and the records
read within it spend no more (`length_entries_le`).
-/

namespace ImageTriage

namespace Checked

/-! ## Thunks -/

/-- `ImportEntry.slotOf` with checked steps. -/
def importSlot (m : Mapped) (addressTable : UInt32) (k : Nat) : Checked UInt64 :=
  if addressTable = 0 then pure 0
  else do
    let distance ← mul m.pointerSize k
    return m.imageBase + addressTable.toUInt64 + UInt64.ofNat distance

/-- `ImportEntry.targetOf` with checked steps. -/
def importTarget (m : Mapped) (thunk : UInt64) : Checked ImportTarget :=
  if thunk &&& ImportEntry.ordinalBit m.wide != 0 then pure (.ordinal thunk.toUInt16)
  else do
    match ← m.sections.offset? (thunk &&& 0x7FFFFFFF).toUInt32 with
    | some i =>
      let name ← cstring? m.file (← add i 2) 512
      return .named name (m.file.u16? i)
    | none => return .named none none

/-- How far the thunks are read. -/
structure ThunkState where
  offset : Nat
  index : Nat
  found : Array ImportEntry

/-- Reads one thunk, unless the limit is reached or the thunks end. -/
def thunkTurn (m : Mapped) (addressTable : UInt32) (limit : Nat) (s : ThunkState) :
    Checked (Turn ThunkState (List ImportEntry)) :=
  if limit ≤ s.found.size then pure (.answer s.found.toList)
  else
    match m.pointer? s.offset with
    | none => pure (.answer s.found.toList)
    | some thunk =>
      if thunk = 0 then pure (.answer s.found.toList)
      else do
        let slot ← importSlot m addressTable s.index
        let target ← importTarget m thunk
        let offset ← add s.offset m.pointerSize
        let index ← add s.index 1
        return .again { offset, index, found := s.found.push { target, slot } }

/-- `ImportEntry.readAll` with checked steps. -/
def importEntries (m : Mapped) (thunks addressTable : UInt32) (limit : Nat) :
    Checked (List ImportEntry) :=
  if thunks = 0 then pure []
  else do
    let offset ← m.offset thunks
    loop (thunkTurn m addressTable limit) (m.file.size + 1) { offset, index := 0, found := #[] }

/-! ## Records -/

/-- The word at place `k` of the record at offset `i`. -/
def recordWord (b : Bytes) (i k : Nat) : Checked UInt32 := do
  return ImportRecord.word b (← add i k)

/-- `ImportRecord.regular` with checked steps. -/
def regularRecord (b : Bytes) (i : Nat) : Checked ImportRecord := do
  let lookup ← recordWord b i 0
  let timestamp ← recordWord b i 4
  let forwarderChain ← recordWord b i 8
  let name ← recordWord b i 12
  let addressTable ← recordWord b i 16
  return {
    name? := if name = 0 then none else some name
    lookupTable := lookup
    timestamp
    forwarderChain
    addressTable
    thunks := if lookup = 0 then addressTable else lookup }

/-- `ImportRecord.delayLoaded` with checked steps. -/
def delayLoadedRecord (b : Bytes) (imageBase : UInt64) (i : Nat) : Checked ImportRecord := do
  let attributes ← recordWord b i 0
  let name ← recordWord b i 4
  let addressTable ← recordWord b i 12
  let lookup ← recordWord b i 16
  let timestamp ← recordWord b i 28
  let inImage := ImportRecord.rebase (attributes &&& 1 == 0) imageBase
  return {
    name? := if name = 0 then none else some (inImage name)
    lookupTable := inImage lookup
    timestamp
    forwarderChain := 0
    addressTable := inImage addressTable
    thunks := inImage lookup }

/-- `ImportRecord.read` with checked steps. -/
def importRecord (m : Mapped) (i : Nat) : ImportKind → Checked ImportRecord
  | .regular => regularRecord m.file i
  | .delayLoaded => delayLoadedRecord m.file m.imageBase i

/-- `ImportTable.readDescriptor` with checked steps. -/
def importDescriptor (m : Mapped) (kind : ImportKind) (r : ImportRecord) (name : UInt32)
    (limit : Nat) : Checked ImportDescriptor := do
  let dllName ← m.cstring name 256
  let entries ← importEntries m r.thunks r.addressTable limit
  return {
    dllName
    lookupTable := r.lookupTable
    timestamp := r.timestamp
    forwarderChain := r.forwarderChain
    nameAddress := name
    addressTable := r.addressTable
    kind
    entries }

/-- How far the records are read. -/
structure RecordState where
  offset : Nat
  /-- The number of functions read, those of earlier directories among them. -/
  total : Nat
  found : Array ImportDescriptor

/-- Reads one record, unless the limit is reached or the records end. -/
def recordTurn (m : Mapped) (kind : ImportKind) (limit : Nat) (s : RecordState) :
    Checked (Turn RecordState (List ImportDescriptor)) :=
  if (m.file.slice? s.offset kind.recordSize).isNone then pure (.answer s.found.toList)
  else if m.file.isZero s.offset kind.recordSize ∨ limit ≤ s.total then
    pure (.answer s.found.toList)
  else do
    let r ← importRecord m s.offset kind
    let offset ← add s.offset kind.recordSize
    match r.name? with
    | none => return .again { s with offset }
    | some name =>
      let d ← importDescriptor m kind r name (← sub limit s.total)
      let total ← add s.total d.entries.length
      return .again { offset, total, found := s.found.push d }

/-- The number of functions that the descriptors import. -/
def countEntries (ds : List ImportDescriptor) : Checked Nat :=
  ds.foldlM (fun n d => add n d.entries.length) 0

/-- `ImportTable.readDirectory` with checked steps, after the descriptors of `before`. -/
def importDirectory (m : Mapped) (kind : ImportKind) (dir : DataDirectory) (limit : Nat)
    (before : List ImportDescriptor) : Checked (List ImportDescriptor) :=
  if dir.isPresent then do
    let offset ← m.offset dir.address
    let total ← countEntries before
    loop (recordTurn m kind limit) (m.file.size + 1) { offset, total, found := #[] }
  else
    pure []

/-- `ImportTable.parse` with checked steps. -/
def imports (m : Mapped) (regular delayLoaded : DataDirectory) (limit : Nat) :
    Checked ImportTable := do
  let first ← importDirectory m .regular regular limit []
  let second ← importDirectory m .delayLoaded delayLoaded limit first
  return ⟨first ++ second⟩

variable {m : MappedFile}

/-! ## The limit is kept -/

/-- The number of functions that the descriptors import. -/
def entryCount (ds : List ImportDescriptor) : Nat := (ds.flatMap (·.entries)).length

theorem length_readAll_le {thunks addressTable : UInt32} {limit : Nat} {entries : List ImportEntry}
    (h : ImportEntry.readAll m thunks addressTable limit = .ok entries) :
    entries.length ≤ limit := by
  unfold ImportEntry.readAll at h
  split at h
  · cases h
    exact Nat.zero_le limit
  · obtain ⟨i, -, h⟩ := bind_eq_ok_iff.1 h
    cases h
    rw [List.length_mapIdx]
    exact m.length_pointers_le i limit

theorem length_entries_le {kind : ImportKind} {r : ImportRecord} {name : UInt32} {limit : Nat}
    {d : ImportDescriptor} (h : ImportTable.readDescriptor m kind r name limit = .ok d) :
    d.entries.length ≤ limit := by
  obtain ⟨dllName, -, h⟩ := bind_eq_ok_iff.1 h
  obtain ⟨entries, hentries, h⟩ := bind_eq_ok_iff.1 h
  cases h
  exact length_readAll_le hentries

@[simp] theorem entryCount_push (found : Array ImportDescriptor) (d : ImportDescriptor) :
    entryCount (found.push d).toList = entryCount found.toList + d.entries.length := by
  simp [entryCount]

/-- The records of a directory spend no more than the budget. -/
theorem entryCount_readRecords_le {kind : ImportKind} {n i budget : Nat}
    {found result : Array ImportDescriptor}
    (h : ImportTable.readRecords m kind n i budget found = .ok result) :
    entryCount result.toList ≤ entryCount found.toList + budget := by
  fun_induction ImportTable.readRecords m kind n i budget found with
  | case1 =>
    cases h
    omega
  | case2 =>
    cases h
    omega
  | case3 n i budget found hgo r hname ih => exact ih h
  | case4 => cases h
  | case5 n i budget found hgo r name hname d hd ih =>
    have hspent := length_entries_le hd
    have hrest := ih h
    rw [entryCount_push] at hrest
    omega

theorem entryCount_readDirectory_le {kind : ImportKind} {dir : DataDirectory} {budget : Nat}
    {ds : List ImportDescriptor} (h : ImportTable.readDirectory m kind dir budget = .ok ds) :
    entryCount ds ≤ budget := by
  unfold ImportTable.readDirectory at h
  split at h
  · obtain ⟨i, -, h⟩ := bind_eq_ok_iff.1 h
    obtain ⟨found, hfound, h⟩ := bind_eq_ok_iff.1 h
    cases h
    simpa [entryCount] using entryCount_readRecords_le hfound
  · cases h
    exact Nat.zero_le budget

theorem countEntries_eq {ds : List ImportDescriptor} (h : entryCount ds < 2 ^ 64) :
    countEntries ds = done (.ok (entryCount ds)) := by
  have hfrom : ∀ n, n + entryCount ds < 2 ^ 64 →
      ds.foldlM (fun n d => add n d.entries.length) n = done (.ok (n + entryCount ds)) := by
    clear h
    induction ds with
    | nil =>
      intro n _
      rfl
    | cons d ds ih =>
      intro n hn
      have hcons : entryCount (d :: ds) = d.entries.length + entryCount ds := by simp [entryCount]
      rw [hcons] at hn
      rw [List.foldlM_cons, add_eq (by omega), ok_bind, ih _ (by omega), hcons, Nat.add_assoc]
  rw [countEntries, hfrom 0 (by omega), Nat.zero_add]

/-! ## No step goes too far -/

theorem recordSize_mem (kind : ImportKind) : 20 ≤ kind.recordSize ∧ kind.recordSize ≤ 32 := by
  cases kind <;> simp [ImportKind.recordSize]

/-- The records that fit after the one at offset `i`. -/
theorem recordCount_succ (kind : ImportKind) {i size : Nat} (h : i + kind.recordSize ≤ size) :
    (size - i) / kind.recordSize = (size - (i + kind.recordSize)) / kind.recordSize + 1 := by
  cases kind <;> simp only [ImportKind.recordSize] at h ⊢ <;> omega

section Fits

variable (hm : Mapped.Fits m)
include hm

theorem importTarget_eq (thunk : UInt64) :
    importTarget (.of m) thunk = done (.ok (ImportEntry.targetOf m thunk)) := by
  unfold importTarget ImportEntry.targetOf
  rw [Mapped.of_wide, Mapped.of_sections, Sections.offset?_eq hm.sections_lt, ok_bind]
  split
  · rfl
  · cases hi : m.sections.offset? (thunk &&& 0x7FFFFFFF).toUInt32 with
    | none => rfl
    | some i =>
      have hlt := Sections.lt_of_offset? hi
      dsimp only
      rw [add_eq (by omega), ok_bind, Mapped.of_file, Checked.cstring?_eq hm.file_lt, ok_bind]
      rfl

omit hm in
theorem importSlot_eq (addressTable : UInt32) {k : Nat} (hk : m.pointerSize * k < 2 ^ 64) :
    importSlot (.of m) addressTable k = done (.ok (ImportEntry.slotOf m addressTable k)) := by
  unfold importSlot ImportEntry.slotOf
  rw [Mapped.of_pointerSize, mul_eq hk]
  split <;> rfl

/-- The functions of the thunks from offset `i` on, the first of them numbered `k`. -/
def thunkEntries (m : MappedFile) (addressTable : UInt32) (limit i k : Nat) : List ImportEntry :=
  (m.pointers i limit).mapIdx fun j thunk =>
    { target := ImportEntry.targetOf m thunk, slot := ImportEntry.slotOf m addressTable (k + j) }

omit hm in
theorem thunkEntries_succ (addressTable : UInt32) {limit i k : Nat} {thunk : UInt64}
    (h : m.pointer? i = some thunk) (hne : thunk ≠ 0) :
    thunkEntries m addressTable (limit + 1) i k =
      { target := ImportEntry.targetOf m thunk, slot := ImportEntry.slotOf m addressTable k } ::
        thunkEntries m addressTable limit (i + m.pointerSize) (k + 1) := by
  unfold thunkEntries
  rw [m.pointers_succ limit h hne, List.mapIdx_cons]
  simp only [Nat.add_zero, Nat.add_assoc, Nat.add_comm 1]

/-- The loop over the thunks. The invariant bounds the number of a thunk by its offset. -/
theorem thunkLoop_eq (addressTable : UInt32) {limit i : Nat} :
    loop (thunkTurn (.of m) addressTable limit) (m.file.size + 1) ⟨i, 0, #[]⟩ =
      done (.ok (thunkEntries m addressTable limit i 0)) := by
  refine loop_eq
    (fun s : ThunkState => .ok (s.found.toList ++
      thunkEntries m addressTable (limit - s.found.size) s.offset s.index))
    (fun s => m.pointerSize * s.index ≤ s.offset) (fun s => m.file.size - s.offset) ?_
    (Nat.zero_le i) (by dsimp only; omega)
  rintro ⟨i, k, found⟩ hinv
  dsimp only at hinv
  by_cases hlimit : limit ≤ found.size
  · refine .answer found.toList (if_pos hlimit) ?_
    simp [thunkEntries, Nat.sub_eq_zero_of_le hlimit]
  obtain ⟨left, hleft⟩ : ∃ left, limit - found.size = left + 1 :=
    ⟨limit - found.size - 1, by omega⟩
  match hthunk : m.pointer? i with
  | none =>
    refine .answer found.toList (by simp [thunkTurn, hlimit, hthunk]) ?_
    simp [thunkEntries, m.pointers_of_none _ hthunk]
  | some thunk =>
    by_cases hzero : thunk = 0
    · refine .answer found.toList (by simp [thunkTurn, hlimit, hthunk, hzero]) ?_
      simp [thunkEntries, m.pointers_of_zero _ (hzero ▸ hthunk)]
    · have hfits := Mapped.fits_of_pointer? hthunk
      have hfile := hm.file_lt
      have hsize := Mapped.pointerSize_pos m
      -- the thunk is in the file, and so neither its number nor the distance of its slot is large
      have hindex : k ≤ m.pointerSize * k := Nat.le_mul_of_pos_left k (by omega)
      let entry : ImportEntry :=
        { target := ImportEntry.targetOf m thunk, slot := ImportEntry.slotOf m addressTable k }
      refine .again ⟨i + m.pointerSize, k + 1, found.push entry⟩ ?_ ?_ ?_ ?_
      · simp only [thunkTurn, if_neg hlimit, Mapped.of_pointer?, hthunk, if_neg hzero]
        rw [importSlot_eq _ (by omega), ok_bind, importTarget_eq hm, ok_bind,
          Mapped.of_pointerSize, add_eq (by omega), ok_bind, add_eq (by omega), ok_bind]
        rfl
      · dsimp only
        rw [Nat.mul_add_one]
        omega
      · dsimp only
        omega
      · have hrest : limit - (found.push entry).size = left := by
          rw [Array.size_push]
          omega
        dsimp only
        rw [hrest, hleft, thunkEntries_succ addressTable hthunk hzero]
        simp [entry]

theorem importEntries_eq (thunks addressTable : UInt32) (limit : Nat) :
    importEntries (.of m) thunks addressTable limit =
      done (ImportEntry.readAll m thunks addressTable limit) := by
  unfold importEntries ImportEntry.readAll
  split
  · rfl
  · rw [Mapped.offset_eq hm]
    refine bind_eq fun i _ => ?_
    rw [Mapped.of_file, thunkLoop_eq hm]
    simp [thunkEntries]

omit hm in
theorem importRecord_eq {i : Nat} (kind : ImportKind) (hi : i + 28 < 2 ^ 64) :
    importRecord (.of m) i kind = done (.ok (ImportRecord.read m i kind)) := by
  have hword : ∀ k ≤ 28, recordWord m.file i k = done (.ok (ImportRecord.word m.file (i + k))) := by
    intro k hk
    rw [recordWord, add_eq (by omega)]
    rfl
  cases kind with
  | regular =>
    change regularRecord m.file i = _
    unfold regularRecord
    simp (disch := omega) only [hword, ok_bind]
    rfl
  | delayLoaded =>
    change delayLoadedRecord m.file m.imageBase i = _
    unfold delayLoadedRecord
    simp (disch := omega) only [hword, ok_bind]
    rfl

theorem importDescriptor_eq (kind : ImportKind) (r : ImportRecord) (name : UInt32) (limit : Nat) :
    importDescriptor (.of m) kind r name limit =
      done (ImportTable.readDescriptor m kind r name limit) := by
  unfold importDescriptor ImportTable.readDescriptor
  rw [Mapped.cstring_eq hm, importEntries_eq hm]
  simp only [pure_eq, bind_done, pure_eq_ok]

/-- One turn over a record that is read. -/
theorem recordTurn_eq (kind : ImportKind) {limit i total : Nat} (found : Array ImportDescriptor)
    (hlimit : limit < 2 ^ 64) (hfits : i + kind.recordSize ≤ m.file.size)
    (hgo : ¬ (m.file.isZero i kind.recordSize ∨ limit ≤ total)) :
    recordTurn (.of m) kind limit ⟨i, total, found⟩ =
      match (ImportRecord.read m i kind).name? with
      | none => done (.ok (.again ⟨i + kind.recordSize, total, found⟩))
      | some name =>
        done (ImportTable.readDescriptor m kind (.read m i kind) name (limit - total) >>= fun d =>
          .ok (.again ⟨i + kind.recordSize, total + d.entries.length, found.push d⟩)) := by
  have hfile := hm.file_lt
  obtain ⟨hlow, hhigh⟩ := recordSize_mem kind
  have hsome : ¬ (m.file.slice? i kind.recordSize).isNone = true := by
    simp [Bytes.slice?_eq_some hfits]
  rw [recordTurn]
  dsimp only
  rw [Mapped.of_file, if_neg hsome, if_neg hgo, importRecord_eq kind (by omega), ok_bind,
    add_eq (by omega), ok_bind]
  cases (ImportRecord.read m i kind).name? with
  | none => rfl
  | some name =>
    dsimp only
    rw [sub_eq (by omega), ok_bind, importDescriptor_eq hm]
    refine bind_eq fun d hd => ?_
    -- what was spent is within the budget, so the total stays within the limit
    have hspent := length_entries_le hd
    rw [add_eq (by omega)]
    rfl

/-- The loop over the records. What is left of the limit is the budget. -/
theorem recordLoop_eq (kind : ImportKind) {limit : Nat} (hlimit : limit < 2 ^ 64) (i total : Nat) :
    loop (recordTurn (.of m) kind limit) (m.file.size + 1) ⟨i, total, #[]⟩ =
      done ((ImportTable.readRecords m kind ((m.file.size - i) / kind.recordSize) i
        (limit - total) #[]).map Array.toList) := by
  refine loop_eq
    (fun s : RecordState => (ImportTable.readRecords m kind
      ((m.file.size - s.offset) / kind.recordSize) s.offset (limit - s.total) s.found).map
        Array.toList)
    (fun _ => True) (fun s => m.file.size - s.offset) ?_ trivial (by dsimp only; omega)
  rintro ⟨i, total, found⟩ -
  have hfile := hm.file_lt
  obtain ⟨hlow, hhigh⟩ := recordSize_mem kind
  -- the reader counts the records that fit, the machine finds out when one does not
  by_cases hfits : i + kind.recordSize ≤ m.file.size
  case neg =>
    have hnone : m.file.slice? i kind.recordSize = none := Bytes.slice?_eq_none_iff.2 (by omega)
    have hzero : (m.file.size - i) / kind.recordSize = 0 := Nat.div_eq_of_lt (by omega)
    refine .answer found.toList (by simp [recordTurn, hnone]) ?_
    simp only [hzero, ImportTable.readRecords]
    rfl
  have hsome := Bytes.slice?_eq_some hfits
  have hcount := recordCount_succ kind hfits
  by_cases hstop : m.file.isZero i kind.recordSize ∨ limit ≤ total
  case pos =>
    have hdone : (m.file.isZero i kind.recordSize || limit - total == 0) = true := by
      simpa [Nat.sub_eq_zero_iff_le] using hstop
    refine .answer found.toList (by simp [recordTurn, hsome, hstop]) ?_
    simp only [hcount, ImportTable.readRecords, hdone, if_true]
    rfl
  have hgo : ¬ (m.file.isZero i kind.recordSize || limit - total == 0) = true := by
    simpa [Nat.sub_eq_zero_iff_le] using hstop
  have hturn := recordTurn_eq hm kind found hlimit hfits hstop
  cases hname : (ImportRecord.read m i kind).name? with
  | none =>
    simp only [hname] at hturn
    refine .again _ hturn trivial (by dsimp only; omega) ?_
    simp only [hcount, ImportTable.readRecords, if_neg hgo, hname]
  | some name =>
    simp only [hname] at hturn
    cases hd : ImportTable.readDescriptor m kind (.read m i kind) name (limit - total) with
    | error fault =>
      rw [hd, ImageTriage.error_bind] at hturn
      refine .fault fault hturn ?_
      simp only [hcount, ImportTable.readRecords, if_neg hgo, hname, hd]
      rfl
    | ok d =>
      rw [hd, ImageTriage.ok_bind] at hturn
      refine .again _ hturn trivial (by dsimp only; omega) ?_
      simp only [hcount, ImportTable.readRecords, if_neg hgo, hname, hd, Nat.sub_add_eq]

theorem importDirectory_eq (kind : ImportKind) (dir : DataDirectory) {limit : Nat}
    (hlimit : limit < 2 ^ 64) {before : List ImportDescriptor}
    (hbefore : entryCount before ≤ limit) :
    importDirectory (.of m) kind dir limit before =
      done (ImportTable.readDirectory m kind dir (limit - entryCount before)) := by
  unfold importDirectory ImportTable.readDirectory
  split
  · rw [Mapped.offset_eq hm]
    refine bind_eq fun i _ => ?_
    rw [countEntries_eq (Nat.lt_of_le_of_lt hbefore hlimit), ok_bind, Mapped.of_file,
      recordLoop_eq hm kind hlimit]
    generalize ImportTable.readRecords _ _ _ _ _ _ = result
    cases result <;> rfl
  · rfl

/-- The import tables are read without a trap. -/
theorem imports_eq (regular delayLoaded : DataDirectory) {limit : Nat} (hlimit : limit < 2 ^ 64) :
    imports (.of m) regular delayLoaded limit =
      done (ImportTable.parse m regular delayLoaded limit) := by
  unfold imports ImportTable.parse
  have hnone : entryCount [] ≤ limit := Nat.zero_le limit
  rw [importDirectory_eq hm _ _ hlimit hnone]
  refine bind_eq fun first hfirst => ?_
  have hspent := entryCount_readDirectory_le hfirst
  rw [importDirectory_eq hm _ _ hlimit hspent]
  simp only [pure_eq, bind_done, pure_eq_ok]
  rfl

end Fits

end Checked

end ImageTriage
