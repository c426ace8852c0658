import Mathlib.Data.List.Forall2
import ImageTriage.Proofs.Import.Truncation

/-!
# Delay-load tables of the older form

A delay-load table is stored in one of two forms. In the newer one all addresses lie in the image,
and the lowest bit of the attributes of a record says so. In the older one that bit is clear and all
addresses are absolute: the low half of the image base is added to the addresses that a record
holds, and to the address of a hint and a name that a thunk holds. `IsOlderForm` says that one file
holds in the older form what another holds in the newer one, record by record and thunk by thunk.

The reader brings the addresses of a record back into the image, so it finds the same libraries with
the same tables. It does not bring back those of the thunks: what it finds for a function that is
asked for by name is whatever stands where the absolute address would lie if it were one in the
image (`IsReread`). So both forms are read alike exactly if the same hints and names stand there too
(`parse_olderForm`), and in general they are lost (`name_lost_in_older_form`).
-/

namespace ImageTriage

open ImportEntry (targetOf slotOf ordinalBit)
open ImportRecord (word)

/-- The thunk in the older form. A number is stored as it is. -/
def MappedFile.olderThunk (m : MappedFile) (w : UInt64) : UInt64 :=
  if w &&& ordinalBit m.wide = 0 then (w.toUInt32 + m.imageBase.toUInt32).toUInt64 else w

namespace OlderForm

/-! ## Two files with one table -/

/-- Two files of one size, which show their bytes at the same narrow addresses. -/
structure SamePlaces (m m' : MappedFile) : Prop where
  narrow : m.wide = false
  wide_eq : m'.wide = m.wide
  sections_eq : m'.sections = m.sections
  imageBase_eq : m'.imageBase = m.imageBase
  size_eq : m'.file.size = m.file.size

/-- From an offset on the second file holds in the older form the thunks of the first. -/
inductive Thunks (m m' : MappedFile) : Nat → Prop where
  /-- The thunks end in both files. -/
  | stop {j : Nat} (hend : m.pointer? j = none ∨ m.pointer? j = some 0)
      (h : m'.pointer? j = m.pointer? j) : Thunks m m' j
  | number {j : Nat} {w : UInt64} (hmark : w &&& ordinalBit m.wide ≠ 0) (h : m.pointer? j = some w)
      (h' : m'.pointer? j = some w) (rest : Thunks m m' (j + m.pointerSize)) : Thunks m m' j
  /-- The absolute address is neither zero nor does it reach the mark of a number, and the hint and
  the name stand at the address in both files. -/
  | address {j : Nat} {w : UInt64} (hmark : w &&& ordinalBit m.wide = 0) (hne : w ≠ 0)
      (h : m.pointer? j = some w) (h' : m'.pointer? j = some (m.olderThunk w))
      (hmark' : m.olderThunk w &&& ordinalBit m.wide = 0) (hne' : m.olderThunk w ≠ 0)
      (hthere : targetOf m' w = targetOf m w) (rest : Thunks m m' (j + m.pointerSize)) :
      Thunks m m' j

/-- At an offset the second file holds in the older form the record of the first. -/
structure IsOlderRecord (m m' : MappedFile) (i : Nat) : Prop where
  newer : word m.file i &&& 1 ≠ 0
  older : word m'.file i = word m.file i &&& 0xFFFFFFFE
  /-- The addresses of the name, of the address table and of the lookup table. -/
  addresses : ∀ k ∈ [4, 12, 16], word m.file (i + k) ≠ 0 ∧ word m'.file (i + k) ≠ 0 ∧
    word m'.file (i + k) = word m.file (i + k) + m.imageBase.toUInt32
  timestamp : word m'.file (i + 28) = word m.file (i + 28)
  text : m'.cstring (word m.file (i + 4)) 256 = m.cstring (word m.file (i + 4)) 256
  thunks : ∀ j, m.sections.offset? (word m.file (i + 16)) = some j → Thunks m m' j

/-- Up to `n` records from an offset on, until a record of zeros. -/
inductive Records (m m' : MappedFile) : Nat → Nat → Prop where
  | none {i : Nat} : Records m m' 0 i
  | zeros {n i : Nat} (h : m.file.isZero i 32) (h' : m'.file.isZero i 32) : Records m m' n i
  | record {n i : Nat} (h : IsOlderRecord m m' i) (rest : Records m m' n (i + 32)) :
      Records m m' (n + 1) i

/-- The second file holds in the older form the delay-load table of the first. The regular directory
is read alike. -/
structure IsOlderForm (m m' : MappedFile) (regular delayLoaded : DataDirectory) : Prop
    extends SamePlaces m m' where
  regular : ∀ limit, ImportTable.readDirectory m' .regular regular limit =
    ImportTable.readDirectory m .regular regular limit
  records : ∀ i, m.sections.offset? delayLoaded.address = some i →
    Records m m' ((m.file.size - i) / 32) i

/-! ## What the second reading finds -/

/-- The functions of thunks. -/
def entriesAt (m : MappedFile) (addressTable : UInt32) (ws : List UInt64) : List ImportEntry :=
  ws.mapIdx fun k w => { target := targetOf m w, slot := slotOf m addressTable k }

/-- The thunks of a descriptor, as they stand in the file. -/
def thunksOf (m : MappedFile) (d : ImportDescriptor) : List UInt64 :=
  match m.sections.offset? d.lookupTable with
  | none => []
  | some j => m.pointers j d.entries.length

/-- What the reader finds for a thunk, which it does not bring back into the image, is what the
thunk of the newer form leads to. -/
def IsFound (m m' : MappedFile) (w : UInt64) : Prop :=
  w &&& ordinalBit m.wide = 0 → targetOf m' (m.olderThunk w) = targetOf m' w

/-- How a descriptor is read from the older form. -/
structure IsReread (m m' : MappedFile) (d d' : ImportDescriptor) : Prop where
  /-- The library, its tables, the timestamp and the kind are the same. -/
  same : d' = { d with entries := d'.entries }
  /-- So are the number of the functions, the words that the loader fills in, and the ordinals. -/
  entries : List.Forall₂ (fun e e' => e'.slot = e.slot ∧ e'.target.ordinal? = e.target.ordinal?)
    d.entries d'.entries
  regular : d.kind = .regular → d'.entries = d.entries
  /-- The functions of the newer form are those of its thunks, -/
  newer : d.kind = .delayLoaded → d.entries = entriesAt m d.addressTable (thunksOf m d)
  /-- and those of the older form are those of the absolute addresses. -/
  older : d.kind = .delayLoaded →
    d'.entries = entriesAt m' d.addressTable ((thunksOf m d).map m.olderThunk)
  /-- The descriptors are the same exactly if all thunks are found. -/
  whole : d' = d ↔ (d.kind = .delayLoaded → ∀ w ∈ thunksOf m d, IsFound m m' w)

/-- Two readings end alike, with one fault or with answers that are so related. -/
inductive EndAlike {α β : Type} (R : α → β → Prop) : Except Fault α → Except Fault β → Prop where
  | fault (f : Fault) : EndAlike R (.error f) (.error f)
  | answer {a : α} {b : β} (h : R a b) : EndAlike R (.ok a) (.ok b)

theorem EndAlike.bind {α β γ δ : Type} {R : α → β → Prop} {S : γ → δ → Prop} {x : Except Fault α}
    {y : Except Fault β} {f : α → Except Fault γ} {g : β → Except Fault δ} (h : EndAlike R x y)
    (hnext : ∀ a b, R a b → EndAlike S (f a) (g b)) : EndAlike S (x >>= f) (y >>= g) := by
  cases h with
  | fault f => exact .fault f
  | answer h => exact hnext _ _ h

theorem EndAlike.refl {α : Type} (x : Except Fault α) : EndAlike (· = ·) x x := by
  cases x with
  | error f => exact .fault f
  | ok a => exact .answer rfl

variable {m m' : MappedFile} {i j n limit budget : Nat} {w : UInt64} {ws : List UInt64}
  {d d' : ImportDescriptor} {regular delayLoaded : DataDirectory}

theorem isReread_regular (h : d.kind = .regular) : IsReread m m' d d where
  same := rfl
  entries := List.forall₂_same.2 fun _ _ => ⟨rfl, rfl⟩
  regular _ := rfl
  newer hdelayed := nomatch h.symm.trans hdelayed
  older hdelayed := nomatch h.symm.trans hdelayed
  whole := ⟨fun _ hdelayed => (nomatch h.symm.trans hdelayed), fun _ => rfl⟩

/-! ## Thunks -/

/-- A thunk that the older form keeps as a thunk of its sort. -/
def Keeps (m m' : MappedFile) (w : UInt64) : Prop :=
  w &&& ordinalBit m.wide = 0 →
    m.olderThunk w &&& ordinalBit m.wide = 0 ∧ targetOf m' w = targetOf m w

theorem targetOf_of_mark (m : MappedFile) (h : w &&& ordinalBit m.wide ≠ 0) :
    targetOf m w = .ordinal w.toUInt16 := by
  rw [targetOf, if_pos (bne_iff_ne.2 h)]

theorem ordinal?_targetOf (m : MappedFile) (h : w &&& ordinalBit m.wide = 0) :
    (targetOf m w).ordinal? = none := by
  rw [targetOf, if_neg (by rw [h]; decide)]
  split <;> rfl

theorem olderThunk_of_mark (h : w &&& ordinalBit m.wide ≠ 0) : m.olderThunk w = w := if_neg h

/-- The record of the newer form at an offset. -/
def recordAt (m : MappedFile) (i : Nat) : ImportRecord where
  name? := some (word m.file (i + 4))
  lookupTable := word m.file (i + 16)
  timestamp := word m.file (i + 28)
  forwarderChain := 0
  addressTable := word m.file (i + 12)
  thunks := word m.file (i + 16)

theorem read_newer (h : IsOlderRecord m m' i) :
    ImportRecord.read m i .delayLoaded = recordAt m i := by
  have hnewer : (word m.file i &&& 1 == 0) = false := beq_false_of_ne h.newer
  have hkept : ∀ address, ImportRecord.rebase false m.imageBase address = address := fun _ => rfl
  obtain ⟨hname, -, -⟩ := h.addresses 4 (by simp)
  simp only [ImportRecord.read, ImportRecord.delayLoaded, recordAt, hnewer, hkept, if_neg hname]

/-- Neither form of a record is one of zeros. -/
theorem not_isZero (h : IsOlderRecord m m' i) :
    m.file.isZero i 32 = false ∧ m'.file.isZero i 32 = false := by
  have hword {b : Bytes} {k : Nat} (hzero : b.isZero i 32) (hk : k + 4 ≤ 32) :
      word b (i + k) = 0 := by
    rw [word, Bytes.u32?_of_isZero hzero hk, Option.getD_some]
  constructor
  · refine Bool.eq_false_iff.2 fun hzero => h.newer ?_
    have hfirst : word m.file i = 0 := hword (k := 0) hzero (by decide)
    rw [hfirst, UInt32.zero_and]
  · obtain ⟨-, hname, -⟩ := h.addresses 4 (by simp)
    exact Bool.eq_false_iff.2 fun hzero => hname (hword hzero (by decide))

/-- A record with a name is read, and its functions are taken off the budget for the rest. -/
theorem readRecords_succ_of_name {kind : ImportKind} {r : ImportRecord} {name : UInt32}
    {found : Array ImportDescriptor} (hgo : m.file.isZero i kind.recordSize = false)
    (hleft : budget ≠ 0) (hread : ImportRecord.read m i kind = r) (hname : r.name? = some name) :
    ImportTable.readRecords m kind (n + 1) i budget found =
      ImportTable.readDescriptor m kind r name budget >>= fun d =>
        ImportTable.readRecords m kind n (i + kind.recordSize) (budget - d.entries.length)
          (found.push d) := by
  rw [ImportTable.readRecords, hgo, beq_false_of_ne hleft, Bool.or_self, if_neg Bool.false_ne_true,
    hread]
  simp only [hname]
  cases ImportTable.readDescriptor m kind r name budget <;> rfl

section Same

variable (hsame : SamePlaces m m')
include hsame

theorem offset_eq (address : UInt32) : m'.offset address = m.offset address := by
  rw [MappedFile.offset, MappedFile.offset, hsame.sections_eq]

theorem pointerSize_eq : m'.pointerSize = m.pointerSize := by
  rw [MappedFile.pointerSize, MappedFile.pointerSize, hsame.wide_eq]

theorem slotOf_same (addressTable : UInt32) (k : Nat) :
    slotOf m' addressTable k = slotOf m addressTable k := by
  rw [slotOf, slotOf, hsame.imageBase_eq, pointerSize_eq hsame]

/-- A row of thunks is read as long as it is in the newer form. -/
theorem pointers_eq (limit : Nat) (h : Thunks m m' j) :
    m'.pointers j limit = (m.pointers j limit).map m.olderThunk ∧
      ∀ w ∈ m.pointers j limit, Keeps m m' w := by
  have hsize := pointerSize_eq hsame
  induction h generalizing limit with
  | stop hend h =>
    rcases hend with hend | hend <;> rw [hend] at h
    · rw [m.pointers_of_none limit hend, m'.pointers_of_none limit h]
      simp
    · rw [m.pointers_of_zero limit hend, m'.pointers_of_zero limit h]
      simp
  | @number j w hmark h h' _ ih =>
    have hne : w ≠ 0 := by
      rintro rfl
      exact hmark (UInt64.zero_and ..)
    cases limit with
    | zero => simp
    | succ limit =>
      obtain ⟨hrest, hkeeps⟩ := ih limit
      rw [m.pointers_succ limit h hne, m'.pointers_succ limit h' hne, List.map_cons,
        olderThunk_of_mark hmark, hsize, hrest]
      exact ⟨rfl, List.forall_mem_cons.2 ⟨fun hlow => absurd hlow hmark, hkeeps⟩⟩
  | @address j w hmark hne h h' hmark' hne' hthere _ ih =>
    cases limit with
    | zero => simp
    | succ limit =>
      obtain ⟨hrest, hkeeps⟩ := ih limit
      rw [m.pointers_succ limit h hne, m'.pointers_succ limit h' hne', List.map_cons, hsize, hrest]
      exact ⟨rfl, List.forall_mem_cons.2 ⟨fun _ => ⟨hmark', hthere⟩, hkeeps⟩⟩

/-- A thunk of either sort stays one of its sort. -/
theorem ordinal?_olderThunk (h : Keeps m m' w) :
    (targetOf m' (m.olderThunk w)).ordinal? = (targetOf m w).ordinal? := by
  by_cases hmark : w &&& ordinalBit m.wide = 0
  · rw [ordinal?_targetOf m hmark, ordinal?_targetOf m' (by rw [hsame.wide_eq]; exact (h hmark).1)]
  · rw [olderThunk_of_mark hmark, targetOf_of_mark m hmark,
      targetOf_of_mark m' (by rwa [hsame.wide_eq])]

/-- A thunk is read alike from both forms exactly if it is found. -/
theorem targetOf_olderThunk_iff (h : Keeps m m' w) :
    targetOf m' (m.olderThunk w) = targetOf m w ↔ IsFound m m' w := by
  by_cases hmark : w &&& ordinalBit m.wide = 0
  · rw [← (h hmark).2]
    exact ⟨fun hfound _ => hfound, fun hfound => hfound hmark⟩
  · rw [olderThunk_of_mark hmark, targetOf_of_mark m hmark,
      targetOf_of_mark m' (by rwa [hsame.wide_eq])]
    exact ⟨fun _ hlow => absurd hlow hmark, fun _ => rfl⟩

theorem entriesAt_map_olderThunk (addressTable : UInt32) (ws : List UInt64) :
    entriesAt m' addressTable (ws.map m.olderThunk) = ws.mapIdx fun k w =>
      { target := targetOf m' (m.olderThunk w), slot := slotOf m addressTable k } := by
  refine List.ext_getElem (by simp [entriesAt]) fun k hk hk' => ?_
  simp only [entriesAt, List.getElem_mapIdx, List.getElem_map, slotOf_same hsame]

/-- The functions of a row of thunks that is kept have the same words to fill in and the same
ordinals. -/
theorem entriesAt_forall₂ (addressTable : UInt32) (h : ∀ w ∈ ws, Keeps m m' w) :
    List.Forall₂ (fun e e' => e'.slot = e.slot ∧ e'.target.ordinal? = e.target.ordinal?)
      (entriesAt m addressTable ws) (entriesAt m' addressTable (ws.map m.olderThunk)) := by
  rw [entriesAt_map_olderThunk hsame]
  refine List.forall₂_of_length_eq_of_get (by simp [entriesAt]) fun k hk hk' => ?_
  simp only [entriesAt, List.get_eq_getElem, List.getElem_mapIdx]
  exact ⟨trivial, ordinal?_olderThunk hsame (h _ (List.getElem_mem _))⟩

/-- They are the same altogether exactly if all of them are found. -/
theorem entriesAt_eq_iff (addressTable : UInt32) (h : ∀ w ∈ ws, Keeps m m' w) :
    entriesAt m' addressTable (ws.map m.olderThunk) = entriesAt m addressTable ws ↔
      ∀ w ∈ ws, IsFound m m' w := by
  rw [entriesAt_map_olderThunk hsame, entriesAt, List.mapIdx_eq_mapIdx_iff,
    List.forall_mem_iff_getElem]
  refine forall₂_congr fun k hk => ?_
  rw [← targetOf_olderThunk_iff hsame (h _ (List.getElem_mem hk)), ImportEntry.mk.injEq,
    and_iff_left rfl]

/-! ## Records -/

/-- A record of the older form is read as that of the newer one: what is taken off its addresses is
what was added. -/
theorem read_older (h : IsOlderRecord m m' i) :
    ImportRecord.read m' i .delayLoaded = recordAt m i := by
  have hclear : (0xFFFFFFFE &&& 1 : UInt32) = 0 := rfl
  have habsolute : (word m'.file i &&& 1 == 0) = true := by
    rw [h.older, UInt32.and_assoc, hclear, UInt32.and_zero, beq_self_eq_true]
  have hback : ∀ k ∈ [4, 12, 16],
      ImportRecord.rebase true m.imageBase (word m'.file (i + k)) = word m.file (i + k) := by
    intro k hk
    obtain ⟨-, hne, hadded⟩ := h.addresses k hk
    rw [ImportRecord.rebase, Bool.true_and, if_pos (bne_iff_ne.2 hne), hadded,
      UInt32.add_sub_cancel]
  obtain ⟨-, hname, -⟩ := h.addresses 4 (by simp)
  simp only [ImportRecord.read, ImportRecord.delayLoaded, recordAt, hsame.imageBase_eq, habsolute,
    h.timestamp, hback 4 (by simp), hback 12 (by simp), hback 16 (by simp), if_neg hname]

/-- The functions of a record are read from either form. -/
theorem readAll_alike {thunks addressTable : UInt32} (hne : thunks ≠ 0)
    (h : ∀ j, m.sections.offset? thunks = some j → Thunks m m' j) :
    EndAlike (fun es es' => ∃ j, m.sections.offset? thunks = some j ∧
        es = entriesAt m addressTable (m.pointers j limit) ∧
        es' = entriesAt m' addressTable ((m.pointers j limit).map m.olderThunk) ∧
        ∀ w ∈ m.pointers j limit, Keeps m m' w)
      (ImportEntry.readAll m thunks addressTable limit)
      (ImportEntry.readAll m' thunks addressTable limit) := by
  rw [ImportEntry.readAll, ImportEntry.readAll, if_neg hne, if_neg hne, offset_eq hsame]
  cases hj : m.sections.offset? thunks with
  | none =>
    rw [MappedFile.offset, SectionTable.offset, hj]
    exact .fault _
  | some j =>
    obtain ⟨hpointers, hkeeps⟩ := pointers_eq hsame limit (h j hj)
    rw [MappedFile.offset_eq_ok hj, ok_bind, ok_bind, hpointers]
    exact .answer ⟨j, rfl, rfl, rfl, hkeeps⟩

/-- A descriptor with the functions of a row of thunks that is kept. -/
theorem isReread_of_thunks (hkind : d.kind = .delayLoaded) (hws : thunksOf m d = ws)
    (hentries : d.entries = entriesAt m d.addressTable ws) (hkeeps : ∀ w ∈ ws, Keeps m m' w) :
    IsReread m m' d
      { d with entries := entriesAt m' d.addressTable (ws.map m.olderThunk) } where
  same := rfl
  entries := by
    rw [hentries]
    exact entriesAt_forall₂ hsame d.addressTable hkeeps
  regular hregular := nomatch hkind.symm.trans hregular
  newer _ := by rw [hws, hentries]
  older _ := by rw [hws]
  whole := by
    have hfound := entriesAt_eq_iff hsame d.addressTable hkeeps
    rw [hws, ← hfound, ← hentries]
    exact ⟨fun h _ => congrArg ImportDescriptor.entries h, fun h => by rw [h hkind]⟩

/-- The descriptor of a record is read from either form, with the same fault if there is one. -/
theorem readDescriptor_alike (h : IsOlderRecord m m' i) :
    EndAlike (IsReread m m')
      (ImportTable.readDescriptor m .delayLoaded (recordAt m i) (word m.file (i + 4)) limit)
      (ImportTable.readDescriptor m' .delayLoaded (recordAt m i) (word m.file (i + 4)) limit) := by
  obtain ⟨hthunks, -, -⟩ := h.addresses 16 (by simp)
  rw [ImportTable.readDescriptor, ImportTable.readDescriptor, h.text]
  refine (EndAlike.refl _).bind ?_
  rintro dllName - rfl
  refine (readAll_alike hsame hthunks h.thunks).bind ?_
  rintro es es' ⟨j, hj, rfl, rfl, hkeeps⟩
  refine .answer (isReread_of_thunks hsame rfl ?_ rfl hkeeps)
  -- there are as many thunks as functions
  have hlength : (entriesAt m (recordAt m i).addressTable (m.pointers j limit)).length =
      (m.pointers j limit).length := by
    simp [entriesAt]
  have htake := m.take_pointers (i := j) (m.length_pointers_le j limit)
  rw [List.take_length] at htake
  have hlookup : m.sections.offset? (recordAt m i).lookupTable = some j := hj
  simp only [thunksOf, hlookup, hlength, ← htake]

/-! ## Both directories -/

/-- The records are read in lock step, and what is left of the budget stays the same. -/
theorem readRecords_alike (h : Records m m' n i) {found found' : Array ImportDescriptor}
    (hfound : List.Forall₂ (IsReread m m') found.toList found'.toList) :
    EndAlike (fun ds ds' => List.Forall₂ (IsReread m m') ds.toList ds'.toList)
      (ImportTable.readRecords m .delayLoaded n i budget found)
      (ImportTable.readRecords m' .delayLoaded n i budget found') := by
  induction h generalizing budget found found' with
  | none => exact .answer hfound
  | @zeros n i hzero hzero' =>
    cases n with
    | zero => exact .answer hfound
    | succ n =>
      rw [ImportTable.readRecords, ImportTable.readRecords, ImportKind.recordSize, hzero, hzero']
      exact .answer hfound
  | @record n i hrecord _ ih =>
    by_cases hspent : budget = 0
    · rw [hspent, ImportTable.readRecords_zero, ImportTable.readRecords_zero]
      exact .answer hfound
    · obtain ⟨hgo, hgo'⟩ := not_isZero hrecord
      rw [readRecords_succ_of_name hgo hspent (read_newer hrecord) rfl,
        readRecords_succ_of_name hgo' hspent (read_older hsame hrecord) rfl]
      refine (readDescriptor_alike hsame hrecord).bind fun d d' hd => ?_
      rw [hd.entries.length_eq]
      refine ih ?_
      rw [Array.toList_push, Array.toList_push]
      exact List.rel_append hfound (.cons hd .nil)

/-- The delay-load directory is read from either form. -/
theorem readDirectory_alike
    (h : ∀ i, m.sections.offset? delayLoaded.address = some i →
      Records m m' ((m.file.size - i) / 32) i) :
    EndAlike (List.Forall₂ (IsReread m m'))
      (ImportTable.readDirectory m .delayLoaded delayLoaded budget)
      (ImportTable.readDirectory m' .delayLoaded delayLoaded budget) := by
  rw [ImportTable.readDirectory, ImportTable.readDirectory, offset_eq hsame, hsame.size_eq]
  split
  case isTrue hpresent =>
    cases hi : m.sections.offset? delayLoaded.address with
    | none =>
      rw [MappedFile.offset, SectionTable.offset, hi]
      exact .fault _
    | some i =>
      rw [MappedFile.offset_eq_ok hi, ok_bind, ok_bind]
      exact (readRecords_alike hsame (h i hi) .nil).bind fun _ _ hds => .answer hds
  case isFalse habsent => exact .answer .nil

end Same

theorem kind_of_mem_readRecords {kind : ImportKind} {found result : Array ImportDescriptor}
    (h : ImportTable.readRecords m kind n i budget found = .ok result)
    (hfound : ∀ d ∈ found.toList, d.kind = kind) : ∀ d ∈ result.toList, d.kind = kind := by
  fun_induction ImportTable.readRecords m kind n i budget found with
  | case1 | case2 =>
    cases h
    exact hfound
  | case3 n i budget found _ _ _ ih => exact ih h hfound
  | case4 => cases h
  | case5 n i budget found _ r name _ d hd ih =>
    refine ih h ?_
    obtain ⟨dllName, -, hd⟩ := bind_eq_ok_iff.1 hd
    obtain ⟨entries, -, hd⟩ := bind_eq_ok_iff.1 hd
    cases hd
    rw [Array.toList_push]
    exact List.forall_mem_append.2 ⟨hfound, List.forall_mem_singleton.2 rfl⟩

theorem kind_of_mem_readDirectory {kind : ImportKind} {dir : DataDirectory}
    {ds : List ImportDescriptor} (h : ImportTable.readDirectory m kind dir budget = .ok ds) :
    ∀ d ∈ ds, d.kind = kind := by
  rw [ImportTable.readDirectory] at h
  split at h
  case isTrue hpresent =>
    obtain ⟨i, -, h⟩ := bind_eq_ok_iff.1 h
    obtain ⟨result, hread, h⟩ := bind_eq_ok_iff.1 h
    cases h
    exact kind_of_mem_readRecords hread (by simp)
  case isFalse habsent =>
    cases h
    simp

/-- A table is read whole from the older form exactly if each of its descriptors is. -/
theorem eq_iff_of_isReread {ds ds' : List ImportDescriptor}
    (h : List.Forall₂ (IsReread m m') ds ds') :
    ds' = ds ↔ ∀ d ∈ ds, d.kind = .delayLoaded → ∀ w ∈ thunksOf m d, IsFound m m' w := by
  induction h with
  | nil => simp
  | cons hd _ ih => rw [List.cons.injEq, hd.whole, ih, List.forall_mem_cons]

/-- Both forms of a table are read alike, with one fault if there is one, but for the functions that
are asked for by name: from the older form these are what the absolute addresses lead to when they
are taken for addresses in the image. So the tables are the same exactly if these lead to the hints
and names of the newer form. -/
theorem parse_olderForm (h : IsOlderForm m m' regular delayLoaded) (limit : Nat) :
    EndAlike (fun t t' =>
        List.Forall₂ (IsReread m m') t.descriptors t'.descriptors ∧
          (t' = t ↔ ∀ d ∈ t.descriptors, d.kind = .delayLoaded →
            ∀ w ∈ thunksOf m d, IsFound m m' w))
      (ImportTable.parse m regular delayLoaded limit)
      (ImportTable.parse m' regular delayLoaded limit) := by
  rw [ImportTable.parse, ImportTable.parse, h.regular]
  cases hfirst : ImportTable.readDirectory m .regular regular limit with
  | error f => exact .fault f
  | ok first =>
    rw [ok_bind, ok_bind]
    refine (readDirectory_alike h.toSamePlaces h.records).bind fun ds ds' hds => .answer ?_
    have hregular : List.Forall₂ (IsReread m m') first first :=
      List.forall₂_same.2 fun d hd => isReread_regular (kind_of_mem_readDirectory hfirst d hd)
    have hall := List.rel_append hregular hds
    refine ⟨hall, ?_⟩
    rw [ImportTable.mk.injEq]
    exact eq_iff_of_isReread hall

/-! ### One table in both forms -/

/-- A file that is one section, with a delay-load table of one record. -/
def fileOf (record thunks : List UInt32) : MappedFile where
  file := ⟨⟨record.flatMap (Bytes.leBytes 4 ·.toNat) ++ List.replicate 32 0 ++
    Utf8.nameBytes "k.dll" ++ [3, 0] ++ Utf8.nameBytes "f" ++
    thunks.flatMap (Bytes.leBytes 4 ·.toNat) ++ List.replicate 12 0⟩⟩
  sections := .ofHeaders [StoredLibrary.sampleSection 0x1000 0x62]
  imageBase := 0x400000

/-- A number, and a name, in the newer form. -/
def newerFile : MappedFile :=
  fileOf [1, 0x1040, 0, 0x1056, 0x104A, 0, 0, 7] [0x80000005, 0x1046, 0]

/-- The same in the older form. -/
def olderFile : MappedFile :=
  fileOf [0, 0x401040, 0, 0x401056, 0x40104A, 0, 0, 7] [0x80000005, 0x401046, 0]

theorem samePlaces_fileOf {record record' thunks thunks' : List UInt32}
    (hsize : (fileOf record' thunks').file.size = (fileOf record thunks).file.size) :
    SamePlaces (fileOf record thunks) (fileOf record' thunks') where
  narrow := rfl
  wide_eq := rfl
  sections_eq := rfl
  imageBase_eq := rfl
  size_eq := hsize

theorem readDirectory_absent (m : MappedFile) (kind : ImportKind) (limit : Nat) :
    ImportTable.readDirectory m kind ⟨0, 0⟩ limit = .ok [] := rfl

theorem isOlderForm_sample : IsOlderForm newerFile olderFile ⟨0, 0⟩ ⟨0x1000, 0x40⟩ where
  toSamePlaces := samePlaces_fileOf (by decide +kernel)
  regular limit := by rw [readDirectory_absent, readDirectory_absent]
  records i hi := by
    have hstart : newerFile.sections.offset? 0x1000 = some 0 := by decide +kernel
    obtain rfl : 0 = i := Option.some.inj (hstart.symm.trans hi)
    have hthunks : Thunks newerFile olderFile 0x4A := by
      refine .number (w := 0x80000005) (by decide) (by decide +kernel) (by decide +kernel) ?_
      refine .address (w := 0x1046) (by decide) (by decide) (by decide +kernel) (by decide +kernel)
        (by decide) (by decide) (by decide +kernel) ?_
      exact .stop (.inr (by decide +kernel)) (by decide +kernel)
    have hrecord : IsOlderRecord newerFile olderFile 0 := by
      refine ⟨by decide +kernel, by decide +kernel, by decide +kernel, by decide +kernel,
        by decide +kernel, fun j hj => ?_⟩
      have hlookup : newerFile.sections.offset? (word newerFile.file (0 + 16)) = some 0x4A := by
        decide +kernel
      obtain rfl : 0x4A = j := Option.some.inj (hlookup.symm.trans hj)
      exact hthunks
    have hcount : (newerFile.file.size - 0) / 32 = 3 := by decide +kernel
    rw [hcount]
    exact .record hrecord (.zeros (by decide +kernel) (by decide +kernel))

/-- What is asked for, library by library. -/
def targets (x : Except Fault ImportTable) : Option (List (String × List ImportTarget)) :=
  x.toOption.map (·.descriptors.map fun d => (d.dllName, d.entries.map (·.target)))

theorem parse_olderForm_sample :
    IsOlderForm newerFile olderFile ⟨0, 0⟩ ⟨0x1000, 0x40⟩ ∧
      ∃ t t', ImportTable.parse newerFile ⟨0, 0⟩ ⟨0x1000, 0x40⟩ 10 = .ok t ∧
        ImportTable.parse olderFile ⟨0, 0⟩ ⟨0x1000, 0x40⟩ 10 = .ok t' ∧
        List.Forall₂ (IsReread newerFile olderFile) t.descriptors t'.descriptors := by
  obtain ⟨t, ht, -⟩ := exists_ok_of_any
    (x := ImportTable.parse newerFile ⟨0, 0⟩ ⟨0x1000, 0x40⟩ 10) (p := fun _ => true)
    (by decide +kernel)
  have halike := parse_olderForm isOlderForm_sample 10
  rw [ht] at halike
  generalize hx : ImportTable.parse olderFile ⟨0, 0⟩ ⟨0x1000, 0x40⟩ 10 = x at halike
  cases halike with
  | answer hreread => exact ⟨isOlderForm_sample, t, _, ht, rfl, hreread.1⟩

/-- The older form loses the name, and the hint with it. -/
theorem name_lost_in_older_form :
    IsOlderForm newerFile olderFile ⟨0, 0⟩ ⟨0x1000, 0x40⟩ ∧
      targets (ImportTable.parse newerFile ⟨0, 0⟩ ⟨0x1000, 0x40⟩ 10000) =
        some [("k.dll", [.ordinal 5, .named (some "f") (some 3)])] ∧
      targets (ImportTable.parse olderFile ⟨0, 0⟩ ⟨0x1000, 0x40⟩ 10000) =
        some [("k.dll", [.ordinal 5, .named none none])] :=
  ⟨isOlderForm_sample, by decide +kernel, by decide +kernel⟩

end OlderForm

end ImageTriage
