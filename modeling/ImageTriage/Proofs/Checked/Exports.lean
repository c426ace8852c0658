import ImageTriage.Export.Table
import ImageTriage.Proofs.Checked.Mapping

/-!
# Checked export tables

The three arrays of the export directory may state up to a 32-bit number of rows. The offset of a
row is then a word, whether or not the file reaches so far, and the rows past the end of the file
add nothing to the table.
-/

namespace ImageTriage

namespace Checked

/-- Adds the name in row `k` of the name array, when the row and the name can be read. -/
def exportName (m : Mapped) (names ordinals : Nat) (found : Std.HashMap Nat String) (k : Nat) :
    Checked (Std.HashMap Nat String) := do
  let i ← row names 4 k
  let j ← row ordinals 2 k
  match m.file.u32? i, m.file.u16? j with
  | some address, some slot =>
    match ← m.cstring? address 512 with
    | some name => return found.insert slot.toNat name
    | none => return found
  | _, _ => return found

/-- `ExportTable.readNames` with checked steps. -/
def exportNames (m : Mapped) (names ordinals : UInt32) (rows : Nat) :
    Checked (Std.HashMap Nat String) :=
  if rows = 0 ∨ names = 0 ∨ ordinals = 0 then pure ∅
  else do
    let i ← m.offset names
    let j ← m.offset ordinals
    (List.range rows).foldlM (exportName m i j) ∅

/-- `ExportTable.forwarder?` with checked steps. -/
def exportForwarder (m : Mapped) (dir : DataDirectory) (address : UInt32) :
    Checked (Option String) :=
  let stop := min (dir.address.toNat + dir.size.toNat) (UInt32.size - 1)
  if dir.address.toNat ≤ address.toNat ∧ address.toNat < stop then m.cstring? address 256
  else pure none

/-- The export in slot `k` of the address array, when there is one. -/
def exportSlot (m : Mapped) (dir : DataDirectory) (base : UInt32)
    (names : Std.HashMap Nat String) (start k : Nat) : Checked (Option ExportEntry) := do
  let address := (m.file.u32? (← row start 4 k)).getD 0
  if address = 0 then
    return none
  else
    let forwarder ← exportForwarder m dir address
    return some { name := names[k]?, ordinal := base + UInt32.ofNat k, address, forwarder }

/-- `ExportTable.readSlots` with checked steps. -/
def exportSlots (m : Mapped) (dir : DataDirectory) (base : UInt32)
    (names : Std.HashMap Nat String) (start slots : Nat) : Checked (List ExportEntry) := do
  return (← (List.range slots).mapM (exportSlot m dir base names start)).filterMap id

/-- The name of the library at an address; address zero has none. -/
def exportDllName (m : Mapped) (address : UInt32) : Checked (Option String) :=
  if address = 0 then pure none else m.cstring? address 256

/-- `ExportTable.parse` with checked steps. -/
def exports (m : Mapped) (dir : DataDirectory) (limit : Nat) : Checked ExportTable :=
  if !dir.isPresent then pure {}
  else do
    let start ← m.offset dir.address
    let stop ← add start 40
    let header ← orFault (.truncatedHeader stop m.file.size) (m.file.slice? start 40)
    let field (i : Nat) := orFault .exportTable (header.u32? i)
    let timestamp ← field 4
    let nameAddress ← field 12
    let ordinalBase ← field 16
    let slots ← field 20
    let rows ← field 24
    let addressArray ← field 28
    let nameArray ← field 32
    let ordinalArray ← field 36
    let dllName ← exportDllName m nameAddress
    let i ← m.offset addressArray
    let names ← exportNames m nameArray ordinalArray (min rows.toNat limit)
    let exports ← exportSlots m dir ordinalBase names i (min slots.toNat limit)
    return {
      dllName
      timestamp
      majorVersion := (header.u16? 8).getD 0
      minorVersion := (header.u16? 10).getD 0
      ordinalBase
      exports }

/-! ## Rows past the end of the file -/

theorem foldl_range_min {α : Type} {f : α → Nat → α} {n c : Nat} {init : α}
    (h : ∀ k acc, c ≤ k → f acc k = acc) :
    (List.range n).foldl f init = (List.range (min n c)).foldl f init := by
  rcases Nat.le_total n c with hle | hle
  · rw [Nat.min_eq_left hle]
  · obtain ⟨d, rfl⟩ := Nat.exists_eq_add_of_le hle
    rw [Nat.min_eq_right hle, List.range_add, List.foldl_append, List.foldl_map]
    generalize (List.range c).foldl f init = acc
    induction d generalizing acc with
    | zero => rfl
    | succ d ih =>
      rw [List.range_succ, List.foldl_append, ih (by omega), List.foldl_cons, List.foldl_nil,
        h _ _ (by omega)]

theorem filterMap_range_min {α : Type} {f : Nat → Option α} {n c : Nat}
    (h : ∀ k, c ≤ k → f k = none) :
    (List.range n).filterMap f = (List.range (min n c)).filterMap f := by
  rcases Nat.le_total n c with hle | hle
  · rw [Nat.min_eq_left hle]
  · obtain ⟨d, rfl⟩ := Nat.exists_eq_add_of_le hle
    have hrest : ((List.range d).map (c + ·)).filterMap f = [] := by
      simp only [List.filterMap_map, List.filterMap_eq_nil_iff, Function.comp_apply]
      exact fun k _ => h (c + k) (by omega)
    rw [Nat.min_eq_right hle, List.range_add, List.filterMap_append, hrest, List.append_nil]

/-- One row of the names, as the table reads it. -/
def addName (m : MappedFile) (names ordinals : Nat) (found : Std.HashMap Nat String) (k : Nat) :
    Std.HashMap Nat String :=
  match (m.file.u32? (names + 4 * k)).bind (m.cstring? · 512), m.file.u16? (ordinals + 2 * k) with
  | some name, some slot => found.insert slot.toNat name
  | _, _ => found

/-- One slot of the addresses, as the table reads it. -/
def exportOf? (m : MappedFile) (dir : DataDirectory) (base : UInt32)
    (names : Std.HashMap Nat String) (start k : Nat) : Option ExportEntry :=
  let address := (m.file.u32? (start + 4 * k)).getD 0
  if address = 0 then none
  else some {
    name := names[k]?
    ordinal := base + UInt32.ofNat k
    address
    forwarder := ExportTable.forwarder? m dir address }

variable {m : MappedFile}

theorem slotNames_eq (names ordinals rows : Nat) :
    ExportTable.slotNames m names ordinals
      (min rows (min ((m.file.size - names) / 4) ((m.file.size - ordinals) / 2))) =
      (List.range rows).foldl (addName m names ordinals) ∅ := by
  rw [foldl_range_min (c := min ((m.file.size - names) / 4) ((m.file.size - ordinals) / 2))]
  · rfl
  · intro k acc hk
    have hpast : m.file.size < names + 4 * k + 4 ∨ m.file.size < ordinals + 2 * k + 2 := by omega
    rcases hpast with hshort | hshort
    · simp [addName, Bytes.u32?_eq_none hshort]
    · simp [addName, Bytes.u16?_eq_none hshort]

theorem readSlots_eq (dir : DataDirectory) (base : UInt32) (names : Std.HashMap Nat String)
    (start slots : Nat) :
    ExportTable.readSlots m dir base names start (min slots ((m.file.size - start) / 4)) =
      (List.range slots).filterMap (exportOf? m dir base names start) := by
  rw [filterMap_range_min (c := (m.file.size - start) / 4)]
  · rfl
  · intro k hk
    have hnone : m.file.u32? (start + 4 * k) = none := Bytes.u32?_eq_none (by omega)
    simp [exportOf?, hnone]

/-! ## No step goes too far -/

section Fits

variable (hm : Mapped.Fits m)
include hm

theorem exportName_eq {names ordinals k : Nat} (hnames : names < 2 ^ 33)
    (hordinals : ordinals < 2 ^ 33) (hk : k < 2 ^ 32) (found : Std.HashMap Nat String) :
    exportName (.of m) names ordinals found k = done (.ok (addName m names ordinals found k)) := by
  unfold exportName addName
  rw [row_eq (by omega), ok_bind, row_eq (by omega), ok_bind, Mapped.of_file]
  cases m.file.u32? (names + 4 * k) with
  | none => rfl
  | some address =>
    cases m.file.u16? (ordinals + 2 * k) with
    | none =>
      -- the name is not looked at then, and adds nothing whatever it is
      rw [Option.bind_some]
      cases m.cstring? address 512 <;> rfl
    | some slot =>
      dsimp only
      rw [Mapped.cstring?_eq hm, ok_bind, Option.bind_some]
      cases m.cstring? address 512 <;> rfl

theorem exportForwarder_eq (dir : DataDirectory) (address : UInt32) :
    exportForwarder (.of m) dir address = done (.ok (ExportTable.forwarder? m dir address)) := by
  unfold exportForwarder ExportTable.forwarder?
  rw [Mapped.cstring?_eq hm]
  dsimp only
  split <;> rfl

theorem exportSlot_eq (dir : DataDirectory) (base : UInt32) (names : Std.HashMap Nat String)
    {start k : Nat} (hstart : start < 2 ^ 33) (hk : k < 2 ^ 32) :
    exportSlot (.of m) dir base names start k =
      done (.ok (exportOf? m dir base names start k)) := by
  unfold exportSlot exportOf?
  rw [row_eq (by omega), ok_bind, Mapped.of_file]
  dsimp only
  rw [exportForwarder_eq hm, ok_bind]
  split <;> rfl

theorem exportNames_eq (names ordinals : UInt32) {rows : Nat} (hrows : rows ≤ 2 ^ 32) :
    exportNames (.of m) names ordinals rows =
      done (ExportTable.readNames m names ordinals rows) := by
  unfold exportNames ExportTable.readNames
  split
  · rfl
  · rw [Mapped.offset_eq hm, Mapped.offset_eq hm]
    refine bind_eq fun i hi => bind_eq fun j hj => ?_
    have hilt := Mapped.lt_of_offset hi
    have hjlt := Mapped.lt_of_offset hj
    rw [slotNames_eq]
    refine foldlM_eq_foldl fun found k hk => ?_
    have hk := List.mem_range.1 hk
    exact exportName_eq hm hilt hjlt (by omega) found

theorem exportSlots_eq (dir : DataDirectory) (base : UInt32) (names : Std.HashMap Nat String)
    {start slots : Nat} (hstart : start < 2 ^ 33) (hslots : slots ≤ 2 ^ 32) :
    exportSlots (.of m) dir base names start slots =
      done (.ok (ExportTable.readSlots m dir base names start
        (min slots ((m.file.size - start) / 4)))) := by
  have hrows : (List.range slots).mapM (exportSlot (.of m) dir base names start) =
      done (.ok ((List.range slots).map (exportOf? m dir base names start))) := by
    refine mapM_eq_map fun k hk => ?_
    have hk := List.mem_range.1 hk
    exact exportSlot_eq hm dir base names hstart (by omega)
  rw [exportSlots, hrows, ok_bind, readSlots_eq, List.filterMap_map]
  rfl

theorem exportDllName_eq (address : UInt32) :
    exportDllName (.of m) address =
      done (.ok (if address = 0 then none else m.cstring? address 256)) := by
  rw [exportDllName, Mapped.cstring?_eq hm]
  split <;> rfl

/-- The export table is read without a trap. -/
theorem exports_eq (dir : DataDirectory) (limit : Nat) :
    exports (.of m) dir limit = done (ExportTable.parse m dir limit) := by
  unfold exports ExportTable.parse
  cases hpresent : dir.isPresent with
  | false => rfl
  | true =>
    simp only [Bool.not_true, Bool.false_eq_true, if_false]
    rw [Mapped.offset_eq hm]
    refine bind_eq fun start hstart => ?_
    have hlt := Mapped.lt_of_offset hstart
    rw [add_eq (by omega), ok_bind]
    refine bind_eq fun header _ => ?_
    refine bind_eq fun timestamp _ => bind_eq fun nameAddress _ => bind_eq fun ordinalBase _ => ?_
    refine bind_eq fun slots _ => bind_eq fun rows _ => bind_eq fun addressArray _ => ?_
    refine bind_eq fun nameArray _ => bind_eq fun ordinalArray _ => ?_
    have hslots := slots.toNat_lt
    have hrows := rows.toNat_lt
    rw [exportDllName_eq hm, ok_bind, Mapped.offset_eq hm]
    refine bind_eq fun i hi => ?_
    rw [exportNames_eq hm _ _ (by omega)]
    refine bind_eq fun names _ => ?_
    rw [exportSlots_eq hm dir ordinalBase names (Mapped.lt_of_offset hi) (by omega)]
    rfl

end Fits

end Checked

end ImageTriage
