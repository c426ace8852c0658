import Mathlib.Data.Option.Basic
import ImageTriage.Proofs.Checked.Exports
import ImageTriage.Proofs.Section.Lookup

/-!
# Looking up exports by name

The rows of an export directory give names to the slots of its address array. `row?` and `address?`
say what stands in a row and in a slot, straight from the file and without the map through which the
reader joins the arrays.

A slot has one name, that of the last row for it (`getElem?_readNames_eq_some_iff`). So a name that
only one row carries is found, with the address and the ordinal of the slot that the row names,
exactly if no later row names the same slot (`named?_of_row`). The names of the earlier rows for a
slot are lost (`first_of_two_names_lost`).
-/

namespace ImageTriage

/-! ## What stands in the file -/

/-- What an export directory states of its arrays. -/
structure ExportDirectory where
  base : UInt32
  /-- The number of slots of the address array. -/
  slots : UInt32
  /-- The number of rows of the name array and of the ordinal array. -/
  rows : UInt32
  addressArray : UInt32
  nameArray : UInt32
  ordinalArray : UInt32
  deriving DecidableEq, Repr

namespace ExportDirectory

/-- The export directory at its place in the file. -/
def find? (m : MappedFile) (dir : DataDirectory) : Option ExportDirectory := do
  guard dir.isPresent
  let start ← m.sections.offset? dir.address
  return {
    base := ← m.file.u32? (start + 16)
    slots := ← m.file.u32? (start + 20)
    rows := ← m.file.u32? (start + 24)
    addressArray := ← m.file.u32? (start + 28)
    nameArray := ← m.file.u32? (start + 32)
    ordinalArray := ← m.file.u32? (start + 36) }

/-- The address in slot `k`, when that slot is read. -/
def address? (d : ExportDirectory) (m : MappedFile) (limit k : Nat) : Option UInt32 := do
  guard (k < min d.slots.toNat limit)
  let i ← m.sections.offset? d.addressArray
  m.file.u32? (i + 4 * k)

/-- The name and the slot in row `r` of a name array and an ordinal array at the offsets `i` and
`j`, when the name is a text. -/
def rowAt? (m : MappedFile) (i j r : Nat) : Option (String × Nat) := do
  let address ← m.file.u32? (i + 4 * r)
  let slot ← m.file.u16? (j + 2 * r)
  let name ← m.cstring? address 512
  return (name, slot.toNat)

/-- The name in row `r` and the slot that it names, when that row is read and the name is a text. -/
def row? (d : ExportDirectory) (m : MappedFile) (limit r : Nat) : Option (String × Nat) := do
  guard (r < min d.rows.toNat limit ∧ d.nameArray ≠ 0 ∧ d.ordinalArray ≠ 0)
  let i ← m.sections.offset? d.nameArray
  let j ← m.sections.offset? d.ordinalArray
  rowAt? m i j r

/-- No row after row `r` names slot `k`. -/
def IsLast (d : ExportDirectory) (m : MappedFile) (limit r k : Nat) : Prop :=
  ∀ later other, r < later → d.row? m limit later ≠ some (other, k)

variable {d : ExportDirectory} {m : MappedFile} {limit i j k n r : Nat} {name : String}

theorem address?_eq_some_iff (hi : m.sections.offset? d.addressArray = some i) {address : UInt32} :
    d.address? m limit k = some address ↔
      k < min d.slots.toNat limit ∧ m.file.u32? (i + 4 * k) = some address := by
  simp [address?, Option.bind_eq_some_iff, hi]

theorem lt_of_address? {address : UInt32} (h : d.address? m limit k = some address) :
    k < min d.slots.toNat limit := by
  simp only [address?, Option.bind_eq_bind, Option.bind_eq_some_iff, Option.guard_eq_some'] at h
  exact h.choose_spec.1

/-! ## The names of the slots -/

/-- One row more: its slot gets its name, whatever name it had. -/
theorem addName_eq (found : Std.HashMap Nat String) :
    Checked.addName m i j found r =
      match rowAt? m i j r with
      | some (name, k) => found.insert k name
      | none => found := by
  rw [Checked.addName, rowAt?]
  cases m.file.u32? (i + 4 * r) with
  | none => rfl
  | some address =>
    cases m.file.u16? (j + 2 * r) with
    | none => cases hname : m.cstring? address 512 <;> simp [hname]
    | some slot => cases hname : m.cstring? address 512 <;> simp [hname]

/-- After some rows a slot has the name of the last of them for it. -/
theorem getElem?_foldl_addName_eq_some_iff :
    ((List.range n).foldl (Checked.addName m i j) ∅)[k]? = some name ↔
      ∃ r < n, rowAt? m i j r = some (name, k) ∧
        ∀ later other, r < later → later < n → rowAt? m i j later ≠ some (other, k) := by
  induction n with
  | zero => simp
  | succ n ih =>
    rw [List.range_succ, List.foldl_append, List.foldl_cons, List.foldl_nil, addName_eq]
    by_cases hnew : ∃ newer, rowAt? m i j n = some (newer, k)
    · -- the new row is the last one for `k`
      obtain ⟨newer, hnew⟩ := hnew
      simp only [hnew, Std.HashMap.getElem?_insert_self, Option.some_inj]
      constructor
      · rintro rfl
        exact ⟨n, by omega, hnew, fun later other hlater hn => by omega⟩
      · rintro ⟨r, hr, hname, hlast⟩
        rcases Nat.lt_or_ge r n with hlt | hge
        · exact absurd hnew (hlast n newer hlt (by omega))
        · obtain rfl : r = n := by omega
          simpa [hnew] using hname
    · -- the new row says nothing of `k`
      have hkept : (match rowAt? m i j n with
          | some (name, slot) =>
            ((List.range n).foldl (Checked.addName m i j) ∅).insert slot name
          | none => (List.range n).foldl (Checked.addName m i j) ∅)[k]? =
          ((List.range n).foldl (Checked.addName m i j) ∅)[k]? := by
        cases hrow : rowAt? m i j n with
        | none => rfl
        | some row =>
          obtain ⟨newer, slot⟩ := row
          have hne : slot ≠ k := by
            rintro rfl
            exact hnew ⟨newer, hrow⟩
          dsimp only
          rw [Std.HashMap.getElem?_insert, if_neg (by simpa using hne)]
      rw [hkept, ih]
      constructor
      · rintro ⟨r, hr, hname, hlast⟩
        refine ⟨r, by omega, hname, fun later other hlater hn hother => ?_⟩
        rcases Nat.lt_or_ge later n with hlt | hge
        · exact hlast later other hlater hlt hother
        · obtain rfl : later = n := by omega
          exact hnew ⟨other, hother⟩
      · rintro ⟨r, hr, hname, hlast⟩
        have hne : r ≠ n := by
          rintro rfl
          exact hnew ⟨name, hname⟩
        exact ⟨r, by omega, hname,
          fun later other hlater hn => hlast later other hlater (by omega)⟩

theorem row?_eq_some_iff {row : String × Nat} :
    d.row? m limit r = some row ↔
      (r < min d.rows.toNat limit ∧ d.nameArray ≠ 0 ∧ d.ordinalArray ≠ 0) ∧
        ∃ i j, m.sections.offset? d.nameArray = some i ∧
          m.sections.offset? d.ordinalArray = some j ∧ rowAt? m i j r = some row := by
  simp only [row?, Option.bind_eq_bind, Option.bind_eq_some_iff, Option.guard_eq_some', exists_const,
    exists_and_left]

/-- A slot has the name of the last row for it. -/
theorem getElem?_readNames_eq_some_iff {names : Std.HashMap Nat String}
    (h : ExportTable.readNames m d.nameArray d.ordinalArray (min d.rows.toNat limit) = .ok names) :
    names[k]? = some name ↔ ∃ r, d.row? m limit r = some (name, k) ∧ d.IsLast m limit r k := by
  unfold ExportTable.readNames at h
  split at h
  case isTrue habsent =>
    cases h
    have hnone : ∀ r, d.row? m limit r ≠ some (name, k) := by
      intro r hrow
      obtain ⟨⟨hr, hnames, hordinals⟩, -⟩ := row?_eq_some_iff.1 hrow
      rcases habsent with hrows | habsent | habsent
      · omega
      · exact hnames habsent
      · exact hordinals habsent
    simp [hnone]
  case isFalse hread =>
    obtain ⟨i, hi, h⟩ := bind_eq_ok_iff.1 h
    obtain ⟨j, hj, h⟩ := bind_eq_ok_iff.1 h
    cases h
    have hrow : ∀ r row, d.row? m limit r = some row ↔
        r < min d.rows.toNat limit ∧ rowAt? m i j r = some row := by
      intro r row
      have hi : m.sections.offset? d.nameArray = some i := orFault_eq_ok_iff.1 hi
      have hj : m.sections.offset? d.ordinalArray = some j := orFault_eq_ok_iff.1 hj
      have harrays : d.nameArray ≠ 0 ∧ d.ordinalArray ≠ 0 :=
        ⟨fun h => hread (.inr (.inl h)), fun h => hread (.inr (.inr h))⟩
      rw [row?_eq_some_iff, hi, hj]
      simp [harrays]
    rw [Checked.slotNames_eq, getElem?_foldl_addName_eq_some_iff]
    simp only [IsLast, ne_eq, hrow, not_and, and_assoc]

/-! ## The table -/

section Table

variable {dir : DataDirectory} {t : ExportTable} {address : UInt32}

/-- The table that is read, when the image has one: the slots of the directory in the file, with the
names that its rows give them. -/
theorem exists_of_parse (h : ExportTable.parse m dir limit = .ok t) (hpresent : dir.isPresent) :
    ∃ d names i, find? m dir = some d ∧
      ExportTable.readNames m d.nameArray d.ordinalArray (min d.rows.toNat limit) = .ok names ∧
      m.sections.offset? d.addressArray = some i ∧
      t.exports = (List.range (min d.slots.toNat limit)).filterMap
        (Checked.exportOf? m dir d.base names i) := by
  unfold ExportTable.parse at h
  rw [hpresent] at h
  obtain ⟨start, hstart, h⟩ := bind_eq_ok_iff.1 h
  obtain ⟨header, hheader, h⟩ := bind_eq_ok_iff.1 h
  obtain ⟨timestamp, -, h⟩ := bind_eq_ok_iff.1 h
  obtain ⟨nameAddress, -, h⟩ := bind_eq_ok_iff.1 h
  obtain ⟨base, hbase, h⟩ := bind_eq_ok_iff.1 h
  obtain ⟨slots, hslots, h⟩ := bind_eq_ok_iff.1 h
  obtain ⟨rows, hrows, h⟩ := bind_eq_ok_iff.1 h
  obtain ⟨addressArray, haddressArray, h⟩ := bind_eq_ok_iff.1 h
  obtain ⟨nameArray, hnameArray, h⟩ := bind_eq_ok_iff.1 h
  obtain ⟨ordinalArray, hordinalArray, h⟩ := bind_eq_ok_iff.1 h
  obtain ⟨i, hi, h⟩ := bind_eq_ok_iff.1 h
  obtain ⟨names, hnames, h⟩ := bind_eq_ok_iff.1 h
  cases h
  have hfits : start + 40 ≤ m.file.size := by
    rcases Nat.lt_or_ge m.file.size (start + 40) with hshort | hfits
    · rw [Bytes.slice?_eq_none_iff.2 hshort] at hheader
      cases hheader
    · exact hfits
  have hfield : ∀ k word, k + 4 ≤ 40 → orFault .exportTable (header.u32? k) = .ok word →
      m.file.u32? (start + k) = some word := by
    intro k word hk hword
    rw [Bytes.slice?_eq_some hfits] at hheader
    cases hheader
    rw [← orFault_eq_ok_iff.1 hword, Bytes.u32?, Bytes.u32?,
      Bytes.leNat?_extract (by omega) (by omega)]
  refine ⟨⟨base, slots, rows, addressArray, nameArray, ordinalArray⟩, names, i, ?_, hnames,
    orFault_eq_ok_iff.1 hi, Checked.readSlots_eq dir base names i _⟩
  have hstart : m.sections.offset? dir.address = some start := orFault_eq_ok_iff.1 hstart
  simp [find?, hpresent, hstart, hfield 16 base (by omega) hbase, hfield 20 slots (by omega) hslots,
    hfield 24 rows (by omega) hrows, hfield 28 addressArray (by omega) haddressArray,
    hfield 32 nameArray (by omega) hnameArray, hfield 36 ordinalArray (by omega) hordinalArray]

/-- The exports are those of the slots that are not empty. -/
theorem exists_forall_mem_exports_iff (h : ExportTable.parse m dir limit = .ok t)
    (hfind : find? m dir = some d) :
    ∃ names : Std.HashMap Nat String,
      (∀ k name, names[k]? = some name ↔
        ∃ r, d.row? m limit r = some (name, k) ∧ d.IsLast m limit r k) ∧
      ∀ entry, entry ∈ t.exports ↔
        ∃ k address, d.address? m limit k = some address ∧ address ≠ 0 ∧
          ({ name := names[k]?, ordinal := d.base + UInt32.ofNat k, address,
             forwarder := ExportTable.forwarder? m dir address } : ExportEntry) = entry := by
  have hpresent : dir.isPresent := by
    rw [find?] at hfind
    simp only [Option.bind_eq_bind, Option.bind_eq_some_iff, Option.guard_eq_some'] at hfind
    exact hfind.choose_spec.1
  obtain ⟨found, names, i, hfound, hnames, hi, hexports⟩ := exists_of_parse h hpresent
  obtain rfl : found = d := Option.some.inj (hfound.symm.trans hfind)
  refine ⟨names, fun k name => getElem?_readNames_eq_some_iff hnames, fun entry => ?_⟩
  simp only [hexports, List.mem_filterMap, List.mem_range, address?_eq_some_iff hi,
    Checked.exportOf?, Option.ite_none_left_eq_some, Option.some.injEq]
  constructor
  · rintro ⟨k, hk, hne, rfl⟩
    cases hword : m.file.u32? (i + 4 * k) with
    | none => simp [hword] at hne
    | some address =>
      rw [hword, Option.getD_some] at hne
      exact ⟨k, address, ⟨hk, hword⟩, hne, by rw [Option.getD_some]⟩
  · rintro ⟨k, address, ⟨hk, hword⟩, hne, rfl⟩
    exact ⟨k, hk, by rwa [hword, Option.getD_some], by rw [hword, Option.getD_some]⟩

section Row

variable (hparse : ExportTable.parse m dir limit = .ok t) (hfind : find? m dir = some d)
  (hrow : d.row? m limit r = some (name, k))
  (halone : ∀ other slot, d.row? m limit other = some (name, slot) → other = r)
include hparse hfind hrow halone

/-- A name that one row carries is the name of no slot when a later row names the slot of the
row. -/
theorem named?_eq_none (hlater : ¬ d.IsLast m limit r k) : t.named? name = none := by
  obtain ⟨names, hnames, hexports⟩ := exists_forall_mem_exports_iff hparse hfind
  rw [ExportTable.named?, List.find?_eq_none]
  intro entry hentry
  obtain ⟨slot, _, -, -, rfl⟩ := (hexports entry).1 hentry
  rw [beq_iff_eq]
  intro hname
  obtain ⟨other, hother, hlast⟩ := (hnames slot name).1 hname
  obtain rfl : other = r := halone other slot hother
  rw [hrow] at hother
  cases hother
  exact hlater hlast

/-- A name that one row carries is the name of the slot of the row when no later row names it. -/
theorem named?_eq_some (hlast : d.IsLast m limit r k)
    (haddress : d.address? m limit k = some address) (hne : address ≠ 0) :
    t.named? name = some {
      name := some name
      ordinal := d.base + UInt32.ofNat k
      address
      forwarder := ExportTable.forwarder? m dir address } := by
  obtain ⟨names, hnames, hexports⟩ := exists_forall_mem_exports_iff hparse hfind
  have hname : names[k]? = some name := (hnames k name).2 ⟨r, hrow, hlast⟩
  have hmem := (hexports _).2 ⟨k, address, haddress, hne, rfl⟩
  rw [ExportTable.named?]
  cases hfound : t.exports.find? (·.name == some name) with
  | none => exact absurd (beq_iff_eq.2 hname) (List.find?_eq_none.1 hfound _ hmem)
  | some entry =>
    have hnamed : entry.name = some name := by simpa using List.find?_some hfound
    obtain ⟨slot, address', haddress', -, rfl⟩ :=
      (hexports entry).1 (List.mem_of_find?_eq_some hfound)
    -- only the slot of the row has the name
    obtain ⟨other, hother, -⟩ := (hnames slot name).1 hnamed
    obtain rfl : other = r := halone other slot hother
    rw [hrow] at hother
    cases hother
    rw [haddress] at haddress'
    cases haddress'
    rw [hname]

/-- A name that one row carries is found, with the slot of that row, exactly if no later row names
that slot. -/
theorem named?_of_row (haddress : d.address? m limit k = some address) (hne : address ≠ 0) :
    (d.IsLast m limit r k →
      t.named? name = some {
        name := some name
        ordinal := d.base + UInt32.ofNat k
        address
        forwarder := ExportTable.forwarder? m dir address }) ∧
      (¬ d.IsLast m limit r k → t.named? name = none) :=
  ⟨fun hlast => named?_eq_some hparse hfind hrow halone hlast haddress hne,
    named?_eq_none hparse hfind hrow halone⟩

end Row

end Table

/-! ### Two names for one slot -/

/-- A file that is one section, with an export directory of two slots. Its first two rows name the
first slot, `a` and `b`; the third names the second slot, `c`. -/
def twoNames : MappedFile where
  file := ⟨⟨Bytes.leBytes 16 0 ++ Bytes.leBytes 4 1 ++ Bytes.leBytes 4 2 ++ Bytes.leBytes 4 3 ++
      Bytes.leBytes 4 0x1028 ++ Bytes.leBytes 4 0x1030 ++ Bytes.leBytes 4 0x103C ++
    -- the addresses of the slots, the addresses of the names, and the slots that these name
    Bytes.leBytes 4 0x2000 ++ Bytes.leBytes 4 0x2100 ++
      Bytes.leBytes 4 0x1042 ++ Bytes.leBytes 4 0x1044 ++ Bytes.leBytes 4 0x1046 ++
      Bytes.leBytes 2 0 ++ Bytes.leBytes 2 0 ++ Bytes.leBytes 2 1 ++ [97, 0, 98, 0, 99, 0]⟩⟩
  sections := .ofHeaders [SectionTable.placed 0x1000 0x48 0 0x48]

/-- The directory of `twoNames`. -/
def ofTwoNames : ExportDirectory := ⟨1, 2, 3, 0x1028, 0x1030, 0x103C⟩

theorem find?_twoNames : find? twoNames ⟨0x1000, 0x28⟩ = some ofTwoNames := by decide +kernel

theorem row?_twoNames :
    ofTwoNames.row? twoNames 9 r =
      match r with
      | 0 => some ("a", 0)
      | 1 => some ("b", 0)
      | 2 => some ("c", 1)
      | _ => none := by
  match r with
  | 0 | 1 | 2 => decide +kernel
  | r + 3 =>
    refine Option.eq_none_iff_forall_ne_some.2 fun row hrow => ?_
    have hlt : r + 3 < 3 := (row?_eq_some_iff.1 hrow).1.1
    omega

theorem isLast_twoNames : ofTwoNames.IsLast twoNames 9 1 0 := by
  intro later other hlater hrow
  rw [row?_twoNames] at hrow
  match later with
  | 2 => simp at hrow
  | later + 3 => cases hrow

theorem exists_parse_twoNames : ∃ t, ExportTable.parse twoNames ⟨0x1000, 0x28⟩ 9 = .ok t := by
  obtain ⟨t, ht, -⟩ := exists_ok_of_any (x := ExportTable.parse twoNames ⟨0x1000, 0x28⟩ 9)
    (p := fun _ => true) (by decide +kernel)
  exact ⟨t, ht⟩

/-- The second name for the first slot is found. -/
theorem named?_of_row_twoNames :
    ∃ t, ExportTable.parse twoNames ⟨0x1000, 0x28⟩ 9 = .ok t ∧
      find? twoNames ⟨0x1000, 0x28⟩ = some ofTwoNames ∧
      (∀ r slot, ofTwoNames.row? twoNames 9 r = some ("b", slot) ↔ r = 1 ∧ slot = 0) ∧
      ofTwoNames.address? twoNames 9 0 = some 0x2000 ∧ ofTwoNames.IsLast twoNames 9 1 0 ∧
      t.named? "b" = some ⟨some "b", 1, 0x2000, none⟩ := by
  obtain ⟨t, hparse⟩ := exists_parse_twoNames
  have hrows : ∀ r slot, ofTwoNames.row? twoNames 9 r = some ("b", slot) ↔ r = 1 ∧ slot = 0 := by
    intro r slot
    rw [row?_twoNames]
    match r with
    | 0 | 2 | r + 3 => simp
    | 1 => simp [eq_comm]
  have haddress : ofTwoNames.address? twoNames 9 0 = some 0x2000 := by decide +kernel
  have hfound := (named?_of_row hparse find?_twoNames ((hrows 1 0).2 ⟨rfl, rfl⟩)
    (fun other slot hother => ((hrows other slot).1 hother).1) haddress (by decide)).1
    isLast_twoNames
  exact ⟨t, hparse, find?_twoNames, hrows, haddress, isLast_twoNames, hfound⟩

/-- The first name for the first slot is not found, though one row carries it and the slot has an
address. -/
theorem first_of_two_names_lost :
    ∃ t, ExportTable.parse twoNames ⟨0x1000, 0x28⟩ 9 = .ok t ∧
      find? twoNames ⟨0x1000, 0x28⟩ = some ofTwoNames ∧
      (∀ r slot, ofTwoNames.row? twoNames 9 r = some ("a", slot) ↔ r = 0 ∧ slot = 0) ∧
      ofTwoNames.address? twoNames 9 0 = some 0x2000 ∧ t.named? "a" = none := by
  obtain ⟨t, hparse⟩ := exists_parse_twoNames
  have hrows : ∀ r slot, ofTwoNames.row? twoNames 9 r = some ("a", slot) ↔ r = 0 ∧ slot = 0 := by
    intro r slot
    rw [row?_twoNames]
    match r with
    | 0 => simp [eq_comm]
    | 1 | 2 | r + 3 => simp
  have hlater : ¬ ofTwoNames.IsLast twoNames 9 0 0 := fun hlast =>
    hlast 1 "b" (by omega) row?_twoNames
  exact ⟨t, hparse, find?_twoNames, hrows, by decide +kernel,
    named?_eq_none hparse find?_twoNames ((hrows 0 0).2 ⟨rfl, rfl⟩)
      (fun other slot hother => ((hrows other slot).1 hother).1) hlater⟩

end ExportDirectory

end ImageTriage
