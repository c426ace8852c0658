import Mathlib.Data.List.Forall2
import Mathlib.Data.List.Nodup
import ImageTriage.Proofs.Export.Naming
import ImageTriage.Proofs.Text.Utf8

/-!
# The exports are the slots that are not empty

A slot of the address array that is not empty has one export, and there are no other exports
(`exports_are_filled_slots`). `IsExport` says what the export of a slot is: all of it comes from the
file, through the number of the slot.

The number of a slot gives its ordinal, counted from the base and around the end of 32 bits. There
are fewer slots than 32-bit numbers, so no ordinal comes twice, and an export is found by its own.
-/

namespace ImageTriage

/-- The address stands for a forwarder: it lies in the directory itself, of which the last 32-bit
address is no part. -/
def DataDirectory.Forwards (dir : DataDirectory) (address : UInt32) : Prop :=
  dir.address.toNat ≤ address.toNat ∧
    address.toNat < min (dir.address.toNat + dir.size.toNat) (2 ^ 32 - 1)

instance (dir : DataDirectory) (address : UInt32) : Decidable (dir.Forwards address) :=
  inferInstanceAs (Decidable (_ ∧ _))

/-- The text stands at the place of the address in the file. -/
def MappedFile.TextAt (m : MappedFile) (address : UInt32) (bound : Nat) (s : String) : Prop :=
  ∃ i, m.sections.offset? address = some i ∧ m.file.TextStands i bound s

theorem MappedFile.cstring?_eq_some_iff {m : MappedFile} {address : UInt32} {bound : Nat}
    {s : String} : m.cstring? address bound = some s ↔ m.TextAt address bound s := by
  simp only [cstring?, TextAt, Option.bind_eq_bind, Option.bind_eq_some_iff,
    Bytes.cstring?_eq_some_iff]

namespace ExportTable

variable {m : MappedFile} {dir : DataDirectory} {t : ExportTable} {e : ExportEntry}

theorem forwarder?_eq_some_iff {address : UInt32} {text : String} :
    forwarder? m dir address = some text ↔ dir.Forwards address ∧ m.TextAt address 256 text := by
  rw [forwarder?, Option.ite_none_right_eq_some, MappedFile.cstring?_eq_some_iff]
  rfl

/-- Where no ordinal comes twice, an export is found by its own. -/
theorem ordinal?_of_mem (hnodup : (t.exports.map (·.ordinal)).Nodup) (he : e ∈ t.exports) :
    t.ordinal? e.ordinal = some e := by
  rw [ordinal?]
  cases hfound : t.exports.find? (·.ordinal == e.ordinal) with
  | none => exact absurd (beq_iff_eq.2 rfl) (List.find?_eq_none.1 hfound e he)
  | some found =>
    have hordinal : found.ordinal = e.ordinal := by simpa using List.find?_some hfound
    rw [List.inj_on_of_nodup_map hnodup (List.mem_of_find?_eq_some hfound) he hordinal]

end ExportTable

namespace ExportDirectory

/-- The export of slot `k`. -/
structure IsExport (d : ExportDirectory) (m : MappedFile) (dir : DataDirectory) (limit k : Nat)
    (e : ExportEntry) : Prop where
  address_eq : d.address? m limit k = some e.address
  address_ne : e.address ≠ 0
  toNat_ordinal : e.ordinal.toNat = (d.base.toNat + k) % 2 ^ 32
  /-- The name of the last row that names the slot. -/
  name_iff : ∀ name, e.name = some name ↔
    ∃ r, d.row? m limit r = some (name, k) ∧ d.IsLast m limit r k
  /-- The text at the address, when the address lies in the directory. -/
  forwarder_iff : ∀ text, e.forwarder = some text ↔
    dir.Forwards e.address ∧ m.TextAt e.address 256 text

variable {d : ExportDirectory} {m : MappedFile} {dir : DataDirectory} {limit i k : Nat}
  {e : ExportEntry}

/-! ## The slots -/

/-- The slots that are read are the first ones: as many as the directory states, the limit allows
and the file has room for. -/
theorem exists_address?_isSome_iff (hi : m.sections.offset? d.addressArray = some i) :
    ∃ n ≤ min d.slots.toNat limit, ∀ k, (d.address? m limit k).isSome ↔ k < n := by
  refine ⟨min (min d.slots.toNat limit) ((m.file.size - i) / 4), Nat.min_le_left _ _, fun k => ?_⟩
  simp only [Option.isSome_iff_exists, address?_eq_some_iff hi, exists_and_left]
  constructor
  · rintro ⟨hk, address, haddress⟩
    have hfits := Bytes.fits_of_u32? haddress
    omega
  · intro hk
    exact ⟨by omega, _, Bytes.u32?_eq_some (by omega)⟩

/-- The slots that are not empty, in order. -/
def filledSlots (d : ExportDirectory) (m : MappedFile) (limit : Nat) : List Nat :=
  (List.range (min d.slots.toNat limit)).filter fun k => (d.address? m limit k).any (· ≠ 0)

theorem mem_filledSlots :
    k ∈ d.filledSlots m limit ↔ ∃ address, d.address? m limit k = some address ∧ address ≠ 0 := by
  rw [filledSlots, List.mem_filter, List.mem_range, Option.any_eq_true]
  simp only [decide_eq_true_eq]
  exact ⟨And.right, fun ⟨address, haddress, hne⟩ =>
    ⟨lt_of_address? haddress, address, haddress, hne⟩⟩

theorem pairwise_filledSlots (d : ExportDirectory) (m : MappedFile) (limit : Nat) :
    (d.filledSlots m limit).Pairwise (· < ·) :=
  List.pairwise_lt_range.filter _

/-! ## Their exports -/

section Names

variable (dir) {names : Std.HashMap Nat String} (hi : m.sections.offset? d.addressArray = some i)
  (hnames : ExportTable.readNames m d.nameArray d.ordinalArray (min d.rows.toNat limit) = .ok names)
include hi hnames

/-- What is read of a slot is its export. An empty slot has none. -/
theorem exportOf?_cases (hk : k < min d.slots.toNat limit) :
    (∃ e, Checked.exportOf? m dir d.base names i k = some e ∧ d.IsExport m dir limit k e) ∨
      Checked.exportOf? m dir d.base names i k = none ∧
        ¬ ∃ address, d.address? m limit k = some address ∧ address ≠ 0 := by
  rw [Checked.exportOf?]
  cases hword : m.file.u32? (i + 4 * k) with
  | none =>
    refine .inr ⟨by simp, ?_⟩
    rintro ⟨address, haddress, -⟩
    rw [address?_eq_some_iff hi, hword] at haddress
    cases haddress.2
  | some address =>
    have haddress : d.address? m limit k = some address := (address?_eq_some_iff hi).2 ⟨hk, hword⟩
    rw [Option.getD_some]
    split
    case isTrue hzero =>
      refine .inr ⟨rfl, ?_⟩
      rintro ⟨other, hother, hne⟩
      rw [haddress] at hother
      cases hother
      exact hne hzero
    case isFalse hne =>
      have hordinal : (d.base + UInt32.ofNat k).toNat = (d.base.toNat + k) % 2 ^ 32 := by
        rw [UInt32.toNat_add, UInt32.toNat_ofNat', Nat.add_mod_mod]
      exact .inl ⟨_, rfl, haddress, hne, hordinal,
        fun name => getElem?_readNames_eq_some_iff hnames,
        fun text => ExportTable.forwarder?_eq_some_iff⟩

/-- The slots that are not empty and what is read go together, one by one. -/
theorem forall₂_filledSlots :
    List.Forall₂ (d.IsExport m dir limit) (d.filledSlots m limit)
      ((List.range (min d.slots.toNat limit)).filterMap
        (Checked.exportOf? m dir d.base names i)) := by
  have hmem : ∀ k ∈ List.range (min d.slots.toNat limit), k < min d.slots.toNat limit :=
    fun k => List.mem_range.1
  rw [filledSlots]
  generalize List.range (min d.slots.toNat limit) = ks at hmem
  -- induction on the slots, each of which is kept on both sides or on neither
  induction ks with
  | nil => exact .nil
  | cons k ks ih =>
    have hrest := ih fun k hk => hmem k (List.mem_cons_of_mem _ hk)
    rcases exportOf?_cases dir hi hnames (hmem k List.mem_cons_self) with
      ⟨e, hread, he⟩ | ⟨hread, hempty⟩
    · have hfilled : (d.address? m limit k).any (· ≠ 0) := by
        simp [he.address_eq, he.address_ne]
      simp only [List.filter_cons, hfilled, if_true, List.filterMap_cons, hread]
      exact .cons he hrest
    · have hfilled : ¬ (d.address? m limit k).any (· ≠ 0) := by
        simpa [Option.any_eq_true] using hempty
      simp only [List.filter_cons, hfilled, Bool.false_eq_true, if_false, List.filterMap_cons,
        hread]
      exact hrest

end Names

theorem IsExport.lt (h : d.IsExport m dir limit k e) : k < 2 ^ 32 := by
  have hslots := d.slots.toNat_lt
  have hlt := lt_of_address? h.address_eq
  omega

theorem exists_of_mem_right {α β : Type} {R : α → β → Prop} {as : List α} {bs : List β} {b : β}
    (h : List.Forall₂ R as bs) (hb : b ∈ bs) : ∃ a ∈ as, R a b := by
  obtain ⟨hlength, hget⟩ := List.forall₂_iff_get.1 h
  obtain ⟨n, hn, rfl⟩ := List.mem_iff_getElem.1 hb
  exact ⟨as[n], List.getElem_mem _, hget n (by omega) hn⟩

/-- There are fewer slots than ordinals, so that no ordinal comes twice. -/
theorem nodup_ordinals :
    ∀ {slots : List Nat} {exports : List ExportEntry}, slots.Pairwise (· < ·) →
      List.Forall₂ (d.IsExport m dir limit) slots exports → (exports.map (·.ordinal)).Nodup
  | [], _, _, .nil => List.nodup_nil
  | k :: ks, e :: es, hslots, .cons he hes => by
    obtain ⟨hfirst, hrest⟩ := List.pairwise_cons.1 hslots
    rw [List.map_cons, List.nodup_cons]
    refine ⟨fun hmem => ?_, nodup_ordinals hrest hes⟩
    obtain ⟨other, hother, hordinal⟩ := List.mem_map.1 hmem
    obtain ⟨j, hj, hexport⟩ := exists_of_mem_right hes hother
    have hlt := hfirst j hj
    have hbound := hexport.lt
    have hbase := d.base.toNat_lt
    have hsame := hexport.toNat_ordinal
    rw [hordinal, he.toNat_ordinal] at hsame
    omega

/-- The exports are those of the slots that are not empty, in their order, each found by its
ordinal. -/
theorem exports_are_filled_slots {t : ExportTable}
    (hparse : ExportTable.parse m dir limit = .ok t) (hpresent : dir.isPresent) :
    ∃ d, find? m dir = some d ∧
      (∃ n ≤ min d.slots.toNat limit, ∀ k, (d.address? m limit k).isSome ↔ k < n) ∧
      (∃ slots : List Nat, slots.Pairwise (· < ·) ∧
        (∀ k, k ∈ slots ↔ ∃ address, d.address? m limit k = some address ∧ address ≠ 0) ∧
        List.Forall₂ (d.IsExport m dir limit) slots t.exports) ∧
      (t.exports.map (·.ordinal)).Nodup ∧ ∀ e ∈ t.exports, t.ordinal? e.ordinal = some e := by
  obtain ⟨d, names, i, hfind, hnames, hi, hexports⟩ := exists_of_parse hparse hpresent
  have hall := forall₂_filledSlots dir hi hnames
  rw [← hexports] at hall
  have hslots := d.pairwise_filledSlots m limit
  have hnodup := nodup_ordinals hslots hall
  exact ⟨d, hfind, exists_address?_isSome_iff hi,
    ⟨d.filledSlots m limit, hslots, fun k => mem_filledSlots, hall⟩, hnodup,
    fun e he => ExportTable.ordinal?_of_mem hnodup he⟩

/-- A file that is one section, with an export directory that ends before its address array. The
array has nine slots, of which the file holds three: an address with a name, no address, and an
address in the directory. The ordinals begin at the last one. -/
def threeSlots : MappedFile where
  file := ⟨⟨Bytes.leBytes 16 0 ++ Bytes.leBytes 4 0xFFFFFFFF ++ Bytes.leBytes 4 9 ++
      Bytes.leBytes 4 1 ++ Bytes.leBytes 4 0x1038 ++ Bytes.leBytes 4 0x1028 ++
      Bytes.leBytes 4 0x102C ++
    -- the address of the name and its slot, the name, the forwarder, and the addresses of the slots
    Bytes.leBytes 4 0x1030 ++ Bytes.leBytes 4 0 ++ [97, 0, 107, 46, 102, 0, 0, 0] ++
      Bytes.leBytes 4 0x2000 ++ Bytes.leBytes 4 0 ++ Bytes.leBytes 4 0x1032⟩⟩
  sections := .ofHeaders [SectionTable.placed 0x1000 0x44 0 0x44]

/-- The export in the last slot of `threeSlots` is a forwarder, and its ordinal is 1. -/
theorem exports_are_filled_slots_threeSlots :
    ∃ t e, ExportTable.parse threeSlots ⟨0x1000, 0x38⟩ 9 = .ok t ∧
      DataDirectory.isPresent ⟨0x1000, 0x38⟩ = true ∧ e ∈ t.exports ∧
      e.address = 0x1032 ∧ e.forwarder = some "k.f" ∧ t.ordinal? 1 = some e := by
  obtain ⟨t, hparse, -⟩ := exists_ok_of_any (x := ExportTable.parse threeSlots ⟨0x1000, 0x38⟩ 9)
    (p := fun _ => true) (by decide +kernel)
  have hpresent : DataDirectory.isPresent ⟨0x1000, 0x38⟩ = true := by decide
  obtain ⟨d, hfind, -, ⟨slots, -, hmem, hall⟩, -, hfound⟩ :=
    exports_are_filled_slots hparse hpresent
  have hd : find? threeSlots ⟨0x1000, 0x38⟩ =
      some ⟨0xFFFFFFFF, 9, 1, 0x1038, 0x1028, 0x102C⟩ := by decide +kernel
  obtain rfl := Option.some.inj (hfind.symm.trans hd)
  have hlast : address? ⟨0xFFFFFFFF, 9, 1, 0x1038, 0x1028, 0x102C⟩ threeSlots 9 2 =
      some 0x1032 := by
    decide +kernel
  obtain ⟨e, he, hexport⟩ := exists_of_mem_right hall.flip ((hmem 2).2 ⟨_, hlast, by decide⟩)
  have haddress : e.address = 0x1032 := Option.some.inj (hexport.address_eq.symm.trans hlast)
  have hordinal : e.ordinal = 1 := UInt32.toNat_inj.1 hexport.toNat_ordinal
  have htext : threeSlots.cstring? 0x1032 256 = some "k.f" := by decide +kernel
  refine ⟨t, e, hparse, hpresent, he, haddress, (hexport.forwarder_iff "k.f").2 ?_, ?_⟩
  · rw [haddress]
    exact ⟨by decide, MappedFile.cstring?_eq_some_iff.1 htext⟩
  · rw [← hordinal]
    exact hfound e he

end ExportDirectory

end ImageTriage
