import Mathlib.Data.List.Sort
import ImageTriage.Proofs.Export.Slots

/-!
# A smaller limit cuts the exports and their names

One limit bounds two arrays: the slots of the address array, and the rows that name slots. Within a
smaller limit the exports are those of the first slots, each with the same ordinal, address and
forwarder (`exports_within_smaller_limit`). But rows are not in the order of the slots. An export
that is kept has the name that the first rows give it, and so it may lose its name, or have an
earlier one back, when a later row names its slot (`name_lost_within_smaller_limit`).
-/

namespace ImageTriage

namespace ExportTable

variable {m : MappedFile} {dir : DataDirectory} {small large : Nat} {t : ExportTable}

/-- Fewer rows are read where more can be: all that can fail is to find the two arrays. -/
theorem exists_readNames_of_le {names ordinals : UInt32} {found : Std.HashMap Nat String}
    (h : readNames m names ordinals large = .ok found) (hle : small ≤ large) :
    ∃ found', readNames m names ordinals small = .ok found' := by
  unfold readNames at h ⊢
  split
  case isTrue => exact ⟨_, rfl⟩
  case isFalse hread =>
    rw [if_neg fun habsent => hread (habsent.imp_left fun hrows => by omega)] at h
    obtain ⟨i, hi, h⟩ := bind_eq_ok_iff.1 h
    obtain ⟨j, hj, -⟩ := bind_eq_ok_iff.1 h
    exact ⟨_, by rw [hi, ok_bind, hj, ok_bind]; rfl⟩

/-- Within a smaller limit a directory is read too, and only the exports may differ. -/
theorem exists_parse_of_le (h : parse m dir large = .ok t) (hle : small ≤ large) :
    ∃ exports, parse m dir small = .ok { t with exports } := by
  unfold parse at h ⊢
  split at h
  case isTrue hpresent =>
    cases h
    exact ⟨[], by rw [if_pos hpresent]; rfl⟩
  case isFalse hpresent =>
    rw [if_neg hpresent]
    obtain ⟨start, hstart, h⟩ := bind_eq_ok_iff.1 h
    obtain ⟨header, hheader, h⟩ := bind_eq_ok_iff.1 h
    obtain ⟨timestamp, htimestamp, h⟩ := bind_eq_ok_iff.1 h
    obtain ⟨nameAddress, hnameAddress, h⟩ := bind_eq_ok_iff.1 h
    obtain ⟨base, hbase, h⟩ := bind_eq_ok_iff.1 h
    obtain ⟨slots, hslots, h⟩ := bind_eq_ok_iff.1 h
    obtain ⟨rows, hrows, h⟩ := bind_eq_ok_iff.1 h
    obtain ⟨addressArray, haddressArray, h⟩ := bind_eq_ok_iff.1 h
    obtain ⟨nameArray, hnameArray, h⟩ := bind_eq_ok_iff.1 h
    obtain ⟨ordinalArray, hordinalArray, h⟩ := bind_eq_ok_iff.1 h
    obtain ⟨i, hi, h⟩ := bind_eq_ok_iff.1 h
    obtain ⟨names, hnames, h⟩ := bind_eq_ok_iff.1 h
    cases h
    obtain ⟨names', hnames'⟩ := exists_readNames_of_le hnames
      (show min rows.toNat small ≤ min rows.toNat large by omega)
    simp only [hstart, hheader, htimestamp, hnameAddress, hbase, hslots, hrows, haddressArray,
      hnameArray, hordinalArray, hi, hnames', ok_bind, pure_eq_ok]
    exact ⟨_, rfl⟩

end ExportTable

namespace ExportDirectory

variable {d : ExportDirectory} {m : MappedFile} {dir : DataDirectory} {small large k r : Nat}

/-! ## Within a smaller limit -/

section Limit

variable (hle : small ≤ large)
include hle

theorem row?_of_le {row : String × Nat} :
    d.row? m small r = some row ↔ r < small ∧ d.row? m large r = some row := by
  rw [row?_eq_some_iff, row?_eq_some_iff]
  constructor
  · rintro ⟨⟨hr, harrays⟩, hrow⟩
    exact ⟨by omega, ⟨by omega, harrays⟩, hrow⟩
  · rintro ⟨hr, ⟨hrows, harrays⟩, hrow⟩
    exact ⟨⟨by omega, harrays⟩, hrow⟩

theorem address?_of_le {address : UInt32} :
    d.address? m small k = some address ↔ k < small ∧ d.address? m large k = some address := by
  simp only [address?, Option.bind_eq_bind, Option.bind_eq_some_iff, Option.guard_eq_some',
    exists_const]
  constructor
  · rintro ⟨hk, hword⟩
    exact ⟨by omega, by omega, hword⟩
  · rintro ⟨hk, hslots, hword⟩
    exact ⟨by omega, hword⟩

theorem filledSlots_of_le :
    d.filledSlots m small = (d.filledSlots m large).filter (· < small) := by
  refine (d.pairwise_filledSlots m small).eq_of_mem_iff
    ((d.pairwise_filledSlots m large).filter _) fun k => ?_
  rw [List.mem_filter, mem_filledSlots, mem_filledSlots, decide_eq_true_eq]
  simp only [address?_of_le hle]
  constructor
  · rintro ⟨address, ⟨hk, haddress⟩, hne⟩
    exact ⟨⟨address, haddress, hne⟩, hk⟩
  · rintro ⟨⟨address, haddress, hne⟩, hk⟩
    exact ⟨address, ⟨hk, haddress⟩, hne⟩

/-- Where no row past the smaller limit names a slot, the slot has the same name. -/
theorem exists_isLast_iff_of_le {name : String}
    (hnone : ∀ r other, small ≤ r → d.row? m large r ≠ some (other, k)) :
    (∃ r, d.row? m small r = some (name, k) ∧ d.IsLast m small r k) ↔
      ∃ r, d.row? m large r = some (name, k) ∧ d.IsLast m large r k := by
  have hrow : ∀ r other,
      d.row? m small r = some (other, k) ↔ d.row? m large r = some (other, k) := by
    intro r other
    rw [row?_of_le hle]
    refine ⟨And.right, fun h => ⟨?_, h⟩⟩
    by_contra hr
    exact hnone r other (by omega) h
  simp only [IsLast, ne_eq, hrow]

end Limit

/-- What a smaller limit leaves of the export `e` of slot `k`: all of it but the name, which is that
of the last row for the slot within the limit. The name is the same where no later row names the
slot. -/
structure Remains (d : ExportDirectory) (m : MappedFile) (small large k : Nat)
    (e kept : ExportEntry) : Prop where
  ordinal_eq : kept.ordinal = e.ordinal
  address_eq : kept.address = e.address
  forwarder_eq : kept.forwarder = e.forwarder
  name_iff : ∀ name, kept.name = some name ↔
    ∃ r, d.row? m small r = some (name, k) ∧ d.IsLast m small r k
  name_eq : (∀ r other, small ≤ r → d.row? m large r ≠ some (other, k)) → kept.name = e.name

/-- A slot has one export within either limit, and the two are alike. -/
theorem remains_of_isExport (hle : small ≤ large) {e kept : ExportEntry}
    (he : d.IsExport m dir large k e) (hkept : d.IsExport m dir small k kept) :
    d.Remains m small large k e kept := by
  have haddress : kept.address = e.address := by
    have hword := ((address?_of_le hle).1 hkept.address_eq).2
    exact Option.some.inj (hword.symm.trans he.address_eq)
  refine ⟨UInt32.toNat_inj.1 (hkept.toNat_ordinal.trans he.toNat_ordinal.symm), haddress,
    Option.ext fun text => ?_, hkept.name_iff, fun hnone => Option.ext fun name => ?_⟩
  · rw [hkept.forwarder_iff, he.forwarder_iff, haddress]
  · rw [hkept.name_iff, he.name_iff, exists_isLast_iff_of_le hle hnone]

/-! ## The tables -/

/-- Lists related to one list, and to what a test leaves of it, are related to each other. -/
theorem forall₂_filter_zip {α β γ : Type} {R : α → β → Prop} {S : α → γ → Prop} {p : α → Bool}
    {as : List α} {bs : List β} {cs : List γ} (hR : List.Forall₂ R as bs)
    (hS : List.Forall₂ S (as.filter p) cs) :
    List.Forall₂ (fun ab c => R ab.1 ab.2 ∧ S ab.1 c) ((as.zip bs).filter fun ab => p ab.1) cs := by
  induction hR generalizing cs with
  | nil =>
    cases hS
    exact .nil
  | @cons a b as bs hab hrest ih =>
    rw [List.zip_cons_cons]
    by_cases hp : p a
    · rw [List.filter_cons_of_pos hp] at hS
      rw [List.filter_cons_of_pos (p := fun ab : α × β => p ab.1) (a := (a, b)) hp]
      cases hS with
      | cons hac htail => exact .cons ⟨hab, hac⟩ (ih htail)
    · rw [List.filter_cons_of_neg hp] at hS
      rw [List.filter_cons_of_neg (p := fun ab : α × β => p ab.1) (a := (a, b)) hp]
      exact ih hS

/-- Within a smaller limit the exports are those of the first slots, with the names that the first
rows give them. -/
theorem exports_within_smaller_limit {t : ExportTable}
    (hparse : ExportTable.parse m dir large = .ok t) (hle : small ≤ large) :
    ∃ t', ExportTable.parse m dir small = .ok t' ∧ { t' with exports := t.exports } = t ∧
      (dir.isPresent = false → t' = t) ∧
      (dir.isPresent → ∃ d slots, find? m dir = some d ∧ slots.Pairwise (· < ·) ∧
        List.Forall₂ (d.IsExport m dir large) slots t.exports ∧
        List.Forall₂ (fun numbered kept => d.Remains m small large numbered.1 numbered.2 kept)
          ((slots.zip t.exports).filter (·.1 < small)) t'.exports) := by
  obtain ⟨exports', hparse'⟩ := ExportTable.exists_parse_of_le hparse hle
  refine ⟨_, hparse', rfl, fun habsent => ?_, fun hpresent => ?_⟩
  · rw [ExportTable.parse, habsent] at hparse hparse'
    cases hparse
    exact (Except.ok.inj hparse').symm
  · obtain ⟨d, names, i, hfind, hnames, hi, hexports⟩ := exists_of_parse hparse hpresent
    obtain ⟨d', names', i', hfind', hnames', hi', hexports'⟩ := exists_of_parse hparse' hpresent
    obtain rfl : d = d' := Option.some.inj (hfind.symm.trans hfind')
    have hall := forall₂_filledSlots dir hi hnames
    have hall' := forall₂_filledSlots dir hi' hnames'
    rw [← hexports] at hall
    rw [← hexports', filledSlots_of_le hle] at hall'
    refine ⟨d, _, hfind, d.pairwise_filledSlots m large, hall, ?_⟩
    exact (forall₂_filter_zip hall hall').imp fun _ _ h => remains_of_isExport hle h.1 h.2

/-! ### A row past the limit -/

/-- Both slots of `twoNames` are filled, and only their names are left to the rows. -/
theorem exports_twoNames {t : ExportTable} {limit : Nat}
    (h : ExportTable.parse twoNames ⟨0x1000, 0x28⟩ limit = .ok t) (hlimit : 2 ≤ limit) :
    ∃ names : Std.HashMap Nat String,
      (∀ k name, names[k]? = some name ↔ ∃ r, ofTwoNames.row? twoNames limit r = some (name, k) ∧
        ofTwoNames.IsLast twoNames limit r k) ∧
      t.exports = [⟨names[0]?, 1, 0x2000, none⟩, ⟨names[1]?, 2, 0x2100, none⟩] := by
  obtain ⟨d, names, i, hfind, hnames, hi, hexports⟩ := exists_of_parse h (by decide)
  obtain rfl : d = ofTwoNames := Option.some.inj (hfind.symm.trans find?_twoNames)
  have hplace : twoNames.sections.offset? ofTwoNames.addressArray = some 0x28 := by decide +kernel
  obtain rfl : i = 0x28 := Option.some.inj (hi.symm.trans hplace)
  have hfirst : twoNames.file.u32? (0x28 + 4 * 0) = some 0x2000 := by decide +kernel
  have hsecond : twoNames.file.u32? (0x28 + 4 * 1) = some 0x2100 := by decide +kernel
  have hcount : min ofTwoNames.slots.toNat limit = 2 := Nat.min_eq_left hlimit
  refine ⟨names, fun k name => getElem?_readNames_eq_some_iff hnames, ?_⟩
  have hcode : ExportTable.forwarder? twoNames ⟨0x1000, 0x28⟩ 0x2000 = none ∧
      ExportTable.forwarder? twoNames ⟨0x1000, 0x28⟩ 0x2100 = none := by decide +kernel
  rw [hexports, hcount]
  simp only [List.range_succ, List.range_zero, List.nil_append, List.cons_append,
    List.filterMap_cons, List.filterMap_nil, Checked.exportOf?, hfirst, hsecond]
  rw [Option.getD_some, Option.getD_some, hcode.1, hcode.2]
  rfl

theorem exports_within_smaller_limit_twoNames :
    ∃ t t', ExportTable.parse twoNames ⟨0x1000, 0x28⟩ 9 = .ok t ∧ 2 ≤ 9 ∧
      ExportTable.parse twoNames ⟨0x1000, 0x28⟩ 2 = .ok t' ∧ t.exports.length = 2 ∧
      ∃ slots, List.Forall₂ (ofTwoNames.IsExport twoNames ⟨0x1000, 0x28⟩ 9) slots t.exports ∧
        List.Forall₂
          (fun numbered kept => ofTwoNames.Remains twoNames 2 9 numbered.1 numbered.2 kept)
          ((slots.zip t.exports).filter (·.1 < 2)) t'.exports := by
  obtain ⟨t, hparse⟩ := exists_parse_twoNames
  obtain ⟨t', hparse', -, -, hpresent⟩ := exports_within_smaller_limit hparse (show 2 ≤ 9 by decide)
  obtain ⟨d, slots, hfind, -, hall, hremains⟩ := hpresent (by decide)
  obtain rfl : d = ofTwoNames := Option.some.inj (hfind.symm.trans find?_twoNames)
  obtain ⟨names, -, hexports⟩ := exports_twoNames hparse (by decide)
  exact ⟨t, t', hparse, by decide, hparse', by rw [hexports]; rfl, slots, hall, hremains⟩

/-- Within a limit of two, both slots are read, but not the third row, which names the second
slot. -/
theorem name_lost_within_smaller_limit :
    ∃ t t', ExportTable.parse twoNames ⟨0x1000, 0x28⟩ 9 = .ok t ∧
      ExportTable.parse twoNames ⟨0x1000, 0x28⟩ 2 = .ok t' ∧
      t.exports = [⟨some "b", 1, 0x2000, none⟩, ⟨some "c", 2, 0x2100, none⟩] ∧
      t'.exports = [⟨some "b", 1, 0x2000, none⟩, ⟨none, 2, 0x2100, none⟩] := by
  obtain ⟨t, hparse⟩ := exists_parse_twoNames
  obtain ⟨exports', hparse'⟩ := ExportTable.exists_parse_of_le hparse (show 2 ≤ 9 by decide)
  obtain ⟨names, hnames, hexports⟩ := exports_twoNames hparse (by decide)
  obtain ⟨names', hnames', hexports'⟩ := exports_twoNames hparse' (by decide)
  have hlast : ofTwoNames.IsLast twoNames 9 2 1 := by
    intro later other hlater hrow
    rw [row?_twoNames] at hrow
    match later with
    | later + 3 => cases hrow
  have hb : names[0]? = some "b" := (hnames 0 "b").2 ⟨1, row?_twoNames, isLast_twoNames⟩
  have hc : names[1]? = some "c" := (hnames 1 "c").2 ⟨2, row?_twoNames, hlast⟩
  have hb' : names'[0]? = some "b" := by
    refine (hnames' 0 "b").2 ((exists_isLast_iff_of_le (by decide) fun r other hr hrow => ?_).2
      ⟨1, row?_twoNames, isLast_twoNames⟩)
    exact isLast_twoNames r other (by omega) hrow
  have hc' : names'[1]? = none := by
    refine Option.eq_none_iff_forall_ne_some.2 fun name hname => ?_
    obtain ⟨r, hrow, -⟩ := (hnames' 1 name).1 hname
    obtain ⟨hr, hrow⟩ := (row?_of_le (show 2 ≤ 9 by decide)).1 hrow
    rw [row?_twoNames] at hrow
    match r with
    | 0 | 1 => simp at hrow
  rw [hb, hc] at hexports
  rw [hb', hc'] at hexports'
  exact ⟨t, _, hparse, hparse', hexports, hexports'⟩

end ExportDirectory

end ImageTriage
