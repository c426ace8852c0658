import Mathlib.Data.List.Chain
import ImageTriage.Section.Table

/-!
# Finding the section of an address

Bisection goes through the sections in the order of their addresses, and never looks at most of
them. When no section reaches into the next one (`Separated`) it nevertheless finds what a scan of
the declared sections finds: `containing?` answers the one section that holds the address, and
`offset?` its place in the file. The order of declaration plays no part in either answer.

The argument has two halves. `bisect_spec` says where bisection ends: at the last section that
starts at or below the address. `endsBelow_of_lt` says that every section before that one ends at or
below its start, hence below the address.
-/

namespace ImageTriage.SectionTable

variable {t : SectionTable} {address : UInt32}

/-- A section ends, by its addresses, at the latest where another begins. -/
def EndsBelow (a b : SectionHeader) : Prop :=
  a.virtualAddress.toNat + a.span ≤ b.virtualAddress.toNat

instance : Trans EndsBelow EndsBelow EndsBelow where
  trans {a b c} hab hbc := by
    unfold EndsBelow at *
    omega

/-- In the order of the addresses, each section ends before the next begins. -/
def Separated (t : SectionTable) : Prop := t.byAddress.toList.IsChain EndsBelow

/-! ## The order of the addresses -/

theorem byAddress_perm (t : SectionTable) : t.byAddress.toList.Perm t.headers := by
  rw [t.byAddress_eq]
  exact List.mergeSort_perm _ _

theorem byAddress_sorted (t : SectionTable) :
    t.byAddress.toList.Pairwise fun a b => a.virtualAddress ≤ b.virtualAddress := by
  rw [t.byAddress_eq]
  refine List.Pairwise.imp of_decide_eq_true (List.pairwise_mergeSort ?_ ?_ t.headers)
  · intro a b c hab hbc
    simp only [decide_eq_true_eq] at *
    exact UInt32.le_trans hab hbc
  · intro a b
    simp only [Bool.or_eq_true, decide_eq_true_eq]
    exact UInt32.le_total _ _

theorem endsBelow_of_lt (ht : t.Separated) {i j : Nat} {a b : SectionHeader} (hij : i < j)
    (ha : t.byAddress[i]? = some a) (hb : t.byAddress[j]? = some b) : EndsBelow a b := by
  obtain ⟨hi, rfl⟩ := Array.getElem?_eq_some_iff.1 ha
  obtain ⟨hj, rfl⟩ := Array.getElem?_eq_some_iff.1 hb
  exact List.pairwise_iff_getElem.1 (List.IsChain.pairwise ht) i j (by simpa) (by simpa) hij

theorem exists_byAddress_of_mem {h : SectionHeader} (hmem : h ∈ t.headers) :
    ∃ j : Nat, t.byAddress[j]? = some h := by
  have hsorted : h ∈ t.byAddress.toList := t.byAddress_perm.mem_iff.2 hmem
  obtain ⟨j, hj, rfl⟩ := List.mem_iff_getElem.1 hsorted
  exact ⟨j, by simp [Array.getElem?_eq_getElem (by simpa using hj)]⟩

/-! ## Where bisection ends -/

/-- Bisection of a sorted array ends in its range, not above the address unless it never moved, and
all that follows in the range is above the address. -/
theorem bisect_spec {sorted : Array SectionHeader}
    (hsorted : sorted.toList.Pairwise fun a b => a.virtualAddress ≤ b.virtualAddress)
    (address : UInt32) {base size : Nat} (hsize : 0 < size) (hfit : base + size ≤ sorted.size) :
    base ≤ bisect sorted address base size ∧
    bisect sorted address base size < base + size ∧
    (∀ a, base < bisect sorted address base size →
      sorted[bisect sorted address base size]? = some a → a.virtualAddress ≤ address) ∧
    (∀ j b, bisect sorted address base size < j → j < base + size → sorted[j]? = some b →
      address < b.virtualAddress) := by
  fun_induction bisect sorted address base size with
  | case1 base size hone =>
    refine ⟨Nat.le_refl _, by omega, fun a hlt => absurd hlt (Nat.lt_irrefl _), ?_⟩
    intro j b hlow hhigh
    omega
  | case2 base size hone half middle hle ih =>
    -- the middle section starts at or below the address: what is before it is done with
    obtain ⟨hlow, hhigh, hend, habove⟩ := ih (by omega) (by omega)
    have hmiddle : ∀ m, sorted[middle]? = some m → m.virtualAddress ≤ address := by
      intro m hm
      simpa [hm] using hle
    refine ⟨by omega, by omega, ?_, fun j b hj hstop => habove j b hj (by omega)⟩
    intro a _ ha
    rcases Nat.eq_or_lt_of_le hlow with heq | hlt
    · rw [← heq] at ha
      exact hmiddle a ha
    · exact hend a hlt ha
  | case3 base size hone half middle hgt ih =>
    -- the middle section starts above the address, and so do all that follow it
    obtain ⟨hlow, hhigh, hend, habove⟩ := ih (by omega) (by omega)
    refine ⟨hlow, by omega, hend, ?_⟩
    intro j b hj hstop hb
    rcases Nat.lt_or_ge j (base + (size - half)) with hin | hout
    · exact habove j b hj hin hb
    · have hmid : middle < sorted.size := by omega
      have hmiddle : address < sorted[middle].virtualAddress := by
        simpa [Array.getElem?_eq_getElem hmid] using hgt
      obtain ⟨hjsize, rfl⟩ := Array.getElem?_eq_some_iff.1 hb
      rcases Nat.eq_or_lt_of_le (show middle ≤ j by omega) with rfl | hlt
      · exact hmiddle
      · have hle := List.pairwise_iff_getElem.1 hsorted middle j (by simpa) (by simpa) hlt
        exact UInt32.lt_of_lt_of_le hmiddle (by simpa using hle)

/-! ## The section that is found -/

theorem contains_of_containing? {h : SectionHeader} (hfound : t.containing? address = some h) :
    h ∈ t.headers ∧ h.contains address := by
  simp only [containing?, Option.bind_eq_bind, Option.bind_eq_some_iff,
    Option.ite_none_right_eq_some, Option.some.injEq] at hfound
  obtain ⟨a, ha, hcontains, rfl⟩ := hfound
  exact ⟨t.byAddress_perm.mem_iff.1 (Array.mem_toList_iff.2 (Array.mem_of_getElem? ha)), hcontains⟩

/-- Bisection ends at a section that holds the address, if there is one. -/
theorem bisect_eq_of_contains (ht : t.Separated) {j : Nat} {h : SectionHeader}
    (hj : t.byAddress[j]? = some h) (hcontains : h.contains address) :
    bisect t.byAddress address 0 t.byAddress.size = j := by
  obtain ⟨hjsize, -⟩ := Array.getElem?_eq_some_iff.1 hj
  obtain ⟨-, hhigh, hend, habove⟩ :=
    bisect_spec t.byAddress_sorted address (show 0 < t.byAddress.size by omega)
      (show 0 + t.byAddress.size ≤ t.byAddress.size by omega)
  obtain ⟨hle, hlt⟩ := SectionHeader.contains_iff.1 hcontains
  rcases Nat.lt_trichotomy (bisect t.byAddress address 0 t.byAddress.size) j with
    hbefore | heq | hafter
  · -- a section behind the end starts above the address
    have := UInt32.lt_iff_toNat_lt.1 (habove j h hbefore (by omega) hj)
    omega
  · exact heq
  · -- a section before the end stops where the last one starts
    have hlast := Array.getElem?_eq_getElem
      (show bisect t.byAddress address 0 t.byAddress.size < t.byAddress.size by omega)
    have hstop := endsBelow_of_lt ht hafter hj hlast
    have hstart := UInt32.le_iff_toNat_le.1 (hend _ (by omega) hlast)
    unfold EndsBelow at hstop
    omega

theorem containing?_eq_some_iff (ht : t.Separated) {h : SectionHeader} :
    t.containing? address = some h ↔ h ∈ t.headers ∧ h.contains address := by
  refine ⟨contains_of_containing?, ?_⟩
  rintro ⟨hmem, hcontains⟩
  obtain ⟨j, hj⟩ := exists_byAddress_of_mem hmem
  simp [containing?, bisect_eq_of_contains ht hj hcontains, hj, hcontains]

theorem containing?_eq_none_iff (ht : t.Separated) :
    t.containing? address = none ↔ ∀ h ∈ t.headers, ¬ h.contains address := by
  constructor
  · intro hnone h hmem hcontains
    rw [(containing?_eq_some_iff ht).2 ⟨hmem, hcontains⟩] at hnone
    cases hnone
  · intro hall
    rcases hfound : t.containing? address with _ | h
    · rfl
    · obtain ⟨hmem, hcontains⟩ := contains_of_containing? hfound
      exact absurd hcontains (hall h hmem)

/-- At most one declared section holds an address, counted by position. -/
theorem not_both_contain (ht : t.Separated) (address : UInt32) :
    t.headers.Pairwise fun a b => ¬ (a.contains address ∧ b.contains address) := by
  have hsorted : t.byAddress.toList.Pairwise fun a b =>
      ¬ (a.contains address ∧ b.contains address) := by
    refine (List.IsChain.pairwise ht).imp fun {a b} hab hboth => ?_
    have ha := SectionHeader.contains_iff.1 hboth.1
    have hb := SectionHeader.contains_iff.1 hboth.2
    unfold EndsBelow at hab
    omega
  exact (t.byAddress_perm.pairwise_iff fun hab hba => hab hba.symm).1 hsorted

/-- A scan of the declared sections finds the answer of bisection, and nothing besides. -/
theorem filter_contains_eq (ht : t.Separated) (address : UInt32) :
    t.headers.filter (·.contains address) = (t.containing? address).toList := by
  rcases hfound : t.containing? address with _ | h
  · rw [containing?_eq_none_iff ht] at hfound
    simpa using hfound
  · have hmem : h ∈ t.headers.filter (·.contains address) := by
      simpa using contains_of_containing? hfound
    have hone := (not_both_contain ht address).filter (·.contains address)
    rcases hscan : t.headers.filter (·.contains address) with _ | ⟨a, _ | ⟨b, rest⟩⟩
    · rw [hscan] at hmem
      cases hmem
    · rw [hscan, List.mem_singleton] at hmem
      rw [hmem]
      exact hscan
    · -- two hits would both hold the address
      have hboth : ∀ c ∈ a :: b :: rest, c.contains address := by
        intro c hc
        rw [← hscan] at hc
        exact (List.mem_filter.1 hc).2
      rw [hscan] at hone
      exact absurd ⟨hboth a (by simp), hboth b (by simp)⟩ (List.rel_of_pairwise_cons hone (by simp))

/-! ## The place in the file -/

theorem offset?_eq_some_iff (ht : t.Separated) {i : Nat} :
    t.offset? address = some i ↔
      ∃ h ∈ t.headers, h.contains address ∧
        address.toNat - h.virtualAddress.toNat < h.rawSize.toNat ∧
        i = h.fileStart + (address.toNat - h.virtualAddress.toNat) := by
  simp only [offset?, Option.bind_eq_bind, Option.bind_eq_some_iff, Option.ite_none_right_eq_some,
    Option.some.injEq, containing?_eq_some_iff ht]
  constructor
  · rintro ⟨h, ⟨hmem, hcontains⟩, hdelta, rfl⟩
    exact ⟨h, hmem, hcontains, hdelta, rfl⟩
  · rintro ⟨h, hmem, hcontains, hdelta, rfl⟩
    exact ⟨h, ⟨hmem, hcontains⟩, hdelta, rfl⟩

/-! ## The order of declaration -/

theorem containing?_congr_perm {u : SectionTable} (ht : t.Separated) (hu : u.Separated)
    (hperm : u.headers.Perm t.headers) (address : UInt32) :
    u.containing? address = t.containing? address := by
  refine Option.ext fun h => ?_
  rw [containing?_eq_some_iff hu, containing?_eq_some_iff ht, hperm.mem_iff]

theorem offset?_congr_perm {u : SectionTable} (ht : t.Separated) (hu : u.Separated)
    (hperm : u.headers.Perm t.headers) (address : UInt32) :
    u.offset? address = t.offset? address := by
  unfold offset?
  rw [containing?_congr_perm ht hu hperm]

/-- Bisection agrees with a scan of the declared sections: the answer is the one section that holds
the address, the file offset is its place there when the file backs it, and another order of
declaration changes neither. -/
theorem lookup_agrees_with_scan (headers : List SectionHeader)
    (hsep : (ofHeaders headers).Separated) (address : UInt32) :
    (∀ h, (ofHeaders headers).containing? address = some h ↔
      h ∈ headers ∧ h.contains address) ∧
    headers.filter (·.contains address) =
      ((ofHeaders headers).containing? address).toList ∧
    ((ofHeaders headers).containing? address = none ↔
      ∀ h ∈ headers, ¬ h.contains address) ∧
    (∀ i, (ofHeaders headers).offset? address = some i ↔
      ∃ h ∈ headers, h.contains address ∧
        address.toNat - h.virtualAddress.toNat < h.rawSize.toNat ∧
        i = h.rawOffset.toNat + (address.toNat - h.virtualAddress.toNat)) ∧
    (∀ others : List SectionHeader, others.Perm headers →
      (ofHeaders others).Separated →
      (ofHeaders others).containing? address =
          (ofHeaders headers).containing? address ∧
        (ofHeaders others).offset? address =
          (ofHeaders headers).offset? address) ∧
    (ofHeaders headers).headers = headers := by
  refine ⟨fun h => containing?_eq_some_iff hsep, filter_contains_eq hsep address,
    containing?_eq_none_iff hsep, fun i => offset?_eq_some_iff hsep, ?_, rfl⟩
  intro others hperm hothers
  exact ⟨containing?_congr_perm hsep hothers hperm address,
    offset?_congr_perm hsep hothers hperm address⟩

/-- A header that places `rawSize` bytes from `rawOffset` on, and zeros up to `virtualSize`, at an
address. -/
def placed (virtualAddress virtualSize rawOffset rawSize : UInt32) : SectionHeader where
  rawName := Vector.replicate 8 0
  virtualSize
  virtualAddress
  rawSize
  rawOffset
  relocationOffset := 0
  lineNumberOffset := 0
  relocationCount := 0
  lineNumberCount := 0
  characteristics := 0

/-- An empty section, one after it at the same address, and one declared last that comes first. -/
theorem lookup_agrees_with_scan_unordered :
    (ofHeaders [placed 0x3000 0 0 0, placed 0x3000 0x1000 0x600 0x200,
      placed 0x1000 0x2000 0x200 0x400]).Separated ∧
    (ofHeaders [placed 0x3000 0 0 0, placed 0x3000 0x1000 0x600 0x200,
      placed 0x1000 0x2000 0x200 0x400]).offset? 0x3010 = some 0x610 := by
  have hsep : (ofHeaders [placed 0x3000 0 0 0, placed 0x3000 0x1000 0x600 0x200,
      placed 0x1000 0x2000 0x200 0x400]).Separated := by
    simp [Separated, ofHeaders, List.mergeSort, List.MergeSort.Internal.splitInTwo, EndsBelow,
      placed, SectionHeader.span]
  obtain ⟨-, -, -, hoffset, -⟩ := lookup_agrees_with_scan _ hsep 0x3010
  exact ⟨hsep, (hoffset 0x610).2 ⟨placed 0x3000 0x1000 0x600 0x200, by simp, by decide, by decide,
    by decide⟩⟩

end ImageTriage.SectionTable
