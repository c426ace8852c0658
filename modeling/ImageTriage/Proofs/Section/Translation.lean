import Mathlib.Order.CompletePartialOrder
import Mathlib.Order.Interval.Set.Disjoint
import ImageTriage.Proofs.Section.Lookup

/-!
# Between addresses and file offsets

`offset?` bisects the sections in the order of their addresses, `address?` takes the first section
in declared order. Both go through the same fact about one section, `addressIn?_eq_some_iff`, and
this is what makes them inverse to each other.

Several sections may show the same bytes of the file. Then `address?` picks the first of the
addresses, and going there and back again changes the address but not the offset. When no byte is
shown twice (`FileDisjoint`) the address comes back too.
-/

namespace ImageTriage.SectionTable

variable {t : SectionTable} {h : SectionHeader} {offset : Nat} {address : UInt32}

/-- The file offsets whose bytes a section shows. -/
def fileRange (h : SectionHeader) : Set Nat := Set.Ico h.fileStart h.fileEnd

/-- No byte of the file is shown by two sections. -/
def FileDisjoint (t : SectionTable) : Prop :=
  t.headers.Pairwise fun a b => Disjoint (fileRange a) (fileRange b)

/-! ## One section -/

theorem addressIn?_eq_some_iff :
    addressIn? h offset = some address ↔
      offset ∈ fileRange h ∧ address.toNat = h.virtualAddress.toNat + (offset - h.fileStart) := by
  simp only [addressIn?, fileRange, Set.mem_Ico, Option.ite_none_right_eq_some, Option.some.injEq]
  constructor
  · rintro ⟨⟨hstart, hend, hlt⟩, rfl⟩
    exact ⟨⟨hstart, hend⟩, UInt32.toNat_ofNat_of_lt hlt⟩
  · rintro ⟨⟨hstart, hend⟩, haddress⟩
    have hlt := address.toNat_lt
    rw [haddress] at hlt
    refine ⟨⟨hstart, hend, hlt⟩, ?_⟩
    rw [← haddress, UInt32.ofNat_toNat]

/-- Going from an offset to an address that its section shows it at, and back. -/
theorem offset?_of_addressIn? (ht : t.Separated) (hmem : h ∈ t.headers)
    (hshown : addressIn? h offset = some address) : t.offset? address = some offset := by
  obtain ⟨⟨hstart, hend⟩, haddress⟩ := addressIn?_eq_some_iff.1 hshown
  have hdelta : address.toNat - h.virtualAddress.toNat = offset - h.fileStart := by omega
  have hraw : offset - h.fileStart < h.rawSize.toNat := by
    unfold SectionHeader.fileStart SectionHeader.fileEnd at *
    omega
  refine (offset?_eq_some_iff ht).2 ⟨h, hmem, ?_, by omega, by omega⟩
  refine SectionHeader.contains_iff.2 ⟨by omega, ?_⟩
  have hspan : h.rawSize.toNat ≤ h.span := Nat.le_max_right _ _
  omega

/-- An address with a file offset is one at which its section shows that offset. -/
theorem exists_addressIn?_of_offset? (ht : t.Separated)
    (hoffset : t.offset? address = some offset) :
    ∃ h ∈ t.headers, addressIn? h offset = some address := by
  obtain ⟨h, hmem, hcontains, hdelta, rfl⟩ := (offset?_eq_some_iff ht).1 hoffset
  have hstart := (SectionHeader.contains_iff.1 hcontains).1
  refine ⟨h, hmem, addressIn?_eq_some_iff.2 ⟨⟨by omega, ?_⟩, by omega⟩⟩
  unfold SectionHeader.fileStart SectionHeader.fileEnd
  omega

/-! ## The first section -/

theorem exists_addressIn?_of_address? (haddress : t.address? offset = some address) :
    ∃ h ∈ t.headers, addressIn? h offset = some address :=
  List.exists_of_findSome?_eq_some haddress

theorem address?_isSome_of_addressIn? (hmem : h ∈ t.headers)
    (hshown : addressIn? h offset = some address) : ∃ first, t.address? offset = some first := by
  refine Option.isSome_iff_exists.1 ?_
  simp only [address?, List.findSome?_isSome_iff]
  exact ⟨h, hmem, by rw [hshown, Option.isSome_some]⟩

/-- Without shared bytes only one section shows an offset, at one address. -/
theorem address_unique_of_fileDisjoint (hdisjoint : t.FileDisjoint) {a b : SectionHeader}
    {first second : UInt32} (ha : a ∈ t.headers) (hb : b ∈ t.headers)
    (hfirst : addressIn? a offset = some first) (hsecond : addressIn? b offset = some second) :
    first = second := by
  have hina := (addressIn?_eq_some_iff.1 hfirst).1
  have hinb := (addressIn?_eq_some_iff.1 hsecond).1
  have hsame : a = b := by
    by_contra hne
    have hsymm : Std.Symm fun x y => Disjoint (fileRange x) (fileRange y) :=
      ⟨fun _ _ hxy => hxy.symm⟩
    have hab := hdisjoint.forall ha hb hne
    exact Set.disjoint_left.1 hab hina hinb
  rw [hsame, hsecond] at hfirst
  exact (Option.some.inj hfirst).symm

/-- Translation there and back: an offset always comes back, an address comes back to one with the
same offset, and to itself when no two sections show the same bytes. -/
theorem translation_there_and_back (t : SectionTable) (ht : t.Separated) :
    (∀ offset address, t.address? offset = some address → t.offset? address = some offset) ∧
    ∀ address offset, t.offset? address = some offset →
      ∃ shown, t.address? offset = some shown ∧ t.offset? shown = some offset ∧
        (t.FileDisjoint → shown = address) := by
  have hback : ∀ offset address, t.address? offset = some address →
      t.offset? address = some offset := by
    intro offset address haddress
    obtain ⟨h, hmem, hshown⟩ := exists_addressIn?_of_address? haddress
    exact offset?_of_addressIn? ht hmem hshown
  refine ⟨hback, fun address offset hoffset => ?_⟩
  obtain ⟨h, hmem, hshown⟩ := exists_addressIn?_of_offset? ht hoffset
  obtain ⟨first, hfirst⟩ := address?_isSome_of_addressIn? hmem hshown
  refine ⟨first, hfirst, hback offset first hfirst, fun hdisjoint => ?_⟩
  obtain ⟨g, hg, hgshown⟩ := exists_addressIn?_of_address? hfirst
  exact address_unique_of_fileDisjoint hdisjoint hg hmem hgshown hshown

/-- Two sections show the same bytes, and the first runs out of addresses before it shows the last
of them. -/
theorem translation_there_and_back_shared :
    (ofHeaders [placed 0xFFFFFF00 0x100 0x200 0x200,
      placed 0x1000 0x1000 0x200 0x200]).Separated ∧
    (ofHeaders [placed 0xFFFFFF00 0x100 0x200 0x200,
      placed 0x1000 0x1000 0x200 0x200]).address? 0x310 = some 0x1110 ∧
    (ofHeaders [placed 0xFFFFFF00 0x100 0x200 0x200,
      placed 0x1000 0x1000 0x200 0x200]).offset? 0x1110 = some 0x310 := by
  have hsep : (ofHeaders [placed 0xFFFFFF00 0x100 0x200 0x200,
      placed 0x1000 0x1000 0x200 0x200]).Separated := by
    simp [Separated, ofHeaders, List.mergeSort, List.MergeSort.Internal.splitInTwo, EndsBelow,
      placed, SectionHeader.span]
  have hshown : (ofHeaders [placed 0xFFFFFF00 0x100 0x200 0x200,
      placed 0x1000 0x1000 0x200 0x200]).address? 0x310 = some 0x1110 := by
    decide
  exact ⟨hsep, hshown, (translation_there_and_back _ hsep).1 0x310 0x1110 hshown⟩

end ImageTriage.SectionTable
