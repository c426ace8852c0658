import ImageTriage.Header.Section

/-!
# The section table

The sections of an image, kept in the order in which the file declares them, answer two questions:
where in the file an address is stored (`offset?`), and at which address a file offset appears
(`address?`).

Addresses are found by bisection in the sections ordered by address: `bisect` gives the last section
that starts at or below the address, and that section either holds it or none does, as long as
sections do not overlap. Offsets are found by the first section, in declared order, whose bytes hold
the offset and whose addresses reach that far without leaving 32 bits.
-/

namespace ImageTriage

/-- The sections of an image. -/
structure SectionTable where
  /-- In the order of the file. -/
  headers : List SectionHeader
  /-- In the order of their addresses; equal addresses keep the order of the file. -/
  byAddress : Array SectionHeader
  byAddress_eq :
    byAddress = (headers.mergeSort fun a b => a.virtualAddress ≤ b.virtualAddress).toArray

namespace SectionTable

/-- The table of the sections declared in the given order. -/
def ofHeaders (headers : List SectionHeader) : SectionTable where
  headers
  byAddress := (headers.mergeSort fun a b => a.virtualAddress ≤ b.virtualAddress).toArray
  byAddress_eq := rfl

/-- Among the `size` positions from `base` on, the last whose section starts at or below the
address; `base` when there is none. -/
def bisect (sorted : Array SectionHeader) (address : UInt32) (base size : Nat) : Nat :=
  if size ≤ 1 then base
  else
    let half := size / 2
    let middle := base + half
    if (sorted[middle]?).any (·.virtualAddress ≤ address) then
      bisect sorted address middle (size - half)
    else
      bisect sorted address base (size - half)
termination_by size
decreasing_by all_goals omega

/-- The section that holds the address. -/
def containing? (t : SectionTable) (address : UInt32) : Option SectionHeader := do
  let h ← t.byAddress[bisect t.byAddress address 0 t.byAddress.size]?
  if h.contains address then some h else none

/-- The file offset at which the address is stored. An address in the part of a section that the
file does not back has none. -/
def offset? (t : SectionTable) (address : UInt32) : Option Nat := do
  let h ← t.containing? address
  let delta := address.toNat - h.virtualAddress.toNat
  if delta < h.rawSize.toNat then some (h.fileStart + delta) else none

/-- The file offset at which the address is stored, or the fault that there is none. -/
def offset (t : SectionTable) (address : UInt32) : Except Fault Nat :=
  orFault (.unmappedAddress address) (t.offset? address)

/-- The address at which the section shows the file offset. -/
def addressIn? (h : SectionHeader) (offset : Nat) : Option UInt32 :=
  let address := h.virtualAddress.toNat + (offset - h.fileStart)
  if h.fileStart ≤ offset ∧ offset < h.fileEnd ∧ address < UInt32.size then
    some (UInt32.ofNat address)
  else
    none

/-- The address at which the file offset appears. -/
def address? (t : SectionTable) (offset : Nat) : Option UInt32 :=
  t.headers.findSome? (addressIn? · offset)

/-- The first section of the given name. -/
def named? (t : SectionTable) (name : String) : Option SectionHeader :=
  t.headers.find? (·.name == name)

/-- The number of sections. -/
def size (t : SectionTable) : Nat := t.headers.length

end SectionTable

end ImageTriage
