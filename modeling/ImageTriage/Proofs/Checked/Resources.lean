import ImageTriage.Proofs.Checked.Mapping
import ImageTriage.Resource.Tree

/-!
# Checked resource trees

A reference in the tree is a distance from the root of less than 32 bits, so no directory lies
further than 34 bits from the start of the file, and the offset of an entry, at most 131070 entries
further, is a word. This holds at every level, however the references lead around.
-/

namespace ImageTriage

namespace Checked

/-- `Resource.target` with checked steps. -/
def resourceTarget (base : Nat) (reference : UInt32) : Nat :=
  addSaturating base (reference &&& 0x7FFFFFFF).toNat

/-- `Resource.readId` with checked steps. -/
def resourceId (b : Bytes) (base : Nat) (reference : UInt32) : Checked ResourceId :=
  if Resource.isMarked reference then do
    let i := resourceTarget base reference
    let length ← Resource.u16 b i
    let start ← add i 2
    match b.utf16Units start length.toNat with
    | .ok text => return .named text
    | .error _ => fail .resourceDirectory
  else
    pure (.number reference)

/-- `Resource.readLeaf` with checked steps. -/
def resourceLeaf (m : Mapped) (i : Nat) (path : List ResourceId) : Checked Resource := do
  let address ← Resource.u32 m.file i
  let size ← Resource.u32 m.file (← add i 4)
  let codePage ← Resource.u32 m.file (← add i 8)
  let start? ← m.sections.offset? address
  let offset? := start?.filter (· + size.toNat ≤ m.file.size)
  let (kind, name, language) := Resource.identify path.reverse
  return { kind, name, language, codePage, address, size, offset? }

/-- A `Resource.Descent` with checked steps. -/
abbrev Descent := Nat → List ResourceId → Array Resource → Checked (Array Resource)

/-- `Resource.walkEntry` with checked steps, for entry `k` of the directory at offset `dir`. -/
def resourceEntry (m : Mapped) (base : Nat) (descend : Descent) (path : List ResourceId)
    (dir k : Nat) (found : Array Resource) : Checked (Array Resource) := do
  let i ← row (← add dir 16) 8 k
  let idReference ← Resource.u32 m.file i
  let reference ← Resource.u32 m.file (← add i 4)
  let id ← resourceId m.file base idReference
  if Resource.isMarked reference then
    descend (resourceTarget base reference) (id :: path) found
  else
    return found.push (← resourceLeaf m (resourceTarget base reference) (id :: path))

/-- `Resource.walkEntries` with checked steps, for `n` entries from entry `k` on. -/
def resourceEntries (m : Mapped) (base limit : Nat) (descend : Descent) (path : List ResourceId)
    (dir : Nat) : Nat → Nat → Array Resource → Checked (Array Resource)
  | 0, _, found => pure found
  | n + 1, k, found =>
    if limit ≤ found.size then pure found
    else do
      let found ← resourceEntry m base descend path dir k found
      resourceEntries m base limit descend path dir n (k + 1) found

/-- `Resource.walk` with checked steps. -/
def resourceWalk (m : Mapped) (base limit : Nat) : Nat → Descent
  | 0, _, _, _ => fail .resourceDepth
  | levels + 1, dir, path, found => do
    let named ← Resource.u16 m.file (← add dir 12)
    let numbered ← Resource.u16 m.file (← add dir 14)
    let n ← add named.toNat numbered.toNat
    resourceEntries m base limit (resourceWalk m base limit levels) path dir n 0 found

/-- `Resource.parseAll` with checked steps. -/
def resources (m : Mapped) (dir : DataDirectory) (levels limit : Nat) : Checked (List Resource) :=
  if !dir.isPresent then pure []
  else do
    let base ← m.offset dir.address
    let found ← resourceWalk m base limit levels base [] #[]
    return found.toList

/-! ## No step goes too far -/

theorem target_lt {base : Nat} (hbase : base < 2 ^ 33) (reference : UInt32) :
    Resource.target base reference < 2 ^ 34 := by
  have := (reference &&& 0x7FFFFFFF).toNat_lt
  unfold Resource.target
  omega

theorem resourceTarget_eq {base : Nat} (hbase : base < 2 ^ 33) (reference : UInt32) :
    resourceTarget base reference = Resource.target base reference := by
  have := (reference &&& 0x7FFFFFFF).toNat_lt
  exact addSaturating_eq (by omega)

theorem resourceId_eq {b : Bytes} {base : Nat} (hbase : base < 2 ^ 33) (reference : UInt32) :
    resourceId b base reference = done (Resource.readId b base reference) := by
  have hlt := target_lt hbase reference
  unfold resourceId Resource.readId
  rw [resourceTarget_eq hbase]
  split
  · refine bind_eq fun length _ => ?_
    rw [add_eq (by omega), ok_bind]
    cases b.utf16Units (Resource.target base reference + 2) length.toNat <;> rfl
  · rfl

variable {m : MappedFile} {base : Nat}

section Fits

variable (hm : Mapped.Fits m) (hbase : base < 2 ^ 33)
include hm

theorem resourceLeaf_eq {i : Nat} (hi : i < 2 ^ 34) (path : List ResourceId) :
    resourceLeaf (.of m) i path = done (Resource.readLeaf m i path) := by
  unfold resourceLeaf Resource.readLeaf
  simp (disch := omega) only [add_eq, ok_bind, Mapped.of_file, Mapped.of_sections]
  refine bind_eq fun address _ => bind_eq fun size _ => bind_eq fun codePage _ => ?_
  rw [Sections.offset?_eq hm.sections_lt, ok_bind]
  rfl

include hbase

theorem resourceEntry_eq {descend : Descent} {descent : Resource.Descent}
    (hdescend : ∀ i < 2 ^ 34, ∀ path found, descend i path found = done (descent i path found))
    {dir k : Nat} (hdir : dir < 2 ^ 34) (hk : k < 2 ^ 17) (path : List ResourceId)
    (found : Array Resource) :
    resourceEntry (.of m) base descend path dir k found =
      done (Resource.walkEntry m base descent path (dir + 16 + 8 * k) found) := by
  unfold resourceEntry Resource.walkEntry
  simp (disch := omega) only [add_eq, row_eq, ok_bind, Mapped.of_file]
  refine bind_eq fun idReference _ => bind_eq fun reference _ => ?_
  have htarget := target_lt hbase reference
  rw [resourceId_eq hbase]
  refine bind_eq fun id _ => ?_
  rw [resourceTarget_eq hbase, hdescend _ htarget, resourceLeaf_eq hm htarget]
  split
  · rfl
  · exact bind_done _ _

theorem resourceEntries_eq {limit : Nat} {descend : Descent} {descent : Resource.Descent}
    (hdescend : ∀ i < 2 ^ 34, ∀ path found, descend i path found = done (descent i path found))
    {dir n k : Nat} (hdir : dir < 2 ^ 34) (hk : k + n < 2 ^ 17) (path : List ResourceId)
    (found : Array Resource) :
    resourceEntries (.of m) base limit descend path dir n k found =
      done (Resource.walkEntries m base limit descent path n (dir + 16 + 8 * k) found) := by
  induction n generalizing k found with
  | zero => rfl
  | succ n ih =>
    unfold resourceEntries Resource.walkEntries
    split
    · rfl
    · rw [resourceEntry_eq hm hbase hdescend hdir (by omega)]
      -- the entries after this one are read only when it was
      cases Resource.walkEntry m base descent path (dir + 16 + 8 * k) found with
      | error fault => rfl
      | ok found => exact ih (by omega) found

/-- The walk, by induction on the levels that are left. -/
theorem resourceWalk_eq {limit levels i : Nat} (hi : i < 2 ^ 34) (path : List ResourceId)
    (found : Array Resource) :
    resourceWalk (.of m) base limit levels i path found =
      done (Resource.walk m base limit levels i path found) := by
  induction levels generalizing i path found with
  | zero => rfl
  | succ levels ih =>
    unfold resourceWalk Resource.walk
    simp (disch := omega) only [add_eq, ok_bind, Mapped.of_file]
    refine bind_eq fun named _ => bind_eq fun numbered _ => ?_
    have hnamed := named.toNat_lt
    have hnumbered := numbered.toNat_lt
    rw [add_eq (by omega), ok_bind]
    exact resourceEntries_eq hm hbase (fun i hi => ih hi) hi (by omega) path found

omit hbase in
/-- The resource tree is read without a trap. -/
theorem resources_eq (dir : DataDirectory) (levels limit : Nat) :
    resources (.of m) dir levels limit = done (Resource.parseAll m dir levels limit) := by
  unfold resources Resource.parseAll
  cases hpresent : dir.isPresent with
  | false => rfl
  | true =>
    simp only [Bool.not_true, Bool.false_eq_true, if_false]
    rw [Mapped.offset_eq hm]
    refine bind_eq fun base hoffset => ?_
    have hbase := Mapped.lt_of_offset hoffset
    rw [resourceWalk_eq hm hbase (by omega)]
    exact bind_done _ _

end Fits

end Checked

end ImageTriage
