import ImageTriage.Proofs.Checked.Basic
import ImageTriage.Proofs.Section.Lookup

/-!
# The checked section table

A machine stores the sections once, in the order of the file, and beside them their positions in the
order of the addresses. So a search of the table looks up a position first and then the section at
that position, and either could be out of range. `Sections.of` is what is stored for a table;
`Sections.new` comes to it without a trap, and the searches below it never leave it.
-/

namespace ImageTriage

namespace Checked

/-- A section as it is stored. -/
structure StoredSection where
  header : SectionHeader
  start : Nat
  stop : Nat

/-- The sections as they are stored. -/
structure Sections where
  /-- In the order of the file. -/
  sections : Array StoredSection
  /-- Their positions, in the order of the addresses. -/
  order : Array Nat

/-! ## Building the table -/

/-- A section with its range in the file. -/
def storedSection (header : SectionHeader) : Checked StoredSection := do
  let stop ← add header.rawOffset.toNat header.rawSize.toNat
  return { header, start := header.rawOffset.toNat, stop }

/-- The section at position `k`, with the position. -/
def entryAt (sections : Array StoredSection) (k : Nat) : Checked (SectionHeader × Nat) := do
  return ((← get sections k).header, k)

/-- Positions in the order of the addresses; equal addresses keep the order of the file. -/
def sortEntries (entries : List (SectionHeader × Nat)) : List (SectionHeader × Nat) :=
  entries.mergeSort fun a b => a.1.virtualAddress ≤ b.1.virtualAddress

namespace Sections

/-- Stores the sections declared in the given order. -/
def new (headers : List SectionHeader) : Checked Sections := do
  let stored ← headers.mapM storedSection
  let entries ← (List.range stored.length).mapM (entryAt stored.toArray)
  return { sections := stored.toArray, order := ((sortEntries entries).map Prod.snd).toArray }

/-- What is stored for a table. -/
def of (t : SectionTable) : Sections where
  sections := (t.headers.map fun h => ⟨h, h.fileStart, h.fileEnd⟩).toArray
  order := ((sortEntries t.headers.zipIdx).map Prod.snd).toArray

end Sections

variable {t : SectionTable} {address : UInt32}

theorem storedSection_eq (h : SectionHeader) :
    storedSection h = done (.ok ⟨h, h.fileStart, h.fileEnd⟩) := by
  have hoffset := h.rawOffset.toNat_lt
  have hsize := h.rawSize.toNat_lt
  rw [storedSection, add_eq (by omega)]
  rfl

namespace Sections

theorem get_sections {k : Nat} {h : SectionHeader} (hk : t.headers[k]? = some h) :
    get (of t).sections k = done (.ok ⟨h, h.fileStart, h.fileEnd⟩) := by
  refine get_eq ?_
  simp only [of, List.getElem?_toArray, List.getElem?_map, hk, Option.map_some]

theorem entryAt_eq {k : Nat} {h : SectionHeader} (hk : t.headers[k]? = some h) :
    entryAt (of t).sections k = done (.ok (h, k)) := by
  rw [entryAt, get_sections hk]
  rfl

theorem new_eq (headers : List SectionHeader) :
    new headers = done (.ok (of (.ofHeaders headers))) := by
  let t := SectionTable.ofHeaders headers
  have hentries : (List.range headers.length).mapM (entryAt (of t).sections) =
      done (.ok headers.zipIdx) := by
    have hpositions : List.range headers.length = headers.zipIdx.map Prod.snd := by
      rw [List.zipIdx_map_snd, List.range_eq_range']
    rw [hpositions, List.mapM_map]
    have heach : ∀ entry ∈ headers.zipIdx,
        (entryAt (of t).sections ∘ Prod.snd) entry = done (.ok (id entry)) := by
      intro entry hentry
      exact entryAt_eq (t := t) (List.mem_zipIdx_iff_getElem?.1 hentry)
    rw [mapM_eq_map heach, List.map_id]
  rw [new, mapM_eq_map fun h _ => storedSection_eq h, ok_bind, List.length_map]
  change ((List.range headers.length).mapM (entryAt (of t).sections) >>= _) = _
  rw [hentries, ok_bind]
  rfl

/-- A position in the order of the addresses is that of the section there. -/
theorem getElem?_order {j : Nat} {h : SectionHeader} (hj : t.byAddress[j]? = some h) :
    ∃ k : Nat, (of t).order[j]? = some k ∧ t.headers[k]? = some h := by
  have hheaders : (sortEntries t.headers.zipIdx).map Prod.fst = t.byAddress.toList := by
    have hsort := List.map_mergeSort (f := Prod.fst) (l := t.headers.zipIdx)
      (r := fun a b => decide (a.1.virtualAddress ≤ b.1.virtualAddress))
      (s := fun a b => decide (a.virtualAddress ≤ b.virtualAddress)) fun _ _ _ _ => rfl
    rw [sortEntries, hsort, List.zipIdx_map_fst, t.byAddress_eq]
  rw [← Array.getElem?_toList, ← hheaders, List.getElem?_map, Option.map_eq_some_iff] at hj
  obtain ⟨entry, hentry, rfl⟩ := hj
  -- an entry is a header with its own position, wherever the sorting has put it
  refine ⟨entry.2, ?_, ?_⟩
  · simp only [of, List.getElem?_toArray, List.getElem?_map, hentry, Option.map_some]
  · have hmem := List.mem_of_getElem? hentry
    rw [sortEntries, List.mem_mergeSort] at hmem
    exact List.mem_zipIdx_iff_getElem?.1 hmem

/-! ## Searching the table -/

/-- On which side of the address the section at position `k` lies. -/
def side (s : Sections) (address : UInt32) (k : Nat) : Checked Ordering := do
  let h := (← get s.sections k).header
  if address < h.virtualAddress then
    return .gt
  else
    let delta ← sub address.toNat h.virtualAddress.toNat
    return if h.span ≤ delta then .lt else .eq

/-- `SectionTable.bisect` with checked steps. -/
def bisect (s : Sections) (address : UInt32) (base size : Nat) : Checked Nat :=
  if size ≤ 1 then pure base
  else do
    let middle ← add base (size / 2)
    let found ← side s address (← get s.order middle)
    bisect s address (if found = .gt then base else middle) (size - size / 2)
termination_by size
decreasing_by all_goals omega

/-- `SectionTable.containing?` with checked steps. -/
def containing? (s : Sections) (address : UInt32) : Checked (Option SectionHeader) :=
  if s.order.size = 0 then pure none
  else do
    let i ← bisect s address 0 s.order.size
    let found ← side s address (← get s.order i)
    if found = .eq then
      let stored ← get s.sections (← get s.order i)
      return some stored.header
    else
      return none

/-- `SectionTable.offset?` with checked steps. -/
def offset? (s : Sections) (address : UInt32) : Checked (Option Nat) := do
  match ← containing? s address with
  | none => return none
  | some h =>
    let delta ← sub address.toNat h.virtualAddress.toNat
    if delta < h.rawSize.toNat then
      return some (← add h.rawOffset.toNat delta)
    else
      return none

/-- `SectionTable.addressIn?` with checked steps. -/
def addressIn? (h : SectionHeader) (offset : Nat) : Checked (Option UInt32) := do
  let stop ← add h.rawOffset.toNat h.rawSize.toNat
  if offset < h.rawOffset.toNat ∨ stop ≤ offset then
    return none
  else
    let delta := UInt32.ofNat (← sub offset h.rawOffset.toNat)
    let address := h.virtualAddress.toNat + delta.toNat
    return if address < UInt32.size then some (UInt32.ofNat address) else none

/-- `SectionTable.address?` with checked steps. -/
def address? (s : Sections) (offset : Nat) : Checked (Option UInt32) :=
  s.sections.toList.findSomeM? fun stored => addressIn? stored.header offset

theorem exists_side (address : UInt32) {k : Nat} {h : SectionHeader}
    (hk : t.headers[k]? = some h) : ∃ found, side (of t) address k = done (.ok found) ∧
      (found = .gt ↔ address < h.virtualAddress) ∧ (found = .eq ↔ h.contains address) := by
  rw [side, get_sections hk, ok_bind]
  dsimp only
  by_cases hlt : address < h.virtualAddress
  · rw [if_pos hlt]
    refine ⟨.gt, rfl, by simp [hlt], ?_⟩
    have := UInt32.lt_iff_toNat_lt.1 hlt
    simp [SectionHeader.contains_iff]
    omega
  · have hle := UInt32.le_iff_toNat_le.1 (UInt32.not_lt.1 hlt)
    rw [if_neg hlt, sub_eq hle, ok_bind]
    refine ⟨_, rfl, ?_, ?_⟩
    · split <;> simp [hlt]
    · rw [SectionHeader.contains_iff]
      split <;> simp <;> omega

/-- The section at a position in the order of the addresses, found and looked at. -/
theorem exists_side_order (address : UInt32) {j : Nat} {h : SectionHeader}
    (hj : t.byAddress[j]? = some h) :
    ∃ k, get (of t).order j = done (.ok k) ∧ t.headers[k]? = some h ∧
      ∃ found, side (of t) address k = done (.ok found) ∧
        (found = .gt ↔ address < h.virtualAddress) ∧ (found = .eq ↔ h.contains address) := by
  obtain ⟨k, horder, hk⟩ := getElem?_order hj
  exact ⟨k, get_eq horder, hk, exists_side address hk⟩

theorem size_order : (of t).order.size = t.byAddress.size := by
  simp [of, sortEntries, t.byAddress_eq]

variable (ht : t.byAddress.size < 2 ^ 64)
include ht

theorem bisect_eq {base size : Nat} (hfit : base + size ≤ t.byAddress.size) :
    bisect (of t) address base size =
      done (.ok (SectionTable.bisect t.byAddress address base size)) := by
  fun_induction SectionTable.bisect t.byAddress address base size with
  | case1 base size hone =>
    rw [bisect, if_pos hone]
    rfl
  | case2 base size hone half middle hle ih =>
    have hmiddle := getElem?_pos t.byAddress (base + size / 2) (by omega)
    obtain ⟨k, hk, -, found, hfound, hgt, -⟩ := exists_side_order address hmiddle
    have hnot : found ≠ .gt := by
      rw [Ne, hgt, UInt32.not_lt]
      simpa [middle, half, hmiddle] using hle
    rw [bisect, if_neg hone, add_eq (by omega), ok_bind, hk, ok_bind, hfound, ok_bind, if_neg hnot]
    exact ih (by omega)
  | case3 base size hone half middle hnot ih =>
    have hmiddle := getElem?_pos t.byAddress (base + size / 2) (by omega)
    obtain ⟨k, hk, -, found, hfound, hgt, -⟩ := exists_side_order address hmiddle
    have hgt : found = .gt := by
      rw [hgt]
      simpa [middle, half, hmiddle] using hnot
    rw [bisect, if_neg hone, add_eq (by omega), ok_bind, hk, ok_bind, hfound, ok_bind, if_pos hgt]
    exact ih (by omega)

theorem containing?_eq : containing? (of t) address = done (.ok (t.containing? address)) := by
  unfold containing? SectionTable.containing?
  rw [size_order]
  by_cases hzero : t.byAddress.size = 0
  · have hnone : t.byAddress[SectionTable.bisect t.byAddress address 0 t.byAddress.size]? = none :=
      Array.getElem?_eq_none (by omega)
    rw [if_pos hzero, hnone]
    rfl
  · obtain ⟨-, hin, -, -⟩ := SectionTable.bisect_spec t.byAddress_sorted address
      (show 0 < t.byAddress.size by omega) (show 0 + t.byAddress.size ≤ t.byAddress.size by omega)
    have hend := getElem?_pos t.byAddress
      (SectionTable.bisect t.byAddress address 0 t.byAddress.size) (by omega)
    obtain ⟨k, hk, hheader, found, hfound, -, heq⟩ := exists_side_order address hend
    rw [if_neg hzero, bisect_eq ht (by omega), ok_bind, hk, ok_bind, hfound, ok_bind, ok_bind,
      get_sections hheader, ok_bind, hend]
    by_cases hcontains : found = .eq
    · simp [hcontains, heq.1 hcontains]
    · simp [hcontains, mt heq.2 hcontains]

theorem offset?_eq : offset? (of t) address = done (.ok (t.offset? address)) := by
  unfold offset? SectionTable.offset?
  rw [containing?_eq ht, ok_bind]
  cases hfound : t.containing? address with
  | none => rfl
  | some h =>
    obtain ⟨-, hcontains⟩ := SectionTable.contains_of_containing? hfound
    have hle := (SectionHeader.contains_iff.1 hcontains).1
    have hoffset := h.rawOffset.toNat_lt
    have haddress := address.toNat_lt
    dsimp only
    rw [sub_eq hle, ok_bind, add_eq (by omega)]
    simp only [Option.bind_eq_bind, Option.bind_some]
    split <;> rfl

omit ht

/-- An offset that the table gives has 33 bits at most. -/
theorem lt_of_offset? {i : Nat} (hi : t.offset? address = some i) : i < 2 ^ 33 := by
  simp only [SectionTable.offset?, Option.bind_eq_bind, Option.bind_eq_some_iff,
    Option.ite_none_right_eq_some, Option.some.injEq] at hi
  obtain ⟨h, -, hdelta, rfl⟩ := hi
  have hoffset := h.rawOffset.toNat_lt
  have hsize := h.rawSize.toNat_lt
  unfold SectionHeader.fileStart
  omega

theorem addressIn?_eq (h : SectionHeader) (offset : Nat) :
    addressIn? h offset = done (.ok (SectionTable.addressIn? h offset)) := by
  have hoffset := h.rawOffset.toNat_lt
  have hsize := h.rawSize.toNat_lt
  unfold addressIn? SectionTable.addressIn? SectionHeader.fileStart SectionHeader.fileEnd
  rw [add_eq (by omega), ok_bind]
  split
  · rw [if_neg (by omega)]
    rfl
  · have hword : (UInt32.ofNat (offset - h.rawOffset.toNat)).toNat = offset - h.rawOffset.toNat :=
      UInt32.toNat_ofNat_of_lt' (by unfold UInt32.size; omega)
    rw [sub_eq (by omega), ok_bind]
    simp only [hword]
    split
    · rw [if_pos (by omega)]
      rfl
    · rw [if_neg (by omega)]
      rfl

theorem address?_eq (offset : Nat) : address? (of t) offset = done (.ok (t.address? offset)) := by
  have heach : (fun stored : StoredSection => addressIn? stored.header offset) =
      fun stored => (pure (SectionTable.addressIn? stored.header offset) : Checked _) := by
    funext stored
    exact addressIn?_eq _ _
  unfold address?
  rw [heach, List.findSomeM?_pure]
  simp [of, SectionTable.address?, List.findSome?_map, Function.comp_def]

end Sections

end Checked

end ImageTriage
