import ImageTriage.Proofs.Bytes.Reading
import ImageTriage.Proofs.Resource.Layout

/-!
# Chains of entries

What the bytes of a resource tree say is stated here apart from the walk through it: how many
entries a directory has (`entryCount?`), what an entry is called and refers to (`entryAt?`), and
what a leaf describes (`leafAt?`). The walk reads the same (`readCount_eq`, `readEntry_eq`,
`readLeaf_eq`).

An entry of a directory leads to a leaf or to a directory, and so on: a `Chain` is a row of entries,
each in the directory that the one before it leads to, the last one leading to a leaf. Directories
may be shared, so that several chains lead to one leaf, and may contain themselves, so that there is
no bound on the length of a chain.

A walk only adds to the resources that were found before, and each one that it adds is the leaf of a
chain of no more entries than there are levels to go down (`walk_adds`). The identifiers on that
chain, behind those that led to its first directory, give the kind, the name and the language
(`identify_eq`).
-/

namespace ImageTriage

namespace Resource

variable {m : MappedFile} {b : Bytes} {base limit levels n i word : Nat} {path : List ResourceId}
  {descend : Descent} {found all : Array Resource} {id : ResourceId}

/-! ## The tree on the bytes -/

/-- The number of entries of the directory at offset `dir`: those with a text, and those with a
number. -/
def entryCount? (b : Bytes) (dir : Nat) : Option Nat :=
  if dir + 16 ≤ b.size then some (b.le (dir + 12) 2 + b.le (dir + 14) 2) else none

/-- The text at offset `i`: a count, and that many 16-bit units. -/
def countedText? (b : Bytes) (i : Nat) : Option String :=
  if i + 2 + 2 * b.le i 2 ≤ b.size then
    some (Utf16.decodeLossy
      ((List.range (b.le i 2)).map fun k => UInt16.ofNat (b.le (i + 2 + 2 * k) 2)))
  else none

/-- The identifier that a word stands for: the word itself, or when its high bit is set, the text at
the offset that the other bits give. -/
def idOf? (b : Bytes) (base word : Nat) : Option ResourceId :=
  if word < 2 ^ 31 then some (.number (UInt32.ofNat word))
  else (countedText? b (base + (word - 2 ^ 31))).map .named

/-- The entry at offset `i`: its identifier, and the word that says what it refers to. -/
def entryAt? (b : Bytes) (base i : Nat) : Option (ResourceId × Nat) :=
  if i + 8 ≤ b.size then (idOf? b base (b.le i 4)).map (·, b.le (i + 4) 4) else none

/-- The language that the third identifier of a chain gives. -/
def languageOf : Option ResourceId → UInt32
  | some (.number n) => n
  | some (.named _) | none => 0

/-- The leaf at offset `i`, under a chain of identifiers. -/
def leafAt? (m : MappedFile) (i : Nat) (chain : List ResourceId) : Option Resource :=
  if i + 12 ≤ m.file.size then
    let address := UInt32.ofNat (m.file.le i 4)
    let size := m.file.le (i + 4) 4
    some {
      kind := chain[0]?.getD (.number 0)
      name := chain[1]?.getD (.number 0)
      language := languageOf chain[2]?
      codePage := UInt32.ofNat (m.file.le (i + 8) 4)
      address
      size := UInt32.ofNat size
      offset? := (m.sections.offset? address).filter (· + size ≤ m.file.size) }
  else none

/-! ## Reading the tree -/

/-- Reads the number of entries of the directory at offset `dir`. -/
def readCount (b : Bytes) (dir : Nat) : Except Fault Nat := do
  let named ← u16 b (dir + 12)
  let numbered ← u16 b (dir + 14)
  return named.toNat + numbered.toNat

/-- Reads the entry at offset `i`: its identifier, and the reference to what is there. -/
def readEntry (b : Bytes) (base i : Nat) : Except Fault (ResourceId × UInt32) := do
  let idReference ← u32 b i
  let reference ← u32 b (i + 4)
  let id ← readId b base idReference
  return (id, reference)

theorem u16_of_fits (h : i + 2 ≤ b.size) : u16 b i = .ok (UInt16.ofNat (b.le i 2)) := by
  rw [u16, Bytes.u16?_eq_some h, orFault_some]

theorem u16_of_short (h : ¬ i + 2 ≤ b.size) : u16 b i = .error .resourceDirectory := by
  rw [u16, Bytes.u16?_eq_none (by omega), orFault_none]

theorem u32_of_fits (h : i + 4 ≤ b.size) : u32 b i = .ok (UInt32.ofNat (b.le i 4)) := by
  rw [u32, Bytes.u32?_eq_some h, orFault_some]

theorem u32_of_short (h : ¬ i + 4 ≤ b.size) : u32 b i = .error .resourceDirectory := by
  rw [u32, Bytes.u32?_eq_none (by omega), orFault_none]

/-- A field before one that fails makes no difference, whether it is there or not. -/
theorem u16_bind_error {α : Type} :
    (u16 b i >>= fun _ => (.error .resourceDirectory : Except Fault α)) =
      .error .resourceDirectory := by
  rw [u16]
  cases b.u16? i <;> rfl

theorem u32_bind_error {α : Type} :
    (u32 b i >>= fun _ => (.error .resourceDirectory : Except Fault α)) =
      .error .resourceDirectory := by
  rw [u32]
  cases b.u32? i <;> rfl

theorem readCount_eq (b : Bytes) (dir : Nat) :
    readCount b dir = orFault .resourceDirectory (entryCount? b dir) := by
  rw [readCount, entryCount?]
  by_cases hnumbered : dir + 14 + 2 ≤ b.size
  · rw [u16_of_fits (by omega), ok_bind, u16_of_fits hnumbered, ok_bind, Bytes.toNat_ofNat_le_two,
      Bytes.toNat_ofNat_le_two, if_pos hnumbered]
    rfl
  · simp only [u16_of_short hnumbered, error_bind, u16_bind_error, if_neg hnumbered, orFault_none]

theorem readCount_eq_ok_iff {dir : Nat} : readCount b dir = .ok n ↔ entryCount? b dir = some n := by
  rw [readCount_eq, orFault_eq_ok_iff]

/-- A word as a mark and an offset. -/
theorem eq_reference (h : word < UInt32.size) :
    word % 2 ^ 31 < 0x80000000 ∧
      word = ResourceTree.reference (decide (2 ^ 31 ≤ word)) (word % 2 ^ 31) := by
  rw [UInt32.size] at h
  rw [ResourceTree.reference]
  by_cases hmarked : 2 ^ 31 ≤ word
  · rw [decide_eq_true hmarked, if_pos rfl]
    omega
  · rw [decide_eq_false hmarked, if_neg Bool.false_ne_true]
    omega

theorem isMarked_ofNat (h : word < UInt32.size) :
    isMarked (UInt32.ofNat word) = decide (2 ^ 31 ≤ word) := by
  obtain ⟨hoffset, hword⟩ := eq_reference h
  rw [hword, ResourceTree.isMarked_reference hoffset, ← hword]

theorem target_ofNat (h : word < UInt32.size) :
    target base (UInt32.ofNat word) = base + word % 2 ^ 31 := by
  obtain ⟨hoffset, hword⟩ := eq_reference h
  conv_lhs => rw [hword, ResourceTree.target_reference hoffset]

theorem units_eq_map (h : i + 2 * n ≤ b.size) :
    b.units i n = (List.range n).map fun k => UInt16.ofNat (b.le (i + 2 * k) 2) := by
  refine List.ext_getElem? fun k => ?_
  by_cases hk : k < n
  · rw [Bytes.getElem?_units hk (by omega), Bytes.u16?_eq_some (by omega), List.getElem?_map,
      List.getElem?_range hk, Option.map_some]
  · have hlength := Bytes.length_units_le b i n
    rw [List.getElem?_eq_none (by omega), List.getElem?_eq_none (by simpa using hk)]

theorem readId_eq (b : Bytes) (base : Nat) (h : word < UInt32.size) :
    readId b base (UInt32.ofNat word) = orFault .resourceDirectory (idOf? b base word) := by
  rw [readId, idOf?, isMarked_ofNat h]
  by_cases hmarked : 2 ^ 31 ≤ word
  · have hoffset : word % 2 ^ 31 = word - 2 ^ 31 := by
      rw [UInt32.size] at h
      omega
    rw [if_pos (decide_eq_true hmarked), if_neg (by omega), target_ofNat h, hoffset, countedText?]
    dsimp only
    generalize base + (word - 2 ^ 31) = i
    by_cases hcount : i + 2 ≤ b.size
    · rw [u16_of_fits hcount, ok_bind, Bytes.toNat_ofNat_le_two, Bytes.utf16Units]
      by_cases hunits : i + 2 + 2 * b.le i 2 ≤ b.size
      · rw [withinBounds_eq_ok_iff.2 hunits, units_eq_map hunits, if_pos hunits]
        rfl
      · rw [if_neg hunits]
        cases hbounds : withinBounds (i + 2) (2 * b.le i 2) b.size with
        | ok => exact absurd (withinBounds_eq_ok_iff.1 hbounds) hunits
        | error fault => rfl
    · rw [u16_of_short hcount, if_neg (by omega)]
      rfl
  · rw [if_neg (by simpa using hmarked), if_pos (by omega)]
    rfl

theorem readEntry_eq (b : Bytes) (base i : Nat) :
    readEntry b base i = orFault .resourceDirectory
      ((entryAt? b base i).map fun (id, word) => (id, UInt32.ofNat word)) := by
  rw [readEntry, entryAt?]
  by_cases hreference : i + 4 + 4 ≤ b.size
  · rw [u32_of_fits (by omega), ok_bind, u32_of_fits hreference, ok_bind,
      readId_eq b base (b.le_lt i 4), if_pos hreference]
    cases idOf? b base (b.le i 4) <;> rfl
  · simp only [u32_of_short hreference, error_bind, u32_bind_error, if_neg hreference,
      Option.map_none, orFault_none]

theorem entryAt?_lt (h : entryAt? b base i = some (id, word)) : word < UInt32.size := by
  obtain ⟨-, h⟩ := Option.ite_none_right_eq_some.1 h
  obtain ⟨_, -, hpair⟩ := Option.map_eq_some_iff.1 h
  cases hpair
  exact b.le_lt (i + 4) 4

/-- The first three identifiers of a chain count. -/
theorem identify_eq (ids : List ResourceId) :
    identify ids = (ids[0]?.getD (.number 0), ids[1]?.getD (.number 0), languageOf ids[2]?) := by
  match ids with
  | [] => rfl
  | [kind] => rfl
  | [kind, name] => rfl
  | kind :: name :: .number n :: _ => rfl
  | kind :: name :: .named text :: _ => rfl

theorem readLeaf_eq (m : MappedFile) (i : Nat) (path : List ResourceId) :
    readLeaf m i path = orFault .resourceDirectory (leafAt? m i path.reverse) := by
  rw [readLeaf, leafAt?]
  by_cases hcodePage : i + 8 + 4 ≤ m.file.size
  · rw [u32_of_fits (by omega), ok_bind, u32_of_fits (by omega), ok_bind, u32_of_fits hcodePage,
      ok_bind, identify_eq, Bytes.toNat_ofNat_le_four, if_pos hcodePage]
    rfl
  · simp only [u32_of_short hcodePage, error_bind, u32_bind_error, if_neg hcodePage, orFault_none]

/-! ## Directories and entries -/

/-- The place of entry `k` of the directory at offset `dir`. -/
def entryPlace (dir k : Nat) : Nat := dir + 16 + 8 * k

theorem walk_succ (m : MappedFile) (base limit levels i : Nat) (path : List ResourceId)
    (found : Array Resource) :
    walk m base limit (levels + 1) i path found = readCount m.file i >>= fun n =>
      walkEntries m base limit (walk m base limit levels) path n (entryPlace i 0) found := by
  simp only [walk, readCount, bind_assoc, pure_bind]
  rfl

theorem walkEntry_eq (m : MappedFile) (base : Nat) (descend : Descent) (path : List ResourceId)
    (i : Nat) (found : Array Resource) :
    walkEntry m base descend path i found = readEntry m.file base i >>= fun (id, reference) =>
      if isMarked reference then descend (target base reference) (id :: path) found
      else return found.push (← readLeaf m (target base reference) (id :: path)) := by
  simp only [walkEntry, readEntry, bind_assoc, pure_bind]

/-- An entry whose word is marked leads to a directory, and another one to a leaf. -/
theorem walkEntry_of_entryAt? (h : entryAt? m.file base i = some (id, word)) :
    walkEntry m base descend path i found =
      if 2 ^ 31 ≤ word then descend (base + (word - 2 ^ 31)) (id :: path) found
      else
        (orFault .resourceDirectory (leafAt? m (base + word) (path.reverse ++ [id]))).map
          found.push := by
  have hword := entryAt?_lt h
  have hread : readEntry m.file base i = .ok (id, UInt32.ofNat word) := by
    rw [readEntry_eq, h]
    rfl
  rw [walkEntry_eq, hread, ok_bind]
  dsimp only
  rw [isMarked_ofNat hword, target_ofNat hword]
  rw [UInt32.size] at hword
  by_cases hmarked : 2 ^ 31 ≤ word
  · have hoffset : word % 2 ^ 31 = word - 2 ^ 31 := by omega
    rw [if_pos (decide_eq_true hmarked), if_pos hmarked, hoffset]
  · have hoffset : word % 2 ^ 31 = word := by omega
    rw [if_neg (by simpa using hmarked), if_neg hmarked, hoffset, readLeaf_eq, List.reverse_cons]
    cases leafAt? m (base + word) (path.reverse ++ [id]) <;> rfl

theorem walkEntry_of_none (h : entryAt? m.file base i = none) :
    walkEntry m base descend path i found = .error .resourceDirectory := by
  rw [walkEntry_eq, readEntry_eq, h]
  rfl

theorem walkEntry_eq_ok_iff :
    walkEntry m base descend path i found = .ok all ↔
      ∃ id word, entryAt? m.file base i = some (id, word) ∧
        (2 ^ 31 ≤ word ∧ descend (base + (word - 2 ^ 31)) (id :: path) found = .ok all ∨
          ¬ 2 ^ 31 ≤ word ∧ ∃ r, leafAt? m (base + word) (path.reverse ++ [id]) = some r ∧
            all = found.push r) := by
  rcases hentry : entryAt? m.file base i with _ | ⟨id, word⟩
  · rw [walkEntry_of_none hentry]
    exact ⟨nofun, fun ⟨_, _, hsome, _⟩ => nomatch hsome⟩
  · rw [walkEntry_of_entryAt? hentry]
    constructor
    · intro hread
      refine ⟨id, word, rfl, ?_⟩
      split at hread
      · next hmarked => exact .inl ⟨hmarked, hread⟩
      · next hleaf =>
        obtain ⟨r, hr, hall⟩ := map_eq_ok_iff.1 hread
        exact .inr ⟨hleaf, r, orFault_eq_ok_iff.1 hr, hall.symm⟩
    · rintro ⟨_, _, hsome, hbelow⟩
      cases hsome
      rcases hbelow with ⟨hmarked, hread⟩ | ⟨hleaf, r, hr, rfl⟩
      · rwa [if_pos hmarked]
      · rw [if_neg hleaf, hr]
        rfl

theorem walkEntries_of_full (hfull : limit ≤ found.size) (n i : Nat) :
    walkEntries m base limit descend path n i found = .ok found := by
  cases n with
  | zero => rfl
  | succ n => rw [walkEntries, if_pos hfull]

theorem walkEntries_succ (hroom : found.size < limit) (n i : Nat) :
    walkEntries m base limit descend path (n + 1) i found =
      walkEntry m base descend path i found >>=
        walkEntries m base limit descend path n (i + 8) := by
  rw [walkEntries, if_neg (by omega)]
  cases walkEntry m base descend path i found <;> rfl

/-! ## Chains -/

/-- The directory at offset `dir` has an entry with this identifier and this word. -/
def HasEntry (b : Bytes) (base dir : Nat) (id : ResourceId) (word : Nat) : Prop :=
  ∃ n, entryCount? b dir = some n ∧ ∃ k < n, entryAt? b base (entryPlace dir k) = some (id, word)

/-- A row of entries from the directory at offset `dir` to a leaf. -/
inductive Chain (b : Bytes) (base : Nat) : (dir : Nat) → List ResourceId → (leaf : Nat) → Prop
  /-- An entry that refers to the leaf itself. -/
  | last {dir word : Nat} {id : ResourceId} (hentry : HasEntry b base dir id word)
      (hleaf : ¬ 2 ^ 31 ≤ word) : Chain b base dir [id] (base + word)
  /-- An entry that refers to a directory with a chain of its own. -/
  | cons {dir leaf word : Nat} {id : ResourceId} {ids : List ResourceId}
      (hentry : HasEntry b base dir id word) (hmarked : 2 ^ 31 ≤ word)
      (hrest : Chain b base (base + (word - 2 ^ 31)) ids leaf) : Chain b base dir (id :: ids) leaf

theorem Chain.length_pos {dir leaf : Nat} {ids : List ResourceId} (h : Chain b base dir ids leaf) :
    1 ≤ ids.length := by
  cases h with
  | last => exact Nat.le_refl 1
  | cons => exact Nat.le_add_left 1 _

/-- The resource is the leaf of a chain of at most `levels` entries from the directory at offset
`dir`, which was reached by the identifiers of `path`, the last one first. -/
def EndsChain (m : MappedFile) (base levels dir : Nat) (path : List ResourceId) (r : Resource) :
    Prop :=
  ∃ ids leaf, Chain m.file base dir ids leaf ∧ ids.length ≤ levels ∧
    leafAt? m leaf (path.reverse ++ ids) = some r

theorem EndsChain.last {r : Resource} {dir : Nat} (hentry : HasEntry m.file base dir id word)
    (hleaf : ¬ 2 ^ 31 ≤ word) (hr : leafAt? m (base + word) (path.reverse ++ [id]) = some r) :
    EndsChain m base (levels + 1) dir path r :=
  ⟨[id], _, .last hentry hleaf, Nat.le_add_left 1 levels, hr⟩

theorem EndsChain.cons {r : Resource} {dir : Nat} (hentry : HasEntry m.file base dir id word)
    (hmarked : 2 ^ 31 ≤ word)
    (h : EndsChain m base levels (base + (word - 2 ^ 31)) (id :: path) r) :
    EndsChain m base (levels + 1) dir path r := by
  obtain ⟨ids, leaf, hchain, hlength, hr⟩ := h
  refine ⟨id :: ids, leaf, .cons hentry hmarked hchain, Nat.succ_le_succ hlength, ?_⟩
  rwa [List.reverse_cons, List.append_assoc, List.singleton_append] at hr

/-! ## What a walk adds -/

/-- The resources that are found come behind those that were found before, each at the end of a
chain. -/
def Adds (m : MappedFile) (base levels : Nat) (descend : Descent) : Prop :=
  ∀ i path found all, descend i path found = .ok all →
    ∃ more, all = found ++ more ∧ ∀ r ∈ more, EndsChain m base levels i path r

theorem walkEntry_adds (h : Adds m base levels descend) {dir k : Nat}
    (hn : entryCount? m.file dir = some n) (hk : k < n)
    (hread : walkEntry m base descend path (entryPlace dir k) found = .ok all) :
    ∃ more, all = found ++ more ∧ ∀ r ∈ more, EndsChain m base (levels + 1) dir path r := by
  obtain ⟨id, word, hentry, hbelow⟩ := walkEntry_eq_ok_iff.1 hread
  have hhas : HasEntry m.file base dir id word := ⟨n, hn, k, hk, hentry⟩
  rcases hbelow with ⟨hmarked, hread⟩ | ⟨hleaf, r, hr, rfl⟩
  · obtain ⟨more, hall, hmore⟩ := h _ _ _ _ hread
    exact ⟨more, hall, fun r hr => (hmore r hr).cons hhas hmarked⟩
  · refine ⟨#[r], Array.push_eq_append, fun r' hr' => ?_⟩
    rw [Array.mem_singleton.1 hr']
    exact .last hhas hleaf hr

/-- What the entries from entry `k` on add. -/
theorem walkEntries_adds (h : Adds m base levels descend) {dir k left : Nat}
    (hn : entryCount? m.file dir = some n) (hk : k + left = n)
    (hread : walkEntries m base limit descend path left (entryPlace dir k) found = .ok all) :
    ∃ more, all = found ++ more ∧ ∀ r ∈ more, EndsChain m base (levels + 1) dir path r := by
  induction left generalizing k found with
  | zero =>
    cases hread
    exact ⟨#[], Array.append_empty.symm, by simp⟩
  | succ left ih =>
    by_cases hfull : limit ≤ found.size
    · rw [walkEntries_of_full hfull] at hread
      cases hread
      exact ⟨#[], Array.append_empty.symm, by simp⟩
    · rw [walkEntries_succ (Nat.lt_of_not_le hfull)] at hread
      obtain ⟨first, hfirst, hread⟩ := bind_eq_ok_iff.1 hread
      obtain ⟨more, rfl, hmore⟩ := walkEntry_adds h hn (by omega) hfirst
      obtain ⟨rest, rfl, hrest⟩ := ih (k := k + 1) (by omega) hread
      refine ⟨more ++ rest, Array.append_assoc, fun r hr => ?_⟩
      rcases Array.mem_append.1 hr with hr | hr
      · exact hmore r hr
      · exact hrest r hr

theorem walk_adds : ∀ levels, Adds m base levels (walk m base limit levels)
  | 0, _, _, _, _, hread => by cases hread
  | levels + 1, i, path, found, all, hread => by
    rw [walk_succ] at hread
    obtain ⟨n, hn, hread⟩ := bind_eq_ok_iff.1 hread
    exact walkEntries_adds (walk_adds levels) (readCount_eq_ok_iff.1 hn) (Nat.zero_add n) hread

/-! ## Kind, name and language -/

theorem identified_of_leafAt? {r : Resource} {chain : List ResourceId}
    (h : leafAt? m i chain = some r) :
    r.kind = chain[0]?.getD (.number 0) ∧ r.name = chain[1]?.getD (.number 0) ∧
      r.language = languageOf chain[2]? := by
  obtain ⟨-, h⟩ := Option.ite_none_right_eq_some.1 h
  cases h
  exact ⟨rfl, rfl, rfl⟩

end Resource

end ImageTriage
