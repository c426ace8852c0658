import ImageTriage.Proofs.Text.Utf16
import ImageTriage.Resource.Tree

/-!
# Resource trees laid out in a file

A `ResourceTree` is what a resource directory describes. `Stands` says that a tree is laid out in a
file: a record for each directory, an entry for each of its children, a counted text for each name
and a data entry for each leaf. Only the entries of one directory have to follow each other. All
other parts lie where the references say, and parts that are equal may share a place.

The walk through the file visits the tree itself: it collects the leaves in the order of the
entries, depth first, each under the chain of identifiers that leads to it (`collect_of_stands`).
For a tree of kinds, names and languages that chain is the kind, the name and the language
(`parseAll_of_stands`).
-/

namespace ImageTriage

open Bytes Utf16

/-- A leaf of the tree: where the data of a resource lies, and the code page of its text. -/
structure ResourceLeaf where
  address : UInt32
  size : UInt32
  codePage : UInt32

/-- A tree of resources: a leaf, or a directory with its children in the order of the file. -/
inductive ResourceTree where
  | leaf (l : ResourceLeaf)
  | directory (children : List (ResourceId × ResourceTree))

namespace ResourceLeaf

/-- The data entry of a leaf. The word that ends it in a file is not read. -/
def bytes (l : ResourceLeaf) : List UInt8 :=
  leBytes 4 l.address.toNat ++ (leBytes 4 l.size.toNat ++ leBytes 4 l.codePage.toNat)

/-- The resource that a leaf describes. The file holds its data when the address is mapped and the
data ends in the file. -/
def resource (m : MappedFile) (kind name : ResourceId) (language : UInt32) (l : ResourceLeaf) :
    Resource where
  kind
  name
  language
  codePage := l.codePage
  address := l.address
  size := l.size
  offset? := (m.sections.offset? l.address).filter (· + l.size.toNat ≤ m.file.size)

theorem offset?_resource_eq_some_iff {m : MappedFile} {kind name : ResourceId} {language : UInt32}
    {l : ResourceLeaf} {start : Nat} :
    (l.resource m kind name language).offset? = some start ↔
      m.sections.offset? l.address = some start ∧ start + l.size.toNat ≤ m.file.size := by
  simp [resource, Option.filter_eq_some_iff]

/-- The resource of a leaf under the chain of identifiers that leads to it, the last one first. -/
def resourceUnder (m : MappedFile) (path : List ResourceId) (l : ResourceLeaf) : Resource :=
  let (kind, name, language) := Resource.identify path.reverse
  l.resource m kind name language

end ResourceLeaf

namespace ResourceTree

/-- Whether a tree is a directory. -/
def isDirectory : ResourceTree → Bool
  | leaf _ => false
  | directory _ => true

mutual

/-- The number of levels of directories. -/
def height : ResourceTree → Nat
  | leaf _ => 0
  | directory children => heightOfAll children + 1

/-- The number of levels below a directory. -/
def heightOfAll : List (ResourceId × ResourceTree) → Nat
  | [] => 0
  | (_, t) :: rest => max (height t) (heightOfAll rest)

end

mutual

/-- The resources of a tree, depth first. The tree was reached by the identifiers of `path`, the
last one first. -/
def resources (m : MappedFile) (path : List ResourceId) : ResourceTree → List Resource
  | leaf l => [l.resourceUnder m path]
  | directory children => resourcesOfAll m path children

/-- The resources below a directory. -/
def resourcesOfAll (m : MappedFile) (path : List ResourceId) :
    List (ResourceId × ResourceTree) → List Resource
  | [] => []
  | (id, t) :: rest => resources m (id :: path) t ++ resourcesOfAll m path rest

end

/-! ## Layout -/

/-- A reference: an offset from the root directory, and a mark in the high bit. -/
def reference (marked : Bool) (offset : Nat) : Nat := offset + if marked then 0x80000000 else 0

/-- The word of an entry gives the identifier: a number stands in it, and a text at the offset that
it gives, behind the number of its units. -/
def IdStands (b : Bytes) (base word : Nat) : ResourceId → Prop
  | .number n => n.toNat < 0x80000000 ∧ word = reference false n.toNat
  | .named text => ∃ offset < 0x80000000, word = reference true offset ∧
      (encode text).length < 0x10000 ∧
        b.Holds (base + offset) (leBytes 2 (encode text).length ++ unitBytes (encode text))

/-- Whether an identifier is a text. -/
def isText : ResourceId → Bool
  | .named _ => true
  | .number _ => false

/-- The counts of a directory record: of the children with a text, and of those with a number. -/
def countBytes (children : List (ResourceId × ResourceTree)) : List UInt8 :=
  leBytes 2 (children.countP (isText ·.1)) ++ leBytes 2 (children.countP (!isText ·.1))

mutual

/-- The tree is laid out in the file: its leaf or its root directory at offset `i`, and all that
this refers to at offsets from `base`. -/
def Stands (b : Bytes) (base i : Nat) : ResourceTree → Prop
  | leaf l => b.Holds i l.bytes
  | directory children =>
    children.countP (isText ·.1) < 0x10000 ∧ children.countP (!isText ·.1) < 0x10000 ∧
      b.Holds (i + 12) (countBytes children) ∧ EntriesStand b base (i + 16) children

/-- The entries of a directory follow each other from offset `i` on. -/
def EntriesStand (b : Bytes) (base i : Nat) : List (ResourceId × ResourceTree) → Prop
  | [] => True
  | (id, t) :: rest =>
    (∃ word, ∃ offset < 0x80000000, IdStands b base word id ∧
      b.Holds i (leBytes 4 word ++ leBytes 4 (reference t.isDirectory offset)) ∧
        Stands b base (base + offset) t) ∧
      EntriesStand b base (i + 8) rest

end

/-! ## Reading what was laid out -/

section Reading

variable {b : Bytes} {base i offset word : Nat} {id : ResourceId} {marked : Bool}

theorem reference_lt (h : offset < 0x80000000) : reference marked offset < UInt32.size := by
  rw [reference, UInt32.size]
  split <;> omega

theorem toNat_reference (h : offset < 0x80000000) :
    (UInt32.ofNat (reference marked offset)).toNat = reference marked offset :=
  UInt32.toNat_ofNat_of_lt (reference_lt h)

theorem isMarked_reference (h : offset < 0x80000000) :
    Resource.isMarked (UInt32.ofNat (reference marked offset)) = marked := by
  have hmark : (UInt32.ofNat (reference marked offset) &&& 0x80000000).toNat =
      if marked then 0x80000000 else 0 := by
    rw [UInt32.toNat_and, toNat_reference h]
    cases marked with
    | false => exact and_two_pow_of_lt (k := 31) h
    | true => exact add_two_pow_and_two_pow (k := 31) h
  rw [Resource.isMarked]
  cases marked with
  | false => simpa [← UInt32.toNat_inj] using hmark
  | true => simp [bne, ← UInt32.toNat_inj, hmark]

theorem target_reference (h : offset < 0x80000000) :
    Resource.target base (UInt32.ofNat (reference marked offset)) = base + offset := by
  rw [Resource.target, UInt32.toNat_and, toNat_reference h]
  congr 1
  cases marked with
  | false => exact Nat.and_two_pow_sub_one_of_lt_two_pow (n := 31) h
  | true => exact add_two_pow_and_two_pow_sub_one (k := 31) h

theorem u16_eq_ok {n : Nat} (h : b.Holds i (leBytes 2 n)) (hn : n < 0x10000) :
    Resource.u16 b i = .ok (UInt16.ofNat n) := by
  rw [Resource.u16, u16?, h.leNat? hn, Option.map_some, orFault_some]

theorem u32_eq_ok {n : Nat} (h : b.Holds i (leBytes 4 n)) (hn : n < UInt32.size) :
    Resource.u32 b i = .ok (UInt32.ofNat n) := by
  rw [Resource.u32, u32?, h.leNat? hn, Option.map_some, orFault_some]

/-- The counted text is read in whole. -/
theorem utf16Units_of_holds {text : String}
    (h : b.Holds i (leBytes 2 (encode text).length ++ unitBytes (encode text))) :
    b.utf16Units (i + 2) (encode text).length = .ok text := by
  have hfits := h.fits_of_ne_nil (by simp [leBytes])
  simp only [List.length_append, length_leBytes, length_unitBytes] at hfits
  have htext := h.right
  rw [length_leBytes] at htext
  exact htext.utf16Units (by omega)

theorem IdStands.lt (h : IdStands b base word id) : word < UInt32.size := by
  cases id with
  | number n =>
    obtain ⟨hn, rfl⟩ := h
    exact reference_lt hn
  | named text =>
    obtain ⟨offset, hoffset, rfl, -⟩ := h
    exact reference_lt hoffset

theorem readId_of_stands (h : IdStands b base word id) :
    Resource.readId b base (UInt32.ofNat word) = .ok id := by
  cases id with
  | number n =>
    obtain ⟨hn, rfl⟩ := h
    rw [Resource.readId, isMarked_reference hn]
    simp [reference]
  | named text =>
    obtain ⟨offset, hoffset, rfl, hlength, htext⟩ := h
    have hcount : (UInt16.ofNat (encode text).length).toNat = (encode text).length :=
      UInt16.toNat_ofNat_of_lt hlength
    rw [Resource.readId, isMarked_reference hoffset, if_pos rfl, target_reference hoffset]
    dsimp only
    rw [u16_eq_ok htext.left hlength, ok_bind, hcount, utf16Units_of_holds htext]
    rfl

variable {m : MappedFile} {path : List ResourceId}

theorem readLeaf_of_holds {l : ResourceLeaf} (h : m.file.Holds i l.bytes) :
    Resource.readLeaf m i path = .ok (l.resourceUnder m path) := by
  have haddress := u32_eq_ok h.left l.address.toNat_lt
  have hsize := u32_eq_ok h.right.left l.size.toNat_lt
  have hcodePage := u32_eq_ok h.right.right l.codePage.toNat_lt
  rw [length_leBytes] at hsize hcodePage
  rw [length_leBytes] at hcodePage
  rw [UInt32.ofNat_toNat] at haddress hsize hcodePage
  rw [Resource.readLeaf, haddress, ok_bind, hsize, ok_bind, hcodePage, ok_bind]
  rfl

/-- Every child is counted once. -/
theorem counts_add (children : List (ResourceId × ResourceTree)) :
    children.countP (isText ·.1) + children.countP (!isText ·.1) = children.length := by
  rw [children.length_eq_countP_add_countP (isText ·.1)]
  simp only [Bool.not_eq_true, Bool.decide_eq_false]

/-- An entry of a directory leads to its identifier and its tree. -/
theorem walkEntry_of_holds {t : ResourceTree} {descend : Resource.Descent} {found : Array Resource}
    (hid : IdStands m.file base word id) (hoffset : offset < 0x80000000)
    (h : m.file.Holds i (leBytes 4 word ++ leBytes 4 (reference t.isDirectory offset))) :
    Resource.walkEntry m base descend path i found =
      if t.isDirectory then descend (base + offset) (id :: path) found
      else return found.push (← Resource.readLeaf m (base + offset) (id :: path)) := by
  have hword := u32_eq_ok h.left hid.lt
  have hreference := u32_eq_ok h.right (reference_lt hoffset)
  rw [length_leBytes] at hreference
  rw [Resource.walkEntry, hword, ok_bind, hreference, ok_bind, readId_of_stands hid, ok_bind,
    isMarked_reference hoffset, target_reference hoffset]

variable {limit : Nat}

mutual

/-- What is collected where an entry refers to a tree. -/
theorem collect_of_stands : ∀ (t : ResourceTree) (i levels : Nat) (path : List ResourceId)
    (found : Array Resource), Stands m.file base i t → t.height ≤ levels →
      found.size + (resources m path t).length ≤ limit →
        (if t.isDirectory then Resource.walk m base limit levels i path found
          else return found.push (← Resource.readLeaf m i path)) =
            .ok (found ++ (resources m path t).toArray)
  | .leaf l => by
    intro i levels path found h _ _
    rw [isDirectory, if_neg Bool.false_ne_true, readLeaf_of_holds h, ok_bind, resources]
    simp
  | .directory children => by
    intro i levels path found h hheight hlimit
    obtain ⟨htexts, hnumbers, hcounts, hentries⟩ := h
    rw [height] at hheight
    obtain ⟨rest, rfl⟩ : ∃ rest, levels = rest + 1 := ⟨levels - 1, by omega⟩
    have htextsAt := u16_eq_ok hcounts.left htexts
    have hnumbersAt := u16_eq_ok hcounts.right hnumbers
    rw [length_leBytes] at hnumbersAt
    have hcount : (UInt16.ofNat (children.countP (isText ·.1))).toNat +
        (UInt16.ofNat (children.countP (!isText ·.1))).toNat = children.length :=
      calc _ = children.countP (isText ·.1) + children.countP (!isText ·.1) :=
            congrArg₂ _ (UInt16.toNat_ofNat_of_lt htexts) (UInt16.toNat_ofNat_of_lt hnumbers)
        _ = children.length := counts_add children
    rw [isDirectory, if_pos rfl, Resource.walk, htextsAt, ok_bind, hnumbersAt, ok_bind, hcount,
      resources]
    exact collectAll_of_stand children (i + 16) rest path found hentries (by omega) hlimit

/-- What is collected below the entries of a directory. -/
theorem collectAll_of_stand : ∀ (children : List (ResourceId × ResourceTree)) (i levels : Nat)
    (path : List ResourceId) (found : Array Resource), EntriesStand m.file base i children →
      heightOfAll children ≤ levels →
        found.size + (resourcesOfAll m path children).length ≤ limit →
          Resource.walkEntries m base limit (Resource.walk m base limit levels) path
            children.length i found =
              .ok (found ++ (resourcesOfAll m path children).toArray)
  | [] => by
    intro i levels path found _ _ _
    simp [Resource.walkEntries, resourcesOfAll]
  | (id, t) :: rest => by
    intro i levels path found h hheight hlimit
    obtain ⟨⟨word, offset, hoffset, hid, hentry, htree⟩, hrest⟩ := h
    rw [heightOfAll] at hheight
    rw [resourcesOfAll, List.length_append] at hlimit
    rw [List.length_cons, Resource.walkEntries, resourcesOfAll]
    split
    case isTrue hfull =>
      -- nothing is read any more, and nothing is left to be found
      have hnone : resources m (id :: path) t = [] := List.eq_nil_of_length_eq_zero (by omega)
      have hrestNone : resourcesOfAll m path rest = [] :=
        List.eq_nil_of_length_eq_zero (by omega)
      simp [hnone, hrestNone]
    case isFalse =>
      have hfirst := collect_of_stands t (base + offset) levels (id :: path) found htree
        (by omega) (by omega)
      have hothers := collectAll_of_stand rest (i + 8) levels path
        (found ++ (resources m (id :: path) t).toArray) hrest (by omega)
        (by simp only [Array.size_append, List.size_toArray]; omega)
      rw [walkEntry_of_holds hid hoffset hentry, hfirst]
      simp only [hothers, Array.append_assoc, List.append_toArray]

end

end Reading

/-! ## Kinds, names and languages -/

/-- A language of a resource, with the leaf for it. -/
abbrev Languages := List (UInt32 × ResourceLeaf)

/-- The names of the resources of a kind. -/
abbrev Names := List (ResourceId × Languages)

/-- The kinds of resources of an image. -/
abbrev Kinds := List (ResourceId × Names)

/-- The directory of the languages of a resource. -/
def ofLanguages (languages : Languages) : ResourceTree :=
  directory (languages.map fun (language, l) => (.number language, leaf l))

/-- The directory of the names of a kind. -/
def ofNames (names : Names) : ResourceTree :=
  directory (names.map fun (name, languages) => (name, ofLanguages languages))

/-- The tree of kinds, names and languages. -/
def ofKinds (kinds : Kinds) : ResourceTree :=
  directory (kinds.map fun (kind, names) => (kind, ofNames names))

/-- The resources of all kinds, one for each leaf, in order. -/
def resourcesOf (m : MappedFile) (kinds : Kinds) : List Resource :=
  kinds.flatMap fun (kind, names) => names.flatMap fun (name, languages) =>
    languages.map fun (language, l) => l.resource m kind name language

theorem heightOfAll_le {n : Nat} {children : List (ResourceId × ResourceTree)}
    (h : ∀ c ∈ children, c.2.height ≤ n) : heightOfAll children ≤ n := by
  induction children with
  | nil => exact Nat.zero_le n
  | cons c rest ih =>
    rw [heightOfAll]
    exact max_le (h c (by simp)) (ih fun c hc => h c (by simp [hc]))

theorem height_directory_map_le {α : Type} {n : Nat} {f : α → ResourceId × ResourceTree}
    (as : List α) (h : ∀ a, (f a).2.height ≤ n) : (directory (as.map f)).height ≤ n + 1 := by
  rw [height]
  refine Nat.succ_le_succ (heightOfAll_le fun c hc => ?_)
  obtain ⟨a, -, rfl⟩ := List.mem_map.1 hc
  exact h a

theorem height_ofKinds_le (kinds : Kinds) : (ofKinds kinds).height ≤ 3 :=
  height_directory_map_le kinds fun kind =>
    height_directory_map_le kind.2 fun name =>
      height_directory_map_le name.2 fun _ => by rw [height]

theorem resourcesOfAll_map {α : Type} {m : MappedFile} {path : List ResourceId}
    (f : α → ResourceId × ResourceTree) (as : List α) :
    resourcesOfAll m path (as.map f) =
      as.flatMap fun a => resources m ((f a).1 :: path) (f a).2 := by
  induction as with
  | nil => rfl
  | cons a as ih => rw [List.map_cons, resourcesOfAll, ih, List.flatMap_cons]

theorem resources_ofKinds (m : MappedFile) (kinds : Kinds) :
    resources m [] (ofKinds kinds) = resourcesOf m kinds := by
  simp only [ofKinds, ofNames, ofLanguages, resources, resourcesOfAll_map, ← List.map_eq_flatMap]
  rfl

/-- The directory is read in whole, whatever the shape of its tree. -/
theorem parseAll_directory {m : MappedFile} {dir : DataDirectory} {base levels limit : Nat}
    {children : List (ResourceId × ResourceTree)} (hpresent : dir.isPresent)
    (hbase : m.sections.offset? dir.address = some base)
    (h : Stands m.file base base (directory children))
    (hlevels : (directory children).height ≤ levels)
    (hlimit : (resources m [] (directory children)).length ≤ limit) :
    Resource.parseAll m dir levels limit = .ok (resources m [] (directory children)) := by
  have hoffset : m.offset dir.address = .ok base := MappedFile.offset_eq_ok hbase
  have hroom : (#[] : Array Resource).size + (resources m [] (directory children)).length ≤
      limit := by rwa [Array.size_empty, Nat.zero_add]
  have hwalk := collect_of_stands (directory children) base levels [] #[] h hlevels hroom
  rw [isDirectory, if_pos rfl, Array.empty_append] at hwalk
  rw [Resource.parseAll, hpresent, hoffset]
  simp [hwalk]

/-- The resources of a tree of kinds, names and languages are read in order, each with the kind, the
name and the language that lead to its leaf, and with the place of its data when the file holds all
of it. -/
theorem parseAll_of_stands {m : MappedFile} {dir : DataDirectory} {base levels limit : Nat}
    {kinds : Kinds} (hpresent : dir.isPresent) (hbase : m.sections.offset? dir.address = some base)
    (h : Stands m.file base base (ofKinds kinds)) (hlevels : 3 ≤ levels)
    (hlimit : (resourcesOf m kinds).length ≤ limit) :
    Resource.parseAll m dir levels limit = .ok (resourcesOf m kinds) ∧
      ∀ r ∈ resourcesOf m kinds, ∀ start, r.offset? = some start ↔
        m.sections.offset? r.address = some start ∧ start + r.size.toNat ≤ m.file.size := by
  constructor
  · have hheight := height_ofKinds_le kinds
    rw [← resources_ofKinds] at hlimit ⊢
    exact parseAll_directory hpresent hbase h (by exact Nat.le_trans hheight hlevels) hlimit
  · intro r hr start
    simp only [resourcesOf, List.mem_flatMap, List.mem_map] at hr
    obtain ⟨kind, -, name, -, l, -, rfl⟩ := hr
    exact ResourceLeaf.offset?_resource_eq_some_iff

/-- One name in one language. -/
def sampleNames : Names := [(.number 1, [(0x409, ⟨0x1064, 2, 1252⟩)])]

/-- Two kinds, one of them a text. Both have the same names, and the file holds these once. -/
def sampleKinds : Kinds := [(.named "A", sampleNames), (.number ResourceId.manifest, sampleNames)]

/-- A file that is one section, with the tree of `sampleKinds`, a text and two bytes of data. -/
def sampleFile : MappedFile where
  file := ⟨⟨List.replicate 12 0 ++ [1, 0, 1, 0] ++
      [0x60, 0, 0, 0x80, 0x20, 0, 0, 0x80] ++ [24, 0, 0, 0, 0x20, 0, 0, 0x80] ++
    List.replicate 12 0 ++ [0, 0, 1, 0] ++ [1, 0, 0, 0, 0x38, 0, 0, 0x80] ++
    List.replicate 12 0 ++ [0, 0, 1, 0] ++ [9, 4, 0, 0, 0x50, 0, 0, 0] ++
    [0x64, 0x10, 0, 0, 2, 0, 0, 0, 0xE4, 4, 0, 0, 0, 0, 0, 0] ++ [1, 0, 0x41, 0] ++ [0x68, 0x69]⟩⟩
  sections := .ofHeaders [{
    rawName := Vector.replicate 8 0
    virtualSize := 0x66
    virtualAddress := 0x1000
    rawSize := 0x66
    rawOffset := 0
    relocationOffset := 0
    lineNumberOffset := 0
    relocationCount := 0
    lineNumberCount := 0
    characteristics := 0 }]

theorem stands_sampleNames : Stands sampleFile.file 0 0x20 (ofNames sampleNames) := by
  simp only [ofNames, sampleNames, ofLanguages, List.map_cons, List.map_nil, Stands, EntriesStand,
    and_true]
  refine ⟨by decide, by decide, by decide +kernel, _, 0x38, by decide, ⟨by decide, rfl⟩,
    by decide +kernel, ?_⟩
  refine ⟨by decide, by decide, by decide +kernel, _, 0x50, by decide, ⟨by decide, rfl⟩,
    by decide +kernel, ?_⟩
  decide +kernel

theorem stands_sampleKinds : Stands sampleFile.file 0 0 (ofKinds sampleKinds) := by
  have hname : IdStands sampleFile.file 0 (reference true 0x60) (.named "A") :=
    ⟨0x60, by decide, rfl, by decide, by decide +kernel⟩
  simp only [ofKinds, sampleKinds, List.map_cons, List.map_nil, Stands, EntriesStand, and_true]
  refine ⟨by decide, by decide, by decide +kernel, ?_, ?_⟩
  · exact ⟨_, 0x20, by decide, hname, by decide +kernel, stands_sampleNames⟩
  · exact ⟨_, 0x20, by decide, ⟨by decide, rfl⟩, by decide +kernel, stands_sampleNames⟩

theorem parseAll_of_stands_sample :
    let dir : DataDirectory := ⟨0x1000, 0x66⟩
    dir.isPresent ∧ sampleFile.sections.offset? dir.address = some 0 ∧
      Stands sampleFile.file 0 0 (ofKinds sampleKinds) ∧ 3 ≤ 3 ∧
        (resourcesOf sampleFile sampleKinds).length ≤ 2 ∧
          Resource.parseAll sampleFile dir 3 2 = .ok (resourcesOf sampleFile sampleKinds) := by
  have hpresent : (DataDirectory.mk 0x1000 0x66).isPresent := by decide
  have hbase : sampleFile.sections.offset? 0x1000 = some 0 := by decide +kernel
  have hlimit : (resourcesOf sampleFile sampleKinds).length ≤ 2 := by decide
  have hread := parseAll_of_stands hpresent hbase stands_sampleKinds (Nat.le_refl 3) hlimit
  exact ⟨hpresent, hbase, stands_sampleKinds, Nat.le_refl 3, hlimit, hread.1⟩

end ResourceTree

end ImageTriage
