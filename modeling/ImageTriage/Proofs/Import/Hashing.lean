import Mathlib.Data.List.Forall2
import Mathlib.Logic.Relation
import ImageTriage.Import.Hash

/-!
# What the import hash depends on

The import hash is there to find relatives of a program, so it has to be the same for all tables
that bind the same functions in the same order at load time. `ImportTable.bound` is this row: pairs
of a library and a name or number. Two pairs agree when the libraries have one stem in lower case
and the functions have names that differ in case only, or one number (`Agree`).

The digested text has one line for each pair of the row, in the order of the table (`text_eq`), and
pairs that agree have one line (`line_eq_of_agree`). So tables whose rows agree have one hash
(`hex_eq_of_agree`). What else a table holds can be changed at will: `Edit` lists the changes of a
piece of a table that keep its lines, and any number of them, done or undone, keeps the digested
text (`text_eq_of_edited`).
-/

namespace ImageTriage

/-! ## Functions bound at load time -/

/-- How a function is asked for, by name or by number. There is no telling when the name cannot be
read. -/
def ImportTarget.symbol? : ImportTarget → Option (String ⊕ UInt16)
  | .ordinal number => some (.inr number)
  | .named name _ => name.map .inl

/-- The functions of a library that are bound at load time, each with the library. -/
def ImportDescriptor.bound (d : ImportDescriptor) : List (String × (String ⊕ UInt16)) :=
  match d.kind with
  | .delayLoaded => []
  | .regular => d.entries.filterMap fun e => e.target.symbol?.map fun symbol => (d.dllName, symbol)

/-- All functions that are bound at load time, in the order of the table. -/
def ImportTable.bound (t : ImportTable) : List (String × (String ⊕ UInt16)) :=
  t.descriptors.flatMap (·.bound)

namespace ImportHash

variable {t t' : ImportTable} {d : ImportDescriptor} {a b : String × (String ⊕ UInt16)}
  {name stem s suffix rest : String}

/-! ## Stems of libraries -/

/-- The name of a library in lower case, without the extension at its end if that is one of those
that a library loses. -/
inductive IsStem (name : String) : String → Prop where
  | cut {stem extension : String} (hmem : extension ∈ extensions)
      (h : Text.lower name = stem ++ extension) : IsStem name stem
  | whole (h : ∀ extension ∈ extensions, ∀ stem, Text.lower name ≠ stem ++ extension) :
      IsStem name (Text.lower name)

theorem withoutSuffix?_eq_some_iff : withoutSuffix? s suffix = some rest ↔ s = rest ++ suffix := by
  simp only [withoutSuffix?, Option.ite_none_right_eq_some, Option.some.injEq]
  constructor
  · rintro ⟨hend, rfl⟩
    rw [← String.toList_inj, String.toList_append, String.toList_ofList, ← hend,
      List.take_append_drop]
  · rintro rfl
    have hrest : (rest ++ suffix).toList.length - suffix.length = rest.toList.length := by
      simp only [String.toList_append, List.length_append, String.length_toList, Nat.add_sub_cancel]
    rw [hrest, String.toList_append, List.drop_left, List.take_left, String.ofList_toList]
    exact ⟨rfl, rfl⟩

/-- Only one of the extensions can be at the end of a name, since all are of one length. -/
theorem stem_unique {stem' extension extension' : String} (hmem : extension ∈ extensions)
    (hmem' : extension' ∈ extensions) (h : stem ++ extension = stem' ++ extension') :
    stem = stem' := by
  have hfour : ∀ e ∈ extensions, e.toList.length = 4 := by decide
  rw [← String.toList_inj, String.toList_append, String.toList_append] at h
  have hlength : extension.toList.length = extension'.toList.length :=
    (hfour _ hmem).trans (hfour _ hmem').symm
  exact String.toList_inj.1 (List.append_inj' h hlength).1

/-- Every library has a stem, which is the name of its module in the list. -/
theorem isStem_moduleName (name : String) : IsStem name (moduleName name) := by
  rw [moduleName]
  cases hfound : extensions.findSome? (withoutSuffix? (Text.lower name)) with
  | none =>
    refine .whole fun extension hmem stem hcut => ?_
    have hnone := List.findSome?_eq_none_iff.1 hfound extension hmem
    rw [withoutSuffix?_eq_some_iff.2 hcut] at hnone
    cases hnone
  | some stem =>
    obtain ⟨extension, hmem, hcut⟩ := List.exists_of_findSome?_eq_some hfound
    exact .cut hmem (withoutSuffix?_eq_some_iff.1 hcut)

theorem IsStem.unique {stem' : String} (h : IsStem name stem) (h' : IsStem name stem') :
    stem = stem' := by
  cases h with
  | cut hmem hcut =>
    cases h' with
    | cut hmem' hcut' => exact stem_unique hmem hmem' (hcut.symm.trans hcut')
    | whole hnone => exact absurd hcut (hnone _ hmem _)
  | whole hnone =>
    cases h' with
    | cut hmem' hcut' => exact absurd hcut' (hnone _ hmem' _)
    | whole _ => rfl

theorem isStem_iff : IsStem name stem ↔ moduleName name = stem := by
  constructor
  · exact fun h => (isStem_moduleName name).unique h
  · rintro rfl
    exact isStem_moduleName name

example : moduleName ".OCX" = "" ∧ moduleName "a.dll.dll" = "a.dll" := by decide +kernel

/-! ## Lines of the list -/

/-- Libraries with one stem. -/
def SameModule (a b : String) : Prop := ∃ stem, IsStem a stem ∧ IsStem b stem

/-- Functions with names that differ in case only, or with one number. -/
inductive SameSymbol : String ⊕ UInt16 → String ⊕ UInt16 → Prop where
  | name {a b : String} (h : Text.lower a = Text.lower b) : SameSymbol (.inl a) (.inl b)
  | number (n : UInt16) : SameSymbol (.inr n) (.inr n)

/-- Functions that cannot be told apart by the hash. -/
def Agree (a b : String × (String ⊕ UInt16)) : Prop := SameModule a.1 b.1 ∧ SameSymbol a.2 b.2

/-- The name of a function in lower case, or `ord` and its number. -/
def symbolText : String ⊕ UInt16 → String
  | .inl name => Text.lower name
  | .inr number => "ord" ++ toString number.toNat

/-- The line of a function: the stem of its library, a point, and the text of its symbol. -/
def IsLine (b : String × (String ⊕ UInt16)) (line : String) : Prop :=
  ∃ stem, IsStem b.1 stem ∧ line = stem ++ "." ++ symbolText b.2

/-- The line of a function as it is put together. -/
def line (b : String × (String ⊕ UInt16)) : String := moduleName b.1 ++ "." ++ symbolText b.2

theorem isLine_line (b : String × (String ⊕ UInt16)) : IsLine b (line b) :=
  ⟨_, isStem_moduleName b.1, rfl⟩

theorem SameSymbol.symbolText_eq {x y : String ⊕ UInt16} (h : SameSymbol x y) :
    symbolText x = symbolText y := by
  cases h with
  | name h => exact h
  | number n => rfl

/-- Functions that agree have one line. -/
theorem line_eq_of_agree (h : Agree a b) : line a = line b := by
  obtain ⟨⟨stem, ha, hb⟩, hsymbol⟩ := h
  rw [line, line, isStem_iff.1 ha, isStem_iff.1 hb, hsymbol.symbolText_eq]

theorem map_line_eq_of_agree {xs ys : List (String × (String ⊕ UInt16))}
    (h : List.Forall₂ Agree xs ys) : xs.map line = ys.map line := by
  induction h with
  | nil => rfl
  | cons hxy _ ih => rw [List.map_cons, List.map_cons, line_eq_of_agree hxy, ih]

theorem functionName?_eq (target : ImportTarget) :
    functionName? target = target.symbol?.map symbolText := by
  cases target with
  | ordinal number => rfl
  | named name hint => cases name <;> rfl

theorem listed_eq (d : ImportDescriptor) : listed d = d.bound.map line := by
  rw [listed, ImportDescriptor.bound]
  cases d.kind with
  | delayLoaded => rfl
  | regular =>
    rw [List.map_filterMap]
    refine List.filterMap_congr fun e _ => ?_
    rw [functionName?_eq, Option.map_map, Option.map_map]
    rfl

/-- The digested text has the lines of the functions that are bound at load time, in order. -/
theorem text_eq (t : ImportTable) : text t = String.intercalate "," (t.bound.map line) := by
  rw [text, ImportTable.bound, List.map_flatMap, funext listed_eq]

theorem text_eq_of_agree (h : List.Forall₂ Agree t.bound t'.bound) : text t = text t' := by
  rw [text_eq, text_eq, map_line_eq_of_agree h]

/-! ## Changes that do not show -/

/-- Changes of a piece of a table. -/
inductive Edit : List ImportDescriptor → List ImportDescriptor → Prop where
  /-- A library that is bound later is dropped. -/
  | late (d : ImportDescriptor) (h : d.kind = .delayLoaded) : Edit [d] []
  /-- A library without functions is dropped. -/
  | empty (d : ImportDescriptor) (h : d.entries = []) : Edit [d] []
  /-- A function without a name or a number is dropped. -/
  | unresolved (d : ImportDescriptor) (front rest : List ImportEntry) (e : ImportEntry)
      (h : d.entries = front ++ e :: rest) (hnone : e.target.symbol? = none) :
      Edit [d] [{ d with entries := front ++ rest }]
  /-- All but the name of the library and the symbols of its functions is changed: hints, slots,
  addresses, the timestamp, the forwarder chain. -/
  | details (d d' : ImportDescriptor) (hname : d.dllName = d'.dllName) (hkind : d.kind = d'.kind)
      (h : d.entries.map (·.target.symbol?) = d'.entries.map (·.target.symbol?)) : Edit [d] [d']
  /-- The name of the library is written with other capitals or another extension. -/
  | respelled (d : ImportDescriptor) (name : String) (h : SameModule d.dllName name) :
      Edit [d] [{ d with dllName := name }]
  /-- The functions are given in two parts, one after the other. -/
  | split (d : ImportDescriptor) (front rest : List ImportEntry) (h : d.entries = front ++ rest) :
      Edit [d] [{ d with entries := front }, { d with entries := rest }]

/-- A piece of the table is changed. -/
def Edited (t t' : ImportTable) : Prop :=
  ∃ front old new rest, Edit old new ∧ t.descriptors = front ++ old ++ rest ∧
    t'.descriptors = front ++ new ++ rest

theorem bound_of_map_eq {d' : ImportDescriptor} (hname : d.dllName = d'.dllName)
    (hkind : d.kind = d'.kind)
    (h : d.entries.map (·.target.symbol?) = d'.entries.map (·.target.symbol?)) :
    d.bound = d'.bound := by
  have hsymbols (c : ImportDescriptor) :
      (c.entries.filterMap fun e => e.target.symbol?.map fun symbol => (c.dllName, symbol)) =
        (c.entries.map (·.target.symbol?)).filterMap fun symbol? =>
          symbol?.map fun symbol => (c.dllName, symbol) := by
    rw [List.filterMap_map]
    rfl
  rw [ImportDescriptor.bound, ImportDescriptor.bound, hsymbols, hsymbols, h, hname, hkind]

theorem listed_respelled (h : SameModule d.dllName name) :
    listed { d with dllName := name } = listed d := by
  obtain ⟨stem, hd, hname⟩ := h
  rw [listed, listed, isStem_iff.1 hd, isStem_iff.1 hname]

/-- A change keeps the lines of the piece. -/
theorem listed_of_edit {old new : List ImportDescriptor} (h : Edit old new) :
    old.flatMap listed = new.flatMap listed := by
  cases h with
  | late d h => simp [listed, h]
  | empty d h => cases hkind : d.kind <;> simp [listed, h, hkind]
  | unresolved d front rest e h hnone =>
    have hdropped : functionName? e.target = none := by rw [functionName?_eq, hnone]; rfl
    cases hkind : d.kind <;> simp [listed, h, hkind, hdropped]
  | details d d' hname hkind h =>
    simp only [List.flatMap_singleton, listed_eq, bound_of_map_eq hname hkind h]
  | respelled d name h => rw [List.flatMap_singleton, List.flatMap_singleton, listed_respelled h]
  | split d front rest h => cases hkind : d.kind <;> simp [listed, h, hkind]

/-- Changes, done or undone one after the other, keep the digested text. -/
theorem text_eq_of_edited (h : Relation.EqvGen Edited t t') : text t = text t' := by
  induction h with
  | rel t t' h =>
    obtain ⟨front, old, new, rest, hedit, ht, ht'⟩ := h
    simp only [text, ht, ht', List.flatMap_append, listed_of_edit hedit]
  | refl t => rfl
  | symm t t' _ ih => exact ih.symm
  | trans t t' t'' _ _ ih ih' => exact ih.trans ih'

/-- Tables that agree in what is bound at load time have one hash. Nothing else in a table changes
it, and it is the digest of one line for each of these functions, in the order of the table. -/
theorem hex_eq_of_agree (h : List.Forall₂ Agree t.bound t'.bound) :
    hex t = hex t' ∧
      (∀ changed, Relation.EqvGen Edited t changed → hex changed = hex t) ∧
      ∃ lines, List.Forall₂ IsLine t.bound lines ∧
        hex t = Digest.Md5.hex (String.intercalate "," lines).toUTF8 := by
  refine ⟨?_, fun changed hchanged => ?_, t.bound.map line, ?_, ?_⟩
  · rw [hex, hex, text_eq_of_agree h]
  · rw [hex, hex, text_eq_of_edited hchanged]
  · exact List.forall₂_map_right_iff.2 (List.forall₂_same.2 fun b _ => isLine_line b)
  · rw [hex, text_eq]

/-- A library with a named and a numbered function and one that cannot be told. -/
def sample : ImportTable :=
  ⟨[⟨"KERNEL32.dll", 0x2000, 7, 0, 0x2100, 0x3000, .regular,
    [⟨.named (some "ReadFile") (some 7), 0x403000⟩, ⟨.named none none, 0x403004⟩,
      ⟨.ordinal 16, 0x403008⟩]⟩]⟩

/-- The same functions in two parts under other spellings, with a library between them that is bound
later. -/
def sampleRespelled : ImportTable :=
  ⟨[⟨"kernel32.SYS", 0, 0, 0, 0x1100, 0x1000, .regular, [⟨.named (some "READFILE") none, 0⟩]⟩,
    ⟨"USER32.dll", 0, 0, 0, 0x1200, 0x1010, .delayLoaded, [⟨.named (some "GetDC") none, 0⟩]⟩,
    ⟨"Kernel32", 0, 0, 0, 0x1300, 0x1020, .regular, [⟨.ordinal 16, 0x401020⟩]⟩]⟩

theorem bound_sample :
    sample.bound = [("KERNEL32.dll", .inl "ReadFile"), ("KERNEL32.dll", .inr 16)] := rfl

theorem bound_sampleRespelled :
    sampleRespelled.bound = [("kernel32.SYS", .inl "READFILE"), ("Kernel32", .inr 16)] := rfl

theorem hex_eq_of_agree_sample :
    List.Forall₂ Agree sample.bound sampleRespelled.bound ∧ hex sample = hex sampleRespelled := by
  have hstem : IsStem "KERNEL32.dll" "kernel32" := isStem_iff.2 (by decide +kernel)
  have hsystem : IsStem "kernel32.SYS" "kernel32" := isStem_iff.2 (by decide +kernel)
  have hbare : IsStem "Kernel32" "kernel32" := isStem_iff.2 (by decide +kernel)
  have hmixed : Text.lower "ReadFile" = "readfile" := by decide +kernel
  have hcapitals : Text.lower "READFILE" = "readfile" := by decide +kernel
  have hread : Agree ("KERNEL32.dll", .inl "ReadFile") ("kernel32.SYS", .inl "READFILE") :=
    ⟨⟨_, hstem, hsystem⟩, .name (hmixed.trans hcapitals.symm)⟩
  have hnumber : Agree ("KERNEL32.dll", .inr 16) ("Kernel32", .inr 16) :=
    ⟨⟨_, hstem, hbare⟩, .number 16⟩
  have hagree : List.Forall₂ Agree sample.bound sampleRespelled.bound := by
    rw [bound_sample, bound_sampleRespelled]
    exact .cons hread (.cons hnumber .nil)
  exact ⟨hagree, (hex_eq_of_agree hagree).1⟩

end ImportHash

end ImageTriage
