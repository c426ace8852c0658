import ImageTriage.Proofs.Content
import ImageTriage.Proofs.Report.Titles

/-!
# What the lines of a block show

The texts that a table brings into its block are names of sections, of libraries and functions, of
resources, strings of the version information and paths of symbol files. All else that a block shows
is made here and has no line feeds, so that a line of a block is one line as long as the texts are
(`ShowsOnly`).
-/

namespace ImageTriage

open Text (OneLine)

namespace Report

/-- A line of a block that has line feeds only if one of the texts has. -/
structure ShowsOnly (texts : List String) (line : String) : Prop where
  indented : Indented line
  oneLine : (∀ s ∈ texts, OneLine s) → OneLine line

/-- Lines of a block that have line feeds only if one of the texts has. -/
def Show (texts ls : List String) : Prop := ∀ line ∈ ls, ShowsOnly texts line

section Lines

variable {α : Type} {texts ls ls' : List String} {line key value : String} {n : Nat}

/-! ### Lists of lines -/

@[simp] theorem show_nil : Show texts [] := fun _ h => nomatch h

@[simp] theorem show_cons : Show texts (line :: ls) ↔ ShowsOnly texts line ∧ Show texts ls :=
  List.forall_mem_cons

@[simp] theorem show_append : Show texts (ls ++ ls') ↔ Show texts ls ∧ Show texts ls' :=
  List.forall_mem_append

@[simp] theorem show_map {f : α → String} {as : List α} :
    Show texts (as.map f) ↔ ∀ a ∈ as, ShowsOnly texts (f a) :=
  List.forall_mem_map

@[simp] theorem show_flatMap {f : α → List String} {as : List α} :
    Show texts (as.flatMap f) ↔ ∀ a ∈ as, Show texts (f a) :=
  List.forall_mem_flatMap

@[simp] theorem show_toList {o : Option String} :
    Show texts o.toList ↔ ∀ line ∈ o, ShowsOnly texts line := by
  cases o <;> simp

/-! ### Single lines -/

@[simp] theorem showsOnly_item :
    ShowsOnly texts (item value) ↔ ((∀ s ∈ texts, OneLine s) → OneLine value) := by
  have hline : OneLine (item value) ↔ OneLine value := by
    rw [item, Text.oneLine_append]
    exact and_iff_right (by decide)
  exact ⟨fun h htexts => hline.1 (h.oneLine htexts), fun h => ⟨⟨_, rfl⟩, fun ht => hline.2 (h ht)⟩⟩

@[simp] theorem showsOnly_subitem :
    ShowsOnly texts (subitem value) ↔ ((∀ s ∈ texts, OneLine s) → OneLine value) := by
  have hsubitem : subitem value = item ("  " ++ value) := by
    rw [item, ← String.append_assoc]
    rfl
  rw [hsubitem, showsOnly_item, Text.oneLine_append]
  exact imp_congr_right fun _ => and_iff_right (by decide)

theorem oneLine_key_value {width : Nat} :
    OneLine (Text.padRight width (key ++ ":") ++ value) ↔ OneLine key ∧ OneLine value := by
  rw [Text.oneLine_append, Text.oneLine_padRight, Text.oneLine_append]
  exact and_congr_left fun _ => and_iff_left (by decide)

@[simp] theorem showsOnly_field :
    ShowsOnly texts (field key value) ↔
      ((∀ s ∈ texts, OneLine s) → OneLine key ∧ OneLine value) := by
  rw [field, showsOnly_item, oneLine_key_value]

@[simp] theorem showsOnly_subfield :
    ShowsOnly texts (subfield key value) ↔
      ((∀ s ∈ texts, OneLine s) → OneLine key ∧ OneLine value) := by
  rw [subfield, showsOnly_subitem, oneLine_key_value]

@[simp] theorem showsOnly_count :
    ShowsOnly texts (count key n) ↔ ((∀ s ∈ texts, OneLine s) → OneLine key) := by
  simp [count]

@[simp] theorem showsOnly_subcount :
    ShowsOnly texts (subcount key n) ↔ ((∀ s ∈ texts, OneLine s) → OneLine key) := by
  simp [subcount]

end Lines

/-! ### Values that no text of the image is in -/

@[simp] theorem oneLine_dotted (major minor : Nat) : OneLine (dotted major minor) := by
  simp +decide [dotted]

@[simp] theorem oneLine_timestamp (seconds : UInt32) : OneLine (timestamp seconds) := by
  have hzero : '0' ≠ '\n' := by decide
  unfold timestamp
  split
  · decide
  · simp +decide [twoDigits, Text.oneLine_padLeft hzero]

theorem oneLine_flags {names : List String} (h : ∀ s ∈ names, OneLine s) :
    OneLine (flags names) := by
  unfold flags
  split
  · decide
  · exact Text.oneLine_intercalate (by decide) h

/-- The names of the set bits are in one line when those of the table are. -/
theorem oneLine_flags_names {table : List Flag} (h : ∀ f ∈ table, OneLine f.name) (bits : UInt32) :
    OneLine (flags (Flag.names table bits)) := by
  refine oneLine_flags fun s hs => ?_
  obtain ⟨f, hf, -, rfl⟩ := Flag.mem_names_iff.1 hs
  exact h f hf

@[simp] theorem oneLine_flagWord {width bits : Nat} {names : List String} :
    OneLine (flagWord width bits names) ↔ OneLine (flags names) := by
  simp +decide [flagWord]

theorem oneLine_coffFlags (h : CoffHeader) : OneLine (flags h.flagNames) :=
  oneLine_flags_names (by decide) _

theorem oneLine_loadFlags (h : OptionalHeader) : OneLine (flags h.flagNames) :=
  oneLine_flags_names (by decide) _

theorem oneLine_sectionFlags (h : SectionHeader) : OneLine (flags h.flagNames) :=
  oneLine_flags_names (by decide) _

theorem oneLine_machine (machine : Machine) : OneLine machine.name := by
  cases machine with
  | other code => exact Text.oneLine_hexMarked 4 code.toNat
  | _ => decide

theorem oneLine_subsystem (subsystem : Subsystem) : OneLine subsystem.name := by
  cases subsystem with
  | other code => simp +decide [Subsystem.name]
  | _ => decide

theorem oneLine_slot (slot : DirectorySlot) : OneLine slot.name := by cases slot <;> decide

theorem oneLine_layout (layout : OptionalLayout) : OneLine layout.name := by
  cases layout <;> simp +decide [OptionalLayout.name]

theorem oneLine_language (code : UInt32) : OneLine (Language.label code) :=
  Text.oneLine_lookup_getD (by decide) (Text.oneLine_hexMarked 4 _) _

theorem oneLine_version (v : VersionNumber) : OneLine v.text := by
  refine Text.oneLine_intercalate (by decide) ?_
  simp

/-! ### The headers -/

variable (image : Image) (withHashes : Bool)

theorem show_dosHeader : Show [] (dosHeader image).lines := by
  simp +decide [dosHeader]

theorem show_coffHeader : Show [] (coffHeader image).lines := by
  simp +decide [coffHeader, oneLine_machine, oneLine_coffFlags]

theorem show_optionalHeader : Show [] (optionalHeader image).lines := by
  have hslots : Show [] (DirectorySlot.all.filterMap (directoryLine? image)) := by
    intro line hline
    obtain ⟨slot, -, hslot⟩ := List.mem_filterMap.1 hline
    obtain ⟨dir, -, rfl⟩ := Option.map_eq_some_iff.1 hslot
    simp +decide [oneLine_slot]
  have hvalid : OneLine (if image.isChecksumValid then "valid" else "mismatch") := by
    split <;> decide
  simp +decide [optionalHeader, oneLine_layout, oneLine_subsystem, oneLine_loadFlags, hslots,
    hvalid]

/-! ### The tables -/

/-- The names of the sections. -/
def sectionTexts (hs : List SectionHeader) : List String := hs.map SectionHeader.name

/-- The names of the libraries and of their functions. -/
def importTexts (t : ImportTable) : List String :=
  t.descriptors.flatMap fun d => d.dllName :: d.entries.filterMap (·.target.name?)

/-- The name of the library, and the names and the forwarders of its functions. -/
def exportTexts (t : ExportTable) : List String :=
  t.dllName.toList ++ t.exports.flatMap fun e => e.name.toList ++ e.forwarder.toList

/-- The text of an identifier that is no number. -/
def idTexts : ResourceId → List String
  | .named text => [text]
  | .number _ => []

/-- The kinds and the names that are texts. -/
def resourceTexts (rs : List Resource) : List String :=
  rs.flatMap fun r => idTexts r.kind ++ idTexts r.name

/-- The keys of the tables, and their strings with their names. -/
def versionTexts (info : Option VersionInfo) : List String :=
  info.toList.flatMap fun info =>
    info.tables.flatMap fun t => t.key :: t.strings.flatMap fun s => [s.1, s.2]

/-- The paths of the symbol files. -/
def debugTexts (es : List DebugEntry) : List String := es.filterMap fun e => e.codeView.map (·.path)

theorem sectionLines_eq_cons (file : Bytes) (h : SectionHeader) :
    sectionLines file h = item h.name :: (sectionLines file h).tail := rfl

/-- Of the lines of a section only the first shows a text of the image. -/
theorem show_sectionLines_tail (texts : List String) (file : Bytes) (h : SectionHeader) :
    Show texts (sectionLines file h).tail := by
  simp +decide only [sectionLines, List.tail_cons, show_cons, show_nil, showsOnly_subfield,
    Text.oneLine_hexMarked, oneLine_sectionFlags, implies_true, true_and, and_true]
  intro _
  -- the entropy
  split
  · exact Text.oneLine_fixed _ _
  · decide

theorem show_sections : Show (sectionTexts image.sections.headers) (sections image).lines := by
  rw [sections, show_flatMap]
  intro h hh
  rw [sectionLines_eq_cons, show_cons, showsOnly_item]
  exact ⟨fun htexts => htexts _ (List.mem_map_of_mem hh), show_sectionLines_tail _ _ h⟩

theorem show_importLines (t : ImportTable) : Show (importTexts t) (importLines t) := by
  simp only [importLines, show_flatMap, show_cons, show_map, showsOnly_item, importLine,
    showsOnly_subitem]
  intro d hd
  have hmem : ∀ s ∈ d.dllName :: d.entries.filterMap (·.target.name?), s ∈ importTexts t :=
    fun s hs => List.mem_flatMap.2 ⟨d, hd, hs⟩
  constructor
  · intro htexts
    rw [Text.oneLine_append]
    refine ⟨htexts _ (hmem _ (by simp)), ?_⟩
    cases d.kind <;> decide
  · intro e he htexts
    have hname : ∀ name, e.target.name? = some name → OneLine name := fun name hname =>
      htexts name (hmem name (List.mem_cons_of_mem _ (List.mem_filterMap.2 ⟨e, he, hname⟩)))
    split
    case h_1 name _ htarget => exact hname name (by rw [htarget, ImportTarget.name?])
    case h_2 => decide
    case h_3 => simp +decide

theorem show_exportLines (t : ExportTable) : Show (exportTexts t) (exportLines t) := by
  have hblank : ' ' ≠ '\n' := by decide
  simp only [exportLines, show_append, show_toList, show_map]
  refine ⟨⟨?_, ?_⟩, ?_⟩
  · intro line hline
    obtain ⟨name, hname, rfl⟩ := Option.map_eq_some_iff.1 hline
    rw [showsOnly_field]
    intro htexts
    exact ⟨by decide, htexts name (by simp [exportTexts, hname])⟩
  · split <;> simp +decide
  · intro e he
    have hmem : ∀ s ∈ e.name.toList ++ e.forwarder.toList, s ∈ exportTexts t := fun s hs =>
      List.mem_append_right _ (List.mem_flatMap.2 ⟨e, he, hs⟩)
    rw [exportLine, showsOnly_item]
    intro htexts
    have hname : OneLine (e.name.getD "<unnamed>") := by
      cases hname : e.name with
      | none => decide
      | some name => exact htexts name (hmem name (by simp [hname]))
    simp +decide only [Text.oneLine_append, Text.oneLine_padLeft hblank, Text.oneLine_toString,
      Text.oneLine_hexMarked, hname, true_and]
    split
    case h_1 target hforwarder =>
      exact Text.oneLine_append.2 ⟨by decide, htexts target (hmem target (by simp [hforwarder]))⟩
    case h_2 => decide

theorem oneLine_idText {id : ResourceId} (h : ∀ s ∈ idTexts id, OneLine s) : OneLine id.text := by
  cases id with
  | named text => exact h text (by simp [idTexts])
  | number n => exact Text.oneLine_repr n.toNat

theorem oneLine_kindName {id : ResourceId} (h : ∀ s ∈ idTexts id, OneLine s) :
    OneLine id.kindName := by
  cases id with
  | named text => exact h text (by simp [idTexts])
  | number n => exact Text.oneLine_lookup_getD (by decide) (Text.oneLine_repr n.toNat) n

theorem show_resourceDataLines [Sniffer] (hlines : Content.HasLines Content.detect?)
    (texts : List String) (data : Option Bytes) :
    Show texts (resourceDataLines withHashes data) := by
  cases data with
  | none => simp +decide [resourceDataLines]
  | some data =>
    simp only [resourceDataLines, show_append, show_toList]
    constructor
    · intro line hline
      obtain ⟨content, hcontent, rfl⟩ := Option.map_eq_some_iff.1 hline
      simp +decide [hlines _ _ hcontent]
    · split <;> simp +decide [Digest.Sha256.hex]

theorem show_resourceLines [Sniffer] (hlines : Content.HasLines Content.detect?)
    (rs : List Resource) :
    Show (resourceTexts rs) (resourceLines image withHashes rs) := by
  simp only [resourceLines, show_flatMap, show_append]
  intro r hr
  refine ⟨?_, show_resourceDataLines withHashes hlines _ _⟩
  have hmem : ∀ s ∈ idTexts r.kind ++ idTexts r.name, s ∈ resourceTexts rs := fun s hs =>
    List.mem_flatMap.2 ⟨r, hr, hs⟩
  rw [show_cons, showsOnly_item]
  constructor
  · intro htexts
    have hkind := oneLine_kindName fun s hs => htexts s (hmem s (List.mem_append_left _ hs))
    have hname := oneLine_idText fun s hs => htexts s (hmem s (List.mem_append_right _ hs))
    simp +decide [hkind, hname, oneLine_language]
  · simp +decide

theorem show_versionLines (info : Option VersionInfo) :
    Show (versionTexts info) (versionLines info) := by
  cases info with
  | none => exact show_nil
  | some info =>
    simp only [versionLines, show_append, show_flatMap, show_map, show_cons]
    refine ⟨⟨?_, ?_⟩, ?_⟩
    · cases info.fixed <;> simp +decide [fixedVersionLines, oneLine_version]
    · intro t ht
      have hmem : ∀ s ∈ t.key :: t.strings.flatMap (fun s => [s.1, s.2]),
          s ∈ versionTexts (some info) := by
        intro s hs
        rw [versionTexts, Option.toList_some, List.flatMap_singleton]
        exact List.mem_flatMap.2 ⟨t, ht, hs⟩
      constructor
      · rw [showsOnly_item]
        intro htexts
        have hkey := htexts t.key (hmem _ (by simp))
        simp +decide [hkey]
      · intro s hs
        rw [showsOnly_subfield]
        intro htexts
        have hpair : ∀ text ∈ [s.1, s.2], OneLine text := fun text htext =>
          htexts text (hmem text (List.mem_cons_of_mem _ (List.mem_flatMap.2 ⟨s, hs, htext⟩)))
        exact ⟨hpair _ (by simp), hpair _ (by simp)⟩
    · intro language _
      simp +decide [oneLine_language]

theorem show_debugLines {es : List DebugEntry}
    (hmade : ∀ e ∈ es, ∀ cv, e.codeView = some cv → OneLine cv.signature ∧ OneLine cv.guid) :
    Show (debugTexts es) (debugLines es) := by
  have hkind : ∀ kind, OneLine (DebugEntry.kindName kind) :=
    Text.oneLine_lookup_getD (by decide) (by decide)
  simp only [debugLines, show_flatMap, show_append]
  intro e he
  refine ⟨by simp +decide [hkind], ?_⟩
  cases hcv : e.codeView with
  | none => exact show_nil
  | some cv =>
    obtain ⟨hsignature, hguid⟩ := hmade e he cv hcv
    have hpath : cv.path ∈ debugTexts es :=
      List.mem_filterMap.2 ⟨e, he, by rw [hcv, Option.map_some]⟩
    have hshown : (∀ s ∈ debugTexts es, OneLine s) → OneLine cv.path := fun htexts => htexts _ hpath
    simpa +decide [hsignature, hguid] using hshown

theorem show_relocationLines (bs : List RelocationBlock) : Show [] (relocationLines bs) := by
  have hkind : ∀ kind, OneLine (Relocation.kindName kind) :=
    Text.oneLine_lookup_getD (by decide) (by decide)
  simp only [relocationLines, show_flatMap, show_cons, show_map]
  intro b _
  refine ⟨by simp +decide, fun r _ => ?_⟩
  rw [relocationLine, showsOnly_subitem]
  intro _
  simp +decide only [Text.oneLine_append, Text.oneLine_padRight, hkind, and_true]
  split
  · exact Text.oneLine_hexMarked _ _
  · decide

theorem show_tlsLines (t : Option TlsDirectory) : Show [] (tlsLines t) := by
  cases t with
  | none => exact show_nil
  | some t => simp +decide [tlsLines]

theorem show_certificateLines (cs : List Certificate) : Show [] (certificateLines cs) := by
  have hkind : ∀ kind, OneLine (Certificate.kindName kind) :=
    Text.oneLine_lookup_getD (by decide) (by decide)
  simp +decide [certificateLines, hkind, Digest.Sha256.hex]

end Report

end ImageTriage
