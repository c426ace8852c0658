import ImageTriage.Proofs.Content
import ImageTriage.Proofs.Report.Views

/-!
# What a fault leaves in a report

A report on categories should consist of whole blocks, those of the categories whose tables can be
read (`wholeBlocks`); of each other category one line of diagnostics tells (`faultLines`), and the
report says nothing. All categories keep to this except two. The version information and the TLS
directory write their heading before they read their table, so that a fault leaves the heading with
no block under it (`remnant`).

`showCategories_eq_whole_iff` says what a run writes for any image, and that these two headings are
all that there is too much.
-/

namespace ImageTriage

open Report

/-! ## Joined texts -/

section Join

variable {α : Type} {f g : α → String}

theorem length_join_map_le (h : ∀ a, g a = f a ∨ g a = "") (l : List α) :
    (String.join (l.map g)).length ≤ (String.join (l.map f)).length := by
  induction l with
  | nil => exact Nat.le_refl _
  | cons a l ih =>
    simp only [List.map_cons, String.join_cons, String.length_append]
    rcases h a with ha | ha
    · rw [ha]
      omega
    · rw [ha, String.length_empty]
      omega

/-- A text from which some pieces are left out is the whole text only if those were empty. -/
theorem join_map_eq_iff (h : ∀ a, g a = f a ∨ g a = "") (l : List α) :
    String.join (l.map f) = String.join (l.map g) ↔ ∀ a ∈ l, f a = g a := by
  induction l with
  | nil => simp
  | cons a l ih =>
    simp only [List.map_cons, String.join_cons, List.forall_mem_cons]
    constructor
    · intro heq
      have ha : f a = g a := by
        rcases h a with ha | ha
        · exact ha.symm
        -- `a` is left out and the rest is no longer than it was, so its piece was empty
        · have hlength := congrArg String.length heq
          rw [ha, String.empty_append, String.length_append] at hlength
          have hle := length_join_map_le h l
          rw [ha, ← String.length_eq_zero_iff]
          omega
      rw [ha, String.append_right_inj] at heq
      exact ⟨ha, ih.mp heq⟩
    · rintro ⟨ha, hl⟩
      rw [ha, ih.mpr hl]

end Join

/-! ## Blocks and what is left of them -/

namespace Rendering

/-- The rendering of a block, or what a fault leaves of it. -/
def ofResult (remnant : String) : Except Fault Block → Rendering
  | .ok b => ofBlock b
  | .error fault => ⟨remnant, some (.malformed fault)⟩

variable {α : Type} (title : String) (table : Except Fault α) (lines : α → List String)

theorem ofTable_eq : ofTable title table lines = ofResult "" (table.map (⟨title, lines ·⟩)) := by
  cases table <;> rfl

theorem underHeading_eq :
    underHeading title table lines = ofResult (heading title) (table.map (⟨title, lines ·⟩)) := by
  cases table <;> rfl

end Rendering

namespace Image

/-- What a fault leaves of the block of a category. -/
def remnant : Category → String
  | .version => heading "Version Info"
  | .tls => heading "TLS Callbacks"
  | _ => ""

theorem remnant_eq_empty_iff (c : Category) : remnant c = "" ↔ c ≠ .version ∧ c ≠ .tls := by
  cases c <;> decide

variable [Sniffer]

/-- The block of a category, when its table can be read. -/
def block (image : Image) (withHashes : Bool) : Category → Except Fault Block
  | .dos => .ok (dosHeader image)
  | .pe => .ok (coffHeader image)
  | .opt => .ok (optionalHeader image)
  | .sections => .ok (Report.sections image)
  | .imports => image.imports.map (⟨"Imports", importLines ·⟩)
  | .exports => image.exports.map (⟨"Exports", exportLines ·⟩)
  | .resources => image.resources.map (⟨"Resources", resourceLines image withHashes ·⟩)
  | .version => image.versionInfo.map (⟨"Version Info", versionLines ·⟩)
  | .debug => image.debugEntries.map (⟨"Debug Info", debugLines ·⟩)
  | .relocations => image.relocations.map (⟨"Relocations", relocationLines ·⟩)
  | .tls => image.tls.map (⟨"TLS Callbacks", tlsLines ·⟩)
  | .certificates => image.certificates.map (⟨"Certificates", certificateLines ·⟩)

theorem renderCategory_eq (image : Image) (withHashes : Bool) (c : Category) :
    image.renderCategory withHashes c = .ofResult (remnant c) (image.block withHashes c) := by
  cases c with
  | dos | pe | opt | sections => rfl
  | imports | exports | resources | debug | relocations | certificates =>
    exact Rendering.ofTable_eq ..
  | version | tls => exact Rendering.underHeading_eq ..

/-- The text of the block of a category; none when there is no block. -/
def wholeBlock (image : Image) (withHashes : Bool) (c : Category) : String :=
  match image.block withHashes c with
  | .ok b => b.text
  | .error _ => ""

/-- The whole blocks of some categories, one after the other. -/
def wholeBlocks (image : Image) (withHashes : Bool) (cs : List Category) : String :=
  String.join (cs.map (image.wholeBlock withHashes))

/-- What is written of some categories. -/
def written (image : Image) (withHashes : Bool) (cs : List Category) : String :=
  String.join (cs.map fun c => (image.renderCategory withHashes c).text)

/-- The line of diagnostics for a category; none when there is a block. -/
def faultLine? (image : Image) (path : Path) (withHashes : Bool) (c : Category) : Option String :=
  match image.block withHashes c with
  | .ok _ => none
  | .error fault =>
    some (Run.failureLine (Run.doing (.category c withHashes)) path (.malformed fault))

/-- The lines of diagnostics for some categories. -/
def faultLines (image : Image) (path : Path) (withHashes : Bool) (cs : List Category) :
    List String :=
  cs.filterMap (image.faultLine? path withHashes)

variable (image : Image) (path : Path) (withHashes : Bool)

theorem wholeBlock_eq_or (c : Category) :
    image.wholeBlock withHashes c = (image.renderCategory withHashes c).text ∨
      image.wholeBlock withHashes c = "" := by
  rw [renderCategory_eq, wholeBlock]
  cases image.block withHashes c with
  | ok b => exact .inl rfl
  | error fault => exact .inr rfl

theorem text_eq_wholeBlock_iff (c : Category) :
    (image.renderCategory withHashes c).text = image.wholeBlock withHashes c ↔
      (image.block withHashes c).isOk ∨ remnant c = "" := by
  rw [renderCategory_eq, wholeBlock]
  cases image.block withHashes c with
  | ok b => exact iff_of_true rfl (.inl rfl)
  | error fault => simp [Rendering.ofResult, Except.isOk, Except.toBool]

/-- The report consists of whole blocks exactly if the two tables that are read under their heading
can be read, as far as they are shown. -/
theorem written_eq_wholeBlocks_iff (cs : List Category) :
    image.written withHashes cs = image.wholeBlocks withHashes cs ↔
      (.version ∈ cs → image.versionInfo.isOk) ∧ (.tls ∈ cs → image.tls.isOk) := by
  rw [written, wholeBlocks, join_map_eq_iff (image.wholeBlock_eq_or withHashes)]
  simp only [text_eq_wholeBlock_iff, remnant_eq_empty_iff]
  have hversion : (image.block withHashes .version).isOk = image.versionInfo.isOk := by
    rw [block]
    cases image.versionInfo <;> rfl
  have htls : (image.block withHashes .tls).isOk = image.tls.isOk := by
    rw [block]
    cases image.tls <;> rfl
  constructor
  · intro h
    constructor
    · intro hmem
      simpa [hversion] using h _ hmem
    · intro hmem
      simpa [htls] using h _ hmem
  · rintro ⟨hv, ht⟩ c hc
    by_cases hcv : c = .version
    · subst hcv
      exact .inl (hversion ▸ hv hc)
    · by_cases hct : c = .tls
      · subst hct
        exact .inl (htls ▸ ht hc)
      · exact .inr ⟨hcv, hct⟩

end Image

/-! ## A run over categories -/

namespace Run

section

variable [Sniffer] {w : World} (image : Image) (path : Path) (withHashes : Bool)

/-- The target of an image in a world. -/
abbrev target (path : Path) (image : Image) : Target (StateM World) :=
  .ofImage World.host path image

theorem failureLine?_target (c : Category) :
    (target path image).failureLine? (.category c withHashes) =
      image.faultLine? path withHashes c := by
  have hrender : (target path image).render (.category c withHashes) =
      .ofResult (Image.remnant c) (image.block withHashes c) := image.renderCategory_eq withHashes c
  rw [Target.failureLine?, hrender, Image.faultLine?]
  cases image.block withHashes c <;> rfl

theorem run_showCategories (hw : w.IsOpen) (cs : List Category) :
    (showCategories World.host (target path image) withHashes cs).run.run w =
      (.ok (image.faultLines path withHashes cs).length,
        w.wrote (image.written withHashes cs).toUTF8
          (String.join (image.faultLines path withHashes cs)).toUTF8) := by
  rw [run_showCategories_target (Target.isInMemory_ofImage _ _ _) hw]
  simp only [failureLine?_target]
  rfl

/-- What a run over categories writes for an image, and when it is whole blocks only. -/
theorem showCategories_eq_whole_iff (hout : w.out.room = none) (herr : w.err.room = none)
    (set : CategorySet) :
    (showCategories World.host (target path image) withHashes set.toList).run.run w =
        (.ok (image.faultLines path withHashes set.toList).length,
          w.wrote (image.written withHashes set.toList).toUTF8
            (String.join (image.faultLines path withHashes set.toList)).toUTF8) ∧
      (image.written withHashes set.toList = image.wholeBlocks withHashes set.toList ↔
        (.version ∈ set → image.versionInfo.isOk) ∧ (.tls ∈ set → image.tls.isOk)) := by
  refine ⟨run_showCategories image path withHashes ⟨hout, herr⟩ set.toList, ?_⟩
  rw [image.written_eq_wholeBlocks_iff, CategorySet.mem_toList_iff, CategorySet.mem_toList_iff]

end

/-- An image without sections whose TLS directory lies at an address that is nowhere in the file. -/
def tlsNowhere : Bytes :=
  ⟨#[0x4D, 0x5A] ++ Array.replicate 58 0 ++ #[0x40, 0, 0, 0, 0x50, 0x45, 0, 0, 0x4C, 0x01] ++
    Array.replicate 14 0 ++ #[0xB0, 0, 0, 0, 0x0B, 0x01] ++ Array.replicate 90 0 ++
    #[0x0A, 0, 0, 0] ++ Array.replicate 72 0 ++ #[0, 0x90, 0, 0, 0x18, 0, 0, 0]⟩

theorem parse_tlsNowhere : ∃ image, Image.parse tlsNowhere {} = .ok image ∧
    image.tls.isOk = false ∧ image.versionInfo.isOk = true := by
  obtain ⟨image, hparse, hfound⟩ := exists_ok_of_any (x := Image.parse tlsNowhere {})
    (p := fun image => !image.tls.isOk && image.versionInfo.isOk) (by decide +kernel)
  exact ⟨image, hparse, by simpa using hfound⟩

/-- All categories but the TLS directory are shown in whole blocks. -/
theorem showCategories_eq_whole_iff_tlsNowhere :
    letI := Sniffer.programs
    ({} : World).out.room = none ∧ ({} : World).err.room = none ∧
    ∃ image, Image.parse tlsNowhere {} = .ok image ∧
      ((showCategories World.host (target "a.exe" image) false
        (CategorySet.toList ⟨(· != .tls)⟩)).run.run {}).2.out.written =
        (image.wholeBlocks false (CategorySet.toList ⟨(· != .tls)⟩)).toUTF8 := by
  let := Sniffer.programs
  obtain ⟨image, hparse, -, hversion⟩ := parse_tlsNowhere
  obtain ⟨hrun, hwhole⟩ := showCategories_eq_whole_iff image "a.exe" false (w := {}) rfl rfl
    ⟨(· != .tls)⟩
  have htls : Category.tls ∈ (⟨(· != .tls)⟩ : CategorySet) → image.tls.isOk := fun h =>
    absurd h (by decide)
  refine ⟨rfl, rfl, image, hparse, ?_⟩
  rw [hrun, ← hwhole.mpr ⟨fun _ => hversion, htls⟩]
  exact ByteArray.empty_append

/-- The heading of a TLS directory that cannot be read stands in the report alone. -/
theorem tls_heading_without_block :
    letI := Sniffer.programs
    ∃ image, Image.parse tlsNowhere {} = .ok image ∧
    ∃ w, (showCategories World.host (target "a.exe" image) false [.tls]).run.run {} = (.ok 1, w) ∧
      w.out.written = "TLS Callbacks\n=============\n".toUTF8 ∧
      image.wholeBlocks false [.tls] = "" := by
  let := Sniffer.programs
  obtain ⟨image, hparse, htls, -⟩ := parse_tlsNowhere
  have hblock : ∃ fault, image.block false .tls = .error fault := by
    rw [Image.block]
    cases h : image.tls with
    | ok table => simp [h, Except.isOk, Except.toBool] at htls
    | error fault => exact ⟨fault, rfl⟩
  obtain ⟨fault, hblock⟩ := hblock
  have hrun := run_showCategories image "a.exe" false (w := {}) ⟨rfl, rfl⟩ [.tls]
  have hlines : (image.faultLines "a.exe" false [.tls]).length = 1 := by
    simp [Image.faultLines, Image.faultLine?, hblock]
  have hwritten : image.written false [.tls] = heading "TLS Callbacks" := by
    simp [Image.written, Image.renderCategory_eq, hblock, Rendering.ofResult, Image.remnant]
  have hheading : heading "TLS Callbacks" = "TLS Callbacks\n=============\n" := by decide
  rw [hlines, hwritten, hheading] at hrun
  refine ⟨image, hparse, _, hrun, ByteArray.empty_append, ?_⟩
  simp [Image.wholeBlocks, Image.wholeBlock, hblock]

end Run

end ImageTriage
