import ImageTriage.Proofs.Report.Shown

/-!
# What an image can add to a report

When every category can be shown, a report has the titles of its categories in order, each once, and
those that a line with line feeds adds (`titles_of_report`). Line feeds come from the texts of the
image alone (`block_shows`). A section named with a rule after a line feed adds a title
(`section_name_adds_title`).
-/

namespace ImageTriage

open Text (OneLine)

/-! ## The texts of an image -/

/-- The signature and the GUID of a CodeView record are made here. -/
theorem CodeView.oneLine_of_parse? {b : Bytes} {cv : CodeView} (h : CodeView.parse? b = some cv) :
    OneLine cv.signature ∧ OneLine cv.guid := by
  have hguid : ∀ b, OneLine (guidText b) := by
    intro b
    simp +decide [guidText]
  have hrsds : OneLine "RSDS" := by decide
  have hnb10 : OneLine "NB10" := by decide
  rw [CodeView.parse?] at h
  obtain ⟨signature, -, h⟩ := Option.bind_eq_some_iff.1 h
  split at h
  · obtain ⟨guid, -, h⟩ := Option.bind_eq_some_iff.1 h
    obtain ⟨age, -, h⟩ := Option.bind_eq_some_iff.1 h
    obtain ⟨path, -, h⟩ := Option.bind_eq_some_iff.1 h
    cases h
    exact ⟨hrsds, hguid guid⟩
  · split at h
    · obtain ⟨stamp, -, h⟩ := Option.bind_eq_some_iff.1 h
      obtain ⟨age, -, h⟩ := Option.bind_eq_some_iff.1 h
      obtain ⟨path, -, h⟩ := Option.bind_eq_some_iff.1 h
      cases h
      exact ⟨hnb10, Text.oneLine_hexUpper _ _⟩
    · cases h

theorem DebugEntry.oneLine_of_parseAll {m : MappedFile} {dir : DataDirectory} {es : List DebugEntry}
    (h : DebugEntry.parseAll m dir = .ok es) :
    ∀ e ∈ es, ∀ cv, e.codeView = some cv → OneLine cv.signature ∧ OneLine cv.guid := by
  intro e he cv hcv
  rw [DebugEntry.parseAll] at h
  split at h
  · cases h
    cases he
  · obtain ⟨start, -, h⟩ := bind_eq_ok_iff.1 h
    obtain ⟨k, -, hread⟩ := exists_of_mem_mapM h he
    obtain ⟨raw, -, hread⟩ := bind_eq_ok_iff.1 hread
    cases hread
    obtain ⟨-, -, hcv⟩ := Option.bind_eq_some_iff.1 hcv
    obtain ⟨start, -, hcv⟩ := Option.bind_eq_some_iff.1 hcv
    obtain ⟨data, -, hcv⟩ := Option.bind_eq_some_iff.1 hcv
    exact CodeView.oneLine_of_parse? hcv

/-- The title of the block of a category. -/
def Category.title : Category → String
  | .dos => "DOS Header"
  | .pe => "PE Header"
  | .opt => "Image Optional Header"
  | .sections => "Sections"
  | .imports => "Imports"
  | .exports => "Exports"
  | .resources => "Resources"
  | .version => "Version Info"
  | .debug => "Debug Info"
  | .relocations => "Relocations"
  | .tls => "TLS Callbacks"
  | .certificates => "Certificates"

namespace Image

open Report

/-- The texts that the image brings into the block of a category. -/
def texts (image : Image) : Category → List String
  | .sections => sectionTexts image.sections.headers
  | .imports => (image.imports.toOption.map importTexts).getD []
  | .exports => (image.exports.toOption.map exportTexts).getD []
  | .resources => (image.resources.toOption.map resourceTexts).getD []
  | .version => (image.versionInfo.toOption.map versionTexts).getD []
  | .debug => (image.debugEntries.toOption.map debugTexts).getD []
  | .dos | .pe | .opt | .relocations | .tls | .certificates => []

variable [Sniffer] {image : Image} {withHashes : Bool} {c : Category} {b : Block}

/-- The lines of the block of a category; none when there is no block. -/
def blockLines (image : Image) (withHashes : Bool) (c : Category) : List String :=
  match image.block withHashes c with
  | .ok b => b.lines
  | .error _ => []

variable (htypes : Content.HasLines Content.detect?)
include htypes

/-- The block of a category has its title, and line feeds in its lines only from the texts. -/
theorem block_shows (h : image.block withHashes c = .ok b) :
    b.title = c.title ∧ Show (image.texts c) b.lines := by
  cases c with
  | dos =>
    cases h
    exact ⟨rfl, show_dosHeader image⟩
  | pe =>
    cases h
    exact ⟨rfl, show_coffHeader image⟩
  | opt =>
    cases h
    exact ⟨rfl, show_optionalHeader image⟩
  | sections =>
    cases h
    exact ⟨rfl, show_sections image⟩
  | imports =>
    obtain ⟨t, ht, rfl⟩ := map_eq_ok_iff.1 h
    rw [texts, ht]
    exact ⟨rfl, show_importLines t⟩
  | exports =>
    obtain ⟨t, ht, rfl⟩ := map_eq_ok_iff.1 h
    rw [texts, ht]
    exact ⟨rfl, show_exportLines t⟩
  | resources =>
    obtain ⟨rs, hrs, rfl⟩ := map_eq_ok_iff.1 h
    rw [texts, hrs]
    exact ⟨rfl, show_resourceLines image withHashes htypes rs⟩
  | version =>
    obtain ⟨info, hinfo, rfl⟩ := map_eq_ok_iff.1 h
    rw [texts, hinfo]
    exact ⟨rfl, show_versionLines info⟩
  | debug =>
    obtain ⟨es, hes, rfl⟩ := map_eq_ok_iff.1 h
    rw [texts, hes]
    exact ⟨rfl, show_debugLines (DebugEntry.oneLine_of_parseAll hes)⟩
  | relocations =>
    obtain ⟨bs, -, rfl⟩ := map_eq_ok_iff.1 h
    exact ⟨rfl, show_relocationLines bs⟩
  | tls =>
    obtain ⟨t, -, rfl⟩ := map_eq_ok_iff.1 h
    exact ⟨rfl, show_tlsLines t⟩
  | certificates =>
    obtain ⟨cs, -, rfl⟩ := map_eq_ok_iff.1 h
    exact ⟨rfl, show_certificateLines cs⟩

theorem isRegular_block (h : image.block withHashes c = .ok b) : b.IsRegular := by
  obtain ⟨htitle, hlines⟩ := block_shows htypes h
  refine ⟨?_, ?_, ?_, fun line hline => (hlines line hline).indented⟩
  all_goals
    rw [htitle]
    cases c <;> decide

theorem block_eq_ok (hread : image.tableFault? c = none) :
    image.block withHashes c = .ok ⟨c.title, image.blockLines withHashes c⟩ := by
  have hfault := image.faultIn?_block withHashes c
  rw [hread] at hfault
  cases hblock : image.block withHashes c with
  | ok b =>
    obtain ⟨htitle, -⟩ := block_shows htypes hblock
    rw [blockLines, hblock, ← htitle]
  | error fault =>
    rw [hblock] at hfault
    cases hfault

/-- The titles in the blocks of some categories: their own, and what is in a line of theirs. -/
theorem titlesIn_written {cs : List Category} (hread : ∀ c ∈ cs, image.tableFault? c = none) :
    titlesIn (image.written withHashes cs) =
      cs.flatMap fun c => c.title :: (image.blockLines withHashes c).flatMap titlesIn := by
  let shown (c : Category) : Block := ⟨c.title, image.blockLines withHashes c⟩
  have hblock : ∀ c ∈ cs, image.block withHashes c = .ok (shown c) := fun c hc =>
    block_eq_ok htypes (hread c hc)
  have hwritten : image.written withHashes cs = String.join ((cs.map shown).map Block.text) := by
    rw [written, List.map_map]
    congr 1
    refine List.map_congr_left fun c hc => ?_
    rw [renderCategory_eq, hblock c hc]
    rfl
  have hregular : ∀ b ∈ cs.map shown, b.IsRegular := by
    intro b hb
    obtain ⟨c, hc, rfl⟩ := List.mem_map.1 hb
    exact isRegular_block htypes (hblock c hc)
  rw [hwritten, titlesIn_join hregular, List.flatMap_map]

/-- Nothing is added where no text has a line feed. -/
theorem titlesIn_blockLines (htexts : ∀ s ∈ image.texts c, OneLine s) :
    ∀ line ∈ image.blockLines withHashes c, titlesIn line = [] := by
  intro line hline
  rw [blockLines] at hline
  cases hblock : image.block withHashes c with
  | ok b =>
    rw [hblock] at hline
    exact titlesIn_of_oneLine (((block_shows htypes hblock).2 line hline).oneLine htexts)
  | error fault =>
    rw [hblock] at hline
    cases hline

end Image

namespace Run

open Report

/-- A list in which each element is followed by some others is the list of the elements only if
nothing follows them. -/
theorem flatMap_cons_eq_map_iff {α β : Type} {f : α → β} {g : α → List β} {as : List α} :
    as.flatMap (fun a => f a :: g a) = as.map f ↔ ∀ a ∈ as, g a = [] := by
  have hlength : ∀ as : List α, as.length ≤ (as.flatMap fun a => f a :: g a).length := by
    intro as
    induction as with
    | nil => exact Nat.le_refl 0
    | cons a as ih =>
      simp only [List.flatMap_cons, List.length_append, List.length_cons]
      omega
  induction as with
  | nil => simp
  | cons a as ih =>
    rw [List.flatMap_cons, List.map_cons, List.cons_append, List.cons.injEq, List.forall_mem_cons]
    constructor
    · rintro ⟨-, h⟩
      -- what follows is as long as the elements, so that no room is left behind `a`
      have hsame := congrArg List.length h
      have hle := hlength as
      rw [List.length_append, List.length_map] at hsame
      have ha : g a = [] := List.length_eq_zero_iff.1 (by omega)
      rw [ha, List.nil_append] at h
      exact ⟨ha, ih.1 h⟩
    · rintro ⟨ha, has⟩
      rw [ha, List.nil_append]
      exact ⟨rfl, ih.2 has⟩

section

variable [Sniffer] {w : World} (image : Image) (path : Path) (withHashes : Bool)

/-- The titles in a report whose categories can all be shown: those of the categories, each followed
by the titles that its lines add. There are no others exactly if no line of a block, cut at its line
feeds, has a rule after its first part; and there are none where the texts of the image have no line
feeds. -/
theorem titles_of_report (htypes : Content.HasLines Content.detect?) (hw : w.IsOpen)
    (set : CategorySet)
    (hread : ∀ c ∈ set, image.tableFault? c = none) :
    ∃ report : String,
      (showCategories World.host (target path image) withHashes set.toList).run.run w =
        (.ok 0, w.wrote report.toUTF8 .empty) ∧
      titlesIn report = set.toList.flatMap (fun c =>
        c.title :: (image.blockLines withHashes c).flatMap titlesIn) ∧
      (titlesIn report = set.toList.map Category.title ↔
        ∀ c ∈ set, ∀ line ∈ image.blockLines withHashes c,
          ∀ part ∈ (Text.lines line).tail, ¬ IsRule part) ∧
      ((∀ c ∈ set, ∀ s ∈ image.texts c, OneLine s) →
        titlesIn report = set.toList.map Category.title) := by
  have hlist : ∀ c ∈ set.toList, image.tableFault? c = none := fun c hc =>
    hread c (CategorySet.mem_toList_iff.1 hc)
  have hfaults : image.faultLines path withHashes set.toList = [] := by
    rw [image.faultLines_eq, Image.faultMessages, List.filterMap_eq_nil_iff]
    intro c hc
    rw [hlist c hc, Option.map_none]
  have htitles : titlesIn (image.written withHashes set.toList) = _ :=
    Image.titlesIn_written htypes hlist
  have hiff : titlesIn (image.written withHashes set.toList) = set.toList.map Category.title ↔
      ∀ c ∈ set, ∀ line ∈ image.blockLines withHashes c, titlesIn line = [] := by
    rw [htitles, flatMap_cons_eq_map_iff]
    simp only [CategorySet.mem_toList_iff, List.flatMap_eq_nil_iff]
  refine ⟨image.written withHashes set.toList, ?_, htitles, ?_, ?_⟩
  · have hrun := run_showCategories image path withHashes hw set.toList
    rw [hfaults] at hrun
    exact hrun
  · rw [hiff]
    simp only [titlesIn, titles_eq_nil_iff]
  · intro htexts
    exact hiff.2 fun c hc => Image.titlesIn_blockLines htypes (htexts c hc)

end

/-- An image with one section, of the given eight bytes of name, and without tables. -/
def oneSection (name : Array UInt8) : Bytes :=
  ⟨#[0x4D, 0x5A] ++ Array.replicate 58 0 ++ #[0x40, 0, 0, 0, 0x50, 0x45, 0, 0, 0x4C, 0x01, 1, 0] ++
    Array.replicate 12 0 ++ #[0x60, 0, 0, 0, 0x0B, 0x01] ++ Array.replicate 94 0 ++ name ++
    #[0, 0, 0, 0, 0, 0x10, 0, 0, 0, 0, 0, 0, 0xE0, 0, 0, 0] ++ Array.replicate 16 0⟩

/-- A report of all categories on an image whose section is called `.text`. -/
theorem titles_of_report_text :
    letI := Sniffer.programs
    Content.HasLines Content.detect? ∧ ({} : World).IsOpen ∧ ∃ image,
      Image.parse (oneSection #[46, 116, 101, 120, 116, 0, 0, 0]) {} = .ok image ∧
      image.texts .sections = [".text"] ∧ (∀ c, image.tableFault? c = none) ∧
      ∃ report : String,
        ((showCategories World.host (target "a.exe" image) true
          CategorySet.full.toList).run.run {}).2.out.written = report.toUTF8 ∧
        titlesIn report = Category.all.map Category.title := by
  let := Sniffer.programs
  obtain ⟨image, hparse, hfound⟩ := exists_ok_of_any
    (x := Image.parse (oneSection #[46, 116, 101, 120, 116, 0, 0, 0]) {})
    (p := fun image => decide (image.texts .sections = [".text"] ∧
      ∀ c ∈ Category.all, image.tableFault? c = none ∧ ∀ s ∈ image.texts c, OneLine s))
    (by decide +kernel)
  obtain ⟨hname, hall⟩ := of_decide_eq_true hfound
  have hopen : ({} : World).IsOpen := ⟨rfl, rfl⟩
  obtain ⟨report, hrun, -, -, htitles⟩ := titles_of_report image "a.exe" true
    Sniffer.hasLines_programs hopen .full fun c _ => (hall c c.mem_all).1
  refine ⟨Sniffer.hasLines_programs, hopen, image, hparse, hname,
    fun c => (hall c c.mem_all).1, report, ?_,
    htitles fun c _ => (hall c c.mem_all).2⟩
  rw [hrun]
  exact ByteArray.empty_append

theorem titlesIn_sectionLines (file : Bytes) (h : SectionHeader) :
    (sectionLines file h).flatMap titlesIn = titlesIn (item h.name) := by
  have hrest : (sectionLines file h).tail.flatMap titlesIn = [] :=
    List.flatMap_eq_nil_iff.2 fun line hline =>
      titlesIn_of_oneLine ((show_sectionLines_tail [] file h line hline).oneLine (by simp))
  rw [sectionLines_eq_cons, List.flatMap_cons, hrest, List.append_nil]

/-- The name of the section is `A`, a line feed and a rule. A reader finds a block of that title. -/
theorem section_name_adds_title :
    letI := Sniffer.programs
    ∃ image, Image.parse (oneSection #[65, 10, 61, 0, 0, 0, 0, 0]) {} = .ok image ∧
      image.tableFault? .sections = none ∧
      ∃ report : String,
        (showCategories World.host (target "a.exe" image) false [.sections]).run.run {} =
          (.ok 0, ({} : World).wrote report.toUTF8 .empty) ∧
        titlesIn report = ["Sections", "  A"] := by
  let := Sniffer.programs
  obtain ⟨image, hparse, hnames⟩ := exists_ok_of_any
    (x := Image.parse (oneSection #[65, 10, 61, 0, 0, 0, 0, 0]) {})
    (p := fun image => image.sections.headers.map SectionHeader.name == ["A\n="])
    (by decide +kernel)
  have hlines : (image.blockLines false .sections).flatMap titlesIn = ["  A"] := by
    have hblock : image.blockLines false .sections =
        image.sections.headers.flatMap (sectionLines image.data) := rfl
    have hnamed : image.sections.headers.flatMap (fun h => titlesIn (item h.name)) =
        (image.sections.headers.map SectionHeader.name).flatMap fun name => titlesIn (item name) :=
      (List.flatMap_map SectionHeader.name (fun name => titlesIn (item name)) _).symm
    rw [hblock, List.flatMap_assoc]
    simp only [titlesIn_sectionLines]
    rw [hnamed, beq_iff_eq.1 hnames]
    decide
  have htitles : titlesIn (image.written false [.sections]) = _ :=
    Image.titlesIn_written Sniffer.hasLines_programs (by simp [Image.tableFault?])
  rw [List.flatMap_singleton, hlines] at htitles
  exact ⟨image, hparse, rfl, _, run_showCategories image "a.exe" false ⟨rfl, rfl⟩ [.sections],
    htitles⟩

end Run

end ImageTriage
