import ImageTriage.Proofs.Report.Blocks

/-!
# The account of faults

Four categories show headers, which an image that was read has, and eight show a table. What reading
the table answers decides what becomes of the category: `tableFault?` is the fault in that answer,
and rendering neither swallows nor adds one (`failure?_renderCategory`).

So a run over categories counts the tables among them that cannot be read, and tells of each once,
in order and in the words of its own fault (`faults_accounted`). The summary and the digests say of
a table that it cannot be read, or pass over it, and are shown whole.
-/

namespace ImageTriage

/-- The fault in an answer, when it is one. -/
def faultIn? {α : Type} : Except Fault α → Option Fault
  | .ok _ => none
  | .error fault => some fault

@[simp] theorem faultIn?_map {α β : Type} (f : α → β) (answer : Except Fault α) :
    faultIn? (answer.map f) = faultIn? answer := by
  cases answer <;> rfl

namespace Image

/-- The fault in the table of a category. The categories of the headers have no table. -/
def tableFault? (image : Image) : Category → Option Fault
  | .dos | .pe | .opt | .sections => none
  | .imports => faultIn? image.imports
  | .exports => faultIn? image.exports
  | .resources => faultIn? image.resources
  | .version => faultIn? image.versionInfo
  | .debug => faultIn? image.debugEntries
  | .relocations => faultIn? image.relocations
  | .tls => faultIn? image.tls
  | .certificates => faultIn? image.certificates

/-- What is told of a fault in the table of a category. -/
def faultMessage (path : Path) (c : Category) (fault : Fault) : String :=
  "[!] Error: Could not dump " ++ c.token ++ " of " ++ path ++ " (" ++ fault.message ++ ").\n"

/-- What is told of the tables of some categories, those that cannot be read. -/
def faultMessages (image : Image) (path : Path) (cs : List Category) : List String :=
  cs.filterMap fun c => (image.tableFault? c).map (faultMessage path c)

theorem length_faultMessages (image : Image) (path : Path) (cs : List Category) :
    (image.faultMessages path cs).length = cs.countP fun c => (image.tableFault? c).isSome := by
  rw [faultMessages, List.length_filterMap_eq_countP]
  simp only [Option.isSome_map]

theorem failureLine_eq (path : Path) (withHashes : Bool) (c : Category) (fault : Fault) :
    Run.failureLine (Run.doing (.category c withHashes)) path (.malformed fault) =
      faultMessage path c fault := by
  have hdump : "[!] Error: Could not dump " = "[!] Error: Could not " ++ "dump " := by decide
  have hof : " of " = " of" ++ " " := by decide
  change "[!] Error: Could not " ++ ("dump " ++ c.token ++ " of") ++ " " ++ path ++ " ("
    ++ fault.message ++ ").\n" = _
  unfold faultMessage
  rw [hdump, hof]
  simp only [String.append_assoc]

variable [Sniffer] (image : Image) (path : Path) (withHashes : Bool)

theorem faultIn?_block (c : Category) :
    faultIn? (image.block withHashes c) = image.tableFault? c := by
  cases c with
  | dos | pe | opt | sections => rfl
  | imports | exports | resources | version | debug | relocations | tls | certificates =>
    exact faultIn?_map _ _

/-- Rendering a category has the fault of its table and no other. -/
theorem failure?_renderCategory (c : Category) :
    (image.renderCategory withHashes c).failure? =
      (image.tableFault? c).map Failure.malformed := by
  rw [renderCategory_eq, ← image.faultIn?_block withHashes c]
  cases image.block withHashes c <;> rfl

theorem faultLine?_eq (c : Category) :
    image.faultLine? path withHashes c = (image.tableFault? c).map (faultMessage path c) := by
  rw [faultLine?, ← image.faultIn?_block withHashes c]
  cases image.block withHashes c with
  | ok b => exact rfl
  | error fault => exact congrArg some (failureLine_eq path withHashes c fault)

theorem faultLines_eq (cs : List Category) :
    image.faultLines path withHashes cs = image.faultMessages path cs :=
  congrArg (List.filterMap · cs) (funext (image.faultLine?_eq path withHashes))

end Image

namespace Run

open Report

section

variable [Sniffer] {w : World} (image : Image) (path : Path) (withHashes : Bool)

/-- A view that does not fail is shown, and nothing is told. -/
theorem run_showView_whole (hw : w.IsOpen) {view : View} {text : String}
    (h : image.render view = ⟨text, none⟩) :
    (showView World.host (target path image) view).run.run w =
      (.ok true, w.wrote text.toUTF8 .empty) := by
  have hrender : (target path image).render view = ⟨text, none⟩ := h
  have hline : (target path image).failureLine? view = none := by
    rw [Target.failureLine?, hrender]
    rfl
  rw [run_showView_target (Target.isInMemory_ofImage _ _ _) hw, hline, hrender]
  rfl

/-- A run over categories counts the tables that cannot be read, and tells of each of them once, in
order. The headers, the summary and the digests are shown whatever is wrong with the tables. -/
theorem faults_accounted (hw : w.IsOpen) (set : CategorySet) :
    (∃ out, (showCategories World.host (target path image) withHashes set.toList).run.run w =
      (.ok (set.toList.countP fun c => (image.tableFault? c).isSome),
        w.wrote out (String.join (image.faultMessages path set.toList)).toUTF8)) ∧
    (∀ c ∈ [Category.dos, .pe, .opt, .sections], ∃ out,
      (showView World.host (target path image) (.category c withHashes)).run.run w =
        (.ok true, w.wrote out .empty)) ∧
    (showView World.host (target path image) .summary).run.run w =
      (.ok true, w.wrote (summary image).text.toUTF8 .empty) ∧
    (showView World.host (target path image) .hashes).run.run w =
      (.ok true, w.wrote (hashes image).text.toUTF8 .empty) := by
  refine ⟨?_, ?_, ?_, ?_⟩
  · have hrun := run_showCategories image path withHashes hw set.toList
    rw [image.faultLines_eq, image.length_faultMessages] at hrun
    exact ⟨_, hrun⟩
  · intro c hc
    have hheader : image.tableFault? c = none := by
      simp only [List.mem_cons, List.not_mem_nil, or_false] at hc
      rcases hc with rfl | rfl | rfl | rfl <;> rfl
    have hview : image.render (.category c withHashes) =
        ⟨(image.renderCategory withHashes c).text, none⟩ := by
      have hfailure := image.failure?_renderCategory withHashes c
      rw [hheader, Option.map_none] at hfailure
      rw [← hfailure]
      rfl
    exact ⟨_, run_showView_whole image path hw hview⟩
  · exact run_showView_whole image path hw rfl
  · exact run_showView_whole image path hw rfl

end

/-- An image without sections whose directories, ten of them, lie where nothing is. -/
def allNowhere : Bytes :=
  ⟨#[0x4D, 0x5A] ++ Array.replicate 58 0 ++ #[0x40, 0, 0, 0, 0x50, 0x45, 0, 0, 0x4C, 0x01] ++
    Array.replicate 14 0 ++ #[0xB0, 0, 0, 0, 0x0B, 0x01] ++ Array.replicate 90 0 ++
    #[0x0A, 0, 0, 0] ++ (Array.replicate 10 #[0, 0x90, 0, 0, 0x18, 0, 0, 0]).flatten⟩

/-- No table of the image can be read, and its summary is shown all the same. -/
theorem faults_accounted_allNowhere :
    letI := Sniffer.programs
    ({} : World).IsOpen ∧ ∃ image, Image.parse allNowhere {} = .ok image ∧
      (∃ w, (showCategories World.host (target "a.exe" image) false
        CategorySet.full.toList).run.run {} = (.ok 8, w)) ∧
      ∃ w, (showView World.host (target "a.exe" image) .summary).run.run {} = (.ok true, w) := by
  let := Sniffer.programs
  obtain ⟨image, hparse, hcount⟩ := exists_ok_of_any (x := Image.parse allNowhere {})
    (p := fun image => CategorySet.full.toList.countP (fun c => (image.tableFault? c).isSome) == 8)
    (by decide +kernel)
  have hopen : ({} : World).IsOpen := ⟨rfl, rfl⟩
  obtain ⟨⟨out, hrun⟩, -, hsummary, -⟩ := faults_accounted image "a.exe" false hopen .full
  rw [beq_iff_eq.1 hcount] at hrun
  exact ⟨hopen, image, hparse, ⟨_, hrun⟩, _, hsummary⟩

end Run

end ImageTriage
