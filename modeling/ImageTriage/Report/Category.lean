import ImageTriage.Text.Blank
import ImageTriage.Text.Case
import ImageTriage.Text.Pieces

/-!
# Categories of a report

A report shows one category of information per block. Which ones are wanted is given in words, and
`CategorySet.ofValues` reads them: each value is a list of words with commas between them, blanks
around a word and capital letters do not matter, `all` stands for every category, and words that
name no category are passed over. Whatever the order of the words, the categories of a set come in
the order of `Category.all`.
-/

namespace ImageTriage

/-- What one block of a report shows. -/
inductive Category where
  | dos
  | pe
  | opt
  | sections
  | imports
  | exports
  | resources
  | version
  | debug
  | relocations
  | tls
  | certificates
  deriving DecidableEq, Repr

namespace Category

/-- All categories, in the order of a report. -/
def all : List Category :=
  [dos, pe, opt, sections, imports, exports, resources, version, debug, relocations, tls,
    certificates]

theorem mem_all (c : Category) : c ∈ all := by cases c <;> decide

theorem nodup_all : all.Nodup := by decide

/-- The word for a category. -/
def token : Category → String
  | dos => "dos"
  | pe => "pe"
  | opt => "opt"
  | sections => "sections"
  | imports => "imports"
  | exports => "exports"
  | resources => "resources"
  | version => "version"
  | debug => "debug"
  | relocations => "relocations"
  | tls => "tls"
  | certificates => "certificates"

/-- The category of a word. -/
def ofToken? (word : String) : Option Category := all.find? (·.token == word)

theorem ofToken?_token (c : Category) : ofToken? c.token = some c := by cases c <;> decide

/-- What is said of a word that names no category. -/
def unknown (word : String) : String := "unknown dump category: " ++ word

end Category

/-- A set of categories. -/
structure CategorySet where
  has : Category → Bool

namespace CategorySet

instance : Membership Category CategorySet where
  mem s c := s.has c = true

instance (c : Category) (s : CategorySet) : Decidable (c ∈ s) :=
  inferInstanceAs (Decidable (s.has c = true))

/-- The set of no category. -/
def empty : CategorySet := ⟨fun _ => false⟩

/-- The set of every category. -/
def full : CategorySet := ⟨fun _ => true⟩

/-- The categories of a set, in the order of a report. -/
def toList (s : CategorySet) : List Category := Category.all.filter s.has

@[simp] theorem mem_toList_iff {c : Category} {s : CategorySet} : c ∈ s.toList ↔ c ∈ s := by
  simp only [toList, List.mem_filter, Category.mem_all, true_and]
  rfl

theorem nodup_toList (s : CategorySet) : s.toList.Nodup := Category.nodup_all.filter _

/-- The word for all categories. -/
def allToken : String := "all"

/-- Whether a word asks for a category. -/
def wordAsks (word : String) (c : Category) : Bool := word == allToken || word == c.token

/-- The words of a value. -/
def words (value : String) : List String :=
  (Text.pieces ',' value.toList).map fun piece => Text.lower (String.ofList (Text.trim piece))

/-- The categories that the values ask for. -/
def ofValues (values : List String) : CategorySet :=
  ⟨fun c => (values.flatMap words).any (wordAsks · c)⟩

theorem mem_ofValues_iff {c : Category} {values : List String} :
    c ∈ ofValues values ↔ ∃ v ∈ values, ∃ w ∈ words v, wordAsks w c := by
  change (values.flatMap words).any (wordAsks · c) = true ↔ _
  simp

end CategorySet

end ImageTriage
