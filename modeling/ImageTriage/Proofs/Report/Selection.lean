import ImageTriage.Proofs.Report.Views
import ImageTriage.Proofs.Text.Words

/-!
# Which categories are selected

The values of an option are lists of words, and each word selects one category, or all, or none.
What is selected depends on the words that select something and on nothing else
(`ofValues_eq_of_words`). So it does not matter how the words are spread over values, in which order
they come, whether they are repeated, or what other words stand between them.

`ofValues_is_set_of_words` puts this together, with what follows for a report: the categories of a
set are shown one after the other in the order of `Category.all`, each of them once.
-/

namespace ImageTriage.CategorySet

/-! ## Sets -/

theorem ext_mem {s t : CategorySet} (h : ∀ c, c ∈ s ↔ c ∈ t) : s = t := by
  obtain ⟨s⟩ := s
  obtain ⟨t⟩ := t
  exact congrArg mk (funext fun c => Bool.eq_iff_iff.2 (h c))

/-- The categories of either set. -/
instance : Union CategorySet where
  union s t := ⟨fun c => s.has c || t.has c⟩

@[simp] theorem mem_union_iff {c : Category} {s t : CategorySet} : c ∈ s ∪ t ↔ c ∈ s ∨ c ∈ t :=
  Bool.or_eq_true_iff

/-- The categories of a set come in the order of a report. -/
theorem pairwise_toList (s : CategorySet) :
    s.toList.Pairwise fun a b => Category.all.idxOf a < Category.all.idxOf b :=
  List.Pairwise.filter _ (by decide)

/-! ## Words -/

/-- A word of a value: what stands between blanks in a piece of it, in lower case. -/
def IsWord (word value : String) : Prop :=
  ∃ piece core, Text.IsPiece ',' piece value.toList ∧ Text.IsCore core piece ∧
    word = Text.lower (String.ofList core)

theorem mem_words_iff {word value : String} : word ∈ words value ↔ IsWord word value := by
  simp only [words, List.mem_map, IsWord, Text.mem_pieces_iff, Text.isCore_iff]
  constructor
  · rintro ⟨piece, hpiece, rfl⟩
    exact ⟨piece, _, hpiece, rfl, rfl⟩
  · rintro ⟨piece, core, hpiece, rfl, rfl⟩
    exact ⟨piece, hpiece, rfl⟩

theorem words_append_comma (l r : String) : words (l ++ "," ++ r) = words l ++ words r := by
  have htext : (l ++ "," ++ r).toList = l.toList ++ ',' :: r.toList := by simp
  rw [words, htext, Text.pieces_append_separator, List.map_append]
  rfl

/-! ## What the values select -/

variable {c : Category} {values others : List String}

theorem mem_ofValues_iff_isWord :
    c ∈ ofValues values ↔
      ∃ value ∈ values, ∃ word, IsWord word value ∧ (word = c.token ∨ word = "all") := by
  simp only [mem_ofValues_iff, mem_words_iff, wordAsks, allToken, Bool.or_eq_true, beq_iff_eq,
    Or.comm]

theorem ofValues_append (values others : List String) :
    ofValues (values ++ others) = ofValues values ∪ ofValues others := by
  refine ext_mem fun c => ?_
  rw [mem_union_iff, mem_ofValues_iff, mem_ofValues_iff, mem_ofValues_iff]
  simp only [List.mem_append, or_and_right, exists_or]

/-- What is selected depends on the words that ask for something. -/
theorem ofValues_eq_of_words (h : ∀ word c, wordAsks word c →
    (word ∈ others.flatMap words ↔ word ∈ values.flatMap words)) :
    ofValues others = ofValues values := by
  have hmem (vs : List String) (c : Category) :
      c ∈ ofValues vs ↔ ∃ word ∈ vs.flatMap words, wordAsks word c = true := List.any_eq_true
  refine ext_mem fun c => ?_
  rw [hmem, hmem]
  constructor
  · rintro ⟨word, hword, hasks⟩
    exact ⟨word, (h word c hasks).1 hword, hasks⟩
  · rintro ⟨word, hword, hasks⟩
    exact ⟨word, (h word c hasks).2 hword, hasks⟩

theorem ofValues_eq_of_mem_iff (h : ∀ value, value ∈ others ↔ value ∈ values) :
    ofValues others = ofValues values :=
  ofValues_eq_of_words fun word c _ => by simp only [List.mem_flatMap, h]

/-- A token that stands for no category. -/
def IsIdle (token : String) : Prop :=
  ∀ word, IsWord word token → word ≠ "all" ∧ ∀ c : Category, word ≠ c.token

theorem isIdle_iff {token : String} : IsIdle token ↔
    ∀ word ∈ words token, word ≠ "all" ∧ ∀ c ∈ Category.all, word ≠ c.token := by
  simp only [IsIdle, mem_words_iff, Category.mem_all, true_imp_iff]

/-- A token is added to values: as a value of its own, at the front or the back of a value, or
between two words. -/
inductive IsAdded (token : String) : List String → List String → Prop
  | alone (before after : List String) : IsAdded token (before ++ after) (before ++ token :: after)
  | front (before after : List String) (value : String) :
    IsAdded token (before ++ value :: after) (before ++ (token ++ "," ++ value) :: after)
  | back (before after : List String) (value : String) :
    IsAdded token (before ++ value :: after) (before ++ (value ++ "," ++ token) :: after)
  | between (before after : List String) (l r : String) :
    IsAdded token (before ++ (l ++ "," ++ r) :: after)
      (before ++ (l ++ "," ++ token ++ "," ++ r) :: after)

theorem IsAdded.mem_words_iff {token word : String} (h : IsAdded token values others) :
    word ∈ others.flatMap words ↔ word ∈ words token ∨ word ∈ values.flatMap words := by
  cases h <;>
    simp only [List.flatMap_append, List.flatMap_cons, words_append_comma, List.mem_append,
      or_assoc, or_left_comm]

theorem IsIdle.ofValues_eq {token : String} (htoken : IsIdle token)
    (h : IsAdded token values others) : ofValues others = ofValues values := by
  refine ofValues_eq_of_words fun word c hasks => ?_
  rw [h.mem_words_iff, or_iff_right]
  intro hword
  obtain ⟨hall, hcategory⟩ := htoken word (mem_words_iff.1 hword)
  simp only [wordAsks, allToken, Bool.or_eq_true, beq_iff_eq] at hasks
  exact hasks.elim hall (hcategory c)

theorem words_intercalate (h : values ≠ []) :
    words (String.intercalate "," values) = values.flatMap words := by
  induction values with
  | nil => contradiction
  | cons value rest ih =>
    cases rest with
    | nil => simp
    | cons second rest =>
      rw [String.intercalate_cons_cons, words_append_comma, ih (List.cons_ne_nil _ _)]
      exact List.flatMap_cons.symm

/-- It does not matter whether words are separated by commas or stand in values of their own. -/
theorem ofValues_intercalate (values : List String) :
    ofValues [String.intercalate "," values] = ofValues values := by
  by_cases h : values = []
  -- the one value is empty, and an empty word selects nothing
  · subst h
    have hempty : IsIdle "" := isIdle_iff.2 (by decide +kernel)
    exact hempty.ofValues_eq (.alone [] [])
  · refine ofValues_eq_of_words fun word c _ => ?_
    rw [List.flatMap_singleton, words_intercalate h]

/-! ## Showing what is selected -/

/-- Each category is shown once, in order, and those that fail are counted. -/
theorem showCategories_eq_mapM {m : Type → Type} [Monad m] [LawfulMonad m] (host : Host m)
    (target : Target m) (withHashes : Bool) (cs : List Category) :
    Run.showCategories host target withHashes cs = do
      let whole ← cs.mapM fun c => Run.showView host target (.category c withHashes)
      return whole.count false := by
  induction cs with
  | nil => simp [Run.showCategories]
  | cons c rest ih =>
    rw [Run.showCategories, ih, List.mapM_cons]
    simp only [bind_assoc, pure_bind]
    refine bind_congr fun whole => bind_congr fun others => ?_
    cases whole <;> simp [Nat.add_comm]

/-- The values of an option select the categories of their words, whatever the order and number of
the values, and whatever other words there are. The categories of a set are shown once each, in the
order of a report, whichever of them fail. -/
theorem ofValues_is_set_of_words (values : List String) :
    (∀ c, c ∈ ofValues values ↔
      ∃ value ∈ values, ∃ word, IsWord word value ∧ (word = c.token ∨ word = "all")) ∧
    (∀ others, ofValues (values ++ others) = ofValues values ∪ ofValues others) ∧
    (∀ others, (∀ value, value ∈ others ↔ value ∈ values) →
      ofValues others = ofValues values) ∧
    ofValues [String.intercalate "," values] = ofValues values ∧
    (∀ token others, IsIdle token → IsAdded token values others →
      ofValues others = ofValues values) ∧
    ∀ set : CategorySet,
      (∀ c, c ∈ set.toList ↔ c ∈ set) ∧
      (set.toList.Pairwise fun a b => Category.all.idxOf a < Category.all.idxOf b) ∧
      (∀ (m : Type → Type) [Monad m] [LawfulMonad m] (host : Host m) (target : Target m)
        (withHashes : Bool), Run.showCategories host target withHashes set.toList = do
          let whole ← set.toList.mapM fun c => Run.showView host target (.category c withHashes)
          return whole.count false) ∧
      ∀ (w : World) (target : Target (StateM World)) (withHashes : Bool), w.IsOpen →
        target.IsInMemory → (Run.showCategories World.host target withHashes set.toList).run.run w =
          (.ok (set.toList.filterMap fun c => target.failureLine? (.category c withHashes)).length,
            w.wrote
              (String.join (set.toList.map fun c =>
                (target.render (.category c withHashes)).text)).toUTF8
              (String.join (set.toList.filterMap fun c =>
                target.failureLine? (.category c withHashes))).toUTF8) := by
  refine ⟨fun c => mem_ofValues_iff_isWord, ofValues_append values,
    fun others => ofValues_eq_of_mem_iff, ofValues_intercalate values,
    fun token others htoken => htoken.ofValues_eq, fun set =>
      ⟨fun c => mem_toList_iff, set.pairwise_toList, fun m _ _ host target withHashes => ?_,
        fun w target withHashes hw htarget => ?_⟩⟩
  · exact showCategories_eq_mapM host target withHashes set.toList
  · exact Run.run_showCategories_target htarget hw withHashes set.toList

/-- A target whose views show their category, and whose TLS directory cannot be read. -/
def tlsless : Target (StateM World) where
  path := "a.exe"
  render
    | .category c _ => ⟨c.token ++ "\n", if c = .tls then some (.malformed .tlsDirectory) else none⟩
    | _ => ⟨"", none⟩
  extract _ := pure 0

theorem isInMemory_tlsless : tlsless.IsInMemory := by
  intro view reason hio
  cases view with
  | summary | hashes => cases hio
  | category c withHashes =>
    obtain ⟨-, hfailure⟩ := Option.ite_none_right_eq_some.1 hio
    cases hfailure

/-- Two categories that are asked for out of order, one of them twice, among words of no meaning. -/
theorem ofValues_is_set_of_words_two :
    IsIdle "headers" ∧ ({} : World).IsOpen ∧ tlsless.IsInMemory ∧
    (ofValues ["pe,,headers, tls", " TLS "]).toList = [.pe, .tls] ∧
    ofValues [" TLS ", "pe,, tls", " TLS "] = ofValues ["pe,, tls", " TLS "] ∧
    ∃ w, (Run.showCategories World.host tlsless false
        (ofValues ["pe,,headers, tls", " TLS "]).toList).run.run {} = (.ok 1, w) ∧
      w.out.written = "pe\ntls\n".toUTF8 := by
  have hidle : IsIdle "headers" := isIdle_iff.2 (by decide +kernel)
  obtain ⟨-, -, hsame, -, hadded, hset⟩ := ofValues_is_set_of_words ["pe,, tls", " TLS "]
  have hheaders : ofValues ["pe,,headers, tls", " TLS "] = ofValues ["pe,, tls", " TLS "] :=
    hadded "headers" _ hidle (.between [] [" TLS "] "pe," " tls")
  obtain ⟨-, -, -, hruns⟩ := hset (ofValues ["pe,, tls", " TLS "])
  have hrun := hruns {} tlsless false ⟨rfl, rfl⟩ isInMemory_tlsless
  have hlist : (ofValues ["pe,, tls", " TLS "]).toList = [.pe, .tls] := by decide +kernel
  rw [hlist] at hrun
  rw [hheaders, hlist]
  refine ⟨hidle, ⟨rfl, rfl⟩, isInMemory_tlsless, rfl, hsame _ (by simp), _, hrun, ?_⟩
  decide +kernel

end ImageTriage.CategorySet
