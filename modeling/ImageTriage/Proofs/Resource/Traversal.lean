import Mathlib.Logic.Relation
import ImageTriage.Proofs.Resource.Chains

/-!
# The resource tree, visited in order

A `ResourceTraversal` visits the tree without recursion: it keeps the places that are ahead of it,
and reading the first of them puts what that place leads to in its stead. It knows no depth, so it
goes around for ever where a directory contains itself. `Leads` says that it gets from one state to
another. It gets neither past a malformed record nor past a place where it is told to stop.

A walk down a bounded number of levels is a finite stretch of the traversal, from a directory up to
the first of four events: all that belongs to the directory is done, an entry is met when enough
resources are found, a directory is met at the end of too long a chain, or a record is malformed
(`Outcome`, `walk_outcome`). The traversal is deterministic, so the walk gives up for depth exactly
if the traversal meets a directory at that depth before one of the other events
(`walk_eq_tooDeep_iff`).
-/

namespace ImageTriage

/-- A place in the resource tree, with the identifiers that lead there. -/
inductive ResourcePlace where
  | directory (i : Nat) (chain : List ResourceId)
  /-- An entry, with the identifiers that lead to its directory. -/
  | entry (i : Nat) (chain : List ResourceId)
  | leaf (i : Nat) (chain : List ResourceId)

/-- A traversal of the tree: the places ahead, in order, and the resources that were found. -/
structure ResourceTraversal where
  ahead : List ResourcePlace
  found : Array Resource

namespace ResourcePlace

variable {m : MappedFile} {base : Nat} {place : ResourcePlace} {rest : List ResourcePlace}
  {found : Array Resource} {fault : Fault}

/-- `n` entries from offset `i` on. -/
def entries (chain : List ResourceId) : Nat → Nat → List ResourcePlace
  | 0, _ => []
  | n + 1, i => entry i chain :: entries chain n (i + 8)

/-- What an entry with this word refers to: a directory when the high bit is set, else a leaf. -/
def referred (base : Nat) (chain : List ResourceId) (word : Nat) : ResourcePlace :=
  if 2 ^ 31 ≤ word then directory (base + (word - 2 ^ 31)) chain else leaf (base + word) chain

/-- Goes on from a place that has others behind it, unless what is there is malformed. -/
def next? (m : MappedFile) (base : Nat) (rest : List ResourcePlace) (found : Array Resource) :
    ResourcePlace → Option ResourceTraversal
  | directory i chain => do
    let n ← Resource.entryCount? m.file i
    return ⟨entries chain n (Resource.entryPlace i 0) ++ rest, found⟩
  | entry i chain => do
    let (id, word) ← Resource.entryAt? m.file base i
    return ⟨referred base (chain ++ [id]) word :: rest, found⟩
  | leaf i chain => do
    let r ← Resource.leafAt? m i chain
    return ⟨rest, found.push r⟩

/-- An entry is not read when `limit` resources are found. -/
def IsFull (limit : Nat) (place : ResourcePlace) (found : Array Resource) : Prop :=
  match place with
  | entry _ _ => limit ≤ found.size
  | directory _ _ | leaf _ _ => False

/-- A directory is not read when `depth` identifiers or more lead to it. -/
def IsTooDeep (depth : Nat) : ResourcePlace → Prop
  | directory _ chain => depth ≤ chain.length
  | entry _ _ | leaf _ _ => False

/-- What makes a walk stop. -/
def IsStop (depth limit : Nat) (place : ResourcePlace) (found : Array Resource) : Prop :=
  place.IsFull limit found ∨ place.IsTooDeep depth

variable {depth limit i : Nat} {chain : List ResourceId}

theorem isStop_directory_iff :
    (directory i chain).IsStop depth limit found ↔ depth ≤ chain.length :=
  ⟨fun h => h.elim False.elim id, .inr⟩

theorem isStop_entry_iff : (entry i chain).IsStop depth limit found ↔ limit ≤ found.size :=
  ⟨fun h => h.elim id False.elim, .inl⟩

theorem not_isStop_leaf : ¬ (leaf i chain).IsStop depth limit found :=
  fun h => h.elim id id

end ResourcePlace

namespace ResourceTraversal

open ResourcePlace Relation

variable {m : MappedFile} {base depth limit levels n i : Nat} {path : List ResourceId}
  {stop stop' : ResourcePlace → Array Resource → Prop} {place : ResourcePlace}
  {rest : List ResourcePlace} {found : Array Resource} {s t u : ResourceTraversal}
  {x : Except Fault (Array Resource)} {fault : Fault} {descend : Resource.Descent}

/-! ## Stretches of the traversal -/

/-- One place is read. -/
inductive Step (m : MappedFile) (base : Nat) (stop : ResourcePlace → Array Resource → Prop) :
    ResourceTraversal → ResourceTraversal → Prop
  | read {place : ResourcePlace} {rest : List ResourcePlace} {found : Array Resource}
      {t : ResourceTraversal} (hgo : ¬ stop place found)
      (hread : place.next? m base rest found = some t) : Step m base stop ⟨place :: rest, found⟩ t

/-- The traversal gets from one state to another. -/
def Leads (m : MappedFile) (base : Nat) (stop : ResourcePlace → Array Resource → Prop) :
    ResourceTraversal → ResourceTraversal → Prop :=
  ReflTransGen (Step m base stop)

/-- The traversal gets no further. -/
def IsStuck (m : MappedFile) (base : Nat) (stop : ResourcePlace → Array Resource → Prop)
    (t : ResourceTraversal) : Prop :=
  ∀ u, ¬ Step m base stop t u

theorem step_unique (m : MappedFile) (base : Nat) (stop : ResourcePlace → Array Resource → Prop) :
    Relator.RightUnique (Step m base stop) := by
  intro s t u ht hu
  cases ht with
  | read _ hread =>
    cases hu with
    | read _ hread' => exact Option.some.inj (hread.symm.trans hread')

theorem isStuck_nil : IsStuck m base stop ⟨[], found⟩ := nofun

theorem isStuck_of_stop (hstop : stop place found) :
    IsStuck m base stop ⟨place :: rest, found⟩ := by
  rintro u ⟨hgo, -⟩
  exact hgo hstop

theorem isStuck_of_malformed (hread : place.next? m base rest found = none) :
    IsStuck m base stop ⟨place :: rest, found⟩ := by
  rintro u ⟨-, hread'⟩
  rw [hread] at hread'
  cases hread'

/-- There is only one state where the traversal gets stuck. -/
theorem Leads.unique (ht : Leads m base stop s t) (hu : Leads m base stop s u)
    (hstuck : IsStuck m base stop t) (hstuck' : IsStuck m base stop u) : t = u := by
  rcases ReflTransGen.total_of_right_unique (step_unique m base stop) ht hu with h | h
  · exact ((reflTransGen_iff_eq hstuck).1 h).symm
  · exact (reflTransGen_iff_eq hstuck').1 h

/-- The traversal gets as far when it is to stop in fewer places. -/
theorem Leads.mono (hstop : ∀ place found, stop' place found → stop place found)
    (h : Leads m base stop s t) : Leads m base stop' s t := by
  refine ReflTransGen.mono ?_ s t h
  rintro s t ⟨hgo, hread⟩
  exact .read (fun hstop' => hgo (hstop _ _ hstop')) hread

/-- On the way to a directory that is too deep, the first such directory is met. -/
theorem Leads.exists_first (h : Leads m base (IsFull limit) s ⟨place :: rest, found⟩)
    (hdeep : place.IsTooDeep depth) :
    ∃ place' rest' found', place'.IsTooDeep depth ∧
      Leads m base (IsStop depth limit) s ⟨place' :: rest', found'⟩ := by
  induction h using ReflTransGen.head_induction_on with
  | refl => exact ⟨place, rest, found, hdeep, .refl⟩
  | head hstep _ ih =>
    obtain ⟨hgo, hread⟩ := hstep
    rename_i next rest' found'
    by_cases hnext : next.IsTooDeep depth
    · exact ⟨next, _, _, hnext, .refl⟩
    · obtain ⟨place', rest', found', hdeep', hleads⟩ := ih
      refine ⟨place', rest', found', hdeep', hleads.head (.read ?_ hread)⟩
      exact fun hstop => hstop.elim hgo hnext

/-! ## The outcome of a walk -/

/-- What a walk comes to that follows the traversal from a state on, where the places `rest` are not
part of the walk. -/
inductive Outcome (m : MappedFile) (base depth limit : Nat) (s : ResourceTraversal)
    (rest : List ResourcePlace) : Except Fault (Array Resource) → Prop
  /-- All places of the walk are visited. -/
  | done {all : Array Resource} (h : Leads m base (IsStop depth limit) s ⟨rest, all⟩) :
      Outcome m base depth limit s rest (.ok all)
  /-- An entry is met when enough resources are found. -/
  | full {i : Nat} {chain : List ResourceId} {rest' : List ResourcePlace} {all : Array Resource}
      (h : Leads m base (IsStop depth limit) s ⟨.entry i chain :: rest', all⟩)
      (hfull : limit ≤ all.size) : Outcome m base depth limit s rest (.ok all)
  /-- A directory is met at the end of too long a chain. -/
  | tooDeep {i : Nat} {chain : List ResourceId} {rest' : List ResourcePlace}
      {found : Array Resource}
      (h : Leads m base (IsStop depth limit) s ⟨.directory i chain :: rest', found⟩)
      (hdeep : chain.length = depth) : Outcome m base depth limit s rest (.error .resourceDepth)
  /-- What is at a place is malformed. -/
  | malformed {place : ResourcePlace} {rest' : List ResourcePlace} {found : Array Resource}
      (h : Leads m base (IsStop depth limit) s ⟨place :: rest', found⟩)
      (hgo : ¬ place.IsStop depth limit found)
      (hread : place.next? m base rest' found = none) :
      Outcome m base depth limit s rest (.error .resourceDirectory)

theorem Outcome.of_leads (hleads : Leads m base (IsStop depth limit) s t)
    (h : Outcome m base depth limit t rest x) : Outcome m base depth limit s rest x := by
  cases h with
  | done h => exact .done (hleads.trans h)
  | full h hfull => exact .full (hleads.trans h) hfull
  | tooDeep h hdeep => exact .tooDeep (hleads.trans h) hdeep
  | malformed h hgo hread => exact .malformed (hleads.trans h) hgo hread

/-- A walk that fails does so whatever places are ahead of it. -/
theorem Outcome.of_error {rest' : List ResourcePlace}
    (h : Outcome m base depth limit s rest (.error fault)) :
    Outcome m base depth limit s rest' (.error fault) := by
  cases h with
  | tooDeep h hdeep => exact .tooDeep h hdeep
  | malformed h hgo hread => exact .malformed h hgo hread

section Walk

variable (hdescend : ∀ i path found rest, path.length = n →
  Outcome m base depth limit ⟨.directory i path.reverse :: rest, found⟩ rest
    (descend i path found))

theorem leaf_outcome (i : Nat) (chain : List ResourceId) (rest : List ResourcePlace) :
    Outcome m base depth limit ⟨.leaf i chain :: rest, found⟩ rest
      ((orFault .resourceDirectory (Resource.leafAt? m i chain)).map found.push) := by
  cases hleaf : Resource.leafAt? m i chain with
  | none =>
    refine .malformed .refl not_isStop_leaf ?_
    rw [next?, hleaf]
    rfl
  | some r =>
    refine .done (.single (.read not_isStop_leaf ?_))
    rw [next?, hleaf]
    rfl

include hdescend

theorem walkEntry_outcome (hpath : path.length + 1 = n) (hroom : found.size < limit)
    (rest : List ResourcePlace) :
    Outcome m base depth limit ⟨.entry i path.reverse :: rest, found⟩ rest
      (Resource.walkEntry m base descend path i found) := by
  have hgo : ¬ (entry i path.reverse).IsStop depth limit found := by
    rw [isStop_entry_iff]
    omega
  rcases hentry : Resource.entryAt? m.file base i with _ | ⟨id, word⟩
  · rw [Resource.walkEntry_of_none hentry]
    exact .malformed .refl hgo (by rw [next?, hentry]; rfl)
  · have hread : (entry i path.reverse).next? m base rest found =
        some ⟨referred base (path.reverse ++ [id]) word :: rest, found⟩ := by
      rw [next?, hentry]
      rfl
    refine .of_leads (.single (.read hgo hread)) ?_
    rw [Resource.walkEntry_of_entryAt? hentry, referred]
    split
    case isTrue =>
      rw [← List.reverse_cons]
      exact hdescend _ _ _ _ (by rw [List.length_cons]; exact hpath)
    case isFalse => exact leaf_outcome _ _ _

theorem walkEntries_outcome (hpath : path.length + 1 = n) (left : Nat)
    (rest : List ResourcePlace) :
    Outcome m base depth limit ⟨entries path.reverse left i ++ rest, found⟩ rest
      (Resource.walkEntries m base limit descend path left i found) := by
  induction left generalizing i found with
  | zero => exact .done .refl
  | succ left ih =>
    rw [entries, List.cons_append]
    by_cases hfull : limit ≤ found.size
    · rw [Resource.walkEntries_of_full hfull]
      exact .full .refl hfull
    · have hroom : found.size < limit := Nat.lt_of_not_le hfull
      rw [Resource.walkEntries_succ hroom]
      have hfirst := walkEntry_outcome hdescend hpath hroom (i := i)
        (entries path.reverse left (i + 8) ++ rest)
      cases hentry : Resource.walkEntry m base descend path i found with
      | error fault =>
        rw [hentry] at hfirst
        exact hfirst.of_error
      | ok first =>
        rw [hentry] at hfirst
        rw [ok_bind]
        cases hfirst with
        | done h => exact .of_leads h ih
        | full h hfull =>
          -- the entries that are left are met with nothing more to be found
          rw [Resource.walkEntries_of_full hfull]
          exact .full h hfull

omit hdescend in
theorem walk_outcome (levels : Nat) (i : Nat) (path : List ResourceId) (found : Array Resource)
    (rest : List ResourcePlace) (hpath : path.length + levels = depth) :
    Outcome m base depth limit ⟨.directory i path.reverse :: rest, found⟩ rest
      (Resource.walk m base limit levels i path found) := by
  induction levels generalizing i path found rest with
  | zero => exact .tooDeep .refl (by rw [List.length_reverse]; exact hpath)
  | succ levels ih =>
    have hgo : ¬ (directory i path.reverse).IsStop depth limit found := by
      rw [isStop_directory_iff, List.length_reverse]
      omega
    rw [Resource.walk_succ, Resource.readCount_eq]
    cases hcount : Resource.entryCount? m.file i with
    | none => exact .malformed .refl hgo (by rw [next?, hcount]; rfl)
    | some n =>
      have hread : (directory i path.reverse).next? m base rest found =
          some ⟨entries path.reverse n (Resource.entryPlace i 0) ++ rest, found⟩ := by
        rw [next?, hcount]
        rfl
      refine .of_leads (.single (.read hgo hread)) ?_
      exact walkEntries_outcome (fun i path' found rest hlength => ih i path' found rest (by omega))
        rfl n rest

end Walk

/-- A walk gives up for depth exactly if the traversal, which knows no depth, gets to a directory at
that depth. -/
theorem walk_eq_tooDeep_iff (hpath : path.length + levels = depth) :
    Resource.walk m base limit levels i path found = .error .resourceDepth ↔
      ∃ j chain rest found',
        Leads m base (IsFull limit) ⟨[.directory i path.reverse], found⟩
          ⟨.directory j chain :: rest, found'⟩ ∧ chain.length = depth := by
  have houtcome : Outcome m base depth limit ⟨[.directory i path.reverse], found⟩ []
      (Resource.walk m base limit levels i path found) := walk_outcome levels i path found [] hpath
  constructor
  · intro hwalk
    rw [hwalk] at houtcome
    cases houtcome with
    | tooDeep h hdeep => exact ⟨_, _, _, _, h.mono fun _ _ => .inl, hdeep⟩
  · rintro ⟨j, chain, rest, found', hleads, hlength⟩
    have hdeep : (directory j chain).IsTooDeep depth := Nat.le_of_eq hlength.symm
    obtain ⟨place, rest', found'', hdeep, hfirst⟩ := hleads.exists_first hdeep
    have hstuck : IsStuck m base (IsStop depth limit) ⟨place :: rest', found''⟩ :=
      isStuck_of_stop (.inr hdeep)
    -- the walk ends where the traversal gets stuck, and that is at this directory
    generalize Resource.walk m base limit levels i path found = x at houtcome
    cases houtcome with
    | done h => cases h.unique hfirst isStuck_nil hstuck
    | full h hfull =>
      cases h.unique hfirst (isStuck_of_stop (.inl hfull)) hstuck
      exact absurd hdeep id
    | tooDeep => rfl
    | malformed h hgo hread =>
      cases h.unique hfirst (isStuck_of_malformed hread) hstuck
      exact absurd (.inr hdeep) hgo

end ResourceTraversal

end ImageTriage
