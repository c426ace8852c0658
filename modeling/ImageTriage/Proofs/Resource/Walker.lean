import ImageTriage.Proofs.Checked.Basic
import ImageTriage.Proofs.Resource.Traversal

/-!
# Walking the resource tree in place

A `ResourceWalker` keeps one stack of identifiers. It pushes the identifier of an entry before it
goes on to what the entry refers to, and pops it when it is back. The only thing that bounds its
recursion is that it looks at the height of the stack whenever it comes to a directory. So that it
ends, every directory that is gone into must find a stack higher than the one before it did, and the
stack has to be as high as before whenever a directory is left, on whatever way it is left.

`walk` is this recursion, with as much `fuel` as it may go down; without fuel it traps. It needs no
more fuel than there are identifiers missing on the stack, and it comes to what `Resource.walk`
comes to, with the stack that it found (`walk_eq`). `walk_in_place` puts together what is known of
it.
-/

namespace ImageTriage

/-- A walk that is under way: the identifiers that led to where it is, the last one first, and the
resources that were found. -/
structure ResourceWalker where
  path : List ResourceId
  found : Array Resource

namespace ResourceWalker

open Checked Resource ResourceTraversal ResourcePlace

/-- Goes on to what an entry refers to. -/
def push (w : ResourceWalker) (id : ResourceId) : ResourceWalker := { w with path := id :: w.path }

/-- Comes back from there. -/
def pop (w : ResourceWalker) : ResourceWalker := { w with path := w.path.tail }

/-- Adds a resource. -/
def add (w : ResourceWalker) (r : Resource) : ResourceWalker := { w with found := w.found.push r }

/-- A way to go through the directory at an offset. -/
abbrev Descent := Nat → ResourceWalker → Checked ResourceWalker

/-- Goes through what the entry at offset `i` refers to. -/
def walkEntry (m : MappedFile) (base : Nat) (descend : Descent) (i : Nat) (w : ResourceWalker) :
    Checked ResourceWalker := do
  let (id, reference) ← readEntry m.file base i
  let w := w.push id
  if isMarked reference then
    return (← descend (target base reference) w).pop
  else
    let r ← readLeaf m (target base reference) w.path
    return (w.add r).pop

/-- Goes through `n` entries from offset `i` on, until `limit` resources are found. -/
def walkEntries (m : MappedFile) (base limit : Nat) (descend : Descent) :
    Nat → Nat → ResourceWalker → Checked ResourceWalker
  | 0, _, w => pure w
  | n + 1, i, w =>
    if limit ≤ w.found.size then pure w
    else do
      let w ← walkEntry m base descend i w
      walkEntries m base limit descend n (i + 8) w

/-- Goes through a directory, unless `depth` identifiers led there. -/
def walk (m : MappedFile) (base depth limit : Nat) : Nat → Descent
  | 0, _, _ => .trap
  | fuel + 1, i, w =>
    if depth ≤ w.path.length then fail .resourceDepth
    else do
      let n ← readCount m.file i
      walkEntries m base limit (walk m base depth limit fuel) n (entryPlace i 0) w

/-! ## The stack is left as it was -/

section Descend

variable {m : MappedFile} {base depth limit levels i : Nat} {w : ResourceWalker} {descend : Descent}
  {descent : Resource.Descent}
  (hdescend : ∀ i (w' : ResourceWalker), w'.path.length = w.path.length + 1 →
    descend i w' = done ((descent i w'.path w'.found).map (mk w'.path)))
include hdescend

theorem walkEntry_eq (i : Nat) (found : Array Resource) :
    walkEntry m base descend i ⟨w.path, found⟩ =
      done ((Resource.walkEntry m base descent w.path i found).map (mk w.path)) := by
  rw [walkEntry, Resource.walkEntry_eq]
  cases readEntry m.file base i with
  | error fault => rfl
  | ok pair =>
    obtain ⟨id, reference⟩ := pair
    -- with the entry read, both walks only look at the mark of its reference
    change (if isMarked reference then _ else _) =
      done (Except.map _ (if isMarked reference then _ else _))
    by_cases hmarked : isMarked reference
    · have hbelow := hdescend (target base reference) ⟨id :: w.path, found⟩ rfl
      rw [if_pos hmarked, if_pos hmarked, push, hbelow]
      cases descent (target base reference) (id :: w.path) found <;> rfl
    · rw [if_neg hmarked, if_neg hmarked, push]
      cases readLeaf m (target base reference) (id :: w.path) <;> rfl

theorem walkEntries_eq (n i : Nat) (found : Array Resource) :
    walkEntries m base limit descend n i ⟨w.path, found⟩ =
      done ((Resource.walkEntries m base limit descent w.path n i found).map (mk w.path)) := by
  induction n generalizing i found with
  | zero => rfl
  | succ n ih =>
    rw [walkEntries]
    by_cases hfull : limit ≤ found.size
    · rw [if_pos hfull, walkEntries_of_full hfull]
      rfl
    · rw [if_neg hfull, walkEntries_succ (Nat.lt_of_not_le hfull), walkEntry_eq hdescend]
      cases Resource.walkEntry m base descent w.path i found with
      | error fault => rfl
      | ok first => exact ih (i + 8) first

end Descend

variable {m : MappedFile} {base depth limit : Nat}

theorem walk_eq {fuel : Nat} (i : Nat) (w : ResourceWalker) (hfuel : depth - w.path.length < fuel) :
    walk m base depth limit fuel i w =
      done ((Resource.walk m base limit (depth - w.path.length) i w.path w.found).map
        (mk w.path)) := by
  -- along the recursion; the stack is one higher each time
  induction fuel generalizing i w with
  | zero => omega
  | succ fuel ih =>
    rw [walk]
    by_cases hdeep : depth ≤ w.path.length
    · rw [if_pos hdeep, Nat.sub_eq_zero_of_le hdeep]
      rfl
    · have hlevels : depth - w.path.length = depth - (w.path.length + 1) + 1 := by omega
      rw [if_neg hdeep, hlevels, walk_succ]
      cases readCount m.file i with
      | error fault => rfl
      | ok n =>
        refine walkEntries_eq (w := w) (fun i w' hlength => ?_) n _ w.found
        rw [ih i w' (by omega), hlength]

/-- A walk in place ends, whatever the references lead to, and when it succeeds it has left its
stack as it was and only added resources. Each of these is the leaf of a chain of entries that fits
below the depth, and has its kind, its name and its language from the first three identifiers. It
gives up for depth exactly if a traversal that knows no depth gets to a directory that deep, and
before that neither to a malformed record nor to an entry when enough resources are found. -/
theorem walk_in_place (m : MappedFile) (base depth limit i : Nat) (w : ResourceWalker) :
    ∃ result : Except Fault ResourceWalker,
      (∀ fuel > depth - w.path.length, walk m base depth limit fuel i w = .done result) ∧
      result = (Resource.walk m base limit (depth - w.path.length) i w.path w.found).map
        (mk w.path) ∧
      (∀ w', result = .ok w' → w'.path = w.path ∧ ∃ more, w'.found = w.found ++ more ∧
        ∀ r ∈ more, ∃ ids leaf, Chain m.file base i ids leaf ∧
          1 ≤ ids.length ∧ w.path.length + ids.length ≤ depth ∧
          leafAt? m leaf (w.path.reverse ++ ids) = some r ∧
          r.kind = (w.path.reverse ++ ids)[0]?.getD (.number 0) ∧
          r.name = (w.path.reverse ++ ids)[1]?.getD (.number 0) ∧
          r.language = languageOf (w.path.reverse ++ ids)[2]?) ∧
      (result = .error .resourceDepth ↔ ∃ j chain rest found,
        Leads m base (IsFull limit) ⟨[.directory i w.path.reverse], w.found⟩
          ⟨.directory j chain :: rest, found⟩ ∧ chain.length = max depth w.path.length) := by
  refine ⟨_, fun fuel hfuel => walk_eq i w hfuel, rfl, fun w' hw' => ?_, ?_⟩
  · obtain ⟨all, hall, rfl⟩ := map_eq_ok_iff.1 hw'
    obtain ⟨more, rfl, hmore⟩ := walk_adds _ _ _ _ _ hall
    refine ⟨rfl, more, rfl, fun r hr => ?_⟩
    obtain ⟨ids, leaf, hchain, hlength, hleaf⟩ := hmore r hr
    have hpos := hchain.length_pos
    exact ⟨ids, leaf, hchain, hpos, by omega, hleaf, identified_of_leafAt? hleaf⟩
  · have hdepth : w.path.length + (depth - w.path.length) = max depth w.path.length := by omega
    rw [← walk_eq_tooDeep_iff hdepth]
    cases Resource.walk m base limit (depth - w.path.length) i w.path w.found <;> simp [Except.map]

end ResourceWalker

end ImageTriage
