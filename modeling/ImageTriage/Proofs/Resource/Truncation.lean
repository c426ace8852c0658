import ImageTriage.Proofs.Resource.Chains

/-!
# A smaller limit only cuts the resources short

The limit on resources is looked at before each entry, at every level, and when it is reached all
levels end without a fault. So a walk within a smaller limit finds the first resources of those that
the walk within a larger one finds (`parseAll_within_smaller_limit`), whatever the directories share
and wherever their references lead.

Both walks are in the same place with the same resources found until the smaller limit is reached.
From there on the smaller walk stays where it is, and the larger one only adds to what it has found.
What the larger one has found up to the limit is thus at every place what the smaller one has found
there. That is the relation `Shortens` between two ways to collect the leaves below a directory, and
it passes from each level to the one above.
-/

namespace ImageTriage

namespace Resource

variable {m : MappedFile} {base small large n levels : Nat} {path : List ResourceId}
  {short whole : Descent} {found all : Array Resource}

/-! ## Two walks side by side -/

/-- Where `whole` finds resources, `short` finds the first of them, up to `small`. -/
def Shortens (small : Nat) (short whole : Descent) : Prop :=
  ∀ i path found all, whole i path found = .ok all →
    short i path (found.extract 0 small) = .ok (all.extract 0 small)

theorem walkEntry_shortens {i : Nat} (h : Shortens small short whole) (hroom : found.size < small)
    (hread : walkEntry m base whole path i found = .ok all) :
    walkEntry m base short path i (found.extract 0 small) = .ok (all.extract 0 small) := by
  obtain ⟨id, word, hentry, hbelow⟩ := walkEntry_eq_ok_iff.1 hread
  refine walkEntry_eq_ok_iff.2 ⟨id, word, hentry, ?_⟩
  rcases hbelow with ⟨hmarked, hread⟩ | ⟨hleaf, r, hr, rfl⟩
  · exact .inl ⟨hmarked, h _ _ _ _ hread⟩
  · have hpushed : (found.push r).size ≤ small := by
      rw [Array.size_push]
      omega
    refine .inr ⟨hleaf, r, hr, ?_⟩
    rw [Array.extract_eq_self_of_le (Nat.le_of_lt hroom), Array.extract_eq_self_of_le hpushed]

theorem walkEntries_shortens {dir k left : Nat} (hadds : Adds m base levels whole)
    (h : Shortens small short whole) (hle : small ≤ large) (hn : entryCount? m.file dir = some n)
    (hk : k + left = n)
    (hread : walkEntries m base large whole path left (entryPlace dir k) found = .ok all) :
    walkEntries m base small short path left (entryPlace dir k) (found.extract 0 small) =
      .ok (all.extract 0 small) := by
  induction left generalizing k found with
  | zero =>
    cases hread
    rfl
  | succ left ih =>
    by_cases hfull : small ≤ found.size
    · -- the smaller walk ends here, whatever the larger one still adds
      obtain ⟨more, rfl, -⟩ := walkEntries_adds hadds hn hk hread
      rw [walkEntries_of_full (by rw [Array.size_extract]; omega), Array.extract_append,
        Nat.sub_eq_zero_of_le hfull, Array.extract_zero, Array.append_empty]
    · have hroom : found.size < small := Nat.lt_of_not_le hfull
      rw [walkEntries_succ (by omega)] at hread
      obtain ⟨first, hfirst, hread⟩ := bind_eq_ok_iff.1 hread
      rw [walkEntries_succ (by rw [Array.size_extract]; omega), walkEntry_shortens h hroom hfirst]
      exact ih (k := k + 1) (by omega) hread

theorem walk_shortens (hle : small ≤ large) :
    ∀ levels, Shortens small (walk m base small levels) (walk m base large levels)
  | 0, _, _, _, _, hread => by cases hread
  | levels + 1, i, path, found, all, hread => by
    rw [walk_succ] at hread
    obtain ⟨n, hn, hread⟩ := bind_eq_ok_iff.1 hread
    rw [walk_succ, hn, ok_bind]
    exact walkEntries_shortens (walk_adds levels) (walk_shortens hle levels) hle
      (readCount_eq_ok_iff.1 hn) (Nat.zero_add n) hread

/-! ## The whole tree -/

variable {dir : DataDirectory} {rs : List Resource}

theorem parseAll_take (h : parseAll m dir levels large = .ok rs) (hle : small ≤ large) :
    parseAll m dir levels small = .ok (rs.take small) := by
  unfold parseAll at h ⊢
  split at h
  case isTrue habsent =>
    cases h
    rw [if_pos habsent, List.take_nil]
    rfl
  case isFalse hpresent =>
    obtain ⟨base, hbase, h⟩ := bind_eq_ok_iff.1 h
    obtain ⟨all, hall, h⟩ := bind_eq_ok_iff.1 h
    cases h
    have hshort := walk_shortens hle levels _ _ _ _ hall
    rw [Array.extract_empty] at hshort
    rw [if_neg hpresent, hbase, ok_bind, hshort]
    simp

/-- Resources are read up to the limit, and within a smaller limit the first of them are read. -/
theorem parseAll_within_smaller_limit (h : parseAll m dir levels large = .ok rs) :
    rs.length ≤ large ∧ ∀ small ≤ large, parseAll m dir levels small = .ok (rs.take small) := by
  refine ⟨?_, fun small hle => parseAll_take h hle⟩
  -- within its own limit a reading is cut to itself
  have hself := parseAll_take h (Nat.le_refl large)
  rw [h, Except.ok.injEq] at hself
  rw [hself, List.length_take]
  exact Nat.min_le_left _ _

/-- A file whose root directory holds a leaf and then itself. -/
def sampleLoop : MappedFile where
  file := ⟨⟨List.replicate 14 0 ++ [2, 0] ++ [1, 0, 0, 0, 0x20, 0, 0, 0] ++
    [2, 0, 0, 0, 0, 0, 0, 0x80] ++ [0x20, 0x10, 0, 0, 4, 0, 0, 0, 0, 0, 0, 0]⟩⟩
  sections := .ofHeaders [{
    rawName := Vector.replicate 8 0
    virtualSize := 0x2C
    virtualAddress := 0x1000
    rawSize := 0x2C
    rawOffset := 0
    relocationOffset := 0
    lineNumberOffset := 0
    relocationCount := 0
    lineNumberCount := 0
    characteristics := 0 }]

/-- The directory that holds itself gives a leaf on each of three levels; two of them are read
where two are allowed. -/
theorem parseAll_within_smaller_limit_loop :
    ∃ rs, parseAll sampleLoop ⟨0x1000, 0x2C⟩ 3 3 = .ok rs ∧ rs.length = 3 ∧
      parseAll sampleLoop ⟨0x1000, 0x2C⟩ 3 2 = .ok (rs.take 2) := by
  obtain ⟨rs, hparse, hthree⟩ := exists_ok_of_any
    (x := parseAll sampleLoop ⟨0x1000, 0x2C⟩ 3 3) (p := (·.length == 3)) (by decide +kernel)
  obtain ⟨-, hsmaller⟩ := parseAll_within_smaller_limit hparse
  exact ⟨rs, hparse, beq_iff_eq.1 hthree, hsmaller 2 (by decide)⟩

end Resource

end ImageTriage
