import ImageTriage.Proofs.Import.Layout

/-!
# A smaller limit only cuts the imports short

Both directories are read within one limit. Reading them within a smaller one gives the same imports
up to the limit: `truncate` keeps the descriptors that begin before it is reached and cuts the last
of them (`parse_within_smaller_limit`).

The two readings go through the records in lock step. What is left to either of them shrinks by the
functions of the same descriptors, so the smaller one stops first, and it fails nowhere where the
larger one does not: all that it reads of a record is what the larger one reads, and less of the
thunks.
-/

namespace ImageTriage

/-! ## Functions of one record -/

theorem MappedFile.take_pointers (m : MappedFile) {i small large : Nat} (hle : small ≤ large) :
    (m.pointers i large).take small = m.pointers i small := by
  induction small generalizing i large with
  | zero => rfl
  | succ small ih =>
    obtain ⟨large, rfl⟩ : ∃ n, large = n + 1 := ⟨large - 1, by omega⟩
    cases hword : m.pointer? i with
    | none => rw [m.pointers_of_none _ hword, m.pointers_of_none _ hword, List.take_nil]
    | some w =>
      by_cases hzero : w = 0
      · rw [hzero] at hword
        rw [m.pointers_of_zero _ hword, m.pointers_of_zero _ hword, List.take_nil]
      · rw [m.pointers_succ _ hword hzero, m.pointers_succ _ hword hzero, List.take_succ_cons,
          ih (by omega)]

theorem ImportEntry.readAll_take {m : MappedFile} {thunks addressTable : UInt32}
    {small large : Nat} {entries : List ImportEntry}
    (h : readAll m thunks addressTable large = .ok entries) (hle : small ≤ large) :
    readAll m thunks addressTable small = .ok (entries.take small) := by
  unfold readAll at h ⊢
  split at h
  case isTrue hzero =>
    cases h
    rw [if_pos hzero, List.take_nil]
  case isFalse hne =>
    obtain ⟨i, hi, h⟩ := bind_eq_ok_iff.1 h
    cases h
    rw [if_neg hne, hi, ok_bind, pure_eq_ok, ← m.take_pointers hle]
    refine congrArg Except.ok (List.ext_getElem? fun k => ?_)
    simp only [List.getElem?_mapIdx, List.getElem?_take]
    split <;> rfl

namespace ImportDescriptor

/-- The descriptor with its first functions only. -/
def cut (d : ImportDescriptor) (n : Nat) : ImportDescriptor :=
  { d with entries := d.entries.take n }

/-- The functions of a descriptor, each with its library and when it is bound. -/
def functions (d : ImportDescriptor) : List (String × ImportKind × ImportEntry) :=
  d.entries.map fun e => (d.dllName, d.kind, e)

theorem cut_of_length_le {d : ImportDescriptor} {n : Nat} (h : d.entries.length ≤ n) :
    d.cut n = d := by
  rw [cut, List.take_of_length_le h]

theorem functions_cut (d : ImportDescriptor) (n : Nat) : (d.cut n).functions = d.functions.take n :=
  List.map_take

end ImportDescriptor

namespace ImportTable

variable {m : MappedFile} {kind : ImportKind} {i n small large : Nat} {d : ImportDescriptor}
  {ds : List ImportDescriptor}

/-- The functions of an image in order, each with its library and when it is bound. -/
def functions (t : ImportTable) : List (String × ImportKind × ImportEntry) :=
  t.descriptors.flatMap (·.functions)

theorem readDescriptor_cut {r : ImportRecord} {name : UInt32}
    (h : readDescriptor m kind r name large = .ok d) (hle : small ≤ large) :
    readDescriptor m kind r name small = .ok (d.cut small) := by
  obtain ⟨dllName, hname, h⟩ := bind_eq_ok_iff.1 h
  obtain ⟨entries, hentries, h⟩ := bind_eq_ok_iff.1 h
  cases h
  rw [readDescriptor, hname, ok_bind, ImportEntry.readAll_take hentries hle]
  rfl

/-! ## Descriptors cut short -/

/-- What a limit leaves of the descriptors: those that begin before it is reached, the last of them
cut. -/
def truncate : Nat → List ImportDescriptor → List ImportDescriptor
  | _, [] => []
  | n, d :: ds => if n = 0 then [] else d.cut n :: truncate (n - d.entries.length) ds

/-- The first descriptors of a list, the last of which may lack functions at its end. -/
def IsCutOf (short long : List ImportDescriptor) : Prop :=
  short <+: long ∨
    ∃ front d rest n, long = front ++ d :: rest ∧ short = front ++ [ImportDescriptor.cut d n]

@[simp] theorem truncate_zero (ds : List ImportDescriptor) : truncate 0 ds = [] := by
  cases ds <;> rfl

theorem truncate_cons (hn : n ≠ 0) :
    truncate n (d :: ds) = d.cut n :: truncate (n - d.entries.length) ds := if_neg hn

theorem truncate_append (n : Nat) (ds rest : List ImportDescriptor) :
    truncate n (ds ++ rest) =
      truncate n ds ++ truncate (n - (ds.flatMap (·.entries)).length) rest := by
  induction ds generalizing n with
  | nil => rfl
  | cons d ds ih =>
    by_cases hn : n = 0
    · simp [hn]
    · rw [List.cons_append, truncate_cons hn, truncate_cons hn, ih, List.flatMap_cons,
        List.length_append, Nat.sub_add_eq, List.cons_append]

/-- What is read off the functions one by one is cut with them. -/
theorem flatMap_truncate {α : Type} {f : ImportDescriptor → List α}
    (hcut : ∀ d n, f (d.cut n) = (f d).take n) (hlength : ∀ d, (f d).length = d.entries.length)
    (n : Nat) (ds : List ImportDescriptor) :
    (truncate n ds).flatMap f = (ds.flatMap f).take n := by
  induction ds generalizing n with
  | nil => rw [truncate, List.flatMap_nil, List.take_nil]
  | cons d ds ih =>
    by_cases hn : n = 0
    · simp [hn]
    · rw [truncate_cons hn, List.flatMap_cons, List.flatMap_cons, List.take_append, hcut, hlength,
        ih]

theorem length_entries_truncate (n : Nat) (ds : List ImportDescriptor) :
    ((truncate n ds).flatMap (·.entries)).length = min n (ds.flatMap (·.entries)).length := by
  rw [flatMap_truncate (fun _ _ => rfl) (fun _ => rfl), List.length_take]

theorem functions_truncate (n : Nat) (t : ImportTable) :
    functions ⟨truncate n t.descriptors⟩ = t.functions.take n :=
  flatMap_truncate ImportDescriptor.functions_cut (fun _ => List.length_map _) n t.descriptors

theorem isCutOf_truncate (n : Nat) (ds : List ImportDescriptor) : IsCutOf (truncate n ds) ds := by
  induction ds generalizing n with
  | nil => exact .inl (List.prefix_refl [])
  | cons d ds ih =>
    by_cases hn : n = 0
    · rw [hn, truncate_zero]
      exact .inl List.nil_prefix
    rw [truncate_cons hn]
    by_cases hwhole : d.entries.length ≤ n
    · rw [ImportDescriptor.cut_of_length_le hwhole]
      rcases ih (n - d.entries.length) with hprefix | ⟨front, last, rest, k, hds, hcut⟩
      · exact .inl ((List.prefix_cons_inj d).2 hprefix)
      · refine .inr ⟨d :: front, last, rest, k, ?_, ?_⟩
        · rw [hds, List.cons_append]
        · rw [hcut, List.cons_append]
    · -- the limit is reached within this descriptor
      have hspent : n - d.entries.length = 0 := by omega
      rw [hspent, truncate_zero]
      exact .inr ⟨[], d, ds, n, rfl, rfl⟩

/-! ## Two readings in lock step -/

/-- Nothing is read when the budget is spent. -/
theorem readRecords_zero (found : Array ImportDescriptor) :
    readRecords m kind n i 0 found = .ok found := by
  cases n with
  | zero => rfl
  | succ n => rw [readRecords, beq_self_eq_true, Bool.or_true, if_pos rfl]

/-- A reading that goes on does so within a smaller budget, unless that one is spent. -/
theorem goes_on {zeros : Bool} (h : ¬ (zeros || large == 0) = true) (hne : small ≠ 0) :
    ¬ (zeros || small == 0) = true := by
  rw [Bool.or_eq_true, not_or] at h ⊢
  exact ⟨h.1, fun hspent => hne (beq_iff_eq.1 hspent)⟩

/-- What a reading of records finds, within its budget and within any smaller one. -/
theorem readRecords_truncate {found result : Array ImportDescriptor}
    (h : readRecords m kind n i large found = .ok result) :
    ∃ ds, result.toList = found.toList ++ ds ∧ ∀ small ≤ large, ∀ shown,
      (readRecords m kind n i small shown).map Array.toList =
        .ok (shown.toList ++ truncate small ds) := by
  -- along the reading with the larger budget; the smaller one goes on until its budget is spent
  fun_induction readRecords m kind n i large found with
  | case1 i large found =>
    cases h
    refine ⟨[], (List.append_nil _).symm, fun small _ shown => ?_⟩
    rw [readRecords, truncate, List.append_nil]
    rfl
  | case2 n i large found hstop =>
    cases h
    refine ⟨[], (List.append_nil _).symm, fun small hle shown => ?_⟩
    have hstop' : (m.file.isZero i kind.recordSize || small == 0) = true := by
      rw [Bool.or_eq_true, beq_iff_eq] at hstop ⊢
      exact hstop.imp_right fun hspent => by omega
    rw [readRecords, if_pos hstop', truncate, List.append_nil]
    rfl
  | case3 n i large found hgo r hname ih =>
    obtain ⟨ds, hresult, hsmall⟩ := ih h
    refine ⟨ds, hresult, fun small hle shown => ?_⟩
    by_cases hspent : small = 0
    · rw [hspent, readRecords_zero, truncate_zero, List.append_nil]
      rfl
    · rw [readRecords, if_neg (goes_on hgo hspent)]
      simp only [r] at hname
      simp only [hname]
      exact hsmall small hle shown
  | case4 n i large found hgo r name hname fault hd => cases h
  | case5 n i large found hgo r name hname d hd ih =>
    obtain ⟨ds, hresult, hsmall⟩ := ih h
    refine ⟨d :: ds, by rw [hresult, Array.toList_push, List.append_assoc]; rfl,
      fun small hle shown => ?_⟩
    by_cases hspent : small = 0
    · rw [hspent, readRecords_zero, truncate_zero, List.append_nil]
      rfl
    · have hleft : small - (d.cut small).entries.length = small - d.entries.length := by
        rw [ImportDescriptor.cut, List.length_take]
        omega
      have hrest := hsmall (small - d.entries.length) (by omega) (shown.push (d.cut small))
      simp only [r] at hname hd
      rw [readRecords, if_neg (goes_on hgo hspent)]
      simp only [hname, readDescriptor_cut hd hle, hleft]
      rw [hrest, Array.toList_push, List.append_assoc, truncate_cons hspent]
      rfl

theorem readDirectory_truncate {dir : DataDirectory} (h : readDirectory m kind dir large = .ok ds)
    (hle : small ≤ large) : readDirectory m kind dir small = .ok (truncate small ds) := by
  unfold readDirectory at h ⊢
  split at h
  case isTrue hpresent =>
    obtain ⟨i, hi, h⟩ := bind_eq_ok_iff.1 h
    obtain ⟨result, hread, h⟩ := bind_eq_ok_iff.1 h
    cases h
    obtain ⟨ds, hresult, hsmall⟩ := readRecords_truncate hread
    have hread' := hsmall small hle #[]
    rw [Array.toList_empty, List.nil_append] at hresult hread'
    rw [if_pos hpresent, hi, ok_bind, hresult, ← hread']
    cases readRecords m kind ((m.file.size - i) / kind.recordSize) i small #[] <;> rfl
  case isFalse habsent =>
    cases h
    rw [if_neg habsent, truncate]

theorem parse_truncate {regular delayLoaded : DataDirectory} {t : ImportTable}
    (h : parse m regular delayLoaded large = .ok t) (hle : small ≤ large) :
    parse m regular delayLoaded small = .ok ⟨truncate small t.descriptors⟩ := by
  obtain ⟨first, hfirst, h⟩ := bind_eq_ok_iff.1 h
  obtain ⟨second, hsecond, h⟩ := bind_eq_ok_iff.1 h
  cases h
  -- what the first directory leaves of the limit is less for the smaller one
  have hleft : small - ((truncate small first).flatMap (·.entries)).length =
      small - (first.flatMap (·.entries)).length := by
    rw [length_entries_truncate]
    omega
  rw [parse, readDirectory_truncate hfirst hle, ok_bind]
  dsimp only
  rw [hleft, readDirectory_truncate hsecond (by omega), ok_bind, ← truncate_append]
  rfl

/-- A smaller limit cuts the imports of both directories short and changes nothing else. -/
theorem parse_within_smaller_limit {regular delayLoaded : DataDirectory} {t : ImportTable}
    (h : parse m regular delayLoaded large = .ok t) :
    t.count ≤ large ∧
      ∀ small ≤ large, ∃ t', parse m regular delayLoaded small = .ok t' ∧
        t'.count = min small t.count ∧ t'.functions = t.functions.take small ∧
        IsCutOf t'.descriptors t.descriptors := by
  refine ⟨?_, fun small hle => ⟨_, parse_truncate h hle, length_entries_truncate small _,
    functions_truncate small t, isCutOf_truncate small _⟩⟩
  -- within its own limit a reading is cut to itself
  have hself := parse_truncate h (Nat.le_refl large)
  rw [h] at hself
  have hcount : t.count = min large t.count := by
    conv_lhs => rw [Except.ok.inj hself]
    exact length_entries_truncate large _
  omega

/-- Two libraries with two functions each, where three functions are allowed. -/
theorem parse_within_smaller_limit_sample :
    ∃ t t', parse StoredLibrary.sampleFile ⟨0x1000, 0x28⟩ ⟨0x1028, 0x40⟩ 5 = .ok t ∧
      parse StoredLibrary.sampleFile ⟨0x1000, 0x28⟩ ⟨0x1028, 0x40⟩ 3 = .ok t' ∧
      t.count = 4 ∧ t'.count = 3 ∧ t'.functions = t.functions.take 3 ∧
      IsCutOf t'.descriptors t.descriptors := by
  obtain ⟨t, hparse, hfour⟩ := exists_ok_of_any
    (x := parse StoredLibrary.sampleFile ⟨0x1000, 0x28⟩ ⟨0x1028, 0x40⟩ 5)
    (p := (·.count == 4)) (by decide +kernel)
  have hcount : t.count = 4 := beq_iff_eq.1 hfour
  obtain ⟨-, hsmaller⟩ := parse_within_smaller_limit hparse
  obtain ⟨t', hparse', hcount', hfunctions, hcut⟩ := hsmaller 3 (by decide)
  rw [hcount] at hcount'
  exact ⟨t, t', hparse, hparse', hcount, hcount', hfunctions, hcut⟩

end ImportTable

end ImageTriage
