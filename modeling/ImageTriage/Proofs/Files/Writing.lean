import Mathlib.Data.List.Dedup
import ImageTriage.Files.Tree
import ImageTriage.Proofs.Text.Words

/-!
# Files written into a directory

A file that is written into a directory stands there in place of any entry of that name, and the
path of the directory leads where it led before (`find_write`). So what a row of files leaves in a
directory depends on the row alone: of several files of one name the last is left (`lookup_leave`),
and there are as many files as distinct names (`length_leave`).
-/

namespace ImageTriage

/-! ## Paths into a directory -/

namespace Path

/-- A name of an entry: no path of its own, and none of the names that lead elsewhere. -/
structure IsPlain (name : String) : Prop where
  slash_notMem : '/' ∉ name.toList
  ne_empty : name ≠ ""
  ne_point : name ≠ "."
  ne_points : name ≠ ".."

variable {directory name : String}

theorem isAbsolute_of_isPlain (hname : IsPlain name) : isAbsolute name = false := by
  refine beq_false_of_ne fun hhead => hname.slash_notMem ?_
  exact List.mem_of_mem_head? hhead

/-- In the path of an entry the names of the directory come first. A slash at the end of the
directory counts for nothing. -/
theorem names_join (hname : IsPlain name) (hne : directory ≠ "") :
    ∃ steps, names (join directory name) = steps ++ [name] ∧
      (names directory = steps ∨ names directory = steps ++ [""]) := by
  have hlast : (Text.pieces '/' name.toList).map String.ofList = [name] := by
    rw [Text.pieces_of_notMem hname.slash_notMem, List.map_singleton, String.ofList_toList]
  rw [join, isAbsolute_of_isPlain hname, if_neg Bool.false_ne_true]
  by_cases hslash : directory.toList.getLast? = some '/'
  · obtain ⟨front, hfront⟩ := List.getLast?_eq_some_iff.1 hslash
    refine ⟨(Text.pieces '/' front).map String.ofList, ?_, .inr ?_⟩
    · rw [if_pos (.inr hslash), names, String.toList_append, hfront, List.append_assoc,
        List.singleton_append, Text.pieces_append_separator, List.map_append, hlast]
    · rw [names, hfront, Text.pieces_append_separator, List.map_append]
      rfl
  · have hseparated : (directory ++ "/" ++ name).toList =
        directory.toList ++ '/' :: name.toList := by
      rw [String.toList_append, String.toList_append, List.append_assoc]
      rfl
    refine ⟨names directory, ?_, .inl rfl⟩
    rw [if_neg (not_or.2 ⟨hne, hslash⟩), names, hseparated, Text.pieces_append_separator,
      List.map_append, hlast, names]

/-- A plain name in no directory is a path of its own. -/
theorem join_empty (hname : IsPlain name) : join "" name = name := by
  rw [join, isAbsolute_of_isPlain hname, if_neg Bool.false_ne_true, if_pos (.inl rfl),
    String.empty_append]

/-- The path of an entry starts where its directory starts -/
theorem isAbsolute_join (hname : IsPlain name) :
    isAbsolute (join directory name) = isAbsolute directory := by
  by_cases hempty : directory = ""
  · rw [hempty, join_empty hname, isAbsolute_of_isPlain hname]
    rfl
  · obtain ⟨c, cs, hcs⟩ : ∃ c cs, directory.toList = c :: cs :=
      List.exists_cons_of_ne_nil fun h => hempty (String.toList_eq_nil_iff.1 h)
    rw [join, isAbsolute_of_isPlain hname, if_neg Bool.false_ne_true, isAbsolute, isAbsolute]
    split <;> simp [hcs]

/-- and takes one step more. -/
theorem steps_join (hname : IsPlain name) :
    steps (join directory name) = steps directory ++ [name] := by
  have hlast : [name].filter (fun name => name ≠ "" ∧ name ≠ ".") = [name] := by
    simp [hname.ne_empty, hname.ne_point]
  by_cases hempty : directory = ""
  · have hnames : names name = [name] := by
      rw [names, Text.pieces_of_notMem hname.slash_notMem, List.map_singleton, String.ofList_toList]
    rw [hempty, join_empty hname, steps, hnames, hlast]
    rfl
  · obtain ⟨above, hjoined, habove⟩ := names_join hname hempty
    rw [steps, hjoined, List.filter_append, hlast, steps]
    rcases habove with habove | habove
    · rw [habove]
    · rw [habove, List.filter_append]
      simp

end Path

namespace FileEntry

variable {entry new : FileEntry} {above place other : Place} {inside : List (String × FileEntry)}
  {name : String} {content : Bytes}

theorem look?_concat (h : entry.look? above = some (.directory inside)) :
    entry.look? (above ++ [name]) = inside.lookup name := by
  induction above generalizing entry with
  | nil =>
    obtain rfl : entry = .directory inside := by simpa [look?] using h
    simp [look?]
  | cons first above ih =>
    cases entry with
    | file content => simp [look?] at h
    | deadLink fault => simp [look?] at h
    | directory entries =>
      obtain ⟨next, hnext, hlook⟩ := Option.bind_eq_some_iff.1 h
      simp [look?, hnext, ih hlook]

/-- A new entry comes first in its directory. -/
theorem look?_put_above (h : entry.look? above = some (.directory inside)) :
    (put new entry (above ++ [name])).look? above =
      some (.directory ((name, new) :: inside.filter (·.1 ≠ name))) := by
  induction above generalizing entry with
  | nil =>
    obtain rfl : entry = .directory inside := by simpa [look?] using h
    simp [put, look?]
  | cons first above ih =>
    cases entry with
    | file content => simp [look?] at h
    | deadLink fault => simp [look?] at h
    | directory entries =>
      obtain ⟨next, hnext, hlook⟩ := Option.bind_eq_some_iff.1 h
      simp [put, look?, hnext, ih hlook]

/-- A file that takes the place of no directory leaves all directories where they are. -/
theorem exists_look?_put (hplace : ∀ inside, entry.look? place ≠ some (.directory inside))
    (h : entry.look? other = some (.directory inside)) :
    ∃ inside', (put (.file content) entry place).look? other = some (.directory inside') := by
  induction place generalizing entry other with
  | nil =>
    cases entry with
    | file content => cases other <;> simp [look?] at h
    | deadLink fault => cases other <;> simp [look?] at h
    | directory entries => exact absurd rfl (hplace entries)
  | cons name place ih =>
    cases entry with
    | file content => cases other <;> simp [look?] at h
    | deadLink fault => cases other <;> simp [look?] at h
    | directory entries =>
      cases other with
      | nil => exact ⟨_, rfl⟩
      | cons first other =>
        obtain ⟨next, hnext, hlook⟩ := Option.bind_eq_some_iff.1 h
        -- while the ways to the two places are the same, what is below changes and no more
        by_cases hfirst : first = name
        · subst hfirst
          have hbelow : ∀ inside, next.look? place ≠ some (.directory inside) := by
            intro inside hinside
            exact hplace inside (Option.bind_eq_some_iff.2 ⟨next, hnext, hinside⟩)
          obtain ⟨inside', hinside'⟩ := ih hbelow hlook
          exact ⟨inside', by simpa [put, look?, hnext] using hinside'⟩
        · refine ⟨inside, ?_⟩
          simp only [put, look?, List.lookup_cons, beq_false_of_ne hfirst]
          rw [lookup_filter_of_ne entries hfirst, hnext]
          exact hlook

end FileEntry

/-! ## Walking to an entry -/

namespace FileTree

variable {t t' : FileTree} {here place p q : Place} {xs ys : List String}
  {inside : List (String × FileEntry)} {directory name : String} {content : Bytes}

theorem walk_cons (x : String) (xs : List String) :
    t.walk here (x :: xs) = t.walk here [x] >>= fun p => t.walk p xs := by
  rw [walk, walk]
  split
  · rfl
  · rfl
  · rfl
  · split
    · rfl
    · split
      · rfl
      · split <;> rfl

theorem walk_append :
    t.walk here (xs ++ ys) = t.walk here xs >>= fun p => t.walk p ys := by
  induction xs generalizing here with
  | nil => rfl
  | cons x xs ih =>
    rw [List.cons_append, walk_cons, walk_cons x xs]
    cases t.walk here [x] with
    | error fault => rfl
    | ok p => exact ih

/-- A plain name leads on from a directory to what has this name in it. -/
theorem walk_plain (hname : Path.IsPlain name) (h : t.look? here = some (.directory inside)) :
    t.walk here [name] =
      if nameBound < name.utf8ByteSize then .error .nameTooLong else .ok (here ++ [name]) := by
  rw [walk, h]
  dsimp only
  rw [if_neg (not_or.2 ⟨hname.ne_empty, hname.ne_point⟩), if_neg hname.ne_points]
  rfl

theorem walk_empty_name (hwalk : t.walk here [""] = .ok p) : p = here := by
  rw [walk] at hwalk
  split at hwalk <;> cases hwalk
  rfl

theorem place_eq_ok_iff {path : Path} :
    t.place path = .ok p ↔
      check path = .ok () ∧ t.walk (t.origin path) (Path.names path) = .ok p := by
  rw [place]
  cases check path with
  | error fault => exact ⟨fun h => (by cases h), fun h => (by cases h.1)⟩
  | ok _ => exact ⟨fun h => ⟨rfl, h⟩, fun h => h.2⟩

theorem ne_empty_of_check (h : check directory = .ok ()) : directory ≠ "" := by
  rintro rfl
  exact absurd h (by decide)

/-- The way to an entry starts where the way to its directory starts -/
theorem origin_join (hname : Path.IsPlain name) :
    t.origin (Path.join directory name) = t.origin directory := by
  rw [origin, Path.isAbsolute_join hname, origin]

/-- and takes one step more. -/
theorem walk_join (hname : Path.IsPlain name) (hdirectory : t.place directory = .ok p) :
    t.walk (t.origin directory) (Path.names (Path.join directory name)) = t.walk p [name] := by
  obtain ⟨hcheck, hwalk⟩ := place_eq_ok_iff.1 hdirectory
  obtain ⟨steps, hsteps, hnames⟩ := Path.names_join hname (ne_empty_of_check hcheck)
  have hthere : t.walk (t.origin directory) steps = .ok p := by
    rcases hnames with hnames | hnames
    · rwa [hnames] at hwalk
    · rw [hnames, walk_append] at hwalk
      cases hfront : t.walk (t.origin directory) steps with
      | error fault =>
        rw [hfront] at hwalk
        cases hwalk
      | ok r =>
        rw [hfront] at hwalk
        rw [walk_empty_name hwalk]
  rw [hsteps, walk_append, hthere]
  rfl

/-- The path of an entry leads to its name in the directory, if it leads anywhere. -/
theorem place_join (hname : Path.IsPlain name) (hdirectory : t.place directory = .ok p)
    (h : t.look? p = some (.directory inside)) :
    t.place (Path.join directory name) = .ok q ↔
      check (Path.join directory name) = .ok () ∧ name.utf8ByteSize ≤ nameBound ∧
        q = p ++ [name] := by
  rw [place_eq_ok_iff, origin_join hname, walk_join hname hdirectory, walk_plain hname h]
  split
  next hlong => simp [Nat.not_le.2 hlong]
  next hshort => simp [Nat.not_lt.1 hshort, eq_comm]

/-! ## Walking past a new file -/

section Past

variable (hplace : ∀ inside, t.look? place ≠ some (.directory inside))
include hplace

/-- A file that takes the place of no directory is in nobody's way, for a step -/
theorem step_put_file {x : String} (h : t.walk here [x] = .ok p) :
    (t.put place (.file content)).walk here [x] = .ok p := by
  cases hhere : t.look? here with
  | none =>
    rw [walk, hhere] at h
    cases h
  | some entry =>
    cases entry with
    | file content =>
      rw [walk, hhere] at h
      cases h
    | deadLink fault =>
      rw [walk, hhere] at h
      cases h
    | directory inside =>
      obtain ⟨inside', hthere⟩ :
          ∃ inside', (t.put place (.file content)).look? here = some (.directory inside') :=
        FileEntry.exists_look?_put hplace hhere
      rw [walk, hhere] at h
      rw [walk, hthere]
      exact h

/-- and for a whole path. -/
theorem walk_put_file (h : t.walk here xs = .ok p) :
    (t.put place (.file content)).walk here xs = .ok p := by
  induction xs generalizing here with
  | nil => exact h
  | cons x xs ih =>
    rw [walk_cons] at h ⊢
    cases hstep : t.walk here [x] with
    | error fault =>
      rw [hstep] at h
      cases h
    | ok q =>
      rw [hstep] at h
      rw [step_put_file hplace hstep]
      exact ih h

end Past

/-- Where a directory is found. -/
theorem find_eq_directory_iff :
    t.find directory = .ok (.directory inside) ↔
      ∃ p, t.place directory = .ok p ∧ t.look? p = some (.directory inside) := by
  simp only [find, bind, Except.bind]
  cases t.place directory with
  | error fault => exact ⟨fun h => (by cases h), fun ⟨_, h, _⟩ => (by cases h)⟩
  | ok p =>
    rcases hlook : t.look? p with _ | content | entries | fault <;>
      simp [hlook, pure, Except.pure, throw, throwThe, MonadExceptOf.throw]

/-- What a write does: the file is put at its place, where nothing stands or a file. -/
theorem write_eq_ok_iff {path : Path} :
    t.write path content = .ok t' ↔
      ∃ q, t.place path = .ok q ∧ (∀ entry ∈ t.look? q, ∃ old, entry = .file old) ∧
        t' = t.put q (.file content) := by
  simp only [write, bind, Except.bind]
  cases t.place path with
  | error fault => exact ⟨fun h => (by cases h), fun ⟨_, h, _⟩ => (by cases h)⟩
  | ok q =>
    rcases hlook : t.look? q with _ | old | entries | fault <;>
      simp [hlook, pure, Except.pure, throw, throwThe, MonadExceptOf.throw, eq_comm]

section InDirectory

variable (hname : Path.IsPlain name)
include hname

/-- When a file is written into a directory, the path of the directory leads where it led, and the
file comes first there, in place of an entry of that name. -/
theorem place_write (hdirectory : t.place directory = .ok p)
    (hlook : t.look? p = some (.directory inside))
    (hwrite : t.write (Path.join directory name) content = .ok t') :
    t'.place directory = .ok p ∧
      t'.look? p = some (.directory ((name, .file content) :: inside.filter (·.1 ≠ name))) := by
  obtain ⟨q, hjoined, hfree, rfl⟩ := write_eq_ok_iff.1 hwrite
  obtain ⟨-, -, rfl⟩ := (place_join hname hdirectory hlook).1 hjoined
  obtain ⟨hcheck, hwalk⟩ := place_eq_ok_iff.1 hdirectory
  refine ⟨place_eq_ok_iff.2 ⟨hcheck, walk_put_file (fun below hbelow => ?_) hwalk⟩,
    FileEntry.look?_put_above hlook⟩
  obtain ⟨old, hfile⟩ := hfree _ hbelow
  cases hfile

variable (hfind : t.find directory = .ok (.directory inside))
include hfind

/-- What is found at the path of a directory that a file was written into. -/
theorem find_write (hwrite : t.write (Path.join directory name) content = .ok t') :
    t'.find directory =
      .ok (.directory ((name, .file content) :: inside.filter (·.1 ≠ name))) := by
  obtain ⟨p, hdirectory, hlook⟩ := find_eq_directory_iff.1 hfind
  exact find_eq_directory_iff.2 ⟨p, place_write hname hdirectory hlook hwrite⟩

/-- A file can be written into a directory when its path and its name are not too long, unless
something that is no file has the name. -/
theorem exists_write (hcheck : check (Path.join directory name) = .ok ())
    (hshort : name.utf8ByteSize ≤ nameBound)
    (hfree : ∀ entry ∈ inside.lookup name, ∃ old, entry = .file old) :
    ∃ t', t.write (Path.join directory name) content = .ok t' := by
  obtain ⟨p, hdirectory, hlook⟩ := find_eq_directory_iff.1 hfind
  have hjoined := (place_join hname hdirectory hlook).2 ⟨hcheck, hshort, rfl⟩
  refine ⟨_, write_eq_ok_iff.2 ⟨_, hjoined, fun entry hentry => ?_, rfl⟩⟩
  rw [look?, FileEntry.look?_concat hlook] at hentry
  exact hfree entry hentry

end InDirectory

end FileTree

/-! ## Rows of files -/

/-- Files with their names. -/
abbrev NamedFiles := List (String × Bytes)

namespace NamedFiles

/-- What is in a directory after the files were written into it, in order. -/
def leave (inside : List (String × FileEntry)) : NamedFiles → List (String × FileEntry)
  | [] => inside
  | (name, content) :: rest =>
    leave ((name, .file content) :: inside.filter (·.1 ≠ name)) rest

variable {files : NamedFiles} {inside : List (String × FileEntry)} {name : String}

/-- Of several files of one name the last is left. -/
theorem lookup_leave :
    (leave inside files).lookup name =
      ((files.reverse.lookup name).map FileEntry.file).or (inside.lookup name) := by
  induction files generalizing inside with
  | nil => rfl
  | cons f files ih =>
    obtain ⟨first, content⟩ := f
    rw [leave, ih, List.reverse_cons, List.lookup_append, List.lookup_cons]
    by_cases h : name = first
    · subst h
      cases files.reverse.lookup name <;> simp
    · rw [beq_false_of_ne h, FileEntry.lookup_filter_of_ne inside h]
      cases files.reverse.lookup name <;> simp [List.lookup_cons, beq_false_of_ne h]

/-- No two entries have the same name. -/
theorem nodup_leave (h : (inside.map Prod.fst).Nodup) :
    ((leave inside files).map Prod.fst).Nodup := by
  induction files generalizing inside with
  | nil => exact h
  | cons f files ih =>
    refine ih ?_
    rw [List.map_cons, List.nodup_cons]
    exact ⟨by simp, h.sublist (List.filter_sublist.map Prod.fst)⟩

/-- Where no two entries have the same name, what stands under a name is what is found under it. -/
theorem lookup_eq_some_iff_mem {α : Type} {entries : List (String × α)} {a : α}
    (h : (entries.map Prod.fst).Nodup) : entries.lookup name = some a ↔ (name, a) ∈ entries := by
  induction entries with
  | nil => simp
  | cons e entries ih =>
    obtain ⟨first, content⟩ := e
    rw [List.map_cons, List.nodup_cons] at h
    rw [List.lookup_cons, List.mem_cons, Prod.mk.injEq]
    by_cases hname : name = first
    · subst hname
      have hnone : (name, a) ∉ entries := fun hmem => h.1 (List.mem_map.2 ⟨_, hmem, rfl⟩)
      simp [hnone, eq_comm]
    · simp [beq_false_of_ne hname, hname, ih h.2]

theorem mem_leave_iff {entry : FileEntry} :
    (name, entry) ∈ leave [] files ↔
      ∃ content, entry = .file content ∧ files.reverse.lookup name = some content := by
  have hnodup : ((leave [] files).map Prod.fst).Nodup := nodup_leave List.nodup_nil
  rw [← lookup_eq_some_iff_mem hnodup, lookup_leave, List.lookup_nil, Option.or_none,
    Option.map_eq_some_iff]
  exact exists_congr fun content => ⟨fun h => ⟨h.2.symm, h.1⟩, fun h => ⟨h.2, h.1.symm⟩⟩

/-- The names of what is left are those of the files. -/
theorem mem_names_leave_iff :
    name ∈ (leave [] files).map Prod.fst ↔ name ∈ files.map Prod.fst := by
  constructor
  · intro h
    obtain ⟨e, hmem, rfl⟩ := List.mem_map.1 h
    obtain ⟨content, -, hfound⟩ := mem_leave_iff.1 hmem
    obtain ⟨before, after, hsplit, -⟩ := List.lookup_eq_some_iff.1 hfound
    have hfile : (e.1, content) ∈ files := by
      rw [← List.mem_reverse, hsplit]
      exact List.mem_append_right before (List.mem_cons_self ..)
    exact List.mem_map.2 ⟨_, hfile, rfl⟩
  · intro h
    obtain ⟨f, hf, rfl⟩ := List.mem_map.1 h
    have hsome : (files.reverse.lookup f.1).isSome :=
      List.lookup_isSome_iff.2 ⟨f, List.mem_reverse.2 hf, beq_self_eq_true f.1⟩
    obtain ⟨content, hfound⟩ := Option.isSome_iff_exists.1 hsome
    have hleft : (f.1, FileEntry.file content) ∈ leave [] files :=
      mem_leave_iff.2 ⟨content, rfl, hfound⟩
    exact List.mem_map.2 ⟨_, hleft, rfl⟩

/-- There are as many files left as there are names. -/
theorem length_leave : (leave [] files).length = (files.map Prod.fst).dedup.length := by
  have hnodup : ((leave [] files).map Prod.fst).Nodup := nodup_leave List.nodup_nil
  -- two lists without repetition that have the same members
  have hperm : ((leave [] files).map Prod.fst).Perm (files.map Prod.fst).dedup := by
    rw [List.perm_ext_iff_of_nodup hnodup (List.nodup_dedup _)]
    intro name
    rw [List.mem_dedup, mem_names_leave_iff]
  rw [← hperm.length_eq, List.length_map]

/-- Every file is left exactly if no two have the same name. -/
theorem nothing_lost_iff :
    ((leave [] files).length = files.length ∧
        ∀ f ∈ files, (f.1, FileEntry.file f.2) ∈ leave [] files) ↔
      (files.map Prod.fst).Nodup := by
  rw [length_leave]
  constructor
  · rintro ⟨hlength, -⟩
    have hall := (List.dedup_sublist (files.map Prod.fst)).eq_of_length (by rwa [List.length_map])
    exact List.dedup_eq_self.1 hall
  · intro hnodup
    refine ⟨by rw [hnodup.dedup, List.length_map], fun f hf => ?_⟩
    have hreverse : (files.reverse.map Prod.fst).Nodup := by
      rwa [List.map_reverse, List.nodup_reverse]
    exact mem_leave_iff.2
      ⟨f.2, rfl, (lookup_eq_some_iff_mem hreverse).2 (List.mem_reverse.2 hf)⟩

end NamedFiles

end ImageTriage
