import ImageTriage.Debug.Directory
import ImageTriage.Proofs.Checked.Mapping

/-!
# Checked debug directories

At most 64 records are read, so their offsets are words. The data that a record leads to is looked
up in the file; what is cut out of it is the text of a path, and the two ends of a GUID.
-/

namespace ImageTriage

namespace Checked

/-- `guidText` with checked steps. -/
def guid (b : Bytes) : Checked String := do
  let word (i n : Nat) := (b.leNat? i n).getD 0
  let fourth ← cut b 8 10
  let fifth ← cut b 10 16
  return Text.hexUpper 8 (word 0 4) ++ "-" ++ Text.hexUpper 4 (word 4 2) ++ "-"
    ++ Text.hexUpper 4 (word 6 2) ++ "-" ++ Text.hexOfBytesUpper (Bytes.list fourth)
    ++ "-" ++ Text.hexOfBytesUpper (Bytes.list fifth)

/-- The path at offset `i` of a record, put into the rest of what the record says. -/
def codeViewPath (b : Bytes) (i : Nat) (rest : String → CodeView) : Checked (Option CodeView) := do
  return (← cstring? b i CodeView.pathBound).map rest

/-- `CodeView.parse?` with checked steps. -/
def codeView? (b : Bytes) : Checked (Option CodeView) :=
  match b.slice? 0 4 with
  | none => pure none
  | some signature =>
    if signature = "RSDS".toUTF8 then
      match b.slice? 4 16, b.u32? 20 with
      | some raw, some age => do
        let guid ← guid raw
        codeViewPath b 24 fun path => { signature := "RSDS", guid, age, path }
      | _, _ => pure none
    else if signature = "NB10".toUTF8 then
      match b.u32? 8, b.u32? 12 with
      | some stamp, some age =>
        codeViewPath b 16 fun path =>
          { signature := "NB10", guid := Text.hexUpper 8 stamp.toNat, age, path }
      | _, _ => pure none
    else
      pure none

/-- `DebugEntry.dataStart?` with checked steps. -/
def debugStart? (m : Mapped) (e : DebugEntry) : Checked (Option Nat) :=
  if e.dataOffset = 0 then m.sections.offset? e.dataAddress else pure (some e.dataOffset.toNat)

/-- `DebugEntry.findCodeView?` with checked steps. -/
def debugCodeView? (m : Mapped) (e : DebugEntry) : Checked (Option CodeView) :=
  if e.kind = DebugEntry.codeViewKind then do
    let start? ← debugStart? m e
    match start?.bind (m.file.slice? · e.dataSize.toNat) with
    | some data => codeView? data
    | none => return none
  else
    pure none

/-- `DebugEntry.read` with checked steps, for record `k` of those from offset `start` on. -/
def debugEntry (m : Mapped) (start k : Nat) : Checked DebugEntry := do
  let i ← row start DebugEntry.size k
  let raw ← orFault .debugDirectory (m.file.slice? i DebugEntry.size)
  let e := DebugEntry.ofBytes raw
  let codeView ← debugCodeView? m e
  return { e with codeView }

/-- `DebugEntry.parseAll` with checked steps. -/
def debugEntries (m : Mapped) (dir : DataDirectory) : Checked (List DebugEntry) :=
  if !dir.isPresent then pure []
  else do
    let start ← m.offset dir.address
    (List.range (min (dir.size.toNat / DebugEntry.size) DebugEntry.bound)).mapM (debugEntry m start)

/-! ## No step goes too far -/

theorem guid_eq {b : Bytes} (h : b.size = 16) : guid b = done (.ok (guidText b)) := by
  rw [guid, cut_eq (by omega) (by omega), ok_bind, cut_eq (by omega) (by omega), ok_bind]
  rfl

theorem codeViewPath_eq {b : Bytes} (hb : b.size < 2 ^ 62) (i : Nat) (rest : String → CodeView) :
    codeViewPath b i rest = done (.ok ((b.cstring? i CodeView.pathBound).map rest)) := by
  have htext : cstring? b i CodeView.pathBound = done (.ok (b.cstring? i CodeView.pathBound)) :=
    cstring?_eq hb
  rw [codeViewPath, htext, ok_bind, pure_eq]

theorem codeView?_eq {b : Bytes} (hb : b.size < 2 ^ 62) :
    codeView? b = done (.ok (CodeView.parse? b)) := by
  unfold codeView? CodeView.parse?
  cases b.slice? 0 4 with
  | none => rfl
  | some signature =>
    dsimp only
    simp only [codeViewPath_eq hb]
    rw [Option.bind_eq_bind, Option.bind_some]
    split
    · cases hraw : b.slice? 4 16 with
      | none => rfl
      | some raw =>
        cases b.u32? 20 with
        | none => rfl
        | some age =>
          dsimp only
          rw [guid_eq (Bytes.size_slice? hraw), ok_bind]
          cases b.cstring? 24 CodeView.pathBound <;> rfl
    · split
      · cases b.u32? 8 with
        | none => rfl
        | some stamp =>
          cases b.u32? 12 with
          | none => rfl
          | some age => cases b.cstring? 16 CodeView.pathBound <;> rfl
      · rfl

section Debug

variable {m : MappedFile} (hm : Mapped.Fits m)
include hm

theorem debugStart?_eq (e : DebugEntry) :
    debugStart? (.of m) e = done (.ok (e.dataStart? m)) := by
  rw [debugStart?, Mapped.of_sections, Sections.offset?_eq hm.sections_lt, DebugEntry.dataStart?]
  split <;> rfl

omit hm in
theorem findCodeView?_of_kind {e : DebugEntry} (h : e.kind = DebugEntry.codeViewKind) :
    e.findCodeView? m = (e.dataStart? m).bind fun start =>
      (m.file.slice? start e.dataSize.toNat).bind CodeView.parse? := by
  rw [DebugEntry.findCodeView?, guard, if_pos h]
  rfl

omit hm in
theorem findCodeView?_of_other {e : DebugEntry} (h : e.kind ≠ DebugEntry.codeViewKind) :
    e.findCodeView? m = none := by
  rw [DebugEntry.findCodeView?, guard, if_neg h]
  rfl

theorem debugCodeView?_eq (e : DebugEntry) :
    debugCodeView? (.of m) e = done (.ok (e.findCodeView? m)) := by
  unfold debugCodeView?
  rw [debugStart?_eq hm, ok_bind, Mapped.of_file]
  by_cases hkind : e.kind = DebugEntry.codeViewKind
  · rw [if_pos hkind, findCodeView?_of_kind hkind]
    cases e.dataStart? m with
    | none => rfl
    | some start =>
      rw [Option.bind_some, Option.bind_some]
      cases hdata : m.file.slice? start e.dataSize.toNat with
      | none => rfl
      | some data =>
        have hsize := Bytes.size_slice? hdata
        have hlength := e.dataSize.toNat_lt
        exact codeView?_eq (by omega)
  · rw [if_neg hkind, findCodeView?_of_other hkind]
    rfl

theorem debugEntry_eq {start k : Nat} (hstart : start < 2 ^ 33) (hk : k < 64) :
    debugEntry (.of m) start k = done (DebugEntry.read m (start + DebugEntry.size * k)) := by
  unfold debugEntry DebugEntry.read
  rw [row_eq (by unfold DebugEntry.size; omega), ok_bind, Mapped.of_file]
  refine bind_eq fun raw _ => ?_
  dsimp only
  rw [debugCodeView?_eq hm, ok_bind]
  rfl

/-- The debug directory is read without a trap. -/
theorem debugEntries_eq (dir : DataDirectory) :
    debugEntries (.of m) dir = done (DebugEntry.parseAll m dir) := by
  unfold debugEntries DebugEntry.parseAll
  cases hpresent : dir.isPresent with
  | false => rfl
  | true =>
    simp only [Bool.not_true, Bool.false_eq_true, if_false]
    rw [Mapped.offset_eq hm]
    refine bind_eq fun start hstart => ?_
    refine mapM_eq fun k hk => debugEntry_eq hm (Mapped.lt_of_offset hstart) ?_
    have hk := List.mem_range.1 hk
    unfold DebugEntry.bound at hk
    omega

end Debug

end Checked

end ImageTriage
