import ImageTriage.Debug.CodeView
import ImageTriage.Proofs.Text.Numeral
import ImageTriage.Proofs.Text.Utf8

/-!
# Writing CodeView records

`rsdsBytes` and `nb10Bytes` write the two forms of a record. Reading undoes both, whatever follows
the zero byte of the path (`parse?_rsdsBytes`, `parse?_nb10Bytes`). Nothing else is read: a record
that is read begins with the mark of one form and has all of its fixed part (`form_of_parse?`).

The text of a GUID is the text of its bytes in another order (`guidText_eq`): each of the first
three fields has its highest byte first. So the text determines the GUID (`guidText_inj`).
-/

namespace ImageTriage

open Bytes Text

/-! ## The text of a GUID -/

/-- The bytes of a GUID in the order of its text: the first three fields backwards, the last eight
bytes as they stand. -/
def registryText (guid : Bytes) : String :=
  hexOfBytesUpper (list (guid.extract 0 4)).reverse ++ "-" ++
    hexOfBytesUpper (list (guid.extract 4 6)).reverse ++ "-" ++
    hexOfBytesUpper (list (guid.extract 6 8)).reverse ++ "-" ++
    hexOfBytesUpper (list (guid.extract 8 10)) ++ "-" ++
    hexOfBytesUpper (list (guid.extract 10 16))

section Guid

variable {guid other : Bytes}

/-- A little-endian field is written with its highest byte first. -/
theorem hexUpper_field {i k : Nat} (hk : 0 < k) (h : i + k ≤ guid.size) :
    hexUpper (2 * k) ((guid.leNat? i k).getD 0) =
      hexOfBytesUpper (list (guid.extract i (i + k))).reverse := by
  obtain ⟨v, hv⟩ := exists_leNat? h
  have hlt := leNat?_lt hv
  rw [Nat.one_shiftLeft] at hlt
  have hbytes := (holds_of_leNat? hv).list_extract (by omega)
  rw [length_leBytes] at hbytes
  rw [hv, Option.getD_some, hexUpper_eq_hexOfBytesUpper hk hlt, hbytes]
  rfl

theorem guidText_eq (h : guid.size = 16) : guidText guid = registryText guid := by
  have hfield : ∀ i k, 0 < k → i + k ≤ 16 → hexUpper (2 * k) ((guid.leNat? i k).getD 0) =
      hexOfBytesUpper (list (guid.extract i (i + k))).reverse := by
    intro i k hk hfits
    exact hexUpper_field hk (h ▸ hfits)
  have hfirst := hfield 0 4 (by decide) (by decide)
  have hsecond := hfield 4 2 (by decide) (by decide)
  have hthird := hfield 6 2 (by decide) (by decide)
  rw [guidText, registryText]
  dsimp only
  rw [hfirst, hsecond, hthird]

theorem list_eq_fields (h : guid.size = 16) :
    list guid = list (guid.extract 0 4) ++ (list (guid.extract 4 6) ++ (list (guid.extract 6 8) ++
      (list (guid.extract 8 10) ++ list (guid.extract 10 16)))) := by
  rw [← list_extract_append (by decide) (by decide), ← list_extract_append (by decide) (by decide),
    ← list_extract_append (by decide) (by decide), ← list_extract_append (by decide) (by decide),
    ← h, ByteArray.extract_zero_size]

/-- The text of a GUID determines its bytes, field by field from the left. -/
theorem guidText_inj (hguid : guid.size = 16) (hother : other.size = 16)
    (h : guidText guid = guidText other) : guid = other := by
  have hlength : ∀ i j, (list (guid.extract i j)).length = (list (other.extract i j)).length := by
    intro i j
    rw [length_list_extract, length_list_extract, hguid, hother]
  have hback : ∀ i j, (list (guid.extract i j)).reverse.length =
      (list (other.extract i j)).reverse.length := by
    intro i j
    rw [List.length_reverse, List.length_reverse, hlength]
  rw [guidText_eq hguid, guidText_eq hother, registryText, registryText] at h
  simp only [String.append_assoc] at h
  obtain ⟨hfirst, h⟩ := hexOfBytesUpper_append_inj (hback 0 4) h
  obtain ⟨hsecond, h⟩ := hexOfBytesUpper_append_inj (hback 4 6) ((String.append_right_inj _).1 h)
  obtain ⟨hthird, h⟩ := hexOfBytesUpper_append_inj (hback 6 8) ((String.append_right_inj _).1 h)
  obtain ⟨hfourth, h⟩ := hexOfBytesUpper_append_inj (hlength 8 10) ((String.append_right_inj _).1 h)
  have hlast := (String.append_right_inj _).1 h
  rw [← String.append_empty (s := hexOfBytesUpper (list (guid.extract 10 16))),
    ← String.append_empty (s := hexOfBytesUpper (list (other.extract 10 16)))] at hlast
  obtain ⟨hfifth, -⟩ := hexOfBytesUpper_append_inj (hlength 10 16) hlast
  have hlist : list guid = list other := by
    rw [list_eq_fields hguid, list_eq_fields hother, List.reverse_inj.1 hfirst,
      List.reverse_inj.1 hsecond, List.reverse_inj.1 hthird, hfourth, hfifth]
  exact eq_of_list_eq hlist

end Guid

namespace CodeView

open Utf8

/-! ## The two forms -/

/-- A record that identifies the file by a GUID. -/
def rsdsBytes (guid : Bytes) (age : UInt32) (path : String) : List UInt8 :=
  Utf8.encode "RSDS" ++ list guid ++ leBytes 4 age.toNat ++ nameBytes path

/-- A record that identifies the file by a stamp. The four bytes behind the mark are not read. -/
def nb10Bytes (unread : Vector UInt8 4) (stamp age : UInt32) (path : String) : List UInt8 :=
  Utf8.encode "NB10" ++ unread.toList ++ leBytes 4 stamp.toNat ++ leBytes 4 age.toNat ++
    nameBytes path

variable {b guid : Bytes} {unread : Vector UInt8 4} {stamp age : UInt32} {path : String}

theorem length_rsds : (Utf8.encode "RSDS").length = 4 := rfl

theorem length_nb10 : (Utf8.encode "NB10").length = 4 := rfl

/-- The first four bytes of a record are a mark where that mark stands. -/
theorem slice?_mark {mark : String} (hmark : (Utf8.encode mark).length = 4) :
    b.slice? 0 4 = some mark.toUTF8 ↔ b.Holds 0 (Utf8.encode mark) := by
  constructor
  · intro h
    unfold slice? at h
    split at h
    case isTrue =>
      have hholds := b.holds_list_extract 0 (0 + 4)
      rwa [Option.some.inj h, ← toByteArray_encode, list_toByteArray] at hholds
    case isFalse => cases h
  · intro h
    have hfits := h.fits (Nat.zero_le _)
    rw [hmark] at hfits
    have hcut := h.extract (Nat.zero_le _)
    rw [hmark, toByteArray_encode] at hcut
    rw [slice?_eq_some hfits, hcut]

theorem parse?_rsdsBytes (h : b.Holds 0 (rsdsBytes guid age path)) (hguid : guid.size = 16)
    (hpath : IsName pathBound path) :
    parse? b = some ⟨"RSDS", registryText guid, age, path⟩ := by
  have hlength : (list guid).length = 16 := hguid
  simp only [rsdsBytes, holds_append, List.length_append, length_rsds, length_leBytes, hlength,
    Nat.zero_add, Nat.reduceAdd] at h
  obtain ⟨⟨⟨hmark, hbytes⟩, hage⟩, hname⟩ := h
  have hfits := hage.fits_of_ne_nil (by simp [leBytes])
  rw [length_leBytes] at hfits
  have hcut := hbytes.extract (by omega)
  rw [hlength] at hcut
  have hslice : b.slice? 4 16 = some guid := by
    rw [slice?_eq_some (by omega), hcut, eq_of_list_eq (list_toByteArray (list guid))]
  rw [parse?, (slice?_mark length_rsds).2 hmark, hslice, hage.u32?, hname.cstring? hpath,
    ← guidText_eq hguid]
  rfl

theorem parse?_nb10Bytes (h : b.Holds 0 (nb10Bytes unread stamp age path))
    (hpath : IsName pathBound path) :
    parse? b = some ⟨"NB10", hexOfBytesUpper (beBytes 4 stamp.toNat), age, path⟩ := by
  have hlength : unread.toList.length = 4 := Vector.length_toList
  simp only [nb10Bytes, holds_append, List.length_append, length_nb10, length_leBytes, hlength,
    Nat.zero_add, Nat.reduceAdd] at h
  obtain ⟨⟨⟨⟨hmark, -⟩, hstamp⟩, hage⟩, hname⟩ := h
  have hother : "NB10".toUTF8 ≠ "RSDS".toUTF8 := by decide +kernel
  have htext : hexUpper 8 stamp.toNat = hexOfBytesUpper (beBytes 4 stamp.toNat) :=
    hexUpper_eq_hexOfBytesUpper (k := 4) (by decide) stamp.toNat_lt
  rw [parse?, (slice?_mark length_nb10).2 hmark, hstamp.u32?, hage.u32?, hname.cstring? hpath]
  simp only [Option.bind_eq_bind, Option.bind_some, if_neg hother, if_true, htext]
  rfl

/-- A record that is read has one of the two forms, with all of its fixed part. -/
theorem form_of_parse? {view : CodeView} (h : parse? b = some view) :
    (view.signature = "RSDS" ∧ b.Holds 0 (Utf8.encode "RSDS") ∧ 24 ≤ b.size) ∨
      (view.signature = "NB10" ∧ b.Holds 0 (Utf8.encode "NB10") ∧ 16 ≤ b.size) := by
  unfold parse? at h
  obtain ⟨mark, hmark, h⟩ := Option.bind_eq_some_iff.1 h
  split at h
  case isTrue hrsds =>
    obtain ⟨guid, -, h⟩ := Option.bind_eq_some_iff.1 h
    obtain ⟨age, hage, h⟩ := Option.bind_eq_some_iff.1 h
    obtain ⟨path, -, h⟩ := Option.bind_eq_some_iff.1 h
    cases h
    exact .inl ⟨rfl, (slice?_mark length_rsds).1 (hrsds ▸ hmark), fits_of_u32? hage⟩
  case isFalse =>
    split at h
    case isTrue hnb10 =>
      obtain ⟨stamp, -, h⟩ := Option.bind_eq_some_iff.1 h
      obtain ⟨age, hage, h⟩ := Option.bind_eq_some_iff.1 h
      obtain ⟨path, -, h⟩ := Option.bind_eq_some_iff.1 h
      cases h
      exact .inr ⟨rfl, (slice?_mark length_nb10).1 (hnb10 ▸ hmark), fits_of_u32? hage⟩
    case isFalse => cases h

/-- Reading undoes both ways of writing a record, whatever stands behind it; the text of a GUID
determines the GUID; and nothing is read that begins otherwise or breaks off in its fixed part. -/
theorem parse?_undoes_writing (hguid : guid.size = 16) (hpath : IsName 1024 path)
    (unread : Vector UInt8 4) (stamp age : UInt32) (rest : List UInt8) :
    parse? (rsdsBytes guid age path ++ rest).toByteArray =
        some ⟨"RSDS", registryText guid, age, path⟩ ∧
      parse? (nb10Bytes unread stamp age path ++ rest).toByteArray =
        some ⟨"NB10", hexOfBytesUpper (beBytes 4 stamp.toNat), age, path⟩ ∧
      guidText guid = registryText guid ∧
      (∀ other : Bytes, other.size = 16 → guidText guid = guidText other → guid = other) ∧
      ∀ record view, parse? record = some view →
        (view.signature = "RSDS" ∧ record.Holds 0 (Utf8.encode "RSDS") ∧ 24 ≤ record.size) ∨
          (view.signature = "NB10" ∧ record.Holds 0 (Utf8.encode "NB10") ∧ 16 ≤ record.size) :=
  ⟨parse?_rsdsBytes (holds_toByteArray _).left hguid hpath,
    parse?_nb10Bytes (holds_toByteArray _).left hpath, guidText_eq hguid,
    fun _ hother => guidText_inj hguid hother, fun _ _ => form_of_parse?⟩

/-- The GUID whose sixteen bytes are numbered from zero. -/
def countingGuid : Bytes := ⟨#[0, 1, 2, 3, 4, 5, 6, 7, 8, 9, 10, 11, 12, 13, 14, 15]⟩

theorem parse?_undoes_writing_counting :
    countingGuid.size = 16 ∧ IsName 1024 "a.pdb" ∧
      parse? (rsdsBytes countingGuid 7 "a.pdb" ++ [1]).toByteArray =
        some ⟨"RSDS", "03020100-0504-0706-0809-0A0B0C0D0E0F", 7, "a.pdb"⟩ ∧
      parse? (nb10Bytes (Vector.replicate 4 0) 0xABC 7 "a.pdb" ++ [1]).toByteArray =
        some ⟨"NB10", "00000ABC", 7, "a.pdb"⟩ := by
  have hpath : IsName 1024 "a.pdb" := by decide +kernel
  have htext : registryText countingGuid = "03020100-0504-0706-0809-0A0B0C0D0E0F" := by
    decide +kernel
  have hstamp : hexOfBytesUpper (beBytes 4 (0xABC : UInt32).toNat) = "00000ABC" := by
    decide +kernel
  have hguid : countingGuid.size = 16 := rfl
  obtain ⟨hrsds, hnb10, -⟩ :=
    parse?_undoes_writing hguid hpath (Vector.replicate 4 0) 0xABC 7 [1]
  rw [htext] at hrsds
  rw [hstamp] at hnb10
  exact ⟨hguid, hpath, hrsds, hnb10⟩

end CodeView

end ImageTriage
