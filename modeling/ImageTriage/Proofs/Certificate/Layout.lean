import ImageTriage.Certificate
import ImageTriage.Proofs.Bytes.Layout

/-!
# Certificate tables laid out in a file

A `StoredCertificate` is what is written of a certificate, and `LaidOut` says that a row of them
lies in a file: each begins at the first multiple of eight that is not before the end of the one
before it. Reading gives back what was written (`readFrom_of_laidOut`).

Whatever is read from a table stands in it. `placed` are the certificates with the places where they
begin, `nextFree` is the place where one more would begin; no two certificates overlap, and none
reaches out of the table (`placed_of_readFrom`). Both ways together are `parseAll_undoes_layout`.
-/

namespace ImageTriage

open Bytes

namespace Certificate

/-- The first multiple of eight that is not before an offset. -/
def nextEight (i : Nat) : Nat := (i + 7) / 8 * 8

theorem le_nextEight (i : Nat) : i ≤ nextEight i := by
  rw [nextEight]
  omega

end Certificate

/-! ## Writing and reading -/

/-- What is written of a certificate. -/
structure StoredCertificate where
  revision : UInt16
  kind : UInt16
  payload : List UInt8
  fits : payload.length < UInt32.size - 8

namespace StoredCertificate

/-- The number of bytes of a certificate. -/
def length (s : StoredCertificate) : Nat := 8 + s.payload.length

/-- The bytes of a certificate: its length, revision and kind, and the payload. -/
def bytes (s : StoredCertificate) : List UInt8 :=
  leBytes 4 s.length ++ leBytes 2 s.revision.toNat ++ leBytes 2 s.kind.toNat ++ s.payload

/-- What the reader should find at an offset. Of the offset itself 32 bits are kept. -/
def certificate (s : StoredCertificate) (i : Nat) : Certificate where
  offset := UInt32.ofNat i
  length := UInt32.ofNat s.length
  revision := s.revision
  kind := s.kind
  payload := s.payload.toByteArray

/-- The certificates lie in the file from an offset on, each at the next multiple of eight behind
the one before it, and end at `stop` at the latest. -/
def LaidOut (b : Bytes) (stop : Nat) : Nat → List StoredCertificate → Prop
  | _, [] => True
  | i, s :: ss =>
    b.Holds i s.bytes ∧ i + s.length ≤ stop ∧
      LaidOut b stop (Certificate.nextEight (i + s.length)) ss

/-- Where one more certificate would begin. -/
def nextFree : Nat → List StoredCertificate → Nat
  | i, [] => i
  | i, s :: ss => nextFree (Certificate.nextEight (i + s.length)) ss

/-- What the reader should find of a row of certificates. -/
def certificates : Nat → List StoredCertificate → List Certificate
  | _, [] => []
  | i, s :: ss => s.certificate i :: certificates (Certificate.nextEight (i + s.length)) ss

variable {b : Bytes} {i n stop : Nat} {s : StoredCertificate} {ss : List StoredCertificate}

theorem toNat_length (s : StoredCertificate) (i : Nat) :
    (s.certificate i).length.toNat = s.length := by
  have hfits := s.fits
  refine UInt32.toNat_ofNat_of_lt ?_
  rw [length]
  omega

theorem read_of_holds (h : b.Holds i s.bytes) (hend : i + s.length ≤ stop) (hstop : stop ≤ b.size) :
    Certificate.read b i stop = .ok (s.certificate i) := by
  have hlength : b.u32? i = some (s.certificate i).length := by
    refine Holds.u32? ?_
    rw [s.toNat_length]
    exact h.left.left.left
  have hrevision : b.u16? (i + 4) = some s.revision := by
    have hholds := h.left.left.right
    rw [length_leBytes] at hholds
    exact hholds.u16?
  have hkind : b.u16? (i + 6) = some s.kind := by
    have hholds := h.left.right
    rw [List.length_append, length_leBytes, length_leBytes] at hholds
    exact hholds.u16?
  have hpayload : b.extract (i + 8) (i + s.length) = s.payload.toByteArray := by
    have hholds := h.right
    rw [List.length_append, List.length_append, length_leBytes, length_leBytes,
      length_leBytes] at hholds
    rw [length, ← Nat.add_assoc]
    exact hholds.extract (by rw [length] at hend; omega)
  have hinside : ¬ ((s.certificate i).length.toNat < 8 ∨
      stop < i + (s.certificate i).length.toNat) := by
    rw [s.toNat_length, length] at *
    omega
  rw [Certificate.read, hlength, hrevision, hkind]
  simp only [orFault_some, ok_bind, if_neg hinside, pure_eq_ok]
  rw [s.toNat_length, hpayload]
  rfl

/-- What was written is read, when the table ends before one more certificate could begin. -/
theorem readFrom_of_laidOut (h : LaidOut b stop i ss) (hstop : stop ≤ b.size)
    (hcount : ss.length ≤ n) (hend : stop ≤ nextFree i ss) :
    Certificate.readFrom b stop n i = .ok (certificates i ss) := by
  induction ss generalizing i n with
  | nil =>
    rw [nextFree] at hend
    cases n with
    | zero => rfl
    | succ n => rw [Certificate.readFrom, if_neg (by omega), certificates]
  | cons s ss ih =>
    obtain ⟨hs, hinside, hss⟩ := h
    obtain ⟨n, rfl⟩ : ∃ rest, n = rest + 1 := ⟨n - 1, by rw [List.length_cons] at hcount; omega⟩
    have hrest := ih hss (Nat.le_of_succ_le_succ hcount) hend
    rw [Certificate.readFrom, if_pos (by rw [length] at hinside; omega),
      read_of_holds hs hinside hstop, ok_bind, s.toNat_length, alignUp_eight]
    rw [Certificate.nextEight] at hrest
    rw [hrest]
    rfl

end StoredCertificate

/-! ## Where certificates stand -/

namespace Certificate

/-- The certificate is what the bytes from offset `i` on say, and it ends by `stop`. -/
structure StandsAt (b : Bytes) (i stop : Nat) (c : Certificate) : Prop where
  offset_eq : c.offset.toNat = i % UInt32.size
  fixed_holds : b.Holds i
    (leBytes 4 c.length.toNat ++ leBytes 2 c.revision.toNat ++ leBytes 2 c.kind.toNat)
  eight_le : 8 ≤ c.length.toNat
  end_le : i + c.length.toNat ≤ stop
  payload_eq : c.payload = b.extract (i + 8) (i + c.length.toNat)

/-- The certificates with the places where they begin. -/
def placed : Nat → List Certificate → List (Nat × Certificate)
  | _, [] => []
  | i, c :: cs => (i, c) :: placed (nextEight (i + c.length.toNat)) cs

/-- Where one more certificate would begin. -/
def nextFree : Nat → List Certificate → Nat
  | i, [] => i
  | i, c :: cs => nextFree (nextEight (i + c.length.toNat)) cs

variable {b : Bytes} {i n stop : Nat} {c : Certificate} {cs : List Certificate}

theorem map_placed (i : Nat) (cs : List Certificate) : (placed i cs).map Prod.snd = cs := by
  induction cs generalizing i with
  | nil => rfl
  | cons c cs ih => rw [placed, List.map_cons, ih]

theorem le_of_mem_placed {x : Nat × Certificate} (h : x ∈ placed i cs) : i ≤ x.1 := by
  induction cs generalizing i with
  | nil => cases h
  | cons c cs ih =>
    have hnext := le_nextEight (i + c.length.toNat)
    rcases List.mem_cons.1 h with rfl | h
    · exact Nat.le_refl i
    · have hrest := ih h
      omega

theorem pairwise_placed (i : Nat) (cs : List Certificate) :
    (placed i cs).Pairwise fun x y => x.1 + x.2.length.toNat ≤ y.1 := by
  induction cs generalizing i with
  | nil => exact .nil
  | cons c cs ih =>
    refine .cons (fun x hx => ?_) (ih _)
    have hnext := le_nextEight (i + c.length.toNat)
    have hx := le_of_mem_placed hx
    dsimp only
    omega

theorem standsAt_of_read (h : read b i stop = .ok c) : c.StandsAt b i stop := by
  obtain ⟨length, hlength, h⟩ := bind_eq_ok_iff.1 h
  obtain ⟨revision, hrevision, h⟩ := bind_eq_ok_iff.1 h
  obtain ⟨kind, hkind, h⟩ := bind_eq_ok_iff.1 h
  dsimp only at h
  split at h
  case isTrue => cases h
  case isFalse hinside =>
    cases h
    refine ⟨UInt32.toNat_ofNat', ?_, by dsimp only; omega, by dsimp only; omega, rfl⟩
    refine holds_append.2 ⟨holds_append.2 ⟨?_, ?_⟩, ?_⟩
    · exact holds_of_u32? (orFault_eq_ok_iff.1 hlength)
    · rw [length_leBytes]
      exact holds_of_u16? (orFault_eq_ok_iff.1 hrevision)
    · rw [List.length_append, length_leBytes, length_leBytes]
      exact holds_of_u16? (orFault_eq_ok_iff.1 hkind)

/-- What is read stands in the table, and reading stops only at its end or at the bound. -/
theorem placed_of_readFrom (h : readFrom b stop n i = .ok cs) :
    cs.length ≤ n ∧ (∀ x ∈ placed i cs, x.2.StandsAt b x.1 stop) ∧
      (cs.length = n ∨ stop < nextFree i cs + 8) := by
  induction n generalizing i cs with
  | zero =>
    cases h
    exact ⟨Nat.le_refl 0, fun x hx => (List.not_mem_nil hx).elim, .inl rfl⟩
  | succ n ih =>
    rw [readFrom] at h
    split at h
    case isTrue =>
      obtain ⟨c, hc, h⟩ := bind_eq_ok_iff.1 h
      obtain ⟨rest, hrest, h⟩ := bind_eq_ok_iff.1 h
      cases h
      rw [alignUp_eight] at hrest
      obtain ⟨hcount, hplaced, hend⟩ := ih hrest
      refine ⟨Nat.succ_le_succ hcount, fun x hx => ?_, hend.imp (congrArg (· + 1)) id⟩
      rcases List.mem_cons.1 hx with rfl | hx
      · exact standsAt_of_read hc
      · exact hplaced x hx
    case isFalse hroom =>
      cases h
      exact ⟨Nat.zero_le _, fun x hx => (List.not_mem_nil hx).elim, .inr (by rw [nextFree]; omega)⟩

theorem fault_of_read {fault : Fault} (h : read b i stop = .error fault) :
    fault = .certificateTable := by
  rw [read] at h
  cases hlength : b.u32? i <;> cases hrevision : b.u16? (i + 4) <;>
    cases hkind : b.u16? (i + 6) <;>
    simp only [hlength, hrevision, hkind, orFault_some, orFault_none, ok_bind, error_bind] at h
  case some.some.some =>
    split at h
    · cases h
      rfl
    · cases h
  all_goals
    cases h
    rfl

theorem fault_of_readFrom {fault : Fault} (h : readFrom b stop n i = .error fault) :
    fault = .certificateTable := by
  induction n generalizing i with
  | zero => cases h
  | succ n ih =>
    rw [readFrom] at h
    split at h
    case isTrue =>
      cases hc : read b i stop with
      | error fault' =>
        rw [hc, error_bind] at h
        cases h
        exact fault_of_read hc
      | ok c =>
        rw [hc, ok_bind] at h
        cases hrest : readFrom b stop n (alignUp 8 (i + c.length.toNat)) with
        | error fault' =>
          rw [hrest, error_bind] at h
          cases h
          exact ih hrest
        | ok rest =>
          rw [hrest] at h
          cases h
    case isFalse => cases h

theorem parseAll_eq_readFrom {dir : DataDirectory} (hpresent : dir.isPresent = true)
    (hstop : dir.address.toNat + dir.size.toNat ≤ b.size) :
    parseAll b dir =
      readFrom b (dir.address.toNat + dir.size.toNat) bound dir.address.toNat := by
  rw [parseAll, hpresent, if_neg (by decide), if_neg (by omega)]

/-- A table that holds a certificate is not empty. -/
theorem isPresent_of_laidOut {dir : DataDirectory} {stored : List StoredCertificate}
    (haddress : dir.address ≠ 0) (hne : stored ≠ [])
    (h : StoredCertificate.LaidOut b (dir.address.toNat + dir.size.toNat) dir.address.toNat
      stored) : dir.isPresent = true := by
  cases stored with
  | nil => contradiction
  | cons s stored =>
    obtain ⟨-, hinside, -⟩ := h
    have hsize : dir.size ≠ 0 := by
      intro hzero
      rw [hzero, StoredCertificate.length, UInt32.toNat_zero] at hinside
      omega
    simp [DataDirectory.isPresent, haddress, hsize]

/-- Certificates that are laid out in a file are read as they were written, and whatever is read
stands in the table, one certificate behind the other. -/
theorem parseAll_undoes_layout (b : Bytes) (dir : DataDirectory) {start stop : Nat}
    (hstart : start = dir.address.toNat) (hstop : stop = dir.address.toNat + dir.size.toNat) :
    (∀ stored : List StoredCertificate, stored ≠ [] → stored.length ≤ 32 → dir.address ≠ 0 →
      StoredCertificate.LaidOut b stop start stored →
      stop ≤ StoredCertificate.nextFree start stored → stop ≤ b.size →
      parseAll b dir = .ok (StoredCertificate.certificates start stored)) ∧
    (∀ certs, dir.isPresent = true → parseAll b dir = .ok certs →
      certs.length ≤ 32 ∧ stop ≤ b.size ∧ (placed start certs).map Prod.snd = certs ∧
      (∀ x ∈ placed start certs, start ≤ x.1 ∧ x.2.StandsAt b x.1 stop) ∧
      (placed start certs).Pairwise (fun x y => x.1 + x.2.length.toNat ≤ y.1) ∧
      (certs.length = 32 ∨ stop < nextFree start certs + 8)) ∧
    ((∃ certs, parseAll b dir = .ok certs) ∨ parseAll b dir = .error .certificateTable) := by
  subst hstart hstop
  refine ⟨fun stored hne hcount haddress hlaid hend hsize => ?_, fun certs hpresent hread => ?_, ?_⟩
  · rw [parseAll_eq_readFrom (isPresent_of_laidOut haddress hne hlaid) hsize]
    exact StoredCertificate.readFrom_of_laidOut hlaid hsize hcount hend
  · have hsize : dir.address.toNat + dir.size.toNat ≤ b.size := by
      by_contra hlong
      rw [parseAll, hpresent, if_neg (by decide), if_pos (by omega)] at hread
      cases hread
    rw [parseAll_eq_readFrom hpresent hsize] at hread
    obtain ⟨hcount, hplaced, hend⟩ := placed_of_readFrom hread
    exact ⟨hcount, hsize, map_placed _ certs,
      fun x hx => ⟨le_of_mem_placed hx, hplaced x hx⟩, pairwise_placed _ certs, hend⟩
  · rw [parseAll]
    split
    · exact .inl ⟨[], rfl⟩
    · split
      · exact .inr rfl
      · cases hread : readFrom b (dir.address.toNat + dir.size.toNat) bound dir.address.toNat with
        | ok certs => exact .inl ⟨certs, rfl⟩
        | error fault => exact .inr (by rw [fault_of_readFrom hread])

/-- Two certificates. -/
def sampleStored : List StoredCertificate :=
  [⟨0x200, 2, [0x30, 0x82], by decide⟩, ⟨0x100, 1, [7], by decide⟩]

/-- A file with a certificate at offset five, a byte that belongs to none, and a certificate. -/
def sampleFile : Bytes :=
  ⟨⟨[1, 2, 3, 4, 5] ++ [10, 0, 0, 0, 0, 2, 2, 0, 0x30, 0x82] ++ [9] ++
    [9, 0, 0, 0, 0, 1, 1, 0, 7]⟩⟩

/-- The table ends with the last certificate, before the next multiple of eight. -/
theorem parseAll_undoes_layout_sample :
    let dir : DataDirectory := ⟨5, 20⟩
    let certs : List Certificate :=
      [⟨5, 10, 0x200, 2, ⟨#[0x30, 0x82]⟩⟩, ⟨16, 9, 0x100, 1, ⟨#[7]⟩⟩]
    5 = dir.address.toNat ∧ 25 = dir.address.toNat + dir.size.toNat ∧
      sampleStored ≠ [] ∧ sampleStored.length ≤ 32 ∧ dir.address ≠ 0 ∧
      StoredCertificate.LaidOut sampleFile 25 5 sampleStored ∧
      25 ≤ StoredCertificate.nextFree 5 sampleStored ∧ 25 ≤ sampleFile.size ∧
      dir.isPresent = true ∧ parseAll sampleFile dir = .ok certs ∧
      (placed 5 certs).Pairwise (fun x y => x.1 + x.2.length.toNat ≤ y.1) := by
  have hstart : 5 = (5 : UInt32).toNat := by decide
  have hstop : 25 = (5 : UInt32).toNat + (20 : UInt32).toNat := by decide
  have hlaid : StoredCertificate.LaidOut sampleFile 25 5 sampleStored :=
    ⟨by decide +kernel, by decide, by decide +kernel, by decide, trivial⟩
  have hend : 25 ≤ StoredCertificate.nextFree 5 sampleStored := by decide
  have hsize : 25 ≤ sampleFile.size := by decide
  have hpresent : DataDirectory.isPresent ⟨5, 20⟩ = true := by decide
  obtain ⟨hreads, hplaced, -⟩ := parseAll_undoes_layout sampleFile ⟨5, 20⟩ hstart hstop
  have hread := hreads sampleStored (by decide) (by decide) (by decide) hlaid hend hsize
  obtain ⟨-, -, -, -, hpairwise, -⟩ := hplaced _ hpresent hread
  exact ⟨hstart, hstop, by decide, by decide, by decide, hlaid, hend, hsize, hpresent, hread,
    hpairwise⟩

end Certificate

end ImageTriage
