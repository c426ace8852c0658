import Mathlib.Data.Seq.Basic
import ImageTriage.Proofs.Batch.Streams
import ImageTriage.Proofs.Bytes.Layout

/-!
# Reading within a limit gives all or nothing

A source answers each request with some bytes of a stream, as few of them as it likes, and with none
only when the stream is at its end or nothing was asked for (`Delivers`). The stream may be endless.

What a capped reader has given out is the beginning of the stream, whatever was asked for and in
whatever pieces it came: `Served` says so of a reader at one moment, one request keeps it
(`Served.read`), and so do any number of them (`Served.readEach`, `Served.readToEnd`).

A reader that has come to a stop has reached its limit or the end of the stream. It cannot tell
which when the stream is as long as the limit, so one byte more is asked of the source itself. Hence
a file is read whole or refused, whatever its size was when it was opened
(`reads_whole_or_refuses`).
-/

namespace ImageTriage

/-! ## Streams -/

/-- Bytes one after the other, perhaps without end. -/
abbrev ByteSequence := Stream'.Seq UInt8

namespace ByteSequence

open Stream'

/-- The bytes of a content. -/
def ofBytes (content : Bytes) : ByteSequence := Seq.ofList content.list

/-- The bytes of a list and the sequence behind them. -/
def after (bs : List UInt8) (s : ByteSequence) : ByteSequence := (Seq.ofList bs).append s

variable {as bs : List UInt8} {s : ByteSequence}

@[simp] theorem after_nil : after [] s = s := Seq.nil_append s

theorem after_cons (b : UInt8) : after (b :: bs) s = Seq.cons b (after bs s) := by
  rw [after, Seq.ofList_cons, Seq.cons_append, after]

theorem after_append : after (as ++ bs) s = after as (after bs s) := by
  rw [after, Seq.ofList_append, Seq.append_assoc, after, after]

theorem eq_nil_of_after_eq_nil (h : after bs s = .nil) : bs = [] := by
  cases bs with
  | nil => rfl
  | cons b bs =>
    rw [after_cons] at h
    exact absurd h Seq.cons_ne_nil

/-- What is behind the first bytes of a list is a list again. -/
theorem exists_of_ofList_eq_after (h : Seq.ofList bs = after as s) :
    ∃ rest, bs = as ++ rest ∧ s = Seq.ofList rest := by
  induction as generalizing bs with
  | nil => exact ⟨bs, rfl, by rw [h, after_nil]⟩
  | cons a as ih =>
    rw [after_cons] at h
    cases bs with
    | nil => exact absurd h.symm Seq.cons_ne_nil
    | cons b bs =>
      rw [Seq.ofList_cons, Seq.cons_eq_cons] at h
      obtain ⟨rfl, htail⟩ := h
      obtain ⟨rest, rfl, hs⟩ := ih htail
      exact ⟨rest, rfl, hs⟩

end ByteSequence

open ByteSequence

/-! ## Sources -/

/-- A source delivers a stream, of which `left` is what is still to come: an answer takes bytes off
its front, no more than were asked for, and is empty only at the end or when nothing was asked. -/
structure Delivers {σ : Type} (pull : σ → Nat → Bytes × σ) (left : σ → ByteSequence) : Prop where
  size_le (source : σ) (n : Nat) : (pull source n).1.size ≤ n
  left_eq (source : σ) (n : Nat) :
    left source = after (pull source n).1.list (left (pull source n).2)
  left_of_empty {source : σ} {n : Nat} (hn : 0 < n) (hempty : (pull source n).1.size = 0) :
    left source = .nil

theorem Bytes.list_eq_nil_iff {b : Bytes} : b.list = [] ↔ b.size = 0 := by
  rw [← List.length_eq_zero_iff, ByteArray.size, Array.length_toList]

/-- At the end of its stream a source answers nothing. -/
theorem Delivers.empty_of_left {σ : Type} {pull : σ → Nat → Bytes × σ} {left : σ → ByteSequence}
    (hpull : Delivers pull left) {source : σ} (n : Nat) (h : left source = .nil) :
    (pull source n).1.size = 0 := by
  rw [hpull.left_eq source n] at h
  exact Bytes.list_eq_nil_iff.1 (eq_nil_of_after_eq_nil h)

/-- A source that answers with fewer bytes than it could delivers the same. -/
theorem Delivers.atMost {σ : Type} {pull : σ → Nat → Bytes × σ} {left : σ → ByteSequence}
    (hpull : Delivers pull left) {most : Nat} (hmost : 0 < most) :
    Delivers (fun source n => pull source (min n most)) left where
  size_le source n := (hpull.size_le source _).trans (Nat.min_le_left n most)
  left_eq source n := hpull.left_eq source _
  left_of_empty hn hempty := hpull.left_of_empty (by omega) hempty

/-- A cursor delivers what is left of its content. -/
theorem Cursor.delivers : Delivers Cursor.pull fun c => ofBytes c.rest where
  size_le c n := by
    rw [Cursor.pull, ByteArray.size_extract]
    omega
  left_eq c n := by
    have hlist : c.rest.list = (c.pull n).1.list ++ (c.pull n).2.rest.list := by
      rw [Cursor.rest, Cursor.rest, Cursor.pull]
      dsimp only
      by_cases hpast : c.bytes.size < c.position
      · -- a cursor that stands behind its content has nothing to give and stays there
        have hstop : min (c.position + n) c.bytes.size = c.bytes.size := by omega
        have hstay : max c.position c.bytes.size = c.position := by omega
        have hempty : Bytes.list (c.bytes.extract c.position c.bytes.size) = [] := by
          rw [← List.length_eq_zero_iff, Bytes.length_list_extract]
          omega
        rw [hstop, hstay, hempty, List.append_nil]
      · have hmoves : max c.position (min (c.position + n) c.bytes.size) =
            min (c.position + n) c.bytes.size := by omega
        rw [hmoves]
        exact Bytes.list_extract_append (by omega) (by omega)
    rw [ofBytes, hlist, Stream'.Seq.ofList_append]
    rfl
  left_of_empty {c n} hn hempty := by
    have hlist : c.rest.list = [] := by
      rw [Bytes.list_eq_nil_iff, Cursor.rest, ByteArray.size_extract]
      rw [Cursor.pull, ByteArray.size_extract] at hempty
      omega
    rw [ofBytes, hlist, Stream'.Seq.ofList_nil]

/-! ## Capped readers -/

namespace Capped

variable {σ : Type} {pull : σ → Nat → Bytes × σ} {left : σ → ByteSequence} {start : ByteSequence}
  {limit : Nat} {given : List UInt8} {r : Capped σ}

/-- The answers to one request after the other, for the given numbers of bytes. -/
def readEach (pull : σ → Nat → Bytes × σ) : List Nat → Capped σ → List Bytes × Capped σ
  | [], r => ([], r)
  | n :: sizes, r =>
    let (bytes, r) := r.read pull n
    let (others, r) := readEach pull sizes r
    (bytes :: others, r)

/-- A reader with a limit has given out these bytes of a stream: they are its beginning, they are
counted, and they are within the limit. What comes after them is left with the source. -/
structure Served (left : σ → ByteSequence) (start : ByteSequence) (limit : Nat)
    (given : List UInt8) (r : Capped σ) : Prop where
  start_eq : start = after given (left r.inner)
  limit_eq : r.limit = limit
  consumed_eq : r.consumed = given.length
  length_le : given.length ≤ limit

theorem isExhausted_iff : r.isExhausted ↔ r.limit ≤ r.consumed := decide_eq_true_iff

/-- At the limit nothing is asked of the source. -/
theorem read_of_exhausted (h : r.isExhausted) (n : Nat) : r.read pull n = (.empty, r) := by
  have hnone : r.limit - r.consumed = 0 := Nat.sub_eq_zero_of_le (isExhausted_iff.1 h)
  rw [read, hnone]
  rfl

/-- Below the limit the source is asked for no more than the limit leaves. -/
theorem read_of_not_exhausted (h : ¬ r.isExhausted) (n : Nat) :
    r.read pull n =
      ((pull r.inner (min n (r.limit - r.consumed))).1,
        { r with
          inner := (pull r.inner (min n (r.limit - r.consumed))).2
          consumed := r.consumed + (pull r.inner (min n (r.limit - r.consumed))).1.size }) := by
  have hsome : r.limit - r.consumed ≠ 0 := by
    rw [isExhausted_iff] at h
    omega
  rw [read]
  dsimp only
  rw [if_neg hsome]

/-- What an answer leaves with the source comes after it in the stream. -/
theorem left_read (hpull : Delivers pull left) (r : Capped σ) (n : Nat) :
    left r.inner = after (r.read pull n).1.list (left (r.read pull n).2.inner) := by
  by_cases h : r.isExhausted
  · rw [read_of_exhausted h]
    exact after_nil.symm
  · rw [read_of_not_exhausted h]
    exact hpull.left_eq r.inner _

theorem served_start (left : σ → ByteSequence) (source : σ) (limit : Nat) :
    Served left (left source) limit [] { inner := source, limit } where
  start_eq := after_nil.symm
  limit_eq := rfl
  consumed_eq := rfl
  length_le := Nat.zero_le limit

/-- One request gives out the next bytes of the stream. -/
theorem Served.read (hpull : Delivers pull left) (h : Served left start limit given r) (n : Nat) :
    Served left start limit (given ++ (r.read pull n).1.list) (r.read pull n).2 := by
  have hstart : start = after (given ++ (r.read pull n).1.list) (left (r.read pull n).2.inner) := by
    rw [after_append, ← left_read hpull]
    exact h.start_eq
  obtain ⟨-, hlimit, hconsumed, hlength⟩ := h
  by_cases hspent : r.isExhausted
  · rw [read_of_exhausted hspent] at hstart ⊢
    exact ⟨hstart, hlimit, by simpa using hconsumed, by simpa using hlength⟩
  · rw [read_of_not_exhausted hspent] at hstart ⊢
    have hsize := hpull.size_le r.inner (min n (r.limit - r.consumed))
    have hcount : (given ++ (pull r.inner (min n (r.limit - r.consumed))).1.list).length =
        given.length + (pull r.inner (min n (r.limit - r.consumed))).1.size := List.length_append
    refine ⟨hstart, hlimit, ?_, ?_⟩
    · rw [hcount, ← hconsumed]
    · rw [hcount]
      omega

/-- An answer is empty only when the limit is reached or the stream is at its end. -/
theorem stopped_of_read_empty (hpull : Delivers pull left) {n : Nat} (hn : 0 < n)
    (hempty : (r.read pull n).1.size = 0) : r.isExhausted ∨ left r.inner = .nil := by
  by_cases hspent : r.isExhausted
  · exact .inl hspent
  · rw [read_of_not_exhausted hspent] at hempty
    rw [isExhausted_iff] at hspent
    exact .inr (hpull.left_of_empty (by omega) hempty)

/-- One request after the other gives out the beginning of the stream. -/
theorem Served.readEach (hpull : Delivers pull left) (sizes : List Nat)
    (h : Served left start limit given r) :
    Served left start limit (given ++ (readEach pull sizes r).1.flatMap Bytes.list)
      (readEach pull sizes r).2 := by
  induction sizes generalizing given r with
  | nil =>
    rw [Capped.readEach, List.flatMap_nil, List.append_nil]
    exact h
  | cons n sizes ih =>
    have hrest := ih (h.read hpull n)
    rw [List.append_assoc, ← List.flatMap_cons] at hrest
    exact hrest

/-- So does reading to the end. -/
theorem Served.readToEnd (hpull : Delivers pull left) (sizes : Nat → Nat) (rounds : Nat)
    {found : Bytes} (h : Served left start limit found.list r) :
    Served left start limit (readToEnd pull sizes rounds r found).1.list
      (readToEnd pull sizes rounds r found).2 := by
  induction rounds generalizing r found with
  | zero => exact h
  | succ rounds ih =>
    have hnext := h.read hpull (sizes rounds)
    rw [Capped.readToEnd]
    dsimp only
    split
    case isTrue hempty =>
      rw [Bytes.list_eq_nil_iff.2 hempty, List.append_nil] at hnext
      exact hnext
    case isFalse =>
      refine ih ?_
      rw [Bytes.list, ByteArray.data_append, Array.toList_append]
      exact hnext

/-- Reading to the end comes to a stop when there are more rounds than bytes. -/
theorem stopped_of_readToEnd (hpull : Delivers pull left) {sizes : Nat → Nat}
    (hsizes : ∀ k, 0 < sizes k) {rest : List UInt8} {rounds : Nat} (found : Bytes)
    (hleft : left r.inner = Stream'.Seq.ofList rest) (hrounds : rest.length < rounds) :
    (readToEnd pull sizes rounds r found).2.isExhausted ∨
      left (readToEnd pull sizes rounds r found).2.inner = .nil := by
  induction rounds generalizing r found rest with
  | zero => omega
  | succ rounds ih =>
    have hnext := left_read hpull r (sizes rounds)
    rw [Capped.readToEnd]
    dsimp only
    split
    case isTrue hempty =>
      rw [Bytes.list_eq_nil_iff.2 hempty, after_nil] at hnext
      rcases stopped_of_read_empty hpull (hsizes rounds) hempty with hspent | hend
      · rw [read_of_exhausted hspent]
        exact .inl hspent
      · exact .inr (hnext.symm.trans hend)
    case isFalse hsome =>
      -- the bytes that came are fewer to come
      rw [hleft] at hnext
      obtain ⟨rest', hrest, hleft'⟩ := exists_of_ofList_eq_after hnext
      have hlength := congrArg List.length hrest
      rw [List.length_append] at hlength
      have hcame : (r.read pull (sizes rounds)).1.list.length ≠ 0 := hsome
      exact ih _ hleft' (by omega)

end Capped

/-! ## Whole files -/

namespace ReadLimits

variable {σ : Type} {pull : σ → Nat → Bytes × σ} {left : σ → ByteSequence}

/-- A content is read whole when it is within the limit, and refused when it is not. -/
theorem readSource_eq (hpull : Delivers pull left) (limits : ReadLimits) {sizes : Nat → Nat}
    (hsizes : ∀ k, 0 < sizes k) {source : σ} {content : Bytes} {rounds : Nat}
    (hcontent : left source = ofBytes content) (hrounds : content.size < rounds) :
    limits.readSource pull sizes rounds source =
      if content.size ≤ limits.readBytes then .ok content else .error limits.overLimit := by
  have hserved : Capped.Served left (ofBytes content) limits.readBytes (Bytes.list .empty)
      { inner := source, limit := limits.readBytes } := hcontent ▸ Capped.served_start left source _
  have hread := hserved.readToEnd hpull sizes rounds
  have hstop := Capped.stopped_of_readToEnd hpull hsizes .empty
    (r := { inner := source, limit := limits.readBytes }) hcontent hrounds
  rw [readSource]
  dsimp only
  generalize Capped.readToEnd pull sizes rounds { inner := source, limit := limits.readBytes }
    .empty = done at hread hstop ⊢
  obtain ⟨data, r⟩ := done
  have hlimit : r.limit = limits.readBytes := hread.limit_eq
  have hconsumed : r.consumed = data.size := hread.consumed_eq
  have hwithin : data.size ≤ limits.readBytes := hread.length_le
  obtain ⟨rest, hlist, hrest⟩ := exists_of_ofList_eq_after hread.start_eq
  have hsize : content.size = data.size + rest.length := by
    have hlength := congrArg List.length hlist
    rwa [List.length_append] at hlength
  cases rest with
  | nil =>
    -- the whole content was given out, and the one byte more does not come
    rw [List.append_nil] at hlist
    have hdata : content = data := ByteArray.ext (Array.toList_inj.1 hlist)
    have hnone : ((pull r.inner 1).1.size != 0) = false :=
      bne_eq_false_iff_eq.2 (hpull.empty_of_left 1 (hrest.trans Stream'.Seq.ofList_nil))
    rw [hnone, Bool.and_false, if_neg Bool.false_ne_true, hdata, if_pos hwithin]
  | cons b rest =>
    have hne : left r.inner ≠ .nil := by
      rw [hrest, Stream'.Seq.ofList_cons]
      exact Stream'.Seq.cons_ne_nil
    have hspent : r.isExhausted = true := hstop.resolve_right hne
    have hsome : ((pull r.inner 1).1.size != 0) = true :=
      bne_iff_ne.2 fun hempty => hne (hpull.left_of_empty Nat.one_pos hempty)
    have hover : ¬ content.size ≤ limits.readBytes := by
      rw [Capped.isExhausted_iff] at hspent
      rw [List.length_cons] at hsize
      omega
    rw [hspent, hsome, Bool.and_self, if_pos rfl, if_neg hover]

/-- The content of a file is read whole or not at all, in whatever pieces it comes. -/
theorem readAll_eq (limits : ReadLimits) (content : Bytes) :
    limits.readAll content =
      if content.size ≤ limits.readBytes then .ok content else .error limits.overLimit := by
  have hwhole : Cursor.rest { bytes := content } = content := ByteArray.extract_zero_size
  exact limits.readSource_eq Cursor.delivers (fun _ => by decide) (congrArg ofBytes hwhole)
    (Nat.lt_succ_self _)

theorem checkSize_eq_ok_iff {limits : ReadLimits} {size : Nat} :
    limits.checkSize size = .ok () ↔ size ≤ limits.fileSize ∧ size ≤ limits.readBytes := by
  rw [checkSize]
  split
  next hlarge => exact ⟨fun h => (by cases h), fun h => by omega⟩
  next hfits =>
    split
    next hlarge => exact ⟨fun h => (by cases h), fun h => by omega⟩
    next hwithin => exact ⟨fun _ => by omega, fun _ => rfl⟩

/-- What passes both checks, that of the size and that of the content. -/
theorem checked_eq_ok_iff {limits : ReadLimits} {size : Nat} {content data : Bytes} :
    (limits.checkSize size >>= fun _ =>
        if content.size ≤ limits.readBytes then .ok content else .error limits.overLimit) =
        .ok data ↔
      size ≤ limits.fileSize ∧ size ≤ limits.readBytes ∧ content.size ≤ limits.readBytes ∧
        data = content := by
  rw [← and_assoc, ← checkSize_eq_ok_iff]
  cases limits.checkSize size with
  | error reason => exact ⟨fun h => (by cases h), fun h => (by cases h.1)⟩
  | ok _ =>
    change (if _ then _ else _) = _ ↔ _
    split
    next hwithin => simp [hwithin, eq_comm]
    next hover => simp [hover]

/-- A file is read through a host within the limits as its size and its content are. -/
theorem run_readBounded {τ : Type} {host : Host (StateM τ)} {path : Path} {t t₁ t₂ : τ} {size : Nat}
    {content : Bytes} (limits : ReadLimits)
    (hstatus : (host.status path).run t = (.ok (.file size), t₁))
    (hcontent : (host.content path).run t₁ = (.ok content, t₂)) :
    ((host.readBounded limits path).run.run t).1 =
      (limits.checkSize size >>= fun _ => limits.readAll content) := by
  have hopened : (ExceptT.mk (host.status path)).run.run t = (.ok (.file size), t₁) := hstatus
  have hread : (ExceptT.mk (host.content path)).run.run t₁ = (.ok content, t₂) := hcontent
  have hsize : (host.checkedSize limits path).run.run t =
      ((limits.checkSize size).map fun _ => size, t₁) := by
    rw [Host.checkedSize, ExceptT.run_bind, run_step hopened]
    dsimp only
    cases limits.checkSize size <;> rfl
  rw [Host.readBounded, ExceptT.run_bind, run_step hsize]
  cases limits.checkSize size with
  | error reason => rfl
  | ok _ =>
    rw [Except.map]
    dsimp only
    rw [ExceptT.run_bind, run_step hread]
    rfl

/-- What a capped reader gives out is the beginning of the stream and within the limit, and it stops
only at the limit or at the end. A file is read to the end exactly if its size when it was opened
and its content when it is read are within the limits, and then all of it. -/
theorem reads_whole_or_refuses (hpull : Delivers pull left) (source : σ) :
    (∀ limit sizes answers r,
      Capped.readEach pull sizes { inner := source, limit } = (answers, r) →
        left source = after (answers.flatMap Bytes.list) (left r.inner) ∧
          (answers.flatMap Bytes.list).length ≤ limit ∧
          r.consumed = (answers.flatMap Bytes.list).length ∧
          (r.isExhausted ↔ limit ≤ r.consumed) ∧
          ∀ n, 0 < n → (r.read pull n).1.size = 0 → r.isExhausted ∨ left r.inner = .nil) ∧
      (∀ (limits : ReadLimits) content sizes rounds size data, left source = ofBytes content →
        (∀ k, 0 < sizes k) → content.size < rounds →
          ((limits.checkSize size >>= fun _ => limits.readSource pull sizes rounds source) =
              .ok data ↔
            size ≤ limits.fileSize ∧ size ≤ limits.readBytes ∧ content.size ≤ limits.readBytes ∧
              data = content)) ∧
      ∀ (τ : Type) (host : Host (StateM τ)) (limits : ReadLimits) path t t₁ t₂ size content data,
        (host.status path).run t = (.ok (.file size), t₁) →
        (host.content path).run t₁ = (.ok content, t₂) →
          (((host.readBounded limits path).run.run t).1 = .ok data ↔
            size ≤ limits.fileSize ∧ size ≤ limits.readBytes ∧ content.size ≤ limits.readBytes ∧
              data = content) := by
  refine ⟨fun limit sizes answers r heach => ?_,
    fun limits content sizes rounds size data hcontent hsizes hrounds => ?_,
    fun τ host limits path t t₁ t₂ size content data hstatus hread => ?_⟩
  · have hserved := (Capped.served_start left source limit).readEach hpull sizes
    rw [heach, List.nil_append] at hserved
    refine ⟨hserved.start_eq, hserved.length_le, hserved.consumed_eq, ?_,
      fun n hn hempty => Capped.stopped_of_read_empty hpull hn hempty⟩
    rw [Capped.isExhausted_iff, hserved.limit_eq]
  · rw [readSource_eq hpull limits hsizes hcontent hrounds]
    exact checked_eq_ok_iff
  · rw [run_readBounded limits hstatus hread, readAll_eq]
    exact checked_eq_ok_iff

/-- Five bytes, of which a source gives out two at a time. -/
def fiveBytes : Bytes := ⟨#[1, 2, 3, 4, 5]⟩

/-- A cursor that gives out at most two bytes at a time. -/
def slowPull (c : Cursor) (n : Nat) : Bytes × Cursor := c.pull (min n 2)

/-- A world with a file of five bytes. -/
def fiveWorld : World where
  files := { root := .directory [("", .directory [("five", .file fiveBytes)])] }

/-- A host that finds the file when it is still empty. -/
def growingHost : Host (StateM World) :=
  { World.host with status := fun _ w => (.ok (.file 0), w) }

theorem reads_whole_or_refuses_five :
    Delivers slowPull (fun c => ofBytes c.rest) ∧
      Capped.readEach slowPull [3, 0, 9] { inner := { bytes := fiveBytes }, limit := 3 } =
        ([⟨#[1, 2]⟩, ⟨#[]⟩, ⟨#[3]⟩], { inner := ⟨fiveBytes, 3⟩, limit := 3, consumed := 3 }) ∧
      ofBytes fiveBytes = after [1, 2, 3] (ofBytes (Cursor.rest ⟨fiveBytes, 3⟩)) ∧
      (∀ limit, ((ReadLimits.mk limit 9).checkSize 4 >>= fun _ =>
          (ReadLimits.mk limit 9).readSource slowPull (fun _ => 4) 6 { bytes := fiveBytes }) =
          .ok fiveBytes ↔ 5 ≤ limit) ∧
      ((growingHost.content "five").run fiveWorld).1 = .ok fiveBytes ∧
      ∀ data, ((growingHost.readBounded { readBytes := 4 } "five").run.run fiveWorld).1 ≠
        .ok data := by
  have hslow : Delivers slowPull fun c => ofBytes c.rest := Cursor.delivers.atMost (by decide)
  have hrest : Cursor.rest { bytes := fiveBytes } = fiveBytes := by decide
  have hcontent : (growingHost.content "five").run fiveWorld = (.ok fiveBytes, fiveWorld) := rfl
  obtain ⟨heach, hwhole, hhost⟩ := reads_whole_or_refuses hslow { bytes := fiveBytes }
  have hanswers :
      Capped.readEach slowPull [3, 0, 9] { inner := { bytes := fiveBytes }, limit := 3 } =
        ([⟨#[1, 2]⟩, ⟨#[]⟩, ⟨#[3]⟩], { inner := ⟨fiveBytes, 3⟩, limit := 3, consumed := 3 }) := rfl
  refine ⟨hslow, hanswers, ?_, fun limit => ?_, congrArg Prod.fst hcontent, fun data hdata => ?_⟩
  · obtain ⟨hstart, -⟩ := heach 3 [3, 0, 9] _ _ hanswers
    rwa [hrest] at hstart
  · rw [hwhole ⟨limit, 9⟩ fiveBytes _ 6 4 fiveBytes (congrArg ofBytes hrest) (fun _ => by decide)
      (by decide)]
    have hsize : fiveBytes.size = 5 := rfl
    simp only [hsize, and_true]
    omega
  · obtain ⟨-, -, hwithin, -⟩ := (hhost World growingHost { readBytes := 4 } "five" fiveWorld
      fiveWorld fiveWorld 0 fiveBytes data rfl hcontent).1 hdata
    exact absurd hwithin (by decide)

end ReadLimits

end ImageTriage
