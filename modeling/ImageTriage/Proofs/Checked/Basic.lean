import Mathlib.Algebra.Group.Nat.Defs
import ImageTriage.Bytes.Align
import ImageTriage.Bytes.Basic
import ImageTriage.Fault

/-!
# Runs with checked arithmetic

The readers of an image compute offsets with numbers of any size, and cut bytes out wherever they
are asked to. A machine has words of 64 bits: there a sum may be too large, a difference may fall
below zero, a cut may lie outside of the bytes. A `Checked` run traps at the first such step
(`add`, `sub`, `mul`, `cut`, `get`), and else comes to a result or a fault as any reader does.

The modules beside this one write every reader a second time, with these steps in the places where
a machine takes them, and prove the two equal: the checked run is `done` with the very result of the
reader. So it never traps, and its loops, which trap too when they run out of turns (`loop`), end.

A lemma about a checked reader is a rewriting rule from it to `done` of the reader. The side
conditions bound the offsets that go in.
-/

namespace ImageTriage

/-- What a run with checked arithmetic comes to. -/
inductive Checked (α : Type) where
  | done (result : Except Fault α)
  | trap

namespace Checked

variable {α β σ : Type}

instance : Monad Checked where
  pure a := done (.ok a)
  bind
    | trap, _ => trap
    | done (.error fault), _ => done (.error fault)
    | done (.ok a), f => f a

instance : LawfulMonad Checked := by
  refine LawfulMonad.mk' Checked ?_ ?_ ?_
  · rintro _ (⟨_ | _⟩ | _) <;> rfl
  · intros
    rfl
  · rintro _ _ _ (⟨_ | _⟩ | _) _ _ <;> rfl

/-- A reader that takes no checked step. -/
instance : MonadLift (Except Fault) Checked := ⟨done⟩

/-- A run that stops for a fault. -/
def fail (fault : Fault) : Checked α := done (.error fault)

/-! ## Checked steps -/

/-- The number of values of a machine word. -/
def wordSize : Nat := 2 ^ 64

/-- The sum of two words. -/
def add (a b : Nat) : Checked Nat := if a + b < wordSize then pure (a + b) else trap

/-- The product of two words. -/
def mul (a b : Nat) : Checked Nat := if a * b < wordSize then pure (a * b) else trap

/-- The difference of two words. -/
def sub (a b : Nat) : Checked Nat := if b ≤ a then pure (a - b) else trap

/-- The offset of row `k` of an array whose rows have the given width. -/
def row (start width k : Nat) : Checked Nat := do add start (← mul width k)

/-- The bytes from offset `i` to offset `j`. -/
def cut (b : Bytes) (i j : Nat) : Checked Bytes :=
  if i ≤ j ∧ j ≤ b.size then pure (b.extract i j) else trap

/-- The element at a position. -/
def get (as : Array α) (i : Nat) : Checked α :=
  match as[i]? with
  | some a => pure a
  | none => trap

/-- The byte at a position. -/
def byte (b : Bytes) (i : Nat) : Checked UInt8 :=
  match b[i]? with
  | some v => pure v
  | none => trap

/-- The sum of two words, or the last word. -/
def addSaturating (a b : Nat) : Nat := min (a + b) (wordSize - 1)

/-- `v` rounded up to the alignment `a`. -/
def align (a v : Nat) : Checked Nat :=
  if a = 0 then pure v
  else do
    let mask ← sub a 1
    let top ← sub (← add v a) 1
    return top - (top &&& mask)

/-! ## Loops -/

/-- What one turn of a loop comes to. -/
inductive Turn (σ β : Type) where
  | again (state : σ)
  | answer (result : β)

/-- Takes turns from a state on until one of them answers. A loop that runs out of `fuel` traps. -/
def loop (turn : σ → Checked (Turn σ β)) : Nat → σ → Checked β
  | 0, _ => trap
  | fuel + 1, state => do
    match ← turn state with
    | .again next => loop turn fuel next
    | .answer result => return result

/-! ## Laws -/

@[simp] theorem ok_bind (a : α) (f : α → Checked β) : (done (.ok a) >>= f) = f a := rfl

@[simp] theorem error_bind (fault : Fault) (f : α → Checked β) :
    (done (.error fault) >>= f) = done (.error fault) := rfl

@[simp] theorem pure_eq (a : α) : (pure a : Checked α) = done (.ok a) := rfl

@[simp] theorem fail_eq (fault : Fault) : (fail fault : Checked α) = done (.error fault) := rfl

@[simp] theorem monadLift_eq (x : Except Fault α) : (monadLift x : Checked α) = done x := rfl

/-- A run of two parts is done when both are; the second may rely on the answer of the first. -/
theorem bind_eq {x : Except Fault α} {f : α → Checked β} {g : α → Except Fault β}
    (h : ∀ a, x = .ok a → f a = done (g a)) : (done x >>= f) = done (x >>= g) := by
  cases x with
  | error fault => rfl
  | ok a => exact h a rfl

@[simp] theorem bind_done (x : Except Fault α) (g : α → Except Fault β) :
    (done x >>= fun a => done (g a)) = done (x >>= g) := bind_eq fun _ _ => rfl

theorem ite_done (p : Prop) [Decidable p] (x y : Except Fault α) :
    (if p then done x else done y) = done (if p then x else y) := by
  split <;> rfl

section Steps

variable {a b : Nat} {bytes : Bytes} {i j : Nat}

theorem add_eq (h : a + b < 2 ^ 64) : add a b = done (.ok (a + b)) := if_pos h

theorem mul_eq (h : a * b < 2 ^ 64) : mul a b = done (.ok (a * b)) := if_pos h

theorem sub_eq (h : b ≤ a) : sub a b = done (.ok (a - b)) := if_pos h

theorem row_eq {start width k : Nat} (h : start + width * k < 2 ^ 64) :
    row start width k = done (.ok (start + width * k)) := by
  rw [row, mul_eq (by omega), ok_bind, add_eq h]

theorem cut_eq (hij : i ≤ j) (hj : j ≤ bytes.size) :
    cut bytes i j = done (.ok (bytes.extract i j)) := if_pos ⟨hij, hj⟩

theorem get_eq {as : Array α} {v : α} (h : as[i]? = some v) : get as i = done (.ok v) := by
  rw [get, h]
  rfl

theorem byte_eq {v : UInt8} (h : bytes[i]? = some v) : byte bytes i = done (.ok v) := by
  rw [byte, h]
  rfl

theorem addSaturating_eq (h : a + b < 2 ^ 64) : addSaturating a b = a + b := by
  unfold addSaturating wordSize
  omega

theorem align_eq (h : a + b < 2 ^ 64) : align a b = done (.ok (alignUp a b)) := by
  unfold align alignUp
  split
  · rfl
  · have htop : b + a - 1 = b + (a - 1) := by omega
    rw [sub_eq (by omega), ok_bind, add_eq (by omega), ok_bind, sub_eq (by omega), ok_bind, htop]
    rfl

end Steps

/-! ## Lists and loops -/

theorem mapM_eq {f : α → Checked β} {g : α → Except Fault β} {as : List α}
    (h : ∀ a ∈ as, f a = done (g a)) : as.mapM f = done (as.mapM g) := by
  induction as with
  | nil => rfl
  | cons a as ih =>
    have hrest := ih fun x hx => h x (List.mem_cons_of_mem a hx)
    simp only [List.mapM_cons, h a List.mem_cons_self, hrest, pure_eq, bind_done, pure_eq_ok]

theorem mapM_eq_map {f : α → Checked β} {g : α → β} {as : List α}
    (h : ∀ a ∈ as, f a = done (.ok (g a))) : as.mapM f = done (.ok (as.map g)) := by
  rw [mapM_eq h, mapM_eq_ok fun _ _ => rfl]

theorem foldlM_eq {f : β → α → Checked β} {g : β → α → Except Fault β} {as : List α} {init : β}
    (h : ∀ acc, ∀ a ∈ as, f acc a = done (g acc a)) :
    as.foldlM f init = done (as.foldlM g init) := by
  induction as generalizing init with
  | nil => rfl
  | cons a as ih =>
    have hrest : ∀ init, as.foldlM f init = done (as.foldlM g init) := fun _ =>
      ih fun acc x hx => h acc x (List.mem_cons_of_mem a hx)
    simp only [List.foldlM_cons, h init a List.mem_cons_self, hrest, bind_done]

theorem foldlM_eq_foldl {f : β → α → Checked β} {g : β → α → β} {as : List α} {init : β}
    (h : ∀ acc, ∀ a ∈ as, f acc a = done (.ok (g acc a))) :
    as.foldlM f init = done (.ok (as.foldl g init)) := by
  rw [foldlM_eq (g := fun acc a => pure (g acc a)) h, List.foldlM_pure, pure_eq_ok]

/-- What a turn has to do for its loop to come to the result of `run`: come to it, or else leave it
as it is, keep the invariant and bring down the measure. -/
inductive Follows (turn : σ → Checked (Turn σ β)) (run : σ → Except Fault β) (inv : σ → Prop)
    (measure : σ → Nat) (state : σ) : Prop where
  | answer (result : β) (hturn : turn state = done (.ok (.answer result)))
      (hrun : run state = .ok result)
  | fault (fault : Fault) (hturn : turn state = done (.error fault))
      (hrun : run state = .error fault)
  | again (next : σ) (hturn : turn state = done (.ok (.again next))) (hinv : inv next)
      (hless : measure next < measure state) (hrun : run state = run next)

theorem loop_eq {turn : σ → Checked (Turn σ β)} (run : σ → Except Fault β) (inv : σ → Prop)
    (measure : σ → Nat) (h : ∀ state, inv state → Follows turn run inv measure state)
    {fuel : Nat} {state : σ} (hinv : inv state) (hfuel : measure state < fuel) :
    loop turn fuel state = done (run state) := by
  induction fuel generalizing state with
  | zero => omega
  | succ fuel ih =>
    rw [loop]
    cases h state hinv with
    | answer result hturn hrun =>
      rw [hturn, hrun]
      rfl
    | fault fault hturn hrun =>
      rw [hturn, hrun]
      rfl
    | again next hturn hnext hless hrun =>
      rw [hturn, ok_bind, hrun]
      exact ih hnext (by omega)

end Checked

end ImageTriage
