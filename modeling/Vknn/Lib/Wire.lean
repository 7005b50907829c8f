import Mathlib.Tactic.Linarith
import Mathlib.Tactic.Positivity

/-!
# Byte formats read through a sticky cursor

A format of this kind is written as a flat run of bytes and read back by a
cursor that walks the same bytes once.  The cursor carries a flag that drops to
false at the first short read and never rises again, so a reader may go on
after a failure and is judged once, at its end.

Two judgements about a reader are enough for everything built on it.  `Reads p
bytes a` says that a good cursor standing in front of `bytes` comes out behind
them, still good, with the value `a`: it composes along the writer's own order
of emission and is what a round trip is made of.  `Yields p Q` says that a
cursor that is still good at the end has produced a value satisfying `Q`: it is
what acceptance is made of, and it composes because the flag is sticky.
-/

namespace Wire

open List

abbrev Bytes := List UInt8

/-! ## Little-endian words -/

/-- The `width` low bytes of `n`, least significant first. -/
def leBytes : Nat → Nat → Bytes
  | 0, _ => []
  | width + 1, n => UInt8.ofNat n :: leBytes width (n / 256)

/-- The number spelled by a byte string, least significant byte first. -/
def leNat : Bytes → Nat
  | [] => 0
  | b :: bytes => b.toNat + 256 * leNat bytes

@[simp] theorem length_leBytes (width n : Nat) : (leBytes width n).length = width := by
  induction width generalizing n with
  | zero => rfl
  | succ width ih => simp [leBytes, ih]

theorem leNat_leBytes (width n : Nat) : leNat (leBytes width n) = n % 256 ^ width := by
  induction width generalizing n with
  | zero => simp [leBytes, leNat, Nat.mod_one]
  | succ width ih =>
    simp only [leBytes, leNat, ih, UInt8.toNat_ofNat']
    rw [pow_succ' 256 width, Nat.mod_mul]

theorem leNat_leBytes_of_lt {width n : Nat} (fits : n < 256 ^ width) :
    leNat (leBytes width n) = n := by
  rw [leNat_leBytes, Nat.mod_eq_of_lt fits]

/-- The two's complement spelling of an integer at a width in bytes. -/
def leBytesInt (width : Nat) (v : Int) : Bytes := leBytes width (v % (256 ^ width : Nat)).toNat

/-- The two's complement reading of a byte string of a given width. -/
def leInt (width : Nat) (bytes : Bytes) : Int := (leNat bytes : Int).bmod (256 ^ width)

/-- The integers a two's complement word of `width` bytes holds. -/
def FitsSigned (width : Nat) (v : Int) : Prop :=
  -(256 ^ width : Nat) ≤ 2 * v ∧ 2 * v < (256 ^ width : Nat)

instance (width : Nat) (v : Int) : Decidable (FitsSigned width v) :=
  inferInstanceAs (Decidable (_ ∧ _))

@[simp] theorem length_leBytesInt (width : Nat) (v : Int) :
    (leBytesInt width v).length = width := by
  simp [leBytesInt]

theorem bmod_eq_of_fitsSigned {width : Nat} {v : Int} (fits : FitsSigned width v) :
    v.bmod (256 ^ width) = v := by
  have positive : 0 < 256 ^ width := by positivity
  obtain ⟨low, high⟩ := fits
  apply Int.bmod_eq_of_le_mul_two <;> push_cast at * <;> omega

/-- A signed number in range is read back unchanged. -/
theorem leInt_leBytesInt {width : Nat} {v : Int} (fits : FitsSigned width v) :
    leInt width (leBytesInt width v) = v := by
  have positive : (0 : Int) < (256 ^ width : Nat) := by positivity
  have nonneg : 0 ≤ v % (256 ^ width : Nat) := Int.emod_nonneg _ positive.ne'
  have small : (v % (256 ^ width : Nat)).toNat < 256 ^ width := by
    have := Int.emod_lt_of_pos v positive
    omega
  rw [leInt, leBytesInt, leNat_leBytes_of_lt small, Int.toNat_of_nonneg nonneg, Int.emod_bmod]
  exact bmod_eq_of_fitsSigned fits

/-! ## The cursor -/

/-- A place in a file together with the sticky success flag. -/
structure Cursor where
  pos : Nat
  ok : Bool
deriving DecidableEq, Repr

/-- A computation that walks a file with a cursor. -/
structure Scan (α : Type) where
  run : Bytes → Cursor → α × Cursor

namespace Scan

variable {α β : Type}

/-- Sequencing is kept folded, so that unfolding one reader does not unfold all it is made of. -/
@[irreducible] protected def bind (p : Scan α) (k : α → Scan β) : Scan β where
  run file c := (k (p.run file c).1).run file (p.run file c).2

instance : Monad Scan where
  pure a := ⟨fun _ c => (a, c)⟩
  bind := Scan.bind

@[simp] theorem run_pure (a : α) (file : Bytes) (c : Cursor) :
    (pure a : Scan α).run file c = (a, c) := rfl

@[simp] theorem run_bind (p : Scan α) (k : α → Scan β) (file : Bytes) (c : Cursor) :
    (p >>= k).run file c = (k (p.run file c).1).run file (p.run file c).2 := by
  change (Scan.bind p k).run file c = _
  rw [Scan.bind]

def fail : Scan Unit := ⟨fun _ c => ((), { c with ok := false })⟩

def good : Scan Bool := ⟨fun _ c => (c.ok, c)⟩

/-- The bytes between the cursor and the end of the file. -/
def remaining : Scan Nat := ⟨fun file c => (file.length - c.pos, c)⟩

def tell : Scan Nat := ⟨fun _ c => (c.pos, c)⟩

def skip (n : Nat) : Scan Unit := ⟨fun _ c => ((), { c with pos := c.pos + n })⟩

def seek (pos : Nat) : Scan Unit := ⟨fun _ c => ((), { c with pos := pos })⟩

def size : Scan Nat := ⟨fun file c => (file.length, c)⟩

/-- The `n` bytes at an offset, without moving the cursor. -/
def peek (pos n : Nat) : Scan Bytes := ⟨fun file c => ((file.drop pos).take n, c)⟩

/-- Read `n` bytes.  A failed cursor is not moved and yields zeros; a short read keeps what
there was, pads it with zeros and marks the cursor failed. -/
def block (n : Nat) : Scan Bytes where
  run file c :=
    if c.ok then
      let got := (file.drop c.pos).take n
      (got ++ List.replicate (n - got.length) 0,
        { pos := c.pos + got.length, ok := got.length == n })
    else
      (List.replicate n 0, c)

/-- Run `p` only when at least `n` bytes remain, and `refuse` otherwise. -/
def whenRemaining (n : Nat) (refuse p : Scan α) : Scan α := do
  let left ← remaining
  if n > left then refuse else p

@[simp] theorem run_fail (file : Bytes) (c : Cursor) :
    fail.run file c = ((), { c with ok := false }) := rfl

@[simp] theorem run_good (file : Bytes) (c : Cursor) : good.run file c = (c.ok, c) := rfl

theorem run_good_bind (k : Bool → Scan β) (file : Bytes) (c : Cursor) :
    (good >>= k).run file c = (k c.ok).run file c :=
  run_bind good k file c

@[simp] theorem run_tell (file : Bytes) (c : Cursor) : tell.run file c = (c.pos, c) := rfl

@[simp] theorem run_skip (n : Nat) (file : Bytes) (c : Cursor) :
    (skip n).run file c = ((), { c with pos := c.pos + n }) := rfl

@[simp] theorem run_seek (pos : Nat) (file : Bytes) (c : Cursor) :
    (seek pos).run file c = ((), { c with pos := pos }) := rfl

@[simp] theorem run_size (file : Bytes) (c : Cursor) : size.run file c = (file.length, c) := rfl

@[simp] theorem run_peek (pos n : Nat) (file : Bytes) (c : Cursor) :
    (peek pos n).run file c = ((file.drop pos).take n, c) := rfl

theorem run_ite (q : Prop) [Decidable q] (p r : Scan α) (file : Bytes) (c : Cursor) :
    (if q then p else r).run file c = if q then p.run file c else r.run file c := by
  split <;> rfl

theorem run_whenRemaining (n : Nat) (refuse p : Scan α) (file : Bytes) (c : Cursor) :
    (whenRemaining n refuse p).run file c =
      if n > file.length - c.pos then refuse.run file c else p.run file c := by
  unfold whenRemaining
  rw [run_bind, run_ite]
  rfl

/-- Run a reader a fixed number of times. -/
def times : Nat → Scan α → Scan (List α)
  | 0, _ => pure []
  | n + 1, p => do
      let a ← p
      let rest ← times n p
      pure (a :: rest)

end Scan

/-! ## Reading what was written -/

section Reads

variable {α β : Type}

/-- A good cursor in front of `bytes` comes out behind them, still good, with the value `a`. -/
def Reads (p : Scan α) (bytes : Bytes) (a : α) : Prop :=
  ∀ (file : Bytes) (pos : Nat) (rest : Bytes), file.drop pos = bytes ++ rest →
    p.run file ⟨pos, true⟩ = (a, ⟨pos + bytes.length, true⟩)

theorem drop_add_of_drop {file first rest : Bytes} {pos : Nat}
    (split : file.drop pos = first ++ rest) : file.drop (pos + first.length) = rest := by
  rw [← drop_drop, split, drop_left]

theorem reads_pure (a : α) : Reads (pure a) [] a := by
  intro file pos rest _
  simp

variable {p : Scan α} {a : α} {bytes : Bytes}

/-- **Readers compose along the concatenation of what they read.** -/
theorem Reads.bind {k : α → Scan β} {first second : Bytes} {b : β}
    (head : Reads p first a) (tail : Reads (k a) second b) :
    Reads (p >>= k) (first ++ second) b := by
  intro file pos rest split
  have splitHead : file.drop pos = first ++ (second ++ rest) := by rw [split, append_assoc]
  have splitTail := drop_add_of_drop splitHead
  rw [Scan.run_bind, head file pos _ splitHead]
  simp only [tail file _ _ splitTail, length_append, Nat.add_assoc]

theorem Reads.bind_nil {k : α → Scan β} {b : β}
    (head : Reads p bytes a) (tail : Reads (k a) [] b) : Reads (p >>= k) bytes b := by
  have joined := head.bind tail
  rwa [append_nil] at joined

theorem Reads.map_pure (head : Reads p bytes a) (f : α → β) :
    Reads (p >>= fun x => pure (f x)) bytes (f a) :=
  head.bind_nil (reads_pure (f a))

theorem reads_whole {file : Bytes} (reads : Reads p file a) : (p.run file ⟨0, true⟩).1 = a := by
  rw [reads file 0 [] (by simp)]

theorem reads_block (bytes : Bytes) : Reads (Scan.block bytes.length) bytes bytes := by
  intro file pos rest split
  have got : (file.drop pos).take bytes.length = bytes := by rw [split, take_left]
  simp only [Scan.block, if_true, got, Nat.sub_self, replicate_zero, append_nil, beq_self_eq_true]

theorem reads_good {k : Bool → Scan α} (tail : Reads (k true) bytes a) :
    Reads (Scan.good >>= k) bytes a := by
  intro file pos rest split
  simpa [Scan.good] using tail file pos rest split

/-- A length check passes when the bytes it announces are part of what is read. -/
theorem reads_whenRemaining {n : Nat} {refuse : Scan α}
    (enough : n ≤ bytes.length) (body : Reads p bytes a) :
    Reads (Scan.whenRemaining n refuse p) bytes a := by
  intro file pos rest split
  have left : file.length - pos = bytes.length + rest.length := by
    rw [← length_drop, split, length_append]
  have passes : ¬ n > file.length - pos := by omega
  rw [Scan.run_whenRemaining, if_neg passes]
  exact body file pos rest split

/-- Running a reader once per item reads the concatenated items. -/
theorem reads_times {ι : Type} (items : List ι) (bytes : ι → Bytes) (value : ι → α)
    (each : ∀ item ∈ items, Reads p (bytes item) (value item)) :
    Reads (Scan.times items.length p) (items.flatMap bytes) (items.map value) := by
  induction items with
  | nil => exact reads_pure []
  | cons item items ih =>
    simp only [length_cons, Scan.times, flatMap_cons, map_cons]
    refine (each item mem_cons_self).bind ?_
    exact (ih fun i mem => each i (mem_cons_of_mem _ mem)).map_pure _

/-- Items that each take at least one byte are no more than the bytes they take. -/
theorem length_le_length_flatMap {ι : Type} (items : List ι) (bytes : ι → Bytes)
    (nonempty : ∀ item ∈ items, 1 ≤ (bytes item).length) :
    items.length ≤ (items.flatMap bytes).length := by
  induction items with
  | nil => simp
  | cons item items ih =>
    have head := nonempty item mem_cons_self
    have tail := ih fun i mem => nonempty i (mem_cons_of_mem _ mem)
    simp only [length_cons, flatMap_cons, length_append]
    omega

end Reads

/-! ## What a reader that ends well has produced -/

section Yields

variable {α β : Type}

/-- A cursor that ends good started good. -/
def Sticky (p : Scan α) : Prop :=
  ∀ (file : Bytes) (c : Cursor), (p.run file c).2.ok = true → c.ok = true

/-- A cursor that ends good has produced a value satisfying `Q`. -/
def Yields (p : Scan α) (Q : α → Prop) : Prop :=
  ∀ (file : Bytes) (c : Cursor), (p.run file c).2.ok = true → Q (p.run file c).1

theorem sticky_pure (a : α) : Sticky (pure a : Scan α) := fun _ _ ok => ok

variable {p : Scan α} {k : α → Scan β}

theorem Sticky.bind (head : Sticky p)
    (tail : ∀ a, Sticky (k a)) : Sticky (p >>= k) := by
  intro file c ok
  rw [Scan.run_bind] at ok
  exact head file c (tail _ file _ ok)

theorem sticky_fail : Sticky Scan.fail := by
  intro file c ok
  simp [Scan.fail] at ok

theorem sticky_good : Sticky Scan.good := fun _ _ ok => ok

theorem sticky_remaining : Sticky Scan.remaining := fun _ _ ok => ok

theorem sticky_tell : Sticky Scan.tell := fun _ _ ok => ok

theorem sticky_skip (n : Nat) : Sticky (Scan.skip n) := fun _ _ ok => ok

theorem sticky_seek (n : Nat) : Sticky (Scan.seek n) := fun _ _ ok => ok

theorem sticky_size : Sticky Scan.size := fun _ _ ok => ok

theorem sticky_peek (pos n : Nat) : Sticky (Scan.peek pos n) := fun _ _ ok => ok

theorem sticky_block (n : Nat) : Sticky (Scan.block n) := by
  intro file c ok
  by_contra bad
  simp [Scan.block, bad] at ok

theorem sticky_whenRemaining (n : Nat) {refuse : Scan α} (other : Sticky refuse)
    (body : Sticky p) : Sticky (Scan.whenRemaining n refuse p) := by
  refine sticky_remaining.bind fun left => ?_
  split
  · exact other
  · exact body

theorem yields_pure {Q : α → Prop} {a : α} (holds : Q a) : Yields (pure a : Scan α) Q :=
  fun _ _ _ => holds

/-- **Postconditions compose because the flag is sticky.** -/
theorem Yields.bind {Q : α → Prop} {R : β → Prop}
    (head : Yields p Q) (sticky : ∀ a, Sticky (k a)) (tail : ∀ a, Q a → Yields (k a) R) :
    Yields (p >>= k) R := by
  intro file c ok
  rw [Scan.run_bind] at ok ⊢
  exact tail _ (head file c (sticky _ file _ ok)) file _ ok

theorem yields_bind_of_forall {R : β → Prop}
    (tail : ∀ a, Yields (k a) R) : Yields (p >>= k) R := by
  intro file c ok
  rw [Scan.run_bind] at ok ⊢
  exact tail _ file _ ok

theorem yields_of_fail {k : Unit → Scan α} (sticky : ∀ u, Sticky (k u)) (Q : α → Prop) :
    Yields (Scan.fail >>= k) Q := by
  intro file c ok
  rw [Scan.run_bind] at ok
  have failed := sticky _ file _ ok
  simp at failed

theorem yields_whenRemaining {n : Nat} {refuse : Scan α} {Q : α → Prop}
    (other : Yields refuse Q) (body : Yields p Q) : Yields (Scan.whenRemaining n refuse p) Q := by
  intro file c ok
  rw [Scan.run_whenRemaining] at ok ⊢
  split at ok
  case isTrue short =>
    rw [if_pos short]
    exact other _ _ ok
  case isFalse enough =>
    rw [if_neg enough]
    exact body _ _ ok

end Yields

end Wire
