import Vknn.Lib.Wire

/-!
# Reading slices of a byte string

A reader stands in a slice of a byte string and moves towards the end of the slice.  It may hand a
part of its slice to a reader of its own.  What it does is recorded: the bytes it reads, the widths
it shifts by, the parts it hands out, where it decodes a number, and whether a loop has run out of
its bound.  That a run is safe is then a property of its record.

Numbers come in groups of seven bits, and the width of a shift grows with the groups.  Whether it
grows too far is a matter of the bytes where a number is decoded, so a record is judged twice: what
holds of every run, and what holds when no number is too long.
-/

namespace SliceReader

open List Nat

open Wire (Bytes)

/-! ## Slices and records -/

/-- A part of a byte string that is still to be read. -/
structure Slice where
  pos : Nat
  stop : Nat
deriving DecidableEq, Repr

/-- What a reader does. -/
inductive Event where
  /-- Reading bytes, in a slice that ends somewhere. -/
  | read (pos n stop : Nat)
  /-- Shifting a 64-bit word. -/
  | shift (n : Nat)
  /-- Handing a part of a slice to a reader of its own. -/
  | enter (child parent : Slice)
  /-- Decoding a number. -/
  | decode (slice : Slice)
  /-- A loop has not ended. -/
  | stuck
deriving DecidableEq, Repr

/-- A slice of a byte string. -/
structure Slice.Valid (file : Bytes) (r : Slice) : Prop where
  ordered : r.pos ≤ r.stop
  inside : r.stop ≤ file.length

/-- Ten groups that all go on, and another byte behind them. -/
def Overlong (file : Bytes) (r : Slice) : Prop :=
  r.pos + 10 < r.stop ∧ ∀ k < 10, 128 ≤ file.getD (r.pos + k) 0

namespace Event

/-- Bytes are read inside the slice, parts are inside what they are part of, and loops end. -/
def Framed (file : Bytes) : Event → Prop
  | read pos n stop => pos + n ≤ stop ∧ stop ≤ file.length
  | shift _ => True
  | enter child parent => parent.pos ≤ child.pos ∧ child.pos ≤ child.stop ∧ child.stop ≤ parent.stop
  | decode _ => True
  | stuck => False

/-- A shift of a 64-bit word is by less than 64. -/
def Narrow : Event → Prop
  | shift n => n < 64
  | _ => True

/-- A number that is decoded is not too long. -/
def Short (file : Bytes) : Event → Prop
  | decode slice => ¬ Overlong file slice
  | _ => True

def Safe (file : Bytes) (e : Event) : Prop := e.Framed file ∧ e.Narrow

end Event

/-! ## Readers -/

/-- What a reader gives: a value, what is left of its slice, and the record. -/
abbrev Outcome (α : Type) := α × Slice × List Event

/-- A reader. -/
structure Prog (α : Type) where
  run : Bytes → Slice → Outcome α

namespace Prog

variable {α β σ : Type}

/-- Sequencing is kept folded, so that unfolding one reader does not unfold all it is made of. -/
@[irreducible] protected def bind (p : Prog α) (k : α → Prog β) : Prog β where
  run file r :=
    let first := p.run file r
    let second := (k first.1).run file first.2.1
    (second.1, second.2.1, first.2.2 ++ second.2.2)

instance : Monad Prog where
  pure a := ⟨fun _ r => (a, r, [])⟩
  bind := Prog.bind

@[simp] theorem run_pure (a : α) (file : Bytes) (r : Slice) :
    (pure a : Prog α).run file r = (a, r, []) := rfl

theorem run_bind (p : Prog α) (k : α → Prog β) (file : Bytes) (r : Slice) : (p >>= k).run file r =
      (((k (p.run file r).1).run file (p.run file r).2.1).1,
        ((k (p.run file r).1).run file (p.run file r).2.1).2.1,
        (p.run file r).2.2 ++ ((k (p.run file r).1).run file (p.run file r).2.1).2.2) := by
  change (Prog.bind p k).run file r = _
  rw [Prog.bind]

def eof : Prog Bool := ⟨fun _ r => (r.stop ≤ r.pos, r, [])⟩

def remaining : Prog Nat := ⟨fun _ r => (r.stop - r.pos, r, [])⟩

def byte : Prog UInt8 :=
  ⟨fun file r => (file.getD r.pos 0, { r with pos := r.pos + 1 }, [.read r.pos 1 r.stop])⟩

def block (n : Nat) : Prog Bytes :=
  ⟨fun file r =>
    ((file.drop r.pos).take n, { r with pos := r.pos + n }, [.read r.pos n r.stop])⟩

def advance (n : Nat) : Prog Unit := ⟨fun _ r => ((), { r with pos := r.pos + n }, [])⟩

def exhaust : Prog Unit := ⟨fun _ r => ((), { r with pos := r.stop }, [])⟩

def tell (e : Slice → Event) : Prog Unit := ⟨fun _ r => ((), r, [e r])⟩

/-- Hand out the next bytes, and pass over them. -/
def enter (n : Nat) : Prog Slice :=
  ⟨fun _ r =>
    (⟨r.pos, r.pos + n⟩, { r with pos := r.pos + n }, [.enter ⟨r.pos, r.pos + n⟩ r])⟩

/-- Run a reader on a part that has been handed out. -/
def within (child : Slice) (p : Prog α) : Prog α :=
  ⟨fun file r => ((p.run file child).1, r, (p.run file child).2.2)⟩

/-- A loop, while something is left of the slice; the fuel bounds its rounds. -/
def rounds (body : σ → Prog σ) : Nat → σ → Prog σ
  | 0, s => do
      tell fun _ => .stuck
      pure s
  | fuel + 1, s => do
      if ← eof then pure s
      else
        let s ← body s
        rounds body fuel s

/-- A loop, while something is left of the slice. -/
def whileMore (body : σ → Prog σ) (s : σ) : Prog σ :=
  ⟨fun file r => (rounds body (r.stop - r.pos + 1) s).run file r⟩

end Prog

open Prog

/-! ## Readers that keep to their slices -/

section Sound

variable {α β σ : Type} {file : Bytes} {r : Slice}

/-- A run keeps to its slice, and shifts too far exactly where it decodes a number that is too
long. -/
structure Kept (file : Bytes) (r : Slice) (o : Outcome α) : Prop where
  stop : o.2.1.stop = r.stop
  forward : r.pos ≤ o.2.1.pos
  ordered : o.2.1.pos ≤ r.stop
  framed : ∀ e ∈ o.2.2, e.Framed file
  exact_ : (∀ e ∈ o.2.2, e.Narrow) ↔ ∀ e ∈ o.2.2, e.Short file

/-- A reader all of whose runs keep to their slices. -/
def Sound (p : Prog α) : Prop := ∀ file r, Slice.Valid file r → Kept file r (p.run file r)

/-- A reader that passes over something where something is left. -/
def Progress (p : Prog α) : Prop :=
  ∀ file r, Slice.Valid file r → r.pos < r.stop → r.pos < (p.run file r).2.1.pos

variable {o : Outcome α} {p : Prog α} {k : α → Prog β} {n : Nat}

theorem Kept.valid (kept : Kept file r o) (valid : r.Valid file) : Slice.Valid file o.2.1 :=
  ⟨kept.stop ▸ kept.ordered, kept.stop ▸ valid.inside⟩

theorem Kept.silent (stop : o.2.1.stop = r.stop) (forward : r.pos ≤ o.2.1.pos)
    (ordered : o.2.1.pos ≤ r.stop) (silent : o.2.2 = []) : Kept file r o := by
  refine ⟨stop, forward, ordered, ?_, ?_⟩
  · rw [silent]
    exact forall_mem_nil _
  · rw [silent]
    exact iff_of_true (forall_mem_nil _) (forall_mem_nil _)

/-- A run with one thing to record, which is no shift and no number. -/
theorem Kept.single {e : Event} (stop : o.2.1.stop = r.stop)
    (forward : r.pos ≤ o.2.1.pos) (ordered : o.2.1.pos ≤ r.stop) (log : o.2.2 = [e])
    (framed : e.Framed file) (narrow : e.Narrow) (short : e.Short file) : Kept file r o := by
  refine ⟨stop, forward, ordered, ?_, ?_⟩
  · rw [log]
    exact forall_mem_singleton.mpr framed
  · rw [log, forall_mem_singleton, forall_mem_singleton]
    exact iff_of_true narrow short

/-- **Runs that keep to their slices, one after the other.** -/
theorem Kept.bind (head : Kept file r (p.run file r))
    (tail : Kept file (p.run file r).2.1 ((k (p.run file r).1).run file (p.run file r).2.1)) :
    Kept file r ((p >>= k).run file r) := by
  rw [run_bind]
  refine ⟨tail.stop.trans head.stop, le_trans head.forward tail.forward,
    head.stop ▸ tail.ordered, forall_mem_append.mpr ⟨head.framed, tail.framed⟩, ?_⟩
  dsimp only
  rw [forall_mem_append, forall_mem_append]
  exact and_congr head.exact_ tail.exact_

theorem Sound.bind (head : Sound p) (tail : ∀ a, Sound (k a)) : Sound (p >>= k) := by
  intro file r valid
  have first := head file r valid
  exact first.bind (tail _ file _ (first.valid valid))

theorem sound_pure (a : α) : Sound (pure a : Prog α) := fun _ _ valid =>
  Kept.silent rfl le_rfl valid.ordered rfl

theorem Sound.map (sound : Sound p) (f : α → β) : Sound (p >>= fun a => pure (f a)) :=
  sound.bind fun a => sound_pure (f a)

theorem sound_eof : Sound eof := fun _ _ valid => Kept.silent rfl le_rfl valid.ordered rfl

theorem sound_remaining : Sound remaining := fun _ _ valid =>
  Kept.silent rfl le_rfl valid.ordered rfl

theorem sound_exhaust : Sound exhaust := fun _ _ valid => Kept.silent rfl valid.ordered le_rfl rfl

theorem kept_block (valid : r.Valid file) (left : n ≤ r.stop - r.pos) :
    Kept file r ((block n).run file r) := by
  have ordered := valid.ordered
  have within_ : r.pos + n ≤ r.stop := by omega
  exact Kept.single rfl (le_add_right _ _) within_ rfl ⟨within_, valid.inside⟩ trivial trivial

theorem kept_advance (valid : r.Valid file) (left : n ≤ r.stop - r.pos) :
    Kept file r ((advance n).run file r) := by
  have ordered := valid.ordered
  exact Kept.silent rfl (le_add_right _ _) (by change r.pos + n ≤ r.stop; omega) rfl

/-- Where there are so many bytes they can be handed out, and a reader runs on them. -/
theorem kept_enter (valid : r.Valid file) (left : n ≤ r.stop - r.pos)
    (sound : Sound p) : Kept file r ((enter n >>= fun child => within child p).run file r) := by
  have ordered := valid.ordered
  have within_ : r.pos + n ≤ r.stop := by omega
  have child : Slice.Valid file ⟨r.pos, r.pos + n⟩ :=
    ⟨le_add_right _ _, le_trans within_ valid.inside⟩
  have inner := sound file _ child
  refine Kept.bind (Kept.single rfl (le_add_right _ _) within_ rfl
    ⟨le_rfl, le_add_right _ _, within_⟩ trivial trivial) ?_
  exact ⟨rfl, le_rfl, within_, inner.framed, inner.exact_⟩

theorem Progress.bind (progress : Progress p) (head : Sound p)
    (tail : ∀ a, Sound (k a)) : Progress (p >>= k) := by
  intro file r valid some_
  have first := head file r valid
  have later := tail (p.run file r).1 file _ (first.valid valid)
  rw [run_bind]
  exact lt_of_lt_of_le (progress file r valid some_) later.forward

theorem kept_rounds {body : σ → Prog σ} (sound : ∀ s, Sound (body s))
    (progress : ∀ s, Progress (body s)) (fuel : Nat) (s : σ) (r : Slice) (valid : r.Valid file)
    (enough : r.stop - r.pos < fuel) : Kept file r ((rounds body fuel s).run file r) := by
  induction fuel generalizing s r with
  | zero => cases enough
  | succ fuel ih =>
    have first := sound s file r valid
    refine Kept.bind (sound_eof file r valid) ?_
    change Kept file r
      ((if decide (r.stop ≤ r.pos) = true then pure s
        else body s >>= fun s => rounds body fuel s).run file r)
    split
    · exact sound_pure s file r valid
    · rename_i more
      rw [decide_eq_true_eq, not_le] at more
      have moved := progress s file r valid more
      refine first.bind (ih _ _ (first.valid valid) ?_)
      rw [first.stop]
      omega

/-- **A loop whose rounds pass over something ends, and keeps to its slice.** -/
theorem sound_whileMore {body : σ → Prog σ} (sound : ∀ s, Sound (body s))
    (progress : ∀ s, Progress (body s)) (s : σ) : Sound (whileMore body s) :=
  fun _ r valid => kept_rounds sound progress _ s r valid (lt_succ_self _)

/-- **The runs of a sound reader are safe exactly when they decode no number that is too long.** -/
theorem Sound.events_safe_iff (sound : Sound p) (valid : r.Valid file) :
    (∀ e ∈ (p.run file r).2.2, e.Safe file) ↔ ∀ e ∈ (p.run file r).2.2, e.Short file := by
  have kept := sound file r valid
  rw [← kept.exact_]
  exact ⟨fun safe e inside => (safe e inside).2,
    fun narrow e inside => ⟨kept.framed e inside, narrow e inside⟩⟩

end Sound

/-! ## Reading what was written -/

section Reads

variable {α β σ : Type}

/-- In front of some bytes a reader comes out behind them, with a value of a kind. -/
def Reads (p : Prog α) (bytes : Bytes) (Q : α → Prop) : Prop :=
  ∀ file r rest, List.drop r.pos file = bytes ++ rest → r.pos + bytes.length ≤ r.stop →
    Q (p.run file r).1 ∧ (p.run file r).2.1 = ⟨r.pos + bytes.length, r.stop⟩

/-- On a slice of some bytes a reader gives a value of a kind. -/
def Whole (p : Prog α) (bytes : Bytes) (Q : α → Prop) : Prop :=
  ∀ file r rest, List.drop r.pos file = bytes ++ rest → r.stop = r.pos + bytes.length →
    Q (p.run file r).1

variable {bytes rest : Bytes} {p : Prog α}

theorem drop_behind {file : Bytes} {pos : Nat}
    (split : List.drop pos file = bytes ++ rest) : List.drop (pos + bytes.length) file = rest :=
  Wire.drop_add_of_drop split

theorem reads_pure {Q : α → Prop} {a : α} (holds : Q a) : Reads (pure a : Prog α) [] Q :=
  fun _ _ _ _ _ => ⟨holds, rfl⟩

/-- **Readers compose along the concatenation of what they read.** -/
theorem Reads.bind {k : α → Prog β} {first second : Bytes} {Q : α → Prop}
    {Q' : β → Prop} (head : Reads p first Q) (tail : ∀ a, Q a → Reads (k a) second Q') :
    Reads (p >>= k) (first ++ second) Q' := by
  intro file r rest split inside
  rw [append_assoc] at split
  rw [length_append, ← add_assoc] at inside
  obtain ⟨holds, moved⟩ := head file r _ split (by omega)
  rw [run_bind, moved]
  obtain ⟨value, later⟩ := tail _ holds file ⟨r.pos + first.length, r.stop⟩ rest
    (drop_behind split) inside
  refine ⟨value, later.trans ?_⟩
  rw [length_append, add_assoc]

theorem Reads.map {Q : α → Prop} {Q' : β → Prop} {f : α → β}
    (head : Reads p bytes Q) (holds : ∀ a, Q a → Q' (f a)) :
    Reads (p >>= fun a => pure (f a)) bytes Q' := by
  have joined := head.bind fun a value => reads_pure (holds a value)
  rwa [append_nil] at joined

theorem Reads.mono {Q Q' : α → Prop} (reads : Reads p bytes Q)
    (holds : ∀ a, Q a → Q' a) : Reads p bytes Q' := by
  intro file r rest split inside
  obtain ⟨value, moved⟩ := reads file r rest split inside
  exact ⟨holds _ value, moved⟩

theorem reads_block (bytes : Bytes) : Reads (block bytes.length) bytes (· = bytes) := by
  intro file r rest split _
  refine ⟨?_, rfl⟩
  change (List.drop r.pos file).take bytes.length = bytes
  rw [split, take_left]

theorem reads_advance (bytes : Bytes) : Reads (advance bytes.length) bytes fun _ => True :=
  fun _ _ _ _ _ => ⟨trivial, rfl⟩

theorem reads_enter {Q : α → Prop} (whole : Whole p bytes Q) :
    Reads (enter bytes.length >>= fun child => within child p) bytes Q := by
  intro file r rest split _
  rw [run_bind]
  exact ⟨whole file ⟨r.pos, r.pos + bytes.length⟩ rest split rfl, rfl⟩

theorem getD_front {file : Bytes} {pos : Nat} {b : UInt8}
    (split : List.drop pos file = b :: rest) : file.getD pos 0 = b := by
  have head : (List.drop pos file)[0]? = some b := by rw [split]; rfl
  rw [getElem?_drop, add_zero] at head
  rw [getD_eq_getElem?_getD, head]
  rfl

/-- A piece of a message: its bytes, and the values it adds. -/
structure Piece (α : Type) where
  bytes : Bytes
  values : List α

variable {body : σ → Prog σ} {proj : σ → List α}

/-- A loop reads pieces of a message, whatever stands behind them. -/
theorem rounds_pieces (pieces : List (Piece α)) (some_ : ∀ q ∈ pieces, q.bytes ≠ [])
    (each : ∀ q ∈ pieces, ∀ s, Reads (body s) q.bytes fun s' => proj s' = proj s ++ q.values)
    (s : σ) {fuel : Nat} (enough : pieces.length ≤ fuel) {file : Bytes} {r : Slice}
    (split : List.drop r.pos file = pieces.flatMap Piece.bytes ++ rest)
    (inside : r.pos + (pieces.flatMap Piece.bytes).length ≤ r.stop) :
    ∃ s' fuel', fuel = pieces.length + fuel' ∧ proj s' = proj s ++ pieces.flatMap Piece.values ∧
      ((rounds body fuel s).run file r).1 = ((rounds body fuel' s').run file
        ⟨r.pos + (pieces.flatMap Piece.bytes).length, r.stop⟩).1 := by
  induction pieces generalizing s fuel r with
  | nil => refine ⟨s, fuel, (zero_add fuel).symm, (append_nil _).symm, rfl⟩
  | cons q pieces ih =>
    obtain ⟨fuel, rfl⟩ := Nat.exists_eq_add_of_le' (le_trans (Nat.le_add_left 1 _) enough)
    rw [flatMap_cons, append_assoc] at split
    rw [flatMap_cons, length_append] at inside
    obtain ⟨here, others⟩ := forall_mem_cons.mp some_
    obtain ⟨first, later⟩ := forall_mem_cons.mp each
    obtain ⟨value, moved⟩ := first s file r _ split (by omega)
    have more : ¬ r.stop ≤ r.pos := by
      have size := length_pos_iff.mpr here
      omega
    obtain ⟨s', fuel', spent, values, run⟩ := ih others later ((body s).run file r).1
      (le_of_succ_le_succ enough) (r := ⟨r.pos + q.bytes.length, r.stop⟩)
      (drop_behind split) (by dsimp only; omega)
    refine ⟨s', fuel', ?_, ?_, ?_⟩
    · rw [spent, length_cons]
      omega
    · rw [values, value, flatMap_cons, append_assoc]
    · rw [flatMap_cons, length_append, ← add_assoc, ← run]
      conv_lhs => unfold rounds
      simp only [run_bind, eof, more, decide_false, Bool.false_eq_true, if_false, moved]

/-- A loop on a slice that has been read gives what it started with. -/
theorem rounds_done (fuel : Nat) (s : σ) (file : Bytes) {r : Slice} (done : r.stop ≤ r.pos) :
    ((rounds body fuel s).run file r).1 = s := by
  cases fuel with
  | zero =>
    unfold rounds
    rw [run_bind]
    rfl
  | succ fuel =>
    unfold rounds
    simp only [run_bind, eof, done, decide_true, if_true, run_pure]

/-- **A loop reads a message made of pieces.** -/
theorem whole_whileMore (pieces : List (Piece α)) (some_ : ∀ q ∈ pieces, q.bytes ≠ [])
    (each : ∀ q ∈ pieces, ∀ s, Reads (body s) q.bytes fun s' => proj s' = proj s ++ q.values)
    (s : σ) : Whole (whileMore body s) (pieces.flatMap Piece.bytes)
      fun s' => proj s' = proj s ++ pieces.flatMap Piece.values := by
  intro file r rest split stop
  have size := Wire.length_le_length_flatMap pieces Piece.bytes fun q inside =>
    length_pos_iff.mpr (some_ q inside)
  have enough : pieces.length ≤ r.stop - r.pos + 1 := by omega
  obtain ⟨s', fuel', spent, values, run⟩ := rounds_pieces pieces some_ each s enough split stop.ge
  change proj ((rounds body (r.stop - r.pos + 1) s).run file r).1 = _
  rw [run, ← values, ← stop, rounds_done fuel' s' file le_rfl]

end Reads

end SliceReader
