import Vknn.Lib.Wire

/-!
# Files cut short

Two judgements about a reader say what becomes of it when the end of its file is
moved.  `Lands p bytes a` is the round trip of a reader that may still fail: a
good cursor in front of `bytes`, if it comes out good at all, comes out behind
them with the value `a`.  `Steady p` looks the other way, from a file to a
longer one: a cursor that ends good has not looked past the end, so it does the
same on every longer file and is still inside the shorter one.

Together they refuse every cut.  A reader that is steady and lands at the end of
a file cannot end good on a part of it: on the whole file it would do the same,
and stop too early.

`Gives p Q` is what a reader's value satisfies whether or not the reader failed.
-/

namespace Wire

open List Scan Nat

variable {α β : Type}

/-! ## Readers that may fail -/

/-- A good cursor in front of `bytes` comes out behind them with the value `a` and the flag
`ok`. -/
def ReadsTo (p : Scan α) (bytes : Bytes) (a : α) (ok : Bool) : Prop :=
  ∀ (file : Bytes) (pos : Nat) (rest : Bytes), file.drop pos = bytes ++ rest →
    p.run file ⟨pos, true⟩ = (a, ⟨pos + bytes.length, ok⟩)

/-- A good cursor in front of `bytes`, if it comes out good, comes out behind them with the value
`a`. -/
def Lands (p : Scan α) (bytes : Bytes) (a : α) : Prop :=
  ∀ (file : Bytes) (pos : Nat) (rest : Bytes), file.drop pos = bytes ++ rest →
    (p.run file ⟨pos, true⟩).2.ok = true → p.run file ⟨pos, true⟩ = (a, ⟨pos + bytes.length, true⟩)

variable {p refuse : Scan α} {k : α → Scan β} {a : α} {ok : Bool} {n : Nat}
  {bytes file part : Bytes} {c : Cursor}

variable {first second : Bytes} {b : β} {pos : Nat}

theorem Reads.bindTo
    (head : Reads p first a) (tail : ReadsTo (k a) second b ok) :
    ReadsTo (p >>= k) (first ++ second) b ok := by
  intro file pos rest split
  have splitHead : file.drop pos = first ++ (second ++ rest) := by rw [split, append_assoc]
  rw [run_bind, head file pos _ splitHead, tail file _ _ (drop_add_of_drop splitHead),
    length_append, add_assoc]

/-- A length check passes when the bytes it announces are part of what is read. -/
theorem readsTo_whenRemaining
    (enough : n ≤ bytes.length) (body : ReadsTo p bytes a ok) :
    ReadsTo (whenRemaining n refuse p) bytes a ok := by
  intro file pos rest split
  have left : file.length - pos = bytes.length + rest.length := by
    rw [← length_drop, split, length_append]
  have passes : ¬ n > file.length - pos := by omega
  rw [run_whenRemaining, if_neg passes]
  exact body file pos rest split

theorem readsTo_check (q : Prop) [Decidable q] (a : α) (answer : decide q = ok) :
    ReadsTo (if q then pure a else fail >>= fun _ => pure a) [] a ok := by
  intro file pos rest _
  rw [← answer]
  split
  case isTrue holds => simp [holds]
  case isFalse fails => simp [fails]

theorem Reads.lands (reads : Reads p bytes a) : Lands p bytes a :=
  fun file pos rest split _ => reads file pos rest split

theorem ReadsTo.lands
    (reads : ReadsTo p bytes a ok) : Lands p bytes a := by
  intro file pos rest split good
  have here := reads file pos rest split
  rw [here] at good ⊢
  exact congrArg (fun flag => (a, (⟨pos + bytes.length, flag⟩ : Cursor))) good

/-- **Landing composes along the concatenation, because the flag is sticky.** -/
theorem Lands.bind
    (head : Lands p first a) (sticky : ∀ a, Sticky (k a)) (tail : Lands (k a) second b) :
    Lands (p >>= k) (first ++ second) b := by
  intro file pos rest split good
  have splitHead : file.drop pos = first ++ (second ++ rest) := by rw [split, append_assoc]
  rw [run_bind] at good ⊢
  have here := head file pos _ splitHead (sticky _ _ _ good)
  rw [here] at good ⊢
  rw [tail file _ _ (drop_add_of_drop splitHead) good, length_append, add_assoc]

/-! ## Readers on a longer file -/

/-- From this cursor, a run that ends good does the same on every longer file, and ends inside
this one. -/
def Steadily (p : Scan α) (part : Bytes) (c : Cursor) : Prop :=
  (p.run part c).2.ok = true →
    (∀ rest : Bytes, p.run (part ++ rest) c = p.run part c) ∧ (p.run part c).2.pos ≤ part.length

/-- A reader that never looks past the end of a file it ends good on. -/
structure Steady (p : Scan α) : Prop where
  sticky : Sticky p
  same : ∀ (part : Bytes) (c : Cursor), c.pos ≤ part.length → Steadily p part c

def Fails (p : Scan α) : Prop := ∀ (file : Bytes) (c : Cursor), (p.run file c).2.ok = false

theorem fails_fail (a : α) : Fails (fail >>= fun _ => pure a) := by
  intro file c
  simp

theorem steady_of_fails (fails : Fails p) : Steady p where
  sticky file c ok := absurd ok (by simp [fails file c])
  same part c _ ok := absurd ok (by simp [fails part c])

theorem steady_pure (a : α) : Steady (pure a : Scan α) where
  sticky := sticky_pure a
  same _ _ inside _ := ⟨fun _ => rfl, inside⟩

theorem steady_good : Steady good where
  sticky := sticky_good
  same _ _ inside _ := ⟨fun _ => rfl, inside⟩

/-- Steadiness at a cursor passes through a bind, the continuation being met only where the
first part has ended good. -/
theorem Steadily.bind
    (head : Steadily p part c) (sticky : Sticky (k (p.run part c).1))
    (tail : (p.run part c).2.pos ≤ part.length →
      Steadily (k (p.run part c).1) part (p.run part c).2) :
    Steadily (p >>= k) part c := by
  intro good
  rw [run_bind] at good
  obtain ⟨sameHead, insideHead⟩ := head (sticky _ _ good)
  obtain ⟨sameTail, insideTail⟩ := tail insideHead good
  refine ⟨fun rest => ?_, ?_⟩
  · rw [run_bind, run_bind, sameHead rest, sameTail rest]
  · rwa [run_bind]

/-- **Steady readers compose.** -/
theorem Steady.bind (head : Steady p)
    (tail : ∀ a, Steady (k a)) : Steady (p >>= k) where
  sticky := head.sticky.bind fun a => (tail a).sticky
  same part c inside := (head.same part c inside).bind (tail _).sticky
    fun insideHead => (tail _).same part _ insideHead

theorem take_drop_append (inside : pos + n ≤ part.length)
    (rest : Bytes) : ((part ++ rest).drop pos).take n = (part.drop pos).take n := by
  rw [drop_append_of_le_length (by omega), take_append_of_le_length]
  rw [length_drop]
  omega

theorem block_full
    (good : ((block n).run file c).2.ok = true) :
    c.ok = true ∧ ((file.drop c.pos).take n).length = n ∧
      (Scan.block n).run file c = ((file.drop c.pos).take n, ⟨c.pos + n, true⟩) := by
  have started := sticky_block n file c good
  simp only [Scan.block, started, if_true, beq_iff_eq] at good ⊢
  refine ⟨trivial, good, ?_⟩
  simp only [good, Nat.sub_self, replicate_zero, append_nil, beq_self_eq_true]

theorem block_of_full
    (full : ((file.drop pos).take n).length = n) :
    (Scan.block n).run file ⟨pos, true⟩ = ((file.drop pos).take n, ⟨pos + n, true⟩) := by
  simp only [Scan.block, if_true, full, Nat.sub_self, replicate_zero, append_nil, beq_self_eq_true]

theorem steady_block (n : Nat) : Steady (block n) where
  sticky := sticky_block n
  same part c inside good := by
    obtain ⟨started, full, run⟩ := block_full good
    obtain ⟨pos, ok⟩ := c
    obtain rfl : ok = true := started
    have room : pos + n ≤ part.length := by
      simp only [length_take, length_drop] at full
      simp only at inside
      omega
    refine ⟨fun rest => ?_, ?_⟩
    · have same := take_drop_append room rest
      rw [run, block_of_full (by rw [same]; exact full), same]
    · rw [run]
      exact room

/-- A length check that passes passes on every longer file. -/
theorem steadily_whenRemaining
    (enough : ¬ n > part.length - c.pos) (body : Steadily p part c) :
    Steadily (whenRemaining n refuse p) part c := by
  intro good
  rw [run_whenRemaining, if_neg enough] at good ⊢
  obtain ⟨same, stays⟩ := body good
  refine ⟨fun rest => ?_, stays⟩
  have more : ¬ n > (part ++ rest).length - c.pos := by
    rw [length_append]
    omega
  rw [run_whenRemaining, if_neg more, same rest]

theorem enough_of_good
    (other : Fails refuse) (good : ((whenRemaining n refuse p).run file c).2.ok = true) :
    ¬ n > file.length - c.pos := by
  intro short
  rw [run_whenRemaining, if_pos short, other file c] at good
  exact Bool.false_ne_true good

theorem steady_whenRemaining (other : Fails refuse)
    (body : Steady p) : Steady (whenRemaining n refuse p) where
  sticky := sticky_whenRemaining n (steady_of_fails other).sticky body.sticky
  same part c inside good :=
    steadily_whenRemaining (enough_of_good other good) (body.same part c inside) good

theorem steady_times (n : Nat) (body : Steady p) : Steady (times n p) := by
  induction n with
  | zero => exact steady_pure []
  | succ n ih => exact body.bind fun _ => ih.bind fun _ => steady_pure _

/-- Passing a run of bytes is steady behind a check that they are there. -/
theorem steady_pass {k : Nat → Scan α} (other : Fails refuse)
    (tail : ∀ pos, Steady (k pos)) :
    Steady (whenRemaining n refuse
      (tell >>= fun pos => skip n >>= fun _ => k pos)) where
  sticky := sticky_whenRemaining n (steady_of_fails other).sticky <|
    sticky_tell.bind fun pos => (sticky_skip n).bind fun _ => (tail pos).sticky
  same part c inside good := by
    have enough := enough_of_good other good
    refine steadily_whenRemaining enough (fun good => ?_) good
    have passed : c.pos + n ≤ part.length := by omega
    simp only [run_bind, run_tell, run_skip] at good ⊢
    exact (tail c.pos).same part ⟨c.pos + n, c.ok⟩ passed good

/-- A reader may look elsewhere in the file and come back. -/
theorem steady_return (body : Steady p) (f : α → β) :
    Steady (tell >>= fun next => p >>= fun a => seek next >>= fun _ => pure (f a)) where
  sticky := sticky_tell.bind fun next => body.sticky.bind fun _ =>
    (sticky_seek next).bind fun _ => sticky_pure _
  same part c inside good := by
    simp only [run_bind, run_tell, run_seek, run_pure] at good ⊢
    obtain ⟨same, -⟩ := body.same part c inside good
    refine ⟨fun rest => ?_, inside⟩
    rw [same rest]

/-! ## What a reader gives in any case -/

/-- Good or not, the reader's value satisfies `Q`. -/
def Gives (p : Scan α) (Q : α → Prop) : Prop := ∀ (file : Bytes) (c : Cursor), Q (p.run file c).1

theorem gives_pure {Q : α → Prop} (holds : Q a) : Gives (pure a : Scan α) Q := fun _ _ => holds

theorem Gives.bind {Q : α → Prop} {R : β → Prop}
    (head : Gives p Q) (tail : ∀ a, Q a → Gives (k a) R) : Gives (p >>= k) R := by
  intro file c
  rw [run_bind]
  exact tail _ (head file c) file _

theorem gives_bind_of_forall {R : β → Prop}
    (tail : ∀ a, Gives (k a) R) : Gives (p >>= k) R := by
  intro file c
  rw [run_bind]
  exact tail _ file _

theorem gives_whenRemaining {Q : α → Prop}
    (other : Gives refuse Q) (body : Gives p Q) : Gives (whenRemaining n refuse p) Q := by
  intro file c
  rw [run_whenRemaining]
  split
  · exact other file c
  · exact body file c

/-- A block is as long as it was asked to be, read or padded. -/
theorem gives_block (n : Nat) : Gives (block n) fun b => b.length = n := by
  intro file c
  unfold block
  dsimp only
  split
  · simp only [length_append, length_replicate, length_take, length_drop]
    omega
  · exact length_replicate

theorem leNat_lt (bytes : Bytes) : leNat bytes < 256 ^ bytes.length := by
  induction bytes with
  | nil => exact one_pos
  | cons b bytes ih =>
    have byte := b.toNat_lt
    rw [leNat, length_cons, pow_succ']
    omega

end Wire
