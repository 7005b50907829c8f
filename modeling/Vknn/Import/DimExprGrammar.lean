import Mathlib.Data.List.DropRight
import Vknn.Import.DimExpr

/-!
# The evaluator and the grammar

What the grammar derives, the evaluator reads, with the value of the expression; and what it reads
without a complaint is derived.  The grammar groups to the left where the evaluator loops, so a
derivation at the level of terms or of expressions says where the loop stands after it, and not yet
what the evaluator gives.

On a malformed text the evaluator goes on, but the mark that the text is malformed stays.
-/

namespace Vknn.DimExpr

open List
open CheckedInt (Fits value_eq_some_iff value_of_fits)

variable (binds : Bindings)

/-! ## What an expression comes to -/

namespace Tree

/-- The value of an expression, computed in 64 bits. -/
def checked : Tree → Option Int
  | int ds => literal ds
  | sym name => some ((binds[name]?).getD 0)
  | mul a b => lift CheckedInt.mul a.checked b.checked
  | add a b => lift CheckedInt.add a.checked b.checked
  | sub a b => lift CheckedInt.sub a.checked b.checked

/-- The symbols without a value, behind those that have been collected. -/
def collect : Tree → List Str → List Str
  | int _, free => free
  | sym name, free => if name ∈ binds ∨ name ∈ free then free else free ++ [name]
  | mul a b, free | add a b, free | sub a b, free => b.collect (a.collect free)

end Tree

variable {binds}

theorem literal_concat (ds : Str) (d : UInt8) : literal (ds ++ [d]) =
    (literal ds).bind fun v => (CheckedInt.mul v 10).bind fun v =>
      CheckedInt.add v (d.toNat - 48 : Nat) := by
  unfold literal
  rw [foldl_concat]

theorem digitsValue_concat (ds : Str) (d : UInt8) :
    digitsValue (ds ++ [d]) = 10 * digitsValue ds + (d.toNat - 48) := by
  unfold digitsValue
  rw [foldl_concat]

theorem literal_eq_some_iff (ds : Str) (v : Int) :
    literal ds = some v ↔ Fits (digitsValue ds) ∧ (digitsValue ds : Int) = v := by
  induction ds using List.reverseRecOn generalizing v with
  | nil =>
    rw [show literal [] = CheckedInt.value (digitsValue []) from
      (value_of_fits (by decide)).symm]
    exact value_eq_some_iff
  | append_singleton ds d ih =>
    rw [literal_concat, digitsValue_concat]
    constructor
    · intro read
      obtain ⟨n, front, read⟩ := Option.bind_eq_some_iff.mp read
      obtain ⟨m, ten, read⟩ := Option.bind_eq_some_iff.mp read
      obtain ⟨-, rfl⟩ := (ih n).mp front
      obtain ⟨-, rfl⟩ := value_eq_some_iff.mp ten
      obtain ⟨⟨low, high⟩, rfl⟩ := value_eq_some_iff.mp read
      push_cast
      exact ⟨⟨by omega, by omega⟩, by omega⟩
    · rintro ⟨⟨low, high⟩, rfl⟩
      push_cast at low high
      have front := (ih (digitsValue ds)).mpr ⟨⟨by omega, by omega⟩, rfl⟩
      have ten : CheckedInt.mul (digitsValue ds) 10 = some ((digitsValue ds : Int) * 10) :=
        value_of_fits ⟨by omega, by omega⟩
      rw [front, Option.bind_some, ten, Option.bind_some]
      refine value_eq_some_iff.mpr ⟨⟨by omega, by omega⟩, ?_⟩
      push_cast
      omega

theorem lift_eq_some_iff {f : Int → Int → Int} {a b : Option Int} {v : Int} :
    lift (fun a b => CheckedInt.value (f a b)) a b = some v ↔
      ∃ m n, a = some m ∧ b = some n ∧ Fits (f m n) ∧ f m n = v := by
  unfold lift
  simp only [Option.bind_eq_some_iff, value_eq_some_iff]
  constructor
  · rintro ⟨m, here, n, there, both⟩
    exact ⟨m, n, here, there, both⟩
  · rintro ⟨m, n, here, there, both⟩
    exact ⟨m, here, n, there, both⟩

/-- **Computing in 64 bits gives the value of an expression exactly when all of it fits.** -/
theorem checked_eq_some_iff (t : Tree) (v : Int) :
    t.checked binds = some v ↔ t.Fits binds ∧ t.value binds = v := by
  induction t generalizing v with
  | int ds => exact literal_eq_some_iff ds v
  | sym name =>
    rw [Tree.checked, Option.some.injEq]
    exact (and_iff_right trivial).symm
  | mul a b first second | add a b first second | sub a b first second =>
    refine lift_eq_some_iff.trans ?_
    constructor
    · rintro ⟨m, n, here, there, fits, same⟩
      obtain ⟨fitsA, rfl⟩ := (first m).mp here
      obtain ⟨fitsB, rfl⟩ := (second n).mp there
      exact ⟨⟨fitsA, fitsB, fits⟩, same⟩
    · rintro ⟨⟨fitsA, fitsB, fits⟩, same⟩
      exact ⟨_, _, (first _).mpr ⟨fitsA, rfl⟩, (second _).mpr ⟨fitsB, rfl⟩, fits, same⟩

theorem collect_eq_nil_iff (t : Tree) (free : List Str) :
    t.collect binds free = [] ↔ free = [] ∧ t.Bound binds := by
  induction t generalizing free with
  | int ds => exact ⟨fun none => ⟨none, fun _ absurd_ => by cases absurd_⟩, And.left⟩
  | sym name =>
    unfold Tree.collect Tree.Bound Tree.symbols
    rw [forall_mem_singleton]
    split
    · rename_i known
      constructor
      · rintro rfl
        exact ⟨rfl, known.resolve_right not_mem_nil⟩
      · exact And.left
    · rename_i unknown
      push Not at unknown
      refine ⟨fun none => absurd none (by simp), fun both => absurd both.2 unknown.1⟩
  | mul a b first second | add a b first second | sub a b first second =>
    refine (second _).trans ((and_congr_left' (first free)).trans ?_)
    show _ ↔ free = [] ∧ ∀ name ∈ a.symbols ++ b.symbols, name ∈ binds
    rw [forall_mem_append, and_assoc]
    rfl

/-! ## Scanning -/

/-- A text does not begin with a character of a kind. -/
def Stops (kind : UInt8 → Bool) (u : Str) : Prop := ∀ c, u.head? = some c → kind c = false

variable {r s text u w : Str} {c : UInt8} {fuel : Nat} {a b t : Tree} {level : Level} {p q : Parser}

variable {kind : UInt8 → Bool} {p₁ q' : Parser} {side : Level} {op : UInt8} {e : DimEval}

theorem scan_append {l : Str} (all : ∀ c ∈ l, kind c = true)
    (stops : Stops kind u) : (l ++ u).takeWhile kind = l ∧ (l ++ u).dropWhile kind = u := by
  induction l with
  | nil =>
    cases u with
    | nil => exact ⟨rfl, rfl⟩
    | cons c u =>
      have other : ¬ kind c = true := by
        rw [stops c rfl]
        exact Bool.false_ne_true
      exact ⟨takeWhile_cons_of_neg other, dropWhile_cons_of_neg other⟩
  | cons c l ih =>
    obtain ⟨here, rest⟩ := forall_mem_cons.mp all
    obtain ⟨taken, dropped⟩ := ih rest
    rw [cons_append, takeWhile_cons_of_pos here, dropWhile_cons_of_pos here, taken]
    exact ⟨rfl, dropped⟩

theorem skipws_blank (blank : Blank w) (stops : Stops isBlank u) (free : List Str)
    (bad : Bool) : Parser.skipws ⟨w ++ u, free, bad⟩ = ⟨u, free, bad⟩ := by
  unfold Parser.skipws
  rw [(scan_append blank stops).2]

theorem identChar_of_isBlank (blank : isBlank c = true) : identChar c = false := by
  unfold isBlank at blank
  simp only [Bool.or_eq_true, decide_eq_true_eq] at blank
  rcases blank with rfl | rfl <;> rfl

theorem isBlank_of_identChar (char : identChar c = true) : isBlank c = false := by
  cases blank : isBlank c with
  | false => rfl
  | true => exact absurd char (by rw [identChar_of_isBlank blank]; exact Bool.false_ne_true)

theorem identChar_of_isDigit (digit : isDigit c = true) : identChar c = true := by
  unfold identChar
  rw [digit, Bool.or_true, Bool.true_or]

theorem isDigit_of_identStart (first : identStart c = true) : isDigit c = false := by
  cases digit : isDigit c with
  | false => rfl
  | true =>
    unfold identStart at first
    unfold isDigit at digit
    simp only [Bool.or_eq_true, Bool.and_eq_true, decide_eq_true_eq, UInt8.le_iff_toNat_le] at *
    rcases first with (⟨low, -⟩ | ⟨low, -⟩) | rfl
    · exact absurd (le_trans low digit.2) (by decide)
    · exact absurd (le_trans low digit.2) (by decide)
    · exact absurd digit.2 (by decide)

/-- After blanks and a character that is in no symbol, a token ends. -/
theorem stops_blank (blank : Blank w) (other : identChar c = false) :
    Stops identChar (w ++ c :: u) := by
  intro d first
  cases w with
  | nil =>
    obtain rfl := Option.some.inj first
    exact other
  | cons b w =>
    obtain rfl := Option.some.inj first
    exact identChar_of_isBlank (blank b mem_cons_self)

theorem stops_cons (other : kind c = false) :
    Stops kind (c :: u) := fun _ first => Option.some.inj first ▸ other

/-! ## Loops -/

/-- What is behind blanks does not begin with a character. -/
def Behind (c : UInt8) (u : Str) : Prop := (u.dropWhile isBlank).head? ≠ some c

theorem behind_blank (blank : Blank w) {d : UInt8} (visible : isBlank d = false)
    (other : d ≠ c) : Behind c (w ++ d :: u) := by
  unfold Behind
  rw [(scan_append blank (stops_cons visible)).2]
  exact fun same => other (Option.some.inj same)

theorem termLoop_end (enough : 1 ≤ fuel) (ends : Behind 42 u)
    (v : Option Int) (free : List Str) (bad : Bool) : termLoop binds fuel v ⟨u, free, bad⟩ =
      some (v, ⟨u.dropWhile isBlank, free, bad⟩) := by
  cases fuel with
  | zero => cases enough
  | succ fuel =>
    unfold termLoop
    exact if_neg ends

theorem exprLoop_end (enough : 1 ≤ fuel) (plus : Behind 43 u)
    (minus : Behind 45 u) (v : Option Int) (free : List Str) (bad : Bool) :
    exprLoop binds fuel v ⟨u, free, bad⟩ = some (v, ⟨u.dropWhile isBlank, free, bad⟩) := by
  cases fuel with
  | zero => cases enough
  | succ fuel =>
    unfold exprLoop
    exact (if_neg plus).trans (if_neg minus)

theorem termLoop_star (blank : Blank w) (fuel : Nat) (v : Option Int) (u : Str)
    (free : List Str) (bad : Bool) : termLoop binds (fuel + 1) v ⟨w ++ 42 :: u, free, bad⟩ =
      (factor binds fuel ⟨u, free, bad⟩).bind fun r =>
        termLoop binds fuel (lift CheckedInt.mul v r.1) r.2 := by
  conv_lhs => unfold termLoop
  rw [skipws_blank blank (stops_cons (c := 42) rfl)]
  exact if_pos rfl

theorem exprLoop_plus (blank : Blank w) (fuel : Nat) (v : Option Int) (u : Str)
    (free : List Str) (bad : Bool) : exprLoop binds (fuel + 1) v ⟨w ++ 43 :: u, free, bad⟩ =
      (term binds fuel ⟨u, free, bad⟩).bind fun r =>
        exprLoop binds fuel (lift CheckedInt.add v r.1) r.2 := by
  conv_lhs => unfold exprLoop
  rw [skipws_blank blank (stops_cons (c := 43) rfl)]
  exact if_pos rfl

theorem exprLoop_minus (blank : Blank w) (fuel : Nat) (v : Option Int) (u : Str)
    (free : List Str) (bad : Bool) : exprLoop binds (fuel + 1) v ⟨w ++ 45 :: u, free, bad⟩ =
      (term binds fuel ⟨u, free, bad⟩).bind fun r =>
        exprLoop binds fuel (lift CheckedInt.sub v r.1) r.2 := by
  conv_lhs => unfold exprLoop
  rw [skipws_blank blank (stops_cons (c := 45) rfl)]
  exact (if_neg (fun same => absurd (Option.some.inj same) (by decide))).trans (if_pos rfl)

theorem exprLoop_skip (fuel : Nat) (v : Option Int) (u : Str) (free : List Str) (bad : Bool) :
    exprLoop binds fuel v ⟨u.dropWhile isBlank, free, bad⟩ =
      exprLoop binds fuel v ⟨u, free, bad⟩ := by
  cases fuel with
  | zero => rfl
  | succ fuel =>
    have again : Parser.skipws ⟨u.dropWhile isBlank, free, bad⟩ = Parser.skipws ⟨u, free, bad⟩ := by
      unfold Parser.skipws
      dsimp only
      rw [dropWhile_idempotent]
    unfold exprLoop
    dsimp only
    rw [again]

/-! ## What the grammar derives is read -/

variable (binds) in
/-- What a derivation at a level says about the evaluator, whatever stands behind the text. -/
def Completes : Level → Tree → Str → Prop
  | .factor, t, s => ∀ u free fuel, Stops identChar u → 3 * (s ++ u).length + 1 ≤ fuel →
      factor binds fuel ⟨s ++ u, free, false⟩ =
        some (t.checked binds, ⟨u, t.collect binds free, false⟩)
  | .term, t, s => ∀ u free fuel, Stops identChar u → 3 * (s ++ u).length + 2 ≤ fuel →
      ∃ left, 3 * u.length + 1 ≤ left ∧ term binds fuel ⟨s ++ u, free, false⟩ =
        termLoop binds left (t.checked binds) ⟨u, t.collect binds free, false⟩
  | .expr, t, s => ∀ u free fuel, Stops identChar u → Behind 42 u → 3 * (s ++ u).length + 3 ≤ fuel →
        ∃ left, 3 * u.length + 1 ≤ left ∧ expr binds fuel ⟨s ++ u, free, false⟩ =
          exprLoop binds left (t.checked binds) ⟨u, t.collect binds free, false⟩

theorem completes_int {ds : Str} (blank : Blank w) (some_ : ds ≠ [])
    (digits : ∀ c ∈ ds, isDigit c = true) : Completes binds .factor (.int ds) (w ++ ds) := by
  intro u free fuel stops enough
  obtain ⟨fuel, rfl⟩ := Nat.exists_eq_add_of_le' (le_trans (Nat.le_add_left 1 _) enough)
  cases ds with
  | nil => exact absurd rfl some_
  | cons d ds =>
    have first : isDigit d = true := digits d mem_cons_self
    have visible : isBlank d = false := isBlank_of_identChar (identChar_of_isDigit first)
    have other : d ≠ 40 := by
      rintro rfl
      exact absurd first (by decide)
    have ends : Stops isDigit u := by
      intro c here
      cases digit : isDigit c with
      | false => rfl
      | true => exact absurd (identChar_of_isDigit digit) (by simp [stops c here])
    obtain ⟨taken, dropped⟩ := scan_append digits ends
    rw [cons_append] at taken dropped
    unfold factor
    dsimp only
    rw [append_assoc, cons_append, skipws_blank blank (stops_cons visible)]
    dsimp only
    rw [if_neg other, if_pos first, taken, dropped]
    rfl

theorem completes_sym {cs : Str} (blank : Blank w)
    (first : identStart c = true) (chars : ∀ d ∈ cs, identChar d = true) :
    Completes binds .factor (.sym (c :: cs)) (w ++ c :: cs) := by
  intro u free fuel stops enough
  obtain ⟨fuel, rfl⟩ := Nat.exists_eq_add_of_le' (le_trans (Nat.le_add_left 1 _) enough)
  have char : identChar c = true := by
    unfold identChar
    rw [first, Bool.true_or, Bool.true_or]
  have other : c ≠ 40 := by
    rintro rfl
    exact absurd first (by decide)
  have digit : ¬ isDigit c = true := by
    rw [isDigit_of_identStart first]
    exact Bool.false_ne_true
  obtain ⟨taken, dropped⟩ := scan_append (forall_mem_cons.mpr ⟨char, chars⟩) stops
  rw [cons_append] at taken dropped
  unfold factor
  dsimp only
  rw [append_assoc, cons_append, skipws_blank blank (stops_cons (isBlank_of_identChar char))]
  dsimp only
  rw [if_neg other, if_neg digit, if_pos first, taken, dropped]
  unfold Tree.checked Tree.collect
  cases known : binds[c :: cs]? with
  | none =>
    have absent : ¬ (c :: cs) ∈ binds := fun present => by
      rw [Std.ExtTreeMap.getElem?_eq_some_getElem present] at known
      exact Option.some_ne_none _ known
    dsimp only [Parser.addFree]
    by_cases collected : (c :: cs) ∈ free
    · rw [if_pos collected, if_pos (Or.inr collected)]
      rfl
    · rw [if_neg collected, if_neg (not_or.mpr ⟨absent, collected⟩)]
      rfl
  | some v =>
    have present : (c :: cs) ∈ binds := Std.ExtTreeMap.mem_iff_isSome_getElem?.mpr (known ▸ rfl)
    rw [if_pos (Or.inl present)]
    rfl

theorem completes_group {w' : Str} (blank : Blank w) (blank' : Blank w')
    (inner : Completes binds .expr t s) :
    Completes binds .factor t (w ++ 40 :: (s ++ (w' ++ [41]))) := by
  intro u free fuel stops enough
  obtain ⟨fuel, rfl⟩ := Nat.exists_eq_add_of_le' (le_trans (Nat.le_add_left 1 _) enough)
  have text : w ++ 40 :: (s ++ (w' ++ [41])) ++ u = w ++ 40 :: (s ++ (w' ++ 41 :: u)) := by simp
  rw [text] at enough ⊢
  have visible : isBlank 41 = false := rfl
  obtain ⟨left, more, run⟩ := inner (w' ++ 41 :: u) free fuel (stops_blank blank' rfl)
    (behind_blank blank' visible (by decide)) (by
      simp only [length_append, length_cons] at enough ⊢
      omega)
  unfold factor
  dsimp only
  rw [skipws_blank blank (stops_cons (c := 40) rfl)]
  dsimp only
  rw [if_pos rfl, run, exprLoop_end (le_trans (Nat.le_add_left 1 _) more)
    (behind_blank blank' visible (by decide)) (behind_blank blank' visible (by decide)),
    (scan_append blank' (stops_cons (c := 41) rfl)).2, Option.map_some]
  rfl

theorem completes_term (inner : Completes binds .factor t s) : Completes binds .term t s := by
  intro u free fuel stops enough
  obtain ⟨fuel, rfl⟩ := Nat.exists_eq_add_of_le' (le_trans (Nat.le_add_left 1 _) enough)
  refine ⟨fuel, ?_, ?_⟩
  · rw [length_append] at enough
    omega
  · unfold term
    rw [inner u free fuel stops (by omega)]
    rfl

theorem completes_mul (blank : Blank w)
    (left : Completes binds .term a s) (right : Completes binds .factor b r) :
    Completes binds .term (.mul a b) (s ++ (w ++ 42 :: r)) := by
  intro u free fuel stops enough
  have text : s ++ (w ++ 42 :: r) ++ u = s ++ (w ++ 42 :: (r ++ u)) := by simp
  rw [text] at enough ⊢
  obtain ⟨rounds, more, run⟩ := left (w ++ 42 :: (r ++ u)) free fuel (stops_blank blank rfl) enough
  obtain ⟨rounds, rfl⟩ := Nat.exists_eq_add_of_le' (le_trans (Nat.le_add_left 1 _) more)
  simp only [length_append, length_cons] at more
  refine ⟨rounds, by omega, ?_⟩
  rw [run, termLoop_star blank, right u _ rounds stops (by rw [length_append]; omega)]
  rfl

/-- The loop over the terms of a sum goes on behind a term. -/
theorem exprLoop_term (right : Completes binds .term b r)
    (stops : Stops identChar u) (ends : Behind 42 u)
    (enough : 3 * (r ++ u).length + 2 ≤ fuel) (op : Int → Int → Option Int) (v : Option Int)
    (free : List Str) :
    ((term binds fuel ⟨r ++ u, free, false⟩).bind fun q =>
        exprLoop binds fuel (lift op v q.1) q.2) =
      exprLoop binds fuel (lift op v (b.checked binds)) ⟨u, b.collect binds free, false⟩ := by
  obtain ⟨rounds, more, run⟩ := right u free fuel stops enough
  rw [run, termLoop_end (le_trans (Nat.le_add_left 1 _) more) ends, Option.bind_some]
  exact exprLoop_skip _ _ _ _ _

theorem completes_expr (inner : Completes binds .term t s) : Completes binds .expr t s := by
  intro u free fuel stops ends enough
  obtain ⟨fuel, rfl⟩ := Nat.exists_eq_add_of_le' (le_trans (Nat.le_add_left 1 _) enough)
  obtain ⟨rounds, more, run⟩ := inner u free fuel stops (by omega)
  refine ⟨fuel, ?_, ?_⟩
  · rw [length_append] at enough
    omega
  · unfold expr
    rw [run, termLoop_end (le_trans (Nat.le_add_left 1 _) more) ends, Option.bind_some]
    exact exprLoop_skip _ _ _ _ _

theorem completes_add (blank : Blank w)
    (left : Completes binds .expr a s) (right : Completes binds .term b r) :
    Completes binds .expr (.add a b) (s ++ (w ++ 43 :: r)) := by
  intro u free fuel stops ends enough
  have text : s ++ (w ++ 43 :: r) ++ u = s ++ (w ++ 43 :: (r ++ u)) := by simp
  rw [text] at enough ⊢
  obtain ⟨rounds, more, run⟩ := left (w ++ 43 :: (r ++ u)) free fuel (stops_blank blank rfl)
    (behind_blank blank rfl (by decide)) enough
  obtain ⟨rounds, rfl⟩ := Nat.exists_eq_add_of_le' (le_trans (Nat.le_add_left 1 _) more)
  simp only [length_append, length_cons] at more
  refine ⟨rounds, by omega, ?_⟩
  rw [run, exprLoop_plus blank, exprLoop_term right stops ends (by rw [length_append]; omega)]
  rfl

theorem completes_sub (blank : Blank w)
    (left : Completes binds .expr a s) (right : Completes binds .term b r) :
    Completes binds .expr (.sub a b) (s ++ (w ++ 45 :: r)) := by
  intro u free fuel stops ends enough
  have text : s ++ (w ++ 45 :: r) ++ u = s ++ (w ++ 45 :: (r ++ u)) := by simp
  rw [text] at enough ⊢
  obtain ⟨rounds, more, run⟩ := left (w ++ 45 :: (r ++ u)) free fuel (stops_blank blank rfl)
    (behind_blank blank rfl (by decide)) enough
  obtain ⟨rounds, rfl⟩ := Nat.exists_eq_add_of_le' (le_trans (Nat.le_add_left 1 _) more)
  simp only [length_append, length_cons] at more
  refine ⟨rounds, by omega, ?_⟩
  rw [run, exprLoop_minus blank, exprLoop_term right stops ends (by rw [length_append]; omega)]
  rfl

/-- **What the grammar derives, the evaluator reads.** -/
theorem completes (reads : Reads level t s) : Completes binds level t s := by
  induction reads with
  | int blank some_ digits => exact completes_int blank some_ digits
  | sym blank first chars => exact completes_sym blank first chars
  | group blank _ blank' ih => exact completes_group blank blank' ih
  | factor _ ih => exact completes_term ih
  | mul _ blank _ first second => exact completes_mul blank first second
  | term _ ih => exact completes_expr ih
  | add _ blank _ first second => exact completes_add blank first second
  | sub _ blank _ first second => exact completes_sub blank first second

/-! ## What is read is derived -/

/-- A call ends, on a text that is no longer; and unless it marks the text as malformed, the text
was not marked before and the call did what it should. -/
def Ends (p : Parser) (good : Parser → Prop) (r : Option (Option Int × Parser)) : Prop :=
  ∃ v q, r = some (v, q) ∧ q.rest.length ≤ p.rest.length ∧ (q.bad = false → p.bad = false ∧ good q)

/-- An expression of a level has been read, and perhaps blanks behind it. -/
def Passed (level : Level) (p q : Parser) : Prop :=
  ∃ t s w, Reads level t s ∧ Blank w ∧ p.rest = s ++ (w ++ q.rest)

/-- What a loop reads makes an expression of a level out of one. -/
def Extends (level : Level) (p q : Parser) : Prop :=
  ∀ a s₀ w₀, Reads level a s₀ → Blank w₀ →
    ∃ b s w, Reads level b s ∧ Blank w ∧ s₀ ++ (w₀ ++ p.rest) = s ++ (w ++ q.rest)

theorem skipws_split (p : Parser) :
    ∃ w, Blank w ∧ p.rest = w ++ p.skipws.rest ∧ p.skipws.rest.length ≤ p.rest.length :=
  ⟨p.rest.takeWhile isBlank, fun _ inside => mem_takeWhile_imp inside,
    takeWhile_append_dropWhile.symm, (dropWhile_sublist _).length_le⟩

theorem Ends.bad (p : Parser) (good : Parser → Prop) (v : Option Int)
    (shorter : q.rest.length ≤ p.rest.length) : Ends p good (some (v, { q with bad := true })) :=
  ⟨v, _, rfl, shorter, fun fine => absurd fine (Bool.false_ne_true ·.symm)⟩

theorem Ends.bind {good first : Parser → Prop} {second : Parser → Parser → Prop}
    {r : Option (Option Int × Parser)} {f : Option Int × Parser → Option (Option Int × Parser)}
    (ends : Ends p₁ first r) (shorter : p₁.rest.length ≤ p.rest.length) (same : p₁.bad = p.bad)
    (next : ∀ v q, q.rest.length ≤ p₁.rest.length → Ends q (second q) (f (v, q)))
    (both : ∀ q q', first q → second q q' → good q') : Ends p good (r.bind f) := by
  obtain ⟨v, q, rfl, less, fine⟩ := ends
  obtain ⟨v', q', run, less', fine'⟩ := next v q less
  refine ⟨v', q', run, by omega, fun well => ?_⟩
  obtain ⟨before, there⟩ := fine' well
  obtain ⟨start, here⟩ := fine before
  exact ⟨same.symm.trans start, both q q' here there⟩

theorem Extends.done (level : Level) (p : Parser) : Extends level p p.skipws := by
  intro a s₀ w₀ left blank₀
  obtain ⟨w, blank, split, -⟩ := skipws_split p
  refine ⟨a, s₀, w₀ ++ w, left, forall_mem_append.mpr ⟨blank₀, blank⟩, ?_⟩
  rw [split, append_assoc]

/-- One round of a loop: an operator, its right side, and the rounds that follow. -/
theorem Extends.round
    (build : ∀ {s w r : Str} {a b : Tree}, Reads level a s → Blank w → Reads side b r →
      ∃ c, Reads level c (s ++ (w ++ op :: r)))
    (blank : Blank w) (split : p.rest = w ++ op :: p₁.rest) (right : Passed side p₁ q)
    (more : Extends level q q') : Extends level p q' := by
  intro a s₀ w₀ left blank₀
  obtain ⟨b, r, w', reads, blank', text⟩ := right
  obtain ⟨c, whole⟩ := build left (forall_mem_append.mpr ⟨blank₀, blank⟩) reads
  obtain ⟨d, s, w'', reads', blank'', rest⟩ := more c _ w' whole blank'
  refine ⟨d, s, w'', reads', blank'', ?_⟩
  rw [← rest, split, text]
  simp only [append_assoc, cons_append]

theorem Passed.extend {inner : Level}
    (rise : ∀ {t s}, Reads inner t s → Reads level t s) (first : Passed inner p q)
    (more : Extends level q q') : Passed level p q' := by
  obtain ⟨t, s, w, reads, blank, split⟩ := first
  obtain ⟨b, s', w', reads', blank', rest⟩ := more t s w (rise reads) blank
  exact ⟨b, s', w', reads', blank', split.trans rest⟩

variable (binds) in
/-- With enough fuel each call of the evaluator ends, and reads what its level derives. -/
structure Sound (fuel : Nat) : Prop where
  factor : ∀ p : Parser, 3 * p.rest.length + 1 ≤ fuel →
    Ends p (Passed .factor p) (factor binds fuel p)
  term : ∀ p : Parser, 3 * p.rest.length + 2 ≤ fuel → Ends p (Passed .term p) (term binds fuel p)
  termLoop : ∀ v (p : Parser), 3 * p.rest.length + 1 ≤ fuel →
    Ends p (Extends .term p) (termLoop binds fuel v p)
  expr : ∀ p : Parser, 3 * p.rest.length + 3 ≤ fuel → Ends p (Passed .expr p) (expr binds fuel p)
  exprLoop : ∀ v (p : Parser), 3 * p.rest.length + 1 ≤ fuel →
    Ends p (Extends .expr p) (exprLoop binds fuel v p)

theorem head_split (head : u.head? = some c) : u = c :: u.tail := by
  cases u with
  | nil => cases head
  | cons d u =>
    obtain rfl := Option.some.inj head
    rfl

theorem sound_term (ih : Sound binds fuel) (p : Parser)
    (enough : 3 * p.rest.length + 2 ≤ fuel + 1) :
    Ends p (Passed .term p) (term binds (fuel + 1) p) := by
  unfold term
  exact (ih.factor p (by omega)).bind le_rfl rfl
    (fun v q shorter => ih.termLoop v q (by omega)) fun q q' => Passed.extend Reads.factor

theorem sound_expr (ih : Sound binds fuel) (p : Parser)
    (enough : 3 * p.rest.length + 3 ≤ fuel + 1) :
    Ends p (Passed .expr p) (expr binds (fuel + 1) p) := by
  unfold expr
  exact (ih.term p (by omega)).bind le_rfl rfl
    (fun v q shorter => ih.exprLoop v q (by omega)) fun q q' => Passed.extend Reads.term

theorem sound_round
    {operand : Parser → Option (Option Int × Parser)}
    {loop : Option Int → Parser → Option (Option Int × Parser)}
    (build : ∀ {s w r : Str} {a b : Tree}, Reads level a s → Blank w → Reads side b r →
      ∃ c, Reads level c (s ++ (w ++ op :: r)))
    (calls : ∀ p : Parser, 3 * p.rest.length + 2 ≤ fuel → Ends p (Passed side p) (operand p))
    (loops : ∀ v (p : Parser), 3 * p.rest.length + 1 ≤ fuel → Ends p (Extends level p) (loop v p))
    (combine : Option Int → Option Int) (blank : Blank w)
    (split : p.rest = w ++ p.skipws.rest) (head : p.skipws.rest.head? = some op)
    (enough : 3 * p.rest.length + 1 ≤ fuel + 1) :
    Ends p (Extends level p) ((operand { p.skipws with rest := p.skipws.rest.tail }).bind fun r =>
      loop (combine r.1) r.2) := by
  rw [head_split head] at split
  have length := congrArg List.length split
  rw [length_append, length_cons] at length
  exact (calls { p.skipws with rest := p.skipws.rest.tail } (by dsimp only; omega)).bind
    (by dsimp only; omega) rfl
    (fun v q shorter => loops _ q (by dsimp only at shorter; omega))
    fun q q' right more => Extends.round build blank split right more

theorem sound_termLoop (ih : Sound binds fuel) (v : Option Int) (p : Parser)
    (enough : 3 * p.rest.length + 1 ≤ fuel + 1) :
    Ends p (Extends .term p) (termLoop binds (fuel + 1) v p) := by
  obtain ⟨w, blank, split, shorter⟩ := skipws_split p
  unfold termLoop
  dsimp only
  split
  · rename_i head
    exact sound_round (fun left blank right => ⟨_, .mul left blank right⟩)
      (fun p enough => ih.factor p (by omega)) ih.termLoop (lift CheckedInt.mul v) blank split head
      enough
  · exact ⟨v, p.skipws, rfl, shorter, fun fine => ⟨fine, Extends.done _ p⟩⟩

theorem sound_exprLoop (ih : Sound binds fuel) (v : Option Int) (p : Parser)
    (enough : 3 * p.rest.length + 1 ≤ fuel + 1) :
    Ends p (Extends .expr p) (exprLoop binds (fuel + 1) v p) := by
  obtain ⟨w, blank, split, shorter⟩ := skipws_split p
  unfold exprLoop
  dsimp only
  split
  · rename_i head
    exact sound_round (fun left blank right => ⟨_, .add left blank right⟩) ih.term ih.exprLoop
      (lift CheckedInt.add v) blank split head enough
  · split
    · rename_i head
      exact sound_round (fun left blank right => ⟨_, .sub left blank right⟩) ih.term ih.exprLoop
        (lift CheckedInt.sub v) blank split head enough
    · exact ⟨v, p.skipws, rfl, shorter, fun fine => ⟨fine, Extends.done _ p⟩⟩

/-- Parentheses, once what is inside has been read. -/
theorem group_ends {r : Option (Option Int × Parser)}
    (inner : Ends { p.skipws with rest := u } (Passed .expr { p.skipws with rest := u }) r)
    (shorter : p.skipws.rest.length ≤ p.rest.length) (here : p.skipws.rest = 40 :: u)
    (blank : Blank w) (cut : p.rest = w ++ p.skipws.rest) :
    Ends p (Passed .factor p) (r.map fun r =>
      if r.2.skipws.rest.head? = some 41 then
        (r.1, { r.2.skipws with rest := r.2.skipws.rest.tail })
      else (r.1, { r.2.skipws with bad := true })) := by
  obtain ⟨v, q, rfl, less, fine⟩ := inner
  obtain ⟨w', blank', cut', shorter'⟩ := skipws_split q
  have length := congrArg List.length here
  rw [length_cons] at length
  dsimp only at less
  rw [Option.map_some]
  dsimp only
  by_cases close : q.skipws.rest.head? = some 41
  · rw [if_pos close]
    have tail : q.skipws.rest.tail.length ≤ q.skipws.rest.length := (tail_sublist _).length_le
    refine ⟨v, _, rfl, by dsimp only; omega, fun well => ?_⟩
    obtain ⟨start, t, s, w'', reads, blank'', text⟩ := fine well
    refine ⟨start, t, _, [], .group blank reads (forall_mem_append.mpr ⟨blank'', blank'⟩),
      forall_mem_nil _, ?_⟩
    dsimp only at text ⊢
    rw [cut, here, text, cut', head_split close]
    simp only [append_assoc, cons_append, nil_append, tail_cons]
  · rw [if_neg close]
    exact Ends.bad p _ _ (by omega)

theorem sound_factor (ih : Sound binds fuel) (p : Parser)
    (enough : 3 * p.rest.length + 1 ≤ fuel + 1) :
    Ends p (Passed .factor p) (factor binds (fuel + 1) p) := by
  obtain ⟨w, blank, cut, shorter⟩ := skipws_split p
  unfold factor
  dsimp only
  split
  · exact Ends.bad p _ _ shorter
  · rename_i c u here
    have length := congrArg List.length here
    rw [length_cons] at length
    split
    · rename_i paren
      subst paren
      refine group_ends ?_ shorter here blank cut
      exact ih.expr { p.skipws with rest := u } (by dsimp only; omega)
    split
    · rename_i digit
      have scanned : p.rest = (w ++ p.skipws.rest.takeWhile isDigit) ++
          ([] ++ p.skipws.rest.dropWhile isDigit) := by
        rw [nil_append, append_assoc, takeWhile_append_dropWhile, ← cut]
      refine ⟨_, _, rfl, le_trans (dropWhile_sublist _).length_le shorter,
        fun fine => ⟨fine, _, _, [], .int blank ?_ fun _ inside => mem_takeWhile_imp inside,
          forall_mem_nil _, scanned⟩⟩
      rw [here, takeWhile_cons_of_pos digit]
      exact cons_ne_nil _ _
    split
    · rename_i first
      have char : identChar c = true := by
        unfold identChar
        rw [first, Bool.true_or, Bool.true_or]
      have scanned : p.rest = (w ++ c :: u.takeWhile identChar) ++
          ([] ++ p.skipws.rest.dropWhile identChar) := by
        rw [nil_append, append_assoc, here, dropWhile_cons_of_pos char,
          cons_append, takeWhile_append_dropWhile, ← here, ← cut]
      have passed : Passed .factor p { p.skipws with rest := p.skipws.rest.dropWhile identChar } :=
        ⟨_, _, [], .sym blank first fun _ inside => mem_takeWhile_imp inside,
          forall_mem_nil _, scanned⟩
      have less : (p.skipws.rest.dropWhile identChar).length ≤ p.rest.length :=
        le_trans (dropWhile_sublist _).length_le shorter
      split
      · unfold Parser.addFree
        split <;> exact ⟨_, _, rfl, less, fun fine => ⟨fine, passed⟩⟩
      · exact ⟨_, _, rfl, less, fun fine => ⟨fine, passed⟩⟩
    · exact Ends.bad p _ _ shorter

/-- **With enough fuel the evaluator ends, and it passes only over what the grammar derives.** -/
theorem sound (fuel : Nat) : Sound binds fuel := by
  induction fuel with
  | zero => exact ⟨nofun, nofun, nofun, nofun, nofun⟩
  | succ fuel ih =>
    exact ⟨sound_factor ih, sound_term ih, sound_termLoop ih, sound_expr ih, sound_exprLoop ih⟩

/-! ## Whole texts -/

theorem reads_ne_nil (reads : Reads level t s) : s ≠ [] := by
  induction reads with
  | int _ some_ _ => exact append_ne_nil_of_right_ne_nil _ some_
  | sym => exact append_ne_nil_of_right_ne_nil _ (cons_ne_nil _ _)
  | group => exact append_ne_nil_of_right_ne_nil _ (cons_ne_nil _ _)
  | factor _ ih => exact ih
  | mul _ _ _ ih => exact append_ne_nil_of_left_ne_nil ih _
  | term _ ih => exact ih
  | add _ _ _ ih => exact append_ne_nil_of_left_ne_nil ih _
  | sub _ _ _ ih => exact append_ne_nil_of_left_ne_nil ih _

theorem dropWhile_of_blank (blank : Blank w) : w.dropWhile isBlank = [] := by
  have stops : Stops isBlank [] := nofun
  have dropped := (scan_append blank stops).2
  rwa [append_nil] at dropped

/-- **The evaluator on an expression.** -/
theorem evalDimExpr?_of_denotes (denotes : Denotes text t) : evalDimExpr? binds text = some
      { ok := (t.collect binds []).isEmpty, value := t.checked binds,
        freeSymbols := t.collect binds [] } := by
  obtain ⟨s, w, reads, blank, rfl⟩ := denotes
  have here : s ++ w ≠ [] := append_ne_nil_of_left_ne_nil (reads_ne_nil reads) w
  have stops : Stops identChar w := by
    intro c first
    exact identChar_of_isBlank (blank c (mem_of_head? first))
  have behind : ∀ c, Behind c w := by
    intro c
    unfold Behind
    rw [dropWhile_of_blank blank]
    exact (Option.some_ne_none c).symm
  obtain ⟨rounds, more, run⟩ := completes reads w [] (fuelFor (s ++ w)) stops (behind 42) le_rfl
  unfold evalDimExpr?
  rw [if_neg (by rwa [List.isEmpty_iff]), run,
    exprLoop_end (le_trans (Nat.le_add_left 1 _) more) (behind 43) (behind 45),
    dropWhile_of_blank blank]
  rfl

/-- Differences group to the left: 7-2-1 is 4. -/
example : evalDimExpr? ∅ [55, 45, 50, 45, 49] = some { ok := true, value := some 4 } := by
  decide

/-- **An accepted text is an expression.** -/
theorem denotes_of_ok (eval : evalDimExpr? binds text = some e)
    (ok : e.ok = true) : ∃ t, Denotes text t := by
  unfold evalDimExpr? at eval
  split at eval
  · obtain rfl := Option.some.inj eval
    cases ok
  · obtain ⟨v, q, run, -, fine⟩ := (@sound binds (fuelFor text)).expr { rest := text } le_rfl
    rw [run, Option.map_some, Option.some.injEq] at eval
    dsimp only at eval
    split at eval
    · subst eval
      cases ok
    · rename_i whole
      rw [Bool.or_eq_true, not_or, Bool.not_eq_true, Bool.not_eq_true', Bool.not_eq_false,
        List.isEmpty_iff] at whole
      obtain ⟨-, t, s, w, reads, blank, text_⟩ := fine whole.1
      obtain ⟨w', blank', rest, -⟩ := skipws_split q
      rw [whole.2, append_nil] at rest
      rw [rest] at text_
      exact ⟨t, s, w ++ w', reads, forall_mem_append.mpr ⟨blank, blank'⟩, text_⟩

theorem evalDimExpr?_isSome (text : Str) : ∃ e, evalDimExpr? binds text = some e := by
  unfold evalDimExpr?
  split
  · exact ⟨_, rfl⟩
  · obtain ⟨v, q, run, -⟩ := (@sound binds (fuelFor text)).expr { rest := text } le_rfl
    rw [run]
    exact ⟨_, rfl⟩

theorem ok_iff (eval : evalDimExpr? binds text = some e) :
    e.ok = true ↔ ∃ t, Denotes text t ∧ t.Bound binds := by
  constructor
  · intro ok
    obtain ⟨t, denotes⟩ := denotes_of_ok eval ok
    rw [evalDimExpr?_of_denotes denotes, Option.some.injEq] at eval
    subst eval
    exact ⟨t, denotes, ((collect_eq_nil_iff t []).mp (List.isEmpty_iff.mp ok)).2⟩
  · rintro ⟨t, denotes, bound⟩
    rw [evalDimExpr?_of_denotes denotes, Option.some.injEq] at eval
    subst eval
    exact List.isEmpty_iff.mpr ((collect_eq_nil_iff t []).mpr ⟨rfl, bound⟩)

theorem EvaluatesExactly.fits (exactly : EvaluatesExactly binds text)
    (denotes : Denotes text t) (bound : t.Bound binds) : t.Fits binds := by
  obtain ⟨e, eval, -, values⟩ := exactly
  have value := values t denotes bound
  rw [evalDimExpr?_of_denotes denotes, Option.some.injEq] at eval
  subst eval
  exact ((checked_eq_some_iff t _).mp value).1

/-- The digits of 9223372036854775808, which is 2^63. -/
def longInteger : Str :=
  [57, 50, 50, 51, 51, 55, 50, 48, 51, 54, 56, 53, 52, 55, 55, 53, 56, 48, 56]

end Vknn.DimExpr
