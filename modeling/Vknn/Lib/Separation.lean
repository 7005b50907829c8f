import Mathlib.Data.List.Basic

/-!
# Separated entries of a stream

Two entries of a stream can conflict: a read that must not overtake a write, say.  A stream
separates them when a separator stands between them, wherever they stand.  A stream that grows at its
end stays separated as long as each new entry conflicts with none that is still open: one after which
no separator has come.
-/

namespace Separation

open List

variable {ε : Type} {sep sep' : ε → Prop} {conflict conflict' : ε → ε → Prop} {xs : List ε}

/-- An entry with no separator after it. -/
def Open (sep : ε → Prop) (xs : List ε) (x : ε) : Prop :=
  ∃ before after, xs = before ++ x :: after ∧ ∀ e ∈ after, ¬ sep e

/-- Between any two entries that conflict there is a separator. -/
def Separated (sep : ε → Prop) (conflict : ε → ε → Prop) (xs : List ε) : Prop :=
  ∀ before x between y after, xs = before ++ x :: (between ++ y :: after) → conflict x y →
    ∃ e ∈ between, sep e

/-! ## Open entries -/

theorem not_open_nil (x : ε) : ¬ Open sep [] x := by
  rintro ⟨before, after, empty, -⟩
  cases before with
  | nil => cases empty
  | cons => cases empty

/-- After another entry, that entry is open, and those before it that it does not separate. -/
theorem open_concat_iff {e x : ε} : Open sep (xs ++ [e]) x ↔ x = e ∨ (¬ sep e ∧ Open sep xs x) := by
  constructor
  · rintro ⟨before, after, shape, free⟩
    rcases eq_nil_or_concat' after with rfl | ⟨rest, last, rfl⟩
    · exact .inl (List.cons.inj (append_inj' shape rfl).2).1.symm
    · have split : xs ++ [e] = (before ++ x :: rest) ++ [last] := by rw [shape]; simp
      obtain ⟨same, ends⟩ := append_inj' split rfl
      obtain rfl := (List.cons.inj ends).1
      exact .inr ⟨free e (mem_append_right _ mem_cons_self), before, rest, same,
        fun f mem => free f (mem_append_left _ mem)⟩
  · rintro (rfl | ⟨passes, before, after, rfl, free⟩)
    · exact ⟨xs, [], rfl, fun f mem => nomatch mem⟩
    · refine ⟨before, after ++ [e], by simp, fun f mem => ?_⟩
      rcases mem_append.mp mem with old | new
      · exact free f old
      · obtain rfl := mem_singleton.mp new
        exact passes

theorem Open.mem {x : ε} (live : Open sep xs x) : x ∈ xs := by
  obtain ⟨before, after, rfl, -⟩ := live
  exact mem_append_right _ mem_cons_self

/-! ## Separated streams -/

theorem separated_nil : Separated sep conflict [] := by
  intro before x between y after empty
  cases before with
  | nil => cases empty
  | cons => cases empty

/-- **A new entry keeps a stream separated if it conflicts with no open one.** -/
theorem Separated.concat (separated : Separated sep conflict xs) {y : ε}
    (apart : ∀ x, Open sep xs x → ¬ conflict x y) : Separated sep conflict (xs ++ [y]) := by
  intro before x between z after shape here
  rcases eq_nil_or_concat' after with rfl | ⟨rest, last, rfl⟩
  · have split : xs ++ [y] = (before ++ x :: between) ++ [z] := by rw [shape]; simp
    obtain ⟨rfl, ends⟩ := append_inj' split rfl
    obtain rfl := (List.cons.inj ends).1
    by_contra free
    push Not at free
    exact apart x ⟨before, between, rfl, free⟩ here
  · have split : xs ++ [y] = (before ++ x :: (between ++ z :: rest)) ++ [last] := by rw [shape]; simp
    obtain ⟨rfl, -⟩ := append_inj' split rfl
    exact separated before x between z rest rfl here

/-- **Two separated streams may follow each other** if no entry of the second conflicts with one
that the first leaves open. -/
theorem Separated.append {ys : List ε} (left : Separated sep conflict xs)
    (right : Separated sep conflict ys) (apart : ∀ x, Open sep xs x → ∀ y ∈ ys, ¬ conflict x y) :
    Separated sep conflict (xs ++ ys) := by
  intro before x between y after shape here
  rcases append_eq_append_iff.mp shape with ⟨mid, rfl, second⟩ | ⟨mid, rfl, second⟩
  · exact right mid x between y after second here
  · cases mid with
    | nil => exact right [] x between y after second.symm here
    | cons z mid =>
      obtain ⟨rfl, tail⟩ := List.cons.inj second
      rcases append_eq_append_iff.mp tail with ⟨rest, rfl, third⟩ | ⟨rest, rfl, third⟩
      · cases rest with
        | nil =>
          obtain rfl : ys = y :: after := third.symm
          by_contra free
          push Not at free
          exact apart x ⟨before, between, by simp, free⟩ y mem_cons_self here
        | cons w rest =>
          obtain ⟨rfl, -⟩ := List.cons.inj third
          exact left before x between y rest rfl here
      · by_contra free
        push Not at free
        exact apart x ⟨before, mid, rfl, fun e mem => free e (mem_append_left _ mem)⟩ y
          (third ▸ mem_append_right _ mem_cons_self) here

end Separation
