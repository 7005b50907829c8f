import Vknn.Ir.Shape
import Vknn.Lib.Broadcast

/-!
# A rectifier with a slope

An element that is not positive is multiplied by a slope.  The slope is read by the channel of
the element, in the four-dimensional view of the input, or at its only element.  Broadcasting
reads it where the axes of both tensors, lined up from the last one, say.
-/

namespace Vknn.Cpu.PRelu

open RowMajor Broadcast List Int NCHW Option Nat

/-- Numbers with a sign and a product, in which a slope can make a difference. -/
structure Numbers (R : Type) where
  positive : R → Bool
  mul : R → R → R
  told : ∃ x a b, positive x = false ∧ mul a x ≠ mul b x

def integers : Numbers Int where
  positive x := decide (0 < x)
  mul := (· * ·)
  told := ⟨-1, 0, 1, by decide, by decide⟩

variable {R : Type} (N : Numbers R)

/-- Where the slope is read for an element. -/
def slopeAt (s t : Shape) (i : Int) : Int :=
  let x := ofShape s
  if size t = 1 then 0 else i / (x.h * x.w) % x.c

/-- The kernel, element by element; there is no value where the slope is read outside of it. -/
def prelu (s t : Shape) (slopes xs : List R) : List (Option R) :=
  xs.mapIdx fun i x => slopes[(slopeAt s t i).toNat]?.map fun sl =>
    if N.positive x then x else N.mul sl x

/-- Every element is rectified with the slope at its broadcast position, which is in the slope. -/
def Exact (s t : Shape) : Prop :=
  ∀ slopes xs : List R, slopes.length = (size t).toNat → xs.length = (size s).toNat →
    ∀ (i : Nat) x, xs[i]? = some x → ∃ sl, slopes[(offset s t i).toNat]? = some sl ∧
      (prelu N s t slopes xs)[i]? = some (some (if N.positive x then x else N.mul sl x))

/-- The axis of the channels in the four-dimensional view. -/
def channelAxis (rank : Nat) : Nat := if 4 ≤ rank then rank - 3 else if rank = 1 then 0 else 1

/-- The slope has no other axis than that of the channels. -/
def ByChannel (s t : Shape) : Prop :=
  ∀ a, a ≠ channelAxis s.length → (padded s.length t).getD a 1 = 1

variable {s t : Shape}

theorem ofShape_split (some_ : s ≠ []) : ∃ lead C tail, s = lead ++ C :: tail ∧
    lead.length = channelAxis s.length ∧ (ofShape s).c = C ∧
    (ofShape s).h * (ofShape s).w = size tail := by
  obtain ⟨r, rfl⟩ : ∃ r, s = r.reverse := ⟨s.reverse, (reverse_reverse s).symm⟩
  rw [ofShape, reverse_reverse, length_reverse]
  rcases r with - | ⟨w, - | ⟨h, - | ⟨c, - | ⟨n, lead⟩⟩⟩⟩
  · exact absurd rfl some_
  · exact ⟨[], w, [], rfl, rfl, rfl, rfl⟩
  · exact ⟨[h], w, [], rfl, rfl, rfl, rfl⟩
  · exact ⟨[c], h, [w], rfl, rfl, rfl, rfl⟩
  · refine ⟨(n :: lead).reverse, c, [h, w], by simp, ?_, rfl, by simp [RowMajor.size]⟩
    simp [channelAxis]

@[simp] theorem size_padded (rank : Nat) (t : Shape) : size (padded rank t) = size t := by
  rw [padded, size_append, size_units, Int.one_mul]

/-- A list that is one everywhere but at one place. -/
theorem eq_axis {P : List Int} {k m : Nat} (length : P.length = k + 1 + m)
    (others : ∀ a, a ≠ k → P.getD a 1 = 1) :
    P = replicate k 1 ++ P.getD k 1 :: replicate m 1 := by
  refine List.ext_getElem (by simp [length]; omega) fun a small _ => ?_
  have value : P.getD a 1 = P[a] := by
    rw [getD_eq_getElem?_getD, getElem?_eq_getElem small, getD_some]
  have here := others a
  rw [value] at here
  rcases lt_trichotomy a k with before | rfl | after
  · rw [here before.ne, getElem_append_left (by simpa using before), getElem_replicate]
  · rw [getElem_append_right (by simp)]
    simp [small]
  · rw [here after.ne', getElem_append_right (by simpa using after.le)]
    simp [getElem_cons, sub_ne_zero_of_lt after]

/-- **A slope by channel** is read at its broadcast position, inside of it. -/
theorem slopeAt_of_byChannel (low : ∀ d ∈ s, 0 ≤ d) (fits : Fits t s) (by_ : ByChannel s t) {i : Int}
    (least : 0 ≤ i) (high : i < size s) :
    slopeAt s t i = offset s t i ∧ 0 ≤ offset s t i ∧ offset s t i < size t := by
  by_cases empty : s = []
  · subst empty
    obtain rfl : t = [] := length_eq_zero_iff.mp (le_zero.mp fits.rank)
    obtain rfl : i = 0 := by
      change i < 1 at high
      omega
    decide
  obtain ⟨lead, C, tail, rfl, axis, channels, plane⟩ := ofShape_split empty
  have positive := positive_of_size_pos low (lt_of_le_of_lt least high)
  have wide := positive C (mem_append_right _ mem_cons_self)
  obtain ⟨e, pad⟩ : ∃ e, padded (lead ++ C :: tail).length t =
      replicate lead.length 1 ++ e :: replicate tail.length 1 := by
    refine ⟨_, eq_axis ?_ fun a other => by_ a (axis ▸ other)⟩
    rw [length_padded fits.rank, length_append, length_cons]
    omega
  have either : e = 1 ∨ e = C := by
    have axes := fits.axes
    rw [pad] at axes
    have rest := forall₂_drop lead.length axes
    rw [drop_left' length_replicate, drop_left] at rest
    exact (forall₂_cons.mp rest).1
  have count : size t = e := by
    rw [← size_padded (lead ++ C :: tail).length, pad, size_append, RowMajor.size, size_units, size_units]
    ring
  have read := offset_axis fits.rank pad positive least high
  rw [read, slopeAt, channels, plane, count]
  have coordinate := emod_nonneg (i / size tail) wide.ne'
  have small := emod_lt_of_pos (i / size tail) wide
  refine ⟨rfl, ?_⟩
  split_ifs <;> omega

theorem positive_of_forall₂ {l l' : List Int} (axes : Forall₂ (fun a d => a = 1 ∨ a = d) l l')
    (positive : ∀ d ∈ l', 0 < d) : ∀ d ∈ l, 0 < d := by
  induction axes with
  | nil => exact positive
  | cons here _ ih =>
    rw [forall_mem_cons] at positive ⊢
    exact ⟨by omega, ih positive.2⟩

/-- **A slope that is not by channel** is read elsewhere for some element. -/
theorem exists_misread (low : ∀ d ∈ s, 0 ≤ d) (fits : Fits t s) (some_ : 0 < size s)
    (other : ¬ ByChannel s t) :
    ∃ i, 0 ≤ i ∧ i < size s ∧ slopeAt s t i = 0 ∧ 0 < offset s t i := by
  obtain ⟨a, apart, wide⟩ : ∃ a, a ≠ channelAxis s.length ∧ (padded s.length t).getD a 1 ≠ 1 := by
    simpa [ByChannel] using other
  have positive := positive_of_size_pos low some_
  have length := length_padded fits.rank
  have inside : a < s.length := by
    by_contra past
    rw [getD_eq_getElem?_getD, getElem?_eq_none (by omega)] at wide
    exact wide rfl
  obtain ⟨pre, d, post, rfl, here⟩ : ∃ pre d post, s = pre ++ d :: post ∧ pre.length = a :=
    ⟨s.take a, s[a], s.drop (a + 1), by rw [← drop_eq_getElem_cons inside, take_append_drop],
      length_take_of_le inside.le⟩
  obtain ⟨before, e, after, pad, place⟩ :
      ∃ before e after, padded (pre ++ d :: post).length t = before ++ e :: after ∧
        before.length = a := by
    have small := inside
    rw [← length] at small
    exact ⟨_, _, _, (take_append_drop a _).symm.trans (by rw [drop_eq_getElem_cons small]),
      length_take_of_le small.le⟩
  have axes := fits.axes
  rw [pad] at axes wide
  have one : e ≠ 1 := by simpa [← place] using wide
  obtain ⟨either, rest⟩ : (e = 1 ∨ e = d) ∧ Forall₂ (fun a d => a = 1 ∨ a = d) after post := by
    have later := forall₂_drop a axes
    rwa [drop_left' place, drop_left' here, forall₂_cons] at later
  obtain rfl : e = d := either.resolve_left one
  have two : 1 < e := by
    have := positive e (mem_append_right _ mem_cons_self)
    omega
  have ones := fun l (sub : ∀ d ∈ l, d ∈ pre ++ e :: post) =>
    inside_zeros fun d mem => positive d (sub d mem)
  let cs : List Int := replicate pre.length 0 ++ 1 :: replicate post.length 0
  have corner : Inside cs (pre ++ e :: post) :=
    rel_append (ones pre fun d mem => mem_append_left _ mem)
      (.cons ⟨Int.one_nonneg, two⟩ (ones post fun d mem =>
        mem_append_right _ (mem_cons_of_mem _ mem)))
  obtain ⟨least, high⟩ := flat_inside corner
  refine ⟨_, least, high, ?_, ?_⟩
  · obtain ⟨lead, C, tail, whole, axis, channels, plane⟩ := ofShape_split (s := pre ++ e :: post)
      (by simp)
    unfold slopeAt
    dsimp only
    rw [channels, plane]
    have zero := coordinate (whole ▸ corner)
    rw [← whole, axis] at zero
    have away : cs.getD (channelAxis (pre ++ e :: post).length) 0 = 0 := by
      generalize channelAxis (pre ++ e :: post).length = ch at apart
      subst here
      rcases lt_or_gt_of_ne apart with later | earlier
      · obtain ⟨m, rfl⟩ := Nat.exists_eq_add_of_lt later
        simp [cs, getElem?_append_right, Nat.add_assoc, getElem?_replicate]
        split <;> rfl
      · simp [cs, getElem?_append_left, earlier]
    rw [zero, away, ite_self]
  · rw [offset_flat corner fits.rank, pad, dot_unit, here, ← place, zeroed_axis, if_neg one]
    exact size_pos (positive_of_forall₂ rest fun d mem =>
      positive d (mem_append_right _ (mem_cons_of_mem _ mem)))

end Vknn.Cpu.PRelu
