import Mathlib.Data.List.GetD
import Mathlib.Data.List.Induction
import Mathlib.Data.List.Sort

/-!
# Filler put between the elements of a list

An insertion moves what lies behind it one place on.  After any number of them a list is
known by where its old elements stand: two lists of one length, filled up from the same
elements, are equal exactly when every element that is not itself filler stands at the same
place in both.  Where a set of places is kept for the filler, the old elements take the
other places in order.
-/

namespace Vknn.Insertions

open List Nat

variable {α : Type} {u : α} {X out out' : List α} {pos pos' : Nat → Nat}

/-- The elements of `X` stand in `out` in their order, the `x`-th at `pos x`; everything else in
`out` is filler. -/
structure Spread (u : α) (X out : List α) (pos : Nat → Nat) : Prop where
  bound : ∀ x < X.length, pos x < out.length
  ordered : ∀ x y, x < y → pos x < pos y
  held : ∀ x < X.length, out[pos x]? = X[x]?
  filler : ∀ i < out.length, (∀ x < X.length, pos x ≠ i) → out[i]? = some u

theorem Spread.refl (u : α) (X : List α) : Spread u X X id where
  bound _ inside := inside
  ordered _ _ less := less
  held _ _ := rfl
  filler i inside free := absurd rfl (free i inside)

/-- Where a place comes to stand when something is inserted at `p`. -/
def pushed (p y : Nat) : Nat := if p ≤ y then y + 1 else y

/-- **Filler inserted anywhere leaves a spread list.** -/
theorem Spread.insert (spread : Spread u X out pos) {p : Nat} (inside : p ≤ out.length) :
    Spread u X (out.insertIdx p u) (fun x => pushed p (pos x)) := by
  have size : (out.insertIdx p u).length = out.length + 1 := by rw [length_insertIdx, if_pos inside]
  refine ⟨fun x low => ?_, fun x y less => ?_, fun x low => ?_, fun i low free => ?_⟩
  · have := spread.bound x low
    rw [size, pushed]
    split <;> omega
  · have := spread.ordered x y less
    simp only [pushed]
    split <;> split <;> omega
  · rw [← spread.held x low, getElem?_insertIdx, pushed]
    by_cases behind : p ≤ pos x
    · rw [if_pos behind, if_neg (by omega), if_neg (by omega), Nat.add_sub_cancel]
    · rw [if_neg behind, if_pos (by omega)]
  · rw [size] at low
    rw [getElem?_insertIdx]
    -- the places before `p` keep their element, those behind it have that of the place before
    rcases lt_trichotomy i p with before | rfl | behind
    · rw [if_pos before]
      refine spread.filler i (by omega) fun x inX here => free x inX ?_
      rw [here, pushed, if_neg (by omega)]
    · rw [if_neg (lt_irrefl _), if_pos rfl, if_pos inside]
    · rw [if_neg (by omega), if_neg (by omega)]
      refine spread.filler (i - 1) (by omega) fun x inX here => free x inX ?_
      rw [here, pushed, if_pos (by omega)]
      omega

theorem Spread.injective (spread : Spread u X out pos) {x y : Nat} (same : pos x = pos y) :
    x = y := by
  rcases Nat.lt_trichotomy x y with less | equal | more
  · exact absurd same (Nat.ne_of_lt (spread.ordered x y less))
  · exact equal
  · exact absurd same.symm (Nat.ne_of_lt (spread.ordered y x more))

theorem Spread.element (spread : Spread u X out pos) {i : Nat} (inside : i < out.length)
    (other : out[i]? ≠ some u) : ∃ x < X.length, pos x = i ∧ X[x]? = out[i]? := by
  by_contra absent
  refine other (spread.filler i inside fun x low here => absent ⟨x, low, here, ?_⟩)
  rw [← here, spread.held x low]

/-- In equal lists no element stands further on in the second, if those before it stand at the
same places in both. -/
theorem Spread.not_ahead (left : Spread u X out pos) (right : Spread u X out pos') {x : Nat}
    (low : x < X.length) (other : X[x]? ≠ some u)
    (before : ∀ z < x, X[z]? ≠ some u → pos z = pos' z) : ¬ pos x < pos' x := by
  intro ahead
  obtain ⟨z, lowZ, stands, holds⟩ := right.element (left.bound x low) (by rwa [left.held x low])
  have earlier : z < x := by
    by_contra late
    rcases eq_or_lt_of_le (not_lt.mp late) with rfl | later
    · omega
    · have := right.ordered x z later
      omega
  have same := before z earlier (by rwa [holds, left.held x low])
  exact absurd (left.injective (same.trans stands)) (Nat.ne_of_lt earlier)

/-- **Two lists filled up from the same elements are equal exactly when each element other than
the filler stands at one place in both.** -/
theorem Spread.eq_iff (left : Spread u X out pos) (right : Spread u X out' pos')
    (size : out.length = out'.length) :
    out = out' ↔ ∀ x < X.length, X[x]? ≠ some u → pos x = pos' x := by
  constructor
  · rintro rfl x
    induction x using Nat.strongRecOn with
    | ind x earlier =>
      intro low other
      have before : ∀ z < x, X[z]? ≠ some u → pos z = pos' z := fun z less =>
        earlier z less (lt_trans less low)
      have first := left.not_ahead right low other before
      have second := right.not_ahead left low other fun z less distinct =>
        (before z less distinct).symm
      omega
  · intro agree
    have carried : ∀ {a b : List α} {p q : Nat → Nat}, Spread u X a p → Spread u X b q →
        (∀ x < X.length, X[x]? ≠ some u → p x = q x) → ∀ i < a.length, a[i]? ≠ some u →
        b[i]? = a[i]? := by
      intro a b p q spreadA spreadB same i inside other
      obtain ⟨x, low, rfl, holds⟩ := spreadA.element inside other
      rw [same x low (by rwa [holds]), spreadB.held x low, holds, ← same x low (by rwa [holds])]
    refine ext_getElem? fun i => ?_
    by_cases inside : i < out.length
    · by_cases other : out[i]? = some u
      · by_cases other' : out'[i]? = some u
        · rw [other, other']
        · exact carried right left (fun x low distinct => (agree x low distinct).symm) i
            (size ▸ inside) other'
      · exact (carried left right agree i inside other).symm
    · rw [getElem?_eq_none (not_lt.mp inside), getElem?_eq_none (size ▸ not_lt.mp inside)]

/-! ## Places kept for the filler -/

variable {ps qs : List Nat} {x y z p : Nat}

def before (ps : List Nat) (y : Nat) : Nat := ps.countP (· < y)

theorem before_succ (once : ps.Nodup) (y : Nat) :
    before ps (y + 1) = before ps y + if y ∈ ps then 1 else 0 := by
  induction ps with
  | nil => rfl
  | cons p ps ih =>
    obtain ⟨fresh, once⟩ := nodup_cons.mp once
    have step := ih once
    simp only [before, countP_cons, decide_eq_true_eq, mem_cons] at step ⊢
    rw [step]
    rcases lt_trichotomy p y with less | rfl | more
    · rw [if_pos (show p < y + 1 by omega), if_pos less]
      simp only [ne_of_gt less, false_or]
      omega
    · rw [if_neg fresh, if_pos (Nat.lt_succ_self p), if_neg (Nat.lt_irrefl p)]
      simp only [true_or, if_true, Nat.add_zero]
    · rw [if_neg (show ¬ p < y + 1 by omega), if_neg (show ¬ p < y by omega)]
      simp only [Nat.ne_of_lt more, false_or, Nat.add_zero]

theorem before_le (once : ps.Nodup) (le : y ≤ z) : y + before ps z ≤ z + before ps y := by
  induction z, le using le_induction with
  | base => omega
  | succ z le ih =>
    rw [before_succ once]
    split <;> omega

theorem before_lt (once : ps.Nodup) (free : y ∉ ps) (less : y < z) :
    y + before ps z < z + before ps y := by
  have next := before_le once (succ_le_of_lt less)
  rw [succ_eq_add_one, before_succ once, if_neg free] at next
  omega

/-- The place `y` is free, and `x` free places lie before it. -/
structure Skips (ps : List Nat) (x y : Nat) : Prop where
  free : y ∉ ps
  place : y = x + before ps y

/-- No two free places have the same number of free places before them. -/
theorem Skips.unique (once : ps.Nodup) (left : Skips ps x y) (right : Skips ps x z) : y = z := by
  have placeY := left.place
  have placeZ := right.place
  rcases lt_trichotomy y z with less | equal | more
  · have := before_lt once left.free less
    omega
  · exact equal
  · have := before_lt once right.free more
    omega

theorem Skips.ordered (once : ps.Nodup) (left : Skips ps x y) {x' : Nat} (right : Skips ps x' z)
    (less : x < x') : y < z := by
  have placeY := left.place
  have placeZ := right.place
  by_contra back
  rcases eq_or_lt_of_le (not_lt.mp back) with rfl | later
  · omega
  · have := before_lt once right.free later
    omega

/-- Keeping one more place, behind the others, pushes what stands there or later. -/
theorem Skips.push (skips : Skips ps x y) (last : ∀ q ∈ ps, q < p) :
    Skips (ps ++ [p]) x (pushed p y) := by
  have place := skips.place
  have counted : before (ps ++ [p]) (pushed p y) = before ps (pushed p y) +
      if p < pushed p y then 1 else 0 := by
    simp only [before, countP_append, countP_cons, countP_nil, decide_eq_true_eq, Nat.zero_add]
  by_cases behind : p ≤ y
  · have all : before ps (y + 1) = before ps y := by
      refine countP_congr fun q mem => ?_
      have := last q mem
      simp only [decide_eq_true_eq]
      omega
    have moved : pushed p y = y + 1 := if_pos behind
    rw [moved, if_pos (by omega), all] at counted
    rw [moved]
    refine ⟨?_, by omega⟩
    rw [mem_append, mem_singleton]
    rintro (mem | rfl)
    · have := last _ mem
      omega
    · omega
  · have kept : pushed p y = y := if_neg behind
    rw [kept, if_neg (by omega), Nat.add_zero] at counted
    rw [kept]
    refine ⟨?_, by rw [counted]; exact place⟩
    rw [mem_append, mem_singleton]
    rintro (mem | rfl)
    · exact skips.free mem
    · omega

theorem before_perm (perm : ps.Perm qs) (y : Nat) : before ps y = before qs y := perm.countP_eq _

theorem before_length (all : ∀ p ∈ ps, p < y) : before ps y = ps.length :=
  countP_eq_length.mpr fun p mem => decide_eq_true (all p mem)

theorem Skips.perm (skips : Skips ps x y) (perm : ps.Perm qs) : Skips qs x y :=
  ⟨fun mem => skips.free (perm.mem_iff.mpr mem), before_perm perm y ▸ skips.place⟩

/-- A kept place lies before a free one exactly when no more free places lie before it. -/
theorem Skips.kept_lt_iff (once : ps.Nodup) (skips : Skips ps x y) (kept : p ∈ ps) :
    p < y ↔ p ≤ x + before ps p := by
  have place := skips.place
  constructor
  · intro less
    have next := before_le once (succ_le_of_lt less)
    rw [succ_eq_add_one, before_succ once, if_pos kept] at next
    omega
  · intro few
    by_contra late
    have differ : y ≠ p := fun same => skips.free (same ▸ kept)
    have := before_lt once skips.free (show y < p by omega)
    omega

/-- The kept places are those before one of them, that one, and those behind it. -/
theorem before_add_behind (once : ps.Nodup) (kept : p ∈ ps) :
    before ps p + 1 + ps.countP (p < ·) = ps.length := by
  have upTo := before_succ once p
  rw [if_pos kept] at upTo
  rw [← upTo, length_eq_countP_add_countP (fun q => decide (q < p + 1)), before]
  refine congrArg _ (countP_congr fun q _ => ?_)
  simp only [decide_eq_true_eq]
  omega

/-- Of two conditions, one implied by the other, as many satisfy both when they agree. -/
theorem countP_eq_iff {β : Type} {l : List β} {f g : β → Bool} (imp : ∀ b ∈ l, g b → f b) :
    l.countP f = l.countP g ↔ ∀ b ∈ l, f b → g b := by
  constructor
  · induction l with
    | nil => exact fun _ _ mem => absurd mem not_mem_nil
    | cons b l ih =>
      obtain ⟨here, rest⟩ := forall_mem_cons.mp imp
      have fewer : l.countP g ≤ l.countP f := countP_mono_left rest
      intro same
      rw [countP_cons, countP_cons] at same
      by_cases holds : f b = true
      · have both : g b = true := by
          by_contra fails
          rw [if_pos holds, if_neg fails] at same
          omega
        rw [if_pos holds, if_pos both] at same
        exact forall_mem_cons.mpr ⟨fun _ => both, ih rest (by omega)⟩
      · have neither : ¬ g b = true := fun other => holds (here other)
        rw [if_neg holds, if_neg neither] at same
        exact forall_mem_cons.mpr ⟨fun yes => absurd yes holds, ih rest (by omega)⟩
  · exact fun agree => countP_congr fun b mem => ⟨agree b mem, imp b mem⟩

/-- However many places are kept, there is a free place of every rank. -/
theorem exists_skips (once : ps.Nodup) (x : Nat) : ∃ y, Skips ps x y := by
  have sorted : (ps.mergeSort (fun a b => decide (a ≤ b))).Pairwise (· < ·) := by
    have ascending := pairwise_mergeSort' (r := (· ≤ ·)) ps
    have distinct : (ps.mergeSort (fun a b => decide (a ≤ b))).Nodup :=
      (mergeSort_perm ps _).nodup_iff.mpr once
    exact ascending.imp₂ (fun _ _ le ne => lt_of_le_of_ne le ne) distinct
  have found : ∀ qs : List Nat, qs.Pairwise (· < ·) → ∃ y, Skips qs x y := by
    intro qs
    induction qs using List.reverseRecOn with
    | nil => exact fun _ => ⟨x, not_mem_nil, rfl⟩
    | append_singleton qs p ih =>
      intro sorted
      obtain ⟨front, -, last⟩ := pairwise_append.mp sorted
      obtain ⟨y, skips⟩ := ih front
      exact ⟨_, skips.push fun q mem => last q mem p (mem_singleton_self p)⟩
  obtain ⟨y, skips⟩ := found _ sorted
  exact ⟨y, skips.perm (mergeSort_perm ps _)⟩

/-- A list of `n` places with filler at the kept ones and the elements of `X`, in order, at the
others. -/
def filled (u : α) (ps : List Nat) (X : List α) (n : Nat) : List α :=
  (List.range n).map fun i => if i ∈ ps then u else X.getD (i - before ps i) u

@[simp] theorem length_filled {n : Nat} : (filled u ps X n).length = n := by
  rw [filled, length_map, length_range]

/-- **Filler at kept places is a spread of the elements over the free ones.** -/
theorem spread_filled (once : ps.Nodup) (inside : ∀ p ∈ ps, p < X.length + ps.length)
    (skips : ∀ x, Skips ps x (pos x)) : Spread u X (filled u ps X (X.length + ps.length)) pos := by
  have read : ∀ i < X.length + ps.length, (filled u ps X (X.length + ps.length))[i]? =
      some (if i ∈ ps then u else X.getD (i - before ps i) u) := fun i low => by
    rw [filled, getElem?_map, getElem?_range low, Option.map_some]
  have bound : ∀ x < X.length, pos x < X.length + ps.length := fun x low => by
    have place := (skips x).place
    have most : before ps (pos x) ≤ ps.length := countP_le_length
    omega
  refine ⟨fun x low => by rw [length_filled]; exact bound x low,
    fun x y less => (skips x).ordered once (skips y) less, fun x low => ?_, fun i low free => ?_⟩
  · have back : pos x - before ps (pos x) = x := by
      have place := (skips x).place
      omega
    rw [read _ (bound x low), if_neg (skips x).free, back, getElem?_eq_getElem low,
      getD_eq_getElem _ _ low]
  · rw [length_filled] at low
    rw [read i low]
    by_cases kept : i ∈ ps
    · rw [if_pos kept]
    · -- a free place would be that of one of the elements
      have fits := before_le once (zero_le i)
      have none_ : before ps 0 = 0 := countP_eq_zero.mpr fun p _ => by simp
      have rank : Skips ps (i - before ps i) i := ⟨kept, by omega⟩
      have later := before_lt once kept low
      rw [before_length inside] at later
      exact absurd ((skips _).unique once rank) (free _ (by omega))

end Vknn.Insertions
