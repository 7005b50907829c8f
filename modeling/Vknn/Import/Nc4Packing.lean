import Mathlib.Algebra.Order.BigOperators.Group.List
import Mathlib.Tactic.Ring
import Vknn.Ir.Shape

/-!
# When two shapes are stored alike

The packed layout stores blocks of four channels.  Where an element goes depends on the batch,
the channels and the size of a plane, and on less than that: with one channel every element has a
block of its own, and whole blocks of channels continue from one batch into the next.  The key of
a shape forgets what does not matter, and shapes with one key are stored alike, element for
element and with the same footprint.

The products of dimensions are 64-bit in the source; a shape with as many elements as that is not
considered.
-/

namespace Vknn

open List Int NCHW

/-! ## The key -/

/-- What the packed storage of a shape depends on. -/
structure Nc4PackingKey where
  batch : Int := 0
  channels : Int := 0
  plane : Int := 0
deriving DecidableEq

def nc4PackingKey (shape : Shape) : Nc4PackingKey :=
  let view := ofShape shape
  let plane := wrap64 (view.h * view.w)
  if view.elems = 0 then {}
  else if view.c = 1 then { batch := 1, channels := 1, plane := wrap64 (view.n * plane) }
  else if view.n = 1 ∨ view.c.tmod kNC4Block = 0 then
    { batch := 1, channels := wrap64 (view.n * view.c), plane }
  else { batch := view.n, channels := view.c, plane }

/-- Whether a buffer that holds one shape already holds the other. -/
def nc4PackingIdentical (a b : Shape) : Bool :=
  if a = b then true
  else if a.any (fun d => d < 0) || b.any (fun d => d < 0) then false
  else nc4PackingKey a = nc4PackingKey b

/-! ## The storage -/

/-- Where the packed layout puts an element of a row-major order. -/
def nc4Position (channels plane i : Nat) : Nat :=
  let q := i / plane
  ((q / channels * ((channels + 3) / 4) + q % channels / 4) * plane + i % plane) * 4 +
    q % channels % 4

def nc4Footprint (batch channels plane : Nat) : Nat := batch * ((channels + 3) / 4) * plane * 4

/-- The same elements at the same places of a buffer of the same size. -/
def SameStorage (n c p n' c' p' : Nat) : Prop :=
  n * c * p = n' * c' * p' ∧ nc4Footprint n c p = nc4Footprint n' c' p' ∧
    ∀ i < n * c * p, nc4Position c p i = nc4Position c' p' i

def SameNc4Storage (a b : Shape) : Prop :=
  let v := ofShape a
  let w := ofShape b
  SameStorage v.n.toNat v.c.toNat (v.h * v.w).toNat w.n.toNat w.c.toNat (w.h * w.w).toNat

theorem SameStorage.refl (n c p : Nat) : SameStorage n c p n c p := ⟨rfl, rfl, fun _ _ => rfl⟩

theorem SameStorage.symm {n c p n' c' p' : Nat} (same : SameStorage n c p n' c' p') :
    SameStorage n' c' p' n c p :=
  ⟨same.1.symm, same.2.1.symm, fun i inside => (same.2.2 i (same.1 ▸ inside)).symm⟩

theorem SameStorage.trans {n c p n' c' p' n'' c'' p'' : Nat} (one : SameStorage n c p n' c' p')
    (two : SameStorage n' c' p' n'' c'' p'') : SameStorage n c p n'' c'' p'' :=
  ⟨one.1.trans two.1, one.2.1.trans two.2.1,
    fun i inside => (one.2.2 i inside).trans (two.2.2 i (one.1 ▸ inside))⟩

theorem sameStorage_channel (n p : Nat) : SameStorage n 1 p 1 1 (n * p) := by
  have position (m i : Nat) : nc4Position 1 m i = i * 4 := by
    unfold nc4Position
    dsimp only
    rw [Nat.div_one, Nat.mod_one, Nat.zero_div, Nat.zero_mod, Nat.add_zero, Nat.add_zero]
    change (i / m * 1 * m + i % m) * 4 = i * 4
    rw [Nat.mul_one, Nat.div_add_mod']
  refine ⟨by ring, ?_, fun i _ => by rw [position, position]⟩
  unfold nc4Footprint
  ring

/-- Whole blocks of channels continue from one batch into the next, and so does a single batch. -/
theorem sameStorage_blocks {n c p : Nat} (whole : n = 1 ∨ c % 4 = 0) :
    SameStorage n c p 1 (n * c) p := by
  have blocks : n * ((c + 3) / 4) = (n * c + 3) / 4 := by
    rcases whole with rfl | whole
    · rw [Nat.one_mul, Nat.one_mul]
    · obtain ⟨m, rfl⟩ := Nat.dvd_of_mod_eq_zero whole
      have left : (4 * m + 3) / 4 = m := by omega
      have right : (n * (4 * m) + 3) / 4 = n * m := by
        rw [show n * (4 * m) = 4 * (n * m) by ring]
        omega
      rw [left, right]
  refine ⟨by ring, ?_, fun i inside => ?_⟩
  · unfold nc4Footprint
    rw [blocks, Nat.one_mul]
  · have q_lt : i / p < n * c := Nat.div_lt_of_lt_mul (by rwa [Nat.mul_comm] at inside)
    unfold nc4Position
    dsimp only
    generalize i / p = q at q_lt ⊢
    rw [Nat.div_eq_of_lt q_lt, Nat.mod_eq_of_lt q_lt, Nat.zero_mul, Nat.zero_add]
    rcases whole with rfl | whole
    · rw [Nat.one_mul] at q_lt
      rw [Nat.div_eq_of_lt q_lt, Nat.mod_eq_of_lt q_lt, Nat.zero_mul, Nat.zero_add]
    · obtain ⟨m, rfl⟩ := Nat.dvd_of_mod_eq_zero whole
      have block : q / (4 * m) * ((4 * m + 3) / 4) + q % (4 * m) / 4 = q / 4 := by
        have size : (4 * m + 3) / 4 = m := by omega
        have split := Nat.div_add_mod q (4 * m)
        have regroup : 4 * m * (q / (4 * m)) = 4 * (m * (q / (4 * m))) := by ring
        rw [size, Nat.mul_comm (q / (4 * m)) m]
        generalize m * (q / (4 * m)) = x at regroup ⊢
        generalize q % (4 * m) = y at split ⊢
        omega
      have lane : q % (4 * m) % 4 = q % 4 := Nat.mod_mod_of_dvd q (Dvd.intro m rfl)
      rw [block, lane]

theorem sameStorage_empty {n c p n' c' p' : Nat} (none : n * c * p = 0) (none' : n' * c' * p' = 0) :
    SameStorage n c p n' c' p' := by
  have footprint {n c p : Nat} (none : n * c * p = 0) : nc4Footprint n c p = 0 := by
    unfold nc4Footprint
    rcases Nat.mul_eq_zero.mp none with zero | zero
    · rcases Nat.mul_eq_zero.mp zero with zero | zero <;> simp [zero]
    · simp [zero]
  refine ⟨none.trans none'.symm, (footprint none).trans (footprint none').symm, fun i inside => ?_⟩
  rw [none] at inside
  exact absurd inside (Nat.not_lt_zero i)

/-! ## Shapes with one key -/

/-- A shape with as many elements as the source can count. -/
def Representable (s : Shape) : Prop := (∀ d ∈ s, 0 ≤ d ∧ d < 2 ^ 63) ∧ s.prod < 2 ^ 63

/-- The numbers of a view that counts its elements without overflow. -/
structure Counted (v : NCHW) : Prop where
  n : 0 < v.n
  c : 0 < v.c
  h : 0 < v.h
  w : 0 < v.w
  fits : v.n * v.c * v.h * v.w < 2 ^ 63

def Empty (v : NCHW) : Prop := v.n * v.c * v.h * v.w = 0

theorem prod_nonneg_of {s : List Int} (low : ∀ d ∈ s, 0 ≤ d) : 0 ≤ s.prod := by
  induction s with
  | nil => exact Int.one_nonneg
  | cons d rest ih =>
    rw [prod_cons]
    exact mul_nonneg (low d mem_cons_self) (ih fun e mem => low e (mem_cons_of_mem _ mem))

theorem counted_or_empty_of {v : NCHW} {b : Int} (batch : v.n = wrap64 b) (b_low : 0 ≤ b)
    (c : 0 ≤ v.c) (h : 0 ≤ v.h) (w : 0 ≤ v.w) (fits : b * v.c * v.h * v.w < 2 ^ 63) :
    Counted v ∨ Empty v := by
  unfold Empty
  by_cases empty : b * v.c * v.h * v.w = 0
  · refine .inr ?_
    rw [mul_assoc, mul_assoc] at empty ⊢
    rcases mul_eq_zero.mp empty with zero | zero
    · rw [batch, zero]
      exact zero_mul _
    · rw [zero, mul_zero]
  · have nonzero : b * v.c * v.h * v.w ≠ 0 := empty
    rw [mul_ne_zero_iff, mul_ne_zero_iff, mul_ne_zero_iff] at nonzero
    obtain ⟨⟨⟨b_ne, c_ne⟩, h_ne⟩, w_ne⟩ := nonzero
    have b_pos := lt_of_le_of_ne b_low b_ne.symm
    have c_pos := lt_of_le_of_ne c c_ne.symm
    have h_pos := lt_of_le_of_ne h h_ne.symm
    have w_pos := lt_of_le_of_ne w w_ne.symm
    have rest : 1 ≤ v.c * v.h * v.w := add_one_le_of_lt (mul_pos (mul_pos c_pos h_pos) w_pos)
    have small : b < 2 ^ 63 := by
      refine lt_of_le_of_lt ?_ fits
      rw [mul_assoc, mul_assoc, ← mul_assoc v.c]
      exact le_mul_of_one_le_right b_low rest
    have same : v.n = b := batch.trans (wrap64_of_fits (by omega) small)
    exact .inl ⟨same ▸ b_pos, c_pos, h_pos, w_pos, same ▸ fits⟩

variable {a b s : Shape}

/-- The view of a representable shape counts its elements, or has none. -/
theorem counted_or_empty (representable : Representable s) :
    Counted (ofShape s) ∨ Empty (ofShape s) := by
  obtain ⟨low, fits⟩ := representable
  rw [← prod_reverse] at fits
  have members : ∀ d ∈ s.reverse, 0 ≤ d ∧ d < 2 ^ 63 := fun d mem => low d (mem_reverse.mp mem)
  have small {d : Int} (bounds : 0 ≤ d ∧ d < 2 ^ 63) : d = wrap64 d :=
    (wrap64_of_fits (by omega) bounds.2).symm
  unfold ofShape
  generalize s.reverse = r at fits members
  split
  · rename_i w h c n lead
    have leading : (n :: lead).foldl (fun p d => p * d) 1 = (n :: lead).prod := prod_eq_foldl.symm
    rw [leading]
    refine counted_or_empty_of rfl (prod_nonneg_of fun d mem => (members d ?_).1)
      (members c ?_).1 (members h ?_).1 (members w ?_).1 ?_
    · exact mem_cons_of_mem _ (mem_cons_of_mem _ (mem_cons_of_mem _ mem))
    · exact mem_cons_of_mem _ (mem_cons_of_mem _ mem_cons_self)
    · exact mem_cons_of_mem _ mem_cons_self
    · exact mem_cons_self
    · refine lt_of_eq_of_lt ?_ fits
      simp only [prod_cons]
      ring
  · rename_i h c n
    refine counted_or_empty_of (small (members n (by simp))) (members n (by simp)).1
      (members c (by simp)).1 (members h (by simp)).1 Int.one_nonneg ?_
    refine lt_of_eq_of_lt ?_ fits
    rw [prod_cons, prod_cons, prod_singleton]
    ring
  · rename_i c n
    refine counted_or_empty_of (small (members n (by simp))) (members n (by simp)).1
      (members c (by simp)).1 Int.one_nonneg Int.one_nonneg ?_
    refine lt_of_eq_of_lt ?_ fits
    rw [prod_cons, prod_singleton]
    ring
  · rename_i c
    refine counted_or_empty_of (b := 1) (show (1 : Int) = wrap64 1 by decide) Int.one_nonneg (members c (by simp)).1
      Int.one_nonneg Int.one_nonneg ?_
    refine lt_of_eq_of_lt ?_ fits
    rw [prod_singleton]
    ring
  · exact .inl ⟨Int.one_pos, Int.one_pos, Int.one_pos, Int.one_pos, by decide⟩

def KeyStorage (v : NCHW) (key : Nc4PackingKey) : Prop :=
  SameStorage v.n.toNat v.c.toNat (v.h * v.w).toNat key.batch.toNat key.channels.toNat
    key.plane.toNat

/-- **The key of a shape**: none where there is no element, else one of three, and no product of
it wraps. -/
theorem key_cases (representable : Representable s) : let v := ofShape s
    (Empty v ∧ nc4PackingKey s = {}) ∨ (0 < v.n ∧ 0 < v.c ∧ 0 < v.h * v.w) ∧
      ((v.c = 1 ∧ nc4PackingKey s = ⟨1, 1, v.n * (v.h * v.w)⟩) ∨
        (v.c ≠ 1 ∧ (v.n = 1 ∨ v.c % 4 = 0) ∧ nc4PackingKey s = ⟨1, v.n * v.c, v.h * v.w⟩) ∨
        (v.c ≠ 1 ∧ ¬ (v.n = 1 ∨ v.c % 4 = 0) ∧ nc4PackingKey s = ⟨v.n, v.c, v.h * v.w⟩)) := by
  unfold nc4PackingKey
  dsimp only
  generalize view : ofShape s = v
  rcases view ▸ counted_or_empty representable with counted | empty
  · obtain ⟨n_pos, c_pos, h_pos, w_pos, fits⟩ := counted
    have p_pos : 0 < v.h * v.w := mul_pos h_pos w_pos
    have nc_pos : 0 < v.n * v.c := mul_pos n_pos c_pos
    have total : v.n * v.c * (v.h * v.w) = v.n * v.c * v.h * v.w := by ring
    have plane : wrap64 (v.h * v.w) = v.h * v.w :=
      wrap64_of_fits (by omega) (lt_of_le_of_lt
        (total ▸ le_mul_of_one_le_left p_pos.le (add_one_le_of_lt nc_pos)) fits)
    have elems : v.elems ≠ 0 := by
      unfold elems
      have pos : 0 < v.n * v.c * v.h * v.w := total ▸ mul_pos nc_pos p_pos
      rw [wrap64_of_fits (by omega) fits]
      exact pos.ne'
    refine .inr ⟨⟨n_pos, c_pos, p_pos⟩, ?_⟩
    rw [if_neg elems, plane, tmod_eq_emod_of_nonneg c_pos.le, kNC4Block]
    split
    · rename_i channel
      refine .inl ⟨channel, ?_⟩
      rw [wrap64_of_fits (by have := mul_pos n_pos p_pos; omega)]
      rwa [← total, channel, mul_one] at fits
    · rename_i channels
      refine .inr ?_
      split
      · rename_i whole
        refine .inl ⟨channels, whole, ?_⟩
        rw [wrap64_of_fits (by omega) (lt_of_le_of_lt
          (total ▸ le_mul_of_one_le_right nc_pos.le (add_one_le_of_lt p_pos)) fits)]
      · rename_i whole
        exact .inr ⟨channels, whole, rfl⟩
  · have elems : v.elems = 0 := by
      unfold elems
      rw [empty]
      rfl
    exact .inl ⟨empty, if_pos elems⟩

theorem keyStorage (representable : Representable s) :
    KeyStorage (ofShape s) (nc4PackingKey s) := by
  unfold KeyStorage
  rcases key_cases representable with ⟨empty, same⟩ | ⟨⟨n_pos, c_pos, p_pos⟩, ⟨channel, same⟩ |
    ⟨-, whole, same⟩ | ⟨-, -, same⟩⟩ <;> rw [same]
  · refine sameStorage_empty ?_ rfl
    unfold Empty at empty
    rw [mul_assoc, mul_eq_zero, mul_eq_zero] at empty
    rcases empty with (zero | zero) | zero <;> rw [zero] <;> simp
  · dsimp only
    rw [channel, toNat_mul n_pos.le p_pos.le]
    exact sameStorage_channel _ _
  · dsimp only
    rw [toNat_mul n_pos.le c_pos.le]
    refine sameStorage_blocks ?_
    rcases whole with single | blocks
    · exact .inl (by rw [single]; rfl)
    · exact .inr (by omega)
  · exact .refl _ _ _

/-- **Shapes that pass the test are stored alike.** -/
theorem sameNc4Storage (a_ok : Representable a) (b_ok : Representable b)
    (identical : nc4PackingIdentical a b = true) : SameNc4Storage a b := by
  unfold nc4PackingIdentical at identical
  split at identical
  · rename_i same
    rw [same]
    exact .refl _ _ _
  · split at identical
    · cases identical
    · have key : nc4PackingKey a = nc4PackingKey b := of_decide_eq_true identical
      have one := keyStorage a_ok
      rw [key] at one
      exact one.trans (keyStorage b_ok).symm

/-! ## Keys are canonical -/

/-- The numbers of a key: no two batches of one channel, nor of whole blocks. -/
structure Canonical (n c p : Nat) : Prop where
  batch : 0 < n
  some_ : 0 < c
  plane : 0 < p
  channel : c = 1 → n = 1
  blocks : c % 4 = 0 → n = 1

theorem nc4Position_first {c p i : Nat} (inside : i < p) : nc4Position c p i = i * 4 := by
  unfold nc4Position
  dsimp only
  rw [Nat.div_eq_of_lt inside, Nat.zero_div, Nat.zero_mod, Nat.mod_eq_of_lt inside]
  simp

theorem nc4Position_plane {c p q : Nat} (p_pos : 0 < p) : nc4Position c p (q * p) =
    (q / c * ((c + 3) / 4) + q % c / 4) * p * 4 + q % c % 4 := by
  unfold nc4Position
  dsimp only
  rw [Nat.mul_div_cancel q p_pos, Nat.mul_mod_left, Nat.add_zero]

theorem nc4Position_second {c p : Nat} (more : 2 ≤ c) (p_pos : 0 < p) : nc4Position c p p = 1 := by
  have plane := @nc4Position_plane c p 1 p_pos
  rw [Nat.one_mul, Nat.div_eq_of_lt more, Nat.mod_eq_of_lt more] at plane
  simpa using plane

section Unique

variable {n c p n' c' p' : Nat}

/-- Stored alike, planes are no longer on one side than on the other. -/
theorem plane_le (one : Canonical n c p) (two : Canonical n' c' p')
    (same : ∀ i < n * c * p, nc4Position c p i = nc4Position c' p' i)
    (count : n * c * p = n' * c' * p') : p' ≤ p := by
  rcases Nat.lt_or_ge c 2 with single | more
  · have c_one : c = 1 := le_antisymm (by omega) one.some_
    rw [one.channel c_one, c_one, Nat.one_mul] at count
    rw [count]
    exact Nat.le_mul_of_pos_left p' (Nat.mul_pos two.batch two.some_)
  · by_contra longer
    have p_pos := one.plane
    have inside : p < n * c * p := by
      calc p < 2 * p := by omega
        _ ≤ n * c * p := Nat.mul_le_mul_right p (le_trans more (Nat.le_mul_of_pos_left c one.batch))
    have at_p := same p inside
    rw [nc4Position_second more one.plane, nc4Position_first (by omega : p < p')] at at_p
    omega

/-- Stored alike, there are no fewer channels on one side than on the other. -/
theorem channels_le (one : Canonical n c p) (two : Canonical n' c' p)
    (same : ∀ i < n * c * p, nc4Position c p i = nc4Position c' p i)
    (count : n * c = n' * c') : c' ≤ c := by
  by_contra fewer
  -- The second batch of the one is a channel that does not begin a block of the other.
  have batches : 2 ≤ n := by
    by_contra single
    have n_one : n = 1 := le_antisymm (by omega) one.batch
    rw [n_one, Nat.one_mul] at count
    have := Nat.le_mul_of_pos_left c' two.batch
    omega
  have partial_ : c % 4 ≠ 0 := fun whole => by
    have := one.blocks whole
    omega
  have inside : c * p < n * c * p := by
    refine Nat.mul_lt_mul_of_pos_right ?_ one.plane
    calc c < 2 * c := by have := one.some_; omega
      _ ≤ n * c := Nat.mul_le_mul_right c batches
  have at_c := same (c * p) inside
  rw [nc4Position_plane one.plane, nc4Position_plane one.plane, Nat.mod_self, Nat.mod_eq_of_lt (by omega : c < c')]
    at at_c
  have lanes := congrArg (· % 4) at_c
  simp only [Nat.zero_mod, Nat.add_zero, Nat.mul_mod_left, Nat.mul_add_mod_self_right, Nat.mod_mod] at lanes
  omega

/-- **Keys that are stored alike are the same.** -/
theorem canonical_ext (one : Canonical n c p) (two : Canonical n' c' p')
    (same : SameStorage n c p n' c' p') : n = n' ∧ c = c' ∧ p = p' := by
  obtain ⟨count, -, positions⟩ := same
  have back : ∀ i < n' * c' * p', nc4Position c' p' i = nc4Position c p i :=
    fun i inside => (positions i (count ▸ inside)).symm
  obtain rfl : p = p' := le_antisymm (plane_le two one back count.symm) (plane_le one two positions count)
  have planes : n * c = n' * c' := Nat.eq_of_mul_eq_mul_right one.plane count
  obtain rfl : c = c' :=
    le_antisymm (channels_le two one back planes.symm) (channels_le one two positions planes)
  exact ⟨Nat.eq_of_mul_eq_mul_right one.some_ planes, rfl, rfl⟩

end Unique

/-- The key of a shape is that of no elements, or canonical. -/
def KeyForm (key : Nc4PackingKey) : Prop :=
  key = {} ∨ (0 ≤ key.batch ∧ 0 ≤ key.channels ∧ 0 ≤ key.plane ∧
    Canonical key.batch.toNat key.channels.toNat key.plane.toNat)

theorem keyForm (representable : Representable s) : KeyForm (nc4PackingKey s) := by
  rcases key_cases representable with ⟨-, same⟩ | ⟨⟨n_pos, c_pos, p_pos⟩, ⟨-, same⟩ |
    ⟨-, -, same⟩ | ⟨channels, whole, same⟩⟩ <;> rw [same]
  · exact .inl rfl
  · have pos := mul_pos n_pos p_pos
    dsimp only [KeyForm]
    exact .inr ⟨by omega, by omega, pos.le, by omega, by omega, by omega, fun _ => rfl, fun _ => rfl⟩
  · have pos := mul_pos n_pos c_pos
    dsimp only [KeyForm]
    exact .inr ⟨by omega, pos.le, p_pos.le, by omega, by omega, by omega, fun _ => rfl, fun _ => rfl⟩
  · refine .inr ⟨n_pos.le, c_pos.le, p_pos.le, ?_, ?_, ?_, ?_, ?_⟩ <;> dsimp only <;> omega

/-- Keys of shapes that are stored alike are the same. -/
theorem key_ext {k k' : Nc4PackingKey} (form : KeyForm k) (form' : KeyForm k')
    (same : SameStorage k.batch.toNat k.channels.toNat k.plane.toNat k'.batch.toNat k'.channels.toNat
      k'.plane.toNat) : k = k' := by
  have empty {n c p : Nat} (canonical : Canonical n c p) : n * c * p ≠ 0 :=
    (Nat.mul_pos (Nat.mul_pos canonical.batch canonical.some_) canonical.plane).ne'
  rcases form with rfl | ⟨n, c, p, canonical⟩
  · rcases form' with rfl | ⟨-, -, -, canonical'⟩
    · rfl
    · exact absurd same.1.symm (empty canonical')
  · rcases form' with rfl | ⟨n', c', p', canonical'⟩
    · exact absurd same.1 (empty canonical)
    · obtain ⟨batch, channels, plane⟩ := canonical_ext canonical canonical' same
      obtain ⟨b, ch, pl⟩ := k
      obtain ⟨b', ch', pl'⟩ := k'
      dsimp only at *
      obtain rfl : b = b' := by omega
      obtain rfl : ch = ch' := by omega
      obtain rfl : pl = pl' := by omega
      rfl

/-! ## Offsets -/

/-- Where the packed layout of a shape stores the element at a place of the row-major order. -/
def nc4Offset (s : Shape) (i : Nat) : Option Nat :=
  let view := ofShape s
  let C := view.c.toNat
  let H := view.h.toNat
  let W := view.w.toNat
  let n := i / W / (H * C)
  let c := i / W / H % C
  let h := i / W % H
  let w := i % W
  if i < view.n.toNat * C * H * W then
    some ((((n * ((C + 3) / 4) + c / 4) * H + h) * W + w) * 4 + c % 4)
  else none

/-- The number of places of the packed buffer of a shape. -/
def shapeFootprint (s : Shape) : Nat :=
  let view := ofShape s
  view.n.toNat * ((view.c.toNat + 3) / 4) * 4 * view.h.toNat * view.w.toNat

/-- The place of an element depends on the plane as a whole. -/
theorem nc4Position_eq (C H W i : Nat) : nc4Position C (H * W) i =
    (((i / W / (H * C) * ((C + 3) / 4) + i / W / H % C / 4) * H + i / W % H) * W + i % W) * 4 +
      i / W / H % C % 4 := by
  have plane : i / (H * W) = i / W / H := by rw [Nat.mul_comm, Nat.div_div_eq_div_mul]
  have place : i % (H * W) = i / W % H * W + i % W := by
    rw [Nat.mul_comm H, Nat.mod_mul, Nat.add_comm, Nat.mul_comm W]
  unfold nc4Position
  dsimp only
  rw [plane, place, Nat.div_div_eq_div_mul (i / W) H C]
  ring

theorem nc4Offset_eq (s : Shape) (i : Nat) : nc4Offset s i =
    if i < (ofShape s).n.toNat * (ofShape s).c.toNat *
        ((ofShape s).h.toNat * (ofShape s).w.toNat) then
      some (nc4Position (ofShape s).c.toNat
        ((ofShape s).h.toNat * (ofShape s).w.toNat) i)
    else none := by
  unfold nc4Offset
  dsimp only
  rw [nc4Position_eq, Nat.mul_assoc (_ * _)]

/-- Partial maps on initial stretches are the same when their lengths and their values are. -/
theorem same_stretches {m m' : Nat} {f f' : Nat → Nat} :
    (∀ i, (if i < m then some (f i) else none) = if i < m' then some (f' i) else none) ↔
      m = m' ∧ ∀ i < m, f i = f' i := by
  constructor
  · intro same
    have length : m = m' := by
      rcases Nat.lt_trichotomy m m' with less | equal | more
      · have at_m := same m
        rw [if_neg (lt_irrefl m), if_pos less] at at_m
        cases at_m
      · exact equal
      · have at_m := same m'
        rw [if_neg (lt_irrefl m'), if_pos more] at at_m
        cases at_m
    refine ⟨length, fun i inside => ?_⟩
    have at_i := same i
    rw [if_pos inside, if_pos (length ▸ inside)] at at_i
    exact Option.some.inj at_i
  · rintro ⟨rfl, values⟩ i
    split
    · rename_i inside
      rw [values i inside]
    · rfl

theorem ofShape_plane (low : ∀ d ∈ s, 0 ≤ d) : ((ofShape s).h * (ofShape s).w).toNat =
      (ofShape s).h.toNat * (ofShape s).w.toNat := by
  have members : ∀ d ∈ s.reverse, 0 ≤ d := fun d mem => low d (mem_reverse.mp mem)
  suffices nonneg : 0 ≤ (ofShape s).h ∧ 0 ≤ (ofShape s).w from
    toNat_mul nonneg.1 nonneg.2
  unfold ofShape
  generalize s.reverse = r at members
  split
  · exact ⟨members _ (by simp), members _ (by simp)⟩
  · exact ⟨members _ (by simp), Int.one_nonneg⟩
  · exact ⟨Int.one_nonneg, Int.one_nonneg⟩
  · exact ⟨Int.one_nonneg, Int.one_nonneg⟩
  · exact ⟨Int.one_nonneg, Int.one_nonneg⟩

theorem sameNc4Storage_iff (a_low : ∀ d ∈ a, 0 ≤ d) (b_low : ∀ d ∈ b, 0 ≤ d) : SameNc4Storage a b ↔
      shapeFootprint a = shapeFootprint b ∧ ∀ i, nc4Offset a i = nc4Offset b i := by
  have footprint (s : Shape) : shapeFootprint s = nc4Footprint (ofShape s).n.toNat
      (ofShape s).c.toNat ((ofShape s).h.toNat * (ofShape s).w.toNat) := by
    unfold shapeFootprint nc4Footprint
    ring
  simp only [nc4Offset_eq, same_stretches, footprint]
  unfold SameNc4Storage SameStorage
  dsimp only
  rw [ofShape_plane a_low, ofShape_plane b_low]
  exact and_left_comm

/-- **The test accepts exactly the shapes that are stored alike**: with buffers of one size, and every
element at the same place. -/
theorem nc4PackingIdentical_iff {a b : Shape} (a_ok : Representable a) (b_ok : Representable b) :
    nc4PackingIdentical a b = true ↔
      shapeFootprint a = shapeFootprint b ∧ ∀ i, nc4Offset a i = nc4Offset b i := by
  have a_low : ∀ d ∈ a, 0 ≤ d := fun d mem => (a_ok.1 d mem).1
  have b_low : ∀ d ∈ b, 0 ≤ d := fun d mem => (b_ok.1 d mem).1
  rw [← sameNc4Storage_iff a_low b_low]
  refine ⟨sameNc4Storage a_ok b_ok, fun same => ?_⟩
  have resolved {s : Shape} (low : ∀ d ∈ s, 0 ≤ d) : s.any (fun d => d < 0) = false := by
    rw [any_eq_false]
    intro d mem
    have := low d mem
    simpa using this
  have storage : SameStorage _ _ _ _ _ _ := (keyStorage a_ok).symm.trans (same.trans (keyStorage b_ok))
  have keys := key_ext (keyForm a_ok) (keyForm b_ok) storage
  unfold nc4PackingIdentical
  rw [resolved a_low, resolved b_low]
  simp [keys]

/-- Two batches of eight channels are stored like one of sixteen. -/
theorem batchesOfEight_storage : Representable [2, 8, 3, 5] ∧ Representable [1, 16, 15] ∧
    shapeFootprint [2, 8, 3, 5] = shapeFootprint [1, 16, 15] ∧
    ∀ i, nc4Offset [2, 8, 3, 5] i = nc4Offset [1, 16, 15] i := by
  have first : Representable [2, 8, 3, 5] := ⟨by decide, by decide⟩
  have second : Representable [1, 16, 15] := ⟨by decide, by decide⟩
  exact ⟨first, second, (nc4PackingIdentical_iff first second).mp (by decide)⟩

end Vknn
