import Vknn.Lib.RowMajor

/-!
# Strided views

An axis of an array may be laid out in several blocks, outer to inner: a position on
the axis is decoded in the mixed radix of the block sizes, and each digit moves by the
stride of its block.  A list of such axes is a view of a buffer.

Views are merged, split, reshaped, permuted and repeated without touching the buffer.
The facts here say that each of these keeps the offset that a position leads to.
-/

namespace Strided

open List RowMajor Int Nat Strided Option

/-- A run of equal steps. -/
structure Block where
  size : Int
  stride : Int
deriving DecidableEq

abbrev Axis := List Block

/-- The number of positions of an axis. -/
def total : Axis → Int
  | [] => 1
  | b :: axis => b.size * total axis

/-- A position of an axis, and the offset it leads to. -/
inductive Spans : Axis → Int → Int → Prop
  | nil : Spans [] 0 0
  | cons {b : Block} {axis : Axis} {d c o : Int} (low : 0 ≤ d) (high : d < b.size)
      (rest : Spans axis c o) : Spans (b :: axis) (d * total axis + c) (d * b.stride + o)

def dims (view : List Axis) : List Int := view.map total

/-- Coordinates in a view, and the offset they lead to. -/
inductive Reaches : List Axis → List Int → Int → Prop
  | nil : Reaches [] [] 0
  | cons {axis : Axis} {view : List Axis} {c o p : Int} {cs : List Int} (here : Spans axis c o)
      (rest : Reaches view cs p) : Reaches (axis :: view) (c :: cs) (o + p)

/-! ## Positions of an axis -/

theorem total_append (as bs : Axis) : total (as ++ bs) = total as * total bs := by
  induction as with
  | nil => rw [nil_append, total, Int.one_mul]
  | cons b as ih => rw [cons_append, total, total, ih, Int.mul_assoc]

theorem total_eq_size (axis : Axis) : total axis = RowMajor.size (axis.map (·.size)) := by
  induction axis with
  | nil => rfl
  | cons b axis ih => rw [total, ih, map_cons, RowMajor.size]

theorem total_flatten (view : List Axis) : total view.flatten = RowMajor.size (dims view) := by
  induction view with
  | nil => rfl
  | cons axis view ih =>
    rw [flatten_cons, total_append, ih]
    rfl

variable {as axis bs : Axis} {c o : Int} {view view' : List Axis} {cs cs' : List Int}

theorem Spans.inside (spans : Spans axis c o) : 0 ≤ c ∧ c < total axis := by
  induction spans with
  | nil => exact ⟨le_rfl, Int.one_pos⟩
  | @cons b axis d c o low high _ ih =>
    rw [total]
    have positive : 0 ≤ total axis := ih.1.trans ih.2.le
    have least := Int.mul_nonneg low positive
    have most : (d + 1) * total axis ≤ b.size * total axis :=
      Int.mul_le_mul_of_nonneg_right high positive
    rw [Int.add_mul, Int.one_mul] at most
    omega

theorem spans_cons_iff {b : Block} :
    Spans (b :: axis) c o ↔ ∃ d c' o', 0 ≤ d ∧ d < b.size ∧ Spans axis c' o' ∧
      c = d * total axis + c' ∧ o = d * b.stride + o' := by
  constructor
  · intro spans
    cases spans with
    | cons low high rest => exact ⟨_, _, _, low, high, rest, rfl, rfl⟩
  · rintro ⟨d, c', o', low, high, rest, rfl, rfl⟩
    exact .cons low high rest

theorem spans_nil_iff : Spans [] c o ↔ c = 0 ∧ o = 0 := by
  constructor
  · intro spans
    cases spans
    exact ⟨rfl, rfl⟩
  · rintro ⟨rfl, rfl⟩
    exact .nil

theorem spans_singleton_iff {b : Block} :
    Spans [b] c o ↔ 0 ≤ c ∧ c < b.size ∧ o = c * b.stride := by
  rw [spans_cons_iff]
  constructor
  · rintro ⟨d, c', o', low, high, rest, rfl, rfl⟩
    obtain ⟨rfl, rfl⟩ := spans_nil_iff.mp rest
    rw [total, Int.mul_one, Int.add_zero, Int.add_zero]
    exact ⟨low, high, rfl⟩
  · rintro ⟨low, high, rfl⟩
    exact ⟨c, 0, 0, low, high, .nil, by rw [total, Int.mul_one, Int.add_zero], by rw [Int.add_zero]⟩

theorem Spans.append {c' o' : Int} (outer : Spans as c o)
    (inner : Spans bs c' o') : Spans (as ++ bs) (c * total bs + c') (o + o') := by
  induction outer with
  | nil => simpa using inner
  | @cons b as d c o low high _ ih =>
    have joined := Spans.cons low high ih
    rw [total_append] at joined
    rw [cons_append]
    convert joined using 1 <;> ring

/-- A position of an axis in two parts, taken apart. -/
theorem Spans.split (spans : Spans (as ++ bs) c o) :
    ∃ c₁ o₁ c₂ o₂, Spans as c₁ o₁ ∧ Spans bs c₂ o₂ ∧ c = c₁ * total bs + c₂ ∧ o = o₁ + o₂ := by
  induction as generalizing c o with
  | nil => exact ⟨0, 0, c, o, .nil, spans, by ring, by ring⟩
  | cons b as ih =>
    rw [cons_append] at spans
    obtain ⟨d, c', o', low, high, rest, rfl, rfl⟩ := spans_cons_iff.mp spans
    obtain ⟨c₁, o₁, c₂, o₂, outer, inner, rfl, rfl⟩ := ih rest
    refine ⟨_, _, c₂, o₂, .cons low high outer, inner, ?_, by ring⟩
    rw [total_append]
    ring

theorem Spans.zero (spans : Spans axis 0 o) : o = 0 := by
  induction axis generalizing o with
  | nil => exact (spans_nil_iff.mp spans).2
  | cons b axis ih =>
    obtain ⟨d, c, o, low, -, rest, sum, rfl⟩ := spans_cons_iff.mp spans
    have inside := rest.inside
    have product := Int.mul_nonneg low (inside.1.trans inside.2.le)
    obtain rfl : c = 0 := by omega
    have first : d * total axis = 0 := by omega
    obtain rfl : d = 0 := by
      rcases Int.mul_eq_zero.mp first with none | empty
      · exact none
      · omega
    rw [ih rest, Int.zero_mul, Int.add_zero]

/-- The blocks of an axis with a position have positions. -/
theorem Spans.positive (spans : Spans axis c o) : ∀ b ∈ axis, 0 < b.size := by
  induction spans with
  | nil => exact fun b mem => nomatch mem
  | cons low high _ ih =>
    intro b mem
    rcases mem_cons.mp mem with rfl | later
    · exact low.trans_lt high
    · exact ih b later

theorem Spans.digits (spans : Spans axis c o) :
    ∃ ds, RowMajor.Inside ds (axis.map (·.size)) ∧ flat (axis.map (·.size)) ds = c ∧
      dot ds (axis.map (·.stride)) = o := by
  induction spans with
  | nil => exact ⟨[], .nil, rfl, rfl⟩
  | @cons b axis d c o low high _ ih =>
    obtain ⟨ds, inside, position, offset⟩ := ih
    refine ⟨d :: ds, .cons ⟨low, high⟩ inside, ?_, ?_⟩
    · rw [map_cons, flat_cons, position, total_eq_size]
    · rw [map_cons, dot, offset]

/-! ## Other blocks for the same axis -/

/-- Every position of an axis leads where it led. -/
structure Recasts (as bs : Axis) : Prop where
  total : total as = total bs
  spans : ∀ {c o : Int}, Spans as c o → Spans bs c o

theorem Recasts.refl (axis : Axis) : Recasts axis axis := ⟨rfl, id⟩

theorem Recasts.trans {cs : Axis} (first : Recasts as bs) (second : Recasts bs cs) :
    Recasts as cs :=
  ⟨first.total.trans second.total, fun spans => second.spans (first.spans spans)⟩

theorem Recasts.append {as' bs' : Axis} (outer : Recasts as as') (inner : Recasts bs bs') :
    Recasts (as ++ bs) (as' ++ bs') := by
  refine ⟨by rw [total_append, total_append, outer.total, inner.total], fun spans => ?_⟩
  obtain ⟨c₁, o₁, c₂, o₂, first, second, rfl, rfl⟩ := spans.split
  rw [inner.total]
  exact (outer.spans first).append (inner.spans second)

theorem Recasts.within (recasts : Recasts as bs) (outer inner : Axis) :
    Recasts (outer ++ as ++ inner) (outer ++ bs ++ inner) :=
  ((Recasts.refl outer).append recasts).append (.refl inner)

theorem recasts_unit (stride : Int) : Recasts [⟨1, stride⟩] [] := by
  refine ⟨rfl, fun spans => ?_⟩
  obtain ⟨low, high, rfl⟩ := spans_singleton_iff.mp spans
  dsimp only at high
  rename_i c
  obtain rfl : c = 0 := by omega
  exact spans_nil_iff.mpr ⟨rfl, Int.zero_mul _⟩

theorem recasts_nil (stride : Int) : Recasts [] [⟨1, stride⟩] := by
  refine ⟨rfl, fun spans => ?_⟩
  obtain ⟨rfl, rfl⟩ := spans_nil_iff.mp spans
  exact spans_singleton_iff.mpr ⟨le_rfl, Int.one_pos, (Int.zero_mul _).symm⟩

/-- **Two blocks that are jointly dense are one.** -/
theorem recasts_merge (s t stride : Int) :
    Recasts [⟨s, t * stride⟩, ⟨t, stride⟩] [⟨s * t, stride⟩] := by
  refine ⟨by simp [total], fun spans => ?_⟩
  obtain ⟨d, c, o, low, high, rest, rfl, rfl⟩ := spans_cons_iff.mp spans
  obtain ⟨least, most, rfl⟩ := spans_singleton_iff.mp rest
  have inside := spans.inside
  simp only [total, Int.mul_one] at inside high most ⊢
  refine spans_singleton_iff.mpr ⟨inside.1, inside.2, ?_⟩
  dsimp only
  ring

/-- **A block splits at a divisor.** -/
theorem recasts_split {n : Int} (some : 0 < n) (t stride : Int) :
    Recasts [⟨n * t, stride⟩] [⟨n, t * stride⟩, ⟨t, stride⟩] := by
  refine ⟨by simp [total], fun spans => ?_⟩
  rename_i c o
  obtain ⟨low, high, rfl⟩ := spans_singleton_iff.mp spans
  dsimp only at high ⊢
  have positive : 0 < t := by
    by_contra none
    have empty : n * t ≤ 0 := Int.mul_nonpos_of_nonneg_of_nonpos some.le (by omega)
    omega
  have inner : Spans [⟨t, stride⟩] (c % t) (c % t * stride) :=
    spans_singleton_iff.mpr ⟨emod_nonneg c positive.ne', emod_lt_of_pos c positive, rfl⟩
  have joined := Spans.cons (b := ⟨n, t * stride⟩) (ediv_nonneg low positive.le)
    (Int.ediv_lt_of_lt_mul positive high) inner
  have whole : c / t * t + c % t = c := Int.mul_comm t (c / t) ▸ mul_ediv_add_emod c t
  convert joined using 1
  · simp only [total, Int.mul_one]
    exact whole.symm
  · dsimp only
    rw [← Int.mul_assoc, ← Int.add_mul, whole]

/-! ## Coordinates in a view -/

/-- **Coordinates lead where their position in the flattened view leads.** -/
theorem Reaches.flatten (reaches : Reaches view cs o) :
    Spans view.flatten (flat (dims view) cs) o := by
  induction reaches with
  | nil => exact .nil
  | cons here _ ih =>
    have joined := here.append ih
    rw [total_flatten] at joined
    exact joined

theorem Reaches.of_flatten
    (inside : RowMajor.Inside cs (dims view))
    (spans : Spans view.flatten (flat (dims view) cs) o) : Reaches view cs o := by
  induction view generalizing cs o with
  | nil =>
    cases inside
    obtain ⟨-, rfl⟩ := spans_nil_iff.mp spans
    exact .nil
  | cons axis view ih =>
    cases inside with
    | @cons c _ cs _ here rest =>
      obtain ⟨c₁, o₁, c₂, o₂, outer, inner, sum, rfl⟩ := spans.split
      have low : 0 ≤ flat (dims view) cs ∧
          flat (dims view) cs < RowMajor.size (dims view) := flat_inside rest
      have bound := inner.inside
      have split : c * RowMajor.size (dims view) + flat (dims view) cs =
          c₁ * RowMajor.size (dims view) + c₂ := by
        rw [← total_flatten view, ← sum, total_flatten]
        rfl
      rw [total_flatten] at bound
      have block : 0 < RowMajor.size (dims view) := low.1.trans_lt low.2
      have quotient := congrArg (· / RowMajor.size (dims view)) split
      simp only [Int.add_comm (_ * _), add_mul_ediv_right _ _ block.ne',
        ediv_eq_zero_of_lt low.1 low.2, ediv_eq_zero_of_lt bound.1 bound.2,
        Int.zero_add] at quotient
      subst quotient
      obtain rfl : flat (dims view) cs = c₂ := by omega
      exact .cons outer (ih rest inner)

/-- **A view with other axes over the same blocks** leads where it led, position for position. -/
theorem Reaches.reshape
    (reaches : Reaches view cs o) (recasts : Recasts view.flatten view'.flatten)
    (inside : RowMajor.Inside cs' (dims view'))
    (same : flat (dims view') cs' = flat (dims view) cs) :
    Reaches view' cs' o :=
  .of_flatten inside (same ▸ recasts.spans reaches.flatten)

theorem Reaches.append {o' : Int}
    (reaches : Reaches view cs o) (more : Reaches view' cs' o') :
    Reaches (view ++ view') (cs ++ cs') (o + o') := by
  induction reaches with
  | nil => simpa using more
  | cons here _ ih =>
    rw [Int.add_assoc]
    exact .cons here ih

/-- Coordinates in a view in two parts, taken apart. -/
theorem Reaches.split
    (reaches : Reaches (view ++ view') (cs ++ cs') o) (length : cs.length = view.length) :
    ∃ o₁ o₂, Reaches view cs o₁ ∧ Reaches view' cs' o₂ ∧ o = o₁ + o₂ := by
  induction view generalizing cs o with
  | nil =>
    obtain rfl := length_eq_zero_iff.mp length
    exact ⟨0, o, .nil, reaches, (Int.zero_add o).symm⟩
  | cons axis view ih =>
    cases cs with
    | nil => cases length
    | cons c cs =>
      cases reaches with
      | cons here rest =>
        obtain ⟨o₁, o₂, first, second, rfl⟩ := ih rest (succ.inj length)
        exact ⟨_, o₂, .cons here first, second, (Int.add_assoc _ _ _).symm⟩

/-- The blocks of a view with coordinates have positions. -/
theorem Reaches.positive
    (reaches : Reaches view cs o) : ∀ axis ∈ view, ∀ b ∈ axis, 0 < b.size := by
  induction reaches with
  | nil => exact fun axis mem => nomatch mem
  | cons here _ ih =>
    intro axis mem
    rcases mem_cons.mp mem with rfl | later
    · exact here.positive
    · exact ih axis later

/-! ## Dense, padded and permuted views -/

/-- The view of a whole row-major array; an axis of one position does not move. -/
def dense : List Int → List Axis
  | [] => []
  | d :: ds => [⟨d, if d = 1 then 0 else RowMajor.size ds⟩] :: dense ds

@[simp] theorem dims_dense (ds : List Int) : dims (dense ds) = ds := by
  induction ds with
  | nil => rfl
  | cons d ds ih =>
    change total _ :: dims (dense ds) = _
    rw [ih, total, total, Int.mul_one]

/-- **Coordinates in the dense view lead to their position.** -/
theorem reaches_dense {ds : List Int} (inside : RowMajor.Inside cs ds) :
    Reaches (dense ds) cs (flat ds cs) := by
  induction inside with
  | nil => exact .nil
  | @cons c d cs ds here _ ih =>
    refine .cons (spans_singleton_iff.mpr ⟨here.1, here.2, ?_⟩) ih
    dsimp only
    split
    · rename_i single
      obtain rfl : c = 0 := by omega
      rw [Int.zero_mul, Int.zero_mul]
    · rfl

def units (n : Nat) : List Axis := List.replicate n [⟨1, 0⟩]

theorem reaches_units (n : Nat) : Reaches (units n) (List.replicate n 0) 0 := by
  induction n with
  | zero => exact .nil
  | succ n ih =>
    exact .cons (spans_singleton_iff.mpr ⟨le_rfl, Int.one_pos, (Int.zero_mul _).symm⟩) ih

theorem reaches_iff_sum :
    Reaches view cs o ↔ ∃ os : List Int, os.length = view.length ∧ cs.length = view.length ∧
      (∀ i < view.length, Spans (view.getD i []) (cs.getD i 0) (os.getD i 0)) ∧ o = os.sum := by
  constructor
  · intro reaches
    induction reaches with
    | nil => exact ⟨[], rfl, rfl, fun i small => absurd small (not_lt_zero i), rfl⟩
    | @cons axis view c o p cs here _ ih =>
      obtain ⟨os, length, coordinates, each, rfl⟩ := ih
      refine ⟨o :: os, by simp [length], by simp [coordinates], fun i small => ?_, by simp⟩
      cases i with
      | zero => exact here
      | succ i => exact each i (lt_of_succ_lt_succ small)
  · rintro ⟨os, length, coordinates, each, rfl⟩
    induction view generalizing cs os with
    | nil =>
      obtain rfl := length_eq_zero_iff.mp length
      obtain rfl := length_eq_zero_iff.mp coordinates
      exact .nil
    | cons axis view ih =>
      cases os with
      | nil => cases length
      | cons o os =>
        cases cs with
        | nil => cases coordinates
        | cons c cs =>
          rw [sum_cons]
          refine .cons (each 0 (succ_pos _)) (ih os (succ.inj length)
            (succ.inj coordinates) fun i small => ?_)
          exact each (i + 1) (succ_lt_succ small)

def pick (perm : List Nat) (view : List Axis) : List Axis := perm.map fun p => view.getD p []

/-- **Permuted axes lead where the coordinates lead that are permuted back.** -/
theorem Reaches.pick {perm : List Nat}
    (permutation : perm.Perm (List.range view.length)) (length : cs.length = perm.length)
    (reaches : Reaches view (unpermute perm cs) o) : Reaches (pick perm view) cs o := by
  obtain ⟨os, offsets, -, each, rfl⟩ := reaches_iff_sum.mp reaches
  have distinct : perm.Nodup := permutation.symm.nodup nodup_range
  refine reaches_iff_sum.mpr ⟨perm.map fun p => os.getD p 0, ?_, ?_, fun i small => ?_, ?_⟩
  · rw [pick, length_map, length_map]
  · rw [pick, length_map, length]
  · rw [pick, length_map] at small
    have bound : perm[i] < view.length := mem_range.mp (permutation.mem_iff.mp (getElem_mem small))
    have count : perm.length = view.length := by rw [permutation.length_eq, length_range]
    have here := each perm[i] bound
    have coordinate : (unpermute perm cs).getD perm[i] 0 = cs.getD i 0 := by
      rw [unpermute, getD_eq_getElem?_getD, getElem?_map,
        getElem?_range (by omega), map_some, getD_some,
        distinct.idxOf_getElem i small]
    rw [coordinate] at here
    have axis : (pick perm view).getD i [] = view.getD perm[i] [] := by
      rw [pick, getD_eq_getElem?_getD, getElem?_map, getElem?_eq_getElem small, map_some, getD_some]
    have offset : (perm.map fun p => os.getD p 0).getD i 0 = os.getD perm[i] 0 := by
      rw [getD_eq_getElem?_getD, getElem?_map, getElem?_eq_getElem small, map_some, getD_some]
    rw [axis, offset]
    exact here
  · have whole : (List.range view.length).map (fun p => os.getD p 0) = os := by
      apply ext_getElem
      · rw [length_map, length_range, offsets]
      · intro i small small'
        rw [getElem_map, getElem_range, getD_eq_getElem?_getD,
          getElem?_eq_getElem small', getD_some]
    rw [(permutation.map fun p => os.getD p 0).sum_eq, whole]

end Strided
