import Vknn.Cpu.Reshape
import Vknn.Import.PassesUtil
import Vknn.Lib.Insertions

/-!
# Unsqueeze at load and at run time

Shape inference and the kernel both sort the axes as they are written and put in one
dimension of size 1 after another, a negative axis being counted from the rank that the
shape has grown to by then.  The operator counts it from the rank of the output.  A
negative axis is therefore placed as if it were the only one; as many dimensions of the
input as there are axes behind it end up on its wrong side.  The shape is right all the
same when each of these dimensions is itself 1.
-/

namespace Vknn

open Insertions List Int Cpu Option Function

/-! ## The kernel -/

namespace Cpu

/-- The axes a node is run with; `held` is what its second operand holds. -/
def unsqueezeAxes (nd : Node) (held : List Int) : List Int :=
  let axes := nd.attr.getints (str "axes")
  if axes = [] ∧ 1 < nd.inputs.length ∧ nd.inputs.getD 1 kNoTensor ≠ kNoTensor then held else axes

/-- One dimension put in.  Before the first place there is nothing to insert at. -/
def unsqueezeInsert (out : Shape) (ax : Int) : Option Shape :=
  let ax : Int := if ax < 0 then ax + (out.length + 1) else ax
  let place := min ax out.length
  if 0 ≤ place then some (out.insertIdx place.toNat 1) else none

/-- The output shape, where every insertion has a place. -/
def unsqueezeDims (axes : List Int) (X : Shape) : Option Shape :=
  (axes.mergeSort (fun a b => a ≤ b)).foldlM unsqueezeInsert X

end Cpu

/-! ## Shape inference -/

namespace Import

/-- One dimension put in, at the nearest place there is. -/
def unsqueezeInsert (out : Shape) (ax : Int) : Shape :=
  let ax : Int := if ax < 0 then ax + (out.length + 1) else ax
  out.insertIdx (max 0 (min ax out.length)).toNat 1

/-- The inferred shape; an input or a list of axes that is not known yet leaves it open. -/
def inferUnsqueeze (floatInts : FloatInts) (g : Graph) (nd : Node) : Option Shape :=
  let xid := nd.inputs.headD kNoTensor
  let shape := (g.desc xid).shape
  if shape = [] ∧ ¬ g.isInitializer xid then none
  else
    let axes := readI64Param floatInts g nd (str "axes") 1
    if axes = [] then none
    else some ((axes.mergeSort (fun a b => a ≤ b)).foldl unsqueezeInsert shape)

end Import

/-! ## The operator -/

/-- The output dimension that an axis names, in an output of the given rank. -/
def onnxAxis (rank : Nat) (a : Int) : Int := if a < 0 then a + rank else a

def onnxAxes (rank : Nat) (axes : List Int) : List Nat := axes.map fun a => (onnxAxis rank a).toNat

/-- Axes an input of the given rank can be unsqueezed at: each names an output dimension, and no
two name the same one. -/
structure ValidAxes (rank : Nat) (axes : List Int) : Prop where
  inside : ∀ a ∈ axes, -(rank + axes.length : Int) ≤ a ∧ a < rank + axes.length
  distinct : (onnxAxes (rank + axes.length) axes).Nodup

/-- The output shape: 1 at each axis, the dimensions of the input in order elsewhere. -/
def onnxUnsqueeze (axes : List Int) (X : Shape) : Shape :=
  filled 1 (onnxAxes (X.length + axes.length) axes) X (X.length + axes.length)

/-- How many axes name an output dimension behind that of `a`. -/
def axesBehind (rank : Nat) (axes : List Int) (a : Int) : Nat :=
  axes.countP fun b => onnxAxis rank a < onnxAxis rank b

/-- A negative axis that is placed well: counted from the input, it is not before the first
dimension, and the dimensions it should have been put behind are all 1. -/
def PlacedWell (axes : List Int) (X : Shape) (a : Int) : Prop :=
  0 ≤ X.length + 1 + a ∧ ∀ x < X.length, X.length + 1 + a ≤ x →
      x < X.length + 1 + a + axesBehind (X.length + axes.length) axes a → X[x]? = some 1

instance (axes : List Int) (X : Shape) (a : Int) : Decidable (PlacedWell axes X a) := by
  unfold PlacedWell
  infer_instance

/-! ## What the kernel computes -/

variable {X : Shape} {axes front : List Int} {out : Shape} {a : Int}

/-- The axes that are counted from the front. -/
def fronts (axes : List Int) : List Nat := (axes.filter (0 ≤ ·)).map toNat

/-- How many negative axes lie before a dimension of the input when each is counted as if it were
the only one. -/
def early (rank : Nat) (axes : List Int) (x : Nat) : Nat :=
  axes.countP fun a => a < 0 ∧ (rank : Int) + 1 + a ≤ x

/-- A shape after some of the insertions, with the places its dimensions have come to. -/
structure Grown (X : Shape) (front : List Int) (out : Shape) (pos : Nat → Nat) : Prop where
  size : out.length = X.length + front.length
  spread : Spread 1 X out pos
  places : ∀ x, Skips (fronts front) (x + early X.length front x) (pos x)

theorem fronts_append (front : List Int) (a : Int) :
    fronts (front ++ [a]) = fronts front ++ if 0 ≤ a then [a.toNat] else [] := by
  rw [fronts, filter_append, map_append, ← fronts]
  by_cases sign : 0 ≤ a
  · rw [if_pos sign, filter_cons_of_pos (by simpa using sign), filter_nil, map_singleton]
  · rw [if_neg sign, filter_cons_of_neg (by simpa using sign), filter_nil, map_nil]

theorem early_append (rank : Nat) (front : List Int) (a : Int) (x : Nat) :
    early rank (front ++ [a]) x =
      early rank front x + if a < 0 ∧ (rank : Int) + 1 + a ≤ x then 1 else 0 := by
  simp only [early, countP_append, countP_cons, countP_nil, decide_eq_true_eq, Nat.zero_add]

/-- While the axes are negative, each goes where it would go alone. -/
theorem Grown.backward {pos : Nat → Nat} (grown : Grown X front out pos) (sign : a < 0)
    (smaller : ∀ b ∈ front, b < a) (started : 0 ≤ X.length + 1 + a) :
    ∃ out' pos', unsqueezeInsert out a = some out' ∧ Grown X (front ++ [a]) out' pos' := by
  have size := grown.size
  have alone : fronts front = [] := by
    rw [fronts, filter_eq_nil_iff.mpr, map_nil]
    intro b mem
    have := smaller b mem
    rw [decide_eq_true_eq]
    omega
  obtain ⟨p, at_⟩ := eq_ofNat_of_zero_le (a := a + (out.length + 1)) (by omega)
  refine ⟨out.insertIdx p 1, fun x => pushed p (pos x), ?_, ⟨?_, grown.spread.insert (by omega),
    fun x => ?_⟩⟩
  · rw [unsqueezeInsert, if_pos sign, at_, min_eq_left (by omega), if_pos (by omega)]
    rfl
  · rw [length_insertIdx, if_pos (by omega), length_append, length_singleton]
    omega
  · -- the axes counted so far are all before those that `a` is before
    have place := (grown.places x).place
    rw [alone, show before [] (pos x) = 0 from rfl] at place
    rw [fronts_append, alone, if_neg (by omega), early_append]
    refine ⟨not_mem_nil, ?_⟩
    rw [nil_append, show ∀ y, before [] y = 0 from fun _ => rfl, pushed]
    have most : early X.length front x ≤ front.length := countP_le_length
    by_cases counted : (X.length : Int) + 1 + a ≤ x
    · have all : early X.length front x = front.length := by
        refine countP_eq_length.mpr fun b mem => ?_
        have := smaller b mem
        rw [decide_eq_true_eq]
        omega
      rw [if_pos (show p ≤ pos x by omega), if_pos ⟨sign, counted⟩]
      omega
    · rw [if_neg (show ¬ p ≤ pos x by omega), if_neg fun both => counted both.2]
      omega

/-- An axis counted from the front is where it stays. -/
theorem Grown.forward {pos : Nat → Nat} (grown : Grown X front out pos) (sign : 0 ≤ a)
    (smaller : ∀ b ∈ front, b < a) (room : a ≤ X.length + front.length) :
    ∃ out' pos', unsqueezeInsert out a = some out' ∧ Grown X (front ++ [a]) out' pos' := by
  have size := grown.size
  obtain ⟨p, rfl⟩ := eq_ofNat_of_zero_le sign
  refine ⟨out.insertIdx p 1, fun x => pushed p (pos x), ?_, ⟨?_, grown.spread.insert (by omega),
    fun x => ?_⟩⟩
  · rw [unsqueezeInsert, if_neg (not_lt.mpr sign), min_eq_left (by omega), if_pos (by omega)]
    rfl
  · rw [length_insertIdx, if_pos (by omega), length_append, length_singleton]
    omega
  · rw [fronts_append, if_pos sign, early_append, if_neg (by omega), Nat.add_zero]
    refine (grown.places x).push fun q mem => ?_
    obtain ⟨b, kept, rfl⟩ := mem_map.mp mem
    obtain ⟨inFront, nonneg⟩ := mem_filter.mp kept
    have := smaller b inFront
    rw [decide_eq_true_eq] at nonneg
    rw [toNat_natCast]
    omega

/-- **The kernel on ascending axes**: what it grows, when none is before the first place and each
finds as many dimensions as it counts. -/
theorem unsqueeze_grown (sorted : axes.Pairwise (· < ·))
    (room : ∀ (front : List Int) (a : Int) (rest : List Int), axes = front ++ a :: rest →
      a ≤ X.length + front.length)
    (started : ∀ a ∈ axes, 0 ≤ (X.length : Int) + 1 + a) :
    ∃ out pos, axes.foldlM unsqueezeInsert X = some out ∧ Grown X axes out pos := by
  induction axes using List.reverseRecOn with
  | nil => refine ⟨X, id, rfl, rfl, Spread.refl 1 X, fun x => ⟨not_mem_nil, rfl⟩⟩
  | append_singleton front a ih =>
    obtain ⟨frontSorted, -, last⟩ := pairwise_append.mp sorted
    have smaller : ∀ b ∈ front, b < a := fun b mem => last b mem a (mem_singleton_self a)
    obtain ⟨out, pos, ran, grown⟩ := ih frontSorted
      (fun start b rest split => room start b (rest ++ [a]) (by
        rw [split, append_assoc, cons_append]))
      fun b mem => started b (mem_append_left _ mem)
    have step : ∃ out' pos', unsqueezeInsert out a = some out' ∧
        Grown X (front ++ [a]) out' pos' := by
      by_cases sign : a < 0
      · exact grown.backward sign smaller
          (started a (mem_append_right _ (mem_singleton_self a)))
      · exact grown.forward (not_lt.mp sign) smaller (room front a [] rfl)
    obtain ⟨out', pos', inserted, next⟩ := step
    refine ⟨out', pos', ?_, next⟩
    rw [foldlM_append, ran]
    simp only [foldlM_cons, foldlM_nil, bind_eq_bind, bind_some, inserted]
    rfl

/-! ## Where the operator puts the dimensions -/

theorem fronts_sublist (rank : Nat) (axes : List Int) :
    (fronts axes).Sublist (onnxAxes rank axes) := by
  have same : fronts axes = (axes.filter (0 ≤ ·)).map fun a => (onnxAxis rank a).toNat := by
    refine map_congr_left fun a mem => ?_
    have sign := (mem_filter.mp mem).2
    rw [decide_eq_true_eq] at sign
    rw [onnxAxis, if_neg (not_lt.mpr sign)]
  rw [same, onnxAxes]
  exact filter_sublist.map _

section Valid

variable (valid : ValidAxes X.length axes)

include valid

theorem onnxAxis_nonneg (mem : a ∈ axes) : 0 ≤ onnxAxis (X.length + axes.length) a := by
  have := (valid.inside a mem).1
  unfold onnxAxis
  split <;> push_cast <;> omega

theorem onnxAxis_lt (mem : a ∈ axes) :
    onnxAxis (X.length + axes.length) a < X.length + axes.length := by
  have := (valid.inside a mem).2
  unfold onnxAxis
  split <;> push_cast <;> omega

theorem axes_nodup : axes.Nodup := valid.distinct.of_map

/-- The axes before an output dimension are those counted from the front and those counted from
the end. -/
theorem before_onnxAxes (y : Nat) :
    before (onnxAxes (X.length + axes.length) axes) y = before (fronts axes) y +
      axes.countP fun a => a < 0 ∧ onnxAxis (X.length + axes.length) a < y := by
  rw [before, onnxAxes, countP_map, countP_eq_countP_filter_add _ _ (0 ≤ ·), before,
    fronts, countP_map, countP_filter, countP_filter, countP_filter]
  refine congrArg₂ _ (countP_congr fun a mem => ?_) (countP_congr fun a mem => ?_)
  · simp only [comp_apply, Bool.and_eq_true, decide_eq_true_eq, and_congr_left_iff]
    intro sign
    rw [onnxAxis, if_neg (not_lt.mpr sign)]
  · have nonneg := onnxAxis_nonneg valid mem
    simp only [comp_apply, Bool.and_eq_true, decide_eq_true_eq, Bool.not_eq_true',
      decide_eq_false_iff_not]
    omega

/-- A dimension of the input belongs behind a negative axis exactly when it is behind where that
axis would go alone and behind the dimensions that make room for the axes behind. -/
theorem onnxAxis_lt_iff (mem : a ∈ axes) (sign : a < 0) {x y : Nat}
    (skips : Skips (onnxAxes (X.length + axes.length) axes) x y) :
    onnxAxis (X.length + axes.length) a < y ↔
      (X.length : Int) + 1 + a + axesBehind (X.length + axes.length) axes a ≤ x := by
  have nonneg := onnxAxis_nonneg valid mem
  have kept : (onnxAxis (X.length + axes.length) a).toNat ∈
      onnxAxes (X.length + axes.length) axes := mem_map_of_mem mem
  have behind : axesBehind (X.length + axes.length) axes a =
      (onnxAxes (X.length + axes.length) axes).countP
        ((onnxAxis (X.length + axes.length) a).toNat < ·) := by
    rw [axesBehind, onnxAxes, countP_map]
    refine countP_congr fun b memB => ?_
    have := onnxAxis_nonneg valid memB
    simp only [comp_apply, decide_eq_true_eq]
    omega
  have total := before_add_behind valid.distinct kept
  rw [← behind, onnxAxes, length_map, ← onnxAxes] at total
  have counted : onnxAxis (X.length + axes.length) a = a + X.length + axes.length := by
    rw [onnxAxis, if_pos sign]
    push_cast
    omega
  have order := skips.kept_lt_iff valid.distinct kept
  omega

/-- **A dimension of the input stands where the operator puts it exactly when it is on the right
side of every negative axis.** -/
theorem place_iff {x y z : Nat} (run : Skips (fronts axes) (x + early X.length axes x) y)
    (spec : Skips (onnxAxes (X.length + axes.length) axes) x z) :
    y = z ↔ ∀ a ∈ axes, a < 0 → (X.length : Int) + 1 + a ≤ x →
      (X.length : Int) + 1 + a + axesBehind (X.length + axes.length) axes a ≤ x := by
  have late : axes.countP (fun a => a < 0 ∧ onnxAxis (X.length + axes.length) a < z) =
      axes.countP fun a => a < 0 ∧
        (X.length : Int) + 1 + a + axesBehind (X.length + axes.length) axes a ≤ x := by
    refine countP_congr fun a mem => ?_
    simp only [decide_eq_true_eq, and_congr_right_iff]
    exact fun sign => onnxAxis_lt_iff valid mem sign spec
  have place := spec.place
  rw [before_onnxAxes valid, late] at place
  have sides := countP_eq_iff (l := axes)
    (f := fun a => decide (a < 0 ∧ (X.length : Int) + 1 + a ≤ x))
    (g := fun a => decide (a < 0 ∧
      (X.length : Int) + 1 + a + axesBehind (X.length + axes.length) axes a ≤ x))
    fun a _ within => by
      simp only [decide_eq_true_eq] at within ⊢
      omega
  have counts : y = z ↔ early X.length axes x = axes.countP fun a => a < 0 ∧
      (X.length : Int) + 1 + a + axesBehind (X.length + axes.length) axes a ≤ x := by
    constructor
    · rintro rfl
      have := run.place
      omega
    · intro same
      refine run.unique (valid.distinct.sublist (fronts_sublist _ axes)) ⟨fun mem => ?_, ?_⟩
      · exact spec.free ((fronts_sublist _ axes).subset mem)
      · rw [same]
        omega
  rw [counts]
  refine sides.trans (forall₂_congr fun a _ => ?_)
  simp only [decide_eq_true_eq]
  exact ⟨fun step sign here => (step ⟨sign, here⟩).2, fun step both => ⟨both.1, step both.1 both.2⟩⟩

end Valid

/-- Ascending numbers below a bound leave room for those that follow. -/
theorem ascending_room {rest : List Int} {n : Int} (sorted : (a :: rest).Pairwise (· < ·))
    (below : ∀ b ∈ a :: rest, b < n) : a + rest.length < n := by
  induction rest generalizing a with
  | nil =>
    have := below a (mem_singleton_self a)
    rw [length_nil]
    omega
  | cons b rest ih =>
    obtain ⟨first, sorted⟩ := pairwise_cons.mp sorted
    have := first b mem_cons_self
    have := ih sorted fun c mem => below c (mem_cons_of_mem a mem)
    rw [length_cons]
    push_cast
    omega

/-- An axis before the first place is met at once, and stops the kernel. -/
theorem unsqueeze_stops {sorted : List Int} (ascending : sorted.Pairwise (· < ·)) (mem : a ∈ sorted)
    (before_ : (X.length : Int) + 1 + a < 0) : sorted.foldlM unsqueezeInsert X = none := by
  cases sorted with
  | nil => exact absurd mem not_mem_nil
  | cons first rest =>
    have least : first ≤ a := by
      rcases mem_cons.mp mem with rfl | later
      · exact le_refl _
      · exact ((pairwise_cons.mp ascending).1 a later).le
    have stuck : unsqueezeInsert X first = none := by
      rw [unsqueezeInsert, if_pos (show first < 0 by omega), min_eq_left (by omega),
        if_neg (by omega)]
    rw [foldlM_cons, stuck]
    rfl

theorem sorted_axes (valid : ValidAxes X.length axes) :
    (axes.mergeSort (fun a b => a ≤ b)).Pairwise (· < ·) := by
  have distinct : (axes.mergeSort (fun a b => a ≤ b)).Nodup :=
    (mergeSort_perm axes _).nodup_iff.mpr (axes_nodup valid)
  exact (pairwise_mergeSort' (· ≤ ·) axes).imp₂ (fun _ _ le ne => lt_of_le_of_ne le ne)
    distinct

/-! ## The shapes against the operator's -/

/-- **The kernel gives the operator's shape exactly when every negative axis is placed well.** -/
theorem unsqueezeDims_iff (valid : ValidAxes X.length axes) :
    unsqueezeDims axes X = some (onnxUnsqueeze axes X) ↔
      ∀ a ∈ axes, a < 0 → PlacedWell axes X a := by
  have perm := mergeSort_perm axes fun a b => decide (a ≤ b)
  have sorted := sorted_axes valid
  by_cases started : ∀ a ∈ axes, 0 ≤ (X.length : Int) + 1 + a
  · obtain ⟨out, run, ran, grown⟩ := unsqueeze_grown (X := X) sorted
      (fun front a rest split => by
        have size := perm.length_eq
        rw [split] at sorted
        have := ascending_room (n := X.length + axes.length)
          (pairwise_append.mp sorted).2.1 fun b mem => (valid.inside b (perm.mem_iff.mp
            (split ▸ mem_append_right front mem))).2
        rw [split, length_append, length_cons] at size
        omega)
      fun a mem => started a (perm.mem_iff.mp mem)
    have places : ∀ x, Skips (fronts axes) (x + early X.length axes x) (run x) := fun x => by
      have place := (grown.places x).perm ((perm.filter _).map _)
      rwa [early, perm.countP_eq] at place
    choose spec skips using fun x => exists_skips valid.distinct x
    have filled_ := spread_filled (u := 1) (X := X) valid.distinct
      (fun p mem => by
        obtain ⟨a, inAxes, rfl⟩ := mem_map.mp mem
        have := onnxAxis_nonneg valid inAxes
        have := onnxAxis_lt valid inAxes
        rw [onnxAxes, length_map]
        omega) skips
    rw [show (onnxAxes (X.length + axes.length) axes).length = axes.length from
      length_map _] at filled_
    have same := grown.spread.eq_iff filled_ (by rw [grown.size, perm.length_eq, length_filled])
    rw [unsqueezeDims, ran, some.injEq, onnxUnsqueeze, same]
    constructor
    · intro agree a mem sign
      refine ⟨started a mem, fun x low from_ upTo => ?_⟩
      by_contra other
      have := (place_iff valid (places x) (skips x)).mp (agree x low other) a mem sign from_
      omega
    · intro well x low other
      refine (place_iff valid (places x) (skips x)).mpr fun a mem sign from_ => ?_
      by_contra upTo
      exact other ((well a mem sign).2 x low from_ (not_le.mp upTo))
  · simp only [not_forall] at started
    obtain ⟨a, mem, early_⟩ := started
    refine ⟨fun gives => ?_, fun well => absurd (well a mem (by omega)).1 early_⟩
    rw [unsqueezeDims, unsqueeze_stops sorted (perm.mem_iff.mpr mem) (not_le.mp early_)] at gives
    cases gives

/-- A fold that a partial one follows, step by step, ends where that one does. -/
theorem foldl_of_foldlM {σ β : Type} {f : σ → β → Option σ} {h : σ → β → σ}
    (agree : ∀ s b s', f s b = some s' → h s b = s') (l : List β) {s s' : σ}
    (ran : l.foldlM f s = some s') : l.foldl h s = s' := by
  induction l generalizing s with
  | nil => exact some.inj ran
  | cons b l ih =>
    rw [foldlM_cons] at ran
    obtain ⟨next, stepped, rest⟩ := bind_eq_some_iff.mp ran
    rw [foldl_cons, agree s b next stepped]
    exact ih rest

/-- What the kernel inserts, where it has a place for it. -/
theorem inserted_place {next : Shape} (inserted : unsqueezeInsert out a = some next) :
    0 ≤ min (if a < 0 then a + (out.length + 1) else a) (out.length : Int) ∧
      out.insertIdx (min (if a < 0 then a + (out.length + 1) else a) (out.length : Int)).toNat 1 =
        next := by
  by_cases place : 0 ≤ min (if a < 0 then a + (out.length + 1) else a) (out.length : Int)
  · rw [unsqueezeInsert, if_pos place] at inserted
    exact ⟨place, some.inj inserted⟩
  · rw [unsqueezeInsert, if_neg place] at inserted
    cases inserted

theorem infer_of_run (axes : List Int) (ran : axes.foldlM unsqueezeInsert X = some out) :
    axes.foldl Import.unsqueezeInsert X = out := by
  refine foldl_of_foldlM (fun s b next stepped => ?_) axes ran
  obtain ⟨place, inserted⟩ := inserted_place stepped
  rw [Import.unsqueezeInsert, max_eq_right place]
  exact inserted

/-- **Both shapes are the operator's exactly when** the input and the axes are known and every
negative axis is placed well. -/
theorem unsqueeze_onnx_iff (floatInts : Import.FloatInts) (g : Graph) (nd : Node) (held : List Int)
    (shape : (g.desc (nd.inputs.headD kNoTensor)).shape = X)
    (loaded : Import.readI64Param floatInts g nd (str "axes") 1 = axes)
    (runs : unsqueezeAxes nd held = axes) (valid : ValidAxes X.length axes) :
    (Import.inferUnsqueeze floatInts g nd = some (onnxUnsqueeze axes X) ∧
        unsqueezeDims (unsqueezeAxes nd held) X = some (onnxUnsqueeze axes X)) ↔
      (X ≠ [] ∨ g.isInitializer (nd.inputs.headD kNoTensor)) ∧ axes ≠ [] ∧
        ∀ a ∈ axes, a < 0 → PlacedWell axes X a := by
  rw [runs, unsqueezeDims_iff valid, ← and_assoc]
  refine and_congr_left fun well => ?_
  have inferred := infer_of_run _ ((unsqueezeDims_iff valid).mpr well)
  rw [Import.inferUnsqueeze, shape, loaded]
  by_cases unknown : X = [] ∧ ¬ g.isInitializer (nd.inputs.headD kNoTensor)
  · rw [if_pos unknown]
    refine ⟨nofun, fun known => absurd unknown.1 (known.1.resolve_right unknown.2)⟩
  · rw [if_neg unknown]
    by_cases noAxes : axes = []
    · rw [if_pos noAxes]
      exact ⟨nofun, fun known => absurd noAxes known.2⟩
    · rw [if_neg noAxes, inferred]
      refine ⟨fun _ => ⟨?_, noAxes⟩, fun _ => rfl⟩
      rwa [not_and_or, not_not] at unknown

/-- A node that carries its axes as an attribute. -/
def unsqueezeNode (axes : List Int) : Node where
  type := .unsqueeze
  inputs := [0]
  outputs := [1]
  attr := ⟨(∅ : Std.ExtTreeMap Str Attr).insert (str "axes")
    ({ kind := .ints, ints := axes } : Attr)⟩

/-- The graph of that node: its input and its output. -/
def unsqueezeGraph (axes : List Int) (X : Shape) : Graph where
  tensors := [{ name := str "x", shape := X }, { name := str "y" }]
  nodes := [unsqueezeNode axes]

theorem unsqueezeNode_axes (axes : List Int) :
    (unsqueezeNode axes).attr.getints (str "axes") = axes := by
  rw [unsqueezeNode, Attributes.getints, Std.ExtTreeMap.getElem?_insert_self]

theorem unsqueezeNode_loaded (floatInts : Import.FloatInts) {axes : List Int} (some_ : axes ≠ [])
    (X : Shape) : Import.readI64Param floatInts (unsqueezeGraph axes X) (unsqueezeNode axes)
      (str "axes") 1 = axes := by
  rw [Import.readI64Param, unsqueezeNode_axes]
  exact if_pos (by simpa using some_)

theorem unsqueezeNode_runs {axes : List Int} (some_ : axes ≠ []) (held : List Int) :
    unsqueezeAxes (unsqueezeNode axes) held = axes := by
  rw [unsqueezeAxes, unsqueezeNode_axes]
  exact if_neg fun operand => some_ operand.1

/-- One negative axis behind the others is placed well. -/
theorem unsqueeze_firstAndLast_right :
    Import.inferUnsqueeze (fun _ _ => []) (unsqueezeGraph [0, -1] [2, 3]) (unsqueezeNode [0, -1]) =
        some [1, 2, 3, 1] ∧
      unsqueezeDims (unsqueezeAxes (unsqueezeNode [0, -1]) []) [2, 3] = some [1, 2, 3, 1] :=
  (unsqueeze_onnx_iff (fun _ _ => []) (unsqueezeGraph [0, -1] [2, 3]) (unsqueezeNode [0, -1]) []
    rfl (unsqueezeNode_loaded _ (by decide) _) (unsqueezeNode_runs (by decide) _)
    ⟨by decide, by decide⟩).mpr ⟨.inl (by decide), by decide, by decide⟩

/-- Two negative axes: the first one of the output `[3, 1, 1]` is put before the 3. -/
theorem unsqueeze_negativePair_astray :
    ValidAxes 1 [-2, -1] ∧ onnxUnsqueeze [-2, -1] [3] = [3, 1, 1] ∧
      Import.inferUnsqueeze (fun _ _ => []) (unsqueezeGraph [-2, -1] [3]) (unsqueezeNode [-2, -1]) =
        some [1, 3, 1] ∧
      unsqueezeDims (unsqueezeAxes (unsqueezeNode [-2, -1]) []) [3] = some [1, 3, 1] := by
  have sorted : ([-2, -1] : List Int).mergeSort (fun a b => a ≤ b) = [-2, -1] :=
    mergeSort_of_pairwise (by decide)
  have runs : unsqueezeDims [-2, -1] [3] = some [1, 3, 1] := by
    rw [unsqueezeDims, sorted]
    rfl
  refine ⟨⟨by decide, by decide⟩, by decide, ?_, ?_⟩
  · rw [Import.inferUnsqueeze, unsqueezeNode_loaded _ (by decide)]
    exact congrArg some (infer_of_run _ runs)
  · rw [unsqueezeNode_runs (by decide)]
    exact runs

end Vknn
