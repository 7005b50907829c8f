import Vknn.Import.FloatCastRemoval
import Vknn.Import.FoldIntRoundtripCast

/-!
# When folding round trips through integers is sound

On an ordered graph the pass folds the pairs of the graph it is given, all of them.  The
node that takes the place of a pair stands where the first cast stood, so it comes before
every reader of the second one's result.  What was between the casts is made by nobody any
more.

The values are those of the two casts exactly where an integer can hold what the first one
reads without its fraction.  A residual or a bias that was between the casts is lost.
-/

namespace Vknn.Import

open List
open Cpu (HostCasts Lanes hostCasts mem_readsOf operation operatorMachine plainIdentity readsOf
  runOperator signature tensorOf writesOf)

variable {g : Graph} {i j : Nat} {c1 c2 : Node}

/-! ## Pairs -/

theorem eq_singleton_of_length {ts : List TensorId} (one : ts.length = 1) : ts = [ts.headD kNoTensor] := by
  match ts with
  | [t] => rfl

/-- A first cast, taken apart. -/
structure WideCast (g : Graph) (c1 : Node) (input mid : TensorId) : Prop where
  type : c1.type = .cast
  inputs : c1.inputs = [input]
  outputs : c1.outputs = [mid]
  target : Cpu.onnxIsWideInt (c1.attr.geti (str "to") 1) = true
  present : input ≠ kNoTensor
  there : mid ≠ kNoTensor

theorem wideCast_of (wide : castsToWideInt g c1 = true) :
    WideCast g c1 (c1.inputs.headD kNoTensor) (c1.outputs.headD kNoTensor) := by
  simp only [castsToWideInt, Bool.and_eq_true, decide_eq_true_eq] at wide
  obtain ⟨⟨⟨⟨⟨⟨⟨⟨type, one⟩, one'⟩, target⟩, present⟩, -⟩, there⟩, -⟩, -⟩ := wide
  exact ⟨type, eq_singleton_of_length one, eq_singleton_of_length one', target, present, there⟩

theorem not_output_of_wide (wide : castsToWideInt g c1 = true) :
    c1.outputs.headD kNoTensor ∉ g.outputs := by
  simp only [castsToWideInt, Bool.and_eq_true, Bool.not_eq_true', contains_eq_mem,
    decide_eq_false_iff_not] at wide
  exact wide.2

/-- A second cast, taken apart. -/
structure BackCast (c2 : Node) (mid out : TensorId) : Prop where
  type : c2.type = .cast
  inputs : c2.inputs = [mid]
  outputs : c2.outputs = [out]
  target : Cpu.onnxToIsFloat (c2.attr.geti (str "to") 1) = true
  there : out ≠ kNoTensor

variable {mid : TensorId} {k : Nat} {nd : Node}

theorem backCast_of (back : castsBack mid c2 = true) :
    BackCast c2 mid (c2.outputs.headD kNoTensor) := by
  simp only [castsBack, Bool.and_eq_true, decide_eq_true_eq] at back
  obtain ⟨⟨⟨⟨⟨type, one⟩, one'⟩, same⟩, target⟩, there⟩ := back
  exact ⟨type, same ▸ eq_singleton_of_length one, eq_singleton_of_length one', target, there⟩

theorem not_wide_of_back (back : castsBack mid c2 = true) : castsToWideInt g c2 = false := by
  rw [← Bool.not_eq_true]
  intro wide
  have integer := (wideCast_of wide).target
  have number := (backCast_of back).target
  simp only [Cpu.onnxIsWideInt, Cpu.onnxToIsFloat, Bool.or_eq_true, decide_eq_true_eq] at *
  omega

variable {out t : TensorId}

theorem not_back_truncOf : castsBack mid (truncOf out c1) = false := by simp [castsBack, truncOf]

namespace Roundtrip

theorem wideCast (pair : Roundtrip g i j c1 c2) :
    WideCast g c1 (c1.inputs.headD kNoTensor) (c1.outputs.headD kNoTensor) :=
  wideCast_of pair.wide

theorem backCast (pair : Roundtrip g i j c1 c2) :
    BackCast c2 (c1.outputs.headD kNoTensor) (c2.outputs.headD kNoTensor) :=
  backCast_of pair.back

theorem first_mem (pair : Roundtrip g i j c1 c2) : c1 ∈ g.nodes := mem_of_getElem? pair.first

theorem second_mem (pair : Roundtrip g i j c1 c2) : c2 ∈ g.nodes := mem_of_getElem? pair.second

theorem writes_first (pair : Roundtrip g i j c1 c2) :
    writesOf c1 = [c1.outputs.headD kNoTensor] := by
  have cast := pair.wideCast
  rw [writesOf, cast.outputs]
  exact filter_eq_self.mpr (by simpa using cast.there)

theorem writes_second (pair : Roundtrip g i j c1 c2) :
    writesOf c2 = [c2.outputs.headD kNoTensor] := by
  have cast := pair.backCast
  rw [writesOf, cast.outputs]
  exact filter_eq_self.mpr (by simpa using cast.there)

theorem mid_written (pair : Roundtrip g i j c1 c2) : c1.outputs.headD kNoTensor ∈ writesOf c1 := by
  rw [pair.writes_first]
  exact mem_singleton_self _

theorem out_written (pair : Roundtrip g i j c1 c2) : c2.outputs.headD kNoTensor ∈ writesOf c2 := by
  rw [pair.writes_second]
  exact mem_singleton_self _

theorem mid_read (pair : Roundtrip g i j c1 c2) : c1.outputs.headD kNoTensor ∈ readsOf c2 := by
  refine Cpu.mem_readsOf_of_input ?_ pair.wideCast.there
  rw [pair.backCast.inputs]
  exact mem_singleton_self _

theorem before (pair : Roundtrip g i j c1 c2) (ordered : signature.Ordered g.nodes) : i < j := by
  obtain ⟨small, first⟩ := List.getElem?_eq_some_iff.mp pair.first
  obtain ⟨small', second⟩ := List.getElem?_eq_some_iff.mp pair.second
  rcases Nat.lt_trichotomy i j with less | same | more
  · exact less
  · subst same
    obtain rfl := first.symm.trans second
    exact absurd pair.mid_read (ordered.self c1 pair.first_mem _ pair.mid_written)
  · have apart := pairwise_iff_getElem.mp ordered.before j i small' small more
    rw [first, second] at apart
    exact absurd pair.mid_read (apart _ pair.mid_written).1

theorem unique {i' : Nat} {c1' c2' : Node} (pair : Roundtrip g i j c1 c2)
    (pair' : Roundtrip g i' j c1' c2') (ordered : signature.Ordered g.nodes) : i = i' := by
  obtain rfl := Option.some.inj (pair.second.symm.trans pair'.second)
  have same := pair.backCast.inputs.symm.trans pair'.backCast.inputs
  by_contra apart
  refine ordered.once pair.first pair'.first apart pair.mid_written ?_
  rw [List.cons.inj same |>.1]
  exact pair'.mid_written

theorem second_not_first (pair : Roundtrip g i j c1 c2) {j' : Nat} {c1' c2' : Node} :
    ¬ Roundtrip g j j' c1' c2' := by
  intro pair'
  obtain rfl := Option.some.inj (pair.second.symm.trans pair'.first)
  exact Bool.false_ne_true ((not_wide_of_back pair.back).symm.trans pair'.wide)

end Roundtrip

/-! ## What the pass does -/

/-- What holds before a position is visited: the pairs that begin earlier are folded. -/
structure RoundtripInv (g : Graph) (st : RoundtripState) (n : Nat) : Prop where
  folded : ∀ k j c1 c2, k < n → Roundtrip g k j c1 c2 →
    st.nodes[k]? = some (truncOf (c2.outputs.headD kNoTensor) c1)
  rest : ∀ k, (∀ j c1 c2, k < n → ¬ Roundtrip g k j c1 c2) → st.nodes[k]? = g.nodes[k]?
  removed : ∀ j, j ∈ st.removed ↔ ∃ i < n, ∃ c1 c2, Roundtrip g i j c1 c2

variable {st : RoundtripState} {n : Nat}

/-- Nothing happens at a position where no pair begins. -/
theorem RoundtripInv.skip (inv : RoundtripInv g st n) (none_ : ∀ j c1 c2, ¬ Roundtrip g n j c1 c2) :
    RoundtripInv g st (n + 1) where
  folded k j c1 c2 small pair := by
    rcases Nat.lt_succ_iff_lt_or_eq.mp small with less | rfl
    · exact inv.folded k j c1 c2 less pair
    · exact absurd pair (none_ j c1 c2)
  rest k outside := inv.rest k fun j c1 c2 less => outside j c1 c2 (Nat.lt_succ_of_lt less)
  removed j := by
    rw [inv.removed]
    constructor
    · rintro ⟨i, less, rest⟩
      exact ⟨i, Nat.lt_succ_of_lt less, rest⟩
    · rintro ⟨i, small, c1, c2, pair⟩
      rcases Nat.lt_succ_iff_lt_or_eq.mp small with less | rfl
      · exact ⟨i, less, c1, c2, pair⟩
      · exact absurd pair (none_ j c1 c2)

/-- The test at a position finds the pair that begins there. -/
theorem castPartner_iff (ordered : signature.Ordered g.nodes) (inv : RoundtripInv g st n)
    (here : g.nodes[n]? = some c1) : castPartner g st n c1 = some (j, out) ↔
      ∃ c2, Roundtrip g n j c1 c2 ∧ out = c2.outputs.headD kNoTensor := by
  constructor
  · intro found
    unfold castPartner at found
    cases wide : castsToWideInt g c1 with
    | false =>
      rw [wide] at found
      cases found
    | true =>
      rw [wide, Bool.not_true, if_neg Bool.false_ne_true] at found
      split at found
      · rename_i j' reader
        split at found
        · cases found
        split at found
        · cases found
        rename_i c2 second
        split at found
        · rename_i back
          obtain ⟨rfl, rfl⟩ := Prod.mk.inj (Option.some.inj found)
          -- What is cast back was not rewritten.
          have same : g.nodes[j']? = some c2 := by
            rw [← second]
            refine (inv.rest j' fun k c1' c2' less pair => ?_).symm
            obtain rfl := Option.some.inj (second.symm.trans (inv.folded j' k c1' c2' less pair))
            exact Bool.false_ne_true (not_back_truncOf.symm.trans back)
          exact ⟨c2, ⟨here, wide, reader, same, back⟩, rfl⟩
        · cases found
      · cases found
  · rintro ⟨c2, pair, rfl⟩
    have before := pair.before ordered
    have fresh : j ∉ st.removed := by
      rw [inv.removed]
      rintro ⟨i, less, c1', c2', pair'⟩
      exact Nat.lt_irrefl i (by have same := pair'.unique pair ordered; omega)
    have second : st.nodes[j]? = some c2 := by
      rw [← pair.second]
      exact inv.rest j fun k c1' c2' _ pair' => pair.second_not_first pair'
    have open_ : (st.removed.contains j || decide (j = n)) = false := by
      simp [fresh, (Nat.ne_of_lt before).symm]
    unfold castPartner
    rw [pair.wide, Bool.not_true, if_neg Bool.false_ne_true, pair.reader]
    dsimp only
    rw [open_, if_neg Bool.false_ne_true, second]
    dsimp only
    rw [if_pos pair.back]

/-- **Visiting a position folds the pair that begins there.** -/
theorem roundtripInv_step (ordered : signature.Ordered g.nodes) (inv : RoundtripInv g st n)
    (small : n < g.nodes.length) : RoundtripInv g (roundtripStep g st n) (n + 1) := by
  have here : g.nodes[n]? = some g.nodes[n] := getElem?_eq_getElem small
  have there : st.nodes[n]? = some g.nodes[n] :=
    (inv.rest n fun _ _ _ less => absurd less (Nat.lt_irrefl n)).trans here
  unfold roundtripStep
  by_cases gone : n ∈ st.removed
  · rw [if_pos (by simpa using gone)]
    obtain ⟨i, -, c1, c2, pair⟩ := (inv.removed n).mp gone
    exact inv.skip fun j c1' c2' pair' => pair.second_not_first pair'
  rw [if_neg (by simpa using gone), there]
  dsimp only
  cases found : castPartner g st n g.nodes[n] with
  | none =>
    refine inv.skip fun j c1 c2 pair => ?_
    obtain rfl := Option.some.inj (here.symm.trans pair.first)
    have partner := (castPartner_iff ordered inv here).mpr ⟨c2, pair, rfl⟩
    rw [found] at partner
    cases partner
  | some partner =>
    obtain ⟨j, out⟩ := partner
    obtain ⟨c2, pair, rfl⟩ := (castPartner_iff ordered inv here).mp found
    -- The pair that begins here is this one.
    have only : ∀ j' c1' c2', Roundtrip g n j' c1' c2' → j' = j ∧ c1' = g.nodes[n] ∧ c2' = c2 := by
      intro j' c1' c2' pair'
      obtain rfl := Option.some.inj (here.symm.trans pair'.first)
      obtain rfl := (List.cons.inj (pair.reader.symm.trans pair'.reader)).1
      exact ⟨rfl, rfl, Option.some.inj (pair'.second.symm.trans pair.second)⟩
    obtain ⟨inside, -⟩ := List.getElem?_eq_some_iff.mp there
    refine ⟨fun k j' c1' c2' less pair' => ?_, fun k outside => ?_, fun j' => ?_⟩
    · rcases Nat.lt_succ_iff_lt_or_eq.mp less with earlier | rfl
      · rw [getElem?_set_ne (by omega)]
        exact inv.folded k j' c1' c2' earlier pair'
      · obtain ⟨-, rfl, rfl⟩ := only j' c1' c2' pair'
        exact getElem?_set_self inside
    · have other : n ≠ k := by
        rintro rfl
        exact outside j _ c2 (Nat.lt_succ_self n) pair
      rw [getElem?_set_ne other]
      exact inv.rest k fun j' c1' c2' less => outside j' c1' c2' (Nat.lt_succ_of_lt less)
    · rw [mem_cons, inv.removed]
      constructor
      · rintro (rfl | ⟨i, less, rest⟩)
        · exact ⟨n, Nat.lt_succ_self n, _, c2, pair⟩
        · exact ⟨i, Nat.lt_succ_of_lt less, rest⟩
      · rintro ⟨i, less, c1', c2', pair'⟩
        rcases Nat.lt_succ_iff_lt_or_eq.mp less with earlier | rfl
        · exact Or.inr ⟨i, earlier, c1', c2', pair'⟩
        · exact Or.inl (only j' c1' c2' pair').1

/-- **The pass folds the pairs of the graph it is given.** -/
theorem roundtripInv_run (ordered : signature.Ordered g.nodes) :
    RoundtripInv g (roundtripRun g) g.nodes.length := by
  have upTo : ∀ n ≤ g.nodes.length,
      RoundtripInv g ((List.range n).foldl (roundtripStep g) { nodes := g.nodes }) n := by
    intro n
    induction n with
    | zero =>
      refine fun _ => ⟨fun k j c1 c2 less => absurd less (Nat.not_lt_zero k), fun k _ => rfl,
        fun j => ?_⟩
      simp
    | succ n ih =>
      intro small
      rw [range_succ, foldl_append, foldl_cons, foldl_nil]
      exact roundtripInv_step ordered (ih (Nat.le_of_succ_le small)) small
  exact upTo g.nodes.length le_rfl

/-! ## The nodes that are left -/

/-- A node that is left, and where it and its results come from: it reads what the node at its place
read, and writes what that node or the second cast of its pair wrote. -/
inductive LeftAt (g : Graph) (k : Nat) : Node → Prop where
  | same {c : Node} (here : g.nodes[k]? = some c) (alone : ∀ j c1 c2, ¬ Roundtrip g k j c1 c2) :
      LeftAt g k c
  | folded {j : Nat} {c1 c2 : Node} (pair : Roundtrip g k j c1 c2) :
      LeftAt g k (truncOf (c2.outputs.headD kNoTensor) c1)

theorem leftAt_of (ordered : signature.Ordered g.nodes)
    (found : (roundtripRun g).nodes[k]? = some nd) : LeftAt g k nd := by
  have inv := roundtripInv_run ordered
  by_cases paired : ∃ j c1 c2, Roundtrip g k j c1 c2
  · obtain ⟨j, c1, c2, pair⟩ := paired
    have small := (List.getElem?_eq_some_iff.mp pair.first).1
    obtain rfl := Option.some.inj (found.symm.trans (inv.folded k j c1 c2 small pair))
    exact .folded pair
  · have alone : ∀ j c1 c2, ¬ Roundtrip g k j c1 c2 :=
      fun j c1 c2 pair => paired ⟨j, c1, c2, pair⟩
    exact .same ((inv.rest k fun j c1 c2 _ => alone j c1 c2).symm.trans found) alone

theorem mem_fold (nd : Node) : nd ∈ (foldIntRoundtripCast g).nodes ↔
    ∃ k, (roundtripRun g).nodes[k]? = some nd ∧ k ∉ (roundtripRun g).removed :=
  mem_keptFrom

theorem writesOf_truncOf (pair : Roundtrip g i j c1 c2) :
    writesOf (truncOf (c2.outputs.headD kNoTensor) c1) = [c2.outputs.headD kNoTensor] := by
  change (c1.outputs.set 0 (c2.outputs.headD kNoTensor)).filter (· ≠ kNoTensor) = _
  rw [pair.wideCast.outputs]
  exact filter_eq_self.mpr (by simpa using pair.backCast.there)

theorem LeftAt.place (left : LeftAt g k nd) : ∃ c, g.nodes[k]? = some c ∧ nd.reads = c.reads := by
  cases left with
  | same here => exact ⟨nd, here, rfl⟩
  | folded pair => exact ⟨_, pair.first, rfl⟩

/-- The node that wrote what a node that is left writes. -/
theorem LeftAt.source (ordered : signature.Ordered g.nodes)
    (left : LeftAt g k nd) : ∃ s c, g.nodes[s]? = some c ∧ k ≤ s ∧
      writesOf nd = writesOf c ∧ (s = k ∨ ∃ c1 c2, Roundtrip g k s c1 c2) := by
  cases left with
  | same here => exact ⟨k, nd, here, le_rfl, rfl, .inl rfl⟩
  | folded pair =>
    exact ⟨_, _, pair.second, (pair.before ordered).le,
      (writesOf_truncOf pair).trans pair.writes_second.symm, .inr ⟨_, _, pair⟩⟩

/-- Results of two nodes that are left come from two nodes. -/
theorem source_apart (ordered : signature.Ordered g.nodes) {k' s s' : Nat} (other : k ≠ k')
    (live : k ∉ (roundtripRun g).removed) (live' : k' ∉ (roundtripRun g).removed)
    (origin : s = k ∨ ∃ c1 c2, Roundtrip g k s c1 c2)
    (origin' : s' = k' ∨ ∃ c1 c2, Roundtrip g k' s' c1 c2) : s ≠ s' := by
  have inv := roundtripInv_run ordered
  have gone : ∀ {k s : Nat} {c1 c2 : Node}, Roundtrip g k s c1 c2 → s ∈ (roundtripRun g).removed := by
    intro k s c1 c2 pair
    exact (inv.removed s).mpr
      ⟨k, (List.getElem?_eq_some_iff.mp pair.first).1, c1, c2, pair⟩
  rintro rfl
  rcases origin with rfl | ⟨c1, c2, pair⟩
  · rcases origin' with rfl | ⟨c1', c2', pair'⟩
    · exact other rfl
    · exact live (gone pair')
  · rcases origin' with rfl | ⟨c1', c2', pair'⟩
    · exact live' (gone pair)
    · exact other (pair.unique pair' ordered)

/-- **What is left is ordered.** -/
theorem ordered_fold (ordered : signature.Ordered g.nodes) :
    signature.Ordered (foldIntRoundtripCast g).nodes := by
  have apart := pairwise_iff_getElem.mp ordered.before
  -- A result comes from a node at its place or later, which nobody before reads.
  have unread : ∀ (k s : Nat) (c c' : Node), k < s → g.nodes[k]? = some c → g.nodes[s]? = some c' →
      ∀ t ∈ writesOf c', t ∉ readsOf c := by
    intro k s c c' before here there t written
    obtain ⟨small, rfl⟩ := List.getElem?_eq_some_iff.mp here
    obtain ⟨small', rfl⟩ := List.getElem?_eq_some_iff.mp there
    exact (apart k s small small' before t written).1
  refine ⟨pairwise_keptFrom fun k k' nd nd' before found found' live live' t written => ?_, ?_⟩
  · obtain ⟨c, here, reads⟩ := (leftAt_of ordered found).place
    obtain ⟨s, c1, source, late, writes, origin⟩ := (leftAt_of ordered found).source ordered
    obtain ⟨s', c1', source', late', writes', origin'⟩ := (leftAt_of ordered found').source ordered
    change t ∈ writesOf nd' at written
    rw [writes'] at written
    refine ⟨?_, ?_⟩
    · change t ∉ nd.reads.filter _
      rw [reads]
      exact unread k s' c c1' (by omega) here source' t written
    · change t ∉ writesOf nd
      rw [writes]
      have different := source_apart ordered (Nat.ne_of_lt before) live live' origin origin'
      exact ordered.once source' source different.symm written
  · intro nd mem t written
    obtain ⟨k, found, -⟩ := (mem_fold nd).mp mem
    obtain ⟨c, here, reads⟩ := (leftAt_of ordered found).place
    obtain ⟨s, c1, source, late, writes, -⟩ := (leftAt_of ordered found).source ordered
    change t ∈ writesOf nd at written
    rw [writes] at written
    change t ∉ nd.reads.filter _
    rw [reads]
    rcases Nat.lt_or_eq_of_le late with later | rfl
    · exact unread k s c c1 later here source t written
    · obtain rfl := Option.some.inj (here.symm.trans source)
      exact ordered.self c (mem_of_getElem? here) t written

/-! ## What it is to be sound -/

variable (K : Cpu.LaneOperators Float32Bits) (g : Graph) (e : TensorId → Lanes Float32Bits)

/-- What it is for the pass to be sound, in one run: what takes the place of two casts gives what the
two gave, and every operand, residual and bias of a node that is left, and every graph output, is an
existing tensor with the same values. -/
structure RoundtripsSound : Prop where
  pairs : ∀ i j c1 c2, Roundtrip g i j c1 c2 →
    ran K (foldIntRoundtripCast g) e (c2.outputs.headD kNoTensor) =
      ran K g e (c2.outputs.headD kNoTensor)
  reads : ∀ nd ∈ (foldIntRoundtripCast g).nodes, ∀ t ∈ readsOf nd,
    Available g (foldIntRoundtripCast g).nodes t ∧ ran K (foldIntRoundtripCast g) e t = ran K g e t
  outputs : ∀ t ∈ g.outputs, t ≠ kNoTensor →
    Available g (foldIntRoundtripCast g).nodes t ∧ ran K (foldIntRoundtripCast g) e t = ran K g e t

/-- What is between two casts of a pair: it is made by nobody any more. -/
def Between (t : TensorId) : Prop :=
  ∃ i j c1 c2, Roundtrip g i j c1 c2 ∧ t = c1.outputs.headD kNoTensor

/-- An integer can hold what the first casts read without its fraction, and no residual and no bias is
what is between two casts. -/
structure RoundtripsHarmless : Prop where
  survive : ∀ i j c1 c2, Roundtrip g i j c1 c2 →
    (ran K g e (c1.inputs.headD kNoTensor)).SurvivesCasts
  operands : ∀ i j c1 c2, Roundtrip g i j c1 c2 → ∀ n ∈ g.nodes,
    n.fusedResidual ≠ c1.outputs.headD kNoTensor ∧ n.fusedBias ≠ c1.outputs.headD kNoTensor

variable {K g e}

/-! ## Values -/

section Values

variable (hosts : HostCasts K) (ready : FloatCastReady g) (pair : Roundtrip g i j c1 c2)
include hosts

theorem value_truncOf {input out : TensorId} (E : TensorId → Lanes Float32Bits)
    (inputs : c1.inputs = [input]) (outputs : c1.outputs.set 0 out = [out]) (present : input ≠ kNoTensor) :
    (operatorMachine K.toOperators g).value (truncOf out c1) E out = (E input).trunc := by
  have other : plainIdentity (truncOf out c1) = false := by simp [plainIdentity, truncOf]
  have operand : tensorOf E input = some (E input) := if_neg present
  have plain : Cpu.plainTrunc (operation g (truncOf out c1)) = true := rfl
  change (runOperator K.toOperators g (truncOf out c1) E).getD
    ((c1.outputs.set 0 out).idxOf out) K.unset = _
  rw [runOperator, if_neg (by rw [other]; exact Bool.false_ne_true), outputs]
  change (K.apply _ (c1.inputs.map (tensorOf E)) _ _).getD _ _ = _
  rw [inputs, map_cons, operand, hosts.trunc _ _ _ _ _ plain]
  simp

include ready pair

/-- **What the two casts compute in sequence.** -/
theorem ran_out : ran K g e (c2.outputs.headD kNoTensor) =
    (ran K g e (c1.inputs.headD kNoTensor)).toInts.toFloats Cpu.widenLane := by
  have first := pair.wideCast
  have second := pair.backCast
  have solved := Dataflow.Machine.solved_run (M := operatorMachine K.toOperators g) ready.ordered e
  have bare := (ready.casts c1 pair.first_mem first.type).2.2.2
  have bare' := (ready.casts c2 pair.second_mem second.type).2.2.2
  have made := solved c1 pair.first_mem _ pair.mid_written
  have made' := solved c2 pair.second_mem _ pair.out_written
  have plain : Cpu.plainWideCast (operation g c1) = true := by
    simp [Cpu.plainWideCast, operation, first.type, bare, first.target]
  generalize c1.inputs.headD kNoTensor = input at *
  generalize c1.outputs.headD kNoTensor = mid at *
  generalize c2.outputs.headD kNoTensor = out at *
  have other : plainIdentity c1 = false := by simp [plainIdentity, first.type]
  have other' : plainIdentity c2 = false := by simp [plainIdentity, second.type]
  have operand : ∀ E : TensorId → Lanes Float32Bits, tensorOf E input = some (E input) :=
    fun E => if_neg first.present
  have operand' : ∀ E : TensorId → Lanes Float32Bits, tensorOf E mid = some (E mid) :=
    fun E => if_neg first.there
  change ran K g e mid = (runOperator K.toOperators g c1 (ran K g e)).getD
    (c1.outputs.idxOf mid) K.unset at made
  change ran K g e out = (runOperator K.toOperators g c2 (ran K g e)).getD
    (c2.outputs.idxOf out) K.unset at made'
  rw [runOperator, if_neg (by rw [other]; exact Bool.false_ne_true), first.inputs, map_cons,
    operand, hosts.wideCast _ _ _ _ _ plain, first.outputs, idxOf_cons_self,
    getD_cons_zero] at made
  rw [runOperator, if_neg (by rw [other']; exact Bool.false_ne_true), second.inputs, map_cons,
    operand', K.floatCast _ _ _ _ _ second.type bare' second.target, second.outputs,
    idxOf_cons_self, getD_cons_zero] at made'
  rw [made', made, hosts.widen]

end Values

/-- What a node that is left reads is not between two casts, save as a residual or a bias. -/
theorem not_between_of_input (ordered : signature.Ordered g.nodes) {n : Node}
    (here : g.nodes[k]? = some n) (live : k ∉ (roundtripRun g).removed)
    (listed : t ∈ n.inputs) : ¬ Between g t := by
  rintro ⟨i, j, c1, c2, pair, rfl⟩
  have reader := mem_readersOf here listed
  rw [pair.reader, mem_singleton] at reader
  subst reader
  exact live (((roundtripInv_run ordered).removed k).mpr
    ⟨i, (List.getElem?_eq_some_iff.mp pair.first).1, c1, c2, pair⟩)

theorem Roundtrip.left (pair : Roundtrip g i j c1 c2) (ordered : signature.Ordered g.nodes) :
    truncOf (c2.outputs.headD kNoTensor) c1 ∈ (foldIntRoundtripCast g).nodes := by
  have inv := roundtripInv_run ordered
  refine (mem_fold _).mpr ⟨i, ?_, fun gone => ?_⟩
  · exact inv.folded i j c1 c2 (List.getElem?_eq_some_iff.mp pair.first).1 pair
  · obtain ⟨i', -, c1', c2', pair'⟩ := (inv.removed i).mp gone
    exact pair'.second_not_first pair

/-- A tensor that was there and is not between two casts is still there. -/
theorem available_fold (input : FloatCastInput g) (outside : ¬ Between g t) (there : Available g g.nodes t) :
    Available g (foldIntRoundtripCast g).nodes t := by
  have inv := roundtripInv_run input.ordered
  rcases there with bound | ⟨c, mem, written⟩
  · exact Or.inl bound
  refine Or.inr ?_
  obtain ⟨k, here⟩ := mem_iff_getElem?.mp mem
  by_cases gone : k ∈ (roundtripRun g).removed
  · obtain ⟨i, -, c1, c2, pair⟩ := (inv.removed k).mp gone
    obtain rfl := Option.some.inj (here.symm.trans pair.second)
    refine ⟨_, pair.left input.ordered, ?_⟩
    rwa [writesOf_truncOf pair, ← pair.writes_second]
  by_cases paired : ∃ j c1 c2, Roundtrip g k j c1 c2
  · obtain ⟨j, c1, c2, pair⟩ := paired
    obtain rfl := Option.some.inj (here.symm.trans pair.first)
    rw [pair.writes_first, mem_singleton] at written
    exact absurd ⟨k, j, c, c2, pair, written⟩ outside
  · refine ⟨c, (mem_fold c).mpr ⟨k, ?_, gone⟩, written⟩
    exact (inv.rest k fun j c1 c2 _ pair => paired ⟨j, c1, c2, pair⟩).trans here

section Sound

variable (input : FloatCastInput g) (harmless : RoundtripsHarmless K g e)
include input harmless

theorem not_between_of_read {nd : Node} (mem : nd ∈ (foldIntRoundtripCast g).nodes) {t : TensorId}
    (read : t ∈ readsOf nd) : ¬ Between g t := by
  obtain ⟨k, found, live⟩ := (mem_fold nd).mp mem
  obtain ⟨c, here, reads⟩ := (leftAt_of input.ordered found).place
  obtain ⟨listed, present⟩ := mem_readsOf.mp read
  rw [reads] at listed
  rcases mem_append.mp listed with operand | fused
  · exact not_between_of_input input.ordered here live operand
  · rintro ⟨i, j, c1, c2, pair, rfl⟩
    have apart := harmless.operands i j c1 c2 pair c (mem_of_getElem? here)
    simp only [mem_cons, not_mem_nil, or_false] at fused
    rcases fused with residual | bias
    · exact apart.1 residual.symm
    · exact apart.2 bias.symm

/-- **Nothing changes but what is between two casts.** -/
theorem ran_fold (hosts : HostCasts K) {t : TensorId} (outside : ¬ Between g t) :
    ran K (foldIntRoundtripCast g) e t = ran K g e t := by
  classical
  have ready := input.toFloatCastReady
  have solved := Dataflow.Machine.solved_run (M := operatorMachine K.toOperators g) ready.ordered e
  have whole : ran K (foldIntRoundtripCast g) e =
      fun t => if Between g t then e t else ran K g e t := by
    refine Dataflow.Machine.run_unique (M := operatorMachine K.toOperators g)
      (ordered_fold ready.ordered) (fun nd mem t written => ?_) fun t untouched => ?_
    · -- What is left reads what it read, and nothing between two casts.
      have agree : ∀ r ∈ readsOf nd,
          (fun t => if Between g t then e t else ran K g e t) r = ran K g e r :=
        fun r read => if_neg (not_between_of_read input harmless mem read)
      refine Eq.trans ?_ ((operatorMachine K.toOperators g).depends nd _ _ agree t written).symm
      obtain ⟨k, found, live⟩ := (mem_fold nd).mp mem
      cases leftAt_of ready.ordered found with
      | same here alone =>
        have stays : ¬ Between g t := by
          rintro ⟨i, j, c1, c2, pair, rfl⟩
          have apart : k ≠ i := by
            rintro rfl
            exact alone j c1 c2 pair
          exact ready.ordered.once here pair.first apart written pair.mid_written
        exact (if_neg stays).trans (solved nd (mem_of_getElem? here) t written)
      | @folded j c1 c2 pair =>
        change t ∈ writesOf _ at written
        rw [writesOf_truncOf pair, mem_singleton] at written
        subst written
        have stays : ¬ Between g (c2.outputs.headD kNoTensor) := by
          rintro ⟨i', j', c1', c2', pair', same⟩
          have apart : i' ≠ j := fun same' => pair.second_not_first (same' ▸ pair')
          exact ready.ordered.once pair'.first pair.second apart pair'.mid_written
            (same ▸ pair.out_written)
        have outputs := pair.wideCast.outputs
        rw [if_neg stays, ran_out hosts ready pair, value_truncOf hosts _ pair.wideCast.inputs
          (by rw [outputs]; rfl) pair.wideCast.present]
        exact (Lanes.casts_eq_trunc_iff _).mpr (harmless.survive _ _ _ _ pair)
    · -- Nobody made what nobody makes.
      split
      · rfl
      · rename_i stays
        refine ((operatorMachine K.toOperators g).run_frame (fun c mem written => ?_) e).symm
        have there := available_fold input stays (Or.inr ⟨c, mem, written⟩)
        rcases there with bound | ⟨n, left, again⟩
        · exact (ready.made c mem t written).1 bound
        · exact untouched n left again
  rw [whole]
  exact if_neg outside

end Sound

/-! ## The pass -/

/-- **Harmless pairs are folded soundly.** -/
theorem roundtripsSound_of_harmless (hosts : HostCasts K) (input : FloatCastInput g)
    (harmless : RoundtripsHarmless K g e) : RoundtripsSound K g e := by
  have ready := input.toFloatCastReady
  refine ⟨fun i j c1 c2 pair => ?_, fun nd mem t read => ?_, fun t output present => ?_⟩
  · refine ran_fold input harmless hosts ?_
    rintro ⟨i', j', c1', c2', pair', same⟩
    have apart : i' ≠ j := fun same' => pair.second_not_first (same' ▸ pair')
    exact ready.ordered.once pair'.first pair.second apart pair'.mid_written
      (same ▸ pair.out_written)
  · have outside := not_between_of_read input harmless mem read
    refine ⟨available_fold input outside ?_, ran_fold input harmless hosts outside⟩
    obtain ⟨k, found, -⟩ := (mem_fold nd).mp mem
    obtain ⟨c, here, reads⟩ := (leftAt_of ready.ordered found).place
    obtain ⟨listed, present⟩ := mem_readsOf.mp read
    by_cases bound : External g t
    · exact Or.inl bound
    · exact Or.inr (ready.fed c (mem_of_getElem? here) t
        (mem_readsOf.mpr ⟨reads ▸ listed, present⟩) bound)
  · have outside : ¬ Between g t := by
      rintro ⟨i, j, c1, c2, pair, rfl⟩
      exact not_output_of_wide pair.wide output
    exact ⟨available_fold input outside (input.outputs t output present),
      ran_fold input harmless hosts outside⟩

/-- **What is folded soundly is harmless.** -/
theorem roundtripsHarmless_of_sound (hosts : HostCasts K) (input : FloatCastInput g)
    (sound : RoundtripsSound K g e) : RoundtripsHarmless K g e := by
  have ready := input.toFloatCastReady
  have ordered := ready.ordered
  have inv := roundtripInv_run ordered
  refine ⟨fun i j c1 c2 pair => ?_, fun i j c1 c2 pair n mem => ?_⟩
  · -- What takes the place of the pair drops the fractions of the same operand.
    have left := pair.left ordered
    have cast := pair.wideCast
    have result : c1.outputs.set 0 (c2.outputs.headD kNoTensor) = [c2.outputs.headD kNoTensor] := by
      rw [cast.outputs]
      rfl
    have solved := Dataflow.Machine.solved_run (M := operatorMachine K.toOperators g)
      (ordered_fold ordered) e _ left (c2.outputs.headD kNoTensor) (by
        change _ ∈ writesOf _
        rw [writesOf_truncOf pair]
        exact mem_singleton_self _)
    have now : ran K (foldIntRoundtripCast g) e (c2.outputs.headD kNoTensor) =
        (ran K (foldIntRoundtripCast g) e (c1.inputs.headD kNoTensor)).trunc :=
      solved.trans (value_truncOf hosts _ cast.inputs result cast.present)
    have operand := (sound.reads _ left (c1.inputs.headD kNoTensor)
      (Cpu.mem_readsOf_of_input (Cpu.headD_mem cast.present) cast.present)).2
    rw [← Lanes.casts_eq_trunc_iff, ← operand, ← now, sound.pairs i j c1 c2 pair, operand]
    exact (ran_out hosts ready pair).symm
  · -- A residual or a bias between two casts is made by nobody.
    have lost : ¬ Available g (foldIntRoundtripCast g).nodes (c1.outputs.headD kNoTensor) := by
      rintro (bound | ⟨nd, among, written⟩)
      · exact (ready.made c1 pair.first_mem _ pair.mid_written).1 bound
      obtain ⟨k, found, -⟩ := (mem_fold nd).mp among
      cases leftAt_of ordered found with
      | same here alone =>
        have apart : k ≠ i := by
          rintro rfl
          exact alone j c1 c2 pair
        exact ordered.once here pair.first apart written pair.mid_written
      | @folded j' c1' c2' pair' =>
        rw [writesOf_truncOf pair', ← pair'.writes_second] at written
        have apart : i ≠ j' := fun same => pair'.second_not_first (same ▸ pair)
        exact ordered.once pair.first pair'.second apart pair.mid_written written
    obtain ⟨k, here⟩ := mem_iff_getElem?.mp mem
    by_cases gone : k ∈ (roundtripRun g).removed
    · obtain ⟨i', -, c1', c2', pair'⟩ := (inv.removed k).mp gone
      obtain rfl := Option.some.inj (here.symm.trans pair'.second)
      obtain ⟨-, residual, bias, -⟩ := ready.casts n mem pair'.backCast.type
      rw [residual, bias]
      exact ⟨pair.wideCast.there.symm, pair.wideCast.there.symm⟩
    obtain ⟨nd, left, reads⟩ : ∃ nd ∈ (foldIntRoundtripCast g).nodes, nd.reads = n.reads := by
      by_cases paired : ∃ j c1 c2, Roundtrip g k j c1 c2
      · obtain ⟨j', c1', c2', pair'⟩ := paired
        obtain rfl := Option.some.inj (here.symm.trans pair'.first)
        exact ⟨_, pair'.left ordered, rfl⟩
      · refine ⟨n, (mem_fold n).mpr ⟨k, ?_, gone⟩, rfl⟩
        exact (inv.rest k fun j' c1' c2' _ pair' => paired ⟨j', c1', c2', pair'⟩).trans here
    have apart : ∀ t ∈ [n.fusedResidual, n.fusedBias], t ≠ c1.outputs.headD kNoTensor := by
      rintro t listed rfl
      refine lost (sound.reads nd left _ (mem_readsOf.mpr ⟨?_, pair.wideCast.there⟩)).1
      rw [reads]
      exact mem_append_right _ listed
    exact ⟨apart _ mem_cons_self, apart _ (mem_cons_of_mem _ mem_cons_self)⟩

/-! ## A round trip -/

/-- A cast to integers of 64 bits, and back. -/
def roundtripGraph : Graph where
  tensors := [{ name := str "x", shape := [2], isInput := true },
    { name := str "whole", shape := [2], dtype := .int64 }, { name := str "back", shape := [2] },
    { name := str "y", shape := [2], isOutput := true }]
  nodes := [
    { type := .cast, inputs := [0], outputs := [1],
      attr := ⟨(∅ : Std.ExtTreeMap Str Attr).insert (str "to") { kind := .int, i := 7 }⟩ },
    { type := .cast, inputs := [1], outputs := [2] },
    { type := .cast, inputs := [2], outputs := [3] }]
  inputs := [0]
  outputs := [3]

theorem floatCastInput_roundtripGraph : FloatCastInput roundtripGraph :=
  ⟨⟨by decide, by decide, by decide, by decide, by decide⟩,
    by decide⟩

/-- **Folding round trips is sound exactly when** every first cast reads what survives both casts, and
no residual and no bias is what is between two casts. -/
theorem foldIntRoundtripCast_sound_iff (hosts : HostCasts K) (input : FloatCastInput g)
    (e : TensorId → Lanes Float32Bits) :
    RoundtripsSound K g e ↔ RoundtripsHarmless K g e :=
  ⟨roundtripsHarmless_of_sound hosts input, roundtripsSound_of_harmless hosts input⟩

/-- A number and a half each way survives both casts. -/
theorem wholeAndHalf_sound : (foldIntRoundtripCast roundtripGraph).nodes =
      [{ type := .unary, subOp := 21, inputs := [0], outputs := [2] },
        { type := .cast, inputs := [2], outputs := [3] }] ∧
    RoundtripsSound hostCasts roundtripGraph
      fun _ => .floats [2] [⟨0x3FC00000⟩, ⟨0xC0200000⟩] := by
  refine ⟨by decide, (foldIntRoundtripCast_sound_iff Cpu.hostCasts_laws
    floatCastInput_roundtripGraph _).mpr ⟨fun i j c1 c2 pair => ?_, fun i j c1 c2 pair n mem => ?_⟩⟩
  · have survive : ∀ c ∈ roundtripGraph.nodes, castsToWideInt roundtripGraph c = true →
        (ran hostCasts roundtripGraph (fun _ => .floats [2] [⟨0x3FC00000⟩, ⟨0xC0200000⟩])
          (c.inputs.headD kNoTensor)).SurvivesCasts := by
      decide
    exact survive c1 pair.first_mem pair.wide
  · have none_ : ∀ n ∈ roundtripGraph.nodes,
        n.fusedResidual = kNoTensor ∧ n.fusedBias = kNoTensor := by
      decide
    rw [(none_ n mem).1, (none_ n mem).2]
    exact ⟨pair.wideCast.there.symm, pair.wideCast.there.symm⟩

/-- **Minus a half, and `2 ^ 64`, do not**: the casts give zero and `2 ^ 63`, and dropping the fraction
gives the negative zero and `2 ^ 64`. -/
theorem negativeHalf_astray : FloatCastInput roundtripGraph ∧
    (∀ x ∈ [0xBF000000, 0x5F800000], KvQuant.Finite x) ∧
    ran hostCasts roundtripGraph (fun _ => .floats [2] [⟨0xBF000000⟩, ⟨0x5F800000⟩]) 3 =
      .floats [2] [⟨0⟩, ⟨0x5F000000⟩] ∧
    ran hostCasts (foldIntRoundtripCast roundtripGraph)
      (fun _ => .floats [2] [⟨0xBF000000⟩, ⟨0x5F800000⟩]) 3 =
      .floats [2] [⟨0x80000000⟩, ⟨0x5F800000⟩] ∧
    ¬ RoundtripsSound hostCasts roundtripGraph
      fun _ => .floats [2] [⟨0xBF000000⟩, ⟨0x5F800000⟩] := by
  refine ⟨floatCastInput_roundtripGraph, by decide, by decide, by decide, ?_⟩
  intro sound
  have result := (sound.outputs 3 (by decide) (by decide)).2
  revert result
  decide

end Vknn.Import
