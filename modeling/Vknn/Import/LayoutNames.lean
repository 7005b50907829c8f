import Vknn.Import.LayoutOrder

/-!
# What the splicer does to names

Conversions of reads only add tensors.  A packed graph output hands its name to its flat copy and
takes a longer one.  So the outputs keep their names unless a packed one is listed twice, and an
input keeps its name unless it is a packed output.
-/

namespace Vknn.Import.Layout

open List Int

def nameOf (g : Graph) (t : TensorId) : Str := (g.desc t).name

/-! ## Routing reads only adds tensors -/

/-- A graph with more tensors and the same inputs and outputs. -/
structure Adds (g g' : Graph) : Prop where
  size : g.tensors.length ≤ g'.tensors.length
  desc : ∀ t : TensorId, t < g.tensors.length → g'.desc t = g.desc t
  inputs : g'.inputs = g.inputs
  outputs : g'.outputs = g.outputs

variable {a : Graph} {st : Splice} {t : TensorId}

theorem Adds.refl (g : Graph) : Adds g g := ⟨le_rfl, fun _ _ => rfl, rfl, rfl⟩

theorem Adds.trans {g g' g'' : Graph} (one : Adds g g') (two : Adds g' g'') : Adds g g'' where
  size := one.size.trans two.size
  desc t inside := (two.desc t (inside.trans_le (ofNat_le.mpr one.size))).trans (one.desc t inside)
  inputs := two.inputs.trans one.inputs
  outputs := two.outputs.trans one.outputs

theorem addTensor_length (g : Graph) (d : TensorDesc) :
    (g.addTensor d).1.tensors.length = g.tensors.length + 1 := length_append

theorem addTensor_adds (g : Graph) (d : TensorDesc) : Adds g (g.addTensor d).1 where
  size := addTensor_length g d ▸ Nat.le_succ _
  desc t inside := by rw [Onnx.desc_addTensor, if_neg inside.ne]
  inputs := rfl
  outputs := rfl

theorem convertRead_adds (st : Splice) (ref : TensorId) (want : Bool) :
    Adds st.g (convertRead st ref want).1.g := by
  unfold convertRead
  split
  · exact .refl _
  · split
    · exact .refl _
    · split
      · exact .refl _
      · exact addTensor_adds _ _

theorem convertInputs_adds (nd : Node) (needFlat : Bool) (refs : List TensorId) (k : Nat)
    (st : Splice) : Adds st.g (convertInputs nd needFlat k st refs).1.g := by
  induction refs generalizing k st with
  | nil => exact .refl _
  | cons ref rest ih => exact (convertRead_adds st ref _).trans (ih _ _)

theorem spliceNode_adds (st : Splice) (nd : Node) : Adds st.g (spliceNode st nd).1.g := by
  unfold spliceNode
  split
  · exact .refl _
  · exact ((convertInputs_adds nd _ nd.inputs 0 st).trans (convertRead_adds _ _ _)).trans
      (convertRead_adds _ _ _)

theorem spliceNodes_adds (nodes : List Node) (st : Splice) :
    Adds st.g (spliceNodes st nodes).1.g := by
  induction nodes generalizing st with
  | nil => exact .refl _
  | cons nd rest ih => exact (spliceNode_adds st nd).trans (ih _)

/-! ## One output -/

theorem renamed_length (g : Graph) (out : TensorId) :
    (renamed g out).tensors.length = g.tensors.length := Onnx.updateDesc_length g out _

variable {out : TensorId} {rest : List TensorId}

theorem spliceOutput_name (inv : SpliceInv a st) (packed : Packed a out)
    (inside : 0 ≤ out ∧ out < (a.tensors.length : Int)) (t : TensorId) :
    nameOf (spliceOutput st out).1.g t = if t = (st.g.tensors.length : Int) then nameOf st.g out
      else if t = out then nameOf st.g out ++ str "#nc4" else nameOf st.g t := by
  have inside' : out < (st.g.tensors.length : Int) := inside.2.trans_le (ofNat_le.mpr inv.size)
  rw [spliceOutput_packed inv packed inside.2]
  change (((renamed st.g out).addTensor _).1.desc t).name = _
  rw [Onnx.desc_addTensor, renamed_length]
  split
  · rfl
  · split
    · rename_i same
      rw [same, desc_renamed_self inside.1 inside']
      rfl
    · rename_i other
      rw [desc_renamed_ne other]
      rfl

theorem spliceOutput_inputs (st : Splice) (out : TensorId) :
    (spliceOutput st out).1.g.inputs = st.g.inputs := by
  unfold spliceOutput
  split
  · rfl
  · change (renamed st.g out).inputs = _
    unfold renamed Graph.updateDesc
    split <;> rfl

theorem spliceOutputs_inputs (outs : List TensorId) (st : Splice) :
    (spliceOutputs st outs).1.g.inputs = st.g.inputs := by
  induction outs generalizing st with
  | nil => rfl
  | cons out rest ih => exact (ih _).trans (spliceOutput_inputs st out)

theorem suffix_longer (name : Str) : name.length < (name ++ str "#nc4").length := by
  rw [length_append]
  exact Nat.lt_add_of_pos_right (by decide)

/-! ## All outputs -/

def OutputsIn (a : Graph) (outs : List TensorId) : Prop := ∀ out ∈ outs, InTable a out

theorem OutputsIn.tail (inside : OutputsIn a (out :: rest)) :
    OutputsIn a rest := fun b mem => inside b (mem_cons_of_mem _ mem)

theorem OutputsIn.step (inside : OutputsIn a (out :: rest))
    (inv : SpliceInv a st) :
    SpliceInv a (spliceOutput st out).1 ∧ Later st (spliceOutput st out).1 := by
  have here := inside out mem_cons_self
  obtain ⟨next, routed⟩ := spliceOutput_routed inv here.lt fun present => (here present).1
  exact ⟨next, routed.later⟩

theorem name_spliceOutput_ne (inv : SpliceInv a st) (here : InTable a out)
    (t_in : t < (st.g.tensors.length : Int)) (kept : ¬ (Packed a out ∧ t = out)) :
    nameOf (spliceOutput st out).1.g t = nameOf st.g t := by
  by_cases packed : Packed a out
  · rw [spliceOutput_name inv packed (here packed.1.1), if_neg t_in.ne,
      if_neg fun same => kept ⟨packed, same⟩]
  · rw [spliceOutput_other inv packed here.lt]

theorem name_spliceOutput_self (inv : SpliceInv a st) (here : InTable a out)
    (packed : Packed a out) : nameOf (spliceOutput st out).1.g out = nameOf st.g out ++ str "#nc4" := by
  have low := (here packed.1.1).2.trans_le (ofNat_le.mpr inv.size)
  rw [spliceOutput_name inv packed (here packed.1.1), if_neg low.ne, if_pos rfl]

theorem name_spliceOutputs_kept (outs : List TensorId) (st : Splice) (inv : SpliceInv a st)
    (inside : OutputsIn a outs) (t_in : t < (st.g.tensors.length : Int))
    (kept : ¬ (Packed a t ∧ t ∈ outs)) :
    nameOf (spliceOutputs st outs).1.g t = nameOf st.g t := by
  induction outs generalizing st with
  | nil => rfl
  | cons out rest ih =>
    obtain ⟨inv', later⟩ := inside.step inv
    have after := ih _ inv' inside.tail (t_in.trans_le (ofNat_le.mpr later.size))
      fun both => kept ⟨both.1, mem_cons_of_mem _ both.2⟩
    refine after.trans (name_spliceOutput_ne inv (inside out mem_cons_self) t_in ?_)
    rintro ⟨packed, rfl⟩
    exact kept ⟨packed, mem_cons_self⟩

theorem name_spliceOutputs_le (outs : List TensorId) (st : Splice) (inv : SpliceInv a st)
    (inside : OutputsIn a outs) (t_in : t < (st.g.tensors.length : Int)) :
    (nameOf st.g t).length ≤ (nameOf (spliceOutputs st outs).1.g t).length := by
  induction outs generalizing st with
  | nil => exact le_rfl
  | cons out rest ih =>
    obtain ⟨inv', later⟩ := inside.step inv
    have after := ih _ inv' inside.tail (t_in.trans_le (ofNat_le.mpr later.size))
    refine le_trans ?_ after
    by_cases here : Packed a out ∧ t = out
    · obtain ⟨packed, rfl⟩ := here
      rw [name_spliceOutput_self inv (inside t mem_cons_self) packed]
      exact (suffix_longer _).le
    · rw [name_spliceOutput_ne inv (inside out mem_cons_self) t_in here]

theorem name_spliceOutputs_lt (outs : List TensorId) (st : Splice) (inv : SpliceInv a st)
    (inside : OutputsIn a outs) (packed : Packed a t) (mem : t ∈ outs) :
    (nameOf st.g t).length < (nameOf (spliceOutputs st outs).1.g t).length := by
  induction outs generalizing st with
  | nil => cases mem
  | cons out rest ih =>
    obtain ⟨inv', later⟩ := inside.step inv
    have t_in : t < (st.g.tensors.length : Int) :=
      (inside t mem).lt.trans_le (ofNat_le.mpr inv.size)
    have t_in' := t_in.trans_le (ofNat_le.mpr later.size)
    by_cases here : t = out
    · subst here
      refine lt_of_lt_of_le ?_ (name_spliceOutputs_le rest _ inv' inside.tail t_in')
      rw [name_spliceOutput_self inv (inside t mem_cons_self) packed]
      exact suffix_longer _
    · have after := ih _ inv' inside.tail ((mem_cons.mp mem).resolve_left here)
      rwa [name_spliceOutput_ne inv (inside out mem_cons_self) t_in fun both => here both.2]
        at after

/-- The name under which an output is found: its own at the time, or its flat copy's. -/
theorem name_spliceOutput_result (inv : SpliceInv a st)
    (inside : OutputsIn a (out :: rest)) :
    nameOf (spliceOutput st out).1.g (spliceOutput st out).2 = nameOf st.g out ∧
      (spliceOutput st out).2 < ((spliceOutput st out).1.g.tensors.length : Int) ∧
      (Packed a out → (a.tensors.length : Int) ≤ (spliceOutput st out).2) := by
  have here := inside out mem_cons_self
  have routed := (spliceOutput_routed inv here.lt fun present => (here present).1).2
  refine ⟨?_, routed.inside, fun packed => ?_⟩
  · by_cases packed : Packed a out
    · rw [spliceOutput_name inv packed (here packed.1.1), if_pos]
      rw [spliceOutput_packed inv packed here.lt]
    · rw [spliceOutput_other inv packed here.lt]
  · rw [spliceOutput_packed inv packed here.lt]
    exact ofNat_le.mpr inv.size

/-- The packed outputs are listed once. -/
def ListedOnce (a : Graph) (outs : List TensorId) : Prop :=
  outs.Pairwise fun t u => Packed a t → t ≠ u

theorem name_result_kept (inv : SpliceInv a st)
    (inside : OutputsIn a (out :: rest)) :
    nameOf (spliceOutputs (spliceOutput st out).1 rest).1.g (spliceOutput st out).2 =
      nameOf st.g out := by
  obtain ⟨inv', later⟩ := inside.step inv
  obtain ⟨name, bound, new⟩ := name_spliceOutput_result inv inside
  refine (name_spliceOutputs_kept rest _ inv' inside.tail bound ?_).trans name
  rintro ⟨packed, mem⟩
  by_cases here : Packed a out
  · exact absurd (inside.tail _ mem).lt (not_lt.mpr (new here))
  · rw [spliceOutput_other inv here (inside out mem_cons_self).lt] at packed
    exact here packed

theorem names_results_le (outs : List TensorId) (st : Splice) (inv : SpliceInv a st)
    (inside : OutputsIn a outs) :
    List.Forall₂ (fun out r =>
      (nameOf st.g out).length ≤ (nameOf (spliceOutputs st outs).1.g r).length)
      outs (spliceOutputs st outs).2 := by
  induction outs generalizing st with
  | nil => exact .nil
  | cons out rest ih =>
    obtain ⟨inv', later⟩ := inside.step inv
    obtain ⟨name, bound, -⟩ := name_spliceOutput_result inv inside
    refine .cons ?_ ?_
    · rw [← name]
      exact name_spliceOutputs_le rest _ inv' inside.tail bound
    · have after := ih _ inv' inside.tail
      rw [forall₂_iff_zip] at after ⊢
      refine ⟨after.1, fun {u r} pair => ?_⟩
      have mem : u ∈ out :: rest := mem_cons_of_mem _ (of_mem_zip pair).1
      have u_in : u < (st.g.tensors.length : Int) :=
        (inside u mem).lt.trans_le (ofNat_le.mpr inv.size)
      exact (name_spliceOutputs_le [out] st inv (fun b single =>
        inside b (mem_singleton.mp single ▸ mem_cons_self)) u_in).trans (after.2 pair)

/-- **The outputs keep their names if and only if the packed ones are listed once.** -/
theorem names_results_iff (outs : List TensorId) (st : Splice) (inv : SpliceInv a st)
    (inside : OutputsIn a outs) :
    List.Forall₂ (fun out r => nameOf (spliceOutputs st outs).1.g r = nameOf st.g out)
      outs (spliceOutputs st outs).2 ↔ ListedOnce a outs := by
  induction outs generalizing st with
  | nil => exact ⟨fun _ => .nil, fun _ => .nil⟩
  | cons out rest ih =>
    obtain ⟨inv', later⟩ := inside.step inv
    have here := inside out mem_cons_self
    have u_in {u : TensorId} (mem : u ∈ rest) : u < (st.g.tensors.length : Int) :=
      (inside u (mem_cons_of_mem _ mem)).lt.trans_le (ofNat_le.mpr inv.size)
    -- the names the rest starts from are those of the beginning
    have rest_iff (once : Packed a out → out ∉ rest) : List.Forall₂ (fun u r =>
          nameOf (spliceOutputs (spliceOutput st out).1 rest).1.g r = nameOf st.g u)
          rest (spliceOutputs (spliceOutput st out).1 rest).2 ↔ ListedOnce a rest := by
      rw [← ih _ inv' inside.tail, forall₂_iff_zip, forall₂_iff_zip]
      refine and_congr_right fun _ => ?_
      have same {u : TensorId} (mem : u ∈ rest) :
          nameOf (spliceOutput st out).1.g u = nameOf st.g u :=
        name_spliceOutput_ne inv here (u_in mem) fun both => once both.1 (both.2 ▸ mem)
      exact ⟨fun each u r pair => (each pair).trans (same (of_mem_zip pair).1).symm,
        fun each u r pair => (each pair).trans (same (of_mem_zip pair).1)⟩
    unfold ListedOnce at rest_iff ⊢
    rw [pairwise_cons]
    change List.Forall₂ (fun u r =>
      nameOf (spliceOutputs (spliceOutput st out).1 rest).1.g r = nameOf st.g u) (out :: rest)
      ((spliceOutput st out).2 :: (spliceOutputs (spliceOutput st out).1 rest).2) ↔ _
    rw [forall₂_cons]
    constructor
    · rintro ⟨-, tail⟩
      have once : Packed a out → out ∉ rest := by
        intro packed mem
        obtain ⟨r, pair⟩ : ∃ r, (out, r) ∈ rest.zip (spliceOutputs (spliceOutput st out).1 rest).2 := by
          obtain ⟨i, i_in, found⟩ := getElem_of_mem mem
          have i_in' := tail.length_eq ▸ i_in
          refine ⟨(spliceOutputs (spliceOutput st out).1 rest).2[i], mem_iff_getElem.mpr
            ⟨i, by rw [length_zip, ← tail.length_eq]; omega, ?_⟩⟩
          rw [getElem_zip, found]
        have longer := (forall₂_iff_zip.mp (names_results_le rest _ inv' inside.tail)).2 pair
        rw [(forall₂_iff_zip.mp tail).2 pair, name_spliceOutput_self inv here packed] at longer
        exact absurd (suffix_longer _) (Nat.not_lt.mpr longer)
      refine ⟨fun u mem packed same => once packed (same ▸ mem), (rest_iff once).mp tail⟩
    · rintro ⟨differ, others⟩
      have once : Packed a out → out ∉ rest := fun packed mem => differ out mem packed rfl
      exact ⟨name_result_kept inv inside, (rest_iff once).mpr others⟩

end Vknn.Import.Layout
