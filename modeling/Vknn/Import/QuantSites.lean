import Vknn.Import.QuantizeWeights
import Vknn.Import.OnnxWalk

/-!
# Where a site keeps its weight

A weight that is quantized is used once, as the second operand of its node.  So two sites never
share a weight, and a bias that is corrected, which is used once as well, is nobody's weight.
Everything else that the pass writes is a tensor it has just made.
-/

namespace Vknn.Import.Quantize

open List Nat Option

variable {g : Graph} {opt : QuantOptions} {s : QuantSite}

/-! ## Uses -/

theorem add_le_sum {α : Type} (f : α → Nat) :
    ∀ (xs : List α) (i j : Nat) (a b : α), i ≠ j → xs[i]? = some a → xs[j]? = some b →
      f a + f b ≤ (xs.map f).sum
  | [], _, _, _, _, _, here, _ => absurd here (by simp)
  | x :: xs, i, j, a, b, apart, here, there => by
    have le_tail {c : α} {n : Nat} (found : xs[n]? = some c) : f c ≤ (xs.map f).sum :=
      single_le_sum (fun _ _ => zero_le _) _
        (mem_map_of_mem (mem_of_getElem? found))
    rw [map_cons, sum_cons]
    match i, j with
    | 0, 0 => exact absurd rfl apart
    | 0, j + 1 =>
      obtain rfl : x = a := Option.some.inj here
      exact Nat.add_le_add_left (le_tail there) _
    | i + 1, 0 =>
      obtain rfl : x = b := Option.some.inj there
      rw [Nat.add_comm]
      exact Nat.add_le_add_left (le_tail here) _
    | i + 1, j + 1 =>
      have rest := add_le_sum f xs i j a b (fun same => apart (congrArg _ same)) here there
      exact rest.trans (le_add_left _ _)

variable {i : Nat} {a b nd : Node}

variable {j : Nat} {t w : TensorId}

theorem two_le_uses (apart : i ≠ j)
    (here : g.nodes[i]? = some a) (there : g.nodes[j]? = some b) (reads : t ∈ a.reads)
    (also : t ∈ b.reads) : 2 ≤ tensorUses g t := by
  have sum := add_le_sum (fun nd => nd.reads.count t) g.nodes i j a b apart here there
  have one := count_pos_iff.mpr reads
  have two := count_pos_iff.mpr also
  unfold tensorUses
  omega

theorem two_le_uses_self (here : g.nodes[i]? = some a)
    (reads : 2 ≤ a.reads.count t) : 2 ≤ tensorUses g t := by
  have le : a.reads.count t ≤ (g.nodes.map fun nd => nd.reads.count t).sum :=
    single_le_sum (fun _ _ => zero_le _) _
      (mem_map_of_mem (f := fun nd : Node => nd.reads.count t) (mem_of_getElem? here))
  unfold tensorUses
  omega

/-- A node with at least two operands, the second of which is a given tensor. -/
def Weighs (nd : Node) (w : TensorId) : Prop := ∃ a rest, nd.inputs = a :: w :: rest

theorem Weighs.mem_reads (weighs : Weighs nd w) : w ∈ nd.reads := by
  obtain ⟨a, rest, inputs⟩ := weighs
  simp [Node.reads, inputs]

theorem biasOf_mem_reads (present : biasOf nd ≠ kNoTensor) :
    biasOf nd ∈ nd.reads.drop 2 ∨ nd.inputs.length < 2 := by
  by_cases short : nd.inputs.length < 2
  · exact .inr short
  · refine .inl ?_
    rw [Node.reads, drop_append_of_le_length (not_lt.mp short), mem_append]
    revert present
    unfold biasOf
    split
    · intro _
      exact .inr (mem_cons_of_mem _ (mem_singleton_self _))
    · split
      · rename_i enough
        intro _
        have inside := enough.trans nd.pwCoreInputs_le
        rw [getD_eq_getElem _ _ inside]
        exact .inl (mem_drop_iff_getElem.mpr ⟨0, by omega, by simp⟩)
      · intro present
        exact absurd rfl present

/-- **A bias that is used once is nobody's weight.** -/
theorem biasOf_ne_weight (here : g.nodes[i]? = some a)
    (there : g.nodes[j]? = some b) (weighs : Weighs b w) (operands : 2 ≤ a.inputs.length)
    (present : biasOf a ≠ kNoTensor) (once : tensorUses g (biasOf a) = 1) : biasOf a ≠ w := by
  rintro same
  have behind := (biasOf_mem_reads present).resolve_right (by omega)
  by_cases apart : i = j
  · subst apart
    obtain rfl : a = b := some.inj (here.symm.trans there)
    obtain ⟨x, rest, inputs⟩ := weighs
    have front : w ∈ a.reads.take 2 := by simp [Node.reads, inputs]
    have twice := two_le_uses_self (t := w) here (by
      rw [← take_append_drop 2 a.reads, count_append]
      have one := count_pos_iff.mpr front
      have two := count_pos_iff.mpr (same ▸ behind)
      omega)
    rw [same] at once
    omega
  · have twice := two_le_uses apart here there (mem_of_mem_drop behind)
      (same ▸ weighs.mem_reads)
    omega

/-! ## What a site says about its graph -/

theorem siteGeometry_spec {wd : TensorDesc} {r : QuantSite}
    (found : siteGeometry nd wd s = some r) :
    r.nodeIdx = s.nodeIdx ∧ r.weight = s.weight ∧
      (s.convChannels = false → r.convChannels = decide (nd.type = .conv)) := by
  unfold siteGeometry at found
  split at found
  · rename_i type _
    obtain rfl := some.inj found
    exact ⟨rfl, rfl, fun flat => by rw [type]; exact flat⟩
  · rename_i type _
    split at found
    · cases found
    · split at found <;> obtain rfl := some.inj found <;>
        exact ⟨rfl, rfl, fun flat => by rw [type]; exact flat⟩
  · rename_i type _
    obtain rfl := some.inj found
    exact ⟨rfl, rfl, fun _ => by rw [type]; rfl⟩
  · cases found

/-- What holds of a site in its graph. -/
structure SiteOf (g : Graph) (s : QuantSite) (nd : Node) : Prop where
  node : g.nodes[s.nodeIdx]? = some nd
  weighs : Weighs nd s.weight
  fresh : nd.attr.has kWq = false
  constant : g.isInitializer s.weight = true
  once : tensorUses g s.weight = 1
  channels : s.convChannels = decide (nd.type = .conv)

theorem weighs_of_operands (operands : 2 ≤ nd.inputs.length) :
    Weighs nd (nd.inputs.getD 1 kNoTensor) := by
  match inputs : nd.inputs with
  | [] | [_] => simp [inputs] at operands
  | a :: w :: rest => exact ⟨a, rest, inputs⟩

theorem siteAt_spec (node : g.nodes[i]? = some nd)
    (found : siteAt g opt i nd = some s) : s.nodeIdx = i ∧ SiteOf g s nd := by
  unfold siteAt at found
  dsimp only at found
  split at found
  · cases found
  split at found
  · cases found
  rename_i usual
  split at found
  · cases found
  rename_i single
  split at found
  · cases found
  split at found
  · cases found
  rename_i r geometry
  split at found
  · cases found
  obtain rfl := some.inj found
  obtain ⟨index, weight, channels⟩ := siteGeometry_spec geometry
  rw [not_or, not_lt, Bool.not_eq_true] at usual
  rw [not_or, not_not, not_not] at single
  dsimp only at index weight
  refine ⟨index, ?_, ?_, usual.2, ?_, ?_, channels rfl⟩
  · rw [index, node]
  · rw [weight]
    exact weighs_of_operands (usual.1.trans nd.pwCoreInputs_le)
  · rw [weight, single.1]
  · rw [weight, single.2]

theorem mem_collectSites (mem : s ∈ collectSites g opt) : ∃ nd, SiteOf g s nd := by
  obtain ⟨i, below, found⟩ := mem_filterMap.mp mem
  rw [mem_range] at below
  rw [getD_eq_getElem _ _ below] at found
  exact ⟨_, (siteAt_spec (getElem?_eq_getElem below) found).2⟩

theorem collectSites_apart (g : Graph) (opt : QuantOptions) :
    (collectSites g opt).Pairwise fun s t => s.nodeIdx ≠ t.nodeIdx := by
  refine pairwise_filterMap.mpr (nodup_range.imp_of_mem fun {i j} i_in j_in apart => ?_)
  rw [mem_range] at i_in j_in
  intro s at_i t at_j
  rw [getD_eq_getElem _ _ i_in] at at_i
  rw [getD_eq_getElem _ _ j_in] at at_j
  rw [(siteAt_spec (getElem?_eq_getElem i_in) at_i).1,
    (siteAt_spec (getElem?_eq_getElem j_in) at_j).1]
  exact apart

theorem SiteOf.weight_ne {t : QuantSite} (here : SiteOf g s a) (there : SiteOf g t b)
    (apart : s.nodeIdx ≠ t.nodeIdx) : s.weight ≠ t.weight := by
  intro same
  have twice := two_le_uses apart here.node there.node here.weighs.mem_reads
    (same ▸ there.weighs.mem_reads)
  rw [here.once] at twice
  omega

end Vknn.Import.Quantize
