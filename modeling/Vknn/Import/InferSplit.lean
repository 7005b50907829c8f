import Vknn.Cpu.Split
import Vknn.Import.PassesUtil

/-!
# The shapes of a split at load

Shape inference gives every output the input's shape with its own extent on the axis.  Sizes
that are known at load, or that no one gives, are the kernel's, so that the shapes are those
the kernel writes.  Sizes that only a run knows are taken for absent, and equal shares are
inferred in their place.
-/

namespace Vknn

open List Option

namespace Import

/-- The inferred shapes of the outputs; an output without a tensor, or beyond the sizes, has
none. -/
def inferSplit (floatInts : FloatInts) (g : Graph) (nd : Node) : List (Option Shape) :=
  let a := (g.desc (nd.inputs.headD kNoTensor)).shape
  let nout := nd.outputs.length
  let axis := Cpu.splitAxis nd a.length
  if a = [] ∨ axis < 0 ∨ (a.length : Int) ≤ axis then List.replicate nout none
  else
    let extent := a.getD axis.toNat 0
    let given := readI64Param floatInts g nd (str "split") 1
    let sp := if given = [] then List.replicate nout (extent.tdiv nout) else given
    nd.outputs.zipIdx.map fun (o, k) =>
      if o = kNoTensor ∨ sp.length ≤ k then none else some (a.set axis.toNat (sp.getD k 0))

end Import

namespace Cpu

variable {nd : Node} {held : List Int} {shape : Shape} {floatInts : Import.FloatInts} {g : Graph}

/-- Inference and the kernel take the same extents. -/
theorem segment_replicate (sp : List Int) {nout k : Nat} (extent : Int) (output : k < nout)
    (enough : sp ≠ [] → nout ≤ sp.length) :
    k < (if sp = [] then List.replicate nout (extent.tdiv nout) else sp).length ∧
      (if sp = [] then List.replicate nout (extent.tdiv nout) else sp).getD k 0 =
        segment sp nout extent k := by
  by_cases given : sp = []
  · rw [if_pos given, given, segment, if_neg (by simp), length_replicate]
    exact ⟨output, by simp [getD_eq_getElem?_getD, output]⟩
  · have inside : k < sp.length := Nat.lt_of_lt_of_le output (enough given)
    rw [if_neg given, segment, if_pos inside]
    exact ⟨inside, rfl⟩

/-- **The inferred shapes are the written ones** where the sizes are known at load. -/
theorem inferSplit_written {α : Type} (zero : α) (X : List α)
    (valid : SplitValid nd (splitSizes nd held) shape)
    (known : (g.desc (nd.inputs.headD kNoTensor)).shape = shape)
    (loaded : Import.readI64Param floatInts g nd (str "split") 1 = splitSizes nd held)
    {k : Nat} {Y : Shape × List α} (written : (split zero nd held shape X)[k]? = some (some Y)) :
    (Import.inferSplit floatInts g nd)[k]? = some (some Y.1) := by
  rw [split, getElem?_splitFrom, map_eq_some_iff] at written
  obtain ⟨o, listed, written⟩ := written
  split_ifs at written with omitted
  have output := (List.getElem?_eq_some_iff.mp listed).1
  obtain ⟨low, high⟩ := valid.axis
  obtain ⟨inside, extent⟩ := segment_replicate (splitSizes nd held)
    (shape.getD (splitAxis nd shape.length).toNat 0) output fun given => (valid.sizes given).1.ge
  have axes : ¬ (shape = [] ∨ splitAxis nd shape.length < 0 ∨
      (shape.length : Int) ≤ splitAxis nd shape.length) := by
    rintro (rfl | below | above)
    · exact absurd high (by simpa using low)
    · omega
    · omega
  rw [Import.inferSplit, known, loaded]
  dsimp only
  rw [if_neg axes, getElem?_map, getElem?_zipIdx, listed, map_some, map_some, Nat.zero_add]
  dsimp only
  rw [if_neg (by
    rintro (none | short)
    · exact omitted none
    · omega), extent, ← some.inj written, Nat.zero_add]

/-- Two outputs of three rows each. -/
theorem inferSplit_written_even : (Import.inferSplit (fun _ _ => [])
    { tensors := [{ shape := [6, 2] }] } (splitNode [1, 2]))[1]? = some (some [3, 2]) := by
  have valid : SplitValid (splitNode [1, 2]) (splitSizes (splitNode [1, 2]) []) [6, 2] :=
    ⟨by decide, by decide, by decide, fun given => absurd (by decide) given⟩
  have written : ∃ Y, (split 0 (splitNode [1, 2]) [] [6, 2] (List.replicate 12 0))[1]? =
      some (some ([3, 2], Y)) := ⟨_, rfl⟩
  obtain ⟨Y, written⟩ := written
  exact inferSplit_written 0 (List.replicate 12 0) valid rfl rfl written

end Cpu

end Vknn
