import Vknn.Import.EliminateIdentity

/-!
# Identities that are removed are copies

Before a position is visited, the nodes that are not removed form an ordered program that
gives every graph output what the graph gives it.  Visiting an identity takes a copy out of
that program, under one name or the other.  A removed node still has its outputs, but no
node that is left reads them, unless they are graph outputs.
-/

namespace Vknn.Import

open List Cpu Bool Dataflow Nat Or Option

variable {g : Graph}

def IdentityState.live (st : IdentityState) : List Node := keptFrom st.remove 0 st.nodes

/-- An identity is a copy: it has one output and no epilogue, and the descriptors of its input and of
its output have the same shape and element type. -/
structure CopyNode (g : Graph) (id : Node) : Prop where
  single : id.outputs.length ≤ 1
  bare : id.attr.has (str "pw_steps") = false
  sameType : wholeIdentity id = true →
    SameType g (id.inputs.headD kNoTensor) (id.outputs.headD kNoTensor)

def External (g : Graph) (t : TensorId) : Prop := t ∈ g.inputs ∨ g.isInitializer t = true

instance (g : Graph) (t : TensorId) : Decidable (External g t) :=
  inferInstanceAs (Decidable (t ∈ g.inputs ∨ g.isInitializer t = true))

/-- A graph the pass is run on: the nodes are in order, what they read is there, and identities are
copies. -/
structure IdentityReady (g : Graph) : Prop where
  ordered : signature.Ordered g.nodes
  fed : signature.Fed (fun t => ¬ External g t) g.nodes
  copies : ∀ nd ∈ g.nodes, nd.type = .identity → CopyNode g nd

/-- What holds before a position is visited. -/
structure IdentityInv (g : Graph) (st : IdentityState) (i : Nat) : Prop where
  behind : ∀ j ∈ st.remove, j < i
  ordered : signature.Ordered st.live
  fed : signature.Fed (fun t => ¬ External g t) st.live
  copies : ∀ nd ∈ st.live, nd.type = .identity → CopyNode g nd
  removed : ∀ j ∈ st.remove, ∀ nd, st.nodes[j]? = some nd → ∀ t ∈ nd.outputs,
    t ∈ g.outputs ∨ ∀ n ∈ st.live, t ∉ readsOf n
  runs : ∀ {V : Type} (K : Operators V) e, ∀ t ∈ g.outputs,
    perform K g st.live e t = perform K g g.nodes e t

theorem identityInv_start (ready : IdentityReady g) : IdentityInv g { nodes := g.nodes } 0 := by
  have live : ({ nodes := g.nodes } : IdentityState).live = g.nodes := keptFrom_nil 0 g.nodes
  refine ⟨fun j mem => (nomatch mem), ?_, ?_, ?_, fun j mem => (nomatch mem), ?_⟩
  · rw [live]
    exact ready.ordered
  · rw [live]
    exact ready.fed
  · rw [live]
    exact ready.copies
  · intro V K e t _
    rw [live]

/-! ## Taking an identity out -/

/-- An identity with an input and an output, as a copy. -/
structure WholeCopy (id : Node) (input out : TensorId) : Prop where
  type : id.type = .identity
  inputs : id.inputs.headD kNoTensor = input
  outputs : id.outputs = [out]
  presentIn : input ≠ kNoTensor
  presentOut : out ≠ kNoTensor
  bare : id.attr.has (str "pw_steps") = false

theorem wholeCopy_of_whole {id : Node} (whole : wholeIdentity id = true) (copy : CopyNode g id) :
    WholeCopy id (id.inputs.headD kNoTensor) (id.outputs.headD kNoTensor) := by
  simp only [wholeIdentity, and_eq_true, decide_eq_true_eq, not_eq_true'] at whole
  obtain ⟨⟨⟨⟨type, -⟩, outputs⟩, presentIn⟩, presentOut⟩ := whole
  refine ⟨type, rfl, ?_, presentIn, presentOut, copy.bare⟩
  have single := copy.single
  cases shape : id.outputs with
  | nil =>
    rw [shape] at outputs
    cases outputs
  | cons o rest =>
    rw [shape, length_cons] at single
    obtain rfl := length_eq_zero_iff.mp (by omega : rest.length = 0)
    rfl

namespace WholeCopy

variable {id : Node} {input out : TensorId}

theorem copies (copy : WholeCopy id input out) : signature.Copies id input out := by
  refine ⟨?_, ?_⟩
  · have present : id.inputs.headD kNoTensor ≠ kNoTensor := copy.inputs.symm ▸ copy.presentIn
    have read := mem_readsOf_of_input (headD_mem present) present
    rwa [copy.inputs] at read
  · change id.outputs.filter (· ≠ kNoTensor) = _
    rw [copy.outputs, filter_cons_of_pos (by simp [copy.presentOut]), filter_nil]

/-- An identity gives its output what its input holds. -/
theorem copied (copy : WholeCopy id input out) {V : Type} (K : Operators V)
    (e : TensorId → V) : (operatorMachine K g).value id e out = e input := by
  have present : id.inputs.headD kNoTensor ≠ kNoTensor := copy.inputs.symm ▸ copy.presentIn
  have some : id.inputs.isEmpty = false := by
    cases shape : id.inputs with
    | nil =>
      rw [shape] at present
      exact absurd rfl present
    | cons t rest => rfl
  have plain : plainIdentity id = true := by
    simp [-headD_eq_head?_getD, plainIdentity, copy.type, some, present, copy.bare]
  change (runOperator K g id e).getD (id.outputs.idxOf out) K.unset = _
  rw [runOperator, if_pos plain, copy.outputs, copy.inputs]
  simp

end WholeCopy

variable {t : TensorId} {n : Node}

theorem idxOf_map_of_apart {f : TensorId → TensorId} {ts : List TensorId}
    (apart : ∀ s ∈ ts, f s = f t → s = t) : (ts.map f).idxOf (f t) = ts.idxOf t := by
  induction ts with
  | nil => rfl
  | cons s ts ih =>
    have rest := ih fun u mem => apart u (mem_cons_of_mem _ mem)
    rw [map_cons, idxOf_cons, idxOf_cons, rest]
    by_cases same : s = t
    · rw [same]
      simp
    · have other : f s ≠ f t := fun equal => same (apart s mem_cons_self equal)
      rw [beq_false_of_ne same, beq_false_of_ne other]

variable {front back : List Node} {id : Node} {input out gone kept : TensorId}

/-- A node other than the copy computes what it computed, under the other names. -/
theorem value_renameNode (drops : signature.Drops front id back input out gone kept)
    (present : gone ≠ kNoTensor) (present' : kept ≠ kNoTensor)
    (same : SameType g gone kept ∨ gone ∉ n.outputs) (mem : n ∈ front ++ back) {V : Type}
    (K : Operators V) (e : TensorId → V) (written : t ∈ writesOf n) :
    (operatorMachine K g).value (renameNode gone kept n) e (redirect gone kept t) =
      (operatorMachine K g).value n (fun s => e (redirect gone kept s)) t := by
  have once := drops.result_once mem
  obtain ⟨listed, there⟩ := mem_writesOf.mp written
  have absent : out ≠ kNoTensor → out ∉ n.outputs := fun here again =>
    once (mem_writesOf.mpr ⟨again, here⟩)
  have outPresent : out ≠ kNoTensor := by
    rcases drops.side with ⟨rfl, -⟩ | ⟨-, rfl, -⟩
    · exact present
    · exact present'
  have apart : ∀ s ∈ n.outputs,
      redirect gone kept s = redirect gone kept t → s = t := by
    intro s inside equal
    rcases drops.same equal with equal | ⟨-, rfl⟩ | ⟨rfl, -⟩
    · exact equal
    · exact absurd listed (absent outPresent)
    · exact absurd inside (absent outPresent)
  have position := idxOf_map_of_apart apart
  change (runOperator K g (renameNode gone kept n) e).getD
    ((n.outputs.map (redirect gone kept)).idxOf (redirect gone kept t)) K.unset = _
  rw [position, runOperator_renameNode present present' same]
  rfl

/-! ## One position -/

/-- What happens at a position where an identity is removed: everybody that is left uses the name
that stays, and the other name is no graph output. -/
structure Removes (g : Graph) (st st' : IdentityState) (i : Nat) (id : Node)
    (input out gone kept : TensorId) : Prop where
  here : st.nodes[i]? = some id
  copy : WholeCopy id input out
  sameType : SameType g input out
  side : (gone = out ∧ kept = input) ∨ (gone = input ∧ kept = out ∧ out ∈ g.outputs ∧
    ∃ (p : Nat) (P : Node), p ≠ i ∧ p ∉ st.remove ∧ st.nodes[p]? = some P ∧ input ∈ writesOf P)
  inner : gone ∉ g.outputs
  remove : st'.remove = i :: st.remove
  length : st'.nodes.length = st.nodes.length
  renamed : ∀ (j : Nat) (n : Node), j ∉ i :: st.remove → st.nodes[j]? = some n →
    st'.nodes[j]? = some (renameNode gone kept n)
  outputs : ∀ j ∈ i :: st.remove, st'.nodes[j]?.map (·.outputs) = st.nodes[j]?.map (·.outputs)

variable {st st' : IdentityState} {i : Nat}

theorem Removes.presents (removes : Removes g st st' i id input out gone kept) :
    gone ≠ kNoTensor ∧ kept ≠ kNoTensor ∧ SameType g gone kept := by
  have same := removes.sameType
  rcases removes.side with ⟨rfl, rfl⟩ | ⟨rfl, rfl, -⟩
  · exact ⟨removes.copy.presentOut, removes.copy.presentIn, same.1.symm, same.2.symm⟩
  · exact ⟨removes.copy.presentIn, removes.copy.presentOut, same⟩

theorem Removes.split (removes : Removes g st st' i id input out gone kept)
    (inv : IdentityInv g st i) : ∃ front back, st.live = front ++ id :: back ∧
      st'.live = (front ++ back).map (renameNode gone kept) ∧
      signature.Drops front id back input out gone kept := by
  have alive : i ∉ st.remove := fun gone => lt_irrefl i (inv.behind i gone)
  obtain ⟨front, back, before, after⟩ := keptFrom_drop removes.here alive
  have whole : st.live = front ++ id :: back := before
  refine ⟨front, back, whole, ?_, whole ▸ inv.ordered, removes.copy.copies, ?_⟩
  · rw [← after, ← keptFrom_map, IdentityState.live, removes.remove]
    refine keptFrom_congr (by rw [length_map, removes.length]) fun j live => ?_
    rw [zero_add] at live
    rw [getElem?_map]
    cases found : st.nodes[j]? with
    | none =>
      have beyond := List.getElem?_eq_none_iff.mp found
      rw [getElem?_eq_none (removes.length.symm ▸ beyond)]
      rfl
    | some n => exact removes.renamed j n live found
  · rcases removes.side with names | ⟨goes, stays, -, p, P, other, alive', there, written⟩
    · exact inl names
    · refine inr ⟨goes, stays, P, ?_, written⟩
      rw [← after]
      exact mem_keptFrom.mpr ⟨p, there, by simp [other, alive']⟩

theorem copyNode_renameNode (present : gone ≠ kNoTensor) (present' : kept ≠ kNoTensor)
    (same : SameType g gone kept) {nd : Node} (copy : CopyNode g nd) :
    CopyNode g (renameNode gone kept nd) := by
  have head : ∀ ts : List TensorId, SameType g
      ((ts.map (redirect gone kept)).headD kNoTensor) (ts.headD kNoTensor) := by
    intro ts
    cases ts with
    | nil => exact ⟨rfl, rfl⟩
    | cons t rest =>
      change SameType g (redirect gone kept t) t
      unfold redirect
      split
      · rename_i goes
        rw [goes]
        exact ⟨same.1.symm, same.2.symm⟩
      · exact ⟨rfl, rfl⟩
  refine ⟨?_, copy.bare, fun whole => ?_⟩
  · change (nd.outputs.map _).length ≤ 1
    rw [length_map]
    exact copy.single
  · have before : wholeIdentity nd = true := by
      rw [← whole]
      cases shapeIn : nd.inputs with
      | nil => simp [wholeIdentity, renameNode, shapeIn]
      | cons s rest =>
        cases shapeOut : nd.outputs with
        | nil => simp [wholeIdentity, renameNode, shapeIn, shapeOut]
        | cons o others =>
          have thereIn := not_iff_not.mp (redirect_ne_none present present' s)
          have thereOut := not_iff_not.mp (redirect_ne_none present present' o)
          simp [wholeIdentity, renameNode, shapeIn, shapeOut, thereIn, thereOut]
    have types := copy.sameType before
    have first := head nd.inputs
    have second := head nd.outputs
    exact ⟨(first.1.trans types.1).trans second.1.symm, (first.2.trans types.2).trans second.2.symm⟩

/-- **Removing an identity keeps what holds.** -/
theorem IdentityInv.remove (inv : IdentityInv g st i)
    (removes : Removes g st st' i id input out gone kept) : IdentityInv g st' (i + 1) := by
  obtain ⟨present, present', same⟩ := removes.presents
  obtain ⟨front, back, before, after, drops⟩ := removes.split inv
  have renames : ∀ n ∈ front ++ back, signature.Renames (redirect gone kept) n
      (renameNode gone kept n) := fun n _ => renames_renameNode present present' n
  have inLive : ∀ n ∈ front ++ back, n ∈ st.live := by
    intro n mem
    rw [before]
    rcases mem_append.mp mem with inFront | inBack
    · exact mem_append_left _ inFront
    · exact mem_append_right _ (mem_cons_of_mem _ inBack)
  have idLive : id ∈ st.live := by
    rw [before]
    exact mem_append_right _ mem_cons_self
  refine ⟨?_, ?_, ?_, ?_, ?_, ?_⟩
  · intro j mem
    rw [removes.remove] at mem
    rcases mem_cons.mp mem with rfl | old
    · exact lt_succ_self _
    · exact lt_succ_of_lt (inv.behind j old)
  · rw [after]
    exact drops.ordered_map renames
  · rw [after]
    exact drops.fed_map renames (before ▸ inv.fed)
  · intro nd mem type
    rw [after] at mem
    obtain ⟨n, inside, rfl⟩ := mem_map.mp mem
    exact copyNode_renameNode present present' same (inv.copies n (inLive n inside) type)
  · -- Nobody reads the name that goes, and a removed output that becomes read is a graph output.
    have unread : ∀ t, (∀ n ∈ st.live, t ∉ readsOf n) → t ≠ kept →
        ∀ n ∈ st'.live, t ∉ readsOf n := by
      intro t free other n mem read
      rw [after] at mem
      obtain ⟨n, inside, rfl⟩ := mem_map.mp mem
      have reads : readsOf (renameNode gone kept n) =
          (readsOf n).map (redirect gone kept) := (renames n inside).reads
      rw [reads] at read
      obtain ⟨s, used, rfl⟩ := mem_map.mp read
      by_cases goes : s = gone
      · rw [goes, redirect_gone] at other
        exact other rfl
      · rw [redirect_of_ne goes] at free
        exact free n (inLive n inside) used
    intro j mem nd there t listed
    rw [removes.remove] at mem
    have outputs := removes.outputs j mem
    rw [there, map_some] at outputs
    obtain ⟨n, found, equal⟩ := map_eq_some_iff.mp outputs.symm
    rw [← equal] at listed
    rcases mem_cons.mp mem with rfl | old
    · obtain rfl := some.inj (found.symm.trans removes.here)
      rw [removes.copy.outputs, mem_singleton] at listed
      rcases removes.side with ⟨goes, stays⟩ | ⟨-, -, output, -⟩
      · refine inr fun n mem read => ?_
        rw [after] at mem
        obtain ⟨n, inside, rfl⟩ := mem_map.mp mem
        have reads : readsOf (renameNode gone kept n) =
            (readsOf n).map (redirect gone kept) := (renames n inside).reads
        rw [reads, listed, ← goes] at read
        obtain ⟨s, -, equal⟩ := mem_map.mp read
        by_cases same : s = gone
        · rw [same, redirect_gone] at equal
          exact drops.ne equal.symm
        · rw [redirect_of_ne same] at equal
          exact same equal
      · exact inl (listed ▸ output)
    · rcases inv.removed j old n found t listed with output | free
      · exact inl output
      · rcases removes.side with ⟨-, stays⟩ | ⟨-, stays, output, -⟩
        · refine inr (unread t free fun equal => ?_)
          rw [equal, stays] at free
          exact free id idLive removes.copy.copies.reads
        · by_cases equal : t = kept
          · exact inl (equal ▸ stays ▸ output)
          · exact inr (unread t free equal)
  · intro V K e t output
    have other : t ≠ gone := fun equal => removes.inner (equal ▸ output)
    rw [after, ← inv.runs K e t output, before]
    exact Machine.run_drops (M := operatorMachine K g) drops renames
      (removes.copy.copied K _)
      (fun n mem e t written =>
        value_renameNode drops present present' (inl same) mem K e written)
      other

/-- Two nodes that are left do not write the same tensor. -/
theorem IdentityInv.once (inv : IdentityInv g st i) {j k : Nat} {m : Node}
    (here : st.nodes[j]? = some m) (live : j ∉ st.remove) (there : st.nodes[k]? = some n)
    (live' : k ∉ st.remove) (other : k ≠ j) (written : t ∈ writesOf m) :
    t ∉ writesOf n := by
  obtain ⟨front, back, before, after⟩ := keptFrom_drop here live
  have ordered := inv.ordered
  rw [IdentityState.live, before] at ordered
  have mem : n ∈ front ++ back := by
    rw [← after]
    exact mem_keptFrom.mpr ⟨k, there, by simp [other, live']⟩
  obtain ⟨-, rest, apart⟩ := pairwise_append.mp ordered.before
  intro again
  rcases mem_append.mp mem with inFront | inBack
  · exact (apart n inFront m mem_cons_self t written).2 again
  · exact ((pairwise_cons.mp rest).1 n inBack t again).2 written

theorem map_redirect_of_not_mem {ts : List TensorId} (absent : gone ∉ ts) :
    ts.map (redirect gone kept) = ts := by
  refine (map_congr_left fun t mem => ?_).trans (map_id ts)
  exact redirect_of_ne fun same => absent (same ▸ mem)

theorem renameNode_of_not_written (absent : gone ∉ n.outputs) : renameNode gone kept n = { n with
        inputs := n.inputs.map (redirect gone kept)
        fusedResidual := redirect gone kept n.fusedResidual
        fusedBias := redirect gone kept n.fusedBias } := by
  rw [renameNode, map_redirect_of_not_mem absent]

theorem getElem?_rewireReads (nodes : List Node) (gone kept : TensorId) (j : Nat) :
    (rewireReads nodes gone kept)[j]? = nodes[j]?.map fun nn =>
      { nn with
        inputs := nn.inputs.map (redirect gone kept)
        fusedResidual := redirect gone kept nn.fusedResidual
        fusedBias := redirect gone kept nn.fusedBias } :=
  getElem?_map

theorem otherWriter_eq_some {nodes : List Node} {i p : Nat}
    (found : otherWriter nodes i t = some p) :
    p ≠ i ∧ ∃ P, nodes[p]? = some P ∧ t ∈ P.outputs := by
  have holds := find?_some found
  have small := mem_range.mp (mem_of_find?_eq_some found)
  simp only [and_eq_true, decide_eq_true_eq, contains_iff_mem] at holds
  refine ⟨holds.1, nodes[p], getElem?_eq_getElem small, ?_⟩
  have listed := holds.2
  rwa [getD_eq_getElem?_getD, getElem?_eq_getElem small, getD_some] at listed

/-- **Visiting a position keeps what holds.** -/
theorem identityInv_step (inv : IdentityInv g st i) :
    IdentityInv g (identityStep g st i) (i + 1) := by
  have stays : IdentityInv g st (i + 1) :=
    ⟨fun j mem => lt_succ_of_lt (inv.behind j mem), inv.ordered, inv.fed, inv.copies,
      inv.removed, inv.runs⟩
  unfold identityStep
  cases here : st.nodes[i]? with
  | none => exact stays
  | some id =>
    dsimp only
    cases whole : wholeIdentity id with
    | false => exact stays
    | true =>
      have alive : i ∉ st.remove := fun gone => lt_irrefl i (inv.behind i gone)
      have idLive : id ∈ st.live := mem_keptFrom.mpr ⟨i, here, alive⟩
      have type : id.type = .identity := by
        simp only [wholeIdentity, and_eq_true, decide_eq_true_eq] at whole
        exact whole.1.1.1.1
      have copyNode := inv.copies id idLive type
      have copy := wholeCopy_of_whole whole copyNode
      have sameType := copyNode.sameType whole
      have writes : ∀ t, t = id.outputs.headD kNoTensor → t ∈ writesOf id := by
        rintro t rfl
        refine mem_writesOf.mpr ⟨?_, copy.presentOut⟩
        rw [copy.outputs]
        exact mem_singleton_self _
      rw [if_neg (by simp)]
      by_cases output : id.outputs.headD kNoTensor ∈ g.outputs
      · rw [if_neg (by simp [-headD_eq_head?_getD, output])]
        cases found : otherWriter st.nodes i (id.inputs.headD kNoTensor) with
        | none => exact stays
        | some p =>
          dsimp only
          cases fixed : fixedTensor g (id.inputs.headD kNoTensor) with
          | true => exact stays
          | false =>
            rw [if_neg Bool.false_ne_true]
            obtain ⟨other, P, there, listed⟩ := otherWriter_eq_some found
            have inner : id.inputs.headD kNoTensor ∉ g.outputs := by
              intro mem
              simp [-headD_eq_head?_getD, fixedTensor, mem] at fixed
            -- The writer is left: the copy reads what it writes, and that is no graph output.
            have alive' : p ∉ st.remove := by
              intro gone
              rcases inv.removed p gone P there _ listed with again | free
              · exact inner again
              · exact free id idLive copy.copies.reads
            have written := mem_writesOf.mpr ⟨listed, copy.presentIn⟩
            refine inv.remove ⟨here, copy, sameType,
              inr ⟨rfl, rfl, output, p, P, other, alive', there, written⟩, inner, rfl,
              ?_, fun j n live found => ?_, fun j mem => ?_⟩
            · rw [rewireReads, length_map, length_modify]
            · rw [getElem?_rewireReads]
              by_cases writer : p = j
              · subst writer
                rw [getElem?_modify_eq, found]
                rfl
              · rw [getElem?_modify_ne _ _ writer, found, map_some]
                have live' : j ∉ st.remove := fun gone => live (mem_cons_of_mem _ gone)
                have absent := inv.once there alive' found live' (Ne.symm writer) written
                rw [renameNode_of_not_written fun again => absent
                  (mem_writesOf.mpr ⟨again, copy.presentIn⟩)]
            · rw [getElem?_rewireReads]
              have apart : p ≠ j := by
                rintro rfl
                rcases mem_cons.mp mem with same | gone
                · exact other same
                · exact alive' gone
              rw [getElem?_modify_ne _ _ apart]
              cases st.nodes[j]? <;> rfl
      · rw [if_pos (by simp [-headD_eq_head?_getD, output])]
        refine inv.remove ⟨here, copy, sameType, inl ⟨rfl, rfl⟩, output, rfl, ?_,
          fun j n live found => ?_, fun j mem => ?_⟩
        · rw [rewireReads, length_map]
        · rw [getElem?_rewireReads, found, map_some]
          have apart : j ≠ i := fun same => live (same ▸ mem_cons_self)
          have live' : j ∉ st.remove := fun gone => live (mem_cons_of_mem _ gone)
          have absent := inv.once here alive found live' apart (writes _ rfl)
          rw [renameNode_of_not_written fun again => absent
            (mem_writesOf.mpr ⟨again, copy.presentOut⟩)]
        · rw [getElem?_rewireReads]
          cases st.nodes[j]? <;> rfl

/-! ## The pass -/

theorem identityInv_all (ready : IdentityReady g) (n : Nat) :
    IdentityInv g ((List.range n).foldl (identityStep g) { nodes := g.nodes }) n := by
  induction n with
  | zero => exact identityInv_start ready
  | succ n ih =>
    rw [range_succ, foldl_append, foldl_cons, foldl_nil]
    exact identityInv_step ih

/-- What it is to keep the outputs and the edges of a graph. -/
structure KeepsOutputs (g g' : Graph) : Prop where
  outputs : g'.outputs = g.outputs
  tensors : g'.tensors = g.tensors
  values : ∀ {V : Type} (K : Operators V) e, ∀ t ∈ g.outputs,
    perform K g' g'.nodes e t = perform K g g.nodes e t
  ordered : signature.Ordered g'.nodes
  edges : ∀ nd ∈ g'.nodes, ∀ t ∈ nd.inputs ++ [nd.fusedResidual, nd.fusedBias], t ≠ kNoTensor →
    t ∈ g'.inputs ∨ g'.isInitializer t = true ∨ ∃ p ∈ g'.nodes, t ∈ p.outputs

/-- Identities in front of a node, between it and two graph outputs, and between a graph input and
a graph output. -/
def identityChains : Graph where
  tensors := [{ name := str "x", shape := [4], isInput := true }, { name := str "a", shape := [4] },
    { name := str "b", shape := [4] }, { name := str "y", shape := [4], isOutput := true },
    { name := str "z", shape := [4], isOutput := true },
    { name := str "w", shape := [4], isOutput := true }]
  nodes := [{ type := .identity, inputs := [0], outputs := [1] },
    { type := .relu, inputs := [1], outputs := [2], fusedResidual := 1 },
    { type := .identity, inputs := [2], outputs := [3] },
    { type := .identity, inputs := [2], outputs := [4] },
    { type := .identity, inputs := [0], outputs := [5] }]
  inputs := [0]
  outputs := [3, 4, 5]

end Vknn.Import
