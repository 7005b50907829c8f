import Vknn.Vulkan.BufferPlan

/-!
# The pool keeps live tensors apart

A tensor that a segment gets from outside is live from before the first node, one that is read outside
until after the last.  Any other is live from the node that writes it to the last node that uses the
arena it is in.  Two tensors that are in different arenas and share bytes share a slot of the pool, and
the arenas of a slot are used one after the other.  That keeps the tensors apart as long as what is in
the pool comes from the segment and stays there.

Two things break this.  A tensor that a node outside reads as its residual alone is taken for one that
stays in the segment.  And a padding makes the tensor that its data is a renaming of a view of its
output, which may be a tensor from outside or one that is read there.
-/

namespace Vknn.Vulkan.PlanInput

open List

variable (inp : PlanInput) (floatInts : Import.FloatInts) (order : List TensorId)

/-! ## Being live -/

def Placed.SharesBytes (a b : Placed) : Prop :=
  a.memory = b.memory ∧ a.offset < b.offset + b.bytes ∧ b.offset < a.offset + a.bytes

/-- A tensor is read outside of the segment: it is a graph output, or a node of another segment reads
it as an operand, a residual or a bias. -/
def ReadOutside (t : TensorId) : Prop :=
  t ∈ inp.graph.outputs ∨ ∃ q < inp.graph.nodes.length, q ∉ inp.idx ∧ t ∈ (inp.node q).reads

/-- A tensor is live at a position, where a position before the first node and one after the last
count as well. -/
structure LiveAt (t : TensorId) (k : Int) : Prop where
  begun : inp.producedHere t = true →
    ∃ p < inp.idx.length, (p : Int) ≤ k ∧ t ∈ (inp.node (inp.idx.getD p 0)).outputs
  needed : ¬ inp.ReadOutside t → ∃ p < inp.idx.length, k ≤ (p : Int) ∧
    ∃ u ∈ inp.touches p, inp.home floatInts u = inp.home floatInts t

/-- **Live tensors are apart**: two tensors that share bytes and are in different arenas are never
live at once. -/
def LiveApart : Prop :=
  ∀ t ∈ inp.acts, ∀ u ∈ inp.acts, ∀ a b, inp.buffer floatInts order t = some a →
    inp.buffer floatInts order u = some b → a.SharesBytes b →
      inp.home floatInts t ≠ inp.home floatInts u →
        ∀ k, ¬ (inp.LiveAt floatInts t k ∧ inp.LiveAt floatInts u k)

/-! ## What is assumed -/

/-- The nodes of the segment are in dependency order: no node reads what it or a later one writes. -/
def Ordered : Prop :=
  ∀ front ni back, inp.idx = front ++ ni :: back → ∀ t ∈ (inp.node ni).inputs, t ≠ kNoTensor →
    ∀ nj ∈ ni :: back, t ∉ (inp.node nj).outputs

/-- What the segment writes and is read outside is taken for that: it is a graph output or an operand
of a node outside. -/
def OutsideReadsSeen : Prop :=
  ∀ t, inp.producedHere t = true → inp.ReadOutside t → inp.readBack t = true

/-- A tensor that the segment writes and that is not read outside. -/
def Inside (t : TensorId) : Prop := inp.producedHere t = true ∧ inp.readBack t = false

/-- The data of a padding that can be filled around is in a tensor that the segment writes and that is
not read outside. -/
def PadsInside : Prop :=
  ∀ ni ∈ inp.idx, (inp.node ni).type = .pad → ∀ l, inp.padLink floatInts (inp.node ni) = some l →
    inp.padFits floatInts l = true → inp.Inside (inp.rootOf floatInts l.data)

variable {inp floatInts order}

/-! ## Renamings -/

theorem mem_of_headD {l : List TensorId} (present : l.headD kNoTensor ≠ kNoTensor) :
    l.headD kNoTensor ∈ l := by
  cases l with
  | nil => exact absurd rfl present
  | cons x rest => exact mem_cons_self

variable (inp) in
/-- What is known of renamings while nodes are left: a name that has been given away stays in the
segment, what it stands for has not, and no node that is left writes that. -/
structure RenamesOnce (back : List Nat) (aliases : Aliases) : Prop where
  inside : ∀ (t root : TensorId), aliases[t]? = some root → inp.Inside t
  settled : ∀ (t root : TensorId), aliases[t]? = some root → aliases[root]? = none
  past : ∀ (t root : TensorId), aliases[t]? = some root → ∀ nj ∈ back, root ∉ (inp.node nj).outputs
  read : ∀ (t root : TensorId), aliases[t]? = some root → root ≠ kNoTensor ∧
    inp.graph.isInitializer root = false ∧ ∃ ni ∈ inp.idx, root ∈ (inp.node ni).inputs

variable {aliases : Aliases} {t : TensorId} {back : List Nat} {v : Views} {l : SliceLayout}

theorem resolveAlias_of_none (absent : aliases[t]? = none) : resolveAlias aliases t = t := by
  unfold resolveAlias followAlias
  rw [absent]

theorem resolveAlias_of_some {root : TensorId} (renamed : aliases[t]? = some root)
    (settled : aliases[root]? = none) : resolveAlias aliases t = root := by
  unfold resolveAlias followAlias
  rw [renamed]
  dsimp only
  unfold followAlias
  rw [settled]

theorem RenamesOnce.resolve (once : inp.RenamesOnce back aliases)
    (t : TensorId) : aliases[resolveAlias aliases t]? = none ∧
      (resolveAlias aliases t = t ∨ aliases[t]? = some (resolveAlias aliases t)) := by
  cases renamed : aliases[t]? with
  | none =>
    rw [resolveAlias_of_none renamed]
    exact ⟨renamed, .inl rfl⟩
  | some root =>
    rw [resolveAlias_of_some renamed (once.settled t root renamed)]
    exact ⟨once.settled t root renamed, .inr rfl⟩

variable {ni p : Nat} {r : TensorId} {acc : Views × Nat} {b : Placed}

theorem RenamesOnce.aliasNode
    (once : inp.RenamesOnce (ni :: back) aliases) (mem : ni ∈ inp.idx)
    (ordered : ∀ t ∈ (inp.node ni).inputs, t ≠ kNoTensor → ∀ nj ∈ ni :: back,
      t ∉ (inp.node nj).outputs) :
    inp.RenamesOnce back (inp.aliasNode floatInts aliases ni) := by
  have older : inp.RenamesOnce back aliases := ⟨once.inside, once.settled, fun t root here nj among =>
    once.past t root here nj (mem_cons_of_mem _ among), once.read⟩
  unfold PlanInput.aliasNode
  dsimp only
  split
  · rename_i renames
    obtain ⟨src, source⟩ : ∃ src, src = (inp.node ni).inputs.headD kNoTensor := ⟨_, rfl⟩
    obtain ⟨out, result⟩ : ∃ out, out = (inp.node ni).outputs.headD kNoTensor := ⟨_, rfl⟩
    unfold PlanInput.renames at renames
    rw [← source, ← result] at renames ⊢
    simp only [Bool.and_eq_true, decide_eq_true_eq, Bool.not_eq_true', decide_not, ne_eq,
      decide_eq_false_iff_not] at renames
    obtain ⟨⟨⟨⟨⟨⟨⟨⟨⟨-, real⟩, named⟩, loose⟩, written⟩, kept⟩, -⟩, -⟩, -⟩, -⟩ := renames
    have reads : src ∈ (inp.node ni).inputs := source ▸ mem_of_headD (source ▸ real)
    have writes : out ∈ (inp.node ni).outputs := result ▸ mem_of_headD (result ▸ named)
    obtain ⟨root, stands⟩ : ∃ root, root = resolveAlias aliases src := ⟨_, rfl⟩
    obtain ⟨unnamed, chain⟩ := once.resolve src
    rw [← stands] at unnamed chain ⊢
    have past : ∀ nj ∈ ni :: back, root ∉ (inp.node nj).outputs := by
      rcases chain with rfl | before
      · exact ordered root reads real
      · exact once.past src root before
    have known : root ≠ kNoTensor ∧ inp.graph.isInitializer root = false ∧
        ∃ ni ∈ inp.idx, root ∈ (inp.node ni).inputs := by
      rcases chain with rfl | before
      · exact ⟨real, loose, ni, mem, reads⟩
      · exact once.read src root before
    have fresh : ∀ (t r : TensorId), aliases[t]? = some r → r ≠ out := by
      rintro t r before rfl
      exact once.past t r before ni mem_cons_self writes
    have distinct : root ≠ out := by
      rintro rfl
      exact past ni mem_cons_self writes
    have entries : ∀ (t r : TensorId), (aliases.insert out root)[t]? = some r →
        t = out ∧ r = root ∨ aliases[t]? = some r := by
      intro t r here
      rw [Std.ExtTreeMap.getElem?_insert] at here
      split at here
      · rename_i same
        exact .inl ⟨(compare_eq_iff_eq.mp same).symm, (Option.some.inj here).symm⟩
      · exact .inr here
    have absent : ∀ t : TensorId, t ≠ out → aliases[t]? = none →
        (aliases.insert out root)[t]? = none := by
      intro t other before
      rw [Std.ExtTreeMap.getElem?_insert, if_neg fun same => other (compare_eq_iff_eq.mp same).symm]
      exact before
    refine ⟨?_, ?_, ?_, ?_⟩
    · intro t r here
      rcases entries t r here with ⟨rfl, -⟩ | before
      · exact ⟨written, kept⟩
      · exact once.inside t r before
    · intro t r here
      rcases entries t r here with ⟨-, rfl⟩ | before
      · exact absent _ distinct unnamed
      · exact absent r (fresh t r before) (once.settled t r before)
    · intro t r here
      rcases entries t r here with ⟨-, rfl⟩ | before
      · exact fun nj among => past nj (mem_cons_of_mem _ among)
      · exact older.past t r before
    · intro t r here
      rcases entries t r here with ⟨-, rfl⟩ | before
      · exact known
      · exact once.read t r before
  · exact older

theorem RenamesOnce.foldl (ordered : inp.Ordered)
    (once : inp.RenamesOnce back aliases) (front : List Nat) (whole : inp.idx = front ++ back) :
    inp.RenamesOnce [] (back.foldl (inp.aliasNode floatInts) aliases) := by
  induction back generalizing front aliases with
  | nil => exact once
  | cons ni back ih =>
    have mem : ni ∈ inp.idx := whole ▸ mem_append_right _ mem_cons_self
    refine ih (once.aliasNode mem (ordered front ni back whole)) (front ++ [ni]) ?_
    rw [whole, append_assoc, singleton_append]

theorem renamesOnce_aliasRoot (ordered : inp.Ordered) :
    inp.RenamesOnce [] (inp.aliasRoot floatInts) := by
  have start : inp.RenamesOnce inp.idx ∅ := by
    refine ⟨?_, ?_, ?_, ?_⟩ <;> intro t root here <;>
      exact absurd here (by rw [Std.ExtTreeMap.getElem?_empty]; exact Option.some_ne_none root ∘ Eq.symm)
  exact start.foldl ordered [] rfl

theorem rootOf_rootOf (ordered : inp.Ordered) (t : TensorId) :
    inp.rootOf floatInts (inp.rootOf floatInts t) = inp.rootOf floatInts t :=
  resolveAlias_of_none ((renamesOnce_aliasRoot ordered).resolve t).1

/-- A tensor that stands for another is inside, and the other is an activation of the segment. -/
theorem rootOf_cases (ordered : inp.Ordered) (t : TensorId) :
    (inp.aliasRoot floatInts)[t]? = none ∧ inp.rootOf floatInts t = t ∨
      (inp.aliasRoot floatInts)[t]? = some (inp.rootOf floatInts t) ∧ inp.Inside t ∧
        inp.rootOf floatInts t ∈ inp.acts := by
  have once := @renamesOnce_aliasRoot inp floatInts ordered
  cases renamed : (inp.aliasRoot floatInts)[t]? with
  | none => exact .inl ⟨rfl, resolveAlias_of_none renamed⟩
  | some root =>
    have stands : inp.rootOf floatInts t = root :=
      resolveAlias_of_some renamed (once.settled t root renamed)
    obtain ⟨real, loose, ni, mem, reads⟩ := once.read t root renamed
    rw [stands]
    refine .inr ⟨rfl, once.inside t root renamed, ?_⟩
    unfold acts
    refine mem_flatMap.mpr ⟨ni, mem, mem_append_left _ (mem_filter.mpr ?_)⟩
    refine ⟨mem_append_left _ reads, ?_⟩
    simp [real, loose]

/-! ## Views -/

variable (inp) in
/-- Only tensors that the segment writes and that are not read outside are views. -/
def ViewsInside (v : Views) : Prop :=
  ∀ (t : TensorId) (link : TensorId × Nat), v.viewOf[t]? = some link → inp.Inside t

theorem inside_of_memberOk {flat : Bool} (ok : inp.memberOk t flat = true) : inp.Inside t := by
  unfold memberOk at ok
  simp only [Bool.and_eq_true, Bool.not_eq_true'] at ok
  exact ⟨ok.1.1.1.2, ok.1.1.2⟩

theorem ViewsInside.insert (views : inp.ViewsInside v)
    (inside : inp.Inside t) (link : TensorId × Nat) (w : Views)
    (grown : w.viewOf = v.viewOf.insert t link) : inp.ViewsInside w := by
  intro u other here
  rw [grown, Std.ExtTreeMap.getElem?_insert] at here
  split at here
  · rename_i same
    exact compare_eq_iff_eq.mp same ▸ inside
  · exact views u other here

theorem viewOf_claimWrite {w : Views} {parent : TensorId} {first last : Nat}
    (claimed : claimWrite v parent first last = some w) : w.viewOf = v.viewOf := by
  unfold claimWrite at claimed
  split at claimed
  · cases claimed
  · exact Option.some.inj claimed ▸ rfl

theorem viewOf_claimTiles {whole : TensorId} {delta : Nat} {tiles : List SliceRef} {v : Views} :
    (claimTiles whole delta tiles v).2.viewOf = v.viewOf := by
  induction tiles generalizing v with
  | nil => rfl
  | cons s rest ih =>
    unfold claimTiles
    split
    · rfl
    · rename_i w claimed
      exact ih.trans (viewOf_claimWrite claimed)

theorem ViewsInside.linkPad (views : inp.ViewsInside v) (pads : inp.PadsInside floatInts)
    (mem : ni ∈ inp.idx) (type : (inp.node ni).type = .pad) :
    inp.ViewsInside (inp.linkPad floatInts v ni) := by
  unfold PlanInput.linkPad
  split
  · exact views
  · rename_i l planned
    dsimp only
    split
    · exact views
    · rename_i fits
      split
      · exact views
      · rename_i w claimed
        have inside : inp.Inside (inp.rootOf floatInts l.data) := by
          refine pads ni mem type l planned ?_
          by_contra misfit
          exact fits (by simp [misfit])
        refine views.insert inside (l.out, l.offBytes) _ ?_
        rw [viewOf_claimWrite claimed]

theorem ViewsInside.linkSlice (views : inp.ViewsInside v) (ni : Nat) :
    inp.ViewsInside (inp.linkSlice floatInts v ni) := by
  unfold PlanInput.linkSlice
  dsimp only
  split
  · exact views
  · split
    · exact views
    · rename_i checked
      simp only [Bool.or_eq_true, not_or, Bool.not_eq_true', Bool.not_eq_false] at checked
      split
      · exact views
      · split
        · exact views
        · split
          · exact views
          · exact views.insert (inside_of_memberOk checked.2) _ _ rfl

theorem memberOk_of_byRoot {refs : List SliceRef}
    (here : (inp.byRoot floatInts v l)[r]? = some refs) : inp.memberOk r l.flat = true := by
  unfold byRoot at here
  refine List.foldlRecOn (motive := fun found : Std.ExtTreeMap TensorId (List SliceRef) =>
    ∀ refs, found[r]? = some refs → inp.memberOk r l.flat = true) _ _ ?_ ?_ refs here
  · intro refs absurd_
    rw [Std.ExtTreeMap.getElem?_empty] at absurd_
    cases absurd_
  · intro found before si _ refs after
    dsimp only at after
    split at after
    · exact before refs after
    · rename_i checked
      rw [Std.ExtTreeMap.getElem?_insert] at after
      split at after
      · rename_i same
        rw [← compare_eq_iff_eq.mp same]
        simp only [Bool.or_eq_true, not_or, Bool.not_eq_true', Bool.not_eq_false] at checked
        exact checked.1.2
      · exact before refs after

theorem ViewsInside.linkRoot (views : inp.ViewsInside acc.1)
    {root : TensorId × List SliceRef} (ok : inp.memberOk root.1 l.flat = true) :
    inp.ViewsInside (inp.linkRoot l acc root).1 := by
  unfold PlanInput.linkRoot
  dsimp only
  split
  · obtain ⟨delta, moves⟩ : ∃ delta, delta = (root.2.map SliceRef.delta).headD 0 := ⟨_, rfl⟩
    have claimed := @viewOf_claimTiles l.whole delta (root.2.mergeSort fun a b => a.off ≤ b.off) acc.1
    rw [← moves]
    split
    · rename_i w result
      rw [result] at claimed
      refine views.insert (inside_of_memberOk ok) (l.whole, delta) _ ?_
      rw [← claimed]
    · rename_i w result
      rw [result] at claimed
      intro t link here
      exact views t link (claimed ▸ here)
  · exact views

theorem ViewsInside.linkOutput {wholeRoot : TensorId}
    (views : inp.ViewsInside acc.1) (si : Nat) :
    inp.ViewsInside (inp.linkOutput floatInts l wholeRoot acc si).1 := by
  unfold PlanInput.linkOutput
  dsimp only
  split
  · exact views
  · rename_i checked
    simp only [Bool.or_eq_true, not_or, Bool.not_eq_true', Bool.not_eq_false] at checked
    exact views.insert (inside_of_memberOk checked.1.1.1.1) _ _ rfl

theorem ViewsInside.linkSlices (views : inp.ViewsInside v) (ni : Nat) :
    inp.ViewsInside (inp.linkSlices floatInts v ni) := by
  unfold PlanInput.linkSlices
  dsimp only
  split
  · exact views
  · rename_i l laid
    have linked : ∀ acc : Views × Nat, inp.ViewsInside acc.1 → inp.ViewsInside
        (if 0 < acc.2 ∧ acc.2 = l.slices.length then
          { acc.1 with fullyElided := acc.1.fullyElided ++ [ni] } else acc.1) := by
      intro acc inside
      split <;> exact inside
    refine linked _ ?_
    split
    · refine List.foldlRecOn (motive := fun acc : Views × Nat => inp.ViewsInside acc.1) _ _ views ?_
      intro acc inside root mem
      exact inside.linkRoot
        (memberOk_of_byRoot (Std.ExtTreeMap.mem_toList_iff_getElem?_eq_some.mp mem))
    · exact List.foldlRecOn (motive := fun acc : Views × Nat => inp.ViewsInside acc.1) _ _ views
        fun acc inside si _ => inside.linkOutput si

/-- **What is a view stays inside.** -/
theorem viewsInside (pads : inp.PadsInside floatInts) : inp.ViewsInside (inp.views floatInts) := by
  refine List.foldlRecOn (motive := inp.ViewsInside) _ _ ?_ ?_
  · intro t link absurd_
    rw [Std.ExtTreeMap.getElem?_empty] at absurd_
    cases absurd_
  · intro v views ni mem
    unfold linkNode
    split
    · rename_i type
      exact views.linkPad pads mem type
    · exact views.linkSlice ni
    · exact views.linkSlices ni
    · exact views.linkSlices ni
    · exact views

/-! ## Where a tensor is -/

theorem home_of_base (stands : inp.rootOf floatInts t = t)
    (base : (inp.views floatInts).viewOf[t]? = none) : inp.home floatInts t = t := by
  unfold home resolveView
  rw [stands]
  show (followView _ (4095 + 1) t 0).1 = t
  unfold followView
  rw [base]

theorem mem_touches_of_acts (active : t ∈ inp.acts) : ∃ p < inp.idx.length, t ∈ inp.touches p := by
  obtain ⟨ni, mem, among⟩ := mem_flatMap.mp active
  obtain ⟨p, inside, here⟩ := mem_iff_getElem.mp mem
  refine ⟨p, inside, ?_⟩
  have position : inp.idx.getD p 0 = ni := by
    rw [getD_eq_getElem?_getD, getElem?_eq_getElem inside, here, Option.getD_some]
  unfold touches
  rw [position]
  rcases mem_append.mp among with read | written
  · exact mem_append_left _ (mem_filter.mp read).1
  · exact mem_append_right _ (mem_filter.mp written).1

theorem poolable_of_touched (touched : t ∈ inp.touched floatInts p) : inp.poolable t = true :=
  (mem_filter.mp touched).2

theorem inside_of_poolable (poolable : inp.poolable t = true) : inp.Inside t := by
  unfold PlanInput.poolable at poolable
  simp only [Bool.and_eq_true, Bool.not_eq_true'] at poolable
  exact ⟨poolable.1.1.2, poolable.1.2⟩

theorem poolable_of_written
    (written : (inp.producedHere t && !inp.readBack t && !(inp.desc t).storeFp32) = true) :
    inp.poolable t = true := by
  have named : t ≠ kNoTensor := by
    rintro rfl
    simp [producedHere] at written
  unfold PlanInput.poolable
  rw [Bool.and_assoc, Bool.and_assoc, ← Bool.and_assoc (inp.producedHere t), written]
  simp [named]

theorem mem_slots_iff : t ∈ (inp.slots floatInts order).map Prod.fst ↔ t ∈ order := by
  unfold slots
  rw [SlotPool.map_fst_assign]

theorem find_slots_of_mem {t : TensorId} (mem : t ∈ order) :
    ∃ s, ((inp.slots floatInts order).find? fun x => x.1 = t) = some (t, s) := by
  obtain ⟨x, among, rfl⟩ := mem_map.mp (mem_slots_iff.mpr mem)
  obtain ⟨y, found⟩ := Option.isSome_iff_exists.mp
    (find?_isSome.mpr ⟨x, among, decide_eq_true rfl⟩ :
      ((inp.slots floatInts order).find? fun z => z.1 = x.1).isSome = true)
  have same : y.1 = x.1 := of_decide_eq_true (find?_some found :)
  exact ⟨y.2, by rw [found, ← same]⟩

/-- An activation of the segment that stands for itself has a buffer. -/
theorem viewBuffer_isSome (pool : inp.PoolOrder floatInts order)
    (active : t ∈ inp.acts) (stands : inp.rootOf floatInts t = t) :
    ∃ b, inp.viewBuffer floatInts order t = some b := by
  unfold viewBuffer
  dsimp only
  split
  · split
    · split
      · exact ⟨_, rfl⟩
      · exact ⟨_, rfl⟩
    · exact ⟨_, rfl⟩
  · rename_i base
    unfold baseBuffer
    split
    · exact ⟨_, rfl⟩
    · rename_i shared
      have absent : (inp.views floatInts).viewOf[t]? = none := by
        rw [Std.ExtTreeMap.contains_iff_mem] at base
        exact Std.ExtTreeMap.getElem?_eq_none base
      obtain ⟨p, inside, touched⟩ := mem_touches_of_acts active
      have poolable : inp.poolable t = true := by
        by_contra outside
        refine shared ?_
        have refused := mt poolable_of_written outside
        rw [Bool.not_eq_true] at refused base
        unfold dedicated
        rw [refused, base]
        simp [active]
      have ordered : t ∈ order := by
        refine (pool.complete t).mpr ⟨p, inside, mem_filter.mpr ⟨?_, poolable⟩⟩
        exact mem_map.mpr ⟨t, touched, home_of_base stands absent⟩
      obtain ⟨s, found⟩ := @find_slots_of_mem inp floatInts order t ordered
      exact ⟨_, by rw [found]; rfl⟩

/-- A buffer is the one of the tensor that stands for itself. -/
theorem buffer_eq (ordered : inp.Ordered) (pool : inp.PoolOrder floatInts order) (t : TensorId) :
    inp.buffer floatInts order t = inp.viewBuffer floatInts order (inp.rootOf floatInts t) := by
  unfold buffer
  rcases @rootOf_cases inp floatInts ordered t with ⟨unnamed, stands⟩ | ⟨renamed, -, active⟩
  · rw [unnamed, stands]
  · rw [renamed]
    dsimp only
    have again := @rootOf_rootOf inp floatInts ordered t
    obtain ⟨b, present⟩ := viewBuffer_isSome pool active again
    rw [show resolveAlias (inp.aliasRoot floatInts) (inp.rootOf floatInts t) =
      inp.rootOf floatInts t from again, present]
    rfl

/-- Where the buffer of a tensor that stands for itself is: in an allocation for its arena, in one of
its own, or in the slot of its arena; in the last two cases it stays inside. -/
theorem memory_cases (pool : inp.PoolOrder floatInts order) (pads : inp.PadsInside floatInts)
    (stands : inp.rootOf floatInts t = t)
    (placed : inp.viewBuffer floatInts order t = some b) :
    b.memory = .dedicated (inp.home floatInts t) ∨ b.memory = .fallback t ∨
      ∃ s, (inp.home floatInts t, s) ∈ inp.slots floatInts order ∧ b.memory = .slot s.id ∧
        inp.Inside t := by
  have base : ∀ r b, inp.baseBuffer floatInts order r = some b → b.memory = .dedicated r ∨
      ∃ s, (r, s) ∈ inp.slots floatInts order ∧ b.memory = .slot s.id := by
    intro r b found
    unfold baseBuffer at found
    split at found
    · exact .inl (Option.some.inj found ▸ rfl)
    · obtain ⟨x, here, rfl⟩ := Option.map_eq_some_iff.mp found
      have same : x.1 = r := of_decide_eq_true (find?_some here :)
      exact .inr ⟨x.2, same ▸ mem_of_find?_eq_some here, rfl⟩
  unfold viewBuffer at placed
  dsimp only at placed
  split at placed
  · rename_i isView
    have inside : inp.Inside t := by
      obtain ⟨link, here⟩ := Option.isSome_iff_exists.mp
        (Std.ExtTreeMap.isSome_getElem?_iff_mem.mpr (Std.ExtTreeMap.contains_iff_mem.mp isView))
      exact viewsInside pads t link here
    have arena : inp.home floatInts t = (resolveView (inp.views floatInts) t).1 := by
      unfold home
      rw [stands]
    split at placed
    · rename_i c found
      split at placed
      · obtain rfl := Option.some.inj placed
        rw [arena]
        rcases base _ _ found with whole | ⟨s, mem, slot⟩
        · exact .inl whole
        · exact .inr (.inr ⟨s, mem, slot, inside⟩)
      · exact .inr (.inl (Option.some.inj placed ▸ rfl))
    · exact .inr (.inl (Option.some.inj placed ▸ rfl))
  · rename_i isBase
    have absent : (inp.views floatInts).viewOf[t]? = none := by
      rw [Std.ExtTreeMap.contains_iff_mem] at isBase
      exact Std.ExtTreeMap.getElem?_eq_none isBase
    rw [home_of_base stands absent]
    rcases base _ _ placed with whole | ⟨s, mem, slot⟩
    · exact .inl whole
    · obtain ⟨p, -, touched⟩ := (pool.complete t).mp
        (mem_slots_iff.mp (mem_map.mpr ⟨_, mem, rfl⟩))
      exact .inr (.inr ⟨s, mem, slot, inside_of_poolable (poolable_of_touched touched)⟩)

/-! ## Being in a slot -/

/-- Positions in a list that grows are between its ends. -/
theorem bounds_of_mem {l : List Nat} (sorted : l.Pairwise (· < ·)) (mem : p ∈ l) :
    l.headD 0 ≤ p ∧ p ≤ l.getLastD 0 := by
  refine ⟨?_, ?_⟩
  · cases l with
    | nil => cases mem
    | cons first rest =>
      rcases mem_cons.mp mem with rfl | later
      · exact le_rfl
      · exact le_of_lt ((pairwise_cons.mp sorted).1 p later)
  · rcases eq_nil_or_concat' l with rfl | ⟨front, final, rfl⟩
    · cases mem
    · rw [getLastD_concat]
      rcases mem_append.mp mem with before | here
      · exact le_of_lt ((pairwise_append.mp sorted).2.2 p before final mem_cons_self)
      · exact (mem_singleton.mp here).le

theorem uses_bounds {t : TensorId} {p : Nat} (mem : p ∈ inp.uses floatInts t) :
    inp.firstPos floatInts t ≤ p ∧ p ≤ inp.lastPos floatInts t :=
  bounds_of_mem (pairwise_lt_range.filter _) mem

/-- An arena with a slot is used from when what is live in it begins until that is no longer
needed. -/
theorem bounds_of_live (pool : inp.PoolOrder floatInts order) (seen : inp.OutsideReadsSeen)
    (inside : inp.Inside t) (mem : inp.home floatInts t ∈ order) {k : Int}
    (live : inp.LiveAt floatInts t k) :
    (inp.firstPos floatInts (inp.home floatInts t) : Int) ≤ k ∧
      k ≤ inp.lastPos floatInts (inp.home floatInts t) := by
  obtain ⟨_, _, reached⟩ := (pool.complete _).mp mem
  have poolable := poolable_of_touched reached
  have used : ∀ p < inp.idx.length, ∀ u ∈ inp.touches p,
      inp.home floatInts u = inp.home floatInts t →
        p ∈ inp.uses floatInts (inp.home floatInts t) := by
    intro p before u among same
    refine mem_filter.mpr ⟨mem_range.mpr before, contains_iff_mem.mpr ?_⟩
    exact mem_filter.mpr ⟨mem_map.mpr ⟨u, among, same⟩, poolable⟩
  refine ⟨?_, ?_⟩
  · obtain ⟨p, before, bound, written⟩ := live.begun inside.1
    have here := used p before t (mem_append_right _ written) rfl
    exact le_trans (Int.ofNat_le.mpr (uses_bounds here).1) bound
  · have unread : ¬ inp.ReadOutside t := by
      intro outside
      have read := seen t inside.1 outside
      rw [inside.2] at read
      cases read
    obtain ⟨p, before, bound, u, among, same⟩ := live.needed unread
    exact le_trans bound (Int.ofNat_le.mpr (uses_bounds (used p before u among same)).2)

theorem memory_of_buffer (ordered : inp.Ordered) (pool : inp.PoolOrder floatInts order)
    (pads : inp.PadsInside floatInts)
    (placed : inp.buffer floatInts order t = some b) :
    b.memory = .dedicated (inp.home floatInts t) ∨ b.memory = .fallback (inp.rootOf floatInts t) ∨
      ∃ s, (inp.home floatInts t, s) ∈ inp.slots floatInts order ∧ b.memory = .slot s.id ∧
        inp.Inside t := by
  rw [buffer_eq ordered pool] at placed
  have stands := @rootOf_rootOf inp floatInts ordered t
  have arena : inp.home floatInts (inp.rootOf floatInts t) = inp.home floatInts t := by
    unfold home
    rw [stands]
  rcases memory_cases pool pads stands placed with whole | refused | ⟨s, mem, slot, inside⟩
  · exact .inl (arena ▸ whole)
  · exact .inr (.inl refused)
  · refine .inr (.inr ⟨s, arena ▸ mem, slot, ?_⟩)
    rcases @rootOf_cases inp floatInts ordered t with ⟨-, same⟩ | ⟨-, here, -⟩
    · exact same ▸ inside
    · exact here

variable (inp floatInts) in
/-- Two arenas that share a slot are used one after the other. -/
def Separate (x y : TensorId × SlotPool.Slot Room) : Prop :=
  x.2.id = y.2.id → inp.lastPos floatInts x.1 < inp.firstPos floatInts y.1 ∨
    inp.lastPos floatInts y.1 < inp.firstPos floatInts x.1

theorem slots_apart (pool : inp.PoolOrder floatInts order) {r' : TensorId}
    {s s' : SlotPool.Slot Room} (mem : (r, s) ∈ inp.slots floatInts order)
    (mem' : (r', s') ∈ inp.slots floatInts order) (shared : s.id = s'.id) (different : r ≠ r') :
    inp.lastPos floatInts r < inp.firstPos floatInts r' ∨
      inp.lastPos floatInts r' < inp.firstPos floatInts r := by
  have live : ∀ a ∈ order, inp.firstPos floatInts a ≤ inp.lastPos floatInts a := by
    intro a among
    obtain ⟨p, before, touched⟩ := (pool.complete a).mp among
    have bounds := @uses_bounds inp floatInts a p
      (mem_filter.mpr ⟨mem_range.mpr before, contains_iff_mem.mpr touched⟩)
    exact le_trans bounds.1 bounds.2
  have apart : (inp.slots floatInts order).Pairwise (Separate inp floatInts) :=
    (SlotPool.assign_apart pool.sorted live).imp fun one same => .inl (one same)
  have both : Std.Symm (Separate inp floatInts) := ⟨fun x y one same => (one same.symm).symm⟩
  exact apart.forall mem mem' (fun same => different (congrArg Prod.fst same)) shared

/-- **Live tensors are apart**, if what the pool holds comes from the segment and stays there. -/
theorem liveApart_of_inside (ordered : inp.Ordered) (pool : inp.PoolOrder floatInts order)
    (seen : inp.OutsideReadsSeen) (pads : inp.PadsInside floatInts) :
    inp.LiveApart floatInts order := by
  rintro t - u - a b placedT placedU ⟨memory, -, -⟩ different k ⟨liveT, liveU⟩
  rcases memory_of_buffer ordered pool pads placedT with ownT | refusedT | ⟨r, slotT, poolT, insideT⟩
  · rw [ownT] at memory
    rcases memory_of_buffer ordered pool pads placedU with ownU | refusedU | ⟨s, slotU, poolU, -⟩
    · rw [ownU] at memory
      exact different (Memory.dedicated.inj memory)
    · rw [refusedU] at memory
      cases memory
    · rw [poolU] at memory
      cases memory
  · rw [refusedT] at memory
    rcases memory_of_buffer ordered pool pads placedU with ownU | refusedU | ⟨s, slotU, poolU, -⟩
    · rw [ownU] at memory
      cases memory
    · rw [refusedU] at memory
      have same := Memory.fallback.inj memory
      unfold home at different
      exact different (by rw [same])
    · rw [poolU] at memory
      cases memory
  · rw [poolT] at memory
    rcases memory_of_buffer ordered pool pads placedU with
      ownU | refusedU | ⟨s, slotU, poolU, insideU⟩
    · rw [ownU] at memory
      cases memory
    · rw [refusedU] at memory
      cases memory
    · rw [poolU] at memory
      have ordT := mem_slots_iff.mp (mem_map.mpr ⟨_, slotT, rfl⟩)
      have ordU := mem_slots_iff.mp (mem_map.mpr ⟨_, slotU, rfl⟩)
      obtain ⟨beginT, endT⟩ := bounds_of_live pool seen insideT ordT liveT
      obtain ⟨beginU, endU⟩ := bounds_of_live pool seen insideU ordU liveU
      rcases slots_apart pool slotT slotU (Memory.slot.inj memory) different with first | first
      · omega
      · omega

/-! ## Three plans -/

instance (t : TensorId) : Decidable (inp.ReadOutside t) :=
  inferInstanceAs (Decidable (t ∈ inp.graph.outputs ∨
    ∃ q < inp.graph.nodes.length, q ∉ inp.idx ∧ t ∈ (inp.node q).reads))

theorem ordered_of_positions (earlier : ∀ p < inp.idx.length, ∀ q < inp.idx.length, q < p ∨
    ∀ t ∈ (inp.node (inp.idx.getD p 0)).inputs, t = kNoTensor ∨
      t ∉ (inp.node (inp.idx.getD q 0)).outputs) : inp.Ordered := by
  intro front ni back whole t mem real nj among
  obtain ⟨d, inside, here⟩ := mem_iff_getElem.mp among
  have at_p : inp.idx.getD front.length 0 = ni := by
    rw [whole, getD_eq_getElem?_getD, getElem?_append_right le_rfl, Nat.sub_self]
    rfl
  have at_q : inp.idx.getD (front.length + d) 0 = nj := by
    rw [whole, getD_eq_getElem?_getD, getElem?_append_right (Nat.le_add_right _ _),
      Nat.add_sub_cancel_left, getElem?_eq_getElem inside, here, Option.getD_some]
  have size : inp.idx.length = front.length + (ni :: back).length := by rw [whole, length_append]
  have last : 0 < (ni :: back).length := Nat.succ_pos _
  have apart := (earlier front.length (by omega) (front.length + d) (by omega)).resolve_left
    (by omega)
  rw [at_p, at_q] at apart
  exact (apart t mem).resolve_left real

theorem poolOrder_of_touched (nodup : order.Nodup)
    (covers : ∀ p < inp.idx.length, ∀ t ∈ inp.touched floatInts p, t ∈ order)
    (used : ∀ t ∈ order, ∃ p < inp.idx.length, t ∈ inp.touched floatInts p)
    (sorted : order.Pairwise fun a b => inp.firstPos floatInts a ≤ inp.firstPos floatInts b) :
    inp.PoolOrder floatInts order :=
  ⟨nodup, fun t => ⟨used t, fun ⟨p, before, here⟩ => covers p before t here⟩, sorted⟩

theorem outsideReadsSeen_of_acts
    (seen : ∀ t ∈ inp.acts, inp.ReadOutside t → inp.readBack t = true) : inp.OutsideReadsSeen := by
  intro t written
  refine seen t ?_
  unfold producedHere at written
  simp only [Bool.and_eq_true, decide_eq_true_eq, any_eq_true, contains_iff_mem] at written
  obtain ⟨named, ni, mem, among⟩ := written
  refine mem_flatMap.mpr ⟨ni, mem, mem_append_right _ (mem_filter.mpr ⟨among, ?_⟩)⟩
  exact decide_eq_true named

theorem padsInside_of_nodes (inside : ∀ ni ∈ inp.idx, (inp.node ni).type = .pad →
    ∀ l ∈ (inp.padLink floatInts (inp.node ni)).toList, inp.padFits floatInts l = true →
      inp.producedHere (inp.rootOf floatInts l.data) = true ∧
        inp.readBack (inp.rootOf floatInts l.data) = false) : inp.PadsInside floatInts :=
  fun ni mem type l planned fits => inside ni mem type l (by rw [planned]; simp) fits

def noFloats : Import.FloatInts := fun _ _ => []

def padding : Attributes := ⟨Std.ExtTreeMap.ofList [(str "pads", ({ ints := [4, 0] } : Attr))]⟩

/-- A chain of four nodes, whose first result a convolution outside adds as its residual. -/
def residualPlan : PlanInput where
  graph :=
    { tensors := (List.range 6).map fun _ => { shape := [4], gpuFlat := true }
      nodes :=
        [{ type := .relu, inputs := [0], outputs := [1] },
         { type := .relu, inputs := [1], outputs := [2] },
         { type := .relu, inputs := [2], outputs := [3] },
         { type := .relu, inputs := [3], outputs := [4] },
         { type := .conv, inputs := [4], outputs := [5], fusedResidual := 1 }]
      inputs := [0]
      outputs := [5] }
  idx := [0, 1, 2, 3]

/-- Two paddings, the second of which is of what `second` makes of the second input. -/
def padPlan (second : OpType) : PlanInput where
  graph :=
    { tensors := [4, 4, 4, 8, 4, 8, 8, 8].map fun size => { shape := [size], gpuFlat := true }
      nodes :=
        [{ type := .relu, inputs := [0], outputs := [2] },
         { type := .pad, inputs := [2], outputs := [3], attr := padding },
         { type := .relu, inputs := [3], outputs := [6] },
         { type := second, inputs := [1], outputs := [4] },
         { type := .pad, inputs := [4], outputs := [5], attr := padding },
         { type := .add, inputs := [5, 6], outputs := [7] }]
      inputs := [0, 1]
      outputs := [7] }
  idx := [0, 1, 2, 3, 4, 5]

/-- The paddings of two tensors that the segment writes share a slot. -/
theorem liveApart_of_inside_paddings : (padPlan .relu).LiveApart noFloats [3, 6, 5] ∧
      ((padPlan .relu).buffer noFloats [3, 6, 5] 2).map Placed.memory =
        ((padPlan .relu).buffer noFloats [3, 6, 5] 4).map Placed.memory :=
  ⟨liveApart_of_inside (ordered_of_positions (by decide))
    (poolOrder_of_touched (by decide) (by decide) (by decide) (by decide))
    (outsideReadsSeen_of_acts (by decide)) (padsInside_of_nodes (by decide)),
    by decide⟩

/-- **Live tensors are not always apart.**  The third tensor of the chain takes the slot of the first,
which the convolution is yet to read; and the first node of the other plan writes over the second
input, which is renamed and padded. -/
theorem live_not_apart : (residualPlan.Ordered ∧ residualPlan.PoolOrder noFloats [1, 2, 3] ∧
        ¬ residualPlan.LiveApart noFloats [1, 2, 3]) ∧
      (padPlan .reshape).Ordered ∧ (padPlan .reshape).PoolOrder noFloats [3, 6, 5] ∧
        ¬ (padPlan .reshape).LiveApart noFloats [3, 6, 5] := by
  refine ⟨⟨ordered_of_positions (by decide), ?_, ?_⟩,
    ordered_of_positions (by decide), ?_, ?_⟩
  · exact poolOrder_of_touched (by decide) (by decide) (by decide)
      (by decide)
  · intro apart
    have first : residualPlan.LiveAt noFloats 1 2 :=
      ⟨fun _ => ⟨0, by decide, by decide, by decide⟩, fun unread => absurd (by decide) unread⟩
    have third : residualPlan.LiveAt noFloats 3 2 :=
      ⟨fun _ => ⟨2, by decide, by decide, by decide⟩,
        fun _ => ⟨3, by decide, by decide, 3, by decide, rfl⟩⟩
    exact apart 1 (by decide) 3 (by decide) ⟨.slot 0, 0, 16⟩ ⟨.slot 0, 0, 16⟩
      (by decide) (by decide) ⟨rfl, by decide, by decide⟩ (by decide) 2
      ⟨first, third⟩
  · exact poolOrder_of_touched (by decide) (by decide) (by decide)
      (by decide)
  · intro apart
    have input : (padPlan .reshape).LiveAt noFloats 1 0 :=
      ⟨fun written => absurd written (by decide),
        fun _ => ⟨3, by decide, by decide, 1, by decide, rfl⟩⟩
    have result : (padPlan .reshape).LiveAt noFloats 2 0 :=
      ⟨fun _ => ⟨0, by decide, by decide, by decide⟩,
        fun _ => ⟨0, by decide, by decide, 2, by decide, rfl⟩⟩
    exact apart 1 (by decide) 2 (by decide) ⟨.slot 0, 16, 16⟩ ⟨.slot 0, 16, 16⟩
      (by decide) (by decide) ⟨rfl, by decide, by decide⟩ (by decide) 0
      ⟨input, result⟩

end Vknn.Vulkan.PlanInput
