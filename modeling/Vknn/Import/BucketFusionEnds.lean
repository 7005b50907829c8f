import Vknn.Import.HandOffs

/-!
# When the fusion of buckets ends

A producer that takes in the very hand-off it gives out puts that input back into the
consumer with every merge, so the pair is merged forever.  Apart from that the merges end,
as long as the names of what producers give out are found in their name indices: a merge
that deletes nothing leaves the first producer something to hand off, so the first producer
never moves back, and it has one hand-off less.
-/

namespace Vknn.Import.BucketFusion

open Relation List

/-! ## The first hand-off -/

theorem findSome?_range_eq_some {β : Type} {f : Nat → Option β} {n : Nat} {v : β} :
    (List.range n).findSome? f = some v ↔ ∃ i < n, f i = some v ∧ ∀ j < i, f j = none := by
  induction n with
  | zero => simp
  | succ n ih =>
    rw [range_succ, findSome?_append, Option.or_eq_some_iff, ih, findSome?_singleton]
    constructor
    · rintro (⟨i, small, here, before⟩ | ⟨none, here⟩)
      · exact ⟨i, small.trans n.lt_succ_self, here, before⟩
      · refine ⟨n, n.lt_succ_self, here, fun j small => ?_⟩
        exact findSome?_eq_none_iff.mp none j (mem_range.mpr small)
    · rintro ⟨i, small, here, before⟩
      rcases Nat.lt_succ_iff_lt_or_eq.mp small with inside | rfl
      · exact Or.inl ⟨i, inside, here, before⟩
      · refine Or.inr ⟨findSome?_eq_none_iff.mpr fun j mem => ?_, here⟩
        exact before j (mem_range.mp mem)

/-- The hand-off that the next merge is made across. -/
structure FirstHandOff (graphs : List Graph) (a b : Nat) (boundary : Str) : Prop where
  producer : a < graphs.length
  consumer : b < graphs.length
  apart : b ≠ a
  spelled : boundaryOf (bucketAt graphs a) (bucketAt graphs b) = boundary
  named : boundary ≠ []
  before : ∀ c < b, c ≠ a → boundaryOf (bucketAt graphs a) (bucketAt graphs c) = []
  earlier : ∀ a' < a, ∀ c < graphs.length, c ≠ a' →
    boundaryOf (bucketAt graphs a') (bucketAt graphs c) = []

variable {graphs : List Graph} {a b : Nat} {boundary : Str} {s s' : Buckets}

theorem firstConsumer_eq_some_iff : firstConsumer graphs a = some (b, boundary) ↔
      (b < graphs.length ∧ b ≠ a ∧ boundaryOf (bucketAt graphs a) (bucketAt graphs b) = boundary ∧
        boundary ≠ []) ∧
      ∀ c < b, c ≠ a → boundaryOf (bucketAt graphs a) (bucketAt graphs c) = [] := by
  unfold firstConsumer
  rw [findSome?_range_eq_some]
  constructor
  · rintro ⟨i, small, here, before⟩
    dsimp only at here
    split at here
    · cases here
    · rename_i good
      obtain ⟨apart, named⟩ := not_or.mp good
      cases here
      refine ⟨⟨small, apart, rfl, named⟩, fun c less other => ?_⟩
      have none := before c less
      dsimp only at none
      split at none
      · rename_i either
        exact either.resolve_left other
      · cases none
  · rintro ⟨⟨small, apart, rfl, named⟩, before⟩
    refine ⟨b, small, if_neg (not_or.mpr ⟨apart, named⟩), fun c less => if_pos ?_⟩
    by_cases same : c = a
    · exact Or.inl same
    · exact Or.inr (before c less same)

theorem firstConsumer_eq_none_iff : firstConsumer graphs a = none ↔ ∀ c < graphs.length, c ≠ a →
      boundaryOf (bucketAt graphs a) (bucketAt graphs c) = [] := by
  unfold firstConsumer
  rw [findSome?_eq_none_iff]
  constructor
  · intro none c small other
    have here := none c (mem_range.mpr small)
    dsimp only at here
    split at here
    · rename_i either
      exact either.resolve_left other
    · cases here
  · intro empty c mem
    refine if_pos ?_
    by_cases same : c = a
    · exact Or.inl same
    · exact Or.inr (empty c (mem_range.mp mem) same)

theorem firstHandOff_eq_some_iff :
    firstHandOff graphs = some (a, b, boundary) ↔ FirstHandOff graphs a b boundary := by
  unfold firstHandOff
  rw [findSome?_range_eq_some]
  constructor
  · rintro ⟨i, small, here, before⟩
    obtain ⟨⟨b', boundary'⟩, found, same⟩ := Option.map_eq_some_iff.mp here
    cases same
    obtain ⟨⟨inside, apart, boundary, named⟩, first⟩ := firstConsumer_eq_some_iff.mp found
    exact ⟨small, inside, apart, boundary, named, first, fun a' less =>
      firstConsumer_eq_none_iff.mp (Option.map_eq_none_iff.mp (before a' less))⟩
  · intro first
    refine ⟨a, first.producer, ?_, fun a' less => ?_⟩
    · rw [firstConsumer_eq_some_iff.mpr ⟨⟨first.consumer, first.apart, first.spelled, first.named⟩,
        first.before⟩]
      rfl
    · rw [firstConsumer_eq_none_iff.mpr (first.earlier a' less)]
      rfl

/-- A producer that hands something off is not before the first one. -/
theorem exists_firstHandOff {c : Nat} (producer : a < graphs.length)
    (consumer : c < graphs.length) (apart : c ≠ a)
    (some : boundaryOf (bucketAt graphs a) (bucketAt graphs c) ≠ []) :
    ∃ a' ≤ a, ∃ b n, FirstHandOff graphs a' b n := by
  cases found : firstHandOff graphs with
  | none =>
    unfold firstHandOff at found
    have none := findSome?_eq_none_iff.mp found a (mem_range.mpr producer)
    exact absurd (firstConsumer_eq_none_iff.mp (Option.map_eq_none_iff.mp none) c consumer apart)
      some
  | some first =>
    obtain ⟨a', b, n⟩ := first
    have first := firstHandOff_eq_some_iff.mp found
    refine ⟨a', ?_, b, n, first⟩
    by_contra later
    exact some (first.earlier a (Nat.lt_of_not_le later) c consumer apart)

/-! ## Names that are found -/

/-- What a graph gives out is found under its name, at its shape. -/
def Resolves (g : Graph) : Prop :=
  ∀ ao ∈ g.outputs, offered g (g.desc ao).name = some (g.desc ao).shape

variable {A C : Graph} {n x : Str}

theorem mem_boundaryNames {g : Graph} :
    x ∈ boundaryNames g g.outputs ↔ ∃ ao ∈ g.outputs, (g.desc ao).name = x := mem_map

theorem Resolves.named (resolves : Resolves A) (sound : Sound A)
    (mem : x ∈ boundaryNames A A.outputs) : x ≠ [] := by
  obtain ⟨ao, out, rfl⟩ := mem_boundaryNames.mp mem
  have here := resolves ao out
  refine (sound.found _ fun absent => ?_).1
  rw [offered, if_pos absent] at here
  cases here

theorem boundaryOf_spec (boundary : boundaryOf A C = n) (named : n ≠ []) :
    n ∈ boundaryNames A A.outputs ∧ handsOff A C n = true := by
  unfold boundaryOf at boundary
  cases found : (boundaryNames A A.outputs).find? (handsOff A C) with
  | none =>
    rw [found] at boundary
    exact absurd boundary.symm named
  | some m =>
    rw [found] at boundary
    cases boundary
    exact ⟨mem_of_find?_eq_some found, find?_some found⟩

theorem boundaryOf_eq_nil_iff (resolves : Resolves A) (sound : Sound A) :
    boundaryOf A C = [] ↔ ∀ x ∈ boundaryNames A A.outputs, handsOff A C x = false := by
  constructor
  · intro empty x mem
    by_contra hands
    have some : ((boundaryNames A A.outputs).find? (handsOff A C)).isSome = true :=
      find?_isSome.mpr ⟨x, mem, by simpa using hands⟩
    obtain ⟨m, found⟩ := Option.isSome_iff_exists.mp some
    unfold boundaryOf at empty
    rw [found] at empty
    exact resolves.named sound (mem_of_find?_eq_some found) empty
  · intro none
    have missing : (boundaryNames A A.outputs).find? (handsOff A C) = Option.none :=
      find?_eq_none.mpr fun x mem => by simp [none x mem]
    unfold boundaryOf
    rw [missing]
    rfl

/-- Somebody still takes from a producer exactly when there is a hand-off left. -/
theorem stillConsumed_iff (resolves : Resolves (bucketAt graphs a)) :
    stillConsumed graphs a = true ↔ ∃ c < graphs.length, c ≠ a ∧
      ∃ x ∈ boundaryNames (bucketAt graphs a) (bucketAt graphs a).outputs,
        handsOff (bucketAt graphs a) (bucketAt graphs c) x = true := by
  unfold stillConsumed
  simp only [any_eq_true, mem_range, Bool.and_eq_true, decide_eq_true_eq, takesIn_iff,
    handsOff_iff, mem_boundaryNames]
  constructor
  · rintro ⟨ao, out, c, small, apart, takes⟩
    exact ⟨c, small, apart, _, ⟨ao, out, rfl⟩, _, resolves ao out, takes⟩
  · rintro ⟨c, small, apart, x, ⟨ao, out, rfl⟩, s, offers, takes⟩
    obtain rfl := Option.some.inj ((resolves ao out).symm.trans offers)
    exact ⟨ao, out, c, small, apart, takes⟩

/-! ## One merge -/

theorem bucketAt_set_self (small : b < graphs.length) (m : Graph) :
    bucketAt (graphs.set b m) b = m := by
  rw [bucketAt, getD_eq_getElem?_getD, getElem?_set_self small, Option.getD_some]

theorem bucketAt_set_ne {c : Nat} (other : c ≠ b) (m : Graph) :
    bucketAt (graphs.set b m) c = bucketAt graphs c := by
  rw [bucketAt, getD_eq_getElem?_getD, getElem?_set_ne other.symm, bucketAt, getD_eq_getElem?_getD]

theorem bucketAt_mem {i : Nat} (small : i < graphs.length) : bucketAt graphs i ∈ graphs := by
  rw [bucketAt, getD_eq_getElem?_getD, getElem?_eq_getElem small, Option.getD_some]
  exact getElem_mem small

/-- The graphs with the producer copied into the consumer. -/
def withMerge (graphs : List Graph) (a b : Nat) (boundary : Str) : List Graph :=
  graphs.set b (mergeProducerInto (bucketAt graphs a) (bucketAt graphs b) boundary)

theorem length_withMerge (graphs : List Graph) (a b : Nat) (boundary : Str) :
    (withMerge graphs a b boundary).length = graphs.length := length_set

theorem mergeStep_eq_some_iff : mergeStep s = some s' ↔ ∃ a b n, FirstHandOff s.graphs a b n ∧
      s' = if stillConsumed (withMerge s.graphs a b n) a
        then { s with graphs := withMerge s.graphs a b n }
        else { graphs := (withMerge s.graphs a b n).eraseIdx a, names := s.names.eraseIdx a } := by
  unfold mergeStep
  rw [Option.map_eq_some_iff]
  constructor
  · rintro ⟨⟨a, b, n⟩, found, rfl⟩
    exact ⟨a, b, n, firstHandOff_eq_some_iff.mp found, rfl⟩
  · rintro ⟨a, b, n, first, rfl⟩
    exact ⟨(a, b, n), firstHandOff_eq_some_iff.mpr first, rfl⟩

def AllIndexed (s : Buckets) : Prop := ∀ g ∈ s.graphs, Indexed g

theorem indexed_withMerge (indexed : ∀ g ∈ graphs, Indexed g)
    (small : b < graphs.length) (boundary : Str) : ∀ g ∈ withMerge graphs a b boundary, Indexed g := by
  intro g mem
  rcases mem_or_eq_of_mem_set mem with old | rfl
  · exact indexed g old
  · exact indexed_mergeProducerInto (indexed _ (bucketAt_mem small)) _ _

theorem allIndexed_mergeStep (step : mergeStep s = some s') (indexed : AllIndexed s) :
    AllIndexed s' := by
  obtain ⟨a, b, n, first, rfl⟩ := mergeStep_eq_some_iff.mp step
  have merged := indexed_withMerge (a := a) indexed first.consumer n
  split
  · exact merged
  · exact fun g mem => merged g (mem_of_mem_eraseIdx mem)

/-- What the consumer takes in after a merge across a hand-off. -/
theorem taken_of_merge (first : FirstHandOff graphs a b n)
    (indexed : ∀ g ∈ graphs, Indexed g) {s : Shape}
    (takes : taken (mergeProducerInto (bucketAt graphs a) (bucketAt graphs b) n) x = some s) :
    ¬Hides (bucketAt graphs a) n x ∧ ((x ≠ n ∧ taken (bucketAt graphs b) x = some s) ∨
      firstInput (bucketAt graphs a) x = some s) := by
  have hands := (boundaryOf_spec first.spelled first.named).2
  obtain ⟨s', offers, took⟩ := handsOff_iff.mp hands
  have makes : (bucketAt graphs a).find n ≠ kNoTensor := by
    intro absent
    rw [offered, if_pos absent] at offers
    cases offers
  have finds : (bucketAt graphs b).find n ≠ kNoTensor := by
    intro absent
    rw [taken, if_neg fun both => both.1 absent] at took
    cases took
  rw [taken_mergeProducerInto (indexed _ (bucketAt_mem first.consumer)).toSound makes finds] at takes
  split at takes
  · cases takes
  · rename_i visible
    refine ⟨visible, ?_⟩
    rcases Option.or_eq_some_iff.mp takes with kept | ⟨-, joined⟩
    · split at kept
      · cases kept
      · rename_i other
        exact Or.inl ⟨other, kept⟩
    · exact Or.inr joined

/-! ## The measure -/

/-- A producer hands a name off that it does not take in itself. -/
def handsOffUnfed (producer consumer : Graph) (x : Str) : Bool :=
  handsOff producer consumer x && firstInput producer x ≠ offered producer x

/-- How many such hand-offs a producer has. -/
def handOffCount (graphs : List Graph) (a : Nat) : Nat :=
  ∑ c ∈ Finset.range graphs.length,
    if c = a then 0
    else (boundaryNames (bucketAt graphs a) (bucketAt graphs a).outputs).countP
      (handsOffUnfed (bucketAt graphs a) (bucketAt graphs c))

/-- How many graphs there are, where the first producer stands, and how much it hands off. -/
def fusionSize (s : Buckets) : Nat × Nat × Nat :=
  match firstHandOff s.graphs with
  | none => (s.graphs.length, 0, 0)
  | some (a, _, _) => (s.graphs.length, a, handOffCount s.graphs a)

def FusionLess : Nat × Nat × Nat → Nat × Nat × Nat → Prop :=
  Prod.Lex (· < ·) (Prod.Lex (· < ·) (· < ·))

theorem wellFounded_fusionLess : WellFounded FusionLess :=
  WellFounded.prod_lex wellFounded_lt (WellFounded.prod_lex wellFounded_lt wellFounded_lt)

theorem countP_lt {α : Type} {p q : α → Bool} {l : List α} (more : ∀ a, p a = true → q a = true)
    {a : α} (mem : a ∈ l) (here : q a = true) (gone : p a = false) :
    l.countP p < l.countP q := by
  obtain ⟨front, back, rfl⟩ := append_of_mem mem
  rw [countP_append, countP_append, countP_cons_of_neg (by simp [gone]), countP_cons_of_pos here]
  have left := countP_mono_left fun b (_ : b ∈ front) => more b
  have right := countP_mono_left fun b (_ : b ∈ back) => more b
  omega

/-- A merge across a hand-off that the producer does not take in itself leaves it one less. -/
theorem handOffCount_withMerge (first : FirstHandOff graphs a b n)
    (indexed : ∀ g ∈ graphs, Indexed g) (unfed : ¬FeedsItself (bucketAt graphs a) n) :
    handOffCount (withMerge graphs a b n) a < handOffCount graphs a := by
  obtain ⟨listed, hands⟩ := boundaryOf_spec first.spelled first.named
  have producer : bucketAt (withMerge graphs a b n) a = bucketAt graphs a :=
    bucketAt_set_ne first.apart.symm _
  have fewer : ∀ x, handsOffUnfed (bucketAt graphs a) (bucketAt (withMerge graphs a b n) b) x = true →
      x ≠ n ∧ handsOffUnfed (bucketAt graphs a) (bucketAt graphs b) x = true := by
    intro x more
    unfold handsOffUnfed at more ⊢
    obtain ⟨here, apart⟩ := Bool.and_eq_true_iff.mp more
    obtain ⟨s, offers, takes⟩ := handsOff_iff.mp here
    rw [withMerge, bucketAt_set_self first.consumer] at takes
    rcases (taken_of_merge first indexed takes).2 with ⟨other, before⟩ | fed
    · exact ⟨other, Bool.and_eq_true_iff.mpr ⟨handsOff_iff.mpr ⟨s, offers, before⟩, apart⟩⟩
    · exact absurd (fed.trans offers.symm) (of_decide_eq_true apart)
  have counted : handsOffUnfed (bucketAt graphs a) (bucketAt graphs b) n = true := by
    refine Bool.and_eq_true_iff.mpr ⟨hands, decide_eq_true fun fed => unfed ?_⟩
    obtain ⟨s, offers, -⟩ := handsOff_iff.mp hands
    exact ⟨s, offers, fed.trans offers⟩
  unfold handOffCount
  rw [length_withMerge, producer]
  refine Finset.sum_lt_sum (fun c _ => ?_) ⟨b, Finset.mem_range.mpr first.consumer, ?_⟩
  · by_cases same : c = b
    · rw [same, if_neg first.apart, if_neg first.apart]
      exact countP_mono_left fun x _ more => (fewer x more).2
    · rw [withMerge, bucketAt_set_ne same]
  · rw [if_neg first.apart, if_neg first.apart]
    refine countP_lt (fun x more => (fewer x more).2) listed counted ?_
    by_contra more
    exact (fewer n (by simpa using more)).1 rfl

/-- **Merges make the measure smaller** when what the producer gives out is found, and it does not
take in the hand-off itself. -/
theorem mergeStep_smaller (step : mergeStep s = some s') (indexed : AllIndexed s)
    (sound : ∀ a b n, FirstHandOff s.graphs a b n →
      Resolves (bucketAt s.graphs a) ∧ ¬FeedsItself (bucketAt s.graphs a) n) :
    FusionLess (fusionSize s') (fusionSize s) := by
  obtain ⟨a, b, n, first, rfl⟩ := mergeStep_eq_some_iff.mp step
  obtain ⟨resolves, unfed⟩ := sound a b n first
  have size : fusionSize s = (s.graphs.length, a, handOffCount s.graphs a) := by
    unfold fusionSize
    rw [firstHandOff_eq_some_iff.mpr first]
  have length : (fusionSize s).1 = s.graphs.length := by rw [size]
  have head : ∀ t : Buckets, (fusionSize t).1 = t.graphs.length := by
    intro t
    unfold fusionSize
    cases firstHandOff t.graphs <;> rfl
  split
  · -- The producer still hands something off, so the first producer is not behind it.
    rename_i consumed
    have producer : bucketAt (withMerge s.graphs a b n) a = bucketAt s.graphs a :=
      bucketAt_set_ne first.apart.symm _
    have inside : a < (withMerge s.graphs a b n).length := by
      rw [length_withMerge]
      exact first.producer
    have resolves' : Resolves (bucketAt (withMerge s.graphs a b n) a) := producer ▸ resolves
    obtain ⟨c, small, apart, x, listed, hands⟩ := (stillConsumed_iff resolves').mp consumed
    have sound' : Sound (bucketAt (withMerge s.graphs a b n) a) :=
      producer ▸ (indexed _ (bucketAt_mem first.producer)).toSound
    have some : boundaryOf (bucketAt (withMerge s.graphs a b n) a)
        (bucketAt (withMerge s.graphs a b n) c) ≠ [] := by
      intro empty
      have none := (boundaryOf_eq_nil_iff resolves' sound').mp empty x listed
      rw [hands] at none
      cases none
    obtain ⟨a', before, b', n', first'⟩ := exists_firstHandOff inside small apart some
    have size' : fusionSize { s with graphs := withMerge s.graphs a b n } =
        (s.graphs.length, a', handOffCount (withMerge s.graphs a b n) a') := by
      unfold fusionSize
      rw [firstHandOff_eq_some_iff.mpr first', length_withMerge]
    rw [size', size]
    refine Prod.Lex.right _ ?_
    rcases Nat.lt_or_eq_of_le before with less | rfl
    · exact Prod.Lex.left _ _ less
    · exact Prod.Lex.right _ (handOffCount_withMerge first indexed unfed)
  · rw [size, ← Prod.mk.eta (p := fusionSize _), head]
    refine Prod.Lex.left _ _ ?_
    rw [length_eraseIdx_of_lt, length_withMerge]
    · have := first.producer
      omega
    · rw [length_withMerge]
      exact first.producer

/-! ## A producer that feeds itself -/

/-- Two searches that both pass what the other finds find the same. -/
theorem find?_unique {α : Type} {p q : α → Bool} {l : List α} {a b : α}
    (first : l.find? p = some a) (second : l.find? q = some b) (left : q a = true)
    (right : p b = true) : a = b := by
  obtain ⟨-, i, small, here, before⟩ := find?_eq_some_iff_getElem.mp first
  obtain ⟨-, j, small', there, earlier⟩ := find?_eq_some_iff_getElem.mp second
  rcases Nat.lt_trichotomy i j with less | same | less
  · have missed := earlier i less
    rw [here, left] at missed
    cases missed
  · subst same
    exact here.symm.trans there
  · have missed := before j less
    rw [there, right] at missed
    cases missed

/-- The names a graph gives out stay, and so do their shapes, as long as they are found. -/
theorem handsOff_merged {src dst C : Graph} {x : Str} (sound : Sound dst)
    (resolves : Resolves dst) (resolves' : Resolves (mergeProducerInto src dst boundary))
    (mem : x ∈ boundaryNames (mergeProducerInto src dst boundary)
      (mergeProducerInto src dst boundary).outputs)
    (hands : handsOff (mergeProducerInto src dst boundary) C x = true) :
    x ∈ boundaryNames dst dst.outputs ∧ handsOff dst C x = true := by
  obtain ⟨outputs, kept⟩ := outputs_mergeProducerInto sound src boundary
  obtain ⟨ao, out, name⟩ := mem_boundaryNames.mp mem
  have out' : ao ∈ dst.outputs := outputs ▸ out
  obtain ⟨name', shape'⟩ := kept ao out'
  obtain ⟨s, offers, takes⟩ := handsOff_iff.mp hands
  have same : (dst.desc ao).name = x := name'.symm.trans name
  refine ⟨mem_boundaryNames.mpr ⟨ao, out', same⟩, handsOff_iff.mpr ⟨s, ?_, takes⟩⟩
  have here := resolves' ao out
  rw [name, offers, shape'] at here
  rw [← same, resolves ao out', here]

theorem handsOff_withMerge_self (first : FirstHandOff graphs a b n)
    (indexed : ∀ g ∈ graphs, Indexed g) {s : Shape} (offers : offered (bucketAt graphs a) n = some s)
    (own : firstInput (bucketAt graphs a) n = some s) :
    handsOff (bucketAt graphs a) (mergeProducerInto (bucketAt graphs a) (bucketAt graphs b) n) n =
      true := by
  obtain ⟨-, hands⟩ := boundaryOf_spec first.spelled first.named
  obtain ⟨s', -, took⟩ := handsOff_iff.mp hands
  refine handsOff_iff.mpr ⟨s, offers, ?_⟩
  rw [taken_mergeProducerInto (indexed _ (bucketAt_mem first.consumer)).toSound, if_neg, if_pos rfl,
    own]
  · rfl
  · rintro ⟨-, t, -, -, other, same⟩
    exact other same
  · intro absent
    rw [offered, if_pos absent] at offers
    cases offers
  · intro absent
    rw [taken, if_neg fun both => both.1 absent] at took
    cases took

theorem find?_of_boundaryOf (boundary : boundaryOf A C = n) (named : n ≠ []) :
    (boundaryNames A A.outputs).find? (handsOff A C) = some n := by
  unfold boundaryOf at boundary
  cases found : (boundaryNames A A.outputs).find? (handsOff A C) with
  | none =>
    rw [found] at boundary
    exact absurd boundary.symm named
  | some m =>
    rw [found] at boundary
    cases boundary
    rfl

/-- **After a merge across a hand-off that the producer takes in itself, the next merge is of the
same two graphs, and of that kind.** -/
theorem firstHandOff_withMerge (first : FirstHandOff graphs a b n)
    (indexed : ∀ g ∈ graphs, Indexed g) (resolves : ∀ g ∈ graphs, Resolves g)
    (resolves' : ∀ g ∈ withMerge graphs a b n, Resolves g)
    (fed : FeedsItself (bucketAt graphs a) n) :
    ∃ m, FirstHandOff (withMerge graphs a b n) a b m ∧
      FeedsItself (bucketAt (withMerge graphs a b n) a) m := by
  obtain ⟨listed, hands⟩ := boundaryOf_spec first.spelled first.named
  obtain ⟨s, offers, own⟩ := fed
  have producer : bucketAt (withMerge graphs a b n) a = bucketAt graphs a :=
    bucketAt_set_ne first.apart.symm _
  have consumer : bucketAt (withMerge graphs a b n) b =
      mergeProducerInto (bucketAt graphs a) (bucketAt graphs b) n :=
    bucketAt_set_self first.consumer _
  have other : ∀ c, c ≠ b → bucketAt (withMerge graphs a b n) c = bucketAt graphs c :=
    fun c apart => bucketAt_set_ne apart _
  have indexedA := indexed _ (bucketAt_mem first.producer)
  have indexedB := indexed _ (bucketAt_mem first.consumer)
  have resolvesA := resolves _ (bucketAt_mem first.producer)
  have again := handsOff_withMerge_self first indexed offers own
  have took : taken (bucketAt graphs b) n = some s := by
    obtain ⟨s', offers', takes⟩ := handsOff_iff.mp hands
    rw [takes, ← offers', offers]
  have some : boundaryOf (bucketAt graphs a)
      (mergeProducerInto (bucketAt graphs a) (bucketAt graphs b) n) ≠ [] := by
    intro empty
    have none := (boundaryOf_eq_nil_iff resolvesA indexedA.toSound).mp empty n listed
    rw [again] at none
    cases none
  refine ⟨_, ⟨?_, ?_, first.apart, rfl, ?_, ?_, ?_⟩, ?_⟩
  · rw [length_withMerge]
    exact first.producer
  · rw [length_withMerge]
    exact first.consumer
  · rw [producer, consumer]
    exact some
  · intro c before apart
    rw [producer, other c before.ne]
    exact first.before c before apart
  · intro a' before c small apart
    rw [length_withMerge] at small
    have inside : a' < graphs.length := before.trans first.producer
    have none := first.earlier a' before c small apart
    by_cases same : a' = b
    · -- The consumer gives out what it gave out before.
      have inside' : b < (withMerge graphs a b n).length := by
        rw [length_withMerge]
        exact first.consumer
      have mem := bucketAt_mem inside'
      rw [consumer] at mem
      have indexed' := indexed_mergeProducerInto indexedB (bucketAt graphs a) n
      have resolvesB := resolves _ (bucketAt_mem first.consumer)
      subst same
      rw [other c apart, consumer, boundaryOf_eq_nil_iff (resolves' _ mem) indexed'.toSound]
      intro x listed'
      by_contra hands'
      obtain ⟨listed'', hands''⟩ := handsOff_merged indexedB.toSound resolvesB (resolves' _ mem)
        listed' (by simpa using hands')
      have missing := (boundaryOf_eq_nil_iff resolvesB indexedB.toSound).mp none x listed''
      rw [hands''] at missing
      cases missing
    · rw [other a' same]
      by_cases consumes : c = b
      · subst consumes
        have indexed' := indexed _ (bucketAt_mem inside)
        have resolves'' := resolves _ (bucketAt_mem inside)
        rw [consumer, boundaryOf_eq_nil_iff resolves'' indexed'.toSound]
        intro x listed'
        by_contra hands'
        obtain ⟨s', offers', takes⟩ := handsOff_iff.mp (by simpa using hands')
        -- It is taken in already, or by the producer, before this merge.
        have already : ∀ d < graphs.length, d ≠ a' → taken (bucketAt graphs d) x = Option.some s' →
            False := by
          intro d small' apart' takes'
          have empty := first.earlier a' before d small' apart'
          have missing := (boundaryOf_eq_nil_iff resolves'' indexed'.toSound).mp empty x listed'
          rw [handsOff_iff.mpr ⟨s', offers', takes'⟩] at missing
          cases missing
        obtain ⟨visible, kept | joined⟩ := taken_of_merge first indexed takes
        · exact already c small apart kept.2
        · by_cases boundary : x = n
          · subst boundary
            refine already c small apart ?_
            rw [took, ← own, joined]
          · have named := resolves''.named indexed'.toSound listed'
            refine already a first.producer before.ne' ?_
            rw [← indexedA.indexes x named fun t inside' name => ?_, joined]
            by_contra unread
            exact visible ⟨named, t, mem_tensorIds.mpr inside', unread, fun spelled => boundary
              (name.symm.trans spelled), name⟩
      · rw [other c consumes]
        exact none
  · rw [producer, consumer]
    obtain ⟨-, hands'⟩ := boundaryOf_spec rfl some
    obtain ⟨s', offers', takes⟩ := handsOff_iff.mp hands'
    obtain ⟨-, kept | joined⟩ := taken_of_merge first indexed takes
    · -- The first hand-off that is left is the one that was merged.
      have found := find?_of_boundaryOf first.spelled first.named
      have found' := find?_of_boundaryOf rfl some
      have same := find?_unique found found' again (handsOff_iff.mpr ⟨s', offers', kept.2⟩)
      exact absurd same.symm kept.1
    · exact ⟨s', offers', joined⟩

/-! ## The pass returns -/

def FusionReturns (buckets : Buckets) : Prop :=
  ∃ fuel result, fuseBucketBoundaries fuel buckets = some result

def FusionReaches (buckets s : Buckets) : Prop := Loop.Reaches mergeStep buckets s

theorem fusionReturns_iff (buckets : Buckets) : FusionReturns buckets ↔ Loop.Ends mergeStep buckets := by
  unfold FusionReturns fuseBucketBoundaries
  by_cases few : buckets.graphs.length < 2
  · refine ⟨fun _ => Loop.ends_of_declined ?_, fun _ => ⟨0, buckets, if_pos few⟩⟩
    cases next : mergeStep buckets with
    | none => rfl
    | some s' =>
      obtain ⟨a, b, n, first, -⟩ := mergeStep_eq_some_iff.mp next
      have := first.producer
      have := first.consumer
      have := first.apart
      omega
  · simp only [if_neg few]
    constructor
    · rintro ⟨fuel, result, found⟩
      obtain ⟨last, ended, -⟩ := Option.map_eq_some_iff.mp found
      exact ⟨fuel, last, ended⟩
    · rintro ⟨fuel, last, ended⟩
      exact ⟨fuel, _, Option.map_eq_some_iff.mpr ⟨last, ended, rfl⟩⟩

theorem allIndexed_reaches {buckets : Buckets} (reaches : FusionReaches buckets s)
    (indexed : AllIndexed buckets) : AllIndexed s :=
  Loop.Reaches.keeps reaches (fun _ _ => allIndexed_mergeStep) indexed

/-- A run in which a producer takes in its own hand-off does not end, when every name that graphs
give out is found. -/
theorem not_ends_of_fed {buckets : Buckets} (indexed : AllIndexed buckets)
    (resolves : ∀ s, FusionReaches buckets s → ∀ g ∈ s.graphs, Resolves g)
    (reaches : FusionReaches buckets s) {n : Str} (first : FirstHandOff s.graphs a b n)
    (fed : FeedsItself (bucketAt s.graphs a) n) : ¬Loop.Ends mergeStep s := by
  refine Loop.not_ends_of_forever (P := fun s => FusionReaches buckets s ∧ ∃ a b n,
    FirstHandOff s.graphs a b n ∧ FeedsItself (bucketAt s.graphs a) n) ?_
    ⟨reaches, a, b, n, first, fed⟩
  clear reaches first fed
  rintro s ⟨reaches, a, b, n, first, fed⟩
  have indexed' := allIndexed_reaches reaches indexed
  have producer : bucketAt (withMerge s.graphs a b n) a = bucketAt s.graphs a :=
    bucketAt_set_ne first.apart.symm _
  have resolvesA := resolves s reaches _ (bucketAt_mem first.producer)
  have consumed : stillConsumed (withMerge s.graphs a b n) a = true := by
    obtain ⟨shape, offers, own⟩ := fed
    refine (stillConsumed_iff (producer ▸ resolvesA)).mpr ⟨b, ?_, first.apart, n, ?_, ?_⟩
    · rw [length_withMerge]
      exact first.consumer
    · rw [producer]
      exact (boundaryOf_spec first.spelled first.named).1
    · rw [producer, withMerge, bucketAt_set_self first.consumer]
      exact handsOff_withMerge_self first indexed' offers own
  have step : mergeStep s = some { s with graphs := withMerge s.graphs a b n } :=
    mergeStep_eq_some_iff.mpr ⟨a, b, n, first, by rw [if_pos consumed]⟩
  have reaches' : FusionReaches buckets { s with graphs := withMerge s.graphs a b n } :=
    reaches.tail step
  obtain ⟨m, first', fed'⟩ := firstHandOff_withMerge first indexed' (resolves s reaches)
    (resolves _ reaches') fed
  exact ⟨_, step, reaches', a, b, m, first', fed'⟩

def activation (input output : Str) : Graph :=
  { ((addInput {} { name := input, isInput := true }).addTensor
      { name := output, isOutput := true }).1 with
    nodes := [{ type := .relu, inputs := [0], outputs := [1] }], outputs := [1] }

theorem indexed_activation (input output : Str) : Indexed (activation input output) := by
  refine ((indexed_empty.addInput _ ?_).addInternal _).setBody _ fun ao mem => ?_
  · exact if_neg fun both => both.1 (congrArg (·.getD kNoTensor) Std.ExtTreeMap.getElem?_empty)
  · rw [mem_singleton.mp mem]
    exact ⟨Int.one_nonneg, Int.ofNat_lt.mpr Nat.one_lt_two⟩

/-- An embedding lookup that is handed to a decoder. -/
def chainedPair : Buckets where
  graphs := [activation (str "ids") (str "embeds"), activation (str "embeds") (str "logits")]
  names := [str "embed", str "decoder"]

/-- A recurrence under one name, and a reader of its result. -/
def recurrentPair : Buckets where
  graphs := [activation (str "h") (str "h"), activation (str "h") (str "y")]
  names := [str "cell", str "head"]

theorem mergeStep_chainedPair :
    (mergeStep chainedPair).map (fun s => firstHandOff s.graphs) = some none := by
  decide

end Vknn.Import.BucketFusion
