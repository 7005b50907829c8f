import Mathlib.Data.List.Perm.Basic
import Vknn.Lib.Dataflow

/-!
# Contracting a program

Several instructions of a program go, and one takes their place.  A position of the program
then keeps its instruction, has another one, or has none.  Groups of positions say which
instructions go together, and what takes their place.

What stands at a position reads only what was read up to there, or what nobody computes, and
its results were results from there on.  So the contracted program is ordered.  If besides
every instruction finds in the run of the whole program what it is to compute, then the two runs
agree on every name that was not given up.
-/

namespace Dataflow

open List

variable {N Id V : Type}

/-- What stands at the positions of a program. -/
def contracted (length : Nat) (F : Nat → Option N) : List N := (List.range length).filterMap F

theorem mem_contracted {length : Nat} {F : Nat → Option N} {n : N} :
    n ∈ contracted length F ↔ ∃ i < length, F i = some n := by
  simp [contracted]

namespace Signature

/-- What may stand at the positions of a program. -/
structure Contracts (S : Signature N Id) (nodes : List N) (F : Nat → Option N) : Prop where
  reads : ∀ {i n}, F i = some n → ∀ t ∈ S.reads n,
    (∃ k m, k ≤ i ∧ nodes[k]? = some m ∧ t ∈ S.reads m) ∨ ∀ m ∈ nodes, t ∉ S.writes m
  writes : ∀ {i n}, F i = some n → ∀ t ∈ S.writes n,
    ∃ k m, i ≤ k ∧ nodes[k]? = some m ∧ t ∈ S.writes m
  once : ∀ {i j a b}, F i = some a → F j = some b → i ≠ j → ∀ t ∈ S.writes b, t ∉ S.writes a

variable {S : Signature N Id} {nodes : List N} {F : Nat → Option N}

/-- What is written later than it is read is written by another instruction, and out of order. -/
theorem Ordered.read_before (ordered : S.Ordered nodes) {i k : Nat} {a b : N} (order : i ≤ k)
    (here : nodes[i]? = some a) (there : nodes[k]? = some b) {t : Id} (written : t ∈ S.writes b) :
    t ∉ S.reads a := by
  obtain ⟨small, rfl⟩ := List.getElem?_eq_some_iff.mp here
  obtain ⟨small', rfl⟩ := List.getElem?_eq_some_iff.mp there
  rcases Nat.eq_or_lt_of_le order with same | before
  · subst same
    exact ordered.self _ (getElem_mem small) t written
  · exact (pairwise_iff_getElem.mp ordered.before i k small small' before t written).1

theorem Contracts.unread (contracts : S.Contracts nodes F) (ordered : S.Ordered nodes)
    {i j : Nat} {a b : N} (order : i ≤ j) (here : F i = some a) (there : F j = some b) {t : Id}
    (written : t ∈ S.writes b) : t ∉ S.reads a := by
  obtain ⟨k, m, later, atLater, made⟩ := contracts.writes there t written
  intro read
  rcases contracts.reads here t read with ⟨l, p, earlier, atEarlier, used⟩ | never
  · exact ordered.read_before (by omega) atEarlier atLater made used
  · exact never m (mem_of_getElem? atLater) made

/-- **The contracted program is ordered.** -/
theorem Contracts.ordered (contracts : S.Contracts nodes F) (ordered : S.Ordered nodes)
    (length : Nat) : S.Ordered (contracted length F) := by
  refine ⟨?_, fun n mem t written => ?_⟩
  · rw [contracted, pairwise_filterMap]
    refine pairwise_lt_range.imp fun {i j} before a here b there t written => ?_
    exact ⟨contracts.unread ordered (Nat.le_of_lt before) here there written,
      contracts.once here there (Nat.ne_of_lt before) t written⟩
  · obtain ⟨i, -, here⟩ := mem_contracted.mp mem
    exact contracts.unread ordered (Nat.le_refl i) here here written

end Signature

/-! ## Putting instructions at positions -/

section Placing

variable {keep : Nat → Option N} {placed : List (Nat × N)}

/-- Some instructions at their positions, and others elsewhere. -/
def placedOr (keep : Nat → Option N) (placed : List (Nat × N)) (i : Nat) : Option N :=
  match placed.lookup i with
  | some n => some n
  | none => keep i

theorem placedOr_cons (i k : Nat) (n : N) :
    placedOr keep ((k, n) :: placed) i = if i = k then some n else placedOr keep placed i := by
  rw [placedOr, lookup_cons]
  by_cases same : i = k
  · rw [if_pos same, beq_iff_eq.mpr same]
  · rw [if_neg same, beq_false_of_ne same, placedOr]

theorem placedOr_eq_some {i : Nat} {n : N} (here : placedOr keep placed i = some n) :
    (i, n) ∈ placed ∨ keep i = some n := by
  induction placed with
  | nil => exact .inr here
  | cons pair placed ih =>
    obtain ⟨k, m⟩ := pair
    rw [placedOr_cons] at here
    split at here
    · rename_i same
      obtain rfl := Option.some.inj here
      exact .inl (same ▸ mem_cons_self)
    · exact (ih here).imp_left (mem_cons_of_mem _)

theorem placedOr_none {i : Nat} (away : ∀ n, (i, n) ∉ placed) : placedOr keep placed i = keep i := by
  induction placed with
  | nil => rfl
  | cons pair placed ih =>
    obtain ⟨k, m⟩ := pair
    rw [placedOr_cons, if_neg, ih fun n mem => away n (mem_cons_of_mem _ mem)]
    rintro rfl
    exact away m mem_cons_self

/-- **Placing instructions where nothing is kept** adds them, whatever the order. -/
theorem contracted_perm {length : Nat} (apart : (placed.map Prod.fst).Nodup)
    (free : ∀ p ∈ placed, p.1 < length ∧ keep p.1 = none) :
    (contracted length (placedOr keep placed)).Perm
      (contracted length keep ++ placed.map Prod.snd) := by
  induction placed with
  | nil =>
    rw [map_nil, append_nil]
    exact List.Perm.refl _
  | cons pair placed ih =>
    obtain ⟨k, n⟩ := pair
    rw [map_cons, nodup_cons] at apart
    obtain ⟨small, none_⟩ := free (k, n) mem_cons_self
    have rest := ih apart.2 fun p mem => free p (mem_cons_of_mem _ mem)
    have absent : placedOr keep placed k = none := by
      rw [placedOr_none fun m mem => apart.1 (mem_map.mpr ⟨(k, m), mem, rfl⟩)]
      exact none_
    obtain ⟨front, back, split⟩ := append_of_mem (mem_range.mpr small)
    have distinct : (front ++ k :: back).Nodup := split ▸ nodup_range
    rw [nodup_append, nodup_cons] at distinct
    have same : ∀ l : List Nat, k ∉ l → l.filterMap (placedOr keep ((k, n) :: placed)) =
        l.filterMap (placedOr keep placed) := by
      refine fun l away => filterMap_congr fun i mem => ?_
      rw [placedOr_cons, if_neg]
      rintro rfl
      exact away mem
    have inFront : k ∉ front := fun mem =>
      distinct.2.2 k mem k mem_cons_self rfl
    have here : placedOr keep ((k, n) :: placed) k = some n := by rw [placedOr_cons, if_pos rfl]
    rw [contracted, split, filterMap_append, filterMap_cons_some here,
      same front inFront, same back distinct.2.1.1, map_cons]
    rw [contracted, split, filterMap_append, filterMap_cons_none absent] at rest
    exact (perm_middle.trans (rest.cons n)).trans perm_middle.symm

end Placing

namespace Machine

variable [DecidableEq Id] {M : Machine N Id V} {nodes nodes' : List N} {gone : Id → Prop}

/-- **A program that gives up some names, and finds in the run of another all that it computes**,
agrees with it on the other names. -/
theorem run_given_up (ordered : M.toSignature.Ordered nodes')
    (unread : ∀ n ∈ nodes', ∀ t ∈ M.reads n, ¬ gone t)
    (written : ∀ n ∈ nodes', ∀ t ∈ M.writes n, ¬ gone t)
    (covered : ∀ n ∈ nodes, ∀ t ∈ M.writes n, ¬ gone t → ∃ n' ∈ nodes', t ∈ M.writes n')
    {e : Id → V} (found : ∀ n ∈ nodes', ∀ t ∈ M.writes n,
      M.value n (M.run nodes e) t = M.run nodes e t) :
    Agree (fun t => ¬ gone t) (M.run nodes e) (M.run nodes' e) := by
  classical
  have final : M.run nodes' e = fun t => if gone t then e t else M.run nodes e t := by
    refine run_unique ordered (fun n mem t made => ?_) fun t untouched => ?_
    · rw [if_neg (written n mem t made), ← found n mem t made]
      refine M.depends n _ _ (fun r read => ?_) t made
      rw [if_neg (unread n mem r read)]
    · split
      · rfl
      · rename_i needed
        refine (M.run_frame (fun n mem made => ?_) e).symm
        obtain ⟨n', inside, made'⟩ := covered n mem t made needed
        exact untouched n' inside made'
  intro t needed
  rw [final]
  exact (if_neg needed).symm

end Machine

/-! ## Groups -/

/-- Positions whose instructions go, and the instruction that takes their place at one of them. -/
structure Group (N : Type) where
  positions : List Nat
  place : Nat
  node : N

def taken (groups : List (Group N)) : List Nat := groups.flatMap Group.positions

theorem mem_taken {groups : List (Group N)} {k : Nat} :
    k ∈ taken groups ↔ ∃ G ∈ groups, k ∈ G.positions := mem_flatMap

def keptAt (nodes : List N) (groups : List (Group N)) (k : Nat) : Option N :=
  if k ∈ taken groups then none else nodes[k]?

/-- The instructions of the groups, where they are placed. -/
def places (groups : List (Group N)) : List (Nat × N) := groups.map fun G => (G.place, G.node)

/-- The program after the groups have been replaced. -/
def regrouped (nodes : List N) (groups : List (Group N)) : List N :=
  contracted nodes.length (placedOr (keptAt nodes groups) (places groups))

/-- A name that a group gives up: one of its instructions wrote it, and its new one does not. -/
def GivenUp (S : Signature N Id) (nodes : List N) (groups : List (Group N)) (t : Id) : Prop :=
  ∃ G ∈ groups, t ∉ S.writes G.node ∧ ∃ k m, k ∈ G.positions ∧ nodes[k]? = some m ∧ t ∈ S.writes m

/-- Groups that may be replaced: they are apart, the new instructions read what was read before or
what nobody computes and write what is written later, and nobody else reads what is given up. -/
structure Groups (S : Signature N Id) (nodes : List N) (groups : List (Group N)) : Prop where
  place : ∀ G ∈ groups, G.place ∈ G.positions
  inside : ∀ G ∈ groups, ∀ k ∈ G.positions, k < nodes.length
  apart : groups.Pairwise fun G G' => ∀ k ∈ G.positions, k ∉ G'.positions
  reads : ∀ G ∈ groups, ∀ t ∈ S.reads G.node,
    (∃ k m, k ≤ G.place ∧ nodes[k]? = some m ∧ t ∈ S.reads m) ∨ ∀ m ∈ nodes, t ∉ S.writes m
  writes : ∀ G ∈ groups, ∀ t ∈ S.writes G.node,
    ∃ k m, k ∈ G.positions ∧ G.place ≤ k ∧ nodes[k]? = some m ∧ t ∈ S.writes m
  unread : ∀ t, GivenUp S nodes groups t →
    (∀ {k m}, nodes[k]? = some m → t ∈ S.reads m → k ∈ taken groups) ∧
      ∀ G ∈ groups, t ∉ S.reads G.node

namespace Groups

variable {S : Signature N Id} {nodes : List N} {groups : List (Group N)}

theorem unique (good : Groups S nodes groups) {G G' : Group N} (mem : G ∈ groups)
    (mem' : G' ∈ groups) {k : Nat} (here : k ∈ G.positions) (here' : k ∈ G'.positions) : G = G' := by
  by_contra other
  have apart : ∀ {A B : Group N}, A ∈ groups → B ∈ groups → A ≠ B →
      (∀ k ∈ A.positions, k ∉ B.positions) := by
    refine fun {A B} inA inB differ =>
      List.Pairwise.forall_of_forall_of_flip
        (R := fun A B : Group N => A ≠ B → ∀ k ∈ A.positions, k ∉ B.positions)
        ?_ ?_ ?_ inA inB differ
    · exact fun A _ same => absurd rfl same
    · exact good.apart.imp fun {A B} apart (_ : A ≠ B) => apart
    · exact good.apart.imp fun {A B} apart (_ : B ≠ A) k inB inA => apart k inA inB
  exact apart mem mem' other k here here'

theorem places_apart (good : Groups S nodes groups) : ((places groups).map Prod.fst).Nodup := by
  have same : (places groups).map Prod.fst = groups.map Group.place := by
    rw [places, map_map]
    rfl
  rw [same]
  refine pairwise_map.mpr (good.apart.imp_of_mem fun {G G'} mem mem' apart equal => ?_)
  exact apart G.place (good.place G mem) (equal ▸ good.place G' mem')

theorem places_free (good : Groups S nodes groups) :
    ∀ p ∈ places groups, p.1 < nodes.length ∧ keptAt nodes groups p.1 = none := by
  intro p mem
  obtain ⟨G, inside, rfl⟩ := mem_map.mp mem
  have here := good.place G inside
  exact ⟨good.inside G inside _ here, if_pos (mem_taken.mpr ⟨G, inside, here⟩)⟩

/-- **What is left, and the new instructions**, are the program after the replacement. -/
theorem perm (good : Groups S nodes groups) : (regrouped nodes groups).Perm
    (contracted nodes.length (keptAt nodes groups) ++ groups.map Group.node) := by
  have same : (places groups).map Prod.snd = groups.map Group.node := by
    rw [places, map_map]
    rfl
  rw [← same]
  exact contracted_perm good.places_apart good.places_free

theorem standing {i : Nat} {n : N} (here : placedOr (keptAt nodes groups) (places groups) i = some n) :
    (∃ G ∈ groups, G.place = i ∧ G.node = n) ∨ i ∉ taken groups ∧ nodes[i]? = some n := by
  rcases placedOr_eq_some here with new | old
  · obtain ⟨G, mem, same⟩ := mem_map.mp new
    rw [Prod.mk.injEq] at same
    exact .inl ⟨G, mem, same⟩
  · unfold keptAt at old
    split at old
    · cases old
    · exact .inr ⟨‹_›, old⟩

theorem contracts (good : Groups S nodes groups) (ordered : S.Ordered nodes) :
    S.Contracts nodes (placedOr (keptAt nodes groups) (places groups)) := by
  have source : ∀ {i n}, placedOr (keptAt nodes groups) (places groups) i = some n →
      ∀ t ∈ S.writes n, ∃ k m, i ≤ k ∧ nodes[k]? = some m ∧ t ∈ S.writes m ∧
        ((k ∉ taken groups ∧ k = i) ∨ ∃ G ∈ groups, G.place = i ∧ k ∈ G.positions) := by
    intro i n here t written
    rcases standing here with ⟨G, mem, rfl, rfl⟩ | ⟨free, old⟩
    · obtain ⟨k, m, inGroup, later, at_, made⟩ := good.writes G mem t written
      exact ⟨k, m, later, at_, made, .inr ⟨G, mem, rfl, inGroup⟩⟩
    · exact ⟨i, n, Nat.le_refl i, old, written, .inl ⟨free, rfl⟩⟩
  refine ⟨fun {i n} here t read => ?_, fun {i n} here t written => ?_,
    fun {i j a b} here there apart t written again => ?_⟩
  · rcases standing here with ⟨G, mem, rfl, rfl⟩ | ⟨-, old⟩
    · exact good.reads G mem t read
    · exact .inl ⟨i, n, Nat.le_refl i, old, read⟩
  · obtain ⟨k, m, later, at_, made, -⟩ := source here t written
    exact ⟨k, m, later, at_, made⟩
  · obtain ⟨k, m, -, at_, made, from_⟩ := source there t written
    obtain ⟨k', m', -, at', made', from'⟩ := source here t again
    obtain rfl : k = k' := by
      by_contra other
      exact ordered.once at_ at' other made made'
    rcases from_ with ⟨free, rfl⟩ | ⟨G, mem, rfl, inGroup⟩
    · rcases from' with ⟨-, rfl⟩ | ⟨G, mem, -, inGroup⟩
      · exact apart rfl
      · exact free (mem_taken.mpr ⟨G, mem, inGroup⟩)
    · rcases from' with ⟨free, -⟩ | ⟨G', mem', rfl, inGroup'⟩
      · exact free (mem_taken.mpr ⟨G, mem, inGroup⟩)
      · exact apart (congrArg Group.place (good.unique mem mem' inGroup inGroup').symm)

/-- **The new program is ordered.** -/
theorem ordered (good : Groups S nodes groups) (ordered : S.Ordered nodes) :
    S.Ordered (regrouped nodes groups) :=
  (good.contracts ordered).ordered ordered nodes.length

/-- **The new program neither reads nor writes what is given up.** -/
theorem closed (good : Groups S nodes groups) (ordered : S.Ordered nodes) {n : N}
    (mem : n ∈ regrouped nodes groups) {t : Id} (named : t ∈ S.reads n ∨ t ∈ S.writes n) :
    ¬ GivenUp S nodes groups t := by
  intro lost
  obtain ⟨i, -, here⟩ := mem_contracted.mp mem
  obtain ⟨readers, fresh⟩ := good.unread t lost
  rcases named with read | written
  · rcases standing here with ⟨G, inside, rfl, rfl⟩ | ⟨free, old⟩
    · exact fresh G inside read
    · exact free (readers old read)
  · obtain ⟨G, inside, unwritten, k, m, inGroup, at_, made⟩ := lost
    rcases standing here with ⟨G', inside', rfl, rfl⟩ | ⟨free, old⟩
    · obtain ⟨k', m', inGroup', -, at', made'⟩ := good.writes G' inside' t written
      obtain rfl : k = k' := by
        by_contra other
        exact ordered.once at_ at' other made made'
      exact unwritten (good.unique inside' inside inGroup' inGroup ▸ written)
    · obtain rfl : k = i := by
        by_contra other
        exact ordered.once at_ old other made written
      exact free (mem_taken.mpr ⟨G, inside, inGroup⟩)

/-- **What is not given up is still written.** -/
theorem covered (good : Groups S nodes groups) {n : N} (mem : n ∈ nodes) {t : Id}
    (written : t ∈ S.writes n) (needed : ¬ GivenUp S nodes groups t) :
    ∃ n' ∈ regrouped nodes groups, t ∈ S.writes n' := by
  obtain ⟨k, small, rfl⟩ := getElem_of_mem mem
  have here := getElem?_eq_getElem small
  by_cases free : k ∈ taken groups
  · obtain ⟨G, inside, inGroup⟩ := mem_taken.mp free
    have still : t ∈ S.writes G.node := by
      by_contra lost
      exact needed ⟨G, inside, lost, k, nodes[k], inGroup, here, written⟩
    refine ⟨G.node, good.perm.mem_iff.mpr (mem_append_right _ ?_), still⟩
    exact mem_map_of_mem inside
  · refine ⟨nodes[k], good.perm.mem_iff.mpr (mem_append_left _ ?_), written⟩
    exact mem_contracted.mpr ⟨k, small, (if_neg free).trans here⟩

/-- **Groups whose new instructions find in the run what they are to compute** may be replaced. -/
theorem run [DecidableEq Id] {M : Machine N Id V} (good : Groups M.toSignature nodes groups)
    (ordered : M.toSignature.Ordered nodes) {e : Id → V}
    (found : ∀ G ∈ groups, ∀ t ∈ M.writes G.node, M.value G.node (M.run nodes e) t = M.run nodes e t) :
    Machine.Agree (fun t => ¬ GivenUp M.toSignature nodes groups t) (M.run nodes e)
      (M.run (regrouped nodes groups) e) := by
  refine Machine.run_given_up (good.ordered ordered)
    (fun n mem t read => good.closed ordered mem (.inl read))
    (fun n mem t written => good.closed ordered mem (.inr written))
    (fun n mem t written needed => good.covered mem written needed) fun n mem t written => ?_
  obtain ⟨i, -, here⟩ := mem_contracted.mp mem
  rcases standing here with ⟨G, inside, -, rfl⟩ | ⟨-, old⟩
  · exact found G inside t written
  · exact (Machine.solved_run ordered e n (mem_of_getElem? old) t written).symm

end Groups

end Dataflow
