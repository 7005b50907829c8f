import Mathlib.Data.List.Nodup
import Mathlib.Data.List.Perm.Basic
import Mathlib.Data.Nat.Basic

/-!
# A pool of slots for intervals

Items that are live over intervals get slots in the order in which they begin.  A slot comes back when
the item it holds has ended before the next one begins, and a free slot is taken where one is chosen;
else there is a new one.  Two items that get one slot are then never live at once.

Slots are removed from a list by moving the last one into the gap, so their order is no help: the
argument goes by the permutations of the lists.
-/

namespace SlotPool

open List Option

/-! ## Removing by the last -/

/-- Remove a position of a list by moving the last entry there. -/
def removeSwap {γ : Type} (l : List γ) (i : Nat) : List γ :=
  match l.getLast? with
  | none => l
  | some back => (l.set i back).dropLast

theorem perm_removeSwap {γ : Type} {l : List γ} {i : Nat} {s : γ} (at_i : l[i]? = some s) :
    (s :: removeSwap l i).Perm l := by
  rcases eq_nil_or_concat' l with rfl | ⟨front, back, rfl⟩
  · cases at_i
  · unfold removeSwap
    rw [getLast?_concat]
    dsimp only
    by_cases inside : i < front.length
    · rw [getElem?_append_left inside] at at_i
      obtain ⟨_, rfl⟩ := List.getElem?_eq_some_iff.mp at_i
      rw [set_append_left _ _ inside, dropLast_concat]
      refine ((set_perm_cons_eraseIdx inside back).cons _).trans ?_
      refine (List.Perm.swap _ _ _).trans ?_
      refine ((getElem_cons_eraseIdx_perm inside).cons back).trans ?_
      exact (perm_append_singleton back front).symm
    · rw [getElem?_append_right (not_lt.mp inside)] at at_i
      obtain ⟨last, _⟩ := List.getElem?_eq_some_iff.mp at_i
      have position : i = front.length := by
        rw [length_singleton] at last
        omega
      subst position
      rw [Nat.sub_self] at at_i
      obtain rfl := some.inj at_i
      rw [set_append_right _ _ le_rfl, Nat.sub_self]
      simpa using (perm_append_singleton back front).symm

/-! ## The pool -/

variable {α β : Type}

/-- A slot: the position after which its item is dead, and what can be put into it. -/
structure Slot (β : Type) where
  id : Nat
  deadAt : Nat
  room : β

structure Pool (β : Type) where
  busy : List (Slot β) := []
  free : List (Slot β) := []
  next : Nat := 0

/-- Move the busy slots from a position on whose items are dead before `p` to the free ones. -/
def retire (p : Nat) : Nat → Nat → List (Slot β) → List (Slot β) → List (Slot β) × List (Slot β)
  | 0, _, busy, free => (busy, free)
  | fuel + 1, i, busy, free =>
    match busy[i]? with
    | none => (busy, free)
    | some s =>
      if s.deadAt < p then retire p fuel i (removeSwap busy i) (free ++ [s])
      else retire p fuel (i + 1) busy free

section Assign

variable (first last : α → Nat) (choose : α → List (Slot β) → Option Nat) (fresh : α → β)

/-- Give an item a slot: the free one that is chosen, or a new one. -/
def place (pool : Pool β) (a : α) : Pool β × Slot β :=
  let swept := retire (first a) pool.busy.length 0 pool.busy pool.free
  match (choose a swept.2).bind fun i => (swept.2[i]?).map fun s => (i, s) with
  | some (i, s) =>
    let taken := { s with deadAt := last a }
    ({ pool with busy := swept.1 ++ [taken], free := removeSwap swept.2 i }, taken)
  | none =>
    let made : Slot β := ⟨pool.next, last a, fresh a⟩
    (⟨swept.1 ++ [made], swept.2, pool.next + 1⟩, made)

/-- Give items slots, one after the other. -/
def assign : List α → Pool β → List (α × Slot β)
  | [], _ => []
  | a :: rest, pool =>
    let placed := place first last choose fresh pool a
    (a, placed.2) :: assign rest placed.1

/-- What is known of a pool: slots have names of their own, and no item that has been given one is
live past the end that the slot notes. -/
structure Keeps (pool : Pool β) (done : List (α × Slot β)) : Prop where
  ids : ((pool.busy ++ pool.free).map Slot.id).Nodup
  below : ∀ s ∈ pool.busy ++ pool.free, s.id < pool.next
  held : ∀ x ∈ done, ∃ s ∈ pool.busy ++ pool.free, s.id = x.2.id ∧ last x.1 ≤ s.deadAt

variable {first last choose fresh}

theorem perm_retire (p fuel i : Nat) (busy free : List (Slot β)) :
    ((retire p fuel i busy free).1 ++ (retire p fuel i busy free).2).Perm (busy ++ free) := by
  induction fuel generalizing i busy free with
  | zero => exact List.Perm.refl _
  | succ fuel ih =>
    unfold retire
    split
    · exact List.Perm.refl _
    · rename_i s at_i
      split
      · refine (ih i _ _).trans ?_
        have moved : (removeSwap busy i ++ (free ++ [s])).Perm (s :: removeSwap busy i ++ free) := by
          rw [← append_assoc]
          exact perm_append_singleton s _
        exact moved.trans ((perm_removeSwap at_i).append_right free)
      · exact ih _ _ _

theorem deadAt_of_mem_retire {p fuel i : Nat} {busy free : List (Slot β)} {s : Slot β}
    (mem : s ∈ (retire p fuel i busy free).2) : s ∈ free ∨ s.deadAt < p := by
  induction fuel generalizing i busy free with
  | zero => exact .inl mem
  | succ fuel ih =>
    unfold retire at mem
    split at mem
    · exact .inl mem
    · split at mem
      · rename_i dead
        rcases ih mem with old | before
        · rcases mem_append.mp old with here | new
          · exact .inl here
          · obtain rfl := mem_singleton.mp new
            exact .inr dead
        · exact .inr before
      · exact ih mem

variable (choose fresh) in
/-- **One item**: the pool stays in order, and who has had the slot is dead when the item begins. -/
theorem Keeps.place {pool : Pool β} {done : List (α × Slot β)} (keeps : Keeps last pool done) {a : α}
    (free : ∀ s ∈ pool.free, s.deadAt < first a) (live : first a ≤ last a) :
    Keeps last (place first last choose fresh pool a).1
        (done ++ [(a, (place first last choose fresh pool a).2)]) ∧
      (∀ s ∈ (place first last choose fresh pool a).1.free, s.deadAt < first a) ∧
      ∀ x ∈ done, x.2.id = (place first last choose fresh pool a).2.id → last x.1 < first a := by
  obtain ⟨swept, sweeps⟩ : ∃ swept,
      swept = retire (first a) pool.busy.length 0 pool.busy pool.free := ⟨_, rfl⟩
  have perm : (swept.1 ++ swept.2).Perm (pool.busy ++ pool.free) := sweeps ▸ perm_retire _ _ _ _ _
  have early : ∀ s ∈ swept.2, s.deadAt < first a := fun s mem =>
    (deadAt_of_mem_retire (sweeps ▸ mem)).elim (free s) id
  unfold SlotPool.place
  dsimp only
  rw [← sweeps]
  split
  · rename_i i s chosen
    obtain ⟨j, -, there⟩ := bind_eq_some_iff.mp chosen
    obtain ⟨s', at_j, same⟩ := map_eq_some_iff.mp there
    obtain ⟨rfl, rfl⟩ := Prod.mk.inj same
    have split : (s' :: removeSwap swept.2 j).Perm swept.2 := perm_removeSwap at_j
    have whole : (s' :: (swept.1 ++ removeSwap swept.2 j)).Perm (pool.busy ++ pool.free) :=
      (perm_middle.symm.trans (split.append_left swept.1)).trans perm
    have ids := (whole.map Slot.id).nodup_iff.mpr keeps.ids
    have dead : s'.deadAt < first a := early s' (split.subset mem_cons_self)
    have regroup : ∀ r : Slot β, (swept.1 ++ [r] ++ removeSwap swept.2 j).Perm
        (r :: (swept.1 ++ removeSwap swept.2 j)) := by
      intro r
      rw [append_assoc]
      exact perm_middle
    -- The slot is the only one of its name, so whoever has had it was dead by its end.
    have named : ∀ x ∈ done, x.2.id = s'.id → last x.1 ≤ s'.deadAt := by
      intro x mem name
      obtain ⟨s'', among, id, bound⟩ := keeps.held x mem
      rcases mem_cons.mp (whole.mem_iff.mpr among) with rfl | other
      · exact bound
      · refine absurd ?_ (nodup_cons.mp ids).1
        rw [← name, ← id]
        exact mem_map_of_mem other
    refine ⟨⟨?_, ?_, ?_⟩, ?_, fun x mem name => lt_of_le_of_lt (named x mem name) dead⟩
    · exact (((regroup { s' with deadAt := last a }).map Slot.id).nodup_iff).mpr ids
    · intro r mem
      rcases mem_cons.mp ((regroup _).mem_iff.mp mem) with rfl | old
      · exact keeps.below s' (whole.subset mem_cons_self)
      · exact keeps.below r (whole.subset (mem_cons_of_mem _ old))
    · intro x mem
      rcases mem_append.mp mem with old | new
      · by_cases name : x.2.id = s'.id
        · refine ⟨_, (regroup _).mem_iff.mpr mem_cons_self, name.symm, ?_⟩
          exact le_trans (named x old name) (le_trans (le_of_lt dead) live)
        · obtain ⟨r, among, id, bound⟩ := keeps.held x old
          rcases mem_cons.mp (whole.mem_iff.mpr among) with rfl | other
          · exact absurd id.symm name
          · exact ⟨r, (regroup _).mem_iff.mpr (mem_cons_of_mem _ other), id, bound⟩
      · obtain rfl := mem_singleton.mp new
        exact ⟨_, (regroup _).mem_iff.mpr mem_cons_self, rfl, le_rfl⟩
    · exact fun r mem => early r (split.subset (mem_cons_of_mem _ mem))
  · have regroup : ∀ r : Slot β, (swept.1 ++ [r] ++ swept.2).Perm (r :: (pool.busy ++ pool.free)) := by
      intro r
      rw [append_assoc]
      exact perm_middle.trans (perm.cons r)
    refine ⟨⟨?_, ?_, ?_⟩, early, ?_⟩
    · refine (((regroup _).map Slot.id).nodup_iff).mpr (nodup_cons.mpr ⟨?_, keeps.ids⟩)
      intro taken
      obtain ⟨r, among, id⟩ := mem_map.mp taken
      exact absurd id (ne_of_lt (keeps.below r among))
    · intro r mem
      rcases mem_cons.mp ((regroup _).mem_iff.mp mem) with rfl | old
      · exact Nat.lt_succ_self _
      · exact lt_trans (keeps.below r old) (Nat.lt_succ_self _)
    · intro x mem
      rcases mem_append.mp mem with old | new
      · obtain ⟨r, among, id, bound⟩ := keeps.held x old
        exact ⟨r, (regroup _).mem_iff.mpr (mem_cons_of_mem _ among), id, bound⟩
      · obtain rfl := mem_singleton.mp new
        exact ⟨_, (regroup _).mem_iff.mpr mem_cons_self, rfl, le_rfl⟩
    · intro x mem name
      obtain ⟨r, among, id, -⟩ := keeps.held x mem
      exact absurd (id.trans name) (ne_of_lt (keeps.below r among))

/-- Two items that get one slot are not live at once, the earlier one ending first. -/
def Apart (first last : α → Nat) (x y : α × Slot β) : Prop := x.2.id = y.2.id → last x.1 < first y.1

theorem map_fst_assign (items : List α) (pool : Pool β) :
    (assign first last choose fresh items pool).map Prod.fst = items := by
  induction items generalizing pool with
  | nil => rfl
  | cons a rest ih => exact congrArg (a :: ·) (ih _)

theorem Keeps.assign {pool : Pool β} {done : List (α × Slot β)} (keeps : Keeps last pool done)
    {items : List α} (sorted : items.Pairwise fun a b => first a ≤ first b)
    (live : ∀ a ∈ items, first a ≤ last a)
    (free : ∀ s ∈ pool.free, ∀ a ∈ items, s.deadAt < first a) :
    (assign first last choose fresh items pool).Pairwise (Apart first last) ∧
      ∀ x ∈ done, ∀ y ∈ assign first last choose fresh items pool, Apart first last x y := by
  induction items generalizing pool done with
  | nil => exact ⟨List.Pairwise.nil, fun _ _ _ none => nomatch none⟩
  | cons a rest ih =>
    obtain ⟨before, later⟩ := pairwise_cons.mp sorted
    obtain ⟨placed, early, apart⟩ := keeps.place choose fresh
      (fun s mem => free s mem a mem_cons_self) (live a mem_cons_self)
    obtain ⟨pairs, cross⟩ := ih placed later (fun b mem => live b (mem_cons_of_mem _ mem))
      fun s mem b among => lt_of_lt_of_le (early s mem) (before b among)
    refine ⟨pairwise_cons.mpr ⟨fun y mem => cross _ (by simp) y mem, pairs⟩, ?_⟩
    intro x old y mem
    rcases mem_cons.mp mem with rfl | next
    · exact apart x old
    · exact cross x (mem_append_left _ old) y next

/-- **Items that share a slot are live one after the other.** -/
theorem assign_apart {items : List α} (sorted : items.Pairwise fun a b => first a ≤ first b)
    (live : ∀ a ∈ items, first a ≤ last a) :
    (assign first last choose fresh items ({} : Pool β)).Pairwise (Apart first last) := by
  have start : Keeps last ({} : Pool β) ([] : List (α × Slot β)) :=
    ⟨nodup_nil, fun _ none => (nomatch none), fun _ none => nomatch none⟩
  exact (start.assign sorted live fun _ none => nomatch none).1

end Assign

end SlotPool
