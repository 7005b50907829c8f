import Vknn.Lib.Dataflow

/-!
# Taking copies out of programs

A copy reads one name and writes its value under another.  It may be taken out when the
rest of the program uses one name for both.  Which of the two names stays is a choice:
the name that is copied, or the name of the copy.  In the second case somebody must have
written what is copied, and writes the other name from then on.

Either way the program stays ordered, every name read is still supplied, and all names
but the one that goes hold what they held.
-/

namespace Dataflow

open List Or

variable {N Id V : Type}

def redirect [DecidableEq Id] (gone kept t : Id) : Id := if t = gone then kept else t

@[simp] theorem redirect_gone [DecidableEq Id] (gone kept : Id) : redirect gone kept gone = kept := if_pos rfl

theorem redirect_of_ne [DecidableEq Id] {gone kept t : Id} (other : t ≠ gone) : redirect gone kept t = t :=
  if_neg other

theorem redirect_eq_iff [DecidableEq Id] {gone kept t u : Id} :
    redirect gone kept t = redirect gone kept u ↔
      t = u ∨ (t = gone ∧ u = kept) ∨ (t = kept ∧ u = gone) := by
  unfold redirect
  split <;> split <;> grind

namespace Signature

variable (S : Signature N Id)

/-- A copy: what it reads, and the one name it writes. -/
structure Copies (copy : N) (source result : Id) : Prop where
  reads : source ∈ S.reads copy
  writes : S.writes copy = [result]

/-- An instruction under other names. -/
structure Renames (σ : Id → Id) (n m : N) : Prop where
  reads : S.reads m = (S.reads n).map σ
  writes : S.writes m = (S.writes n).map σ

/-- A copy that is taken out, in a program: the name that goes and the name that stays. -/
structure Drops (front : List N) (copy : N) (back : List N) (source result gone kept : Id) :
    Prop where
  ordered : S.Ordered (front ++ copy :: back)
  copies : S.Copies copy source result
  /-- The name of the copy goes; or else what is copied has a writer, and its name goes. -/
  side : (gone = result ∧ kept = source) ∨
    (gone = source ∧ kept = result ∧ ∃ p ∈ front ++ back, source ∈ S.writes p)

variable {S} {front back : List N} {copy : N} {source result gone kept : Id}

/-! ## Who reads and writes the two names -/

theorem Drops.result_once (drops : S.Drops front copy back source result gone kept) {n : N}
    (mem : n ∈ front ++ back) : result ∉ S.writes n := by
  have written : result ∈ S.writes copy := by rw [drops.copies.writes]; exact mem_singleton_self _
  obtain ⟨-, rest, apart⟩ := pairwise_append.mp drops.ordered.before
  intro again
  rcases mem_append.mp mem with inFront | inBack
  · exact (apart n inFront copy mem_cons_self result written).2 again
  · exact ((pairwise_cons.mp rest).1 n inBack result again).2 written

theorem Drops.source_front (drops : S.Drops front copy back source result gone kept) {n : N}
    (mem : n ∈ back) : source ∉ S.writes n := by
  obtain ⟨-, rest, -⟩ := pairwise_append.mp drops.ordered.before
  exact fun written =>
    ((pairwise_cons.mp rest).1 n mem source written).1 drops.copies.reads

theorem Drops.result_back (drops : S.Drops front copy back source result gone kept) {n : N}
    (mem : n ∈ front) : result ∉ S.reads n := by
  have written : result ∈ S.writes copy := by rw [drops.copies.writes]; exact mem_singleton_self _
  obtain ⟨-, -, apart⟩ := pairwise_append.mp drops.ordered.before
  exact (apart n mem copy mem_cons_self result written).1

theorem Drops.source_ne (drops : S.Drops front copy back source result gone kept) :
    source ≠ result := by
  rintro rfl
  refine drops.ordered.self copy (mem_append_right _ mem_cons_self) source ?_
    drops.copies.reads
  rw [drops.copies.writes]
  exact mem_singleton_self _

theorem Drops.ne (drops : S.Drops front copy back source result gone kept) : gone ≠ kept := by
  rcases drops.side with ⟨rfl, rfl⟩ | ⟨rfl, rfl, -⟩
  · exact drops.source_ne.symm
  · exact drops.source_ne

variable [DecidableEq Id]

theorem Drops.same (drops : S.Drops front copy back source result gone kept) {t u : Id}
    (same : redirect gone kept t = redirect gone kept u) :
    t = u ∨ (t = source ∧ u = result) ∨ (t = result ∧ u = source) := by
  have names := redirect_eq_iff.mp same
  rcases drops.side with ⟨rfl, rfl⟩ | ⟨rfl, rfl, -⟩ <;> tauto

/-! ## The program without the copy -/

variable {ρ : N → N}

/-- **The program without the copy is ordered.** -/
theorem Drops.ordered_map (drops : S.Drops front copy back source result gone kept)
    (renames : ∀ n ∈ front ++ back, S.Renames (redirect gone kept) n (ρ n)) :
    S.Ordered ((front ++ back).map ρ) := by
  obtain ⟨frontOrdered, rest, apart⟩ := pairwise_append.mp drops.ordered.before
  have backOrdered := (pairwise_cons.mp rest).2
  -- A name that an instruction writes is one that another uses only if it was so before: what is
  -- copied is written in front of the copy, and the name of the copy is read behind it.
  have unread : ∀ a ∈ front ++ back, ∀ b ∈ front ++ back, a ∈ front ∨ b ∈ back →
      (∀ t ∈ S.writes b, t ∉ S.reads a) → ∀ t ∈ S.writes (ρ b), t ∉ S.reads (ρ a) := by
    intro a inA b inB sides apart t written read
    rw [(renames b inB).writes] at written
    rw [(renames a inA).reads] at read
    obtain ⟨s, wrote, rfl⟩ := mem_map.mp written
    obtain ⟨u, used, same⟩ := mem_map.mp read
    rcases drops.same same with rfl | ⟨rfl, rfl⟩ | ⟨rfl, rfl⟩
    · exact apart u wrote used
    · exact drops.result_once inB wrote
    · rcases sides with inFront | inBack
      · exact drops.result_back inFront used
      · exact drops.source_front inBack wrote
  have unwritten : ∀ a ∈ front ++ back, ∀ b ∈ front ++ back,
      (∀ t ∈ S.writes b, t ∉ S.writes a) → ∀ t ∈ S.writes (ρ b), t ∉ S.writes (ρ a) := by
    intro a inA b inB apart t written again
    rw [(renames b inB).writes] at written
    rw [(renames a inA).writes] at again
    obtain ⟨s, wrote, rfl⟩ := mem_map.mp written
    obtain ⟨u, wrote', same⟩ := mem_map.mp again
    rcases drops.same same with rfl | ⟨rfl, rfl⟩ | ⟨rfl, rfl⟩
    · exact apart u wrote wrote'
    · exact drops.result_once inB wrote
    · exact drops.result_once inA wrote'
  have lift : ∀ a ∈ front ++ back, ∀ b ∈ front ++ back, a ∈ front ∨ b ∈ back →
      (∀ t ∈ S.writes b, t ∉ S.reads a ∧ t ∉ S.writes a) →
      ∀ t ∈ S.writes (ρ b), t ∉ S.reads (ρ a) ∧ t ∉ S.writes (ρ a) :=
    fun a inA b inB sides apart t written =>
      ⟨unread a inA b inB sides (fun s here => (apart s here).1) t written,
        unwritten a inA b inB (fun s here => (apart s here).2) t written⟩
  refine ⟨?_, fun m mem t written => ?_⟩
  · rw [map_append, pairwise_append, pairwise_map, pairwise_map]
    refine ⟨frontOrdered.imp_of_mem fun inA inB => ?_, backOrdered.imp_of_mem fun inA inB => ?_, ?_⟩
    · exact lift _ (mem_append_left _ inA) _ (mem_append_left _ inB) (inl inA)
    · exact lift _ (mem_append_right _ inA) _ (mem_append_right _ inB) (inr inB)
    · intro a' memberA b' memberB
      obtain ⟨a, inA, rfl⟩ := mem_map.mp memberA
      obtain ⟨b, inB, rfl⟩ := mem_map.mp memberB
      exact lift a (mem_append_left _ inA) b (mem_append_right _ inB) (inl inA)
        (apart a inA b (mem_cons_of_mem _ inB))
  · obtain ⟨n, inside, rfl⟩ := mem_map.mp mem
    have whole : n ∈ front ++ copy :: back := by
      rcases mem_append.mp inside with inFront | inBack
      · exact mem_append_left _ inFront
      · exact mem_append_right _ (mem_cons_of_mem _ inBack)
    exact unread n inside n inside (mem_append.mp inside) (drops.ordered.self n whole) t written

/-- **Every name the program without the copy reads is still supplied.** -/
theorem Drops.fed_map (drops : S.Drops front copy back source result gone kept)
    (renames : ∀ n ∈ front ++ back, S.Renames (redirect gone kept) n (ρ n))
    {computed : Id → Prop} (fed : S.Fed computed (front ++ copy :: back)) :
    S.Fed computed ((front ++ back).map ρ) := by
  have whole : ∀ n ∈ front ++ back, n ∈ front ++ copy :: back := by
    intro n inside
    rcases mem_append.mp inside with inFront | inBack
    · exact mem_append_left _ inFront
    · exact mem_append_right _ (mem_cons_of_mem _ inBack)
  have others : ∀ n ∈ front ++ copy :: back, n = copy ∨ n ∈ front ++ back := by
    intro n inside
    rcases mem_append.mp inside with inFront | rest
    · exact inr (mem_append_left _ inFront)
    · rcases mem_cons.mp rest with rfl | inBack
      · exact inl rfl
      · exact inr (mem_append_right _ inBack)
  -- A writer other than the copy writes the redirected name.
  have supply : ∀ p ∈ front ++ back, ∀ t ∈ S.writes p,
      ∃ q ∈ (front ++ back).map ρ, redirect gone kept t ∈ S.writes q := by
    intro p inside t wrote
    refine ⟨ρ p, mem_map_of_mem inside, ?_⟩
    rw [(renames p inside).writes]
    exact mem_map_of_mem wrote
  have keptSupply : computed kept → ∃ q ∈ (front ++ back).map ρ, kept ∈ S.writes q := by
    intro needed
    rcases drops.side with ⟨rfl, rfl⟩ | ⟨rfl, rfl, p, inside, wrote⟩
    · obtain ⟨p, mem, wrote⟩ := fed copy (mem_append_right _ mem_cons_self) _
        drops.copies.reads needed
      rcases others p mem with rfl | inside
      · exact absurd drops.copies.reads
          (drops.ordered.self p (mem_append_right _ mem_cons_self) _ wrote)
      · have supplied := supply p inside _ wrote
        rwa [redirect_of_ne drops.ne.symm] at supplied
    · have supplied := supply p inside _ wrote
      rwa [redirect_gone] at supplied
  intro m mem t read needed
  obtain ⟨n, inside, rfl⟩ := mem_map.mp mem
  rw [(renames n inside).reads] at read
  obtain ⟨s, used, rfl⟩ := mem_map.mp read
  by_cases goes : s = gone
  · rw [goes, redirect_gone] at needed ⊢
    exact keptSupply needed
  · rw [redirect_of_ne goes] at needed ⊢
    obtain ⟨p, among, wrote⟩ := fed n (whole n inside) s used needed
    rcases others p among with rfl | other
    · rw [drops.copies.writes, mem_singleton] at wrote
      rcases drops.side with ⟨rfl, -⟩ | ⟨-, rfl, -⟩
      · exact absurd wrote goes
      · exact wrote ▸ keptSupply (wrote ▸ needed)
    · have supplied := supply p other s wrote
      rwa [redirect_of_ne goes] at supplied

end Signature

namespace Machine

variable [DecidableEq Id] {M : Machine N Id V} {front back : List N} {copy : N}
  {source result gone kept : Id} {ρ : N → N}

/-- **Without the copy, every name but the one that goes holds what it held.**  What is taken out need
only be a copy of what it reads in this very run. -/
theorem run_drops (drops : M.toSignature.Drops front copy back source result gone kept)
    (renames : ∀ n ∈ front ++ back, M.toSignature.Renames (redirect gone kept) n (ρ n)) {e : Id → V}
    (copied : M.value copy (M.run (front ++ copy :: back) e) result =
      M.run (front ++ copy :: back) e source)
    (values : ∀ n ∈ front ++ back, ∀ e, ∀ t ∈ M.writes n,
      M.value (ρ n) e (redirect gone kept t) = M.value n (fun s => e (redirect gone kept s)) t)
    {t : Id} (other : t ≠ gone) :
    M.run ((front ++ back).map ρ) e t = M.run (front ++ copy :: back) e t := by
  have solved := solved_run drops.ordered e
  have copyIn : copy ∈ front ++ copy :: back := mem_append_right _ mem_cons_self
  have equal : M.run (front ++ copy :: back) e result = M.run (front ++ copy :: back) e source := by
    rw [solved copy copyIn result, copied]
    rw [drops.copies.writes]
    exact mem_singleton_self _
  generalize whole : M.run (front ++ copy :: back) e = E at solved equal
  have together : E kept = E gone := by
    rcases drops.side with ⟨rfl, rfl⟩ | ⟨rfl, rfl, -⟩
    · exact equal.symm
    · exact equal
  -- The solution of the new program is the old one, where the name that goes is not written.
  have through : (fun s => (fun t => if t = gone then e gone else E t) (redirect gone kept s)) =
      E := by
    funext s
    by_cases goes : s = gone
    · rw [goes, redirect_gone]
      dsimp only
      rw [if_neg drops.ne.symm, together]
    · rw [redirect_of_ne goes]
      exact if_neg goes
  have unique := run_unique (M := M) (drops.ordered_map renames)
    (e := e) (E := fun t => if t = gone then e gone else E t) ?_ ?_
  · rw [unique]
    exact if_neg other
  · intro m mem t written
    obtain ⟨n, inside, rfl⟩ := mem_map.mp mem
    rw [(renames n inside).writes] at written
    obtain ⟨s, wrote, rfl⟩ := mem_map.mp written
    have old : E s = M.value n E s := by
      refine solved n ?_ s wrote
      rcases mem_append.mp inside with inFront | inBack
      · exact mem_append_left _ inFront
      · exact mem_append_right _ (mem_cons_of_mem _ inBack)
    rw [values n inside _ s wrote, through, ← old]
    exact congrFun through s
  · intro t untouched
    split
    · rename_i goes
      rw [goes]
    · rename_i stays
      rw [← whole]
      refine (M.run_frame (fun n mem wrote => ?_) e).symm
      have renamed : ∀ p ∈ front ++ back, ∀ s ∈ M.writes p, redirect gone kept s ≠ t := by
        intro p inside s here same
        refine untouched (ρ p) (mem_map_of_mem inside) ?_
        rw [(renames p inside).writes, ← same]
        exact mem_map_of_mem here
      rcases mem_append.mp mem with inFront | rest
      · exact renamed n (mem_append_left _ inFront) t wrote (redirect_of_ne stays)
      rcases mem_cons.mp rest with rfl | inBack
      · rw [drops.copies.writes, mem_singleton] at wrote
        rcases drops.side with ⟨rfl, -⟩ | ⟨rfl, rfl, p, inside, wrote'⟩
        · exact stays wrote
        · exact renamed p inside _ wrote' (wrote ▸ redirect_gone _ _)
      · exact renamed n (mem_append_right _ inBack) t wrote (redirect_of_ne stays)

end Machine

end Dataflow
