import Mathlib.Data.Set.Card

/-!
# Equations over a well-founded dependence

An equation gives each point a value from the values of the points it depends on.  Along a
well-founded dependence there is one solution.  A dependence is well-founded when nothing
depends on itself, directly or through others, and everything depends on finitely many
points.
-/

namespace Founded

open Relation

variable {α β : Type} {r : α → α → Prop}

/-- **A dependence without cycles, on finitely many points each, is well-founded.** -/
theorem wellFounded_of_acyclic (acyclic : ∀ x, ¬TransGen r x x)
    (finite : ∀ x, {y | TransGen r y x}.Finite) : WellFounded r := by
  refine Subrelation.wf (r := InvImage (· < ·) fun x => {y | TransGen r y x}.ncard) ?_
    (InvImage.wf _ Nat.lt_wfRel.wf)
  intro x y step
  refine Set.ncard_lt_ncard ⟨fun z before => before.tail step, fun within => ?_⟩ (finite y)
  exact acyclic x (within (TransGen.single step))

/-- The value that an equation gives a point takes into account what the point depends on. -/
def Along (r : α → α → Prop) (rhs : (α → β) → α → β) : Prop :=
  ∀ F G x, (∀ y, r y x → F y = G y) → rhs F x = rhs G x

def Solves (rhs : (α → β) → α → β) (F : α → β) : Prop := ∀ x, F x = rhs F x

variable {rhs : (α → β) → α → β}

theorem Solves.unique (founded : WellFounded r) (along : Along r rhs) {F G : α → β}
    (left : Solves rhs F) (right : Solves rhs G) : F = G := by
  funext x
  induction x using founded.induction with
  | _ x ih =>
    rw [left x, right x]
    exact along F G x ih

open Classical in
/-- **Along a well-founded dependence an equation has one solution.** -/
theorem existsUnique_solves [Inhabited β] (founded : WellFounded r) (along : Along r rhs) :
    ∃! F, Solves rhs F := by
  have solved : Solves rhs (founded.fix fun x below =>
      rhs (fun y => if smaller : r y x then below y smaller else default) x) := by
    intro x
    rw [founded.fix_eq]
    refine along _ _ x fun y smaller => ?_
    rw [dif_pos smaller]
  exact ⟨_, solved, fun G other => other.unique founded along solved⟩

end Founded
