import Mathlib.Order.WellFounded

/-!
# Loops that may not end

A loop repeats a step until the step declines.  It ends when each state that it reaches
hands on to a smaller one, and it does not end when it reaches states that always go on.
-/

namespace Loop

open Relation

variable {σ : Type} (step : σ → Option σ)

/-- The loop with fuel; nothing when the fuel runs out. -/
def run : Nat → σ → Option σ
  | 0, _ => none
  | fuel + 1, s =>
    match step s with
    | none => some s
    | some s' => run fuel s'

def Reaches : σ → σ → Prop := ReflTransGen fun s s' => step s = some s'

def Ends (s : σ) : Prop := ∃ fuel last, run step fuel s = some last

variable {step} {s s' : σ}

theorem ends_of_declined (declined : step s = none) : Ends step s := ⟨1, s, by rw [run, declined]⟩

theorem ends_step_iff (next : step s = some s') : Ends step s ↔ Ends step s' := by
  constructor
  · rintro ⟨fuel, last, ended⟩
    cases fuel with
    | zero => cases ended
    | succ fuel =>
      rw [run, next] at ended
      exact ⟨fuel, last, ended⟩
  · rintro ⟨fuel, last, ended⟩
    refine ⟨fuel + 1, last, ?_⟩
    rw [run, next]
    exact ended

theorem Reaches.ends_iff (reaches : Reaches step s s') : Ends step s ↔ Ends step s' := by
  induction reaches with
  | refl => exact Iff.rfl
  | tail _ next ih => exact ih.trans (ends_step_iff next)

/-- **What every step keeps holds in every state reached.** -/
theorem Reaches.keeps {I : σ → Prop} (reaches : Reaches step s s')
    (kept : ∀ s s', step s = some s' → I s → I s') (holds : I s) : I s' := by
  induction reaches with
  | refl => exact holds
  | tail _ next ih => exact kept _ _ next ih

/-- **A loop ends when each state it reaches hands on to a smaller one.** -/
theorem ends_of_decreasing {μ : Type} {r : μ → μ → Prop} (founded : WellFounded r) (size : σ → μ)
    (smaller : ∀ t t', Reaches step s t → step t = some t' → r (size t') (size t)) :
    Ends step s := by
  induction s using (InvImage.wf size founded).induction with
  | _ s ih =>
    cases next : step s with
    | none => exact ends_of_declined next
    | some s' =>
      refine (ends_step_iff next).mpr (ih s' (smaller s s' .refl next) ?_)
      intro t t' reaches step
      exact smaller t t' (.head next reaches) step

/-- **A loop does not end from a state whose kind always goes on to a state of the kind.** -/
theorem not_ends_of_forever {P : σ → Prop} (forever : ∀ s, P s → ∃ s', step s = some s' ∧ P s')
    (holds : P s) : ¬Ends step s := by
  rintro ⟨fuel, last, ended⟩
  induction fuel generalizing s with
  | zero => cases ended
  | succ fuel ih =>
    obtain ⟨s', next, holds'⟩ := forever s holds
    rw [run, next] at ended
    exact ih holds' ended

end Loop
