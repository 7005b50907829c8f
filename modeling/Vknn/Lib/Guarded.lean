import Mathlib.Data.List.Basic

/-!
# Computations that may be refused or have no meaning

A computation on foreign data ends in one of three ways: with a value, with a
refusal, or in a fault, an access that lies outside the array it is meant for.
A refusal is a normal end; a computation is safe when it does not end in a fault.
Once a computation is refused or has faulted nothing after it is done.
-/

namespace Guarded

open List Nat

/-- How a computation ends. -/
inductive Outcome (ε α : Type) where
  | ok (a : α)
  | rejected (reason : ε)
  | fault
deriving DecidableEq, Repr

variable {ε α β σ : Type}

namespace Outcome

/-- The value handed on, if there is one. -/
def bind (x : Outcome ε α) (f : α → Outcome ε β) : Outcome ε β :=
  match x with
  | ok a => f a
  | rejected reason => rejected reason
  | fault => fault

instance : Monad (Outcome ε) where
  pure := ok
  bind := bind

def Safe (x : Outcome ε α) : Prop := x ≠ fault

def Decided (x : Outcome ε α) : Prop := ∀ reason, x ≠ rejected reason

@[simp] theorem ok_bind (a : α) (f : α → Outcome ε β) : (ok a >>= f) = f a := rfl
@[simp] theorem rejected_bind (reason : ε) (f : α → Outcome ε β) :
    (rejected reason >>= f) = rejected reason := rfl
@[simp] theorem fault_bind (f : α → Outcome ε β) : (fault >>= f) = fault := rfl

theorem safe_ok (a : α) : Safe (ok a : Outcome ε α) := nofun
theorem safe_rejected (reason : ε) : Safe (rejected reason : Outcome ε α) := nofun

variable {x : Outcome ε α} {f : α → Outcome ε β}

theorem Safe.bind (head : Safe x)
    (rest : ∀ a, x = ok a → Safe (f a)) : Safe (x >>= f) := by
  cases x with
  | ok a => exact rest a rfl
  | rejected reason => exact safe_rejected reason
  | fault => exact absurd rfl head

theorem decided_ok (a : α) : Decided (ok a : Outcome ε α) := nofun

theorem Decided.bind (head : Decided x)
    (rest : ∀ a, Decided (f a)) : Decided (x >>= f) := by
  cases x with
  | ok a => exact rest a
  | rejected reason => exact absurd rfl (head reason)
  | fault => exact nofun

theorem bind_fault (decided : Decided x)
    (rest : ∀ a, f a = fault) : (x >>= f) = fault := by
  cases x with
  | ok a => exact rest a
  | rejected reason => exact absurd rfl (decided reason)
  | fault => rfl

end Outcome

open Outcome

/-! ## Accesses -/

def readAt (xs : List α) (i : Int) : Outcome ε α :=
  if 0 ≤ i then
    match xs[i.toNat]? with
    | some a => ok a
    | none => fault
  else fault

/-- The array with an element stored at a position. -/
def storeAt (xs : List α) (i : Int) (a : α) : Outcome ε (List α) :=
  if 0 ≤ i ∧ i.toNat < xs.length then ok (xs.set i.toNat a) else fault

theorem decided_readAt (xs : List α) (i : Int) : Decided (readAt xs i : Outcome ε α) := by
  intro reason
  unfold readAt
  split
  · split
    · exact nofun
    · exact nofun
  · exact nofun

variable {xs : List α} {i : Int} {s : σ}

theorem readAt_of_inside (low : 0 ≤ i) (high : i < xs.length) (d : α) :
    (readAt xs i : Outcome ε α) = ok (xs.getD i.toNat d) := by
  have inside : i.toNat < xs.length := by omega
  rw [readAt, if_pos low, getD_eq_getElem?_getD, getElem?_eq_getElem inside, Option.getD_some]

theorem readAt_of_beyond (beyond : (xs.length : Int) ≤ i) :
    (readAt xs i : Outcome ε α) = fault := by
  rw [readAt, if_pos (by omega), getElem?_eq_none (by omega)]

theorem storeAt_of_inside (low : 0 ≤ i) (high : i < xs.length) (a : α) :
    (storeAt xs i a : Outcome ε (List α)) = ok (xs.set i.toNat a) := if_pos ⟨low, by omega⟩

theorem storeAt_of_beyond (beyond : (xs.length : Int) ≤ i) (a : α) :
    (storeAt xs i a : Outcome ε (List α)) = fault := if_neg (by omega)

theorem storeAt_cases (xs : List α) (i : Int) (a : α) :
    (storeAt xs i a : Outcome ε (List α)) = fault ∨
      ∃ ys, (storeAt xs i a : Outcome ε (List α)) = ok ys ∧ ys.length = xs.length := by
  unfold storeAt
  split
  · exact .inr ⟨_, rfl, length_set⟩
  · exact .inl rfl

/-! ## Counting loops -/

/-- Do a step for each number below a bound. -/
def loop : Nat → (Nat → σ → Outcome ε σ) → σ → Outcome ε σ
  | 0, _, s => ok s
  | n + 1, body, s => loop n body s >>= body n

variable {Inv : σ → Prop} {body : Nat → σ → Outcome ε σ} {n : Nat}

/-- A loop whose steps all succeed is the plain loop. -/
theorem loop_eq_foldl {step : σ → Nat → σ}
    (steps : ∀ i < n, ∀ s, Inv s → body i s = ok (step s i) ∧ Inv (step s i)) (start : Inv s) :
    loop n body s = ok ((List.range n).foldl step s) ∧ Inv ((List.range n).foldl step s) := by
  induction n with
  | zero => exact ⟨rfl, start⟩
  | succ n ih =>
    obtain ⟨before, held⟩ := ih fun i below => steps i (by omega)
    rw [range_succ, foldl_append]
    obtain ⟨done, kept⟩ := steps n (lt_succ_self n) _ held
    exact ⟨by rw [loop, before, ok_bind]; exact done, kept⟩

/-- A loop whose steps all succeed and keep the invariant succeeds and keeps it. -/
theorem loop_ok (steps : ∀ i < n, ∀ s, Inv s → ∃ s', body i s = ok s' ∧ Inv s')
    (start : Inv s) : ∃ s', loop n body s = ok s' ∧ Inv s' := by
  induction n with
  | zero => exact ⟨s, rfl, start⟩
  | succ n ih =>
    obtain ⟨s', before, held⟩ := ih fun i below => steps i (by omega)
    rw [loop, before, ok_bind]
    exact steps n (lt_succ_self n) s' held

/-- A loop whose steps are safe and keep the invariant where they succeed is safe. -/
theorem loop_safe
    (steps : ∀ i < n, ∀ s, Inv s → Safe (body i s) ∧ ∀ s', body i s = ok s' → Inv s')
    (start : Inv s) : Safe (loop n body s) ∧ ∀ s', loop n body s = ok s' → Inv s' := by
  induction n with
  | zero => exact ⟨safe_ok s, fun s' done => (Outcome.ok.inj done) ▸ start⟩
  | succ n ih =>
    obtain ⟨safe, held⟩ := ih fun i below => steps i (by omega)
    refine ⟨Safe.bind safe fun s' before => (steps n (lt_succ_self n) s' (held s' before)).1, ?_⟩
    intro s' done
    rw [loop] at done
    cases before : loop n body s with
    | ok s₁ =>
      rw [before, ok_bind] at done
      exact (steps n (lt_succ_self n) s₁ (held s₁ before)).2 s' done
    | rejected reason =>
      rw [before, rejected_bind] at done
      cases done
    | fault =>
      rw [before, fault_bind] at done
      cases done

variable (Inv) in
/-- A loop whose steps fault or keep the invariant faults or keeps it. -/
theorem loop_cases
    (steps : ∀ i < n, ∀ s, Inv s → body i s = fault ∨ ∃ s', body i s = ok s' ∧ Inv s')
    (start : Inv s) : loop n body s = fault ∨ ∃ s', loop n body s = ok s' ∧ Inv s' := by
  induction n with
  | zero => exact .inr ⟨s, rfl, start⟩
  | succ n ih =>
    rcases ih fun i below => steps i (by omega) with faulted | ⟨s', before, held⟩
    · exact .inl (by rw [loop, faulted, fault_bind])
    · rw [loop, before, ok_bind]
      exact steps n (lt_succ_self n) s' held

variable (Inv) in
/-- A loop faults if one of its steps is bound to. -/
theorem loop_fault {k : Nat} (inside : k < n)
    (steps : ∀ i < n, ∀ s, Inv s → body i s = fault ∨ ∃ s', body i s = ok s' ∧ Inv s')
    (bad : ∀ s, Inv s → body k s = fault) (start : Inv s) : loop n body s = fault := by
  induction n with
  | zero => exact absurd inside (not_lt_zero k)
  | succ n ih =>
    by_cases last : k = n
    · subst last
      have steps : ∀ i < k, ∀ s, Inv s → body i s = fault ∨ ∃ s', body i s = ok s' ∧ Inv s' :=
        fun i below => steps i (by omega)
      rcases loop_cases Inv steps start with faulted | ⟨s', before, held⟩
      · rw [loop, faulted, fault_bind]
      · rw [loop, before, ok_bind]
        exact bad s' held
    · have before := ih (by omega) fun i below => steps i (by omega)
      rw [loop, before, fault_bind]

end Guarded
