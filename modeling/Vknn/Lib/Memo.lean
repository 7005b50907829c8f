import Mathlib.Logic.Function.Basic

/-!
# Memo tables

A memo table serves a key from an earlier answer when it has one, and otherwise computes the answer
and keeps it.  Entries can be lost at any time.  Whatever the order of requests, an entry was made
for its key; so a table answers as its requests would have, as long as requests for one key agree.
-/

namespace Memo

open Function

variable {κ ν : Type} {made made' : κ → ν → Prop} {table : κ → Option ν}

/-- Every entry of a table was made for its key. -/
def From (made : κ → ν → Prop) (table : κ → Option ν) : Prop := ∀ k v, table k = some v → made k v

theorem From.empty : From made fun _ => none := fun _ _ no => nomatch no

section Update

variable [DecidableEq κ]

theorem From.insert (entries : From made table) {k : κ} {v : ν} (new : made k v) :
    From made (update table k (some v)) := by
  intro other w here
  by_cases same : other = k
  · subst same
    rw [update_self] at here
    exact Option.some.inj here ▸ new
  · rw [update_of_ne same] at here
    exact entries other w here

theorem From.erase (entries : From made table) (k : κ) : From made (update table k none) := by
  intro other w here
  by_cases same : other = k
  · subst same
    rw [update_self] at here
    cases here
  · rw [update_of_ne same] at here
    exact entries other w here

/-- Serve a key, making its value where the table has none. -/
def acquire (table : κ → Option ν) (k : κ) (make : ν) : ν × (κ → Option ν) :=
  match table k with
  | some v => (v, table)
  | none => (make, update table k (some make))

/-- **What is served was made for the key**, and the table keeps to that. -/
theorem From.acquire (entries : From made table) {k : κ} {make : ν} (new : made k make) :
    made k (Memo.acquire table k make).1 ∧ From made (Memo.acquire table k make).2 := by
  unfold Memo.acquire
  split
  · rename_i v here
    exact ⟨entries k v here, entries⟩
  · exact ⟨new, entries.insert new⟩

theorem acquire_of_none {k : κ} (absent : table k = none) (make : ν) :
    acquire table k make = (make, update table k (some make)) := by
  unfold acquire
  rw [absent]

end Update

end Memo
