import Mathlib.Data.List.Perm.Subperm
import Mathlib.Tactic.Linarith

/-!
# Maps and the entries they are built from

A map filled one entry after another holds, under each key, the last entry
recorded for it.  A map filled with the entries of a map is that map.
-/

namespace Entries

open List Std

variable {κ ν : Type} [Ord κ] [TransOrd κ] [LawfulEqOrd κ] [DecidableEq κ]

/-- Insert a list of entries, first to last. -/
def insertAll (m : ExtTreeMap κ ν) (entries : List (κ × ν)) : ExtTreeMap κ ν :=
  entries.foldl (fun m e => m.insert e.1 e.2) m

/-- The last entry recorded for a key. -/
def lastOf (entries : List (κ × ν)) (k : κ) : Option ν :=
  (entries.reverse.find? fun e => e.1 = k).map Prod.snd

omit [LawfulEqOrd κ] [DecidableEq κ] in
theorem insertAll_cons (m : ExtTreeMap κ ν) (e : κ × ν) (entries : List (κ × ν)) :
    insertAll m (e :: entries) = insertAll (m.insert e.1 e.2) entries := rfl

omit [Ord κ] [TransOrd κ] [LawfulEqOrd κ] in
theorem lastOf_cons (e : κ × ν) (entries : List (κ × ν)) (k : κ) :
    lastOf (e :: entries) k = (lastOf entries k).or (if e.1 = k then some e.2 else none) := by
  simp only [lastOf, reverse_cons, find?_append]
  cases found : entries.reverse.find? fun e => e.1 = k with
  | some later => simp
  | none =>
    by_cases same : e.1 = k
    · simp [same]
    · simp [same]

/-- **The last entry for a key is the one the map holds.** -/
theorem getElem?_insertAll (m : ExtTreeMap κ ν) (entries : List (κ × ν)) (k : κ) :
    (insertAll m entries)[k]? = (lastOf entries k).or m[k]? := by
  induction entries generalizing m with
  | nil => simp [insertAll, lastOf]
  | cons e entries ih =>
    rw [insertAll_cons, ih, lastOf_cons, ExtTreeMap.getElem?_insert]
    cases later : lastOf entries k with
    | some v => simp
    | none =>
      by_cases same : e.1 = k
      · simp [same]
      · simp [same, LawfulEqCmp.compare_eq_iff_eq]

omit [Ord κ] [TransOrd κ] [LawfulEqOrd κ] in
/-- A key has a last entry exactly when it has an entry. -/
theorem lastOf_isSome_iff (entries : List (κ × ν)) (k : κ) :
    (lastOf entries k).isSome ↔ ∃ v, (k, v) ∈ entries := by
  simp only [lastOf, Option.isSome_map, find?_isSome, mem_reverse, decide_eq_true_eq]
  constructor
  · rintro ⟨⟨k', v⟩, mem, rfl⟩
    exact ⟨v, mem⟩
  · rintro ⟨v, mem⟩
    exact ⟨(k, v), mem, rfl⟩

omit [Ord κ] [TransOrd κ] [LawfulEqOrd κ] in
theorem lastOf_map {ω : Type} (f : ν → ω) (entries : List (κ × ν)) (k : κ) :
    lastOf (entries.map fun e => (e.1, f e.2)) k = (lastOf entries k).map f := by
  induction entries with
  | nil => rfl
  | cons e entries ih =>
    rw [map_cons, lastOf_cons, lastOf_cons, ih]
    cases lastOf entries k with
    | some v => rfl
    | none =>
      by_cases same : e.1 = k
      · simp [same]
      · simp [same]

omit [DecidableEq κ] in
/-- **A map is rebuilt from its own entries.** -/
theorem insertAll_toList (m : ExtTreeMap κ ν) : insertAll ∅ m.toList = m := by
  refine ExtTreeMap.ext_getElem? fun k => ?_
  have filled : insertAll ∅ m.toList = ExtTreeMap.ofList m.toList compare :=
    ExtTreeMap.ofList_eq_foldl.symm
  rw [filled]
  cases held : m[k]? with
  | some v =>
    exact ExtTreeMap.getElem?_ofList_of_mem ReflCmp.compare_self
      ExtTreeMap.distinct_keys_toList
      (ExtTreeMap.mem_toList_iff_getElem?_eq_some.mpr held)
  | none =>
    classical
    refine ExtTreeMap.getElem?_ofList_of_contains_eq_false ?_
    by_contra present
    simp only [contains_eq_mem, decide_eq_false_iff_not, not_not, mem_map] at present
    obtain ⟨⟨k', v⟩, mem, rfl⟩ := present
    rw [ExtTreeMap.mem_toList_iff_getElem?_eq_some.mp mem] at held
    exact Option.some_ne_none v held

omit [DecidableEq κ] in
/-- **A map of the same size that has all entries of another is that map.** -/
theorem eq_of_entries {a b : ExtTreeMap κ ν} (size : a.size = b.size)
    (within : ∀ e ∈ a.toList, b[e.1]? = some e.2) : a = b := by
  have distinct : a.toList.Nodup := by
    refine ExtTreeMap.distinct_keys_toList.imp fun {e f} apart same => apart ?_
    rw [same]
    exact ReflCmp.compare_self
  have subset : a.toList ⊆ b.toList := fun e mem =>
    ExtTreeMap.mem_toList_iff_getElem?_eq_some.mpr (within e mem)
  refine ExtTreeMap.ext_toList
    ((distinct.subperm subset).perm_of_length_le ?_)
  rw [ExtTreeMap.length_toList, ExtTreeMap.length_toList, size]

/-- Insert a list of entries, keeping what is held for a key already. -/
def insertNew (m : ExtTreeMap κ ν) (entries : List (κ × ν)) : ExtTreeMap κ ν :=
  entries.foldl (fun m e => m.insertIfNew e.1 e.2) m

omit [DecidableEq κ] in
/-- With different keys, none of them held, nothing is kept back. -/
theorem insertNew_eq_insertAll {m : ExtTreeMap κ ν} {entries : List (κ × ν)}
    (apart : entries.Pairwise fun e f => ¬ compare e.1 f.1 = .eq)
    (fresh : ∀ e ∈ entries, m[e.1]? = none) : insertNew m entries = insertAll m entries := by
  induction entries generalizing m with
  | nil => rfl
  | cons e entries ih =>
    obtain ⟨first, apart⟩ := pairwise_cons.mp apart
    have absent : e.1 ∉ m := by
      rw [ExtTreeMap.mem_iff_isSome_getElem?, fresh e mem_cons_self]
      exact Bool.false_ne_true
    have inserted : m.insertIfNew e.1 e.2 = m.insert e.1 e.2 := by
      refine ExtTreeMap.ext_getElem? fun k => ?_
      rw [ExtTreeMap.getElem?_insertIfNew, ExtTreeMap.getElem?_insert]
      simp only [absent, not_false_eq_true, and_true]
    unfold insertNew at ih ⊢
    rw [foldl_cons, insertAll_cons, inserted]
    refine ih apart fun f later => ?_
    rw [ExtTreeMap.getElem?_insert, if_neg (first f later)]
    exact fresh f (mem_cons_of_mem e later)

omit [DecidableEq κ] in
/-- **A map is rebuilt from its own entries, whichever of two entries would be kept.** -/
theorem insertNew_toList (m : ExtTreeMap κ ν) : insertNew ∅ m.toList = m := by
  have fresh : ∀ e ∈ m.toList, (∅ : ExtTreeMap κ ν)[e.1]? = none :=
    fun e _ => ExtTreeMap.getElem?_empty
  rw [insertNew_eq_insertAll ExtTreeMap.distinct_keys_toList fresh, insertAll_toList]

end Entries
