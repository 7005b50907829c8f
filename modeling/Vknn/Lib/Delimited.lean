import Mathlib.Data.List.Basic

/-!
# Delimited text

Texts made of parts that are set off by separators.  A code is prefix-free when a
part can be read off the front of any text that starts with it; a part that never
contains its own closing character is.  A joined list of parts is read back when
no part contains the separator.  A joined list of labelled values, whose labels
may be anything, is read back when the labels are known, or when no label spells
out a value between a mark and a separator.
-/

namespace Delimited

open List

variable {α β : Type}

/-! ## Reading one part -/

/-- The part is read off the front of any text that starts with it. -/
def PrefixFree (code : α → List β) : Prop := ∀ a b x y, code a ++ x = code b ++ y → a = b ∧ x = y

theorem append_cons_injective {c : β} {p q x y : List β} (left : c ∉ p) (right : c ∉ q)
    (same : p ++ c :: x = q ++ c :: y) : p = q ∧ x = y := by
  induction p generalizing q with
  | nil =>
    cases q with
    | nil =>
      obtain ⟨_, tails⟩ := List.cons.inj same
      exact ⟨rfl, tails⟩
    | cons d q =>
      obtain ⟨head, _⟩ := List.cons.inj same
      exact absurd (head ▸ mem_cons_self) right
  | cons d p ih =>
    cases q with
    | nil =>
      obtain ⟨head, _⟩ := List.cons.inj same
      exact absurd (head ▸ mem_cons_self) left
    | cons e q =>
      obtain ⟨rfl, rest⟩ := List.cons.inj same
      obtain ⟨rfl, tails⟩ := ih (fun mem => left (mem_cons_of_mem _ mem))
        (fun mem => right (mem_cons_of_mem _ mem)) rest
      exact ⟨rfl, tails⟩

/-- **A code closed by a character it does not use is prefix-free.** -/
theorem prefixFree_closed {code : α → List β} {c : β} (injective : Function.Injective code)
    (absent : ∀ a, c ∉ code a) : PrefixFree fun a => code a ++ [c] := by
  intro a b x y same
  rw [append_assoc, append_assoc] at same
  obtain ⟨codes, tails⟩ := append_cons_injective (absent a) (absent b) same
  exact ⟨injective codes, tails⟩

theorem PrefixFree.opened {code : α → List β} (prefixFree : PrefixFree code) (c : β) :
    PrefixFree fun a => c :: code a := by
  intro a b x y same
  exact prefixFree a b x y (List.cons.inj same).2

/-! ## Joined parts -/

/-- **Nonempty parts that avoid the separator are read back from their join.** -/
theorem intercalate_injective [DecidableEq β] {c : β} {parts parts' : List (List β)}
    (absent : ∀ part ∈ parts, c ∉ part) (absent' : ∀ part ∈ parts', c ∉ part)
    (nonempty : [] ∉ parts) (nonempty' : [] ∉ parts')
    (same : [c].intercalate parts = [c].intercalate parts') : parts = parts' := by
  have joinNil : ∀ parts : List (List β), [] ∉ parts → [c].intercalate parts = [] → parts = [] := by
    intro parts nonempty empty
    cases parts with
    | nil => rfl
    | cons part rest =>
      have partNil : part = [] := by
        cases rest with
        | nil => rwa [intercalate_singleton] at empty
        | cons next rest =>
          rw [intercalate_cons_cons, append_assoc] at empty
          exact (append_eq_nil_iff.mp empty).1
      exact absurd (partNil ▸ mem_cons_self) nonempty
  by_cases empty : parts = []
  · subst empty
    exact (joinNil parts' nonempty' same.symm).symm
  by_cases empty' : parts' = []
  · subst empty'
    exact joinNil parts nonempty same
  rw [← splitOn_intercalate c absent empty, same, splitOn_intercalate c absent' empty']

/-! ## Labelled values -/

section Labelled

variable (mark sep : β) (value : α → List β)

def entry (e : List β × α) : List β := e.1 ++ mark :: value e.2

/-- Labelled values set off by separators. -/
def text (entries : List (List β × α)) : List β :=
  [sep].intercalate (entries.map (entry mark value))

def follow : List (List β × α) → List β
  | [] => []
  | e :: entries => sep :: text mark sep value (e :: entries)

theorem text_cons (e : List β × α) (entries : List (List β × α)) :
    text mark sep value (e :: entries) =
      e.1 ++ mark :: (value e.2 ++ follow mark sep value entries) := by
  cases entries with
  | nil => simp [text, follow, entry]
  | cons next entries =>
    simp only [text, follow, entry, map_cons, intercalate_cons_cons,
      append_assoc, cons_append, nil_append]

/-- A label that spells out no value between a mark and a separator. -/
def Plain (label : List β) : Prop :=
  ∀ (u : List β) (a : α) (v : List β), label ≠ u ++ mark :: (value a ++ sep :: v)

variable {mark sep value}

variable {entries entries' : List (List β × α)}

theorem follow_injective
    (same : follow mark sep value entries = follow mark sep value entries') :
    text mark sep value entries = text mark sep value entries' := by
  cases entries with
  | nil =>
    cases entries' with
    | nil => rfl
    | cons => cases same
  | cons =>
    cases entries' with
    | nil => cases same
    | cons => exact (List.cons.inj same).2

theorem text_ne_nil (e : List β × α) (entries : List (List β × α)) :
    text mark sep value (e :: entries) ≠ [] := by
  rw [text_cons]
  simp

theorem text_cons_injective (prefixFree : PrefixFree value) {label : List β} {a a' : α}
    (same : text mark sep value ((label, a) :: entries) =
      text mark sep value ((label, a') :: entries')) :
    a = a' ∧ text mark sep value entries = text mark sep value entries' := by
  rw [text_cons, text_cons, append_cancel_left_eq, cons_inj_right] at same
  obtain ⟨values, rests⟩ := prefixFree _ _ _ _ same
  exact ⟨values, follow_injective rests⟩

/-- **Values with known labels are read back.** -/
theorem text_injective_of_labels (prefixFree : PrefixFree value)
    (labels : entries.map Prod.fst = entries'.map Prod.fst)
    (same : text mark sep value entries = text mark sep value entries') :
    entries = entries' := by
  induction entries generalizing entries' with
  | nil => exact (map_eq_nil_iff.mp labels.symm).symm
  | cons e entries ih =>
    cases entries' with
    | nil => cases labels
    | cons e' entries' =>
      obtain ⟨label, a⟩ := e
      obtain ⟨label', a'⟩ := e'
      obtain ⟨rfl, rest⟩ := List.cons.inj labels
      obtain ⟨rfl, texts⟩ := text_cons_injective prefixFree same
      rw [ih rest texts]

/-- A first label that properly extends another spells out the other's value. -/
theorem label_of_text_eq (apart : mark ≠ sep) (unmarked : ∀ a, mark ∉ value a)
    {label : List β} {extra : List β} {a a' : α}
    (plain : Plain mark sep value (label ++ extra))
    (same : mark :: (value a ++ follow mark sep value entries) =
      extra ++ mark :: (value a' ++ follow mark sep value entries')) : extra = [] := by
  cases extra with
  | nil => rfl
  | cons c extra =>
    obtain ⟨rfl, inner⟩ := List.cons.inj same
    rcases append_eq_append_iff.mp inner with ⟨y, split, tail⟩ | ⟨y, split, tail⟩
    · cases entries with
      | nil =>
        obtain ⟨_, none⟩ := append_eq_nil_iff.mp tail.symm
        cases none
      | cons e entries =>
        cases y with
        | nil => exact absurd (List.cons.inj tail).1.symm apart
        | cons d y =>
          obtain ⟨rfl, _⟩ := List.cons.inj tail
          exact absurd (by rw [split]) (plain label a y)
    · cases y with
      | nil =>
        cases entries with
        | nil => cases tail
        | cons e entries => exact absurd (List.cons.inj tail).1 apart
      | cons d y =>
        obtain ⟨rfl, _⟩ := List.cons.inj tail
        have inside : mark ∈ value a := by
          rw [split]
          simp
        exact absurd inside (unmarked a)

/-- **Values with plain labels are read back, and their labels with them.** -/
theorem text_injective_of_plain (prefixFree : PrefixFree value) (apart : mark ≠ sep)
    (unmarked : ∀ a, mark ∉ value a)
    (plain : ∀ e ∈ entries, Plain mark sep value e.1)
    (plain' : ∀ e ∈ entries', Plain mark sep value e.1)
    (same : text mark sep value entries = text mark sep value entries') :
    entries = entries' := by
  induction entries generalizing entries' with
  | nil =>
    cases entries' with
    | nil => rfl
    | cons e' entries' => exact absurd same.symm (text_ne_nil e' entries')
  | cons e entries ih =>
    cases entries' with
    | nil => exact absurd same (text_ne_nil e entries)
    | cons e' entries' =>
      obtain ⟨label, a⟩ := e
      obtain ⟨label', a'⟩ := e'
      have labels : label = label' := by
        have split := same
        rw [text_cons, text_cons] at split
        rcases append_eq_append_iff.mp split with ⟨x, longer, inner⟩ | ⟨x, longer, inner⟩
        · simp only at longer
          have none := label_of_text_eq apart unmarked
            (longer ▸ plain' _ mem_cons_self) inner
          rw [longer, none, append_nil]
        · simp only at longer
          have none := label_of_text_eq apart unmarked
            (longer ▸ plain _ mem_cons_self) inner
          rw [longer, none, append_nil]
      subst labels
      obtain ⟨rfl, texts⟩ := text_cons_injective prefixFree same
      rw [ih (fun e mem => plain e (mem_cons_of_mem _ mem))
        (fun e mem => plain' e (mem_cons_of_mem _ mem)) texts]

end Labelled

end Delimited
