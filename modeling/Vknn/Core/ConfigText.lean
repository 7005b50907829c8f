import Vknn.Core.JsonStrings
import Vknn.Lib.Delimited
import Mathlib.Tactic.IntervalCases

/-!
# Strings printed without escapes

A text with slots holds strings of any kind, each behind its key and a quote, and in front
of a quote and the next line; what stands between the slots has no backslash.  When every
slot with a quote or a backslash is nevertheless read back, there is no such slot: the text
a string is read from is longer than the string, so it would have to lie in a longer slot,
and so on.  The one way out is a slot that ends in a backslash, which takes in the end of
its line; but then the string ends in a blank.
-/

namespace Vknn.ConfigText

open List Nat Or

open JsonParser (Escaped Ends StringEntry)

/-- A slot: the text before its line, its key, and its string. -/
structure Slot where
  before : Str
  name : Str
  text : Str

def Slot.head (p : Slot) : Str := p.before ++ [32, 32, 34] ++ p.name ++ [34, 58, 32, 34]

def slotsText : List Slot → Str → Str
  | [], last => last
  | p :: ps, last => p.head ++ (p.text ++ slotsText ps last)

/-- The end of a line and the start of the next: a quote, a comma, a line break, two blanks and
a quote. -/
def StartsLine (rest : Str) : Prop := ∃ w, rest = [34, 44, 10, 32, 32] ++ 34 :: w

/-- A string that an unescaped text cannot hold. -/
def Special (s : Str) : Prop := (34 : UInt8) ∈ s ∨ (92 : UInt8) ∈ s

/-- What is known of the text around the slots. -/
structure Framed (ps : List Slot) (last : Str) : Prop where
  before : ∀ p ∈ ps, (92 : UInt8) ∉ p.before
  slash : ∀ p ∈ ps, (92 : UInt8) ∉ p.name
  quote : ∀ p ∈ ps, (34 : UInt8) ∉ p.name
  blank : ∀ p ∈ ps, (32 : UInt8) ∉ p.name
  long : ∀ p ∈ ps, 4 ≤ p.name.length
  foot : (92 : UInt8) ∉ last
  lines : ∀ pre p post, ps = pre ++ p :: post → StartsLine (slotsText post last)

variable {p : Slot} {back o r : Str}

theorem Framed.tail {ps : List Slot} {last : Str} (framed : Framed (p :: ps) last) :
    Framed ps last :=
  ⟨fun q mem => framed.before q (mem_cons_of_mem _ mem),
    fun q mem => framed.slash q (mem_cons_of_mem _ mem),
    fun q mem => framed.quote q (mem_cons_of_mem _ mem),
    fun q mem => framed.blank q (mem_cons_of_mem _ mem),
    fun q mem => framed.long q (mem_cons_of_mem _ mem), framed.foot,
    fun pre q post split => framed.lines (p :: pre) q post (by rw [split]; rfl)⟩

/-! ## Where escaped text can be -/

/-- Escaped text that meets the end of a line ends there. -/
theorem ends_line {y w rest : Str} (escaped : Escaped r o) (ends : Ends back)
    (line : StartsLine rest) (split : r = y ++ w) (tail : rest = w ++ back) :
    w = [] ∨ w = [34, 44, 10, 32, 32] := by
  obtain ⟨more, rfl⟩ := line
  have next : ([34, 44, 10, 32, 32] ++ 34 :: more)[w.length]? = back[0]? := by
    rw [tail, getElem?_append_right le_rfl, Nat.sub_self]
  rcases Nat.lt_trichotomy w.length 5 with short | whole | long
  · -- Inside the line there is no other quote to end at.
    refine inl ?_
    rcases ends with rfl | ⟨b, rfl⟩
    · rw [getElem?_append_left (by simpa using short)] at next
      have inside := List.getElem?_eq_none_iff.mp next
      exact absurd short (not_lt.mpr inside)
    · rw [getElem?_append_left (by simpa using short)] at next
      generalize length : w.length = n at short next
      interval_cases n
      · exact length_eq_zero_iff.mp length
      all_goals exact absurd (Option.some.inj next) (by decide)
  · exact inr (append_inj_left tail (by rw [whole]; rfl)).symm
  · -- The quote of the next line comes behind a blank.
    obtain ⟨w', rfl⟩ : ∃ w', w = [34, 44, 10, 32, 32] ++ 34 :: w' := by
      rcases append_eq_append_iff.mp tail with ⟨m, prefix_eq, rest_eq⟩ | ⟨m, past, -⟩
      · cases m with
        | nil =>
          rw [append_nil] at prefix_eq
          rw [prefix_eq] at long
          exact absurd long (by decide)
        | cons a m =>
          rw [cons_append] at rest_eq
          obtain ⟨rfl, -⟩ := List.cons.inj rest_eq
          exact ⟨m, prefix_eq⟩
      · have bound := congrArg List.length past
        rw [length_append] at bound
        simp only [length_cons, length_nil] at bound
        omega
    obtain ⟨x, last⟩ := escaped.quote (x := y ++ [34, 44, 10, 32, 32]) (y := w')
      (by rw [split, append_assoc])
    have same := congrArg List.getLast? last
    simp at same

theorem Slot.slash_head {ps : List Slot} {last : Str} (framed : Framed (p :: ps) last) :
    (92 : UInt8) ∉ p.head := by
  have before := framed.before p mem_cons_self
  have name := framed.slash p mem_cons_self
  unfold Slot.head
  simp [before, name]

/-- Text that starts inside the head of a slot, and is escaped, has no backslash. -/
theorem slash_of_head {m front rest : Str} (head : p.head = (front ++ [34]) ++ m)
    (some : m ≠ []) (slash : (92 : UInt8) ∉ p.head) (escaped : Escaped r o)
    (tail : r ++ back = m ++ rest) : (92 : UInt8) ∉ r := by
  have inner : ∀ {l : Str}, l <:+: p.head → (92 : UInt8) ∉ l :=
    fun infix_head mem => slash (infix_head.subset mem)
  have ending : p.head = (p.before ++ [32, 32, 34] ++ p.name ++ [34, 58]) ++ [32] ++ [34] := by
    simp [Slot.head]
  -- The head ends in a blank and a quote, and so does what is left of it.
  obtain ⟨m, b, rfl⟩ := (eq_nil_or_concat m).resolve_left some
  rw [concat_eq_append] at head tail some
  rw [ending, ← append_assoc] at head
  obtain ⟨start, last⟩ := append_inj' head rfl
  obtain rfl : (34 : UInt8) = b := (List.cons.inj last).1
  have blank : m ≠ [] := by
    rintro rfl
    rw [append_nil] at start
    exact absurd (List.cons.inj (append_inj' start rfl).2).1 (by decide)
  obtain ⟨m, b, rfl⟩ := (eq_nil_or_concat m).resolve_left blank
  rw [concat_eq_append] at start tail
  rw [← append_assoc] at start
  obtain ⟨start', last'⟩ := append_inj' start rfl
  obtain rfl : (32 : UInt8) = b := (List.cons.inj last').1
  have within : (92 : UInt8) ∉ m ++ [32] := by
    refine inner ⟨front ++ [34], [34], ?_⟩
    rw [ending, start]
    simp
  rw [append_assoc, singleton_append] at tail
  rcases append_eq_append_iff.mp tail with ⟨k, before, -⟩ | ⟨k, past, rest_eq⟩
  · exact fun mem => within (before ▸ mem_append_left _ mem)
  · cases k with
    | nil =>
      rw [append_nil] at past
      rwa [past]
    | cons a k =>
      obtain ⟨rfl, -⟩ := List.cons.inj rest_eq
      obtain ⟨x, slashed⟩ := escaped.quote past
      have same := congrArg List.getLast? slashed
      simp at same

/-- **Where escaped text with a backslash lies**: in a slot, or it is the end of a slot together with
the end of its line. -/
theorem slot_of_region {ps : List Slot} {last : Str} (framed : Framed ps last) {front : Str}
    (text : slotsText ps last = front ++ 34 :: (r ++ back)) (escaped : Escaped r o)
    (slash : (92 : UInt8) ∈ r) (ends : Ends back) :
    ∃ pre p post x y, ps = pre ++ p :: post ∧ p.text = x ++ y ∧
      front ++ [34] = slotsText pre p.head ++ x ∧
      ((∃ z, y = r ++ z) ∨ r = y ++ [34, 44, 10, 32, 32]) := by
  induction ps generalizing front with
  | nil =>
    refine absurd ?_ framed.foot
    change last = _ at text
    rw [text]
    exact mem_append_right _ (mem_cons_of_mem _ (mem_append_left _ slash))
  | cons p ps ih =>
    have line : StartsLine (slotsText ps last) := framed.lines [] p ps rfl
    have whole : p.head ++ (p.text ++ slotsText ps last) = (front ++ [34]) ++ (r ++ back) := by
      rw [append_assoc, singleton_append]
      exact text
    have inSlot : ∀ m y, front ++ [34] = p.head ++ m → p.text = m ++ y →
        r ++ back = y ++ slotsText ps last → ∃ pre q post x y, p :: ps = pre ++ q :: post ∧
          q.text = x ++ y ∧ front ++ [34] = slotsText pre q.head ++ x ∧
          ((∃ z, y = r ++ z) ∨ r = y ++ [34, 44, 10, 32, 32]) := by
      intro m y front_eq text_eq here
      refine ⟨[], p, ps, m, y, rfl, text_eq, front_eq, ?_⟩
      rcases append_eq_append_iff.mp here with ⟨z, within, -⟩ | ⟨w, past, rest⟩
      · exact inl ⟨z, within⟩
      · rcases ends_line escaped ends line past rest with rfl | rfl
        · rw [append_nil] at past
          exact inl ⟨[], by rw [past, append_nil]⟩
        · exact inr past
    have inText : ∀ m, front ++ [34] = p.head ++ m → p.text ++ slotsText ps last = m ++ (r ++ back) →
        ∃ pre q post x y, p :: ps = pre ++ q :: post ∧ q.text = x ++ y ∧
          front ++ [34] = slotsText pre q.head ++ x ∧
          ((∃ z, y = r ++ z) ∨ r = y ++ [34, 44, 10, 32, 32]) := by
      intro m front_eq rest_eq
      rcases append_eq_append_iff.mp rest_eq with ⟨m', rfl, later⟩ | ⟨y, text_eq, here⟩
      · rcases eq_nil_or_concat m' with rfl | ⟨front', b, rfl⟩
        · refine inSlot p.text [] ?_ (append_nil _).symm later.symm
          rw [front_eq, append_nil]
        · -- Past this slot.
          rw [concat_eq_append] at front_eq later
          rw [← append_assoc, ← append_assoc] at front_eq
          obtain ⟨front_eq', last_eq⟩ := append_inj' front_eq rfl
          obtain rfl : (34 : UInt8) = b := (List.cons.inj last_eq).1
          rw [append_assoc, singleton_append] at later
          obtain ⟨pre, q, post, x, y, rfl, text_eq, place, lies⟩ := ih framed.tail later
          refine ⟨p :: pre, q, post, x, y, rfl, text_eq, ?_, lies⟩
          rw [front_eq', append_assoc, place, slotsText]
          simp only [append_assoc]
      · exact inSlot m y front_eq text_eq here
    rcases append_eq_append_iff.mp whole with ⟨m, front_eq, rest_eq⟩ | ⟨m, head_eq, rest_eq⟩
    · exact inText m front_eq rest_eq
    · cases m with
      | nil =>
        refine inText [] ?_ ?_
        · rw [append_nil, head_eq, append_nil]
        · rw [nil_append, rest_eq, nil_append]
      | cons a m =>
        exact absurd slash (slash_of_head head_eq (cons_ne_nil _ _)
          (Slot.slash_head framed) escaped rest_eq)

theorem slotsText_append (ps : List Slot) (a b : Str) :
    slotsText ps (a ++ b) = slotsText ps a ++ b := by
  induction ps with
  | nil => rfl
  | cons p ps ih =>
    rw [slotsText, slotsText, ih]
    simp only [append_assoc]

/-- The last quote of a text splits it in one way. -/
theorem last_quote {a a' b b' : Str} (quote : (34 : UInt8) ∉ b) (quote' : (34 : UInt8) ∉ b')
    (same : a ++ 34 :: b = a' ++ 34 :: b') : a = a' := by
  have reversed := congrArg List.reverse same
  simp only [reverse_append, reverse_cons, append_assoc, singleton_append]
    at reversed
  have parts := Delimited.append_cons_injective (by rwa [mem_reverse])
    (by rwa [mem_reverse]) reversed
  exact reverse_injective parts.2

/-! ## Keys in front of a slot -/

section Keys

variable {front key gap name h : Str}

/-- A key that ends where a slot's own key ends is that key. -/
theorem key_eq_name (blank : (32 : UInt8) ∉ key) (quote : (34 : UInt8) ∉ name)
    (place : front ++ 34 :: key = h ++ [32, 32] ++ 34 :: name) : key = name := by
  have apart : ∀ {l m : Str}, l ++ [34] = m ++ [32] → False := by
    intro l m same
    exact absurd (List.cons.inj (append_inj' same rfl).2).1 (by decide)
  have line : h ++ [32, 32] = (h ++ [32]) ++ [32] := by simp
  have place' : (front ++ [34]) ++ key = (h ++ [32, 32]) ++ 34 :: name := by
    rw [← place, append_assoc, singleton_append]
  rcases append_eq_append_iff.mp place' with ⟨m, before, key_eq⟩ | ⟨m, before, name_eq⟩
  · rcases eq_nil_or_concat m with rfl | ⟨m, b, rfl⟩
    · rw [append_nil, line] at before
      exact (apart before.symm).elim
    · rw [concat_eq_append, line, ← append_assoc] at before
      obtain rfl : (32 : UInt8) = b := (List.cons.inj (append_inj' before rfl).2).1
      refine absurd ?_ blank
      rw [key_eq]
      simp
  · cases m with
    | nil =>
      rw [append_nil, line] at before
      exact (apart before).elim
    | cons a m =>
      obtain ⟨rfl, name_eq'⟩ := List.cons.inj name_eq
      rcases eq_nil_or_concat m with rfl | ⟨m, b, rfl⟩
      · exact name_eq'.symm
      · rw [concat_eq_append] at before name_eq'
        rw [← cons_append, ← append_assoc] at before
        obtain rfl : (34 : UInt8) = b := (List.cons.inj (append_inj' before rfl).2).1
        refine absurd ?_ quote
        rw [name_eq']
        simp

/-- No key ends inside the first characters of a slot's string. -/
theorem no_key_in_slot {x : Str} (blank : (32 : UInt8) ∉ key) (quote : (34 : UInt8) ∉ gap)
    (long : 4 ≤ key.length) (short : x.length ≤ 3)
    (place : front ++ 34 :: (key ++ 34 :: gap) = h ++ [32, 34] ++ x) : False := by
  have place' : (front ++ 34 :: key ++ [34]) ++ gap = (h ++ [32, 34]) ++ x := by
    rw [← place]
    simp
  have line : h ++ [32, 34] = (h ++ [32]) ++ [34] := by simp
  -- A key that ends at the quote of the slot ends in a blank.
  have atQuote : front ++ 34 :: key ++ [34] = h ++ [32, 34] → False := by
    intro same
    rw [line] at same
    have ends := (append_inj' same rfl).1
    rcases eq_nil_or_concat key with rfl | ⟨key', b, rfl⟩
    · exact absurd long (by decide)
    · rw [concat_eq_append, ← cons_append, ← append_assoc] at ends
      obtain rfl : b = 32 := (List.cons.inj (append_inj' ends rfl).2).1
      exact blank (by simp)
  rcases append_eq_append_iff.mp place' with ⟨m, before, gap_eq⟩ | ⟨m, before, x_eq⟩
  · rcases eq_nil_or_concat m with rfl | ⟨m, b, rfl⟩
    · rw [append_nil] at before
      exact atQuote before.symm
    · rw [concat_eq_append, line, ← append_assoc] at before
      obtain rfl : (34 : UInt8) = b := (List.cons.inj (append_inj' before rfl).2).1
      refine quote ?_
      rw [gap_eq]
      simp
  · rcases eq_nil_or_concat m with rfl | ⟨m, b, rfl⟩
    · rw [append_nil] at before
      exact atQuote before
    · rw [concat_eq_append] at before x_eq
      rw [← append_assoc] at before
      have ends := (append_inj' before rfl).1
      have start : (front ++ [34]) ++ key = h ++ ([32, 34] ++ m) := by
        rw [← append_assoc, ← ends]
        simp
      have bound := congrArg List.length x_eq
      simp only [length_append, length_cons, length_nil] at bound
      rcases append_eq_append_iff.mp start with ⟨k, -, key_eq⟩ | ⟨k, -, key_eq⟩
      · refine blank ?_
        rw [key_eq]
        simp
      · have lengths := congrArg List.length key_eq
        simp only [length_append, length_cons, length_nil] at lengths
        obtain rfl : k = [] := length_eq_zero_iff.mp (by omega)
        rw [nil_append] at key_eq
        refine blank ?_
        rw [← key_eq]
        simp

end Keys

/-! ## No way to hold a special string -/

variable {ps : List Slot} {last : Str}

/-- A special string that is read back lies in a longer special string. -/
theorem longer_special (framed : Framed ps last)
    (distinct : ∀ p ∈ ps, ∀ q ∈ ps, p.name = q.name → p.text = q.text) (mem : p ∈ ps)
    (special : Special p.text) (entry : StringEntry (slotsText ps last) p.name p.text) :
    ∃ q ∈ ps, Special q.text ∧ p.text.length < q.text.length := by
  obtain ⟨front, key, gap, body, back, text, keyed, quoteless, escaped, ends⟩ := entry
  have slash := escaped.slash_mem special
  have less := escaped.length_lt slash
  have blank : (32 : UInt8) ∉ key := fun inside => framed.blank p mem (keyed.blank_mem inside)
  have long : 4 ≤ key.length := (framed.long p mem).trans keyed.length_le
  have text' : slotsText ps last = (front ++ 34 :: (key ++ 34 :: gap)) ++ 34 :: (body ++ back) := by
    rw [text]
    simp
  obtain ⟨pre, q, post, x, y, split, text_eq, place, lies⟩ :=
    slot_of_region framed text' escaped slash ends
  have among : q ∈ ps := by
    rw [split]
    exact mem_append_right _ mem_cons_self
  have length := congrArg List.length text_eq
  rw [length_append] at length
  rcases lies with ⟨z, within⟩ | past
  · refine ⟨q, among, inr ?_, ?_⟩
    · rw [text_eq, within]
      exact mem_append_right _ (mem_append_left _ slash)
    · have bound := congrArg List.length within
      rw [length_append] at bound
      omega
  have special' : Special q.text := by
    rw [past] at slash
    rcases mem_append.mp slash with inside | outside
    · exact inr (text_eq ▸ mem_append_right _ inside)
    · exact absurd outside (by decide)
  have bound := congrArg List.length past
  simp only [length_append, length_cons, length_nil] at bound
  by_cases far : 5 ≤ x.length
  · exact ⟨q, among, special', by omega⟩
  exfalso
  have head : slotsText pre q.head =
      slotsText pre q.before ++ [32, 32, 34] ++ q.name ++ [34, 58] ++ [32, 34] := by
    rw [Slot.head, append_assoc, append_assoc, slotsText_append]
    simp
  rw [head] at place
  rcases eq_nil_or_concat x with rfl | ⟨x', b, rfl⟩
  · -- The slot's own key: the string ends in a backslash, and in a blank.
    have front_eq : front ++ 34 :: (key ++ 34 :: gap) =
        (slotsText pre q.before ++ [32, 32, 34] ++ q.name) ++ 34 :: [58, 32] := by
      refine append_cancel_right (place.trans ?_)
      simp
    have key_eq : key = q.name := by
      refine key_eq_name blank (framed.quote q among) (?_ : front ++ 34 :: key =
        slotsText pre q.before ++ [32, 32] ++ 34 :: q.name)
      have ends : (34 : UInt8) ∉ [58, 32] := by decide
      have split := last_quote quoteless ends
        ((append_assoc front (34 :: key) (34 :: gap)).trans front_eq)
      rw [split]
      simp
    have own : p.name = q.name := by
      rw [key_eq] at keyed
      exact keyed.eq_self (framed.slash q among)
    rw [nil_append] at text_eq
    obtain ⟨y', slashed⟩ := escaped.quote (x := y) (y := [44, 10, 32, 32]) past
    obtain ⟨o, blanked⟩ := escaped.last (x := y ++ [34, 44, 10]) (b := 32) (a := 32)
      (by rw [past]; simp) (by decide)
    have same : y' ++ [92] = o ++ [32] := by
      rw [← slashed, ← text_eq, ← blanked, distinct p mem q among own]
    exact absurd (List.cons.inj (append_inj' same rfl).2).1 (by decide)
  · rw [concat_eq_append] at place far
    rw [← append_assoc] at place
    refine no_key_in_slot blank quoteless long ?_ (append_inj' place rfl).1
    rw [length_append, length_singleton] at far
    omega

/-- **Strings printed without escapes are read back only where they need none.** -/
theorem no_special (framed : Framed ps last)
    (distinct : ∀ p ∈ ps, ∀ q ∈ ps, p.name = q.name → p.text = q.text)
    (entries : ∀ p ∈ ps, Special p.text → StringEntry (slotsText ps last) p.name p.text) :
    ∀ p ∈ ps, ¬ Special p.text := by
  -- Special strings would grow without bound.
  obtain ⟨bound, within⟩ : ∃ bound, ∀ p ∈ ps, p.text.length ≤ bound := by
    clear entries distinct framed
    induction ps with
    | nil => exact ⟨0, fun p mem => nomatch mem⟩
    | cons q ps ih =>
      obtain ⟨bound, within⟩ := ih
      refine ⟨max q.text.length bound, fun p mem => ?_⟩
      rcases mem_cons.mp mem with rfl | later
      · exact le_max_left _ _
      · exact (within p later).trans (le_max_right _ _)
  have climb : ∀ n, ∀ p ∈ ps, bound < p.text.length + n → ¬ Special p.text := by
    intro n
    induction n with
    | zero =>
      intro p mem past
      exact absurd (within p mem) (not_le.mpr past)
    | succ n ih =>
      intro p mem past special
      obtain ⟨q, among, special', longer⟩ :=
        longer_special framed distinct mem special (entries p mem special)
      exact ih q among (by omega) special'
  exact fun p mem => climb (bound + 1) p mem (by omega)

end Vknn.ConfigText
