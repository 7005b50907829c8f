import Vknn.Core.Json
import Mathlib.Data.List.TakeWhile

/-!
# Where strings come from

A string that the parser reads stands between two quotes in the text.  Between them a quote
comes behind a backslash, and the text is longer than the string whenever it has a
backslash.  The string entries of an object stand behind their keys, with nothing but blanks
and colons between.
-/

namespace Vknn.JsonParser

open List Nat Or Prod Option

/-! ## Escaped text -/

/-- The text between two quotes, and what it stands for. -/
inductive Escaped : Str → Str → Prop where
  | nil : Escaped [] []
  | plain {c : UInt8} {r o : Str} (quote : c ≠ 34) (slash : c ≠ 92) (rest : Escaped r o) :
      Escaped (c :: r) (c :: o)
  | pair {e : UInt8} {r o : Str} (rest : Escaped r o) : Escaped (92 :: e :: r) (unescape e :: o)

variable {o r u : Str} {fuel : Nat}

variable {s text x : Str} {obj : List (Str × JsonValue)} {v : JsonValue}

/-- **Inside, a quote comes behind a backslash.** -/
theorem Escaped.quote {y : Str} (escaped : Escaped r o) (split : r = x ++ 34 :: y) :
    ∃ x', x = x' ++ [92] := by
  induction escaped generalizing x with
  | nil =>
    have impossible := congrArg List.length split
    simp at impossible
  | @plain c r o quote slash rest ih =>
    cases x with
    | nil => exact absurd (List.cons.inj split).1 quote
    | cons d x =>
      obtain ⟨rfl, tail⟩ := List.cons.inj split
      obtain ⟨x', rfl⟩ := ih tail
      exact ⟨c :: x', rfl⟩
  | @pair e r o rest ih =>
    cases x with
    | nil => exact absurd (List.cons.inj split).1 (by decide)
    | cons d x =>
      obtain ⟨rfl, tail⟩ := List.cons.inj split
      cases x with
      | nil => exact ⟨[], rfl⟩
      | cons e' x =>
        obtain ⟨rfl, tail'⟩ := List.cons.inj tail
        obtain ⟨x', rfl⟩ := ih tail'
        exact ⟨92 :: e :: x', rfl⟩

theorem Escaped.eq_self (escaped : Escaped r o) (plain : (92 : UInt8) ∉ r) : o = r := by
  induction escaped with
  | nil => rfl
  | plain _ _ _ ih => rw [ih fun mem => plain (mem_cons_of_mem _ mem)]
  | pair _ _ => exact absurd mem_cons_self plain

theorem escaped_self (quote : (34 : UInt8) ∉ r) (slash : (92 : UInt8) ∉ r) : Escaped r r := by
  induction r with
  | nil => exact .nil
  | cons c r ih =>
    rw [mem_cons, not_or] at quote slash
    exact .plain (Ne.symm quote.1) (Ne.symm slash.1) (ih quote.2 slash.2)

theorem Escaped.slash_mem (escaped : Escaped r o)
    (special : (34 : UInt8) ∈ o ∨ (92 : UInt8) ∈ o) : (92 : UInt8) ∈ r := by
  induction escaped with
  | nil => rcases special with h | h <;> cases h
  | @plain c r o quote slash rest ih =>
    refine mem_cons_of_mem _ (ih ?_)
    rcases special with h | h
    · exact inl (mem_of_ne_of_mem (Ne.symm quote) h)
    · exact inr (mem_of_ne_of_mem (Ne.symm slash) h)
  | pair _ _ => exact mem_cons_self

theorem Escaped.length_le (escaped : Escaped r o) : o.length ≤ r.length := by
  induction escaped with
  | nil => rfl
  | plain _ _ _ ih => exact succ_le_succ ih
  | pair _ ih => exact le_succ_of_le (succ_le_succ ih)

/-- **A backslash makes the text longer than the string.** -/
theorem Escaped.length_lt (escaped : Escaped r o) (slash : (92 : UInt8) ∈ r) :
    o.length < r.length := by
  induction escaped with
  | nil => cases slash
  | @plain c r o quote plain rest ih =>
    exact succ_lt_succ (ih (mem_of_ne_of_mem (Ne.symm plain) slash))
  | pair rest _ => exact succ_lt_succ (lt_succ_of_le rest.length_le)

theorem Escaped.blank_mem (escaped : Escaped r o) (blank : (32 : UInt8) ∈ r) :
    (32 : UInt8) ∈ o := by
  induction escaped with
  | nil => cases blank
  | plain _ _ _ ih =>
    rcases mem_cons.mp blank with rfl | later
    · exact mem_cons_self
    · exact mem_cons_of_mem _ (ih later)
  | @pair e r o rest ih =>
    rcases mem_cons.mp blank with same | later
    · exact absurd same (by decide)
    rcases mem_cons.mp later with rfl | later
    · exact mem_cons_self
    · exact mem_cons_of_mem _ (ih later)

/-- The last character behind another one that is no backslash is that of the string. -/
theorem Escaped.last {b a : UInt8} (escaped : Escaped r o) (split : r = x ++ [b, a])
    (plain : b ≠ 92) : ∃ o', o = o' ++ [a] := by
  have single : ∀ {o : Str}, Escaped [a] o → o = [a] := by
    intro o one
    cases one with
    | plain _ _ rest =>
      cases rest
      rfl
  induction escaped generalizing x with
  | nil =>
    have impossible := congrArg List.length split
    simp at impossible
  | @plain c r o quote slash rest ih =>
    cases x with
    | nil =>
      obtain ⟨rfl, rfl⟩ := List.cons.inj split
      exact ⟨[c], by rw [single rest]; rfl⟩
    | cons d x =>
      obtain ⟨o', rfl⟩ := ih (List.cons.inj split).2
      exact ⟨c :: o', rfl⟩
  | @pair e r o rest ih =>
    cases x with
    | nil => exact absurd (List.cons.inj split).1.symm plain
    | cons d x =>
      have tail := (List.cons.inj split).2
      cases x with
      | nil =>
        obtain ⟨rfl, rfl⟩ := List.cons.inj tail
        exact ⟨[unescape e], by rw [single rest]; rfl⟩
      | cons d' x =>
        obtain ⟨o', rfl⟩ := ih (List.cons.inj tail).2
        exact ⟨unescape e :: o', rfl⟩

/-! ## Strings that are read -/

/-- What ends a string: the end of the text, or a quote. -/
def Ends (r : Str) : Prop := r = [] ∨ ∃ b, r = 34 :: b

theorem strBody_of_escaped (escaped : Escaped r o) (b : Str) :
    strBody (r ++ 34 :: b) = (o, 34 :: b) := by
  induction escaped with
  | nil =>
    unfold strBody
    rfl
  | plain quote slash _ ih =>
    rw [cons_append]
    unfold strBody
    rw [if_neg quote, if_neg slash, ih]
  | pair _ ih =>
    rw [cons_append, cons_append]
    unfold strBody
    rw [if_neg (by decide), if_pos rfl]
    dsimp only
    rw [ih]

/-- **What is read is escaped text**, in a text that does not end in a backslash. -/
theorem strBody_spec (closed : u.getLast? ≠ some 92) :
    ∃ r, u = r ++ (strBody u).2 ∧ Escaped r (strBody u).1 ∧ Ends (strBody u).2 := by
  fun_induction strBody u with
  | case1 => exact ⟨[], rfl, .nil, inl rfl⟩
  | case2 u => exact ⟨[], rfl, .nil, inr ⟨u, rfl⟩⟩
  | case3 => exact absurd rfl closed
  | case4 e u _ ih =>
    have closed' : u.getLast? ≠ some 92 := by
      intro last
      refine closed ?_
      rw [getLast?_cons_of_ne_nil (cons_ne_nil _ _), getLast?_cons, last]
      rfl
    obtain ⟨r, split, escaped, ends⟩ := ih closed'
    refine ⟨92 :: e :: r, ?_, .pair escaped, ends⟩
    rw [cons_append, cons_append, ← split]
  | case5 c u quote slash ih =>
    have closed' : u.getLast? ≠ some 92 := by
      intro last
      refine closed ?_
      rw [getLast?_cons, last]
      rfl
    obtain ⟨r, split, escaped, ends⟩ := ih closed'
    refine ⟨c :: r, ?_, .plain quote slash escaped, ends⟩
    rw [cons_append, ← split]

theorem closed_of_suffix {w : Str} (closed : w.getLast? ≠ some 92) (suffix : u <:+ w) :
    u.getLast? ≠ some 92 := by
  obtain ⟨front, rfl⟩ := suffix
  intro last
  refine closed ?_
  rw [getLast?_append, last]
  rfl

theorem ws_split (u : Str) : ∃ gap, u = gap ++ ws u ∧ (34 : UInt8) ∉ gap := by
  refine ⟨u.takeWhile isBlank, (takeWhile_append_dropWhile).symm, fun quote => ?_⟩
  have blank := mem_takeWhile_imp quote
  revert blank
  decide

theorem colon_split (u : Str) : ∃ gap, u = gap ++ colon u ∧ (34 : UInt8) ∉ gap := by
  unfold colon
  split
  · rename_i here
    cases u with
    | nil => exact ⟨[], rfl, not_mem_nil⟩
    | cons c u =>
      have same : c = 58 := here
      subst same
      exact ⟨[58], rfl, by decide⟩
  · exact ⟨[], rfl, not_mem_nil⟩

theorem object_kind
    (read : object fuel u obj = some (v, r)) : ∃ obj, v = .object obj := by
  induction fuel generalizing u obj with
  | zero => cases read
  | succ fuel ih =>
    unfold object at read
    split at read
    · exact ⟨obj, (mk.inj (some.inj read)).1.symm⟩
    · dsimp only at read
      split at read
      · cases read
      · exact ih read

theorem array_kind {arr : List JsonValue}
    (read : array fuel u arr = some (v, r)) : ∃ arr, v = .array arr := by
  induction fuel generalizing u arr with
  | zero => cases read
  | succ fuel ih =>
    unfold array at read
    split at read
    · exact ⟨arr.reverse, (mk.inj (some.inj read)).1.symm⟩
    · split at read
      · cases read
      · exact ih read

theorem value_string (read : value fuel u = some (.string s, r)) :
    ∃ w, ws u = 34 :: w ∧ s = (strBody w).1 := by
  cases fuel with
  | zero => cases read
  | succ fuel =>
    unfold value at read
    dsimp only at read
    split at read
    · obtain ⟨obj, absurd⟩ := object_kind read
      cases absurd
    split at read
    · obtain ⟨arr, absurd⟩ := array_kind read
      cases absurd
    split at read
    · rename_i quote
      cases text : ws u with
      | nil =>
        rw [text] at quote
        cases quote
      | cons c w =>
        rw [text] at quote read
        have same : c = 34 := quote
        subst same
        exact ⟨w, rfl, (JsonValue.string.inj (mk.inj (some.inj read)).1).symm⟩
    split at read
    · cases read
    split at read
    · cases read
    · cases read

def StringEntry (text k s : Str) : Prop :=
  ∃ front key gap body back,
    text = front ++ 34 :: (key ++ 34 :: (gap ++ 34 :: (body ++ back))) ∧
    Escaped key k ∧ (34 : UInt8) ∉ gap ∧ Escaped body s ∧ Ends back

/-- **The string entries of an object stand behind their keys.** -/
theorem object_entries (closed : text.getLast? ≠ some 92) (fuel : Nat)
    {obj' : List (Str × JsonValue)} (suffix : u <:+ text)
    (before : ∀ k s, (k, JsonValue.string s) ∈ obj → k ≠ [] → StringEntry text k s)
    (read : object fuel u obj = some (.object obj', r)) :
    ∀ k s, (k, JsonValue.string s) ∈ obj' → k ≠ [] → StringEntry text k s := by
  induction fuel generalizing u obj with
  | zero => cases read
  | succ fuel ih =>
    unfold object at read
    split at read
    · obtain ⟨same, -⟩ := mk.inj (some.inj read)
      rwa [← JsonValue.object.inj same]
    · dsimp only at read
      split at read
      · cases read
      · rename_i v rest step
        have behind : rest <:+ u := ((consumes fuel).1 _ _ _ step).1.trans
          ((colon_suffix _).trans ((ws_suffix _).trans ((str_suffix _).trans (ws_suffix _))))
        refine ih ((ws_suffix _).trans (behind.trans suffix)) ?_ read
        intro k s mem named
        rcases mem_cons.mp mem with same | older
        · obtain ⟨rfl, rfl⟩ := mk.inj same
          obtain ⟨w, value_text, rfl⟩ := value_string step
          have whole := (ws_suffix u).trans suffix
          -- A key that is not empty starts with a quote.
          cases text_eq : ws u with
          | nil =>
            rw [text_eq] at named
            exact absurd rfl named
          | cons c t =>
            by_cases quote : c = 34
            · subst quote
              rw [text_eq] at value_text whole
              change ws (colon (ws (strBody t).2.tail)) = 34 :: w at value_text
              have tail : t <:+ text := (suffix_cons _ _).trans whole
              obtain ⟨key, split, escaped, ends⟩ := strBody_spec (closed_of_suffix closed tail)
              obtain ⟨gap, split₁, quoteless⟩ := ws_split (strBody t).2.tail
              obtain ⟨gap', split₂, quoteless'⟩ := colon_split (ws (strBody t).2.tail)
              obtain ⟨gap'', split₃, quoteless''⟩ := ws_split (colon (ws (strBody t).2.tail))
              rw [value_text] at split₃
              have after : (strBody t).2.tail = (gap ++ gap' ++ gap'') ++ 34 :: w := by
                rw [append_assoc, append_assoc, ← split₃, ← split₂, ← split₁]
              have inside : w <:+ text := by
                refine List.IsSuffix.trans ?_ ((strBody_suffix t).trans tail)
                refine List.IsSuffix.trans ?_ (tail_suffix _)
                rw [after]
                exact (suffix_cons _ _).trans (suffix_append _ _)
              obtain ⟨body, split', escaped', ends'⟩ :=
                strBody_spec (closed_of_suffix closed inside)
              obtain ⟨front, rejoin⟩ := whole
              refine ⟨front, key, gap ++ gap' ++ gap'', body, (strBody w).2, ?_, ?_, ?_, escaped',
                ends'⟩
              · rw [← rejoin, ← split', ← after]
                rcases ends with none | ⟨b, some⟩
                · rw [none] at after
                  have impossible := congrArg List.length after
                  simp at impossible
                · rw [some, tail_cons]
                  rw [some] at split
                  rw [← split]
              · exact escaped
              · simp only [mem_append, not_or]
                exact ⟨⟨quoteless, quoteless'⟩, quoteless''⟩
            · refine absurd ?_ named
              rw [text_eq]
              unfold str
              split
              · rename_i same
                exact absurd (List.cons.inj same).1 quote
              · rfl
        · exact before k s older named

/-- **A string under a key of an object stands behind the key in the text.** -/
theorem parse_string {k : Str} (closed : text.getLast? ≠ some 92) (named : k ≠ [])
    (found : (parse text).get k = some (.string s)) : StringEntry text k s := by
  obtain ⟨r, read⟩ := parse_reads text
  have fuel : fuelFor text = (2 * text.length + 1) + 1 := rfl
  cases kind : parse text
  case object obj =>
      rw [kind] at found read
      obtain ⟨e, first, same⟩ := map_eq_some_iff.mp found
      have mem := mem_of_find?_eq_some first
      have key := find?_some first
      rw [decide_eq_true_eq] at key
      rw [fuel] at read
      unfold value at read
      dsimp only at read
      split at read
      · refine object_entries closed _ ?_ (fun _ _ mem => absurd mem not_mem_nil) read k s ?_ named
        · exact (ws_suffix _).trans ((tail_suffix _).trans ((ws_suffix _).trans (ws_suffix _)))
        · obtain ⟨k', v⟩ := e
          rw [← key, ← same]
          exact mem
      split at read
      · obtain ⟨arr, impossible⟩ := array_kind read
        cases impossible
      split at read
      · cases read
      split at read
      · cases read
      split at read
      · cases read
      · cases read
  all_goals
    rw [kind] at found
    cases found

end Vknn.JsonParser
