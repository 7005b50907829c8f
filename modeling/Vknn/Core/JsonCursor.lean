import Vknn.Core.Json

/-!
# Reading JSON by position

The parser holds the text and a position in it, and the position may pass the end: skipping a word
takes four characters unseen, and a character that begins nothing is skipped even where there is none.
Here every read names the position it is made at, and a read at or past the end of the text is a fault,
as is a call for a part of the text that begins past its end.  A loop that does not come to an end in
the turns that it has is a fault of another kind.

The walk by position is related to the walk over what is left of the text.  So it never meets a fault,
and it gives the same values.
-/

namespace Vknn.JsonCursor

open List

open JsonParser (isBlank isNumeric isAlpha unescape)

/-- What must not happen: a read that is not in the text, or a walk that does not end. -/
inductive Fault where
  | outside
  | unfinished
deriving DecidableEq

variable (text : Str)

/-! ## Reading -/

def read (i : Nat) : Except Fault UInt8 :=
  match text[i]? with
  | some c => .ok c
  | none => .error .outside

/-- The part of the text from a position on, of some length at most. -/
def substr (i n : Nat) : Except Fault Str :=
  if i ≤ text.length then .ok ((text.drop i).take n) else .error .outside

def skipWhile (kind : UInt8 → Bool) : Nat → Nat → Except Fault Nat
  | 0, _ => .error .unfinished
  | turns + 1, i =>
    if i < text.length then do
      let c ← read text i
      if kind c then skipWhile kind turns (i + 1) else .ok i
    else .ok i

def turns : Nat := text.length + 1

def ws (i : Nat) : Except Fault Nat := skipWhile text isBlank (turns text) i

def peek (i : Nat) : Except Fault UInt8 := if i < text.length then read text i else .ok 0

/-- Pass a closing character, if it is there. -/
def closing (c : UInt8) (i : Nat) : Except Fault Nat := do
  let d ← peek text i
  .ok (if d = c then i + 1 else i)

def strLoop : Nat → Nat → Str → Except Fault (Str × Nat)
  | 0, _, _ => .error .unfinished
  | turns + 1, i, out =>
    if i < text.length then do
      let c ← read text i
      if c = 34 then .ok (out, i)
      else if c = 92 ∧ i + 1 < text.length then do
        let e ← read text (i + 1)
        strLoop turns (i + 2) (out ++ [unescape e])
      else strLoop turns (i + 1) (out ++ [c])
    else .ok (out, i)

def str (i : Nat) : Except Fault (Str × Nat) := do
  let c ← peek text i
  if c ≠ 34 then .ok ([], i)
  else do
    let s ← strLoop text (turns text) (i + 1) []
    let i ← closing text 34 s.2
    .ok (s.1, i)

def boolean (i : Nat) : Except Fault (Bool × Nat) := do
  let word ← substr text i 4
  if word = Vknn.str "true" then .ok (true, i + 4)
  else do
    let word ← substr text i 5
    if word = Vknn.str "false" then .ok (false, i + 5)
    else do
      let j ← skipWhile text isAlpha (turns text) i
      .ok (false, j)

def number (i : Nat) : Except Fault (ℚ × Nat) := do
  let j ← skipWhile text isNumeric (turns text) i
  if j = i then .ok (0, i + 1)
  else do
    let digits ← substr text i (j - i)
    .ok ((stod digits).getD 0, j)

def colon (i : Nat) : Except Fault Nat := do
  let c ← peek text i
  .ok (if c = 58 then i + 1 else i)

mutual

def value : Nat → Nat → Except Fault (JsonValue × Nat)
  | 0, _ => .error .unfinished
  | fuel + 1, i => do
      let i ← ws text i
      let c ← peek text i
      if c = 123 then do
        let i ← ws text (i + 1)
        object fuel i []
      else if c = 91 then do
        let i ← ws text (i + 1)
        array fuel i []
      else if c = 34 then do
        let s ← str text i
        .ok (.string s.1, s.2)
      else if c = 116 || c = 102 then do
        let b ← boolean text i
        .ok (.bool b.1, b.2)
      else if c = 110 then .ok (.null, i + 4)
      else do
        let n ← number text i
        .ok (.number n.1, n.2)

/-- The entries of an object, up to its closing brace. -/
def object : Nat → Nat → List (Str × JsonValue) → Except Fault (JsonValue × Nat)
  | 0, _, _ => .error .unfinished
  | fuel + 1, i, obj => do
      let c ← peek text i
      if c = 125 ∨ ¬ i < text.length then do
        let i ← closing text 125 i
        .ok (.object obj, i)
      else do
        let i ← ws text i
        let key ← str text i
        let i ← ws text key.2
        let i ← colon text i
        let v ← value fuel i
        let i ← ws text v.2
        object fuel i ((key.1, v.1) :: obj)

/-- The elements of an array, up to its closing bracket. -/
def array : Nat → Nat → List JsonValue → Except Fault (JsonValue × Nat)
  | 0, _, _ => .error .unfinished
  | fuel + 1, i, arr => do
      let c ← peek text i
      if c = 93 ∨ ¬ i < text.length then do
        let i ← closing text 93 i
        .ok (.array arr.reverse, i)
      else do
        let v ← value fuel i
        let i ← ws text v.2
        array fuel i (v.1 :: arr)

end

/-- The value of a text, in some turns. -/
def parse (fuel : Nat) : Except Fault JsonValue := do
  let i ← ws text 0
  let v ← value text fuel i
  .ok v.1

/-! ## What is left -/

/-- A step that gives what the walk over the rest of the text gives. -/
def Leaves {α : Type} (step : Except Fault (α × Nat)) (a : α) (rest : Str) : Prop :=
  ∃ j, step = .ok (a, j) ∧ text.drop j = rest

variable {text}

theorem ok_bind {ε α β : Type} (a : α) (f : α → Except ε β) : (Except.ok a >>= f) = f a := rfl

variable {i : Nat} {u : Str}

theorem read_of_cons {c : UInt8} (left : text.drop i = c :: u) :
    i < text.length ∧ read text i = .ok c ∧ text.drop (i + 1) = u := by
  have inside : i < text.length := by
    by_contra past
    rw [drop_eq_nil_of_le (not_lt.mp past)] at left
    cases left
  have split := drop_eq_getElem_cons inside
  rw [left] at split
  obtain ⟨first, rest⟩ := List.cons.inj split
  refine ⟨inside, ?_, rest.symm⟩
  unfold read
  rw [getElem?_eq_getElem inside, ← first]

theorem past_of_nil (left : text.drop i = []) : ¬ i < text.length :=
  not_lt.mpr (drop_eq_nil_iff.mp left)

theorem drop_succ (left : text.drop i = u) : text.drop (i + 1) = u.tail := by rw [← left, tail_drop]

theorem peek_left (left : text.drop i = u) : peek text i = .ok (JsonParser.peek u) := by
  unfold peek
  cases u with
  | nil => exact if_neg (past_of_nil left)
  | cons c u =>
    obtain ⟨inside, here, -⟩ := read_of_cons left
    rw [if_pos inside, here]
    rfl

/-- Passing characters ends where the rest no longer begins with one of the kind. -/
theorem skipWhile_left (kind : UInt8 → Bool) {n : Nat} (left : text.drop i = u)
    (enough : u.length < n) : ∃ j, skipWhile text kind n i = .ok j ∧
      text.drop j = u.dropWhile kind ∧ j = i + (u.takeWhile kind).length := by
  induction n generalizing i u with
  | zero => cases enough
  | succ n ih =>
    unfold skipWhile
    cases u with
    | nil => exact ⟨i, if_neg (past_of_nil left), left, rfl⟩
    | cons c u =>
      obtain ⟨inside, here, next⟩ := read_of_cons left
      rw [if_pos inside, here, ok_bind]
      cases same : kind c with
      | false =>
        refine ⟨i, rfl, ?_, ?_⟩
        · rw [left, dropWhile_cons_of_neg (by simp [same])]
        · rw [takeWhile_cons_of_neg (by simp [same])]
          rfl
      | true =>
        obtain ⟨j, ends, rest, place⟩ := ih next (Nat.lt_of_succ_lt_succ enough)
        refine ⟨j, ends, ?_, ?_⟩
        · rw [rest, dropWhile_cons_of_pos same]
        · rw [place, takeWhile_cons_of_pos same, length_cons]
          omega

theorem length_lt_turns (left : text.drop i = u) : u.length < turns text := by
  rw [← left, length_drop]
  unfold turns
  omega

theorem ws_left {i : Nat} {u : Str} (left : text.drop i = u) :
    ∃ j, ws text i = .ok j ∧ text.drop j = JsonParser.ws u := by
  obtain ⟨j, ends, rest, -⟩ := skipWhile_left isBlank left (length_lt_turns left)
  exact ⟨j, ends, rest⟩

theorem strLoop_left {n : Nat} (left : text.drop i = u) (enough : u.length < n)
    (out : Str) : Leaves text (strLoop text n i out) (out ++ (JsonParser.strBody u).1)
      (JsonParser.strBody u).2 := by
  induction n generalizing i u out with
  | zero => cases enough
  | succ n ih =>
    unfold strLoop
    cases u with
    | nil => exact ⟨i, by rw [if_neg (past_of_nil left)]; simp [JsonParser.strBody], left⟩
    | cons c u =>
      obtain ⟨inside, here, next⟩ := read_of_cons left
      have shorter : u.length < n := Nat.lt_of_succ_lt_succ enough
      rw [if_pos inside, here, ok_bind]
      unfold JsonParser.strBody
      by_cases quote : c = 34
      · rw [if_pos quote, if_pos quote]
        exact ⟨i, by simp, left⟩
      · rw [if_neg quote, if_neg quote]
        by_cases escape : c = 92
        · rw [if_pos escape]
          cases u with
          | nil =>
            -- A backslash at the end stands for itself.
            rw [if_neg fun both => past_of_nil next both.2]
            obtain ⟨j, ends, rest⟩ := ih next shorter (out ++ [c])
            refine ⟨j, ends.trans ?_, rest⟩
            simp [JsonParser.strBody]
          | cons e u =>
            obtain ⟨inside', here', next'⟩ := read_of_cons next
            rw [if_pos ⟨escape, inside'⟩, here', ok_bind]
            obtain ⟨j, ends, rest⟩ := ih next' (Nat.lt_of_succ_lt shorter) (out ++ [unescape e])
            refine ⟨j, ends.trans ?_, rest⟩
            simp
        · rw [if_neg escape, if_neg fun both => escape both.1]
          obtain ⟨j, ends, rest⟩ := ih next shorter (out ++ [c])
          refine ⟨j, ends.trans ?_, rest⟩
          simp

/-- At a closing character or at the end of the text, the rest is the tail. -/
theorem closing_left {c : UInt8} (left : text.drop i = u)
    (ends : JsonParser.peek u = c ∨ u = []) :
    ∃ j, closing text c i = .ok j ∧ text.drop j = u.tail := by
  unfold closing
  rw [peek_left left, ok_bind]
  refine ⟨_, rfl, ?_⟩
  split
  · exact drop_succ left
  · rename_i open_
    obtain rfl := ends.resolve_left open_
    exact left

/-- The characters of a string end at a quote or at the end of the text. -/
theorem strBody_ends (u : Str) :
    JsonParser.peek (JsonParser.strBody u).2 = 34 ∨ (JsonParser.strBody u).2 = [] := by
  fun_induction JsonParser.strBody u with
  | case1 => exact .inr rfl
  | case2 => exact .inl rfl
  | case3 => exact .inr rfl
  | case4 _ _ _ ih => exact ih
  | case5 _ _ _ _ ih => exact ih

theorem str_left (left : text.drop i = u) :
    Leaves text (str text i) (JsonParser.str u).1 (JsonParser.str u).2 := by
  unfold str
  rw [peek_left left, ok_bind]
  split
  · rename_i plain
    unfold JsonParser.str
    split
    · exact absurd rfl plain
    · exact ⟨i, rfl, left⟩
  · rename_i quote
    rw [not_not] at quote
    cases u with
    | nil => cases quote
    | cons c u =>
      obtain rfl : c = 34 := quote
      obtain ⟨-, -, next⟩ := read_of_cons left
      obtain ⟨j, ends, rest⟩ := strLoop_left next (length_lt_turns next) []
      obtain ⟨k, closes, behind⟩ := closing_left rest (strBody_ends u)
      rw [ends, ok_bind, closes, ok_bind]
      exact ⟨k, rfl, behind⟩

theorem boolean_left (left : text.drop i = u) (more : u ≠ []) :
    Leaves text (boolean text i) (JsonParser.boolean u).1 (JsonParser.boolean u).2 := by
  have inside : i ≤ text.length := by
    by_contra past
    exact more (left ▸ drop_eq_nil_of_le (not_le.mp past).le)
  unfold boolean substr
  rw [if_pos inside, if_pos inside, ok_bind, left]
  unfold JsonParser.boolean
  split
  · exact ⟨i + 4, rfl, by rw [← left, drop_drop]⟩
  · rw [ok_bind]
    split
    · exact ⟨i + 5, rfl, by rw [← left, drop_drop]⟩
    · obtain ⟨j, ends, rest, -⟩ := skipWhile_left isAlpha left (length_lt_turns left)
      rw [ends, ok_bind]
      exact ⟨j, rfl, rest⟩

theorem number_left (left : text.drop i = u) :
    Leaves text (number text i) (JsonParser.number u).1 (JsonParser.number u).2 := by
  obtain ⟨j, ends, rest, place⟩ := skipWhile_left isNumeric left (length_lt_turns left)
  unfold number
  rw [ends, ok_bind]
  unfold JsonParser.number
  by_cases none : (u.takeWhile isNumeric).isEmpty
  · rw [if_pos none, if_pos (by rw [place, List.isEmpty_iff.mp none]; rfl)]
    exact ⟨i + 1, rfl, drop_succ left⟩
  · have more : j ≠ i := by
      intro same
      refine none (List.isEmpty_iff.mpr (length_eq_zero_iff.mp ?_))
      omega
    have inside : i ≤ text.length := by
      by_contra past
      rw [drop_eq_nil_of_le (not_le.mp past).le] at left
      exact none (left ▸ rfl)
    have digits : substr text i (j - i) = .ok (u.takeWhile isNumeric) := by
      unfold substr
      rw [if_pos inside, left, place, Nat.add_sub_cancel_left]
      exact congrArg Except.ok (prefix_iff_eq_take.mp ( takeWhile_prefix _)).symm
    rw [if_neg none, if_neg more, digits, ok_bind]
    exact ⟨j, rfl, rest⟩

theorem colon_left (left : text.drop i = u) :
    ∃ j, colon text i = .ok j ∧ text.drop j = JsonParser.colon u := by
  unfold colon
  rw [peek_left left, ok_bind]
  refine ⟨_, rfl, ?_⟩
  unfold JsonParser.colon
  split
  · exact drop_succ left
  · exact left

/-! ## The walk -/

variable (text) in
/-- A step follows a walk over the rest of the text: it gives what that gives, or has no turns left
where that has none. -/
def Follows {α : Type} (step : Except Fault (α × Nat)) (walk : Option (α × Str)) : Prop :=
  match walk with
  | some (a, rest) => Leaves text step a rest
  | none => step = .error .unfinished

/-- **The walk by position follows the walk over what is left.** -/
theorem follows (fuel : Nat) :
    (∀ i u, text.drop i = u → Follows text (value text fuel i) (JsonParser.value fuel u)) ∧
    (∀ i u obj, text.drop i = u →
      Follows text (object text fuel i obj) (JsonParser.object fuel u obj)) ∧
    ∀ i u arr, text.drop i = u →
      Follows text (array text fuel i arr) (JsonParser.array fuel u arr) := by
  induction fuel with
  | zero => exact ⟨fun _ _ _ => rfl, fun _ _ _ _ => rfl, fun _ _ _ _ => rfl⟩
  | succ fuel ih =>
    obtain ⟨value_ih, object_ih, array_ih⟩ := ih
    refine ⟨fun i u left => ?_, fun i u obj left => ?_, fun i u arr left => ?_⟩
    · obtain ⟨j, blanks, start⟩ := ws_left left
      obtain ⟨k, inner, next⟩ := ws_left (drop_succ start)
      unfold value JsonParser.value
      dsimp only
      rw [blanks, ok_bind, peek_left start, ok_bind]
      split
      · rw [inner, ok_bind]
        exact object_ih _ _ _ next
      split
      · rw [inner, ok_bind]
        exact array_ih _ _ _ next
      split
      · obtain ⟨l, ends, rest⟩ := str_left start
        rw [ends, ok_bind]
        exact ⟨l, rfl, rest⟩
      split
      · rename_i word
        have more : JsonParser.ws u ≠ [] := by
          intro none
          rw [none] at word
          cases word
        obtain ⟨l, ends, rest⟩ := boolean_left start more
        rw [ends, ok_bind]
        exact ⟨l, rfl, rest⟩
      split
      · exact ⟨j + 4, rfl, by rw [← start, drop_drop]⟩
      · obtain ⟨l, ends, rest⟩ := number_left start
        rw [ends, ok_bind]
        exact ⟨l, rfl, rest⟩
    · unfold object JsonParser.object
      rw [peek_left left, ok_bind]
      by_cases ends : JsonParser.peek u = 125 ∨ u = []
      · obtain ⟨j, closes, rest⟩ := closing_left left ends
        rw [if_pos (ends.imp_right fun none => past_of_nil (none ▸ left)), if_pos (by simpa using ends),
          closes, ok_bind]
        exact ⟨j, rfl, rest⟩
      · have inside : i < text.length := by
          by_contra past
          exact ends (.inr (left ▸ drop_eq_nil_of_le (not_lt.mp past)))
        rw [if_neg fun stop => stop.elim (fun c => ends (.inl c)) (absurd inside),
          if_neg (by simpa using ends)]
        obtain ⟨j, blanks, start⟩ := ws_left left
        obtain ⟨k, named, behind⟩ := str_left start
        obtain ⟨l, blanks', start'⟩ := ws_left behind
        obtain ⟨m, passed, here⟩ := colon_left start'
        rw [blanks, ok_bind, named, ok_bind, blanks', ok_bind, passed, ok_bind]
        dsimp only
        have item := value_ih _ _ here
        cases read : JsonParser.value fuel (JsonParser.colon (JsonParser.ws
            (JsonParser.str (JsonParser.ws u)).2)) with
        | none =>
          rw [read] at item
          rw [item]
          rfl
        | some walked =>
          rw [read] at item
          obtain ⟨n, valued, after⟩ := item
          obtain ⟨o, blanks'', start''⟩ := ws_left after
          rw [valued, ok_bind, blanks'', ok_bind]
          exact object_ih _ _ _ start''
    · unfold array JsonParser.array
      rw [peek_left left, ok_bind]
      by_cases ends : JsonParser.peek u = 93 ∨ u = []
      · obtain ⟨j, closes, rest⟩ := closing_left left ends
        rw [if_pos (ends.imp_right fun none => past_of_nil (none ▸ left)), if_pos (by simpa using ends),
          closes, ok_bind]
        exact ⟨j, rfl, rest⟩
      · have inside : i < text.length := by
          by_contra past
          exact ends (.inr (left ▸ drop_eq_nil_of_le (not_lt.mp past)))
        rw [if_neg fun stop => stop.elim (fun c => ends (.inl c)) (absurd inside),
          if_neg (by simpa using ends)]
        have item := value_ih _ _ left
        cases read : JsonParser.value fuel u with
        | none =>
          rw [read] at item
          rw [item]
          rfl
        | some walked =>
          rw [read] at item
          obtain ⟨n, valued, after⟩ := item
          obtain ⟨o, blanks, start⟩ := ws_left after
          rw [valued, ok_bind, blanks, ok_bind]
          exact array_ih _ _ _ start

/-- **The parser is safe on every text.**  However many turns it has, it makes no read at or past the
end of the text, and with enough of them it ends, with the value that the walk over the rest of the
text gives. -/
theorem parse_safe (text : Str) : (∀ fuel, parse text fuel ≠ .error .outside) ∧
    ∃ fuel, parse text fuel = .ok (JsonParser.parse text) := by
  obtain ⟨i, blanks, start⟩ := @ws_left text 0 text rfl
  have run : ∀ fuel, Follows text (value text fuel i) (JsonParser.value fuel (JsonParser.ws text)) :=
    fun fuel => (follows fuel).1 _ _ start
  constructor
  · intro fuel
    unfold parse
    rw [blanks, ok_bind]
    have walk := run fuel
    cases read : JsonParser.value fuel (JsonParser.ws text) with
    | none =>
      rw [read] at walk
      rw [walk]
      exact fun no => nomatch no
    | some walked =>
      rw [read] at walk
      obtain ⟨j, ends, -⟩ := walk
      rw [ends]
      exact fun no => nomatch no
  · obtain ⟨r, read⟩ := JsonParser.parse_reads text
    have walk := run (JsonParser.fuelFor text)
    rw [read] at walk
    obtain ⟨j, ends, -⟩ := walk
    refine ⟨JsonParser.fuelFor text, ?_⟩
    unfold parse
    rw [blanks, ok_bind, ends, ok_bind]

/-- A word that is cut short takes the position past the end. -/
example : value (Vknn.str "n") 1 0 = .ok (.null, 4) := rfl

end Vknn.JsonCursor
