import Vknn.Ir.Graph
import Mathlib.Data.Rat.Floor
import Mathlib.Data.Int.Log

/-!
# Reading JSON

The parser is permissive: commas are blanks, colons may be missing, an unknown escape
stands for the character behind the backslash, and what cannot be read is skipped.  It
walks the text once, so every function takes the text that is left and gives back what is
left after it.  Values nest, and the fuel bounds the nesting and the loops; a fuel of
twice the length of the text is always enough.

Numbers are read as the standard library reads them: the decimal value, rounded to double
precision.
-/

namespace Vknn

open List Prod Nat Option

/-! ## Values -/

/-- A JSON value.  An object lists its entries, the newest first. -/
inductive JsonValue where
  | null
  | bool (b : Bool)
  | number (num : ℚ)
  | string (str : Str)
  | array (arr : List JsonValue)
  | object (obj : List (Str × JsonValue))

namespace JsonValue

def isObject : JsonValue → Bool
  | object _ => true
  | _ => false

def get (v : JsonValue) (k : Str) : Option JsonValue :=
  match v with
  | object obj => (obj.find? fun e => e.1 = k).map snd
  | _ => none

def asNum (v : JsonValue) (d : ℚ) : ℚ :=
  match v with
  | number num => num
  | _ => d

def asBool (v : JsonValue) (d : Bool) : Bool :=
  match v with
  | bool b => b
  | _ => d

def asStr (v : JsonValue) (d : Str) : Str :=
  match v with
  | string s => s
  | _ => d

end JsonValue

/-! ## Numbers -/

/-- The nearest integer; of two, the even one. -/
def roundHalfEven (x : ℚ) : Int :=
  if x - ⌊x⌋ < 1 / 2 then ⌊x⌋
  else if 1 / 2 < x - ⌊x⌋ then ⌊x⌋ + 1
  else if ⌊x⌋ % 2 = 0 then ⌊x⌋ else ⌊x⌋ + 1

/-- The double-precision number nearest to a number that is not negative. -/
def roundDouble (x : ℚ) : ℚ :=
  if x = 0 then 0
  else
    let ulp : ℚ := 2 ^ max (Int.log 2 x - 52) (-1074)
    roundHalfEven (x / ulp) * ulp

def isDigit (c : UInt8) : Bool := 48 ≤ c && c ≤ 57

def digitsValue (ds : Str) : Nat := ds.foldl (fun n d => 10 * n + (d.toNat - 48)) 0

def readSign : Str → Bool × Str
  | 45 :: u => (true, u)
  | 43 :: u => (false, u)
  | u => (false, u)

/-- The exponent behind a mantissa; 0 if there is none. -/
def readExponent : Str → Int
  | c :: u =>
    if c = 101 ∨ c = 69 then
      let (neg, u) := readSign u
      let e : Int := digitsValue (u.takeWhile isDigit)
      if neg then -e else e
    else 0
  | [] => 0

/-- The number at the front of a text, unless there is none or it is out of range. -/
def stod (s : Str) : Option ℚ :=
  let (neg, u) := readSign s
  let whole := u.takeWhile isDigit
  let u := u.dropWhile isDigit
  let (frac, u) := match u with
    | 46 :: u => (u.takeWhile isDigit, u.dropWhile isDigit)
    | u => ([], u)
  if whole.isEmpty && frac.isEmpty then none
  else
    let x := roundDouble
      ((digitsValue (whole ++ frac) : ℚ) * 10 ^ (readExponent u - (frac.length : Int)))
    if 2 ^ 1024 ≤ x then none else some (if neg then -x else x)

/-! ## Scanning -/

namespace JsonParser

def isBlank (c : UInt8) : Bool := c = 32 || c = 9 || c = 10 || c = 13 || c = 44

def ws (u : Str) : Str := u.dropWhile isBlank

def peek (u : Str) : UInt8 := u.headD 0

def unescape (e : UInt8) : UInt8 := if e = 110 then 10 else if e = 116 then 9 else e

/-- The characters up to the closing quote, decoded. -/
def strBody : Str → Str × Str
  | [] => ([], [])
  | c :: u =>
    if c = 34 then ([], c :: u)
    else if c = 92 then
      match u with
      | [] => ([c], [])
      | e :: u => (unescape e :: (strBody u).1, (strBody u).2)
    else (c :: (strBody u).1, (strBody u).2)

/-- A string; none where there is no opening quote. -/
def str (u : Str) : Str × Str :=
  match u with
  | 34 :: u => ((strBody u).1, (strBody u).2.tail)
  | u => ([], u)

def isAlpha (c : UInt8) : Bool := (65 ≤ c && c ≤ 90) || (97 ≤ c && c ≤ 122)

def boolean (u : Str) : Bool × Str :=
  if u.take 4 = Vknn.str "true" then (true, u.drop 4)
  else if u.take 5 = Vknn.str "false" then (false, u.drop 5)
  else (false, u.dropWhile isAlpha)

/-- The characters a number is made of. -/
def isNumeric (c : UInt8) : Bool := isDigit c || c = 45 || c = 43 || c = 46 || c = 101 || c = 69

def number (u : Str) : ℚ × Str :=
  if (u.takeWhile isNumeric).isEmpty then (0, u.tail)
  else ((stod (u.takeWhile isNumeric)).getD 0, u.dropWhile isNumeric)

def colon (u : Str) : Str := if peek u = 58 then u.tail else u

/-! ## Values -/

mutual

def value : Nat → Str → Option (JsonValue × Str)
  | 0, _ => none
  | fuel + 1, u =>
    let u := ws u
    let c := peek u
    if c = 123 then object fuel (ws u.tail) []
    else if c = 91 then array fuel (ws u.tail) []
    else if c = 34 then some (.string (str u).1, (str u).2)
    else if c = 116 || c = 102 then some (.bool (boolean u).1, (boolean u).2)
    else if c = 110 then some (.null, u.drop 4)
    else some (.number (number u).1, (number u).2)

/-- The entries of an object, up to its closing brace. -/
def object : Nat → Str → List (Str × JsonValue) → Option (JsonValue × Str)
  | 0, _, _ => none
  | fuel + 1, u, obj =>
    if peek u = 125 || u.isEmpty then some (.object obj, u.tail)
    else
      let (key, u) := str (ws u)
      match value fuel (colon (ws u)) with
      | none => none
      | some (v, u) => object fuel (ws u) ((key, v) :: obj)

/-- The elements of an array, up to its closing bracket. -/
def array : Nat → Str → List JsonValue → Option (JsonValue × Str)
  | 0, _, _ => none
  | fuel + 1, u, arr =>
    if peek u = 93 || u.isEmpty then some (.array arr.reverse, u.tail)
    else
      match value fuel u with
      | none => none
      | some (v, u) => array fuel (ws u) (v :: arr)

end

def fuelFor (u : Str) : Nat := 2 * u.length + 2

def parse (s : Str) : JsonValue :=
  match value (fuelFor s) (ws s) with
  | some (v, _) => v
  | none => .null

/-! ## Progress -/

/-- What is left is the end of the text, and shorter unless the text is empty. -/
def Consumes (u r : Str) : Prop := r <:+ u ∧ (u ≠ [] → r.length < u.length)

theorem ws_suffix (u : Str) : ws u <:+ u := dropWhile_suffix _

theorem colon_suffix (u : Str) : colon u <:+ u := by
  unfold colon
  split
  · exact tail_suffix u
  · exact suffix_rfl

theorem strBody_suffix (u : Str) : (strBody u).2 <:+ u := by
  fun_induction strBody u with
  | case1 => exact suffix_rfl
  | case2 => exact suffix_rfl
  | case3 => exact nil_suffix
  | case4 _ _ _ ih => exact ih.trans ((suffix_cons _ _).trans (suffix_cons _ _))
  | case5 _ _ _ _ ih => exact ih.trans (suffix_cons _ _)

theorem str_suffix (u : Str) : (str u).2 <:+ u := by
  unfold str
  split
  · exact ((tail_suffix _).trans (strBody_suffix _)).trans (suffix_cons _ _)
  · exact suffix_rfl

theorem length_dropWhile_lt {p : UInt8 → Bool} {c : UInt8} {u : Str} (first : p c = true) :
    ((c :: u).dropWhile p).length < (c :: u).length := by
  rw [dropWhile_cons_of_pos first]
  exact lt_succ_of_le (dropWhile_suffix p).length_le

theorem boolean_consumes {u : Str} (bareword : peek u = 116 ∨ peek u = 102) :
    Consumes u (boolean u).2 := by
  cases u with
  | nil => rcases bareword with h | h <;> cases h
  | cons c u =>
    unfold boolean
    split
    · refine ⟨drop_suffix _ _, fun _ => ?_⟩
      rw [length_drop, length_cons]
      omega
    split
    · refine ⟨drop_suffix _ _, fun _ => ?_⟩
      rw [length_drop, length_cons]
      omega
    · refine ⟨dropWhile_suffix _, fun _ => length_dropWhile_lt ?_⟩
      have letter : c = 116 ∨ c = 102 := bareword
      rcases letter with rfl | rfl <;> rfl

theorem number_consumes (u : Str) : Consumes u (number u).2 := by
  cases u with
  | nil => exact ⟨suffix_rfl, fun absent => absurd rfl absent⟩
  | cons c u =>
    unfold number
    split
    · exact ⟨suffix_cons _ _, fun _ => lt_succ_self _⟩
    · rename_i some
      refine ⟨dropWhile_suffix _, fun _ => length_dropWhile_lt ?_⟩
      rw [takeWhile_cons] at some
      split at some
      · assumption
      · exact absurd rfl some

/-- **A value consumes text**, and the entries of an object and the elements of an array leave the end
of it. -/
theorem consumes (fuel : Nat) : (∀ u v r, value fuel u = some (v, r) → Consumes u r) ∧
    (∀ u obj v r, object fuel u obj = some (v, r) → r <:+ u) ∧
    ∀ u arr v r, array fuel u arr = some (v, r) → r <:+ u := by
  induction fuel with
  | zero =>
    refine ⟨fun u v r read => ?_, fun u obj v r read => ?_, fun u arr v r read => ?_⟩
    · cases read
    · cases read
    · cases read
  | succ fuel ih =>
    obtain ⟨value_ih, object_ih, array_ih⟩ := ih
    refine ⟨fun u v r read => ?_, fun u obj v r read => ?_, fun u arr v r read => ?_⟩
    · -- What follows the blanks is consumed.
      have inner : Consumes (ws u) r := by
        have tail : ∀ {r : Str}, peek (ws u) ≠ 0 → r <:+ (ws u).tail → Consumes (ws u) r := by
          intro r present suffix
          cases text : ws u with
          | nil => exact absurd (by rw [text]; rfl) present
          | cons c w =>
            rw [text] at suffix
            exact ⟨suffix.trans (suffix_cons _ _), fun _ => lt_succ_of_le suffix.length_le⟩
        unfold value at read
        dsimp only at read
        split at read
        · rename_i brace
          exact tail (by rw [brace]; decide) ((object_ih _ _ _ _ read).trans (ws_suffix _))
        split at read
        · rename_i bracket
          exact tail (by rw [bracket]; decide) ((array_ih _ _ _ _ read).trans (ws_suffix _))
        split at read
        · rename_i quote
          obtain ⟨-, rfl⟩ := mk.inj (some.inj read)
          refine tail (by rw [quote]; decide) ?_
          cases text : ws u with
          | nil => exact suffix_rfl
          | cons c w =>
            rw [text] at quote
            obtain rfl : c = 34 := quote
            exact (tail_suffix _).trans (strBody_suffix w)
        split at read
        · rename_i bareword
          obtain ⟨-, rfl⟩ := mk.inj (some.inj read)
          exact boolean_consumes (by simpa using bareword)
        split at read
        · rename_i letter
          obtain ⟨-, rfl⟩ := mk.inj (some.inj read)
          refine tail (by rw [letter]; decide) ?_
          cases ws u with
          | nil => exact suffix_rfl
          | cons c w => exact drop_suffix 3 w
        · obtain ⟨-, rfl⟩ := mk.inj (some.inj read)
          exact number_consumes _
      refine ⟨inner.1.trans (ws_suffix u), fun present => ?_⟩
      by_cases blank : ws u = []
      · have empty : r = [] := suffix_nil.mp (blank ▸ inner.1)
        rw [empty]
        exact length_pos_iff.mpr present
      · exact lt_of_lt_of_le (inner.2 blank) (ws_suffix u).length_le
    · unfold object at read
      split at read
      · obtain ⟨-, rfl⟩ := mk.inj (some.inj read)
        exact tail_suffix u
      · dsimp only at read
        split at read
        · cases read
        · rename_i v' r' step
          have here := (value_ih _ _ _ step).1
          refine (object_ih _ _ _ _ read).trans ((ws_suffix _).trans (here.trans ?_))
          exact (colon_suffix _).trans ((ws_suffix _).trans ((str_suffix _).trans (ws_suffix _)))
    · unfold array at read
      split at read
      · obtain ⟨-, rfl⟩ := mk.inj (some.inj read)
        exact tail_suffix u
      · split at read
        · cases read
        · rename_i v' r' step
          exact (array_ih _ _ _ _ read).trans ((ws_suffix _).trans (value_ih _ _ _ step).1)

/-- **Enough fuel reads every text.** -/
theorem reads (fuel : Nat) : (∀ u, 2 * u.length + 1 ≤ fuel → (value fuel u).isSome) ∧
    (∀ u obj, 2 * u.length + 2 ≤ fuel → (object fuel u obj).isSome) ∧
    ∀ u arr, 2 * u.length + 2 ≤ fuel → (array fuel u arr).isSome := by
  induction fuel with
  | zero =>
    refine ⟨fun u enough => ?_, fun u obj enough => ?_, fun u arr enough => ?_⟩
    · cases enough
    · cases enough
    · cases enough
  | succ fuel ih =>
    obtain ⟨value_ih, object_ih, array_ih⟩ := ih
    refine ⟨fun u enough => ?_, fun u obj enough => ?_, fun u arr enough => ?_⟩
    · have shorter : peek (ws u) ≠ 0 → 2 * (ws (ws u).tail).length + 2 ≤ fuel := by
        intro present
        have blanks := (ws_suffix u).length_le
        have rest := (ws_suffix (ws u).tail).length_le
        cases text : ws u with
        | nil => exact absurd (by rw [text]; rfl) present
        | cons c w =>
          rw [text, length_cons] at blanks
          rw [text, tail_cons] at rest
          rw [tail_cons]
          omega
      unfold value
      dsimp only
      split
      · rename_i brace
        exact object_ih _ _ (shorter (by rw [brace]; decide))
      split
      · rename_i bracket
        exact array_ih _ _ (shorter (by rw [bracket]; decide))
      split
      · rfl
      split
      · rfl
      split
      · rfl
      · rfl
    · unfold object
      split
      · rfl
      · rename_i more
        have some : u ≠ [] := by
          rintro rfl
          exact more (by simp)
        have before : (colon (ws (str (ws u)).2)).length ≤ u.length :=
          ((colon_suffix _).trans ((ws_suffix _).trans
            ((str_suffix _).trans (ws_suffix _)))).length_le
        have first := value_ih (colon (ws (str (ws u)).2)) (by omega)
        dsimp only
        split
        · rename_i failed
          rw [failed] at first
          cases first
        · rename_i v r step
          have after := (ws_suffix r).length_le
          have consumed := (consumes fuel).1 _ _ _ step
          refine object_ih _ _ ?_
          by_cases empty : colon (ws (str (ws u)).2) = []
          · have done : r = [] := suffix_nil.mp (empty ▸ consumed.1)
            have length := length_pos_iff.mpr some
            rw [done] at after ⊢
            simp only [ws, dropWhile_nil, length_nil]
            omega
          · have less := consumed.2 empty
            omega
    · unfold array
      split
      · rfl
      · rename_i more
        have some : u ≠ [] := by
          rintro rfl
          exact more (by simp)
        have first := value_ih u (by omega)
        split
        · rename_i failed
          rw [failed] at first
          cases first
        · rename_i v r step
          have after := (ws_suffix r).length_le
          have less := ((consumes fuel).1 _ _ _ step).2 some
          exact array_ih _ _ (by omega)

/-- The fuel that is given is enough: a text always stands for a value. -/
theorem parse_reads (s : Str) : ∃ r, value (fuelFor s) (ws s) = some (parse s, r) := by
  have some := (reads (fuelFor s)).1 (ws s) (by
    have blanks := (ws_suffix s).length_le
    unfold fuelFor
    omega)
  obtain ⟨⟨v, r⟩, read⟩ := isSome_iff_exists.mp some
  refine ⟨r, ?_⟩
  rw [read, parse, read]

end JsonParser

end Vknn
