import Vknn.Core.ConfigJson
import Vknn.Core.ConfigText

/-!
# What the text of a configuration stands for

Numbers, truth values, names and lists of names are read as the values they were printed
from, whatever follows them.  Line by line, a configuration whose texts have no quote and no
backslash is read as an object with one entry for each field.
-/

namespace Vknn.ConfigJson

open JsonParser List Int

/-! ## Numbers -/

theorem digitsValue_decimal (n : Nat) : digitsValue (decimal n) = n := by
  have digits : ∀ (l : List Char) (a : Nat), (∀ d ∈ l, d ∈ Nat.toDigits 10 n) →
      (l.map fun c => UInt8.ofNat c.toNat).foldl (fun n d => 10 * n + (d.toNat - 48)) a =
        Nat.ofDigitChars 10 l a := by
    intro l
    induction l with
    | nil => exact fun a _ => rfl
    | cons d l ih =>
      intro a inside
      rw [map_cons, foldl_cons, Nat.ofDigitChars_cons, (digit_byte (inside d mem_cons_self)).1]
      exact ih _ fun e mem => inside e (mem_cons_of_mem _ mem)
  unfold digitsValue decimal
  rw [digits _ 0 fun _ mem => mem]
  exact Nat.ofDigitChars_toDigits (by decide) (by decide)

variable {n : Nat} {c : UInt8} {s u : Str}

theorem isDigit_of_mem_decimal (mem : c ∈ decimal n) : isDigit c = true := by
  obtain ⟨low, high⟩ := mem_decimal mem
  unfold isDigit
  rw [Bool.and_eq_true, decide_eq_true_eq, decide_eq_true_eq, UInt8.le_iff_toNat_le,
    UInt8.le_iff_toNat_le]
  exact ⟨low, high⟩

theorem roundHalfEven_intCast (n : Int) : roundHalfEven (n : ℚ) = n := by
  unfold roundHalfEven
  rw [floor_intCast, sub_self, if_pos (by norm_num)]

/-- Small whole numbers are double-precision numbers. -/
theorem roundDouble_natCast (small : n < 2 ^ 52) : roundDouble (n : ℚ) = n := by
  unfold roundDouble
  split
  · rename_i zero
    exact zero.symm
  · rename_i some
    have present : n ≠ 0 := fun zero => some (by rw [zero]; rfl)
    have bits : Nat.log 2 n < 52 := Nat.log_lt_of_lt_pow present small
    have exponent : max (log 2 (n : ℚ) - 52) (-1074) = -((52 - Nat.log 2 n : Nat) : Int) := by
      rw [log_natCast]
      omega
    dsimp only
    rw [exponent, zpow_neg, zpow_natCast, div_inv_eq_mul]
    have whole : (n : ℚ) * 2 ^ (52 - Nat.log 2 n) = ((n * 2 ^ (52 - Nat.log 2 n) : Nat) : Int) := by
      push_cast
      ring
    rw [whole, roundHalfEven_intCast, ← whole]
    field_simp

theorem readSign_decimal (n : Nat) : readSign (decimal n) = (false, decimal n) := by
  cases text : decimal n with
  | nil => rfl
  | cons c u =>
    have digit := isDigit_of_mem_decimal (n := n) (c := c) (by rw [text]; exact mem_cons_self)
    unfold readSign
    split
    · rename_i same
      rw [(List.cons.inj same).1] at digit
      exact absurd digit (by decide)
    · rename_i same
      rw [(List.cons.inj same).1] at digit
      exact absurd digit (by decide)
    · rfl

/-- What a text of digits stands for, behind a sign. -/
theorem stod_digits {neg : Bool} (sign : readSign s = (neg, decimal n))
    (small : n < 2 ^ 52) : stod s = some (if neg then -(n : ℚ) else n) := by
  have digits : ∀ c ∈ decimal n, isDigit c = true := fun c mem => isDigit_of_mem_decimal mem
  unfold stod
  rw [sign]
  dsimp only
  rw [takeWhile_eq_self_iff.mpr digits, dropWhile_eq_nil_iff.mpr digits]
  dsimp only
  rw [if_neg (by simp [decimal_ne_nil]), append_nil, digitsValue_decimal]
  have value : (n : ℚ) * 10 ^ (readExponent [] - (([] : Str).length : Int)) = n := by
    simp [readExponent]
  rw [value, roundDouble_natCast small, if_neg]
  rw [not_le]
  calc (n : ℚ) < 2 ^ 52 := by exact_mod_cast small
    _ ≤ 2 ^ 1024 := pow_le_pow_right₀ (by norm_num) (by norm_num)

/-- **A 32-bit integer is read back.** -/
theorem stod_intStr (n : CInt) : stod (intStr n.val) = some (n.val : ℚ) := by
  obtain ⟨n, low, high⟩ := n
  cases n with
  | ofNat n =>
    have small : n < 2 ^ 52 := by
      rw [ofNat_eq_natCast] at high
      omega
    rw [intStr, stod_digits (readSign_decimal n) small]
    rfl
  | negSucc n =>
    have small : n + 1 < 2 ^ 52 := by omega
    have sign : readSign (45 :: decimal (n + 1)) = (true, decimal (n + 1)) := rfl
    rw [intStr, stod_digits sign small]
    simp [negSucc_eq]

theorem toCInt_cast (n : CInt) : toCInt (n.val : ℚ) = n := by
  have cut : (if 0 ≤ (n.val : ℚ) then ⌊(n.val : ℚ)⌋ else ⌈(n.val : ℚ)⌉) = n.val := by
    rw [floor_intCast, ceil_intCast, ite_self]
  unfold toCInt
  rw [cut, dif_pos n.property]

/-! ## Values that are read -/

/-- What can stand behind a value: a comma, a line break, or the end of a list. -/
def Follows (rest : Str) : Prop := ∃ c u, rest = c :: u ∧ (c = 44 ∨ c = 10 ∨ c = 93)

/-- A text that is read as a value, whatever follows. -/
def ReadAs (text : Str) (v : JsonValue) : Prop :=
  ∀ fuel rest, text.length ≤ fuel → Follows rest → value (fuel + 1) (text ++ rest) = some (v, rest)

def Plain (s : Str) : Prop := (34 : UInt8) ∉ s ∧ (92 : UInt8) ∉ s

instance (s : Str) : Decidable (Plain s) := inferInstanceAs (Decidable (_ ∧ _))

theorem plain_iff : Plain s ↔ ¬ ConfigText.Special s := not_or.symm

theorem ws_of_not_blank (solid : isBlank c = false) : ws (c :: u) = c :: u := by
  unfold ws
  rw [dropWhile_cons_of_neg (by rw [solid]; decide)]

theorem ws_blank (blank : isBlank c = true) : ws (c :: u) = ws u := dropWhile_cons_of_pos blank

theorem value_blank (fuel : Nat) (blank : isBlank c = true) :
    value fuel (c :: u) = value fuel u := by
  cases fuel with
  | zero => rfl
  | succ fuel =>
    unfold value
    rw [ws_blank blank]

theorem str_plain (plain : Plain s) (rest : Str) :
    JsonParser.str (34 :: (s ++ 34 :: rest)) = (s, rest) := by
  change ((strBody (s ++ 34 :: rest)).1, (strBody (s ++ 34 :: rest)).2.tail) = _
  rw [strBody_of_escaped (escaped_self plain.1 plain.2)]
  rfl

theorem quoted_append (s rest : Str) : quoted s ++ rest = 34 :: (s ++ 34 :: rest) := by
  simp [quoted]

theorem value_quoted (plain : Plain s) (fuel : Nat) (rest : Str) :
    value (fuel + 1) (quoted s ++ rest) = some (.string s, rest) := by
  rw [quoted_append]
  have read := str_plain plain rest
  change some (JsonValue.string (JsonParser.str (34 :: (s ++ 34 :: rest))).1,
    (JsonParser.str (34 :: (s ++ 34 :: rest))).2) = _
  rw [read]

theorem readAs_quoted (plain : Plain s) : ReadAs (quoted s) (.string s) :=
  fun fuel rest _ _ => value_quoted plain fuel rest

theorem readAs_boolStr (b : Bool) : ReadAs (boolStr b) (.bool b) := by
  intro fuel rest _ _
  cases b with
  | true =>
    have text : boolStr true = [116, 114, 117, 101] := by decide
    rw [text]
    rfl
  | false =>
    have text : boolStr false = [102, 97, 108, 115, 101] := by decide
    rw [text]
    rfl

theorem isNumeric_of_mem_intStr {n : Int} (mem : c ∈ intStr n) : isNumeric c = true := by
  unfold isNumeric
  cases n with
  | ofNat n => rw [isDigit_of_mem_decimal mem]; rfl
  | negSucc n =>
    rcases mem_cons.mp mem with rfl | digit
    · decide
    · rw [isDigit_of_mem_decimal digit]; rfl

theorem number_intStr (n : CInt) {rest : Str} (follows : Follows rest) :
    number (intStr n.val ++ rest) = ((n.val : ℚ), rest) := by
  obtain ⟨c, u, rfl, ending⟩ := follows
  have stop : isNumeric c = false := by
    rcases ending with rfl | rfl | rfl
    · decide
    · decide
    · decide
  have digits : ∀ d ∈ intStr n.val, isNumeric d = true := fun d mem =>
    isNumeric_of_mem_intStr mem
  unfold number
  rw [takeWhile_append_of_pos digits, dropWhile_append_of_pos digits,
    takeWhile_cons_of_neg (by rw [stop]; decide), dropWhile_cons_of_neg (by rw [stop]; decide),
    append_nil, stod_intStr, if_neg]
  · rfl
  · rw [List.isEmpty_iff]
    intro empty
    have read := stod_intStr n
    rw [empty] at read
    cases read

theorem readAs_intStr (n : CInt) : ReadAs (intStr n.val) (.number n.val) := by
  intro fuel rest _ follows
  have read := number_intStr n follows
  cases text : intStr n.val with
  | nil =>
    have impossible := stod_intStr n
    rw [text] at impossible
    cases impossible
  | cons c u =>
    have numeric : isNumeric c = true :=
      isNumeric_of_mem_intStr (n := n.val) (by rw [text]; exact mem_cons_self)
    have apart : ∀ d, isNumeric d = false → c ≠ d := by
      rintro d other rfl
      rw [other] at numeric
      cases numeric
    rw [text] at read
    have blank : isBlank c = false := by
      unfold isBlank
      simp [apart 32 rfl, apart 9 rfl, apart 10 rfl, apart 13 rfl, apart 44 rfl]
    unfold value
    rw [cons_append, ws_of_not_blank blank, ← cons_append]
    have first : peek (c :: u ++ rest) = c := rfl
    dsimp only
    rw [first, if_neg (apart 123 rfl), if_neg (apart 91 rfl), if_neg (apart 34 rfl),
      if_neg (by simp [apart 116 rfl, apart 102 rfl]), if_neg (apart 110 rfl), read]

/-! ## Lists and objects that are read -/

theorem intercalate_cons (sep x : Str) (xs : List Str) :
    sep.intercalate (x :: xs) = x ++ xs.flatMap fun y => sep ++ y := by
  induction xs generalizing x with
  | nil => simp [List.intercalate]
  | cons y xs ih => rw [intercalate_cons_cons, ih, flatMap_cons, append_assoc, append_assoc]

/-- Behind blanks, a list of texts starts as if it followed another text. -/
theorem ws_intercalate {sep : Str} (blank : sep.all isBlank = true) (xs : List Str) (rest : Str) :
    ws (sep.intercalate xs ++ rest) = ws ((xs.flatMap fun y => sep ++ y) ++ rest) := by
  cases xs with
  | nil => rfl
  | cons x xs =>
    rw [intercalate_cons, flatMap_cons, append_assoc, append_assoc, append_assoc]
    unfold ws
    rw [dropWhile_append_of_pos (all_eq_true.mp blank)]

theorem array_backends (fallback : List BackendKind) {fuel : Nat} {rest : Str} {arr : List JsonValue}
    (enough : fallback.length + 2 ≤ fuel) :
    array fuel (ws ((fallback.flatMap fun k => str ", " ++ quoted (backendName k)) ++ 93 :: rest)) arr =
      some (.array (arr.reverse ++ fallback.map fun k => .string (backendName k)), rest) := by
  induction fallback generalizing fuel arr with
  | nil =>
    obtain ⟨fuel, rfl⟩ : ∃ f, fuel = f + 1 := ⟨fuel - 1, by simp at enough; omega⟩
    rw [map_nil, append_nil]
    rfl
  | cons k fallback ih =>
    obtain ⟨fuel, rfl⟩ : ∃ f, fuel = f + 2 := ⟨fuel - 2, by simp at enough; omega⟩
    have plain : Plain (backendName k) := by cases k <;> decide
    rw [length_cons] at enough
    have start : ws (((k :: fallback).flatMap fun k => str ", " ++ quoted (backendName k)) ++
        93 :: rest) = quoted (backendName k) ++
          ((fallback.flatMap fun k => str ", " ++ quoted (backendName k)) ++ 93 :: rest) := by
      rw [flatMap_cons, append_assoc, append_assoc, ws,
        dropWhile_append_of_pos (all_eq_true.mp (by decide)), quoted_append]
      rfl
    rw [start]
    unfold array
    rw [if_neg (by rw [quoted_append]; simp [peek]), value_quoted plain]
    dsimp only
    rw [ih (by omega), reverse_cons, append_assoc, map_cons, singleton_append]

theorem readAs_fallbackStr (fallback : List BackendKind) :
    ReadAs (fallbackStr fallback) (.array (fallback.map fun k => .string (backendName k))) := by
  intro fuel rest enough _
  have size : fallback.length + 2 ≤ (fallbackStr fallback).length := by
    have each : ∀ ks : List BackendKind,
        ks.length ≤ (ks.flatMap fun k => str ", " ++ quoted (backendName k)).length := by
      intro ks
      induction ks with
      | nil => exact le_rfl
      | cons k ks ih =>
        rw [flatMap_cons, length_append, length_append, length_cons]
        have sep : (str ", ").length = 2 := rfl
        omega
    unfold fallbackStr
    rw [length_cons, length_append, length_singleton]
    cases fallback with
    | nil => exact le_rfl
    | cons k ks =>
      have rest := each ks
      have quotes : 2 ≤ (quoted (backendName k)).length := by simp [quoted]
      rw [map_cons, intercalate_cons, flatMap_map, length_append, length_cons]
      omega
  have step : value (fuel + 1) (fallbackStr fallback ++ rest) = array fuel
      (ws ((str ", ").intercalate (fallback.map fun k => quoted (backendName k)) ++ 93 :: rest)) [] := by
    unfold fallbackStr
    rw [cons_append, append_assoc, singleton_append]
    rfl
  rw [step, ws_intercalate (by decide), flatMap_map, array_backends fallback (size.trans enough),
    reverse_nil, nil_append]

/-- A field that is written, and the entry that is read for it. -/
def FieldReads (f : Str × Str) (e : Str × JsonValue) : Prop :=
  f.1 = e.1 ∧ Plain f.1 ∧ ReadAs f.2 e.2

/-- **The lines of an object are read one by one**, up to the closing brace. -/
theorem object_lines {fs : List (Str × Str)} {es : List (Str × JsonValue)}
    (reads : List.Forall₂ FieldReads fs es) {fuel : Nat} {obj : List (Str × JsonValue)}
    (enough : (fs.flatMap fun f => str ",\n" ++ fieldLine f).length + 3 ≤ fuel) :
    object fuel (ws ((fs.flatMap fun f => str ",\n" ++ fieldLine f) ++ str "\n\x7d\n")) obj =
      some (.object (es.reverse ++ obj), str "\n") := by
  induction reads generalizing fuel obj with
  | nil =>
    obtain ⟨fuel, rfl⟩ : ∃ f, fuel = f + 1 := ⟨fuel - 1, by omega⟩
    rfl
  | @cons f e fs es field _ ih =>
    obtain ⟨key, plain, read⟩ := field
    have line : fieldLine f = [32, 32] ++ (34 :: (f.1 ++ 34 :: 58 :: 32 :: f.2)) := by
      simp [fieldLine, str]
    rw [flatMap_cons, line] at enough
    simp only [length_append, length_cons, length_nil] at enough
    obtain ⟨fuel, rfl⟩ : ∃ f, fuel = f + 2 := ⟨fuel - 2, by omega⟩
    generalize remaining : (fs.flatMap fun f => str ",\n" ++ fieldLine f) ++ str "\n\x7d\n" = more at ih
    have follows : Follows more := by
      rw [← remaining]
      cases fs with
      | nil => exact ⟨10, _, rfl, Or.inr (Or.inl rfl)⟩
      | cons g fs => exact ⟨44, _, rfl, Or.inl rfl⟩
    have start : ws (((f :: fs).flatMap fun f => str ",\n" ++ fieldLine f) ++ str "\n\x7d\n") =
        34 :: (f.1 ++ 34 :: 58 :: 32 :: (f.2 ++ more)) := by
      rw [flatMap_cons, append_assoc, append_assoc, remaining, line, ws,
        dropWhile_append_of_pos (all_eq_true.mp (by decide))]
      simp [isBlank]
    rw [start]
    unfold object
    rw [if_neg (by simp [peek]), ws_of_not_blank (by decide)]
    dsimp only
    rw [str_plain plain]
    dsimp only
    have behind : colon (ws (58 :: 32 :: (f.2 ++ more))) = 32 :: (f.2 ++ more) := rfl
    rw [behind, value_blank _ (by decide), read fuel more (by omega) follows]
    dsimp only
    rw [ih (by omega), reverse_cons, append_assoc, singleton_append, key]

/-! ## What the text stands for -/

def entries (c : Config) : List (Str × JsonValue) := [
  (str "backend", .string (backendName c.backend)),
  (str "fallback", .array (c.fallback.map fun k => .string (backendName k))),
  (str "allowCpuFallback", .bool c.allowCpuFallback),
  (str "precision", .string (precStr c.precision)),
  (str "priority", .string (priorityStr c.priority)),
  (str "maxSubmitNodes", .number c.maxSubmitNodes.val),
  (str "maxSubmitBindings", .number c.maxSubmitBindings.val),
  (str "decodeChainSteps", .number c.decodeChainSteps.val),
  (str "cacheFile", .string c.cacheFile),
  (str "noCache", .bool c.noCache),
  (str "tuning", .string (tuningStr c.tuning)),
  (str "cpuThreads", .number c.cpuThreads.val),
  (str "freeWeightsAfterUpload", .bool c.freeWeightsAfterUpload),
  (str "flatLayout", .bool c.flatLayout),
  (str "gpuIslandFold", .bool c.gpuIslandFold),
  (str "timing", .bool c.timing),
  (str "profile", .bool c.profile),
  (str "verbosity", .number c.verbosity.val),
  (str "layerDump", .bool c.layerDump),
  (str "layerDumpDir", .string c.layerDumpDir),
  (str "debugSegments", .bool c.debugSegments),
  (str "disableVkOps", .string c.disableVkOps),
  (str "dumpTensors", .string c.dumpTensors),
  (str "winograd", .string (winoStr (c.hint hintWinograd modeAuto))),
  (str "winogradVariant", .number (c.hint hintWinogradVariant modeAuto).val),
  (str "winogradUnit", .number (c.hint hintWinogradUnit modeAuto).val),
  (str "directConv3x3", .number (c.hint hintDirectConv3x3 modeAuto).val),
  (str "kvCacheQuant", .string (winoStr c.kvCacheQuantMode))]

/-- The strings that are free text. -/
structure PlainTexts (c : Config) : Prop where
  cacheFile : Plain c.cacheFile
  layerDumpDir : Plain c.layerDumpDir
  disableVkOps : Plain c.disableVkOps
  dumpTensors : Plain c.dumpTensors

theorem plain_winoStr (w : CInt) : Plain (winoStr w) := by
  unfold winoStr
  split
  · decide
  split
  · decide
  · decide

theorem fields_read {c : Config} (plain : PlainTexts c) :
    List.Forall₂ FieldReads (fields c) (entries c) := by
  have text : ∀ {k s : Str}, Plain k → Plain s → FieldReads (k, quoted s) (k, .string s) :=
    fun key plain => ⟨rfl, key, readAs_quoted plain⟩
  have truth : ∀ {k : Str} (b : Bool), Plain k → FieldReads (k, boolStr b) (k, .bool b) :=
    fun b key => ⟨rfl, key, readAs_boolStr b⟩
  have whole : ∀ {k : Str} (n : CInt), Plain k → FieldReads (k, intStr n.val) (k, .number n.val) :=
    fun n key => ⟨rfl, key, readAs_intStr n⟩
  unfold fields entries
  refine .cons (text (by decide) (by cases c.backend <;> decide)) ?_
  have key : Plain (str "fallback") := by decide
  refine .cons ⟨rfl, key, readAs_fallbackStr c.fallback⟩ ?_
  refine .cons (truth _ (by decide)) ?_
  refine .cons (text (by decide) (by cases c.precision <;> decide)) ?_
  refine .cons (text (by decide) (by cases c.priority <;> decide)) ?_
  refine .cons (whole _ (by decide)) (.cons (whole _ (by decide)) (.cons (whole _ (by decide)) ?_))
  refine .cons (text (by decide) plain.cacheFile) (.cons (truth _ (by decide)) ?_)
  refine .cons (text (by decide) (by cases c.tuning <;> decide)) ?_
  refine .cons (whole _ (by decide)) (.cons (truth _ (by decide)) (.cons (truth _ (by decide)) ?_))
  refine .cons (truth _ (by decide)) (.cons (truth _ (by decide)) (.cons (truth _ (by decide)) ?_))
  refine .cons (whole _ (by decide)) (.cons (truth _ (by decide)) ?_)
  refine .cons (text (by decide) plain.layerDumpDir) (.cons (truth _ (by decide)) ?_)
  refine .cons (text (by decide) plain.disableVkOps) ?_
  refine .cons (text (by decide) plain.dumpTensors) ?_
  refine .cons (text (by decide) (plain_winoStr _)) ?_
  refine .cons (whole _ (by decide)) (.cons (whole _ (by decide)) (.cons (whole _ (by decide)) ?_))
  exact .cons (text (by decide) (plain_winoStr _)) .nil

theorem value_brace (fuel : Nat) (u : Str) :
    value (fuel + 1) (ws (123 :: 10 :: u)) = object fuel (ws u) [] := rfl

/-- **A written configuration is read as its entries**, where its texts are plain. -/
theorem parse_toJson {c : Config} (plain : PlainTexts c) :
    parse (toJson c) = .object (entries c).reverse := by
  have start : toJson c = 123 :: 10 :: ((str ",\n").intercalate ((fields c).map fieldLine) ++
      str "\n\x7d\n") := by
    unfold toJson
    rw [append_assoc]
    rfl
  have length : ((fields c).flatMap fun f => str ",\n" ++ fieldLine f).length + 3 ≤
      (toJson c).length := by
    have sep : (str ",\n").length = 2 := rfl
    have foot : (str "\n\x7d\n").length = 3 := rfl
    rw [start]
    cases fields c with
    | nil => exact Nat.le_add_left 3 2
    | cons f fs =>
      rw [map_cons, intercalate_cons, flatMap_map]
      simp only [flatMap_cons, length_cons, length_append]
      omega
  have enough : fuelFor (toJson c) = (2 * (toJson c).length + 1) + 1 := rfl
  unfold parse
  rw [enough]
  have bound : (toJson c).length ≤ 2 * (toJson c).length + 1 := by omega
  generalize 2 * (toJson c).length + 1 = fuel at bound
  rw [start, value_brace, ws_intercalate (by decide), flatMap_map,
    object_lines (fields_read plain) (length.trans bound), append_nil]

end Vknn.ConfigJson
