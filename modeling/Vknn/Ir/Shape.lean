import Vknn.Ir.Graph
import Vknn.Lib.Delimited

/-!
# Shapes

The text of a shape, its reading as batch, channels and two spatial dimensions,
and the number of elements it takes in a boundary layout.  The text is
prefix-free, so that a key built from names and shapes can be read back.

Sums and products of dimensions are 64-bit in the source; they wrap.
-/

namespace Vknn

open List Nat Function Or

def wrap64 (n : Int) : Int := n.bmod (2 ^ 64)

variable {n : Int} {c : UInt8}

theorem wrap64_of_fits (low : -2 ^ 63 ≤ n) (high : n < 2 ^ 63) : wrap64 n = n := by
  rw [wrap64, Int.bmod_eq_emod]
  split <;> omega

/-- An integer as a 32-bit signed one holds it. -/
def wrap32 (n : Int) : Int := n.bmod (2 ^ 32)

theorem wrap32_of_fits (low : -2 ^ 31 ≤ n) (high : n < 2 ^ 31) : wrap32 n = n := by
  rw [wrap32, Int.bmod_eq_emod]
  split <;> omega

theorem fits_wrap32 (n : Int) : -2 ^ 31 ≤ wrap32 n ∧ wrap32 n < 2 ^ 31 := by
  rw [wrap32, Int.bmod_eq_emod]
  split <;> omega

/-- The element count of a shape, as the source computes it. -/
def elemCount (s : Shape) : Int := wrap64 (numElements s)

/-! ## Text -/

def decimal (n : Nat) : Str := (toDigits 10 n).map fun c => UInt8.ofNat c.toNat

def intStr : Int → Str
  | .ofNat n => decimal n
  | .negSucc n => 45 :: decimal (n + 1)

/-- The text of a shape: its dimensions between commas, in brackets. -/
def shapeStr (s : Shape) : Str := 91 :: ([44].intercalate (s.map intStr) ++ [93])

theorem digit_byte {n : Nat} {d : Char} (digit : d ∈ toDigits 10 n) :
    (UInt8.ofNat d.toNat).toNat = d.toNat ∧ 48 ≤ d.toNat ∧ d.toNat ≤ 57 := by
  have bounds := isDigit_of_mem_toDigits (by decide) (by decide) digit
  rw [Char.isDigit_iff_toNat] at bounds
  have low : 48 ≤ d.toNat := bounds.1
  have high : d.toNat ≤ 57 := bounds.2
  refine ⟨?_, low, high⟩
  rw [UInt8.toNat_ofNat']
  omega

theorem mem_decimal {n : Nat} (mem : c ∈ decimal n) : 48 ≤ c.toNat ∧ c.toNat ≤ 57 := by
  obtain ⟨d, digit, rfl⟩ := mem_map.mp mem
  obtain ⟨value, bounds⟩ := digit_byte digit
  rw [value]
  exact bounds

theorem decimal_ne_nil (n : Nat) : decimal n ≠ [] := by
  intro empty
  exact toDigits_ne_nil (map_eq_nil_iff.mp empty)

theorem decimal_injective : Injective decimal := by
  have undo : ∀ n, (decimal n).map (fun c => Char.ofNat c.toNat) = toDigits 10 n := by
    intro n
    rw [decimal, map_map]
    refine (map_congr_left fun d digit => ?_).trans (map_id _)
    rw [comp_apply, (digit_byte digit).1, Char.ofNat_toNat, id]
  intro m n same
  have digits : toDigits 10 m = toDigits 10 n := by rw [← undo, ← undo, same]
  rw [← ofDigitChars_toDigits (b := 10) (n := m) (by decide) (by decide), digits,
    ofDigitChars_toDigits (by decide) (by decide)]

theorem mem_intStr (mem : c ∈ intStr n) : c.toNat = 45 ∨ (48 ≤ c.toNat ∧ c.toNat ≤ 57) := by
  cases n with
  | ofNat n => exact inr (mem_decimal mem)
  | negSucc n =>
    rcases mem_cons.mp mem with rfl | digit
    · exact inl rfl
    · exact inr (mem_decimal digit)

theorem intStr_ne_nil (n : Int) : intStr n ≠ [] := by
  cases n with
  | ofNat n => exact decimal_ne_nil n
  | negSucc n => exact cons_ne_nil _ _

theorem intStr_injective : Injective intStr := by
  intro m n same
  cases m with
  | ofNat m =>
    cases n with
    | ofNat n => rw [decimal_injective same]
    | negSucc n =>
      have sign : (45 : UInt8) ∈ decimal m := by
        have same' : decimal m = 45 :: decimal (n + 1) := same
        rw [same']
        exact mem_cons_self
      have bound := (mem_decimal sign).1
      exact absurd bound (by decide)
  | negSucc m =>
    cases n with
    | ofNat n =>
      have sign : (45 : UInt8) ∈ decimal n := by
        have same' : 45 :: decimal (m + 1) = decimal n := same
        rw [← same']
        exact mem_cons_self
      have bound := (mem_decimal sign).1
      exact absurd bound (by decide)
    | negSucc n =>
      have digits : decimal (m + 1) = decimal (n + 1) := (List.cons.inj same).2
      rw [succ.inj (decimal_injective digits)]

theorem mem_dimensions {s : Shape} (mem : c ∈ [44].intercalate (s.map intStr)) :
    c.toNat = 44 ∨ c.toNat = 45 ∨ (48 ≤ c.toNat ∧ c.toNat ≤ 57) := by
  induction s with
  | nil => cases mem
  | cons d s ih =>
    cases s with
    | nil =>
      rw [map_cons, map_nil, intercalate_singleton] at mem
      exact inr (mem_intStr mem)
    | cons e s =>
      rw [map_cons, map_cons, intercalate_cons_cons, append_assoc, mem_append] at mem
      rcases mem with first | rest
      · exact inr (mem_intStr first)
      rcases mem_cons.mp rest with rfl | rest
      · exact inl rfl
      · exact ih rest

theorem dimensions_injective : Injective fun s : Shape => [44].intercalate (s.map intStr) := by
  have absent : ∀ s : Shape, ∀ part ∈ s.map intStr, (44 : UInt8) ∉ part := by
    intro s part mem comma
    obtain ⟨d, _, rfl⟩ := mem_map.mp mem
    have value := mem_intStr comma
    exact absurd value (by decide)
  have nonempty : ∀ s : Shape, ([] : Str) ∉ s.map intStr := by
    intro s mem
    obtain ⟨d, _, empty⟩ := mem_map.mp mem
    exact intStr_ne_nil d empty
  intro s t same
  exact map_injective_iff.mpr intStr_injective
    (Delimited.intercalate_injective (absent s) (absent t) (nonempty s) (nonempty t) same)

/-- **The text of a shape is prefix-free.** -/
theorem prefixFree_shapeStr : Delimited.PrefixFree shapeStr := by
  refine (Delimited.prefixFree_closed dimensions_injective fun s bracket => ?_).opened 91
  have value := mem_dimensions bracket
  exact absurd value (by decide)

theorem shapeStr_unmarked (s : Shape) : (61 : UInt8) ∉ shapeStr s := by
  intro mark
  rw [shapeStr] at mark
  rcases mem_cons.mp mark with bracket | inner
  · exact absurd bracket (by decide)
  rcases mem_append.mp inner with inside | bracket
  · have value := mem_dimensions inside
    exact absurd value (by decide)
  · exact absurd (mem_singleton.mp bracket) (by decide)

/-! ## Batch, channels and space -/

/-- A shape read as batch, channels and two spatial dimensions. -/
structure NCHW where
  n : Int := 1
  c : Int := 1
  h : Int := 1
  w : Int := 1
deriving DecidableEq

namespace NCHW

/-- Fold the leading dimensions of a high-rank shape into the batch; read a low-rank shape from
the left, a vector as channels. -/
def ofShape (s : Shape) : NCHW :=
  match s.reverse with
  | w :: h :: c :: n :: lead => { n := wrap64 ((n :: lead).foldl (fun p d => p * d) 1), c, h, w }
  | [h, c, n] => { n, c, h }
  | [c, n] => { n, c }
  | [c] => { c }
  | [] => {}

def elems (x : NCHW) : Int := wrap64 (x.n * x.c * x.h * x.w)

end NCHW

/-- The channel-block width of the packed layout. -/
def kNC4Block : Int := 4

/-- The number of channel blocks that hold `c` channels. -/
def cBlocks (c : Int) : Int := (wrap64 (c + kNC4Block - 1)).tdiv kNC4Block

/-- The stored element count of a shape in a boundary layout. -/
def formatElems (fmt : TensorFormat) (x : NCHW) : Int :=
  if fmt = .nc4hw4 then wrap64 (x.n * cBlocks x.c * kNC4Block * x.h * x.w) else x.elems

/-- Whether a bound shape may stand for the planned one: the same stored bytes where a device
segment consumes the input, the same stored footprint elsewhere. -/
def boundShapeCompatible (got planned : Shape) (flatStore frozenPlan : Bool) : Bool :=
  let a := NCHW.ofShape got
  let b := NCHW.ofShape planned
  if frozenPlan then
    if flatStore then a.elems = b.elems
    else a.n = b.n && a.c = b.c && wrap64 (a.h * a.w) = wrap64 (b.h * b.w)
  else
    let fmt : TensorFormat := if flatStore then .nchw else .nc4hw4
    formatElems fmt a = formatElems fmt b

end Vknn
