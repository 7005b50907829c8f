import Vknn.Core.Json
import Vknn.Lib.CheckedInt

/-!
# Symbolic dimensions

A dimension of a model may be given by an expression: integers and symbols, sums, differences and
products of them, and parentheses.  Symbols get their values from outside.  A symbol that has none
is collected and counts as zero, so that the whole expression is read and every such symbol found.

The evaluator descends along the text.  Its calls nest, and the fuel bounds the nesting and the
loops.  A value is nothing where a computation on the way to it has overflowed: nothing in the
source depends on a value before the whole text has been read.
-/

namespace Vknn.DimExpr

open CheckedInt

abbrev Bindings := Std.ExtTreeMap Str Int

/-- What an expression comes to: a value, or the symbols that have none. -/
structure DimEval where
  ok : Bool := false
  value : Option Int := some 0
  freeSymbols : List Str := []
deriving DecidableEq

/-! ## Characters -/

def isBlank (c : UInt8) : Bool := c = 32 || c = 9

def identStart (c : UInt8) : Bool := (65 ≤ c && c ≤ 90) || (97 ≤ c && c ≤ 122) || c = 95

def identChar (c : UInt8) : Bool := identStart c || isDigit c || c = 46

/-! ## The evaluator -/

/-- The text that is left, the symbols without a value, and whether the text is malformed. -/
structure Parser where
  rest : Str
  free : List Str := []
  bad : Bool := false
deriving DecidableEq

namespace Parser

def skipws (p : Parser) : Parser := { p with rest := p.rest.dropWhile isBlank }

/-- Collect a symbol, unless it has been. -/
def addFree (p : Parser) (name : Str) : Parser :=
  if name ∈ p.free then p else { p with free := p.free ++ [name] }

end Parser

/-- A computation on values that may have overflowed. -/
def lift (op : Int → Int → Option Int) (a b : Option Int) : Option Int :=
  a.bind fun a => b.bind fun b => op a b

/-- The value of digits, one after the other. -/
def literal (ds : Str) : Option Int :=
  ds.foldl (fun v d => v.bind fun v => (mul v 10).bind fun v =>
    add v (d.toNat - 48 : Nat)) (some 0)

variable (binds : Bindings)

mutual

def factor : Nat → Parser → Option (Option Int × Parser)
  | 0, _ => none
  | fuel + 1, p =>
    let p := p.skipws
    match p.rest with
    | [] => some (some 0, { p with bad := true })
    | c :: u =>
      if c = 40 then
        (expr fuel { p with rest := u }).map fun r =>
          let p := r.2.skipws
          if p.rest.head? = some 41 then (r.1, { p with rest := p.rest.tail })
          else (r.1, { p with bad := true })
      else if isDigit c then
        some (literal (p.rest.takeWhile isDigit), { p with rest := p.rest.dropWhile isDigit })
      else if identStart c then
        let name := p.rest.takeWhile identChar
        let p := { p with rest := p.rest.dropWhile identChar }
        match binds[name]? with
        | none => some (some 0, p.addFree name)
        | some v => some (some v, p)
      else some (some 0, { p with bad := true })

def term : Nat → Parser → Option (Option Int × Parser)
  | 0, _ => none
  | fuel + 1, p => (factor fuel p).bind fun r => termLoop fuel r.1 r.2

def termLoop : Nat → Option Int → Parser → Option (Option Int × Parser)
  | 0, _, _ => none
  | fuel + 1, v, p =>
    let p := p.skipws
    if p.rest.head? = some 42 then
      (factor fuel { p with rest := p.rest.tail }).bind fun r =>
        termLoop fuel (lift mul v r.1) r.2
    else some (v, p)

def expr : Nat → Parser → Option (Option Int × Parser)
  | 0, _ => none
  | fuel + 1, p => (term fuel p).bind fun r => exprLoop fuel r.1 r.2

def exprLoop : Nat → Option Int → Parser → Option (Option Int × Parser)
  | 0, _, _ => none
  | fuel + 1, v, p =>
    let p := p.skipws
    if p.rest.head? = some 43 then
      (term fuel { p with rest := p.rest.tail }).bind fun r =>
        exprLoop fuel (lift add v r.1) r.2
    else if p.rest.head? = some 45 then
      (term fuel { p with rest := p.rest.tail }).bind fun r =>
        exprLoop fuel (lift sub v r.1) r.2
    else some (v, p)

end

def fuelFor (text : Str) : Nat := 3 * text.length + 3

/-- Evaluate an expression; nothing where the fuel is not enough, which never happens. -/
def evalDimExpr? (text : Str) : Option DimEval :=
  if text.isEmpty then some {}
  else
    (expr binds (fuelFor text) { rest := text }).map fun r =>
      let p := r.2.skipws
      if p.bad || !p.rest.isEmpty then
        { freeSymbols := if p.free.isEmpty then [text] else p.free }
      else { ok := p.free.isEmpty, value := r.1, freeSymbols := p.free }

/-! ## The grammar -/

/-- An expression. -/
inductive Tree where
  | int (ds : Str)
  | sym (name : Str)
  | mul (a b : Tree)
  | add (a b : Tree)
  | sub (a b : Tree)

/-- The levels of the grammar. -/
inductive Level where
  | factor
  | term
  | expr

def Blank (w : Str) : Prop := ∀ c ∈ w, isBlank c = true

/-- A text reads as an expression at a level: products bind closer than sums, both group to the
left, and blanks may stand before every token. -/
inductive Reads : Level → Tree → Str → Prop where
  | int {w ds : Str} (blank : Blank w) (some : ds ≠ []) (digits : ∀ c ∈ ds, isDigit c = true) :
      Reads .factor (.int ds) (w ++ ds)
  | sym {w : Str} {c : UInt8} {cs : Str} (blank : Blank w) (first : identStart c = true)
      (chars : ∀ d ∈ cs, identChar d = true) : Reads .factor (.sym (c :: cs)) (w ++ c :: cs)
  | group {w w' s : Str} {t : Tree} (blank : Blank w) (inner : Reads .expr t s)
      (blank' : Blank w') : Reads .factor t (w ++ 40 :: (s ++ (w' ++ [41])))
  | factor {s : Str} {t : Tree} (inner : Reads .factor t s) : Reads .term t s
  | mul {s w r : Str} {a b : Tree} (left : Reads .term a s) (blank : Blank w)
      (right : Reads .factor b r) : Reads .term (.mul a b) (s ++ (w ++ 42 :: r))
  | term {s : Str} {t : Tree} (inner : Reads .term t s) : Reads .expr t s
  | add {s w r : Str} {a b : Tree} (left : Reads .expr a s) (blank : Blank w)
      (right : Reads .term b r) : Reads .expr (.add a b) (s ++ (w ++ 43 :: r))
  | sub {s w r : Str} {a b : Tree} (left : Reads .expr a s) (blank : Blank w)
      (right : Reads .term b r) : Reads .expr (.sub a b) (s ++ (w ++ 45 :: r))

/-- A text is an expression, with blanks behind it. -/
def Denotes (text : Str) (t : Tree) : Prop := ∃ s w, Reads .expr t s ∧ Blank w ∧ text = s ++ w

namespace Tree

/-- The symbols of an expression, from left to right. -/
def symbols : Tree → List Str
  | int _ => []
  | sym name => [name]
  | mul a b | add a b | sub a b => a.symbols ++ b.symbols

def Bound (t : Tree) : Prop := ∀ name ∈ t.symbols, name ∈ binds

/-- The value of an expression, in the integers. -/
def value : Tree → Int
  | int ds => digitsValue ds
  | sym name => (binds[name]?).getD 0
  | mul a b => a.value * b.value
  | add a b => a.value + b.value
  | sub a b => a.value - b.value

/-- Every integer, product, sum and difference in an expression is in 64 bits. -/
def Fits : Tree → Prop
  | int ds => CheckedInt.Fits (digitsValue ds)
  | sym _ => True
  | mul a b => a.Fits ∧ b.Fits ∧ CheckedInt.Fits (a.value binds * b.value binds)
  | add a b => a.Fits ∧ b.Fits ∧ CheckedInt.Fits (a.value binds + b.value binds)
  | sub a b => a.Fits ∧ b.Fits ∧ CheckedInt.Fits (a.value binds - b.value binds)

end Tree

/-- **Exactly the expressions whose symbols are bound are accepted**, and with their values, which
are computed without overflow. -/
def EvaluatesExactly (text : Str) : Prop :=
  ∃ e, evalDimExpr? binds text = some e ∧ (e.ok = true ↔ ∃ t, Denotes text t ∧ t.Bound binds) ∧
    ∀ t, Denotes text t → t.Bound binds → e.value = some (t.value binds)

end Vknn.DimExpr
