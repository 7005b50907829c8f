import Vknn.Core.Json
import Vknn.Lib.SliceReader

/-!
# Reading the wire format of a model

A model is a message: fields one after the other, each with a tag that gives its number and the form
of its payload.  Payloads of some fields are messages in turn, and a reader of their own walks them.
The fields that are not needed are passed over by their form.

Lengths are clamped to what is left, so a corrupt length reads what there is.  A number is read
until a group that does not go on, or to the end of the slice; nothing else bounds its groups.

What a tensor is made into when it is the value of an attribute is the parameter `flatten`.
-/

namespace Vknn.OnnxWire

open SliceReader
open Wire (Bytes leNat)

/-! ## The reader -/

namespace Reader

open Prog

/-- The groups of a number, seven bits each, least significant first; the fuel bounds them. -/
def varintLoop : Nat → Nat → Nat → Prog Nat
  | 0, v, _ => do
      tell fun _ => .stuck
      pure v
  | fuel + 1, v, shift => do
      if ← eof then pure v
      else
        let b ← byte
        tell fun _ => .shift shift
        let v := (v ||| (b.toNat % 128) <<< shift) % 2 ^ 64
        if b.toNat < 128 then pure v else varintLoop fuel v (shift + 7)

def varint : Prog Nat :=
  ⟨fun file r =>
    (do
      tell .decode
      varintLoop (r.stop - r.pos + 1) 0 0 : Prog Nat).run file r⟩

def fixed32 : Prog Nat := do
  let left ← remaining
  if left < 4 then
    exhaust
    pure 0
  else
    let bytes ← block 4
    pure (leNat bytes)

/-- The number of a field, and the form of its payload. -/
def tag : Prog (Nat × Nat) := do
  let t ← varint
  pure (t / 8 % 2 ^ 32, t % 8)

/-- A length, clamped to what is left. -/
def clampedLen : Prog Nat := do
  let len ← varint
  let left ← remaining
  pure (if len > left then left else len)

def sub : Prog Slice := do
  let len ← clampedLen
  enter len

def str : Prog Str := do
  let len ← clampedLen
  block len

def bytes : Prog Bytes := do
  let len ← clampedLen
  block len

/-- Pass over a payload that is not needed; of the forms that never appear nothing is passed. -/
def skip : Nat → Prog Unit
  | 0 => do
      let _ ← varint
      pure ()
  | 1 => do
      let left ← remaining
      advance (if left < 8 then left else 8)
  | 5 => do
      let left ← remaining
      advance (if left < 4 then left else 4)
  | 2 => do
      let len ← clampedLen
      advance len
  | _ => pure ()

variable {α σ : Type}

def nested (p : Prog α) : Prog α := do
  let s ← sub
  within s p

/-- The walk over the fields of a message. -/
def message (field : σ → Nat → Nat → Prog σ) (s : σ) : Prog σ :=
  whileMore (fun s => do
    let fw ← tag
    field s fw.1 fw.2) s

def push (one : Prog α) (acc : List α) : Prog (List α) := do
  let v ← one
  pure (acc ++ [v])

/-- Values back to back in a payload of their own. -/
def packed (one : Prog α) (acc : List α) : Prog (List α) := nested (whileMore (push one) acc)

/-- Values back to back, or a single one. -/
def packedOrSingle (one : Prog α) (wire : Nat) (acc : List α) : Prog (List α) :=
  if wire = 2 then packed one acc else push one acc

/-- A number as a signed one of 64 bits. -/
def int64 : Prog Int := do
  let n ← varint
  pure (Int.bmod n (2 ^ 64))

/-- A number as a signed one of 32 bits. -/
def int32 : Prog Int := do
  let n ← varint
  pure (Int.bmod n (2 ^ 32))

def uint64 : Prog Int := do
  let n ← varint
  pure (n : Int)

def float32 : Prog Float32Bits := do
  let b ← fixed32
  pure ⟨UInt32.ofNat b⟩

end Reader

open Reader

/-! ## Tensors -/

/-- A tensor as it stands in the model. -/
structure TensorMessage where
  dims : List Int := []
  dataType : Int := 1
  name : Str := []
  raw : Bytes := []
  floatData : List Float32Bits := []
  int32Data : List Int := []
  int64Data : List Int := []
  uint64Data : List Int := []
  dataLocation : Int := 0
  extLoc : Str := []
  extOffset : Int := 0
  extLength : Int := -1
deriving DecidableEq

/-- A decimal integer at the start of a text, clamped to 64 bits; zero if there is none. -/
def strtoll (s : Str) : Int :=
  let s := s.dropWhile fun c => c = 32 || (9 ≤ c && c ≤ 13)
  let digits := (if s.head? = some 45 ∨ s.head? = some 43 then s.tail else s).takeWhile isDigit
  let n : Int := if s.head? = some 45 then -digitsValue digits else digitsValue digits
  max (-2 ^ 63) (min (2 ^ 63 - 1) n)

/-- A field of an entry of the external data: its key or its value. -/
def stringEntryField (kv : Str × Str) (f w : Nat) : Prog (Str × Str) :=
  if f = 1 ∧ w = 2 then do
    let key ← Reader.str
    pure (key, kv.2)
  else if f = 2 ∧ w = 2 then do
    let val ← Reader.str
    pure (kv.1, val)
  else do
    skip w
    pure kv

/-- What an entry of the external data says. -/
def setExternal (t : TensorMessage) (kv : Str × Str) : TensorMessage :=
  if kv.1 = Vknn.str "location" then { t with extLoc := kv.2 }
  else if kv.1 = Vknn.str "offset" then { t with extOffset := strtoll kv.2 }
  else if kv.1 = Vknn.str "length" then { t with extLength := strtoll kv.2 }
  else t

def tensorField (t : TensorMessage) (f w : Nat) : Prog TensorMessage :=
  match f with
  | 1 => do
      let dims ← packedOrSingle int64 w t.dims
      pure { t with dims := dims }
  | 2 => do
      let dataType ← int32
      pure { t with dataType := dataType }
  | 4 => do
      let floatData ← packedOrSingle float32 w t.floatData
      pure { t with floatData := floatData }
  | 5 => do
      let int32Data ← packedOrSingle int32 w t.int32Data
      pure { t with int32Data := int32Data }
  | 7 => do
      let int64Data ← packedOrSingle int64 w t.int64Data
      pure { t with int64Data := int64Data }
  | 11 => do
      let uint64Data ← packedOrSingle uint64 w t.uint64Data
      pure { t with uint64Data := uint64Data }
  | 8 => do
      let name ← Reader.str
      pure { t with name := name }
  | 9 => do
      let raw ← Reader.bytes
      pure { t with raw := raw }
  | 13 => do
      let kv ← nested (message stringEntryField ([], []))
      pure (setExternal t kv)
  | 14 => do
      let dataLocation ← int32
      pure { t with dataLocation := dataLocation }
  | _ => do
      skip w
      pure t

def parseTensor : Prog TensorMessage := message tensorField {}

/-! ## Attributes -/

/-- What has been read of an attribute. -/
structure AttrMessage where
  name : Str := []
  a : Attr := {}
  tp : Option TensorMessage := none

/-- A field of an attribute.  Its floats are read as packed, whatever the form. -/
def attrField (m : AttrMessage) (f w : Nat) : Prog AttrMessage :=
  match f with
  | 1 => do
      let name ← Reader.str
      pure { m with name := name }
  | 2 => do
      let v ← float32
      pure { m with a := { m.a with f := v, kind := .float } }
  | 3 => do
      let v ← int64
      pure { m with a := { m.a with i := v, kind := .int } }
  | 4 => do
      let s ← Reader.bytes
      pure { m with a := { m.a with str := s, kind := .string } }
  | 7 => do
      let floats ← packed float32 m.a.floats
      pure { m with a := { m.a with floats := floats, kind := .floats } }
  | 8 => do
      let ints ← packedOrSingle int64 w m.a.ints
      pure { m with a := { m.a with ints := ints, kind := .ints } }
  | 5 => do
      let tp ← nested parseTensor
      pure { m with tp := some tp }
  | _ => do
      skip w
      pure m

def readAttr : Prog AttrMessage := message attrField {}

section Messages

variable (flatten : TensorMessage → Attr → Attr)

/-- An attribute; the value of a tensor takes the place of what else was read. -/
def parseAttr : Prog AttrMessage := do
  let m ← readAttr
  match m.tp with
  | none => pure m
  | some tp => pure { m with a := flatten tp m.a }

/-! ## Nodes, values and graphs -/

/-- A node as it stands in the model. -/
structure NodeMessage where
  ins : List Str := []
  outs : List Str := []
  name : Str := []
  opType : Str := []
  attr : Attributes := {}
  tensorAttrElemType : Int := 0

/-- The attribute joins the others of a node. -/
def NodeMessage.addAttr (n : NodeMessage) (m : AttrMessage) : NodeMessage :=
  { n with
    attr := { map := n.attr.map.insert m.name m.a }
    tensorAttrElemType :=
      match m.tp with
      | none => n.tensorAttrElemType
      | some tp => tp.dataType }

def nodeField (n : NodeMessage) (f w : Nat) : Prog NodeMessage :=
  match f with
  | 1 => do
      let s ← Reader.str
      pure { n with ins := n.ins ++ [s] }
  | 2 => do
      let s ← Reader.str
      pure { n with outs := n.outs ++ [s] }
  | 3 => do
      let s ← Reader.str
      pure { n with name := s }
  | 4 => do
      let s ← Reader.str
      pure { n with opType := s }
  | 5 => do
      let m ← nested (parseAttr flatten)
      pure (n.addAttr m)
  | _ => do
      skip w
      pure n

/-- The absent second input of an old upsampling. -/
def NodeMessage.finish (n : NodeMessage) : NodeMessage :=
  if n.opType = Vknn.str "Upsample" ∧ n.ins.length = 2 then { n with ins := n.ins.insertIdx 1 [] }
  else n

def parseNode : Prog NodeMessage := do
  let n ← message (nodeField flatten) {}
  pure n.finish

/-- The name of a value, and its type: element type, shape, and the symbols of its axes, which are
asked for only where the value is an input of the graph. -/
structure ValueInfo where
  name : Str := []
  shape : Shape := []
  elem : Int := 0
  dimParams : List Str := []

/-- A dimension: an extent, or a symbol. -/
def dimField (d : Int × Str) (f w : Nat) : Prog (Int × Str) :=
  if f = 1 then do
    let val ← int64
    pure (val, d.2)
  else if f = 2 then do
    let param ← Reader.str
    pure (-1, param)
  else do
    skip w
    pure d

def shapeField (v : ValueInfo) (f w : Nat) : Prog ValueInfo :=
  if f = 1 then do
    let d ← nested (message dimField (-1, []))
    pure { v with shape := v.shape ++ [d.1], dimParams := v.dimParams ++ [d.2] }
  else do
    skip w
    pure v

def tensorTypeField (v : ValueInfo) (f w : Nat) : Prog ValueInfo :=
  if f = 1 then do
    let elem ← int32
    pure { v with elem := elem }
  else if f = 2 then nested (message shapeField v)
  else do
    skip w
    pure v

def typeField (v : ValueInfo) (f w : Nat) : Prog ValueInfo :=
  if f = 1 then nested (message tensorTypeField v)
  else do
    skip w
    pure v

def valueInfoField (v : ValueInfo) (f w : Nat) : Prog ValueInfo :=
  if f = 1 then do
    let name ← Reader.str
    pure { v with name := name }
  else if f = 2 then nested (message typeField v)
  else do
    skip w
    pure v

def parseValueInfo : Prog ValueInfo := message valueInfoField {}

/-- A field of a graph. -/
inductive GraphMessageField where
  | node (n : NodeMessage)
  | initializer (t : TensorMessage)
  | input (v : ValueInfo)
  | output (v : ValueInfo)
  | valueInfo (v : ValueInfo)

/-- The fields of a graph, in the order they stand in. -/
def collectField (fields : List GraphMessageField) (f w : Nat) : Prog (List GraphMessageField) :=
  match f with
  | 1 => do
      let n ← nested (parseNode flatten)
      pure (fields ++ [.node n])
  | 5 => do
      let t ← nested parseTensor
      pure (fields ++ [.initializer t])
  | 11 => do
      let v ← nested parseValueInfo
      pure (fields ++ [.input v])
  | 12 => do
      let v ← nested parseValueInfo
      pure (fields ++ [.output v])
  | 13 => do
      let v ← nested parseValueInfo
      pure (fields ++ [.valueInfo v])
  | _ => do
      skip w
      pure fields

def collect : Prog (List GraphMessageField) := message (collectField flatten) []

/-- A field of a model: its graphs, of which there should be one. -/
def modelField (graphs : List (List GraphMessageField)) (f w : Nat) :
    Prog (List (List GraphMessageField)) :=
  if f = 7 ∧ w = 2 then do
    let g ← nested (collect flatten)
    pure (graphs ++ [g])
  else do
    skip w
    pure graphs

def parseModel : Prog (List (List GraphMessageField)) := message (modelField flatten) []

end Messages

end Vknn.OnnxWire
