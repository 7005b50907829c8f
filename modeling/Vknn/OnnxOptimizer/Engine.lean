import Vknn.OnnxOptimizer.Verify

/-!
# The optimizer's engine

The engine runs the passes in turn until a sweep changes nothing.  It takes a snapshot before each
pass.  A pass that raises is undone and disabled.  A pass that reports no change is believed.
Otherwise the model is sorted, its shapes are inferred again and the gate is asked; a lossy pass
may change values, but nothing else.  What the gate refuses is undone and the pass disabled.

What a pass does on a call, and what the gate answers, may differ from call to call, so both take
the number of the call.  A message without a first line raises an error of its own, which ends the
run.
-/

namespace Vknn.OnnxOptimizer

structure Pass where
  name : Str
  lossy : Bool := false
deriving DecidableEq

/-- What a call of a pass does to the model it edits in place. -/
inductive Outcome where
  | raised (message : Str) (left : ModelProto)
  | returned (changes : Int) (model : ModelProto)
deriving DecidableEq

structure Engine where
  passes : List Pass
  maxIterations : Nat
  /-- Shape inference; the model itself where it raises. -/
  refresh : ModelProto → ModelProto
  call : Nat → Pass → ModelProto → Outcome
  gate : Nat → ModelProto → Except Str GateResult

/-- Whether every failure of the gate is a difference of values. -/
def onlyByteMismatches (gate : GateResult) : Bool :=
  if gate.error.getD [] ≠ [] then false
  else
    let mismatches := gate.cases.flatMap CaseResult.mismatches
    mismatches ≠ [] && mismatches.all fun mm => mm.reason = .bytes

/-- How a call of a pass ended. -/
inductive Verdict where
  | raised
  | unchanged
  | applied (waived : Bool)
  | reverted
  | aborted
deriving DecidableEq

/-- A call of a pass: what it was given, how it ended, and what the engine goes on with. -/
structure Call where
  pass : Pass
  before : ModelProto
  verdict : Verdict
  after : ModelProto

/-- The state of the engine, with the calls made so far. -/
structure State where
  model : ModelProto
  disabled : List Str := []
  changed : Bool := false
  calls : List Call := []

namespace Engine

variable (engine : Engine)

/-- Sort the nodes and infer the shapes again. -/
def normalise (m : ModelProto) : Except Str ModelProto :=
  m.graph.toposort.map fun g => engine.refresh { m with graph := g }

/-- Sort, infer shapes and ask the gate. -/
def ask (k : Nat) (m : ModelProto) : Except (Str × ModelProto) (GateResult × ModelProto) :=
  match engine.normalise m with
  | .error e => .error (e, m)
  | .ok sorted =>
    match engine.gate k sorted with
    | .error e => .error (e, sorted)
    | .ok answer => .ok (answer, sorted)

def goOn (s : State) (p : Pass) (verdict : Verdict) (after : ModelProto) : State :=
  { model := after
    disabled := if verdict = .raised ∨ verdict = .reverted then p.name :: s.disabled else s.disabled
    changed := s.changed || decide (∃ waived, verdict = .applied waived)
    calls := s.calls ++ [⟨p, s.model, verdict, after⟩] }

/-- Call one pass; an error ends the run. -/
def runPass (s : State) (p : Pass) : Except State State :=
  if p.name ∈ s.disabled then .ok s
  else
    match engine.call s.calls.length p s.model with
    | .raised message _ =>
      -- the snapshot is back before the message is looked at
      let s := goOn s p .raised s.model
      if message = [] then .error s else .ok s
    | .returned n m =>
      if n = 0 then .ok (goOn s p .unchanged m)
      else
        match engine.ask s.calls.length m with
        | .error ([], m) => .error (goOn s p .aborted m)
        | .error _ => .ok (goOn s p .reverted s.model)
        | .ok (answer, m) =>
          if answer.ok then .ok (goOn s p (.applied false) m)
          else if p.lossy && onlyByteMismatches answer then .ok (goOn s p (.applied true) m)
          else .ok (goOn s p .reverted s.model)

def sweep (s : State) : List Pass → Except State State
  | [] => .ok s
  | p :: rest =>
    match engine.runPass s p with
    | .ok s => sweep s rest
    | .error s => .error s

/-- Sweep until nothing changes, at most so many times. -/
def iterate : Nat → State → Except State State
  | 0, s => .ok s
  | iterations + 1, s =>
    match engine.sweep { s with changed := false } engine.passes with
    | .error s => .error s
    | .ok s => if s.changed then iterate iterations s else .ok s

/-- Run the passes: the state the run ends in, and the model it returns unless it raises. -/
def run (original : ModelProto) : State × Option ModelProto :=
  match engine.iterate engine.maxIterations { model := engine.refresh original } with
  | .error s => (s, none)
  | .ok s => (s, (engine.normalise s.model).toOption)

end Engine

end Vknn.OnnxOptimizer
