import Vknn.OnnxOptimizer.GraphUtil

/-!
# The verifier

A reference runtime runs models on fixed inputs.  The verifier keeps the outputs of the original
on a list of cases, and a candidate passes where it loads and gives the same outputs, name by
name and byte by byte, on every case.

The runtime is not part of the repository: it loads a model or raises, and a loaded model gives a
feed its outputs or raises.  It is deterministic, which the verifier tests on its first case.
-/

namespace Vknn.OnnxOptimizer

open List Std

abbrev Arrays := ExtTreeMap Str NdArray

/-- A loaded model: the inputs it declares, and its run. -/
structure Session where
  inputNames : List Str
  run : Arrays → Except Str Arrays

/-- Run with the part of a feed that the model declares. -/
def Session.runFeed (session : Session) (feed : Arrays) : Except Str Arrays :=
  if session.inputNames.all fun k => feed.contains k then
    session.run (feed.filter fun k _ => k ∈ session.inputNames)
  else .error (str "feed is missing required inputs")

abbrev Runtime := ModelProto → Except Str Session

def Runtime.evaluate (runtime : Runtime) (m : ModelProto) (feed : Arrays) : Except Str Arrays :=
  match runtime m with
  | .ok session => session.runFeed feed
  | .error e => .error e

/-! ## Comparing -/

/-- Why an output does not match. -/
inductive Reason where
  | dtype | shape | bytes | missingOutput | extraOutput | runError
deriving DecidableEq

structure Mismatch where
  output : Str
  reason : Reason
deriving DecidableEq

/-- Nothing where two arrays are byte-identical. -/
def compareArrays (name : Str) (ref got : NdArray) : Option Mismatch :=
  if ref.dtype ≠ got.dtype then some ⟨name, .dtype⟩
  else if ref.shape ≠ got.shape then some ⟨name, .shape⟩
  else if ref.bytes = got.bytes then none
  else some ⟨name, .bytes⟩

def compareRuns (ref got : Arrays) : List Mismatch :=
  ((ref.keys.filter fun name => !got.contains name).map fun name => ⟨name, .missingOutput⟩) ++
    ((got.keys.filter fun name => !ref.contains name).map fun name => ⟨name, .extraOutput⟩) ++
    (ref.keys.filter fun name => got.contains name).filterMap fun name =>
      compareArrays name (ref.getD name {}) (got.getD name {})

theorem compareArrays_eq_none_iff {name : Str} {ref got : NdArray} :
    compareArrays name ref got = none ↔ ref = got := by
  unfold compareArrays
  obtain ⟨d, s, b⟩ := ref
  obtain ⟨d', s', b'⟩ := got
  rw [NdArray.mk.injEq]
  dsimp only
  split
  · simp_all
  · split
    · simp_all
    · split
      · simp_all
      · simp_all

/-- **Two runs without mismatches gave the same arrays.** -/
theorem compareRuns_eq_nil_iff {ref got : Arrays} : compareRuns ref got = [] ↔ ref = got := by
  unfold compareRuns
  constructor
  · intro none
    rw [append_eq_nil_iff, append_eq_nil_iff, map_eq_nil_iff, map_eq_nil_iff,
      filter_eq_nil_iff, filter_eq_nil_iff, filterMap_eq_nil_iff] at none
    obtain ⟨⟨missing, extra⟩, differ⟩ := none
    refine ExtTreeMap.ext_getElem? fun name => ?_
    by_cases there : name ∈ ref
    · have here : name ∈ got := by
        have found := missing name (ExtTreeMap.mem_keys.mpr there)
        simpa using found
      have same := compareArrays_eq_none_iff.mp (differ name (mem_filter.mpr
        ⟨ExtTreeMap.mem_keys.mpr there, ExtTreeMap.contains_iff_mem.mpr here⟩))
      rw [ExtTreeMap.getElem?_eq_some_getElem there, ExtTreeMap.getElem?_eq_some_getElem here]
      rw [ExtTreeMap.getD_eq_getD_getElem?, ExtTreeMap.getD_eq_getD_getElem?,
        ExtTreeMap.getElem?_eq_some_getElem there,
        ExtTreeMap.getElem?_eq_some_getElem here] at same
      exact congrArg some same
    · have away : name ∉ got := fun here => by
        have found := extra name (ExtTreeMap.mem_keys.mpr here)
        simp [there] at found
      rw [ExtTreeMap.getElem?_eq_none there, ExtTreeMap.getElem?_eq_none away]
  · rintro rfl
    rw [append_eq_nil_iff, append_eq_nil_iff, map_eq_nil_iff, map_eq_nil_iff,
      filter_eq_nil_iff, filterMap_eq_nil_iff]
    have present : ∀ name ∈ ref.keys, ¬ (!ref.contains name) = true := by
      intro name mem
      simpa using ExtTreeMap.mem_keys.mp mem
    exact ⟨⟨present, present⟩, fun name _ => compareArrays_eq_none_iff.mpr rfl⟩

/-! ## The verifier -/

/-- A case of the verifier: its label, what is fed, and what the reference gave. -/
structure Case where
  label : Str
  feed : Arrays
  outputs : Arrays

/-- A planned case; the reference must be able to run a hard one. -/
structure Planned where
  label : Str
  feed : Arrays
  hard : Bool

/-- The result of a case. -/
structure CaseResult where
  label : Str
  mismatches : List Mismatch
deriving DecidableEq

/-- What a check answers. -/
structure GateResult where
  ok : Bool
  error : Option Str := none
  cases : List CaseResult := []
deriving DecidableEq

/-- Run the reference on the planned cases, leaving out those it cannot run. -/
def runPlanned (session : Session) : List Planned → Except Str (List Case)
  | [] => .ok []
  | p :: rest =>
    match session.runFeed p.feed with
    | .ok outputs => (runPlanned session rest).map fun cases => ⟨p.label, p.feed, outputs⟩ :: cases
    | .error e =>
      if p.hard then .error (str "reference model failed on " ++ p.label ++ str ": " ++ e)
      else runPlanned session rest

/-- The cases of a verifier of a reference model. -/
def Verifier.build (runtime : Runtime) (reference : ModelProto) (planned : List Planned) :
    Except Str (List Case) :=
  match runtime reference with
  | .error e => .error e
  | .ok session =>
    match runPlanned session planned with
    | .error e => .error e
    | .ok [] => .error (str "no runnable verification cases for the reference model")
    | .ok (first :: rest) =>
      match session.runFeed first.feed with
      | .error e => .error e
      | .ok again =>
        if compareRuns first.outputs again ≠ [] then
          .error (str "reference runtime is not deterministic on this host")
        else .ok (first :: rest)

/-- Check one case.  An error whose message has no first line raises another. -/
def checkCase (session : Session) (c : Case) : Except Str CaseResult :=
  match session.runFeed c.feed with
  | .ok got => .ok ⟨c.label, compareRuns c.outputs got⟩
  | .error [] => .error (str "list index out of range")
  | .error _ => .ok ⟨c.label, [⟨str "*", .runError⟩]⟩

def checkCases (session : Session) : List Case → Except Str (List CaseResult)
  | [] => .ok []
  | c :: rest =>
    match checkCase session c with
    | .error e => .error e
    | .ok result => (checkCases session rest).map fun results => result :: results

/-- Check a candidate against the cases. -/
def Verifier.check (runtime : Runtime) (cases : List Case) (candidate : ModelProto) :
    Except Str GateResult :=
  match runtime candidate with
  | .error [] => .error (str "list index out of range")
  | .error e => .ok { ok := false, error := some (str "candidate model failed to load: " ++ e) }
  | .ok session =>
    (checkCases session cases).map fun results =>
      { ok := results.all fun r => r.mismatches = [], cases := results }

end Vknn.OnnxOptimizer
