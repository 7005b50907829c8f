import Mathlib.Data.List.Basic
import Mathlib.Tactic.Linarith

/-!
# The worker pool

One pool of workers serves every parallel loop.  A dispatch takes the region, grows the
pool, publishes its task and bumps the generation; the workers that wake claim indices
from a shared counter until it runs out, and each then retires once.  The caller runs
index 0 itself and leaves when every worker has retired.

A step is what one thread does between two points where another thread can interfere: a
critical section of the pool's mutex, an atomic addition, an unguarded read, or the start
or the end of a task.  Tasks may end with an exception.  The region is held by one caller
at a time, so that any number of callers is one sequence of dispatches; a dispatch of at
most one task does not use the pool and may happen at any time.

The log is history: it says which function was run at which index, and what each call
returned.
-/

namespace Vknn.Cpu.Parallel

/-! ## Threads -/

/-- Where a worker stands. -/
inductive WorkerPc (ε : Type) where
  /-- On the condition variable, for a generation it has not seen. -/
  | asleep
  /-- Before the atomic addition. -/
  | claiming
  /-- With an index, before the task count is read. -/
  | claimed (i : Int)
  /-- Before the task pointer is read. -/
  | calling (i : Int)
  /-- Inside the function of a dispatch. -/
  | running (job : Nat) (i : Int)
  /-- With an exception to record. -/
  | caught (e : ε)
  | retiring
deriving DecidableEq

structure Worker (ε : Type) where
  seen : UInt64
  pc : WorkerPc ε
deriving DecidableEq

/-- Where the caller of a dispatch stands. -/
inductive CallerPc (ε : Type) where
  /-- With the region, before the pool grows. -/
  | entered
  | grown
  /-- Published, before index 0. -/
  | calling
  | running (job : Nat)
  | caught (e : ε)
  /-- On the condition variable, for the last worker. -/
  | waiting
  /-- With what the workers left, before the region is given back. -/
  | leaving (e : Option ε)
deriving DecidableEq

/-- The dispatch that holds the region. -/
structure Region (ε : Type) where
  job : Nat
  pc : CallerPc ε
deriving DecidableEq

/-- What is observed of a run.  A dispatch is named by its place in the sequence of dispatches, and
so is its function. -/
inductive Event (ε : Type) where
  | started (job : Nat) (i : Int)
  | finished (job : Nat) (i : Int) (thrown : Option ε)
  | returned (job : Nat) (rethrown : Option ε)
deriving DecidableEq

/-- The pool, its threads and the history. -/
structure Pool (ε : Type) where
  gen : UInt64 := 0
  task : Option Nat := none
  nTasks : Int := 0
  next : Int := 0
  awake : Int := 0
  err : Option ε := none
  workers : List (Worker ε) := []
  region : Option (Region ε) := none
  /-- The number of dispatches so far. -/
  jobs : Nat := 0
  log : List (Event ε) := []
deriving DecidableEq

namespace Pool

variable {ε : Type}

/-! ## Steps -/

/-- Grow to at least a number of workers.  A new one has seen the present generation. -/
def ensure (s : Pool ε) (want : Int) : Pool ε :=
  { s with
    workers := s.workers ++
      List.replicate (want - s.workers.length).toNat { seen := s.gen, pc := .asleep } }

def publish (s : Pool ε) (job : Nat) (nTasks : Int) : Pool ε :=
  { s with
    task := some job
    nTasks := nTasks
    next := 1
    awake := s.workers.length
    err := none
    gen := s.gen + 1 }

def record (s : Pool ε) (e : ε) : Pool ε := { s with err := s.err.or (some e) }

def goto (s : Pool ε) (job : Nat) (pc : CallerPc ε) : Pool ε := { s with region := some ⟨job, pc⟩ }

def put (s : Pool ε) (k : Nat) (w : Worker ε) : Pool ε := { s with workers := s.workers.set k w }

def say (s : Pool ε) (ev : Event ε) : Pool ε := { s with log := s.log ++ [ev] }

end Pool

variable {ε : Type}

/-- After a task: an exception is still to be recorded. -/
def afterTask : Option ε → WorkerPc ε
  | some e => .caught e
  | none => .claiming

def afterTaskZero : Option ε → CallerPc ε
  | some e => .caught e
  | none => .waiting

/-- One step of the worker at a place. -/
inductive WorkerStep (k : Nat) : Pool ε → Pool ε → Prop where
  | wake {s : Pool ε} {seen : UInt64} (here : s.workers[k]? = some ⟨seen, .asleep⟩)
      (fresh : s.gen ≠ seen) : WorkerStep k s (s.put k ⟨s.gen, .claiming⟩)
  | claim {s : Pool ε} {seen : UInt64} (here : s.workers[k]? = some ⟨seen, .claiming⟩) :
      WorkerStep k s ({ s with next := s.next + 1 }.put k ⟨seen, .claimed s.next⟩)
  | exhausted {s : Pool ε} {seen : UInt64} {i : Int}
      (here : s.workers[k]? = some ⟨seen, .claimed i⟩) (past : s.nTasks ≤ i) :
      WorkerStep k s (s.put k ⟨seen, .retiring⟩)
  | take {s : Pool ε} {seen : UInt64} {i : Int}
      (here : s.workers[k]? = some ⟨seen, .claimed i⟩) (inside : i < s.nTasks) :
      WorkerStep k s (s.put k ⟨seen, .calling i⟩)
  | start {s : Pool ε} {seen : UInt64} {i : Int} {job : Nat}
      (here : s.workers[k]? = some ⟨seen, .calling i⟩) (task : s.task = some job) :
      WorkerStep k s ((s.put k ⟨seen, .running job i⟩).say (.started job i))
  | finish {s : Pool ε} {seen : UInt64} {i : Int} {job : Nat} (thrown : Option ε)
      (here : s.workers[k]? = some ⟨seen, .running job i⟩) :
      WorkerStep k s ((s.put k ⟨seen, afterTask thrown⟩).say (.finished job i thrown))
  | record {s : Pool ε} {seen : UInt64} {e : ε}
      (here : s.workers[k]? = some ⟨seen, .caught e⟩) :
      WorkerStep k s ((s.record e).put k ⟨seen, .claiming⟩)
  | retire {s : Pool ε} {seen : UInt64} (here : s.workers[k]? = some ⟨seen, .retiring⟩) :
      WorkerStep k s ({ s with awake := s.awake - 1 }.put k ⟨seen, .asleep⟩)

/-- One step of a caller.  `size` gives the number of tasks of each dispatch. -/
inductive CallerStep (size : Nat → Int) : Pool ε → Pool ε → Prop where
  /-- A dispatch of at most one task runs it in place. -/
  | inline {s : Pool ε} (thrown : Option ε) (few : size s.jobs ≤ 1) : CallerStep size s
        (((({ s with jobs := s.jobs + 1 }).say (.started s.jobs 0)).say
          (.finished s.jobs 0 thrown)).say (.returned s.jobs thrown))
  | enter {s : Pool ε} (free : s.region = none) (many : 1 < size s.jobs) :
      CallerStep size s ({ s with jobs := s.jobs + 1 }.goto s.jobs .entered)
  | grow {s : Pool ε} {job : Nat} (here : s.region = some ⟨job, .entered⟩) :
      CallerStep size s ((s.ensure (size job - 1)).goto job .grown)
  | publish {s : Pool ε} {job : Nat} (here : s.region = some ⟨job, .grown⟩) :
      CallerStep size s ((s.publish job (size job)).goto job .calling)
  | start {s : Pool ε} {job job' : Nat} (here : s.region = some ⟨job, .calling⟩)
      (task : s.task = some job') :
      CallerStep size s ((s.goto job (.running job')).say (.started job' 0))
  | finish {s : Pool ε} {job job' : Nat} (thrown : Option ε)
      (here : s.region = some ⟨job, .running job'⟩) :
      CallerStep size s ((s.goto job (afterTaskZero thrown)).say (.finished job' 0 thrown))
  | record {s : Pool ε} {job : Nat} {e : ε} (here : s.region = some ⟨job, .caught e⟩) :
      CallerStep size s ((s.record e).goto job .waiting)
  | collect {s : Pool ε} {job : Nat} (here : s.region = some ⟨job, .waiting⟩)
      (none : s.awake = 0) :
      CallerStep size s ({ s with err := .none, task := .none }.goto job (.leaving s.err))
  | leave {s : Pool ε} {job : Nat} {e : Option ε} (here : s.region = some ⟨job, .leaving e⟩) :
      CallerStep size s ({ s with region := none }.say (.returned job e))

/-- One step of any thread. -/
inductive Step (size : Nat → Int) : Pool ε → Pool ε → Prop where
  | worker {s t : Pool ε} (k : Nat) (step : WorkerStep k s t) : Step size s t
  | caller {s t : Pool ε} (step : CallerStep size s t) : Step size s t

/-- The states of the runs, in any order of steps. -/
inductive Reachable (size : Nat → Int) : Pool ε → Prop where
  | init : Reachable size {}
  | step {s t : Pool ε} (run : Reachable size s) (step : Step size s t) : Reachable size t

/-! ## Loops -/

/-- The scalar operations a chunk must be worth. -/
def kMinChunkOps : Int := 16384

/-- The smallest number of iterations worth a thread, from the cost of one. -/
def minChunkForWork (opsPerIteration : Int) : Int :=
  let ops := if 0 < opsPerIteration then opsPerIteration else 1
  if kMinChunkOps ≤ ops then 1 else (kMinChunkOps + ops - 1).tdiv ops

/-- The number of chunks of a loop that is split. -/
def chunkCount (threads n minChunk : Int) : Int :=
  let cap := n.tdiv (if 0 < minChunk then minChunk else 1)
  if cap < threads then cap else threads

/-- The bounds of one chunk: the first ones are longer by one where the range does not divide. -/
def chunk (start n t i : Int) : Int × Int :=
  let base := n.tdiv t
  let rem := n.tmod t
  let b := start + i * base + min i rem
  (b, b + base + if i < rem then 1 else 0)

/-- The ranges a loop's body runs on: the whole range in place, or one for each task of a dispatch
that is not empty. -/
def parallelFor (inParallel : Bool) (threads start stop minChunk : Int) : List (Int × Int) :=
  let n := stop - start
  if n ≤ 0 then []
  else
    let t := chunkCount threads n minChunk
    if t ≤ 1 ∨ inParallel then [(start, stop)]
    else
      ((List.range t.toNat).map fun (i : Nat) => chunk start n t i).filter fun c => c.1 < c.2

end Vknn.Cpu.Parallel
