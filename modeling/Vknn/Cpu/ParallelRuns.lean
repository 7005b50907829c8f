import Mathlib.Data.List.Count
import Vknn.Cpu.Parallel
import Vknn.Lib.Ranges

/-!
# What a dispatch does

Outside a dispatch every worker is asleep and has seen the present generation.  Publishing
makes that generation old for all of them at once, so each worker joins exactly the
dispatch it is woken for, and the count of workers still to retire reaches zero only
when none of them can touch the task again.

While tasks run, an index that has been handed out is either held by one worker or has
been started, never both.  A worker retires only after it has seen the counter past the
last index; when all have, every index has been run, and once.
-/

namespace Vknn.Cpu.Parallel

open List Int Bool Nat Or

variable {ε : Type}

/-! ## Reading the history -/

namespace Event

def job : Event ε → Nat
  | started d _ => d
  | finished d _ _ => d
  | returned d _ => d

def isStart (d : Nat) (i : Int) : Event ε → Bool
  | started d' i' => d' = d ∧ i' = i
  | _ => false

def isFinish (d : Nat) (i : Int) : Event ε → Bool
  | finished d' i' _ => d' = d ∧ i' = i
  | _ => false

end Event

/-- How often the function of a dispatch was started at an index, and how often it came to its
end there. -/
def starts (log : List (Event ε)) (d : Nat) (i : Int) : Nat := log.countP (Event.isStart d i)
def finishes (log : List (Event ε)) (d : Nat) (i : Int) : Nat := log.countP (Event.isFinish d i)

/-- A task of a dispatch ended with an exception. -/
def Threw (log : List (Event ε)) (d : Nat) (e : ε) : Prop := ∃ i, .finished d i (some e) ∈ log

def Untouched (log : List (Event ε)) (d : Nat) : Prop := ∀ ev ∈ log, ev.job ≠ d

/-- Every index was run to its end, once, and one of the exceptions is what is left. -/
structure Complete (n : Int) (log : List (Event ε)) (d : Nat) (r : Option ε) : Prop where
  ran : ∀ i, 0 ≤ i → i < n → starts log d i = 1 ∧ finishes log d i = 1
  own : ∀ e, r = some e → Threw log d e
  thrown : ∀ e, Threw log d e → r.isSome

/-- Whenever a dispatch has returned, it was complete before, and nothing happened for it
afterwards. -/
def Settled (size : Nat → Int) (log : List (Event ε)) : Prop :=
  ∀ before d r later, log = before ++ .returned d r :: later →
    Complete (size d) before d r ∧ Untouched later d

theorem starts_say (log : List (Event ε)) (ev : Event ε) (d : Nat) (i : Int) :
    starts (log ++ [ev]) d i = starts log d i + if ev.isStart d i then 1 else 0 := by
  rw [starts, starts, countP_append, countP_singleton]

theorem finishes_say (log : List (Event ε)) (ev : Event ε) (d : Nat) (i : Int) :
    finishes (log ++ [ev]) d i = finishes log d i + if ev.isFinish d i then 1 else 0 := by
  rw [finishes, finishes, countP_append, countP_singleton]

variable {ev x : Event ε} {d job k : Nat} {log : List (Event ε)} {e : ε} {size : Nat → Int}
  {s t : Pool ε} {i n : Int} {w : Worker ε} {pc : CallerPc ε}

theorem isStart_other (other : ev.job ≠ d) (i : Int) : ev.isStart d i = false := by
  cases ev with
  | started d' i' =>
    have apart : d' ≠ d := other
    simp [Event.isStart, apart]
  | finished => rfl
  | returned => rfl

theorem isFinish_other (other : ev.job ≠ d) (i : Int) : ev.isFinish d i = false := by
  cases ev with
  | started => rfl
  | finished d' i' _ =>
    have apart : d' ≠ d := other
    simp [Event.isFinish, apart]
  | returned => rfl

theorem starts_other (log : List (Event ε)) (other : ev.job ≠ d)
    (i : Int) : starts (log ++ [ev]) d i = starts log d i := by
  rw [starts_say, isStart_other other, if_neg Bool.false_ne_true, Nat.add_zero]

theorem finishes_other (log : List (Event ε)) (other : ev.job ≠ d)
    (i : Int) : finishes (log ++ [ev]) d i = finishes log d i := by
  rw [finishes_say, isFinish_other other, if_neg Bool.false_ne_true, Nat.add_zero]

theorem threw_other (other : ev.job ≠ d) : Threw (log ++ [ev]) d e ↔ Threw log d e := by
  constructor
  · rintro ⟨i, mem⟩
    rcases mem_append.mp mem with old | new
    · exact ⟨i, old⟩
    · rw [← mem_singleton.mp new] at other
      exact absurd rfl other
  · rintro ⟨i, mem⟩
    exact ⟨i, mem_append_left _ mem⟩

theorem Threw.say (threw : Threw log d e) (ev : Event ε) : Threw (log ++ [ev]) d e := by
  obtain ⟨i, mem⟩ := threw
  exact ⟨i, mem_append_left _ mem⟩

theorem Untouched.starts (none : Untouched log d) (i : Int) : starts log d i = 0 := by
  refine countP_eq_zero.mpr fun ev mem => ?_
  rw [isStart_other (none ev mem)]
  exact false_ne_true

theorem Untouched.finishes (none : Untouched log d) (i : Int) : finishes log d i = 0 := by
  refine countP_eq_zero.mpr fun ev mem => ?_
  rw [isFinish_other (none ev mem)]
  exact false_ne_true

theorem Untouched.threw (none : Untouched log d) : ¬ Threw log d e := by
  rintro ⟨i, mem⟩
  exact none _ mem rfl

theorem Untouched.say (none : Untouched log d)
    (other : ev.job ≠ d) : Untouched (log ++ [ev]) d := by
  intro ev' mem
  rcases mem_append.mp mem with old | new
  · exact none ev' old
  · rwa [mem_singleton.mp new]

/-! ## Returned dispatches stay as they are -/

def Open (log : List (Event ε)) (d : Nat) : Prop := ∀ r, .returned d r ∉ log

theorem Untouched.open (none : Untouched log d) : Open log d := fun _ mem => none _ mem rfl

theorem Open.say (waiting : Open log d)
    (other : ∀ r, x ≠ .returned d r) : Open (log ++ [x]) d := by
  intro r mem
  rcases mem_append.mp mem with old | new
  · exact waiting r old
  · exact other r (mem_singleton.mp new).symm

/-- What ends in one more event either ends in it or lies before it. -/
theorem snoc_eq_split {α : Type} {log before later : List α} {x y : α}
    (split : log ++ [x] = before ++ y :: later) :
    (later = [] ∧ before = log ∧ y = x) ∨ ∃ rest, later = rest ++ [x] ∧ log = before ++ y :: rest := by
  rcases eq_nil_or_concat later with rfl | ⟨rest, last, rfl⟩
  · obtain ⟨same, tail⟩ := append_inj' split rfl
    cases tail
    exact inl ⟨rfl, same.symm, rfl⟩
  · rw [concat_eq_append, ← cons_append, ← append_assoc] at split
    obtain ⟨same, tail⟩ := append_inj' split rfl
    cases tail
    exact inr ⟨rest, concat_eq_append, same⟩

/-- **An event for a dispatch that has not returned keeps the history settled.** -/
theorem Settled.say (settled : Settled size log)
    (waiting : Open log x.job)
    (complete : ∀ d r, x = .returned d r → Complete (size d) log d r) :
    Settled size (log ++ [x]) := by
  intro before d r later split
  rcases snoc_eq_split split with ⟨rfl, rfl, last⟩ | ⟨rest, rfl, inner⟩
  · exact ⟨complete d r last.symm, fun x mem => nomatch mem⟩
  · obtain ⟨done, quiet⟩ := settled before d r rest inner
    refine ⟨done, quiet.say fun same => ?_⟩
    refine waiting r ?_
    rw [same, inner]
    exact mem_append_right _ mem_cons_self

/-! ## Counting workers -/

theorem countP_set_add {α : Type} {l : List α} {x : α} (here : l[k]? = some x) (y : α)
    (p : α → Bool) :
    (l.set k y).countP p + (if p x then 1 else 0) = l.countP p + if p y then 1 else 0 := by
  obtain ⟨inside, rfl⟩ := List.getElem?_eq_some_iff.mp here
  rw [countP_set inside]
  have mem : (if p l[k] = true then 1 else 0) ≤ l.countP p := by
    split_ifs with holds
    · exact countP_pos_iff.mpr ⟨_, getElem_mem inside, holds⟩
    · exact zero_le _
  omega

namespace WorkerPc

def isAsleep : WorkerPc ε → Bool
  | asleep => true
  | _ => false

/-- With an index that has not been started. -/
def holds (i : Int) : WorkerPc ε → Bool
  | claimed j => j = i
  | calling j => j = i
  | _ => false

def runs (i : Int) : WorkerPc ε → Bool
  | running _ j => j = i
  | _ => false

end WorkerPc

def Worker.retired (gen : UInt64) (w : Worker ε) : Bool := w.pc.isAsleep && w.seen = gen

/-! ## The invariant -/

/-- Where a worker can be while a dispatch is under way. -/
def Worker.Busy (gen : UInt64) (n next : Int) (job : Nat) (log : List (Event ε)) (w : Worker ε) :
    Prop :=
  match w.pc with
  | .asleep => w.seen = gen ∧ n ≤ next ∨ w.seen + 1 = gen
  | .claiming => w.seen = gen
  | .claimed i => w.seen = gen ∧ 1 ≤ i ∧ i < next
  | .calling i => w.seen = gen ∧ 1 ≤ i ∧ i < n ∧ i < next
  | .running f i => w.seen = gen ∧ f = job ∧ 1 ≤ i ∧ i < n
  | .caught e => w.seen = gen ∧ Threw log job e
  | .retiring => w.seen = gen ∧ n ≤ next

/-- Index 0 against where its caller is. -/
def CallerPc.zeroStarts : CallerPc ε → Nat
  | entered => 0
  | grown => 0
  | calling => 0
  | _ => 1

def CallerPc.zeroFinishes : CallerPc ε → Nat
  | entered => 0
  | grown => 0
  | calling => 0
  | running _ => 0
  | _ => 1

/-- Every worker is asleep and has seen the present generation. -/
def Quiet (s : Pool ε) : Prop := ∀ w ∈ s.workers, w.pc = .asleep ∧ w.seen = s.gen

/-- A dispatch is under way. -/
structure Busy (size : Nat → Int) (s : Pool ε) (job : Nat) (pc : CallerPc ε) : Prop where
  task : s.task = some job
  nTasks : s.nTasks = size job
  many : 1 < size job
  enough : size job - 1 ≤ s.workers.length
  next : 1 ≤ s.next
  workers : ∀ w ∈ s.workers, w.Busy s.gen (size job) s.next job s.log
  awake : s.awake = s.workers.countP fun w => !w.retired s.gen
  /-- An index that was handed out is held or has been started. -/
  claimed : ∀ i, 1 ≤ i → i < size job →
    s.workers.countP (fun w => w.pc.holds i) + starts s.log job i = if i < s.next then 1 else 0
  /-- A task that was started runs or has come to its end. -/
  running : ∀ i, 1 ≤ i → i < size job →
    starts s.log job i = finishes s.log job i + s.workers.countP fun w => w.pc.runs i
  zeroStarts : starts s.log job 0 = pc.zeroStarts
  zeroFinishes : finishes s.log job 0 = pc.zeroFinishes
  /-- The caller runs its own function, and what it has caught a task has thrown. -/
  caller : ∀ f, pc = .running f → f = job
  caught : ∀ e, pc = .caught e → Threw s.log job e
  kept : ∀ e, s.err = some e → Threw s.log job e
  /-- What a task has thrown was recorded or is about to be. -/
  thrown : ∀ e, Threw s.log job e →
    s.err.isSome ∨ (∃ w ∈ s.workers, ∃ e, w.pc = .caught e) ∨ ∃ e, pc = .caught e

/-- What holds of the dispatch that has the region. -/
def Phase (size : Nat → Int) (s : Pool ε) : Option (Region ε) → Prop
  | none => Quiet s
  | some ⟨job, .entered⟩ => Quiet s ∧ Untouched s.log job ∧ 1 < size job
  | some ⟨job, .grown⟩ =>
    Quiet s ∧ Untouched s.log job ∧ 1 < size job ∧ size job - 1 ≤ s.workers.length
  | some ⟨job, .leaving e⟩ => Quiet s ∧ Complete (size job) s.log job e
  | some ⟨job, .calling⟩ => Busy size s job .calling
  | some ⟨job, .running f⟩ => Busy size s job (.running f)
  | some ⟨job, .caught e⟩ => Busy size s job (.caught e)
  | some ⟨job, .waiting⟩ => Busy size s job .waiting

/-- **The invariant of the pool.** -/
structure Inv (size : Nat → Int) (s : Pool ε) : Prop where
  /-- Dispatches are numbered in order. -/
  known : ∀ ev ∈ s.log, ev.job < s.jobs
  held : ∀ r, s.region = some r → r.job < s.jobs ∧ Open s.log r.job
  settled : Settled size s.log
  phase : Phase size s s.region

/-! ## Steps of a worker -/

theorem bump_ne (gen : UInt64) : gen + 1 ≠ gen := by
  intro same
  simp at same

theorem Quiet.still (quiet : Quiet s) (step : WorkerStep k s t) : False := by
  have asleep : ∀ {w : Worker ε}, s.workers[k]? = some w → w.pc = .asleep ∧ w.seen = s.gen :=
    fun here => quiet _ (mem_of_getElem? here)
  cases step with
  | wake here fresh => exact fresh (asleep here).2.symm
  | claim here => exact nomatch (asleep here).1
  | exhausted here => exact nomatch (asleep here).1
  | take here => exact nomatch (asleep here).1
  | start here => exact nomatch (asleep here).1
  | finish thrown here => exact nomatch (asleep here).1
  | record here => exact nomatch (asleep here).1
  | retire here => exact nomatch (asleep here).1

/-- What holds of a worker still holds when the counter and the history have grown. -/
theorem Worker.Busy.mono {gen : UInt64} {next next' : Int} {log' : List (Event ε)}
    (busy : w.Busy gen n next job log) (grows : next ≤ next')
    (keeps : ∀ e, Threw log job e → Threw log' job e) : w.Busy gen n next' job log' := by
  obtain ⟨seen, pc⟩ := w
  cases pc with
  | asleep => exact busy.imp (fun old => ⟨old.1, old.2.trans grows⟩) id
  | claiming => exact busy
  | claimed i => exact ⟨busy.1, busy.2.1, busy.2.2.trans_le grows⟩
  | calling i => exact ⟨busy.1, busy.2.1, busy.2.2.1, busy.2.2.2.trans_le grows⟩
  | running f i => exact busy
  | caught e => exact ⟨busy.1, keeps e busy.2⟩
  | retiring => exact ⟨busy.1, busy.2.trans grows⟩

/-- One worker's step, by what it changes: the worker, the counter, the count of workers that are
awake, the exception and the history. -/
structure Moves (size : Nat → Int) (s t : Pool ε) (job k : Nat) (w w' : Worker ε) : Prop where
  here : s.workers[k]? = some w
  workers : t.workers = s.workers.set k w'
  task : t.task = s.task
  nTasks : t.nTasks = s.nTasks
  gen : t.gen = s.gen
  next : s.next ≤ t.next
  busy : w'.Busy t.gen (size job) t.next job t.log
  awake : t.awake + (if !w.retired s.gen then 1 else 0) = s.awake + if !w'.retired s.gen then 1 else 0
  keeps : ∀ e, Threw s.log job e → Threw t.log job e
  claimed : ∀ i, 1 ≤ i → i < size job →
    (if w'.pc.holds i then 1 else 0) + starts t.log job i + (if i < s.next then 1 else 0) =
      (if w.pc.holds i then 1 else 0) + starts s.log job i + if i < t.next then 1 else 0
  running : ∀ i, 1 ≤ i → i < size job →
    starts t.log job i + finishes s.log job i + (if w.pc.runs i then 1 else 0) =
      starts s.log job i + finishes t.log job i + if w'.pc.runs i then 1 else 0
  zero : starts t.log job 0 = starts s.log job 0 ∧ finishes t.log job 0 = finishes s.log job 0
  kept : ∀ e, t.err = some e → s.err = some e ∨ Threw t.log job e
  err : s.err.isSome → t.err.isSome
  recorded : ∀ e, w.pc = .caught e → t.err.isSome
  thrown : ∀ e, Threw t.log job e → Threw s.log job e ∨ w'.pc = .caught e

variable {w' : Worker ε} {d' : Nat} {region : Option (Region ε)} {r : Region ε}

/-- **A worker's step keeps what holds of a dispatch under way.** -/
theorem Busy.moves
    (busy : Busy size s job pc) (moves : Moves size s t job k w w') :
    Busy size t job pc := by
  have inside := (List.getElem?_eq_some_iff.mp moves.here).1
  have placed : w' ∈ t.workers := by
    rw [moves.workers]
    exact mem_set inside w'
  exact
    { task := moves.task.trans busy.task
      nTasks := moves.nTasks.trans busy.nTasks
      many := busy.many
      enough := by
        rw [moves.workers, length_set]
        exact busy.enough
      next := busy.next.trans moves.next
      workers := by
        intro x mem
        rw [moves.workers] at mem
        rcases mem_or_eq_of_mem_set mem with old | rfl
        · rw [moves.gen]
          exact (busy.workers x old).mono moves.next moves.keeps
        · exact moves.busy
      awake := by
        have count := countP_set_add moves.here w' fun w => !w.retired s.gen
        have awake := busy.awake
        have change := moves.awake
        rw [moves.workers, moves.gen]
        simp only [Bool.not_eq_eq_eq_not, Bool.not_true] at count change ⊢
        split_ifs at count change <;> omega
      claimed := by
        intro i low high
        have count := countP_set_add moves.here w' fun w => w.pc.holds i
        have before := busy.claimed i low high
        have change := moves.claimed i low high
        rw [moves.workers]
        omega
      running := by
        intro i low high
        have count := countP_set_add moves.here w' fun w => w.pc.runs i
        have before := busy.running i low high
        have change := moves.running i low high
        rw [moves.workers]
        omega
      zeroStarts := moves.zero.1.trans busy.zeroStarts
      zeroFinishes := moves.zero.2.trans busy.zeroFinishes
      caller := busy.caller
      caught := fun e here => moves.keeps e (busy.caught e here)
      kept := fun e held => (moves.kept e held).elim
        (fun old => moves.keeps e (busy.kept e old)) id
      thrown := by
        intro e threw
        rcases moves.thrown e threw with old | new
        · rcases busy.thrown e old with held | ⟨x, mem, e', caught⟩ | caller
          · exact inl (moves.err held)
          · by_cases same : x = w
            · exact inl (moves.recorded e' (same ▸ caught))
            · refine inr (inl ⟨x, ?_, e', caught⟩)
              obtain ⟨j, small, rfl⟩ := mem_iff_getElem.mp mem
              have apart : k ≠ j := by
                rintro rfl
                exact same (List.getElem?_eq_some_iff.mp moves.here).2
              rw [moves.workers]
              exact mem_of_getElem? ((getElem?_set_ne apart).trans
                (getElem?_eq_getElem small))
          · exact inr (inr caller)
        · exact inr (inl ⟨w', placed, e, new⟩) }

/-- A step that says nothing keeps what has been thrown and counted. -/
theorem Moves.silent
    (here : s.workers[k]? = some w) (workers : t.workers = s.workers.set k w')
    (task : t.task = s.task) (nTasks : t.nTasks = s.nTasks) (gen : t.gen = s.gen)
    (log : t.log = s.log) (next : s.next ≤ t.next)
    (busy : w'.Busy s.gen (size job) t.next job s.log)
    (awake : t.awake + (if !w.retired s.gen then 1 else 0) =
      s.awake + if !w'.retired s.gen then 1 else 0)
    (holds : ∀ i, 1 ≤ i → i < size job →
      (if w'.pc.holds i then 1 else 0) + (if i < s.next then 1 else 0) =
        (if w.pc.holds i then 1 else 0) + if i < t.next then 1 else 0)
    (runs : ∀ i, w'.pc.runs i = w.pc.runs i)
    (kept : ∀ e, t.err = some e → s.err = some e ∨ Threw s.log job e)
    (err : s.err.isSome → t.err.isSome) (recorded : ∀ e, w.pc = .caught e → t.err.isSome) :
    Moves size s t job k w w' where
  here := here
  workers := workers
  task := task
  nTasks := nTasks
  gen := gen
  next := next
  busy := by
    rw [gen, log]
    exact busy
  awake := awake
  keeps e threw := log ▸ threw
  claimed i low high := by
    have change := holds i low high
    rw [log]
    omega
  running i _ _ := by rw [log, runs]
  zero := by
    rw [log]
    exact ⟨rfl, rfl⟩
  kept e held := log ▸ kept e held
  err := err
  recorded := recorded
  thrown e threw := inl (log ▸ threw)

theorem starts_started (log : List (Event ε)) (d : Nat) (i j : Int) :
    starts (log ++ [.started d i]) d j = starts log d j + if i = j then 1 else 0 := by
  rw [starts_say]
  simp [Event.isStart]

theorem starts_finished (log : List (Event ε)) (d : Nat) (i j : Int) (o : Option ε) :
    starts (log ++ [.finished d i o]) d j = starts log d j := by
  rw [starts_say]
  simp [Event.isStart]

theorem finishes_started (log : List (Event ε)) (d : Nat) (i j : Int) :
    finishes (log ++ [.started d i]) d j = finishes log d j := by
  rw [finishes_say]
  simp [Event.isFinish]

theorem finishes_finished (log : List (Event ε)) (d : Nat) (i j : Int) (o : Option ε) :
    finishes (log ++ [.finished d i o]) d j = finishes log d j + if i = j then 1 else 0 := by
  rw [finishes_say]
  simp [Event.isFinish]

theorem threw_started
    (threw : Threw (log ++ [.started d' i]) d e) : Threw log d e := by
  obtain ⟨j, mem⟩ := threw
  rcases mem_append.mp mem with old | new
  · exact ⟨j, old⟩
  · cases mem_singleton.mp new

theorem threw_finished {o : Option ε}
    (threw : Threw (log ++ [.finished d' i o]) d e) : Threw log d e ∨ o = some e := by
  obtain ⟨j, mem⟩ := threw
  rcases mem_append.mp mem with old | new
  · exact inl ⟨j, old⟩
  · cases mem_singleton.mp new
    exact inr rfl

/-- What a worker's step leaves alone, and what it says. -/
structure Speaks (s t : Pool ε) (job : Nat) : Prop where
  region : t.region = s.region
  jobs : t.jobs = s.jobs
  log : t.log = s.log ∨ ∃ ev, t.log = s.log ++ [ev] ∧ ev.job = job ∧ ∀ d r, ev ≠ .returned d r

/-- **A step of a worker keeps what holds of the dispatch under way**, and says nothing of any
other. -/
theorem Busy.worker
    (busy : Busy size s job pc) (step : WorkerStep k s t) :
    Busy size t job pc ∧ Speaks s t job := by
  have known : ∀ {w : Worker ε}, s.workers[k]? = some w →
      w.Busy s.gen (size job) s.next job s.log :=
    fun here => busy.workers _ (mem_of_getElem? here)
  cases step with
  | @wake seen here fresh =>
    have old : seen + 1 = s.gen := (known here).resolve_left fun retired => fresh retired.1.symm
    refine ⟨busy.moves (Moves.silent here rfl rfl rfl rfl rfl le_rfl rfl ?_ (fun i _ _ => rfl)
      (fun i => rfl) (fun e held => inl held) id fun e caught => nomatch caught),
      rfl, rfl, inl rfl⟩
    have apart : seen ≠ s.gen := fresh.symm
    simp [Worker.retired, WorkerPc.isAsleep, apart, Pool.put]
  | @claim old here =>
    have seen := known here
    refine ⟨busy.moves (Moves.silent here rfl rfl rfl rfl rfl ?_ ⟨seen, busy.next, ?_⟩ rfl
      (fun i low high => ?_) (fun i => rfl) (fun e held => inl held) id
      fun e caught => nomatch caught), rfl, rfl, inl rfl⟩
    · exact (Int.lt_succ s.next).le
    · exact Int.lt_succ s.next
    · have grown : (({ s with next := s.next + 1 } : Pool ε).put k
          ⟨old, .claimed s.next⟩).next = s.next + 1 := rfl
      rw [grown]
      simp only [WorkerPc.holds, decide_eq_true_eq, false_eq_true, if_false]
      split_ifs <;> omega
  | @exhausted seen i here past =>
    obtain ⟨seen, low, handed⟩ := known here
    have past : size job ≤ i := busy.nTasks ▸ past
    refine ⟨busy.moves (Moves.silent here rfl rfl rfl rfl rfl le_rfl ⟨seen, ?_⟩ rfl
      (fun j _ high => ?_) (fun j => rfl) (fun e held => inl held) id
      fun e caught => nomatch caught), rfl, rfl, inl rfl⟩
    · exact past.trans handed.le
    · have apart : i ≠ j := by omega
      simp only [WorkerPc.holds, apart, decide_false, false_eq_true, if_false]
      rfl
  | @take seen i here inside =>
    obtain ⟨seen, low, handed⟩ := known here
    have inside : i < size job := busy.nTasks ▸ inside
    exact ⟨busy.moves (Moves.silent here rfl rfl rfl rfl rfl le_rfl ⟨seen, low, inside, handed⟩ rfl
      (fun j _ high => rfl) (fun j => rfl) (fun e held => inl held) id
      fun e caught => nomatch caught), rfl, rfl, inl rfl⟩
  | @start old i job' here task =>
    obtain ⟨seen, low, inside, handed⟩ := known here
    obtain rfl : job = job' := Option.some.inj (busy.task.symm.trans task)
    have log : ((s.put k ⟨old, .running job i⟩).say (.started job i)).log =
        s.log ++ [.started job i] := rfl
    refine ⟨busy.moves
      { here, workers := rfl, task := rfl, nTasks := rfl, gen := rfl, next := le_rfl
        busy := ⟨seen, rfl, low, inside⟩
        awake := rfl
        keeps := fun e threw => threw.say _
        claimed := fun j _ _ => ?_
        running := fun j _ _ => ?_
        zero := ?_
        kept := fun e held => inl held
        err := id
        recorded := fun e caught => nomatch caught
        thrown := fun e threw => inl (threw_started threw) }, rfl, rfl,
      inr ⟨_, rfl, rfl, fun d r => nofun⟩⟩
    · have next : ((s.put k ⟨old, .running job i⟩).say (.started job i)).next = s.next := rfl
      rw [log, starts_started, next]
      simp only [WorkerPc.holds, decide_eq_true_eq, false_eq_true, if_false]
      omega
    · rw [log, starts_started, finishes_started]
      simp only [WorkerPc.runs, decide_eq_true_eq, false_eq_true, if_false]
      omega
    · rw [log, starts_started, finishes_started, if_neg (by omega)]
      exact ⟨rfl, rfl⟩
  | @finish old i job' thrown here =>
    obtain ⟨seen, rfl, low, inside⟩ := known here
    have log : ((s.put k ⟨old, afterTask thrown⟩).say (.finished job' i thrown)).log =
        s.log ++ [.finished job' i thrown] := rfl
    have next : ((s.put k ⟨old, afterTask thrown⟩).say (.finished job' i thrown)).next = s.next :=
      rfl
    refine ⟨busy.moves
      { here, workers := rfl, task := rfl, nTasks := rfl, gen := rfl, next := le_rfl
        busy := ?_
        awake := ?_
        keeps := fun e threw => threw.say _
        claimed := fun j _ _ => ?_
        running := fun j _ _ => ?_
        zero := ?_
        kept := fun e held => inl held
        err := id
        recorded := fun e caught => nomatch caught
        thrown := fun e threw => ?_ }, rfl, rfl, inr ⟨_, rfl, rfl, fun d r => nofun⟩⟩
    · cases thrown with
      | none => exact seen
      | some e => exact ⟨seen, i, mem_append_right _ mem_cons_self⟩
    · cases thrown <;> rfl
    · rw [log, starts_finished, next]
      cases thrown <;> rfl
    · rw [log, starts_finished, finishes_finished]
      cases thrown <;>
        simp only [WorkerPc.runs, afterTask, decide_eq_true_eq, false_eq_true, if_false] <;>
        omega
    · rw [log, starts_finished, finishes_finished, if_neg (by omega)]
      exact ⟨rfl, rfl⟩
    · rcases threw_finished threw with old | rfl
      · exact inl old
      · exact inr rfl
  | @record seen e here =>
    obtain ⟨seen, threw⟩ := known here
    refine ⟨busy.moves (Moves.silent here rfl rfl rfl rfl rfl le_rfl seen rfl
      (fun j _ _ => rfl) (fun j => rfl) (fun e' held => ?_) (fun held => ?_)
      fun e' caught => ?_), rfl, rfl, inl rfl⟩
    · have kept : s.err.or (some e) = some e' := held
      cases first : s.err with
      | none =>
        rw [first] at kept
        cases kept
        exact inr threw
      | some e'' =>
        rw [first] at kept
        exact inl kept
    · simp [Pool.put, Pool.record]
    · simp [Pool.put, Pool.record]
  | @retire old here =>
    obtain ⟨seen, past⟩ := known here
    have seen : old = s.gen := seen
    refine ⟨busy.moves (Moves.silent here rfl rfl rfl rfl rfl le_rfl (inl ⟨seen, past⟩) ?_
      (fun j _ _ => rfl) (fun j => rfl) (fun e held => inl held) id
      fun e caught => nomatch caught), rfl, rfl, inl rfl⟩
    simp [Worker.retired, WorkerPc.isAsleep, seen, Pool.put]

/-! ## Steps of a caller -/

/-- A dispatch begins: every worker is behind by one generation. -/
theorem Quiet.publish {size : Nat → Int} {s : Pool ε} {job : Nat} (quiet : Quiet s)
    (fresh : Untouched s.log job) (many : 1 < size job)
    (enough : size job - 1 ≤ s.workers.length) :
    Busy size ((s.publish job (size job)).goto job .calling) job .calling := by
  have apart : s.gen ≠ s.gen + 1 := (bump_ne s.gen).symm
  exact
    { task := rfl
      nTasks := rfl
      many := many
      enough := enough
      next := le_rfl
      workers := by
        intro w mem
        obtain ⟨asleep, seen⟩ := quiet w mem
        unfold Worker.Busy
        rw [asleep, seen]
        exact inr rfl
      awake := by
        have all : (s.workers.countP fun w => !w.retired (s.gen + 1)) = s.workers.length := by
          refine countP_eq_length.mpr fun w mem => ?_
          obtain ⟨asleep, seen⟩ := quiet w mem
          simp [Worker.retired, seen, apart]
        exact congrArg Nat.cast all.symm
      claimed := by
        intro i low _
        have none : (s.workers.countP fun w => w.pc.holds i) = 0 := by
          refine countP_eq_zero.mpr fun w mem => ?_
          rw [(quiet w mem).1]
          exact false_ne_true
        have beyond : ¬ i < 1 := by omega
        exact (congrArg₂ (· + ·) none (fresh.starts i)).trans (if_neg beyond).symm
      running := by
        intro i _ _
        have none : (s.workers.countP fun w => w.pc.runs i) = 0 := by
          refine countP_eq_zero.mpr fun w mem => ?_
          rw [(quiet w mem).1]
          exact false_ne_true
        exact (fresh.starts i).trans (congrArg₂ (· + ·) (fresh.finishes i) none).symm
      zeroStarts := fresh.starts 0
      zeroFinishes := fresh.finishes 0
      caller := nofun
      caught := nofun
      kept := nofun
      thrown := fun e threw => absurd threw fresh.threw }

/-- **When every worker has retired, every index has been run.** -/
theorem Busy.complete
    (busy : Busy size s job .waiting) (none : s.awake = 0) :
    Quiet s ∧ Complete (size job) s.log job s.err := by
  have retired : ∀ w ∈ s.workers, w.retired s.gen = true := by
    have count := busy.awake
    rw [none] at count
    have zero := countP_eq_zero.mp (ofNat_inj.mp count.symm)
    intro w mem
    simpa using zero w mem
  have quiet : Quiet s := by
    intro w mem
    have done := retired w mem
    obtain ⟨seen, pc⟩ := w
    simp only [Worker.retired, and_eq_true, decide_eq_true_eq] at done
    cases pc with
    | asleep => exact ⟨rfl, done.2⟩
    | _ => cases done.1
  -- Some worker has retired, so the counter has passed the last index.
  have past : size job ≤ s.next := by
    have many := busy.many
    have enough := busy.enough
    obtain ⟨w, mem⟩ := exists_mem_of_length_pos (by omega : 0 < s.workers.length)
    obtain ⟨asleep, seen⟩ := quiet w mem
    have stands := busy.workers w mem
    unfold Worker.Busy at stands
    rw [asleep] at stands
    rcases stands with ahead | behind
    · exact ahead.2
    · rw [seen] at behind
      exact absurd behind (bump_ne s.gen)
  have idle : ∀ p : WorkerPc ε → Bool, p .asleep = false →
      (s.workers.countP fun w => p w.pc) = 0 := by
    intro p sleeps
    refine countP_eq_zero.mpr fun w mem => ?_
    rw [(quiet w mem).1, sleeps]
    exact false_ne_true
  refine ⟨quiet, fun i low high => ?_, busy.kept, fun e threw => ?_⟩
  · rcases low.eq_or_lt with rfl | positive
    · exact ⟨busy.zeroStarts, busy.zeroFinishes⟩
    · have claimed := busy.claimed i positive high
      have running := busy.running i positive high
      have holds := idle (WorkerPc.holds i) rfl
      have runs := idle (WorkerPc.runs i) rfl
      rw [if_pos (high.trans_le past)] at claimed
      omega
  · rcases busy.thrown e threw with kept | ⟨w, mem, e', caught⟩ | ⟨e', caught⟩
    · exact kept
    · rw [(quiet w mem).1] at caught
      cases caught
    · cases caught

/-- What a caller's step changes while tasks run: its own place, the exception and the history. -/
theorem Busy.caller_moves {q : CallerPc ε}
    (busy : Busy size s job pc) (task : t.task = s.task) (nTasks : t.nTasks = s.nTasks)
    (gen : t.gen = s.gen) (next : t.next = s.next) (awake : t.awake = s.awake)
    (workers : t.workers = s.workers) (keeps : ∀ e, Threw s.log job e → Threw t.log job e)
    (others : ∀ i, 1 ≤ i →
      starts t.log job i = starts s.log job i ∧ finishes t.log job i = finishes s.log job i)
    (zeroStarts : starts t.log job 0 = q.zeroStarts)
    (zeroFinishes : finishes t.log job 0 = q.zeroFinishes)
    (caller : ∀ f, q = .running f → f = job)
    (caught : ∀ e, q = .caught e → Threw t.log job e)
    (kept : ∀ e, t.err = some e → Threw t.log job e)
    (thrown : ∀ e, Threw t.log job e →
      t.err.isSome ∨ (∃ w ∈ s.workers, ∃ e, w.pc = .caught e) ∨ ∃ e, q = .caught e) :
    Busy size t job q where
  task := task.trans busy.task
  nTasks := nTasks.trans busy.nTasks
  many := busy.many
  enough := workers ▸ busy.enough
  next := next ▸ busy.next
  workers w mem := by
    rw [gen, next]
    exact (busy.workers w (workers ▸ mem)).mono le_rfl keeps
  awake := by
    rw [awake, workers, gen]
    exact busy.awake
  claimed i low high := by
    rw [workers, (others i low).1, next]
    exact busy.claimed i low high
  running i low high := by
    rw [workers, (others i low).1, (others i low).2]
    exact busy.running i low high
  zeroStarts := zeroStarts
  zeroFinishes := zeroFinishes
  caller := caller
  caught := caught
  kept := kept
  thrown e threw := workers ▸ thrown e threw

/-! ## Another dispatch speaks -/

/-- An event of another dispatch changes nothing for the one that has the region. -/
theorem Busy.other
    (busy : Busy size s job pc) (other : ev.job ≠ job) :
    Busy size (s.say ev) job pc := by
  have starts : ∀ i, starts (s.say ev).log job i = starts s.log job i := starts_other s.log other
  have finishes : ∀ i, finishes (s.say ev).log job i = finishes s.log job i :=
    finishes_other s.log other
  have keeps : ∀ e, Threw (s.say ev).log job e ↔ Threw s.log job e := fun e => threw_other other
  refine busy.caller_moves rfl rfl rfl rfl rfl rfl (fun e => (keeps e).mpr)
    (fun i _ => ⟨starts i, finishes i⟩) ((starts 0).trans busy.zeroStarts)
    ((finishes 0).trans busy.zeroFinishes) busy.caller (fun e here => ?_) (fun e here => ?_)
    fun e threw => ?_
  · exact (keeps e).mpr (busy.caught e here)
  · exact (keeps e).mpr (busy.kept e here)
  · exact busy.thrown e ((keeps e).mp threw)

theorem Complete.other {r : Option ε}
    (complete : Complete n log d r) (other : ev.job ≠ d) :
    Complete n (log ++ [ev]) d r where
  ran i low high := by
    rw [starts_other log other, finishes_other log other]
    exact complete.ran i low high
  own e here := (complete.own e here).say ev
  thrown e threw := complete.thrown e ((threw_other other).mp threw)

theorem Phase.other
    (phase : Phase size s region) (other : ∀ r, region = some r → ev.job ≠ r.job) :
    Phase size (s.say ev) region := by
  cases region with
  | none => exact phase
  | some r =>
    obtain ⟨job, pc⟩ := r
    have apart : ev.job ≠ job := other _ rfl
    cases pc with
    | entered => exact ⟨phase.1, phase.2.1.say apart, phase.2.2⟩
    | grown => exact ⟨phase.1, phase.2.1.say apart, phase.2.2⟩
    | leaving e => exact ⟨phase.1, phase.2.other apart⟩
    | calling => exact Busy.other phase apart
    | running f => exact Busy.other phase apart
    | caught e => exact Busy.other phase apart
    | waiting => exact Busy.other phase apart

/-- Counting one more dispatch, and events of a dispatch that has not returned. -/
theorem Inv.say (inv : Inv size s)
    (known : x.job < s.jobs) (waiting : Open s.log x.job)
    (other : ∀ r, s.region = some r → x.job ≠ r.job)
    (complete : ∀ d r, x = .returned d r → Complete (size d) s.log d r) :
    Inv size (s.say x) where
  known ev' mem := by
    rcases mem_append.mp mem with old | new
    · exact inv.known ev' old
    · rw [mem_singleton.mp new]
      exact known
  held r region := by
    obtain ⟨low, still⟩ := inv.held r region
    exact ⟨low, still.say fun o same => other r region (congrArg Event.job same)⟩
  settled := inv.settled.say waiting complete
  phase := inv.phase.other other

/-! ## Every step -/

/-- **A worker's step keeps the invariant.** -/
theorem Inv.worker (inv : Inv size s)
    (step : WorkerStep k s t) : Inv size t := by
  -- A worker can move only while a dispatch is under way.
  have under : ∀ {job : Nat} {pc : CallerPc ε}, s.region = some ⟨job, pc⟩ → Busy size s job pc →
      (∀ s : Pool ε, Busy size s job pc → Phase size s (some ⟨job, pc⟩)) → Inv size t := by
    intro job pc region busy fold
    obtain ⟨busy', speaks⟩ := busy.worker step
    obtain ⟨low, still⟩ := inv.held _ region
    have phase : Phase size t t.region := by
      rw [speaks.region, region]
      exact fold t busy'
    rcases speaks.log with same | ⟨ev, said, own, running⟩
    · refine ⟨?_, ?_, ?_, phase⟩
      · rw [same, speaks.jobs]
        exact inv.known
      · rw [speaks.region, same, speaks.jobs]
        exact inv.held
      · rw [same]
        exact inv.settled
    · refine ⟨?_, ?_, ?_, phase⟩
      · intro ev' mem
        rw [speaks.jobs]
        rw [said] at mem
        rcases mem_append.mp mem with old | new
        · exact inv.known ev' old
        · rw [mem_singleton.mp new, own]
          exact low
      · intro r here
        rw [speaks.region, region] at here
        cases here
        rw [speaks.jobs, said]
        exact ⟨low, still.say fun o => running job o⟩
      · rw [said]
        exact inv.settled.say (own ▸ still) fun d o same => absurd same (running d o)
  have phase := inv.phase
  cases region : s.region with
  | none =>
    rw [region] at phase
    exact (Quiet.still phase step).elim
  | some r =>
    rw [region] at phase
    obtain ⟨job, pc⟩ := r
    cases pc with
    | entered => exact (Quiet.still phase.1 step).elim
    | grown => exact (Quiet.still phase.1 step).elim
    | leaving e => exact (Quiet.still phase.1 step).elim
    | calling => exact under region phase fun _ busy => busy
    | running f => exact under region phase fun _ busy => busy
    | caught e => exact under region phase fun _ busy => busy
    | waiting => exact under region phase fun _ busy => busy

theorem complete_inline (fresh : Untouched log d)
    (few : n ≤ 1) (thrown : Option ε) :
    Complete n (log ++ [.started d 0] ++ [.finished d 0 thrown]) d thrown where
  ran i low high := by
    obtain rfl : i = 0 := by omega
    rw [starts_finished, starts_started, finishes_finished, finishes_started, fresh.starts,
      fresh.finishes]
    exact ⟨rfl, rfl⟩
  own e here := ⟨0, by rw [here]; exact mem_append_right _ mem_cons_self⟩
  thrown e threw := by
    rcases threw_finished threw with old | rfl
    · exact absurd (threw_started old) fresh.threw
    · rfl

theorem Inv.fresh (inv : Inv size s) : Untouched s.log s.jobs := fun ev mem => (inv.known ev mem).ne

/-- The number of dispatches does not matter to the one that has the region. -/
theorem Phase.counted
    (phase : Phase size s region) (n : Nat) : Phase size { s with jobs := n } region := by
  have busy : ∀ {job : Nat} {pc : CallerPc ε}, Busy size s job pc →
      Busy size { s with jobs := n } job pc := fun busy =>
    busy.caller_moves rfl rfl rfl rfl rfl rfl (fun _ => id) (fun _ _ => ⟨rfl, rfl⟩)
      busy.zeroStarts busy.zeroFinishes busy.caller busy.caught busy.kept busy.thrown
  cases region with
  | none => exact phase
  | some r =>
    obtain ⟨job, pc⟩ := r
    cases pc with
    | entered => exact phase
    | grown => exact phase
    | leaving e => exact phase
    | calling => exact busy phase
    | running f => exact busy phase
    | caught e => exact busy phase
    | waiting => exact busy phase

theorem Inv.counted (inv : Inv size s) : Inv size { s with jobs := s.jobs + 1 } where
  known ev mem := (inv.known ev mem).trans s.jobs.lt_succ_self
  held r here := ⟨(inv.held r here).1.trans s.jobs.lt_succ_self, (inv.held r here).2⟩
  settled := inv.settled
  phase := inv.phase.counted (s.jobs + 1)

theorem Inv.inline (inv : Inv size s) (thrown : Option ε)
    (few : size s.jobs ≤ 1) :
    Inv size (((({ s with jobs := s.jobs + 1 }).say (.started s.jobs 0)).say
      (.finished s.jobs 0 thrown)).say (.returned s.jobs thrown)) := by
  have fresh := inv.fresh
  have other : ∀ r, s.region = some r → s.jobs ≠ r.job := fun r here => (inv.held r here).1.ne'
  have low := s.jobs.lt_succ_self
  have first := inv.counted.say (x := .started s.jobs 0) low fresh.open other nofun
  have second := first.say (x := .finished s.jobs 0 thrown) low (fresh.open.say nofun) other nofun
  have still : Open (s.log ++ [.started s.jobs 0] ++ [.finished s.jobs 0 thrown]) s.jobs :=
    (fresh.open.say (x := .started s.jobs 0) fun r => nofun).say fun r => nofun
  refine second.say low still other fun d r same => ?_
  cases same
  exact complete_inline fresh few thrown

/-- **A caller's step keeps the invariant.** -/
theorem Inv.caller (inv : Inv size s)
    (step : CallerStep size s t) : Inv size t := by
  have phase := inv.phase
  cases step with
  | inline thrown few => exact inv.inline thrown few
  | enter free many =>
    rw [free] at phase
    refine ⟨inv.counted.known, fun r here => ?_, inv.settled, phase, inv.fresh, many⟩
    cases here
    exact ⟨s.jobs.lt_succ_self, inv.fresh.open⟩
  | @grow job here =>
    rw [here] at phase
    obtain ⟨quiet, fresh, many⟩ := phase
    refine ⟨inv.known, fun r region => ?_, inv.settled, ?_, fresh, many, ?_⟩
    · cases region
      exact inv.held ⟨job, .entered⟩ here
    · intro w mem
      rcases mem_append.mp mem with old | new
      · exact quiet w old
      · rw [(mem_replicate.mp new).2]
        exact ⟨rfl, rfl⟩
    · show size job - 1 ≤ ((s.workers ++ List.replicate _ _).length : Int)
      rw [length_append, length_replicate]
      omega
  | @publish job here =>
    rw [here] at phase
    obtain ⟨quiet, fresh, many, enough⟩ := phase
    refine ⟨inv.known, fun r region => ?_, inv.settled, quiet.publish fresh many enough⟩
    cases region
    exact inv.held ⟨job, .grown⟩ here
  | @start job job' here task =>
    rw [here] at phase
    have busy : Busy size s job .calling := phase
    obtain rfl : job = job' := Option.some.inj (busy.task.symm.trans task)
    obtain ⟨low, still⟩ := inv.held _ here
    refine ⟨?_, fun r region => ?_, inv.settled.say still nofun, ?_⟩
    · intro ev mem
      rcases mem_append.mp mem with old | new
      · exact inv.known ev old
      · rw [mem_singleton.mp new]
        exact low
    · cases region
      exact ⟨low, still.say nofun⟩
    · refine busy.caller_moves (q := .running job) rfl rfl rfl rfl rfl rfl
        (fun e threw => threw.say _) (fun i one => ⟨?_, finishes_started ..⟩) ?_ ?_
        (fun f same => (CallerPc.running.inj same).symm) nofun
        (fun e kept => (busy.kept e kept).say _) fun e threw => ?_
      · exact (starts_started s.log job 0 i).trans (by rw [if_neg (by omega), add_zero])
      · exact (starts_started s.log job 0 0).trans (by rw [busy.zeroStarts]; rfl)
      · exact (finishes_started ..).trans busy.zeroFinishes
      · exact (busy.thrown e (threw_started threw)).imp_right (imp_right nofun)
  | @finish job job' thrown here =>
    rw [here] at phase
    have busy : Busy size s job (.running job') := phase
    obtain rfl := busy.caller job' rfl
    obtain ⟨low, still⟩ := inv.held _ here
    have moved : Busy size ((s.goto job' (afterTaskZero thrown)).say (.finished job' 0 thrown))
        job' (afterTaskZero thrown) := by
      refine busy.caller_moves rfl rfl rfl rfl rfl rfl
        (fun e threw => threw.say _) (fun i one => ⟨starts_finished .., ?_⟩) ?_ ?_
        (fun f same => ?_) (fun e same => ?_)
        (fun e kept => (busy.kept e kept).say _) fun e threw => ?_
      · exact (finishes_finished s.log job' 0 i thrown).trans
          (by rw [if_neg (by omega), add_zero])
      · refine (starts_finished ..).trans (busy.zeroStarts.trans ?_)
        cases thrown <;> rfl
      · refine (finishes_finished s.log job' 0 0 thrown).trans ?_
        rw [busy.zeroFinishes]
        cases thrown <;> rfl
      · cases thrown <;> cases same
      · cases thrown <;> cases same
        exact ⟨0, mem_append_right _ mem_cons_self⟩
      · rcases threw_finished threw with old | rfl
        · exact (busy.thrown e old).imp_right (imp_right nofun)
        · exact inr (inr ⟨e, rfl⟩)
    refine ⟨?_, fun r region => ?_, inv.settled.say still nofun, ?_⟩
    · intro ev mem
      rcases mem_append.mp mem with old | new
      · exact inv.known ev old
      · rw [mem_singleton.mp new]
        exact low
    · cases region
      exact ⟨low, still.say nofun⟩
    · cases thrown <;> exact moved
  | @record job e here =>
    rw [here] at phase
    have busy : Busy size s job (.caught e) := phase
    refine ⟨inv.known, fun r region => ?_, inv.settled, ?_⟩
    · cases region
      exact inv.held ⟨job, .caught e⟩ here
    · refine busy.caller_moves (q := .waiting) rfl rfl rfl rfl rfl rfl (fun _ => id)
        (fun _ _ => ⟨rfl, rfl⟩) busy.zeroStarts busy.zeroFinishes nofun nofun
        (fun e' held => ?_) fun e' threw => inl ?_
      · have kept : s.err.or (some e) = some e' := held
        cases first : s.err with
        | none =>
          rw [first] at kept
          cases kept
          exact busy.caught e rfl
        | some e'' =>
          rw [first] at kept
          exact busy.kept e' (first.trans kept)
      · simp [Pool.goto, Pool.record]
  | @collect job here none =>
    rw [here] at phase
    obtain ⟨quiet, complete⟩ := Busy.complete phase none
    refine ⟨inv.known, fun r region => ?_, inv.settled, quiet, complete⟩
    cases region
    exact inv.held ⟨job, .waiting⟩ here
  | @leave job e here =>
    rw [here] at phase
    obtain ⟨quiet, complete⟩ := phase
    obtain ⟨low, still⟩ := inv.held _ here
    refine ⟨?_, ?_, inv.settled.say (x := .returned job e) still fun d r same => ?_, quiet⟩
    · intro ev mem
      rcases mem_append.mp mem with old | new
      · exact inv.known ev old
      · rw [mem_singleton.mp new]
        exact low
    · intro r region
      cases region
    · cases same
      exact complete

/-- **The invariant holds in every reachable state.** -/
theorem Reachable.inv (run : Reachable size s) : Inv size s := by
  induction run with
  | init =>
    refine ⟨?_, ?_, ?_, ?_⟩
    · intro ev mem
      cases mem
    · intro r region
      cases region
    · intro before d r later split
      exact absurd split (append_ne_nil_of_right_ne_nil _ (cons_ne_nil _ _)).symm
    · intro w mem
      cases mem
  | step _ step inv =>
    cases step with
    | worker k step => exact inv.worker step
    | caller step => exact inv.caller step

/-! ## No deadlock -/

/-- A worker that has not retired can take a step. -/
theorem Busy.worker_moves
    (busy : Busy size s job pc) (awake : s.awake ≠ 0) : ∃ k t, WorkerStep k s t := by
  have some : 0 < s.workers.countP fun w => !w.retired s.gen := by
    have count := busy.awake
    omega
  obtain ⟨w, mem, moving⟩ := countP_pos_iff.mp some
  obtain ⟨k, small, here⟩ := mem_iff_getElem.mp mem
  have here : s.workers[k]? = .some w := here ▸ getElem?_eq_getElem small
  have stands := busy.workers w mem
  obtain ⟨seen, pc⟩ := w
  refine ⟨k, ?_⟩
  cases pc with
  | asleep =>
    rcases stands with retired | behind
    · have seen : seen = s.gen := retired.1
      simp [Worker.retired, WorkerPc.isAsleep, seen] at moving
    · have behind : seen + 1 = s.gen := behind
      exact ⟨_, .wake here (behind ▸ bump_ne seen)⟩
  | claiming => exact ⟨_, .claim here⟩
  | claimed i =>
    rcases le_or_gt s.nTasks i with past | inside
    · exact ⟨_, .exhausted here past⟩
    · exact ⟨_, .take here inside⟩
  | calling i => exact ⟨_, .start here busy.task⟩
  | running f i => exact ⟨_, .finish none here⟩
  | caught e => exact ⟨_, .record here⟩
  | retiring => exact ⟨_, .retire here⟩

/-- **While a call has not returned, some thread can take a step for it.** -/
theorem Inv.moves (inv : Inv size s)
    (region : s.region = some r) : ∃ t, Step size s t ∧ t.jobs = s.jobs := by
  have phase := inv.phase
  rw [region] at phase
  obtain ⟨job, pc⟩ := r
  cases pc with
  | entered => exact ⟨_, .caller (.grow region), rfl⟩
  | grown => exact ⟨_, .caller (.publish region), rfl⟩
  | calling => exact ⟨_, .caller (.start region (Busy.task phase)), rfl⟩
  | running f => exact ⟨_, .caller (.finish none region), rfl⟩
  | caught e => exact ⟨_, .caller (.record region), rfl⟩
  | waiting =>
    have busy : Busy size s job .waiting := phase
    by_cases none : s.awake = 0
    · exact ⟨_, .caller (.collect region none), rfl⟩
    · obtain ⟨k, t, step⟩ := busy.worker_moves none
      exact ⟨t, .worker k step, (busy.worker step).2.jobs⟩
  | leaving e => exact ⟨_, .caller (.leave region), rfl⟩

/-- No index of the dispatch that has the region has been started twice. -/
theorem Inv.once (inv : Inv size s)
    (region : s.region = some r) (low : 0 ≤ i) (high : i < size r.job) :
    starts s.log r.job i ≤ 1 := by
  have under : ∀ {job : Nat} {pc : CallerPc ε}, Busy size s job pc → i < size job →
      starts s.log job i ≤ 1 := by
    intro job pc busy high
    rcases low.eq_or_lt with rfl | positive
    · rw [busy.zeroStarts]
      cases pc <;> simp [CallerPc.zeroStarts]
    · have claimed := busy.claimed i positive high
      split_ifs at claimed <;> omega
  have phase := inv.phase
  rw [region] at phase
  obtain ⟨job, pc⟩ := r
  cases pc with
  | entered => exact (phase.2.1.starts i).le.trans (zero_le 1)
  | grown => exact (phase.2.1.starts i).le.trans (zero_le 1)
  | leaving e => exact (phase.2.ran i low high).1.le
  | calling => exact under phase high
  | running f => exact under phase high
  | caught e => exact under phase high
  | waiting => exact under phase high

/-! ## Chunks -/

/-- **The chunks of a loop follow one another from its beginning to its end.** -/
theorem tiles_parallelFor (inParallel : Bool) (threads : Int) {start stop : Int}
    (order : start ≤ stop) (minChunk : Int) :
    Ranges.Tiles start stop (parallelFor inParallel threads start stop minChunk) := by
  unfold parallelFor
  dsimp only
  split_ifs with none whole
  · have same : start = stop := by omega
    exact same
  · exact ⟨rfl, by omega, rfl⟩
  · generalize size : chunkCount threads (stop - start) minChunk = t at whole ⊢
    have many : 1 < t := by omega
    obtain ⟨n, rfl⟩ := eq_ofNat_of_zero_le (by omega : 0 ≤ t)
    have quotient := tdiv_eq_ediv_of_nonneg (b := (n : Int)) (by omega : 0 ≤ stop - start)
    have remainder := tmod_eq_emod_of_nonneg (b := (n : Int)) (by omega : 0 ≤ stop - start)
    have least : 0 ≤ (stop - start) / (n : Int) := ediv_nonneg (by omega) (by omega)
    have low := emod_nonneg (stop - start) (by omega : (n : Int) ≠ 0)
    have high := emod_lt_of_pos (stop - start) (by omega : 0 < (n : Int))
    have total := mul_ediv_add_emod (stop - start) (n : Int)
    generalize baseIs : (stop - start) / (n : Int) = base at quotient least total
    generalize remIs : (stop - start) % (n : Int) = rem at remainder low high total
    let bound : Nat → Int := fun i => start + i * base + min (i : Int) rem
    have step : ∀ i : Nat, bound (i + 1) = bound i + base + if (i : Int) < rem then 1 else 0 := by
      intro i
      have product : ((i + 1 : Nat) : Int) * base = i * base + base := by
        rw [Nat.cast_add, Nat.cast_one, Int.add_mul, Int.one_mul]
      simp only [bound, product]
      push_cast
      split_ifs <;> omega
    have chunks : ∀ i : Nat, chunk start (stop - start) n i = (bound i, bound (i + 1)) := by
      intro i
      rw [step]
      simp only [chunk, quotient, remainder, bound]
    have grows : Monotone bound := by
      refine monotone_nat_of_le_succ fun i => ?_
      rw [step]
      split_ifs <;> omega
    have tiles := Ranges.tiles_steps grows n
    have first : bound 0 = start := by
      simp only [bound, Nat.cast_zero, Int.zero_mul, Int.add_zero]
      omega
    have last : bound n = stop := by
      simp only [bound]
      rw [min_eq_right (by omega)]
      omega
    rw [first, last] at tiles
    simpa only [chunks, toNat_natCast] using tiles

/-! ## Dispatches -/

/-- **Every index of a dispatch is run exactly once.**  In every reachable state: whatever dispatch
has returned had run its own function to the end at each of its indices once before, with the
exception of one of its tasks exactly when one threw, and nothing is run for it afterwards; no
index of the dispatch under way has been started twice, and it can go on.  The chunks of a loop
meet every iteration once. -/
theorem dispatch_exactly_once : (∀ (ε : Type) (size : Nat → Int) (s : Pool ε), Reachable size s →
      Settled size s.log ∧
      ∀ r, s.region = some r → (∀ i, 0 ≤ i → i < size r.job → starts s.log r.job i ≤ 1) ∧
        ∃ t, Step size s t ∧ t.jobs = s.jobs) ∧
    ∀ (inParallel : Bool) (threads start stop minChunk : Int),
      (start ≤ stop →
        Ranges.Tiles start stop (parallelFor inParallel threads start stop minChunk)) ∧
      ∀ x, (parallelFor inParallel threads start stop minChunk).countP
        (fun c => c.1 ≤ x ∧ x < c.2) = if start ≤ x ∧ x < stop then 1 else 0 := by
  refine ⟨fun ε size s run => ⟨run.inv.settled, fun r region => ?_⟩,
    fun inParallel threads start stop minChunk => ⟨fun order => ?_, fun x => ?_⟩⟩
  · exact ⟨fun i low high => run.inv.once region low high, run.inv.moves region⟩
  · exact tiles_parallelFor inParallel threads order minChunk
  · rcases le_or_gt start stop with order | none
    · exact (tiles_parallelFor inParallel threads order minChunk).count x
    · have empty : parallelFor inParallel threads start stop minChunk = [] := by
        unfold parallelFor
        dsimp only
        rw [if_pos (by omega)]
      rw [empty, countP_nil, if_neg (by omega)]

/-- One worker and the caller, two tasks. -/
theorem dispatch_exactly_once_two : ∃ s : Pool Nat, Reachable (fun _ => 2) s ∧
    Event.returned 0 none ∈ s.log ∧ Settled (fun _ => 2) s.log := by
  have start : Reachable (fun _ => 2) ({} : Pool Nat) := .init
  have entered := start.step (.caller (.enter rfl (by decide)))
  have grown := entered.step (.caller (.grow rfl))
  have published := grown.step (.caller (.publish rfl))
  have woken := published.step (.worker 0 (.wake rfl (by decide)))
  have claimed := woken.step (.worker 0 (.claim rfl))
  have taken := claimed.step (.worker 0 (.take rfl (by decide)))
  have called := taken.step (.worker 0 (.start rfl rfl))
  have zero := called.step (.caller (.start rfl rfl))
  have ended := zero.step (.worker 0 (.finish none rfl))
  have again := ended.step (.worker 0 (.claim rfl))
  have past := again.step (.worker 0 (.exhausted rfl (by decide)))
  have retired := past.step (.worker 0 (.retire rfl))
  have zeroEnded := retired.step (.caller (.finish none rfl))
  have collected := zeroEnded.step (.caller (.collect rfl rfl))
  have gone := collected.step (.caller (.leave rfl))
  exact ⟨_, gone, mem_append_right _ mem_cons_self, (dispatch_exactly_once.1 Nat _ _ gone).1⟩

end Vknn.Cpu.Parallel
