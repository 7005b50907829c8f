import Vknn.Cpu.ParallelRuns

/-!
# Dispatches end

Between two dispatches only finitely much can happen, whatever the order of steps.  The caller goes
forward in steps of its own; what it has published is worked off, for each index is claimed once, and
a worker that finds none left goes to sleep until the next generation.
-/

namespace Vknn.Cpu.Parallel

open List

variable {ε : Type} {size : Nat → Int} {s t : Pool ε} {k : Nat}

/-! ## What is left to do -/

/-- The steps a caller has before it. -/
def CallerPc.ahead : CallerPc ε → Nat
  | .entered => 7
  | .grown => 6
  | .calling => 5
  | .running _ => 4
  | .caught _ => 3
  | .waiting => 2
  | .leaving _ => 1

/-- The steps a worker has before it, but for indices that nobody has claimed. -/
def WorkerPc.ahead (n : Int) : WorkerPc ε → Nat
  | .asleep => 0
  | .claiming => 4
  | .claimed i => if i < n then 8 else 2
  | .calling _ => 7
  | .running _ _ => 6
  | .caught _ => 5
  | .retiring => 1

/-- A worker that has not seen the generation wakes once more. -/
def Worker.ahead (gen : UInt64) (n : Int) (w : Worker ε) : Nat :=
  w.pc.ahead n + if w.seen = gen then 0 else 5

namespace Pool

def ahead (s : Pool ε) : Nat := s.region.elim 0 fun r => r.pc.ahead

def work (s : Pool ε) : Nat :=
  5 * (s.nTasks - s.next).toNat + (s.workers.map (Worker.ahead s.gen s.nTasks)).sum

end Pool

/-! ## Steps -/

theorem sum_set {α : Type} {l : List α} {x : α} (here : l[k]? = some x) (f : α → Nat) (y : α) :
    ((l.set k y).map f).sum + f x = (l.map f).sum + f y := by
  induction l generalizing k with
  | nil => cases here
  | cons a l ih =>
    cases k with
    | zero =>
      obtain rfl := Option.some.inj here
      simp only [set_cons_zero, map_cons, sum_cons]
      omega
    | succ k =>
      have rest := ih (k := k) here
      simp only [set_cons_succ, map_cons, sum_cons]
      omega

/-- **A worker's step leaves less work**, and the rest as it is. -/
theorem WorkerStep.less (step : WorkerStep k s t) :
    t.region = s.region ∧ t.jobs = s.jobs ∧ s.log <+: t.log ∧ t.work < s.work := by
  have change : ∀ {w : Worker ε} (w' : Worker ε), s.workers[k]? = some w →
      ((s.workers.set k w').map (Worker.ahead s.gen s.nTasks)).sum + w.ahead s.gen s.nTasks =
        (s.workers.map (Worker.ahead s.gen s.nTasks)).sum + w'.ahead s.gen s.nTasks :=
    fun w' here => sum_set here _ w'
  cases step with
  | wake here fresh =>
    have sum := change ⟨s.gen, .claiming⟩ here
    simp only [Worker.ahead, WorkerPc.ahead, if_neg fresh.symm, if_pos] at sum
    exact ⟨rfl, rfl, prefix_rfl, by simp only [Pool.work, Pool.put]; omega⟩
  | @claim seen here =>
    have sum := change ⟨seen, .claimed s.next⟩ here
    refine ⟨rfl, rfl, prefix_rfl, ?_⟩
    simp only [Pool.work, Pool.put]
    simp only [Worker.ahead, WorkerPc.ahead] at sum ⊢
    -- an index that is left pays for its task
    split_ifs at sum <;> omega
  | @exhausted seen i here past =>
    have sum := change ⟨seen, .retiring⟩ here
    simp only [Worker.ahead, WorkerPc.ahead, if_neg past.not_gt] at sum
    exact ⟨rfl, rfl, prefix_rfl, by simp only [Pool.work, Pool.put]; omega⟩
  | @take seen i here inside =>
    have sum := change ⟨seen, .calling i⟩ here
    simp only [Worker.ahead, WorkerPc.ahead, if_pos inside] at sum
    exact ⟨rfl, rfl, prefix_rfl, by simp only [Pool.work, Pool.put]; omega⟩
  | @start seen i job here task =>
    have sum := change ⟨seen, .running job i⟩ here
    simp only [Worker.ahead, WorkerPc.ahead] at sum
    exact ⟨rfl, rfl, prefix_append .., by simp only [Pool.work, Pool.put, Pool.say]; omega⟩
  | @finish seen i job thrown here =>
    have sum := change ⟨seen, afterTask thrown⟩ here
    have after : (afterTask thrown).ahead s.nTasks ≤ 5 := by
      cases thrown <;> simp [afterTask, WorkerPc.ahead]
    have before : (WorkerPc.running job i : WorkerPc ε).ahead s.nTasks = 6 := rfl
    simp only [Worker.ahead, before] at sum
    exact ⟨rfl, rfl, prefix_append .., by simp only [Pool.work, Pool.put, Pool.say]; omega⟩
  | @record seen e here =>
    have sum := change ⟨seen, .claiming⟩ here
    simp only [Worker.ahead, WorkerPc.ahead] at sum
    exact ⟨rfl, rfl, prefix_rfl, by simp only [Pool.work, Pool.put, Pool.record]; omega⟩
  | @retire seen here =>
    have sum := change ⟨seen, .asleep⟩ here
    simp only [Worker.ahead, WorkerPc.ahead] at sum
    exact ⟨rfl, rfl, prefix_rfl, by simp only [Pool.work, Pool.put]; omega⟩

/-- A dispatch that has begun has the region or has returned. -/
def Accounted (s : Pool ε) (d : Nat) : Prop :=
  (∃ pc, s.region = some ⟨d, pc⟩) ∨ ∃ r, .returned d r ∈ s.log

/-- **A caller's step is one step ahead**, unless it begins a dispatch. -/
theorem CallerStep.ahead (step : CallerStep size s t) (same : t.jobs = s.jobs) :
    t.ahead < s.ahead := by
  cases step with
  | inline thrown few => exact absurd same (Nat.succ_ne_self _)
  | enter free many => exact absurd same (Nat.succ_ne_self _)
  | finish thrown here =>
    cases thrown <;> simp [Pool.ahead, Pool.goto, Pool.say, here, afterTaskZero, CallerPc.ahead]
  | leave here => simp [Pool.ahead, Pool.say, here, CallerPc.ahead]
  | grow here => simp [Pool.ahead, Pool.goto, here, CallerPc.ahead]
  | publish here => simp [Pool.ahead, Pool.goto, here, CallerPc.ahead]
  | start here task => simp [Pool.ahead, Pool.goto, Pool.say, here, CallerPc.ahead]
  | record here => simp [Pool.ahead, Pool.goto, here, CallerPc.ahead]
  | collect here none => simp [Pool.ahead, Pool.goto, here, CallerPc.ahead]

/-- **A caller's step loses no dispatch**, and one it begins has the region or has returned. -/
theorem CallerStep.accounted (step : CallerStep size s t)
    (known : ∀ d, d < s.jobs → Accounted s d) : ∀ d, d < t.jobs → Accounted t d := by
  -- the region changes hands only when the log says so
  have passed : ∀ {job : Nat} {pc : CallerPc ε}, s.region = some ⟨job, pc⟩ →
      (∃ pc, t.region = some ⟨job, pc⟩) ∨ (∃ r, .returned job r ∈ t.log) →
      s.log <+: t.log → t.jobs = s.jobs → ∀ d, d < t.jobs → Accounted t d := by
    intro job pc here kept grows same d low
    rcases known d (same ▸ low) with ⟨pc', held⟩ | ⟨r, mem⟩
    · obtain ⟨rfl, -⟩ := Region.mk.inj (Option.some.inj (held.symm.trans here))
      exact kept
    · exact .inr ⟨r, grows.subset mem⟩
  cases step with
  | inline thrown few =>
    intro d low
    rcases Nat.lt_succ_iff_lt_or_eq.mp low with old | rfl
    · refine (known d old).imp_right (Exists.imp fun r mem => ?_)
      exact mem_append_left _ (mem_append_left _ (mem_append_left _ mem))
    · exact .inr ⟨thrown, mem_append_right _ mem_cons_self⟩
  | enter free many =>
    intro d low
    rcases Nat.lt_succ_iff_lt_or_eq.mp low with old | rfl
    · rcases known d old with ⟨pc, held⟩ | returned
      · exact absurd held (by rw [free]; exact nofun)
      · exact .inr returned
    · exact .inl ⟨.entered, rfl⟩
  | grow here => exact passed here (.inl ⟨_, rfl⟩) prefix_rfl rfl
  | publish here => exact passed here (.inl ⟨_, rfl⟩) prefix_rfl rfl
  | start here task => exact passed here (.inl ⟨_, rfl⟩) (prefix_append ..) rfl
  | finish thrown here => exact passed here (.inl ⟨_, rfl⟩) (prefix_append ..) rfl
  | record here => exact passed here (.inl ⟨_, rfl⟩) prefix_rfl rfl
  | collect here none => exact passed here (.inl ⟨_, rfl⟩) prefix_rfl rfl
  | leave here =>
    exact passed here (.inr ⟨_, mem_append_right _ mem_cons_self⟩) (prefix_append ..) rfl

/-! ## Runs -/

/-- **No dispatch is lost.** -/
theorem Reachable.accounted (run : Reachable size s) : ∀ d, d < s.jobs → Accounted s d := by
  induction run with
  | init => exact fun d low => absurd low d.not_lt_zero
  | step _ step known =>
    cases step with
    | worker k step =>
      obtain ⟨region, jobs, grows, -⟩ := step.less
      intro d low
      rw [jobs] at low
      rw [Accounted, region]
      exact (known d low).imp_right (Exists.imp fun r mem => grows.subset mem)
    | caller step => exact step.accounted known

/-- **Dispatches end.**  However the threads are scheduled, only finitely many steps pass before the
next dispatch begins; and a reachable state in which no other step is left is one in which nobody has
the region, every worker is asleep, and every dispatch that was begun has returned. -/
theorem dispatch_ends (ε : Type) (size : Nat → Int) :
    (WellFounded fun t s : Pool ε => Step size s t ∧ t.jobs = s.jobs) ∧
      ∀ s : Pool ε, Reachable size s → (∀ t, Step size s t → t.jobs ≠ s.jobs) →
        s.region = none ∧ Quiet s ∧ ∀ d, d < s.jobs → ∃ r, .returned d r ∈ s.log := by
  constructor
  · have order : WellFounded (InvImage (Prod.Lex (· < ·) (· < ·))
        fun s : Pool ε => (s.ahead, s.work)) :=
      InvImage.wf _ (Prod.lex Nat.lt_wfRel Nat.lt_wfRel).wf
    refine Subrelation.wf (fun {t s} => ?_) order
    rintro ⟨step, same⟩
    cases step with
    | worker k step =>
      obtain ⟨region, -, -, less⟩ := step.less
      have still : t.ahead = s.ahead := by rw [Pool.ahead, region, Pool.ahead]
      exact Prod.lex_iff.mpr (.inr ⟨still, less⟩)
    | caller step => exact Prod.lex_iff.mpr (.inl (step.ahead same))
  · intro s run stuck
    have free : s.region = none := by
      refine Option.eq_none_iff_forall_ne_some.mpr fun r region => ?_
      obtain ⟨t, step, same⟩ := run.inv.moves region
      exact stuck t step same
    have phase := run.inv.phase
    rw [free] at phase
    refine ⟨free, phase, fun d low => (run.accounted d low).resolve_left ?_⟩
    rintro ⟨pc, held⟩
    rw [free] at held
    cases held

/-! ## Shares -/

theorem minChunkForWork_worth (ops : Int) :
    0 < minChunkForWork ops ∧ kMinChunkOps ≤ minChunkForWork ops * max ops 1 := by
  have cost : (if 0 < ops then ops else 1) = max ops 1 := by split_ifs <;> omega
  simp only [minChunkForWork, cost]
  have some_ : 0 < max ops 1 := by omega
  generalize max ops 1 = c at some_
  split_ifs with dear
  · omega
  · unfold kMinChunkOps at *
    have total := Int.mul_ediv_add_emod (16384 + c - 1) c
    have part := Int.emod_lt_of_pos (16384 + c - 1) some_
    rw [Int.tdiv_eq_ediv_of_nonneg (by omega), Int.mul_comm _ c]
    exact ⟨(Int.le_ediv_iff_mul_le some_).mpr (by omega), by omega⟩

/-- A chunk is an equal share of the iterations, or one longer. -/
theorem chunk_length (start n t i : Int) :
    n.tdiv t ≤ (chunk start n t i).2 - (chunk start n t i).1 ∧
      (chunk start n t i).2 - (chunk start n t i).1 ≤ n.tdiv t + 1 := by
  simp only [chunk]
  split_ifs <;> omega

/-- **A thread's share is worth it**, and shares are even: a loop that is split has no more chunks than
threads, each of them costs enough operations, and they differ by one iteration at most. -/
theorem parallelFor_worth (inParallel : Bool) (threads start stop ops : Int) :
    let chunks := parallelFor inParallel threads start stop (minChunkForWork ops)
    chunks.length ≤ 1 ∨ (chunks.length : Int) ≤ threads ∧ ∀ c ∈ chunks,
      kMinChunkOps ≤ (c.2 - c.1) * max ops 1 ∧ ∀ d ∈ chunks, c.2 - c.1 ≤ d.2 - d.1 + 1 := by
  obtain ⟨least, worth⟩ := minChunkForWork_worth ops
  generalize minChunkForWork ops = m at least worth
  intro chunks
  simp only [chunks, parallelFor]
  split_ifs with none whole
  · exact .inl (Nat.zero_le _)
  · exact .inl le_rfl
  refine .inr ?_
  generalize count : chunkCount threads (stop - start) m = t at whole
  have few : t ≤ threads ∧ t ≤ (stop - start).tdiv m := by
    simp only [chunkCount, if_pos least] at count
    split_ifs at count <;> omega
  have room : m ≤ (stop - start).tdiv t := by
    rw [Int.tdiv_eq_ediv_of_nonneg (by omega)] at few ⊢
    rw [Int.le_ediv_iff_mul_le (by omega), Int.mul_comm]
    exact (Int.le_ediv_iff_mul_le least).mp few.2
  constructor
  · refine (Int.ofNat_le.mpr (length_filter_le ..)).trans ?_
    rw [length_map, length_range]
    omega
  · intro c mem
    obtain ⟨i, -, rfl⟩ := mem_map.mp (mem_of_mem_filter mem)
    have share := chunk_length start (stop - start) t i
    refine ⟨worth.trans (Int.mul_le_mul_of_nonneg_right (room.trans share.1) (by omega)), ?_⟩
    intro d mem'
    obtain ⟨k, -, rfl⟩ := mem_map.mp (mem_of_mem_filter mem')
    have other := chunk_length start (stop - start) t k
    omega

end Vknn.Cpu.Parallel
