import Mathlib.Data.List.Basic

/-!
# Programs over named values

An instruction reads some names, writes some names, and computes what it writes
from what it reads.  A program is a list of instructions, run in order.

Two rewrites of programs are justified here.  One takes out instructions whose
results nobody needs.  The other lets a consumer read past its producer: when the
consumer can compute its result from what the producer read, and nobody else reads
what the producer wrote, the producer goes.
-/

namespace Dataflow

open List

/-- What instructions read and write. -/
structure Signature (N Id : Type) where
  reads : N → List Id
  writes : N → List Id

/-- What instructions read, write and compute. -/
structure Machine (N Id V : Type) extends Signature N Id where
  value : N → (Id → V) → Id → V
  depends : ∀ n e e', (∀ t ∈ reads n, e t = e' t) → ∀ t ∈ writes n, value n e t = value n e' t

/-! ## Order -/

namespace Signature

variable {N Id : Type} (S : Signature N Id)

/-- No instruction writes what an earlier one reads or writes, or what it reads itself. -/
structure Ordered (nodes : List N) : Prop where
  before : nodes.Pairwise fun a b => ∀ t ∈ S.writes b, t ∉ S.reads a ∧ t ∉ S.writes a
  self : ∀ n ∈ nodes, ∀ t ∈ S.writes n, t ∉ S.reads n

/-- Every name that instructions read, and that is to be computed, is written by some
instruction. -/
def Fed (computed : Id → Prop) (nodes : List N) : Prop :=
  ∀ n ∈ nodes, ∀ t ∈ S.reads n, computed t → ∃ p ∈ nodes, t ∈ S.writes p

instance [DecidableEq Id] (nodes : List N) : Decidable (S.Ordered nodes) :=
  decidable_of_iff ((nodes.Pairwise fun a b => ∀ t ∈ S.writes b, t ∉ S.reads a ∧ t ∉ S.writes a) ∧
    ∀ n ∈ nodes, ∀ t ∈ S.writes n, t ∉ S.reads n)
    ⟨fun h => ⟨h.1, h.2⟩, fun h => ⟨h.before, h.self⟩⟩

instance [DecidableEq Id] (computed : Id → Prop) [DecidablePred computed] (nodes : List N) :
    Decidable (S.Fed computed nodes) :=
  inferInstanceAs (Decidable (∀ n ∈ nodes, ∀ t ∈ S.reads n, computed t → ∃ p ∈ nodes, t ∈ S.writes p))

/-- A producer, a consumer of its one result, and a consumer that does without it: what takes
place of the second reads nothing but what the two read, and not the result. -/
structure Bypass (m : Id) (producer consumer direct : N) : Prop where
  writes : S.writes producer = [m]
  sameWrites : S.writes direct = S.writes consumer
  reads : ∀ t ∈ S.reads direct, t ∈ S.reads consumer ∨ t ∈ S.reads producer
  without : m ∉ S.reads direct

variable {S} {m : Id} {producer consumer direct : N} {front between back : List N}

/-- Two instructions of an ordered program do not write the same name. -/
theorem Ordered.once {nodes : List N} (ordered : S.Ordered nodes) {i j : Nat} {a b : N}
    (here : nodes[i]? = some a) (there : nodes[j]? = some b) (apart : i ≠ j) {t : Id}
    (written : t ∈ S.writes a) : t ∉ S.writes b := by
  obtain ⟨small, rfl⟩ := List.getElem?_eq_some_iff.mp here
  obtain ⟨small', rfl⟩ := List.getElem?_eq_some_iff.mp there
  have before := pairwise_iff_getElem.mp ordered.before
  intro again
  rcases Nat.lt_or_gt_of_ne apart with earlier | later
  · exact (before i j small small' earlier t again).2 written
  · exact (before j i small' small later t written).2 again

/-- The program with a producer read past is ordered. -/
theorem Ordered.bypass (bypass : S.Bypass m producer consumer direct)
    (ordered : S.Ordered (front ++ producer :: (between ++ consumer :: back))) :
    S.Ordered (front ++ (between ++ direct :: back)) := by
  obtain ⟨before, self⟩ := ordered
  rw [pairwise_append] at before
  obtain ⟨frontOrdered, rest, frontRest⟩ := before
  rw [pairwise_cons, pairwise_append] at rest
  obtain ⟨producerRest, betweenOrdered, backOrdered, betweenBack⟩ := rest
  rw [pairwise_cons] at backOrdered
  obtain ⟨consumerBack, backOrdered⟩ := backOrdered
  have inRest : ∀ n, n ∈ between ++ consumer :: back → n ∈ producer :: (between ++ consumer :: back) :=
    fun n mem => mem_cons_of_mem _ mem
  have consumerIn : consumer ∈ between ++ consumer :: back := mem_append_right _ mem_cons_self
  refine ⟨?_, ?_⟩
  · rw [pairwise_append]
    refine ⟨frontOrdered, ?_, ?_⟩
    · rw [pairwise_append]
      refine ⟨betweenOrdered, ?_, ?_⟩
      · rw [pairwise_cons]
        refine ⟨fun b mem t written => ?_, backOrdered⟩
        obtain ⟨notRead, notWritten⟩ := consumerBack b mem t written
        have notProducer := producerRest b
          (mem_append_right _ (mem_cons_of_mem _ mem)) t written
        rw [bypass.sameWrites]
        refine ⟨fun read => ?_, notWritten⟩
        rcases bypass.reads t read with byConsumer | byProducer
        · exact notRead byConsumer
        · exact notProducer.1 byProducer
      · intro a inBetween b mem
        rcases mem_cons.mp mem with rfl | inBack
        · rw [bypass.sameWrites]
          exact betweenBack a inBetween consumer mem_cons_self
        · exact betweenBack a inBetween b (mem_cons_of_mem _ inBack)
    · intro a inFront b mem
      rcases mem_append.mp mem with inBetween | rest
      · exact frontRest a inFront b (inRest b (mem_append_left _ inBetween))
      · rcases mem_cons.mp rest with rfl | inBack
        · rw [bypass.sameWrites]
          exact frontRest a inFront consumer (inRest consumer consumerIn)
        · exact frontRest a inFront b
            (inRest b (mem_append_right _ (mem_cons_of_mem _ inBack)))
  · intro n mem t written
    rcases mem_append.mp mem with inFront | rest
    · exact self n (mem_append_left _ inFront) t written
    rcases mem_append.mp rest with inBetween | rest
    · exact self n (mem_append_right _ (inRest n (mem_append_left _ inBetween))) t written
    rcases mem_cons.mp rest with rfl | inBack
    · rw [bypass.sameWrites] at written
      intro read
      rcases bypass.reads t read with byConsumer | byProducer
      · exact self consumer (mem_append_right _ (inRest consumer consumerIn)) t written
          byConsumer
      · exact (producerRest consumer consumerIn t written).1 byProducer
    · exact self n (mem_append_right _
        (inRest n (mem_append_right _ (mem_cons_of_mem _ inBack)))) t written

/-- Every name read is still written after a producer is read past. -/
theorem Fed.bypass {computed : Id → Prop} (bypass : S.Bypass m producer consumer direct)
    (ordered : S.Ordered (front ++ producer :: (between ++ consumer :: back)))
    (unread : ∀ n ∈ front ++ (between ++ back), m ∉ S.reads n)
    (fed : S.Fed computed (front ++ producer :: (between ++ consumer :: back))) :
    S.Fed computed (front ++ (between ++ direct :: back)) := by
  have producerSelf := ordered.self producer
    (mem_append_right _ mem_cons_self) m (by simp [bypass.writes])
  -- A name other than the result that was written still is.
  have supply : ∀ t, t ≠ m →
      (∃ p ∈ front ++ producer :: (between ++ consumer :: back), t ∈ S.writes p) →
      ∃ p ∈ front ++ (between ++ direct :: back), t ∈ S.writes p := by
    rintro t other ⟨p, mem, written⟩
    simp only [mem_append, mem_cons] at mem
    rcases mem with inFront | rfl | inBetween | rfl | inBack
    · exact ⟨p, by simp [inFront], written⟩
    · rw [bypass.writes, mem_singleton] at written
      exact absurd written other
    · exact ⟨p, by simp [inBetween], written⟩
    · exact ⟨direct, by simp, bypass.sameWrites ▸ written⟩
    · exact ⟨p, by simp [inBack], written⟩
  intro n mem t read needed
  simp only [mem_append, mem_cons] at mem
  rcases mem with inFront | inBetween | rfl | inBack
  · exact supply t (fun same => unread n (by simp [inFront]) (same ▸ read))
      (fed n (by simp [inFront]) t read needed)
  · exact supply t (fun same => unread n (by simp [inBetween]) (same ▸ read))
      (fed n (by simp [inBetween]) t read needed)
  · have other : t ≠ m := fun same => bypass.without (same ▸ read)
    rcases bypass.reads t read with byConsumer | byProducer
    · exact supply t other (fed consumer (by simp) t byConsumer needed)
    · exact supply t other (fed producer (by simp) t byProducer needed)
  · exact supply t (fun same => unread n (by simp [inBack]) (same ▸ read))
      (fed n (by simp [inBack]) t read needed)

/-- **A program is ordered when its instructions read, besides what they read, what earlier ones
read.** -/
theorem Ordered.rewrite {nodes : List N} (ordered : S.Ordered nodes) {f : N → N}
    (writes : ∀ n, S.writes (f n) = S.writes n)
    (reads : ∀ (j : Nat) (n : N), nodes[j]? = some n → ∀ t ∈ S.reads (f n), t ∈ S.reads n ∨
      ∃ i < j, ∃ p, nodes[i]? = some p ∧ t ∈ S.reads p) :
    S.Ordered (nodes.map f) := by
  have apart := pairwise_iff_getElem.mp ordered.before
  refine ⟨pairwise_iff_getElem.mpr fun i j small small' before t written => ?_, ?_⟩
  · rw [length_map] at small small'
    rw [getElem_map, writes] at written
    rw [getElem_map, writes]
    refine ⟨fun read => ?_, (apart i j small small' before t written).2⟩
    rcases reads i _ (getElem?_eq_getElem small) t read with own | ⟨k, earlier, p, here, other⟩
    · exact (apart i j small small' before t written).1 own
    · obtain ⟨inside, rfl⟩ := List.getElem?_eq_some_iff.mp here
      exact (apart k j inside small' (Nat.lt_trans earlier before) t written).1 other
  · intro n mem t written read
    obtain ⟨p, inside, rfl⟩ := mem_map.mp mem
    obtain ⟨j, small, rfl⟩ := getElem_of_mem inside
    rw [writes] at written
    rcases reads j _ (getElem?_eq_getElem small) t read with own | ⟨k, earlier, q, here, other⟩
    · exact ordered.self _ inside t written own
    · obtain ⟨inside', rfl⟩ := List.getElem?_eq_some_iff.mp here
      exact (apart k j inside' small earlier t written).1 other

end Signature

variable {N Id V : Type} [DecidableEq Id] (M : Machine N Id V)

namespace Machine

def step (e : Id → V) (n : N) : Id → V := fun t => if t ∈ M.writes n then M.value n e t else e t

def run (nodes : List N) (e : Id → V) : Id → V := nodes.foldl M.step e

@[simp] theorem run_cons (n : N) (nodes : List N) (e : Id → V) :
    M.run (n :: nodes) e = M.run nodes (M.step e n) := rfl

theorem run_append (nodes later : List N) (e : Id → V) :
    M.run (nodes ++ later) e = M.run later (M.run nodes e) :=
  foldl_append

variable {n : N} {nodes : List N} {e e' : Id → V}

theorem step_frame {t : Id} (untouched : t ∉ M.writes n) (e : Id → V) : M.step e n t = e t :=
  if_neg untouched

theorem run_frame {t : Id} (untouched : ∀ n ∈ nodes, t ∉ M.writes n)
    (e : Id → V) : M.run nodes e t = e t := by
  induction nodes generalizing e with
  | nil => rfl
  | cons n nodes ih =>
    rw [run_cons, ih fun k mem => untouched k (mem_cons_of_mem _ mem)]
    exact M.step_frame (untouched n mem_cons_self) e

/-- Every instruction of a program keeps a property of the values. -/
theorem run_keeps {I : (Id → V) → Prop}
    (keeps : ∀ n ∈ nodes, ∀ e, I e → I (M.step e n)) (holds : I e) :
    I (M.run nodes e) := by
  induction nodes generalizing e with
  | nil => exact holds
  | cons n nodes ih =>
    exact ih (fun k mem => keeps k (mem_cons_of_mem _ mem))
      (keeps n mem_cons_self e holds)

/-- Two machines that write and compute the same run a program alike. -/
theorem run_congr {M M' : Machine N Id V} {nodes : List N}
    (writes : ∀ n ∈ nodes, M.writes n = M'.writes n)
    (value : ∀ n ∈ nodes, ∀ e, M.value n e = M'.value n e) (e : Id → V) :
    M.run nodes e = M'.run nodes e := by
  induction nodes generalizing e with
  | nil => rfl
  | cons n nodes ih =>
    have first : M.step e n = M'.step e n := by
      funext t
      rw [step, step, writes n mem_cons_self, value n mem_cons_self]
    rw [run_cons, run_cons, first]
    exact ih (fun k mem => writes k (mem_cons_of_mem _ mem))
      (fun k mem => value k (mem_cons_of_mem _ mem)) _

/-! ## Agreement -/

def Agree (on : Id → Prop) (e e' : Id → V) : Prop := ∀ t, on t → e t = e' t

variable {M} {on : Id → Prop}

/-- An instruction that reads only those names keeps the agreement. -/
theorem Agree.step (agree : Agree on e e')
    (inside : ∀ t ∈ M.reads n, on t) : Agree on (M.step e n) (M.step e' n) := by
  intro t needed
  unfold Machine.step
  split
  · rename_i written
    exact M.depends n e e' (fun r mem => agree r (inside r mem)) t written
  · exact agree t needed

theorem Agree.skip (agree : Agree on e e')
    (outside : ∀ t ∈ M.writes n, ¬ on t) : Agree on (M.step e n) e' := by
  intro t needed
  rw [M.step_frame (fun written => outside t written needed)]
  exact agree t needed

/-- A program that reads only those names keeps the agreement. -/
theorem Agree.run (agree : Agree on e e')
    (inside : ∀ n ∈ nodes, ∀ t ∈ M.reads n, on t) :
    Agree on (M.run nodes e) (M.run nodes e') := by
  induction nodes generalizing e e' with
  | nil => exact agree
  | cons n nodes ih =>
    exact ih (agree.step (inside n mem_cons_self))
      fun k mem => inside k (mem_cons_of_mem _ mem)

/-- **Leaving out instructions whose results are not needed** changes nothing that is. -/
theorem Agree.run_filter (agree : Agree on e e') (keep : N → Bool)
    (inside : ∀ n ∈ nodes, keep n = true → ∀ t ∈ M.reads n, on t)
    (outside : ∀ n ∈ nodes, keep n = false → ∀ t ∈ M.writes n, ¬ on t) :
    Agree on (M.run nodes e) (M.run (nodes.filter keep) e') := by
  induction nodes generalizing e e' with
  | nil => exact agree
  | cons n nodes ih =>
    have insideRest := fun k mem => inside k (mem_cons_of_mem n mem)
    have outsideRest := fun k mem => outside k (mem_cons_of_mem n mem)
    cases kept : keep n with
    | true =>
      rw [filter_cons_of_pos kept]
      exact ih (agree.step (inside n mem_cons_self kept)) insideRest outsideRest
    | false =>
      rw [filter_cons_of_neg (by simp [kept])]
      exact ih (agree.skip (outside n mem_cons_self kept)) insideRest outsideRest

/-! ## Solutions -/

variable (M) in
/-- Every name that a program writes holds what its instruction computes. -/
def Solved (nodes : List N) (E : Id → V) : Prop :=
  ∀ n ∈ nodes, ∀ t ∈ M.writes n, E t = M.value n E t

/-- **A run of an ordered program solves it.** -/
theorem solved_run (ordered : M.toSignature.Ordered nodes) (e : Id → V) :
    M.Solved nodes (M.run nodes e) := by
  induction nodes generalizing e with
  | nil => exact fun n mem => nomatch mem
  | cons n nodes ih =>
    obtain ⟨later, rest⟩ := pairwise_cons.mp ordered.before
    intro k mem t written
    rw [run_cons]
    rcases mem_cons.mp mem with rfl | inside
    · rw [M.run_frame fun b here again => (later b here t again).2 written, Machine.step,
        if_pos written]
      refine M.depends k _ _ (fun r read => ?_) t written
      rw [M.run_frame fun b here again => (later b here r again).1 read]
      exact (M.step_frame (fun again => ordered.self k mem r again read) e).symm
    · exact ih ⟨rest, fun b here => ordered.self b (mem_cons_of_mem _ here)⟩ _ k inside t
        written

/-- **An ordered program has one solution** from what it does not write. -/
theorem run_unique (ordered : M.toSignature.Ordered nodes) {E : Id → V}
    (solved : M.Solved nodes E) (same : ∀ t, (∀ n ∈ nodes, t ∉ M.writes n) → e t = E t) :
    M.run nodes e = E := by
  induction nodes generalizing e with
  | nil =>
    funext t
    exact same t fun n mem => nomatch mem
  | cons n nodes ih =>
    obtain ⟨later, rest⟩ := pairwise_cons.mp ordered.before
    rw [run_cons]
    refine ih ⟨rest, fun b here => ordered.self b (mem_cons_of_mem _ here)⟩
      (fun k mem => solved k (mem_cons_of_mem _ mem)) fun t untouched => ?_
    unfold Machine.step
    split
    · rename_i written
      rw [solved n mem_cons_self t written]
      refine M.depends n e E (fun r read => same r fun b here again => ?_) t written
      rcases mem_cons.mp here with rfl | inside
      · exact ordered.self b here r again read
      · exact (later b inside r again).1 read
    · rename_i untouchedHere
      refine same t fun b here => ?_
      rcases mem_cons.mp here with rfl | inside
      · exact untouchedHere
      · exact untouched b inside

/-- **The order of a program makes no difference**, as long as it is one. -/
theorem run_perm {nodes' : List N} (ordered : M.toSignature.Ordered nodes)
    (ordered' : M.toSignature.Ordered nodes') (same : ∀ n, n ∈ nodes' ↔ n ∈ nodes) (e : Id → V) :
    M.run nodes' e = M.run nodes e := by
  refine run_unique ordered' (fun n mem => solved_run ordered e n ((same n).mp mem))
    fun t untouched => (M.run_frame (fun n mem => ?_) e).symm
  exact untouched n ((same n).mpr mem)

/-- **Instructions that compute the same from a solution** may take each other's place. -/
theorem run_rewrite (ordered : M.toSignature.Ordered nodes) {f : N → N}
    (rewritten : M.toSignature.Ordered (nodes.map f)) (writes : ∀ n, M.writes (f n) = M.writes n)
    (same : ∀ n ∈ nodes, ∀ t ∈ M.writes n,
      M.value (f n) (M.run nodes e) t = M.value n (M.run nodes e) t) :
    M.run (nodes.map f) e = M.run nodes e := by
  refine run_unique rewritten (fun k mem t written => ?_) fun t untouched => ?_
  · obtain ⟨n, inside, rfl⟩ := mem_map.mp mem
    rw [writes] at written
    rw [same n inside t written]
    exact solved_run ordered e n inside t written
  · refine (M.run_frame (fun n mem written => ?_) e).symm
    exact untouched (f n) (mem_map_of_mem mem) (writes n ▸ written)

/-! ## Reading past a producer -/

variable {m : Id} {producer consumer direct : N} {front between back : List N}

/-- **Reading past a producer changes no name but its result**, when nobody else reads that. -/
theorem run_bypass {I : (Id → V) → Prop} (bypass : M.toSignature.Bypass m producer consumer direct)
    (ordered : M.toSignature.Ordered (front ++ producer :: (between ++ consumer :: back)))
    (unread : ∀ n ∈ between ++ back, m ∉ M.reads n)
    (keeps : ∀ n ∈ front ++ producer :: between, ∀ e, I e → I (M.step e n))
    (same : ∀ e, I e → e m = M.value producer e m →
      ∀ t ∈ M.writes consumer, M.value consumer e t = M.value direct e t)
    (holds : I e) :
    Agree (fun t => t ≠ m) (M.run (front ++ producer :: (between ++ consumer :: back)) e)
      (M.run (front ++ (between ++ direct :: back)) e) := by
  have later := ordered.before
  rw [pairwise_append, pairwise_cons] at later
  obtain ⟨-, ⟨producerRest, -⟩, -⟩ := later
  have producerSelf := ordered.self producer
    (mem_append_right _ mem_cons_self) m (by simp [bypass.writes])
  rw [run_append, run_append, run_cons, run_append, run_append, run_cons, run_cons]
  have holds1 := M.run_keeps (fun n mem => keeps n (mem_append_left _ mem)) holds
  generalize M.run front e = e1 at holds1 ⊢
  -- After the producer only its result differs.
  have apart : Agree (fun t => t ≠ m) (M.step e1 producer) e1 :=
    (show Agree (fun t => t ≠ m) e1 e1 from fun _ _ => rfl).skip fun t written => by
      rw [bypass.writes, mem_singleton] at written
      exact not_not_intro written
  have holds2 := keeps producer (mem_append_right _ mem_cons_self) e1 holds1
  have made : M.step e1 producer m = M.value producer e1 m := by
    rw [Machine.step, if_pos (by simp [bypass.writes])]
  have still : M.value producer (M.step e1 producer) m = M.value producer e1 m := by
    refine M.depends producer _ _ (fun r read => ?_) m (by simp [bypass.writes])
    refine M.step_frame (fun written => ?_) e1
    rw [bypass.writes, mem_singleton] at written
    exact producerSelf (written ▸ read)
  -- The instructions between change neither it nor what it was computed from.
  have holds3 := M.run_keeps (fun n mem => keeps n
    (mem_append_right _ (mem_cons_of_mem _ mem))) holds2
  have inRest : ∀ n ∈ between, n ∈ between ++ consumer :: back := fun n mem => mem_append_left _ mem
  have kept : M.run between (M.step e1 producer) m =
      M.value producer (M.run between (M.step e1 producer)) m := by
    rw [M.run_frame fun n mem written =>
      (producerRest n (inRest n mem) m written).2 (by simp [bypass.writes]), made, ← still]
    refine M.depends producer _ _ (fun r read => ?_) m (by simp [bypass.writes])
    exact (M.run_frame (fun n mem written =>
      (producerRest n (inRest n mem) r written).1 read) _).symm
  have agree : Agree (fun t => t ≠ m) (M.run between (M.step e1 producer)) (M.run between e1) :=
    apart.run fun n mem t read same =>
      unread n (mem_append_left _ mem) (same ▸ read)
  generalize M.run between (M.step e1 producer) = e2 at holds3 kept agree ⊢
  generalize M.run between e1 = e3 at agree ⊢
  -- The two consumers compute the same.
  have consumed : Agree (fun t => t ≠ m) (M.step e2 consumer) (M.step e3 direct) := by
    intro t needed
    unfold Machine.step
    rw [bypass.sameWrites]
    split
    · rename_i written
      rw [same e2 holds3 kept t written]
      exact M.depends direct e2 e3 (fun r read => agree r fun here =>
        bypass.without (here ▸ read)) t (bypass.sameWrites ▸ written)
    · exact agree t needed
  exact consumed.run fun n mem t read same =>
    unread n (mem_append_right _ mem) (same ▸ read)

end Machine

end Dataflow
