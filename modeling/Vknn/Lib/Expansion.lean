import Mathlib.Order.Lattice
import Vknn.Lib.Dataflow

/-!
# Expanding instructions

A program is rewritten by putting a block of instructions in the place of each of its own.
What the instructions of a block pass to each other has new names: names are ordered, and
every block takes its new names from behind those of the blocks before it.

The blocks together are an ordered program again.  If each block computes what its
instruction does from the values that the run really has there, then the run of the blocks
gives every old name its old value.
-/

namespace Dataflow

open List

variable {N Id V : Type}

namespace Signature

/-- A block for an instruction: its names are those of the instruction, and new ones from `lo` up
to `hi`. -/
structure Block [LinearOrder Id] (S : Signature N Id) (lo hi : Id) (n : N) (block : List N) :
    Prop where
  ordered : S.Ordered block
  reads : ∀ m ∈ block, ∀ t ∈ S.reads m, t ∈ S.reads n ∨ lo ≤ t ∧ t < hi
  writes : ∀ m ∈ block, ∀ t ∈ S.writes m, t ∈ S.writes n ∨ lo ≤ t ∧ t < hi

/-- Blocks for the instructions of a program, the new names of each behind those before; `B` says
which blocks. -/
inductive Blocks [LinearOrder Id] (B : Id → Id → N → List N → Prop) :
    Id → List N → List (List N) → Id → Prop
  | nil (lo : Id) : Blocks B lo [] [] lo
  | cons {lo mid hi : Id} {n : N} {block : List N} {nodes : List N} {blocks : List (List N)}
      (forward : lo ≤ mid) (here : B lo mid n block) (rest : Blocks B mid nodes blocks hi) :
      Blocks B lo (n :: nodes) (block :: blocks) hi

variable [LinearOrder Id] {S : Signature N Id} {B : Id → Id → N → List N → Prop} {lo hi : Id}
  {nodes : List N} {blocks : List (List N)}

theorem block_self {n : N} (self : ∀ t ∈ S.writes n, t ∉ S.reads n) : S.Block lo hi n [n] where
  ordered := ⟨pairwise_singleton _ _, fun m mem => by rwa [mem_singleton.mp mem]⟩
  reads m mem t read := .inl (mem_singleton.mp mem ▸ read)
  writes m mem t written := .inl (mem_singleton.mp mem ▸ written)

theorem Blocks.forward (made : Blocks B lo nodes blocks hi) : lo ≤ hi := by
  induction made with
  | nil lo => exact le_rfl
  | cons forward _ _ ih => exact le_trans forward ih

theorem Blocks.imp {B' : Id → Id → N → List N → Prop} (made : Blocks B lo nodes blocks hi)
    (stronger : ∀ {lo' hi' n block}, n ∈ nodes → lo ≤ lo' → B lo' hi' n block → B' lo' hi' n block) :
    Blocks B' lo nodes blocks hi := by
  induction made with
  | nil lo => exact .nil lo
  | cons forward here rest ih =>
    refine .cons forward (stronger mem_cons_self le_rfl here) (ih fun mem behind => ?_)
    exact stronger (mem_cons_of_mem _ mem) (le_trans forward behind)

/-- The names in the blocks are old ones of the program, or new. -/
theorem Blocks.names (made : Blocks B lo nodes blocks hi)
    (sound : ∀ {lo hi n block}, B lo hi n block → S.Block lo hi n block) : ∀ m ∈ blocks.flatten,
    (∀ t ∈ S.reads m, (∃ n ∈ nodes, t ∈ S.reads n) ∨ lo ≤ t ∧ t < hi) ∧
      ∀ t ∈ S.writes m, (∃ n ∈ nodes, t ∈ S.writes n) ∨ lo ≤ t ∧ t < hi := by
  induction made with
  | nil lo => exact fun m mem => absurd mem not_mem_nil
  | @cons lo mid hi n block nodes blocks forward here rest ih =>
    have here := sound here
    intro m mem
    rw [flatten_cons] at mem
    rcases mem_append.mp mem with inBlock | later
    · refine ⟨fun t read => (here.reads m inBlock t read).imp
          (fun old => ⟨n, mem_cons_self, old⟩) fun new => ⟨new.1, ?_⟩,
        fun t written => (here.writes m inBlock t written).imp
          (fun old => ⟨n, mem_cons_self, old⟩) fun new => ⟨new.1, ?_⟩⟩
      · exact lt_of_lt_of_le new.2 rest.forward
      · exact lt_of_lt_of_le new.2 rest.forward
    · obtain ⟨reads, writes⟩ := ih m later
      refine ⟨fun t read => (reads t read).imp
          (fun old => old.imp fun p there => ⟨mem_cons_of_mem n there.1, there.2⟩)
          fun new => ⟨le_trans forward new.1, new.2⟩,
        fun t written => (writes t written).imp
          (fun old => old.imp fun p there => ⟨mem_cons_of_mem n there.1, there.2⟩)
          fun new => ⟨le_trans forward new.1, new.2⟩⟩

/-- **The blocks of an ordered program are one**, where its own names lie below the new ones. -/
theorem Blocks.ordered (made : Blocks B lo nodes blocks hi)
    (sound : ∀ {lo hi n block}, B lo hi n block → S.Block lo hi n block) (ordered : S.Ordered nodes)
    (old : ∀ n ∈ nodes, (∀ t ∈ S.reads n, t < lo) ∧ ∀ t ∈ S.writes n, t < lo) :
    S.Ordered blocks.flatten := by
  induction made with
  | nil lo => exact ordered
  | @cons lo mid hi n block nodes blocks forward here rest ih =>
    have here := sound here
    obtain ⟨first, later⟩ := pairwise_cons.mp ordered.before
    have oldRest : ∀ p ∈ nodes, (∀ t ∈ S.reads p, t < lo) ∧ ∀ t ∈ S.writes p, t < lo :=
      fun p mem => old p (mem_cons_of_mem n mem)
    have behind := ih ⟨later, fun p mem => ordered.self p (mem_cons_of_mem n mem)⟩
      fun p mem => ⟨fun t read => lt_of_lt_of_le ((oldRest p mem).1 t read) forward,
        fun t written => lt_of_lt_of_le ((oldRest p mem).2 t written) forward⟩
    obtain ⟨oldReads, oldWrites⟩ := old n mem_cons_self
    rw [flatten_cons]
    refine ⟨pairwise_append.mpr ⟨here.ordered.before, behind.before, ?_⟩, ?_⟩
    · -- What a later block writes is the result of a later instruction, or a later new name.
      intro a inBlock b later t written
      rcases (rest.names sound b later).2 t written with ⟨p, mem, result⟩ | new
      · have low := (oldRest p mem).2 t result
        obtain ⟨unread, unwritten⟩ := first p mem t result
        refine ⟨fun read => ?_, fun again => ?_⟩
        · exact (here.reads a inBlock t read).elim unread fun new => absurd new.1 (not_le.mpr low)
        · exact (here.writes a inBlock t again).elim unwritten
            fun new => absurd new.1 (not_le.mpr low)
      · have high := le_trans forward new.1
        refine ⟨fun read => ?_, fun again => ?_⟩
        · exact (here.reads a inBlock t read).elim
            (fun mine => absurd (oldReads t mine) (not_lt.mpr high))
            fun mine => absurd mine.2 (not_lt.mpr new.1)
        · exact (here.writes a inBlock t again).elim
            (fun mine => absurd (oldWrites t mine) (not_lt.mpr high))
            fun mine => absurd mine.2 (not_lt.mpr new.1)
    · intro m mem
      rcases mem_append.mp mem with inBlock | later
      · exact here.ordered.self m inBlock
      · exact behind.self m later

end Signature

namespace Machine

open Signature

variable [LinearOrder Id] {M M' : Machine N Id V} {on : Id → Prop}
  {B : Id → Id → N → List N → Prop}

/-- **Blocks that compute what their instructions do** give every old name its value.  A block finds
what its instruction reads in the whole run, and its new names as they were given. -/
theorem run_blocks {lo hi : Id} {nodes : List N} {blocks : List (List N)}
    (made : Blocks B lo nodes blocks hi)
    (sound : ∀ {lo hi n block}, B lo hi n block → M'.toSignature.Block lo hi n block)
    (ordered : M.toSignature.Ordered nodes) (old : ∀ n ∈ nodes, ∀ t ∈ M'.writes n, t < lo)
    {e e' E E' : Id → V} (final : M.run nodes e = E)
    (computes : ∀ {lo hi n block}, n ∈ nodes → B lo hi n block → ∀ {e e'}, Agree on e e' →
      (∀ t ∈ M.reads n, e t = E t) → (∀ t, lo ≤ t → e' t = E' t) →
      Agree on (M.step e n) (M'.run block e'))
    (agree : Agree on e e') (held : ∀ t, lo ≤ t → e' t = E' t) :
    Agree on (M.run nodes e) (M'.run blocks.flatten e') := by
  induction made generalizing e e' with
  | nil lo => exact agree
  | @cons lo mid hi n block nodes blocks forward here rest ih =>
    obtain ⟨later, behind⟩ := pairwise_cons.mp ordered.before
    have reads : ∀ t ∈ M.reads n, e t = E t := by
      intro t read
      rw [← final, run_cons, M.run_frame fun p mem written =>
        (later p mem t written).1 read]
      exact (M.step_frame (fun written =>
        ordered.self n mem_cons_self t written read) e).symm
    have next := computes mem_cons_self here agree reads held
    have kept : ∀ t, mid ≤ t → M'.run block e' t = E' t := by
      intro t high
      rw [M'.run_frame (fun m mem written => ?_), held t (le_trans forward high)]
      rcases (sound here).writes m mem t written with result | new
      · exact absurd (old n mem_cons_self t result) (not_lt.mpr (le_trans forward high))
      · exact absurd new.2 (not_lt.mpr high)
    rw [flatten_cons, run_append, run_cons]
    exact ih ⟨behind, fun p mem => ordered.self p (mem_cons_of_mem n mem)⟩
      (fun p mem t written =>
        lt_of_lt_of_le (old p (mem_cons_of_mem n mem) t written) forward)
      final (fun mem => computes (mem_cons_of_mem n mem)) next kept

end Machine

end Dataflow
