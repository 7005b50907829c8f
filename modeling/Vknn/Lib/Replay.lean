import Mathlib.Data.List.Basic
import Mathlib.Data.Option.Basic

/-!
# Answers that are found once and replayed

Clients come in rounds.  A client may ask under a key, and it has an answer that it would find
by itself.  What the clients of a round find under a key is published when the round is over,
and only for keys that nobody published before; a client of a later round takes the published
answer.

Within a round nobody replays.  So two clients of different rounds under one key agree for all
clients exactly when, in the round that publishes a key, all clients under it would find the
same answer by themselves.
-/

namespace Replay

open Option Nat

variable {κ α : Type*} [DecidableEq κ]

/-- The key a client asks under, and the answer it would find. -/
structure Client (κ α : Type*) where
  key : Option κ
  own : α

/-- The first client of a round under a key. -/
def first (round : List (Client κ α)) (k : κ) : Option α :=
  (round.find? fun c => c.key = some k).map Client.own

def published (round : ℕ → List (Client κ α)) : ℕ → κ → Option α
  | 0, _ => none
  | n + 1, k => (published round n k).or (first (round n) k)

/-- The answer a client gets, after what is published. -/
def answer (known : κ → Option α) (c : Client κ α) : α := (c.key.bind known).getD c.own

/-- Whether somebody asks under a key in a round. -/
def Holds (round : ℕ → List (Client κ α)) (n : ℕ) (k : κ) : Prop := ∃ c ∈ round n, c.key = some k

/-- Clients of different rounds under one key get one answer. -/
def Consistent (round : ℕ → List (Client κ α)) (count : ℕ) : Prop :=
  ∀ i j, i < count → j < count → i ≠ j → ∀ c ∈ round i, ∀ d ∈ round j, ∀ k,
    c.key = some k → d.key = some k → answer (published round i) c = answer (published round j) d

/-- In the round that publishes a key, all clients under it find one answer, where a client of
another round asks under the key too. -/
def FirstAgrees (round : ℕ → List (Client κ α)) (count : ℕ) : Prop :=
  ∀ i j, i < count → j < count → i ≠ j → ∀ k, (∀ p < i, ¬ Holds round p k) → Holds round j k →
    ∀ c ∈ round i, ∀ d ∈ round i, c.key = some k → d.key = some k → c.own = d.own

variable {round : ℕ → List (Client κ α)} {k : κ}

variable {clients : List (Client κ α)} {c : Client κ α} {n : ℕ} {a : α} {known : κ → Option α}

theorem first_eq_none_iff : first clients k = none ↔ ∀ c ∈ clients, c.key ≠ some k := by
  simp [first]

theorem first_of_mem (mem : c ∈ clients)
    (asks : c.key = some k) : ∃ d ∈ clients, d.key = some k ∧ first clients k = some d.own := by
  cases found : clients.find? fun c => c.key = some k with
  | none => exact absurd asks (by simpa using List.find?_eq_none.mp found c mem)
  | some d =>
    refine ⟨d, List.mem_of_find?_eq_some found, ?_, ?_⟩
    · simpa using List.find?_some found
    · rw [first, found, map_some]

theorem published_eq_none_iff (n : ℕ) :
    published round n k = none ↔ ∀ p < n, ¬ Holds round p k := by
  induction n with
  | zero => simp [published]
  | succ n ih =>
    rw [published, or_eq_none_iff, ih, first_eq_none_iff]
    refine ⟨fun both p below => ?_, fun nobody => ⟨fun p below => nobody p (by omega), ?_⟩⟩
    · rcases Nat.lt_succ_iff_lt_or_eq.mp below with earlier | rfl
      · exact both.1 p earlier
      · rintro ⟨c, mem, asks⟩
        exact both.2 c mem asks
    · intro c mem asks
      exact nobody n n.lt_succ_self ⟨c, mem, asks⟩

theorem published_mono {m : ℕ} (before : m ≤ n) (known : published round m k = some a) :
    published round n k = some a := by
  induction before with
  | refl => exact known
  | step _ ih => rw [published, ih, some_or]

theorem published_of_holds (unknown : published round n k = none)
    (holds : Holds round n k) :
    ∃ c ∈ round n, c.key = some k ∧ published round (n + 1) k = some c.own := by
  obtain ⟨c, mem, asks⟩ := holds
  obtain ⟨d, inside, under, eq⟩ := first_of_mem mem asks
  exact ⟨d, inside, under, by rw [published, unknown, none_or, eq]⟩

omit [DecidableEq κ] in
theorem answer_known (asks : c.key = some k)
    (found : known k = some a) : answer known c = a := by
  rw [answer, asks, bind_some, found, getD_some]

omit [DecidableEq κ] in
theorem answer_unknown (asks : c.key = some k)
    (none : known k = none) : answer known c = c.own := by
  rw [answer, asks, bind_some, none, getD_none]

/-- A later round replays what an earlier client got. -/
theorem answer_of_lt {count i j : ℕ} (agrees : FirstAgrees round count) (i_lt : i < count)
    (j_lt : j < count) (before : i < j) {d : Client κ α} (here : c ∈ round i)
    (there : d ∈ round j) (c_asks : c.key = some k) (d_asks : d.key = some k) :
    answer (published round i) c = answer (published round j) d := by
  cases known : published round i k with
  | some a =>
    rw [answer_known c_asks known, answer_known d_asks (published_mono (Nat.le_of_lt before) known)]
  | none =>
    have nobody := (published_eq_none_iff i).mp known
    obtain ⟨e, inside, asks, found⟩ := published_of_holds known ⟨c, here, c_asks⟩
    rw [answer_unknown c_asks known, answer_known d_asks (published_mono before found)]
    exact agrees i j i_lt j_lt (Nat.ne_of_lt before) k nobody ⟨d, there, d_asks⟩ c here e inside c_asks asks

/-- **Clients of different rounds agree exactly when the round that publishes a key is of one
mind about it.** -/
theorem consistent_iff (count : ℕ) : Consistent round count ↔ FirstAgrees round count := by
  refine ⟨fun consistent => ?_, fun agrees => ?_⟩
  · rintro i j i_lt j_lt apart k nobody ⟨e, there, e_asks⟩ c here d also c_asks d_asks
    have unknown := (published_eq_none_iff i).mpr nobody
    have one := consistent i j i_lt j_lt apart c here e there k c_asks e_asks
    have two := consistent i j i_lt j_lt apart d also e there k d_asks e_asks
    rw [answer_unknown c_asks unknown] at one
    rw [answer_unknown d_asks unknown] at two
    exact one.trans two.symm
  · intro i j i_lt j_lt apart c here d there k c_asks d_asks
    rcases Nat.lt_or_gt_of_ne apart with before | after
    · exact answer_of_lt agrees i_lt j_lt before here there c_asks d_asks
    · exact (answer_of_lt agrees j_lt i_lt after there here d_asks c_asks).symm

end Replay
