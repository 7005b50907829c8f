import Mathlib.Data.List.Induction
import Vknn.OnnxOptimizer.Engine
import Vknn.OnnxOptimizer.FoldConvBatchnorm

/-!
# Which changes the engine keeps

A run is a chain of calls, and each call either leaves the model it was given or goes on with one
that the gate was asked about, but for a call that reports no change: what it has changed is kept
unseen.  And the gate compares with the original, so once a lossy change has been let through, a
lossless pass that changes no output is refused for the difference it found there.
-/

namespace Vknn.OnnxOptimizer

open List Prod Except

/-! ## What a call did -/

/-- A call that ended as it says. -/
inductive Engine.Faithful (engine : Engine) (k : Nat) : Call → Prop where
  | raised (p : Pass) (m : ModelProto) (message : Str) (left : ModelProto)
      (call : engine.call k p m = .raised message left) : Faithful engine k ⟨p, m, .raised, m⟩
  | unchanged (p : Pass) (m m' : ModelProto) (call : engine.call k p m = .returned 0 m') :
      Faithful engine k ⟨p, m, .unchanged, m'⟩
  | applied (p : Pass) (m m' sorted : ModelProto) (n : Int) (answer : GateResult) (nonzero : n ≠ 0)
      (call : engine.call k p m = .returned n m') (sort : engine.normalise m' = .ok sorted)
      (asked : engine.gate k sorted = .ok answer) (ok : answer.ok = true) :
      Faithful engine k ⟨p, m, .applied false, sorted⟩
  | waived (p : Pass) (m m' sorted : ModelProto) (n : Int) (answer : GateResult) (nonzero : n ≠ 0)
      (call : engine.call k p m = .returned n m') (sort : engine.normalise m' = .ok sorted)
      (asked : engine.gate k sorted = .ok answer) (refused : answer.ok = false)
      (lossy : p.lossy = true) (bytes : onlyByteMismatches answer = true) :
      Faithful engine k ⟨p, m, .applied true, sorted⟩
  | reverted (p : Pass) (m m' : ModelProto) (n : Int) (nonzero : n ≠ 0)
      (call : engine.call k p m = .returned n m')
      (refused : ∀ sorted answer, engine.normalise m' = .ok sorted →
        engine.gate k sorted = .ok answer → answer.ok = false) :
      Faithful engine k ⟨p, m, .reverted, m⟩
  | aborted (p : Pass) (m m' sorted : ModelProto) (n : Int) (nonzero : n ≠ 0)
      (call : engine.call k p m = .returned n m') (sort : engine.normalise m' = .ok sorted)
      (asked : engine.gate k sorted = .error []) : Faithful engine k ⟨p, m, .aborted, sorted⟩

/-- Calls that follow one another from one model to another. -/
def Leads : ModelProto → List Call → ModelProto → Prop
  | m, [], m' => m' = m
  | m, c :: cs, m' => c.before = m ∧ Leads c.after cs m'

theorem leads_append {m m' : ModelProto} {cs ds : List Call} :
    Leads m (cs ++ ds) m' ↔ ∃ b, Leads m cs b ∧ Leads b ds m' := by
  induction cs generalizing m with
  | nil => exact ⟨fun leads => ⟨m, rfl, leads⟩, fun ⟨b, same, leads⟩ => same ▸ leads⟩
  | cons c cs ih =>
    rw [cons_append, Leads, ih]
    exact ⟨fun ⟨before, b, one, two⟩ => ⟨b, ⟨before, one⟩, two⟩,
      fun ⟨b, ⟨before, one⟩, two⟩ => ⟨before, b, one, two⟩⟩

theorem leads_singleton {m m' : ModelProto} {c : Call} :
    Leads m [c] m' ↔ c.before = m ∧ m' = c.after := Iff.rfl

/-- The state after one more call. -/
structure Engine.Extends (engine : Engine) (s s' : State) (c : Call) : Prop where
  before : c.before = s.model
  faithful : engine.Faithful s.calls.length c
  calls : s'.calls = s.calls ++ [c]
  model : s'.model = c.after

namespace Engine

variable {engine : Engine} {s s' : State} {p : Pass}

theorem goOn_extends {v : Verdict} {after : ModelProto}
    (faithful : engine.Faithful s.calls.length ⟨p, s.model, v, after⟩) :
    engine.Extends s (goOn s p v after) ⟨p, s.model, v, after⟩ := ⟨rfl, faithful, rfl, rfl⟩

theorem ask_ok {k : Nat} {m sorted : ModelProto} {answer : GateResult}
    (asked : engine.ask k m = .ok (answer, sorted)) :
    engine.normalise m = .ok sorted ∧ engine.gate k sorted = .ok answer := by
  unfold ask at asked
  split at asked
  · cases asked
  · rename_i found sort
    split at asked
    · cases asked
    · rename_i given answered
      obtain ⟨rfl, rfl⟩ := Prod.mk.inj (Except.ok.inj asked)
      exact ⟨sort, answered⟩

theorem ask_error {k : Nat} {m left : ModelProto} {e : Str}
    (asked : engine.ask k m = .error (e, left)) :
    (∀ sorted answer, engine.normalise m = .ok sorted → engine.gate k sorted ≠ .ok answer) ∧
      (e = [] → engine.normalise m = .ok left ∧ engine.gate k left = .error []) := by
  unfold ask at asked
  split at asked
  · rename_i message failed
    obtain ⟨rfl, rfl⟩ := Prod.mk.inj (Except.error.inj asked)
    refine ⟨fun sorted answer sort => ?_, fun empty => ?_⟩
    · rw [failed] at sort
      cases sort
    · subst empty
      unfold normalise GraphProto.toposort at failed
      dsimp only at failed
      split at failed
      · have message := error.inj failed
        exact absurd message (by decide)
      · cases failed
  · rename_i found sort
    split at asked
    · rename_i message answered
      obtain ⟨rfl, rfl⟩ := Prod.mk.inj (Except.error.inj asked)
      refine ⟨fun sorted answer again => ?_, fun empty => ?_⟩
      · rw [sort] at again
        obtain rfl := ok.inj again
        rw [answered]
        exact fun impossible => nomatch impossible
      · subst empty
        exact ⟨sort, answered⟩
    · cases asked

/-- **One pass: nothing happens, or one more call is made, and an aborted one ends the run.** -/
theorem runPass_spec (s : State) (p : Pass) : (∀ s', engine.runPass s p = .ok s' →
      s' = s ∨ ∃ c, engine.Extends s s' c ∧ c.verdict ≠ .aborted) ∧
    ∀ s', engine.runPass s p = .error s' → ∃ c, engine.Extends s s' c := by
  unfold runPass
  split
  · exact ⟨fun s' here => .inl (ok.inj here).symm, fun s' here => nomatch here⟩
  · split
    · rename_i message left call
      have extended := goOn_extends (.raised p s.model message left call)
      dsimp only
      split
      · refine ⟨fun s' here => (nomatch here), fun s' here => ?_⟩
        obtain rfl := error.inj here
        exact ⟨_, extended⟩
      · refine ⟨fun s' here => ?_, fun s' here => (nomatch here)⟩
        obtain rfl := ok.inj here
        exact .inr ⟨_, extended, nofun⟩
    · rename_i n m call
      split
      · rename_i zero
        subst zero
        refine ⟨fun s' here => ?_, fun s' here => (nomatch here)⟩
        obtain rfl := ok.inj here
        exact .inr ⟨_, goOn_extends (.unchanged p s.model m call), nofun⟩
      · rename_i nonzero
        split
        · rename_i left asked
          refine ⟨fun s' here => (nomatch here), fun s' here => ?_⟩
          obtain rfl := error.inj here
          obtain ⟨sort, raised⟩ := (ask_error asked).2 rfl
          exact ⟨_, goOn_extends (.aborted p s.model m left n nonzero call sort raised)⟩
        · rename_i failure notEmpty asked
          refine ⟨fun s' here => ?_, fun s' here => (nomatch here)⟩
          obtain rfl := ok.inj here
          obtain ⟨e, left⟩ := failure
          refine .inr ⟨_, goOn_extends (.reverted p s.model m n nonzero call ?_), nofun⟩
          exact fun sorted answer sort answered => absurd answered ((ask_error asked).1 sorted answer sort)
        · rename_i answer sorted asked
          obtain ⟨sort, answered⟩ := ask_ok asked
          split
          · rename_i ok
            refine ⟨fun s' here => ?_, fun s' here => (nomatch here)⟩
            obtain rfl := Except.ok.inj here
            exact .inr ⟨_, goOn_extends
              (.applied p s.model m sorted n answer nonzero call sort answered ok), nofun⟩
          · rename_i refused
            rw [Bool.not_eq_true] at refused
            split
            · rename_i waived
              rw [Bool.and_eq_true] at waived
              refine ⟨fun s' here => ?_, fun s' here => (nomatch here)⟩
              obtain rfl := ok.inj here
              exact .inr ⟨_, goOn_extends (.waived p s.model m sorted n answer nonzero call sort
                answered refused waived.1 waived.2), nofun⟩
            · refine ⟨fun s' here => ?_, fun s' here => (nomatch here)⟩
              obtain rfl := ok.inj here
              refine .inr ⟨_, goOn_extends (.reverted p s.model m n nonzero call ?_), nofun⟩
              intro sorted' answer' sort' answered'
              rw [sort] at sort'
              obtain rfl := ok.inj sort'
              rw [answered] at answered'
              obtain rfl := ok.inj answered'
              exact refused

/-! ## Runs -/

/-- A state that calls have led to from a model. -/
structure Valid (engine : Engine) (start : ModelProto) (s : State) : Prop where
  leads : Leads start s.calls s.model
  faithful : ∀ k c, s.calls[k]? = some c → engine.Faithful k c

def Ongoing (s : State) : Prop := ∀ c ∈ s.calls, c.verdict ≠ .aborted

variable {start : ModelProto}

theorem Valid.extend (valid : engine.Valid start s) {c : Call} (extended : engine.Extends s s' c) :
    engine.Valid start s' where
  leads := by
    rw [extended.calls, leads_append]
    exact ⟨s.model, valid.leads, leads_singleton.mpr ⟨extended.before, extended.model⟩⟩
  faithful k d found := by
    rw [extended.calls, getElem?_append] at found
    split at found
    · exact valid.faithful k d found
    · rename_i beyond
      rw [getElem?_singleton] at found
      split at found
      · obtain rfl := Option.some.inj found
        rw [show k = s.calls.length by omega]
        exact extended.faithful
      · cases found

theorem runPass_valid (valid : engine.Valid start s) (ongoing : Ongoing s) :
    (∀ s', engine.runPass s p = .ok s' → engine.Valid start s' ∧ Ongoing s') ∧
      ∀ s', engine.runPass s p = .error s' → engine.Valid start s' := by
  obtain ⟨goes, stops⟩ := @runPass_spec engine s p
  refine ⟨fun s' here => ?_, fun s' here => ?_⟩
  · rcases goes s' here with rfl | ⟨c, extended, lives⟩
    · exact ⟨valid, ongoing⟩
    · refine ⟨valid.extend extended, fun d mem => ?_⟩
      rw [extended.calls] at mem
      rcases mem_append.mp mem with earlier | last
      · exact ongoing d earlier
      · exact mem_singleton.mp last ▸ lives
  · obtain ⟨c, extended⟩ := stops s' here
    exact valid.extend extended

theorem sweep_valid (passes : List Pass) (valid : engine.Valid start s) (ongoing : Ongoing s) :
    (∀ s', engine.sweep s passes = .ok s' → engine.Valid start s' ∧ Ongoing s') ∧
      ∀ s', engine.sweep s passes = .error s' → engine.Valid start s' := by
  induction passes generalizing s with
  | nil =>
    refine ⟨fun s' here => ?_, fun s' here => (nomatch here)⟩
    obtain rfl := ok.inj here
    exact ⟨valid, ongoing⟩
  | cons p rest ih =>
    obtain ⟨goes, stops⟩ := runPass_valid (p := p) valid ongoing
    unfold sweep
    split
    · rename_i next here
      obtain ⟨valid', ongoing'⟩ := goes next here
      exact ih valid' ongoing'
    · rename_i last here
      refine ⟨fun s' impossible => (nomatch impossible), fun s' same => ?_⟩
      obtain rfl := error.inj same
      exact stops last here

theorem iterate_valid (iterations : Nat) (valid : engine.Valid start s) (ongoing : Ongoing s) :
    (∀ s', engine.iterate iterations s = .ok s' → engine.Valid start s' ∧ Ongoing s') ∧
      ∀ s', engine.iterate iterations s = .error s' → engine.Valid start s' := by
  induction iterations generalizing s with
  | zero =>
    refine ⟨fun s' here => ?_, fun s' here => (nomatch here)⟩
    obtain rfl := ok.inj here
    exact ⟨valid, ongoing⟩
  | succ iterations ih =>
    obtain ⟨goes, stops⟩ := sweep_valid (s := { s with changed := false }) engine.passes
      ⟨valid.leads, valid.faithful⟩ ongoing
    unfold iterate
    split
    · rename_i last here
      refine ⟨fun s' impossible => (nomatch impossible), fun s' same => ?_⟩
      obtain rfl := error.inj same
      exact stops last here
    · rename_i next here
      obtain ⟨valid', ongoing'⟩ := goes next here
      split
      · exact ih valid' ongoing'
      · refine ⟨fun s' same => ?_, fun s' impossible => (nomatch impossible)⟩
        obtain rfl := ok.inj same
        exact ⟨valid', ongoing'⟩

/-- **A run is a chain of calls from the original, and it returns what the last one left.** -/
theorem run_valid (engine : Engine) (original : ModelProto) :
    engine.Valid (engine.refresh original) (engine.run original).1 ∧
      ∀ m, (engine.run original).2 = some m →
        Ongoing (engine.run original).1 ∧ engine.normalise (engine.run original).1.model = .ok m := by
  obtain ⟨goes, stops⟩ := @iterate_valid engine { model := engine.refresh original }
    (engine.refresh original) engine.maxIterations ⟨rfl, fun k c found => by cases found⟩ fun c mem => by cases mem
  unfold run
  split
  · rename_i last here
    exact ⟨stops last here, fun m returned => nomatch returned⟩
  · rename_i last here
    obtain ⟨valid, ongoing⟩ := goes last here
    refine ⟨valid, fun m returned => ⟨ongoing, ?_⟩⟩
    revert returned
    dsimp only
    cases engine.normalise last.model with
    | error e => exact fun returned => nomatch returned
    | ok sorted => exact fun returned => congrArg ok (Option.some.inj returned)

end Engine

/-! ## The gate -/

section Gate

variable {runtime : Runtime} {original m : ModelProto} {planned : List Planned} {cases : List Case}

/-- A model gives the recorded outputs on every case. -/
def Matches (runtime : Runtime) (cases : List Case) (m : ModelProto) : Prop :=
  ∀ c ∈ cases, runtime.evaluate m c.feed = .ok c.outputs

theorem runPlanned_outputs {session : Session} (planned : List Planned) {cases : List Case}
    (ran : runPlanned session planned = .ok cases) :
    ∀ c ∈ cases, session.runFeed c.feed = .ok c.outputs := by
  induction planned generalizing cases with
  | nil =>
    obtain rfl := ok.inj ran
    exact fun c mem => absurd mem not_mem_nil
  | cons p rest ih =>
    unfold runPlanned at ran
    split at ran
    · rename_i outputs gave
      cases later : runPlanned session rest with
      | error e =>
        rw [later] at ran
        cases ran
      | ok others =>
        rw [later] at ran
        obtain rfl := ok.inj ran
        intro c mem
        rcases mem_cons.mp mem with rfl | inRest
        · exact gave
        · exact ih later c inRest
    · split at ran
      · cases ran
      · exact ih ran

/-- **The recorded outputs are the original's, and there is a case.** -/
theorem build_matches (built : Verifier.build runtime original planned = .ok cases) :
    Matches runtime cases original ∧ cases ≠ [] := by
  unfold Verifier.build at built
  split at built
  · cases built
  · rename_i session loads
    split at built
    · cases built
    · cases built
    · rename_i first rest ran
      split at built
      · cases built
      · split at built
        · cases built
        · obtain rfl := ok.inj built
          refine ⟨fun c mem => ?_, cons_ne_nil _ _⟩
          unfold Runtime.evaluate
          rw [loads]
          exact runPlanned_outputs planned ran c mem

theorem checkCases_spec {session : Session} (cases : List Case) :
    (∀ e, checkCases session cases = .error e → e ≠ [] ∧
      ∃ c ∈ cases, session.runFeed c.feed ≠ .ok c.outputs) ∧
    ∀ results, checkCases session cases = .ok results →
      ((results.all fun r => r.mismatches = []) = true ↔
        ∀ c ∈ cases, session.runFeed c.feed = .ok c.outputs) := by
  induction cases with
  | nil =>
    refine ⟨fun e here => (nomatch here), fun results here => ?_⟩
    obtain rfl := ok.inj here
    exact ⟨fun _ c mem => absurd mem not_mem_nil, fun _ => rfl⟩
  | cons c rest ih =>
    have one : (∀ e, checkCase session c = .error e → e ≠ [] ∧ session.runFeed c.feed ≠ .ok c.outputs) ∧
        ∀ r, checkCase session c = .ok r →
          (r.mismatches = [] ↔ session.runFeed c.feed = .ok c.outputs) := by
      unfold checkCase
      split
      · rename_i got gave
        refine ⟨fun e here => (nomatch here), fun r here => ?_⟩
        obtain rfl := ok.inj here
        rw [gave, compareRuns_eq_nil_iff, ok.injEq, eq_comm]
      · rename_i failed
        refine ⟨fun e here => ?_, fun r here => (nomatch here)⟩
        obtain rfl := error.inj here
        rw [failed]
        exact ⟨by decide, nofun⟩
      · rename_i e _ failed
        refine ⟨fun e here => (nomatch here), fun r here => ?_⟩
        obtain rfl := ok.inj here
        rw [failed]
        exact ⟨nofun, nofun⟩
    unfold checkCases
    split
    · rename_i e failed
      refine ⟨fun e' here => ?_, fun results here => (nomatch here)⟩
      obtain rfl := error.inj here
      obtain ⟨message, differs⟩ := one.1 e failed
      exact ⟨message, c, mem_cons_self, differs⟩
    · rename_i r gave
      have here := one.2 r gave
      cases later : checkCases session rest with
      | error e =>
        refine ⟨fun e' same => ?_, fun results impossible => (nomatch impossible)⟩
        obtain rfl := error.inj same
        obtain ⟨message, d, mem, differs⟩ := ih.1 e later
        exact ⟨message, d, mem_cons_of_mem _ mem, differs⟩
      | ok others =>
        refine ⟨fun e' impossible => (nomatch impossible), fun results same => ?_⟩
        obtain rfl := ok.inj same
        rw [all_cons, Bool.and_eq_true, decide_eq_true_eq, here, ih.2 others later, forall_mem_cons]

/-- **The gate accepts exactly the models that give the recorded outputs**, and an error of its own
has a message. -/
theorem check_spec (some_case : cases ≠ []) :
    (∀ e, Verifier.check runtime cases m = .error e → e ≠ [] ∧ ¬ Matches runtime cases m) ∧
      ∀ answer, Verifier.check runtime cases m = .ok answer →
        (answer.ok = true ↔ Matches runtime cases m) := by
  have loadless {e : Str} (failed : runtime m = .error e) : ¬ Matches runtime cases m := by
    intro all
    obtain ⟨c, mem⟩ := exists_mem_of_ne_nil cases some_case
    have gave := all c mem
    unfold Runtime.evaluate at gave
    rw [failed] at gave
    cases gave
  unfold Verifier.check
  split
  · rename_i failed
    refine ⟨fun e here => ?_, fun answer here => (nomatch here)⟩
    obtain rfl := error.inj here
    exact ⟨by decide, loadless failed⟩
  · rename_i e _ failed
    refine ⟨fun e here => (nomatch here), fun answer here => ?_⟩
    obtain rfl := ok.inj here
    exact ⟨fun no => (nomatch no), fun all => absurd all (loadless failed)⟩
  · rename_i session loads
    have means : Matches runtime cases m ↔ ∀ c ∈ cases, session.runFeed c.feed = .ok c.outputs := by
      unfold Matches Runtime.evaluate
      rw [loads]
    rw [means]
    obtain ⟨fails, answers⟩ := @checkCases_spec session cases
    cases checked : checkCases session cases with
    | error e =>
      refine ⟨fun e' here => ?_, fun answer here => (nomatch here)⟩
      obtain rfl := error.inj here
      obtain ⟨message, c, mem, differs⟩ := fails e checked
      exact ⟨message, fun all => differs (all c mem)⟩
    | ok results =>
      refine ⟨fun e here => (nomatch here), fun answer here => ?_⟩
      obtain rfl := ok.inj here
      exact answers results checked

end Gate

/-! ## The contract -/

/-- The engine goes on with the model it was given, or with one the gate has accepted. -/
def Engine.Gated (engine : Engine) (k : Nat) (c : Call) : Prop :=
  c.after = c.before ∨ ∃ n m answer, n ≠ 0 ∧ engine.call k c.pass c.before = .returned n m ∧
    engine.normalise m = .ok c.after ∧ engine.gate k c.after = .ok answer ∧
    (answer.ok = true ∨ c.pass.lossy = true ∧ onlyByteMismatches answer = true)

/-- The call leaves the outputs of the model it was given as they are, on every case. -/
def Engine.Preserves (engine : Engine) (runtime : Runtime) (cases : List Case) (k : Nat) (c : Call) :
    Prop :=
  ∃ n m sorted, engine.call k c.pass c.before = .returned n m ∧ engine.normalise m = .ok sorted ∧
    ∀ d ∈ cases, runtime.evaluate sorted d.feed = runtime.evaluate c.before d.feed

/-- Whether the last change that was kept differs from the original in values. -/
def drifted (calls : List Call) : Bool :=
  match (calls.filterMap fun c => match c.verdict with
    | .applied waived => some waived
    | _ => none).getLast? with
  | some waived => waived
  | none => false

theorem drifted_append (calls : List Call) (c : Call) :
    drifted (calls ++ [c]) = match c.verdict with
      | .applied waived => waived
      | _ => drifted calls := by
  unfold drifted
  rw [filterMap_append]
  cases verdict : c.verdict <;>
    simp [verdict]

/-- A call that reports no change leaves the model as it was. -/
def Call.Honest (c : Call) : Prop := c.verdict = .unchanged → c.after = c.before

namespace Engine

variable {engine : Engine} {k : Nat} {c : Call}

theorem Faithful.undone (faithful : engine.Faithful k c)
    (undone : c.verdict = .raised ∨ c.verdict = .reverted) : c.after = c.before := by
  cases faithful with
  | raised | reverted => rfl
  | unchanged | applied | waived | aborted => rcases undone with here | here <;> cases here

/-- **A call that did not end the run is gated if and only if it is honest.** -/
theorem Faithful.gated_iff_honest (faithful : engine.Faithful k c) (lives : c.verdict ≠ .aborted) :
    engine.Gated k c ↔ c.Honest := by
  unfold Gated Call.Honest
  cases faithful with
  | raised p m message left call => exact ⟨fun _ _ => rfl, fun _ => .inl rfl⟩
  | reverted p m m' n nonzero call refused => exact ⟨fun _ _ => rfl, fun _ => .inl rfl⟩
  | aborted p m m' sorted n nonzero call sort asked => exact absurd rfl lives
  | unchanged p m m' call =>
    refine ⟨fun gated _ => ?_, fun honest => .inl (honest rfl)⟩
    rcases gated with same | ⟨n, m'', answer, nonzero, again, -⟩
    · exact same
    · rw [call] at again
      exact absurd (Outcome.returned.inj again).1.symm nonzero
  | applied p m m' sorted n answer nonzero call sort asked ok =>
    exact ⟨nofun, fun _ => .inr ⟨n, m', answer, nonzero, call, sort, asked, .inl ok⟩⟩
  | waived p m m' sorted n answer nonzero call sort asked refused lossy bytes =>
    exact ⟨nofun, fun _ => .inr ⟨n, m', answer, nonzero, call, sort, asked, .inr ⟨lossy, bytes⟩⟩⟩

section Gate

variable {runtime : Runtime} {original m : ModelProto} {planned : List Planned} {cases : List Case}

/-- **Along honest calls a model gives the original's outputs exactly where it has not drifted.** -/
theorem matches_iff_not_drifted (built : Verifier.build runtime original planned = .ok cases)
    (answers : ∀ k m, engine.gate k m = Verifier.check runtime cases m)
    (refreshed : ∀ d ∈ cases,
      runtime.evaluate (engine.refresh original) d.feed = runtime.evaluate original d.feed)
    (calls : List Call) (leads : Leads (engine.refresh original) calls m)
    (faithful : ∀ k c, calls[k]? = some c → engine.Faithful k c) (honest : ∀ c ∈ calls, c.Honest) :
    Matches runtime cases m ↔ drifted calls = false := by
  obtain ⟨recorded, some_case⟩ := build_matches built
  induction calls using List.reverseRecOn generalizing m with
  | nil =>
    obtain rfl := leads
    exact ⟨fun _ => rfl, fun _ d mem => (refreshed d mem).trans (recorded d mem)⟩
  | append_singleton calls c ih =>
    obtain ⟨b, before, last⟩ := leads_append.mp leads
    obtain ⟨start, rfl⟩ := leads_singleton.mp last
    have earlier := ih before
      (fun k d found => faithful k d (by
        rw [getElem?_append_left (List.getElem?_eq_some_iff.mp found).1]
        exact found))
      fun d mem => honest d (mem_append_left _ mem)
    have here := faithful calls.length c (by simp)
    have truthful := honest c (mem_append_right _ (mem_singleton_self c))
    rw [drifted_append]
    subst start
    cases here with
    | raised | reverted => exact earlier
    | unchanged p m m' call =>
      have same : m' = m := truthful rfl
      rw [same]
      exact earlier
    | applied p m m' sorted n answer nonzero call sort asked ok =>
      rw [answers] at asked
      exact ⟨fun _ => rfl, fun _ => ((check_spec some_case).2 answer asked).mp ok⟩
    | waived p m m' sorted n answer nonzero call sort asked refused lossy bytes =>
      rw [answers] at asked
      refine ⟨fun all => ?_, fun no => (nomatch no)⟩
      rw [((check_spec some_case).2 answer asked).mpr all] at refused
      cases refused
    | aborted p m m' sorted n nonzero call sort asked =>
      rw [answers] at asked
      exact absurd rfl ((check_spec some_case).1 _ asked).1

/-- **Given a model that has not drifted, a lossless call that preserves the outputs is kept.** -/
theorem Faithful.not_reverted_iff (answers : ∀ k m, engine.gate k m = Verifier.check runtime cases m)
    (some_case : cases ≠ []) (faithful : engine.Faithful k c) (lossless : c.pass.lossy = false)
    (preserves : engine.Preserves runtime cases k c) :
    c.verdict ≠ .reverted ↔ c.verdict = .unchanged ∨ Matches runtime cases c.before := by
  obtain ⟨n', m'', sorted', call', sort', outputs⟩ := preserves
  have same : Matches runtime cases sorted' ↔ Matches runtime cases c.before :=
    forall₂_congr fun d mem => by rw [outputs d mem]
  rw [← same]
  cases faithful with
  | raised p m message left call =>
    rw [call] at call'
    cases call'
  | unchanged p m m' call => exact ⟨fun _ => .inl rfl, fun _ => nofun⟩
  | applied p m m' sorted n answer nonzero call sort asked ok =>
    rw [call] at call'
    obtain ⟨-, rfl⟩ := Outcome.returned.inj call'
    rw [sort] at sort'
    obtain rfl := Except.ok.inj sort'
    rw [answers] at asked
    exact ⟨fun _ => .inr (((check_spec some_case).2 answer asked).mp ok), fun _ => nofun⟩
  | waived p m m' sorted n answer nonzero call sort asked refused lossy bytes =>
    rw [lossless] at lossy
    cases lossy
  | reverted p m m' n nonzero call refused =>
    refine ⟨fun no => absurd rfl no, fun kept => ?_⟩
    rcases kept with no | all
    · cases no
    · rw [call] at call'
      obtain ⟨-, rfl⟩ := Outcome.returned.inj call'
      cases checked : Verifier.check runtime cases sorted' with
      | error e => exact absurd all ((check_spec some_case).1 e checked).2
      | ok answer =>
        have no := refused sorted' answer sort' ((answers k sorted').trans checked)
        rw [((check_spec some_case).2 answer checked).mpr all] at no
        cases no
  | aborted p m m' sorted n nonzero call sort asked =>
    rw [answers] at asked
    exact absurd rfl ((check_spec some_case).1 _ asked).1

end Gate

/-! ## The result -/

/-- **A run is a chain of calls whose undone ones leave no trace.  It keeps checked changes only if
and only if the calls that report no change make none; and lossless calls that preserve the outputs
are kept as well if and only if none of them is made on a model that a waiver has let drift.** -/
theorem run_checked (engine : Engine) (original : ModelProto) :
    Leads (engine.refresh original) (engine.run original).1.calls (engine.run original).1.model ∧
    (∀ c ∈ (engine.run original).1.calls,
      c.verdict = .raised ∨ c.verdict = .reverted → c.after = c.before) ∧
    (∀ m, (engine.run original).2 = some m →
      engine.normalise (engine.run original).1.model = .ok m ∧
        ((∀ k c, (engine.run original).1.calls[k]? = some c → engine.Gated k c) ↔
          ∀ c ∈ (engine.run original).1.calls, c.Honest)) ∧
    ∀ (runtime : Runtime) (planned : List Planned) (cases : List Case),
      Verifier.build runtime original planned = .ok cases →
      (∀ k m, engine.gate k m = Verifier.check runtime cases m) →
      (∀ d ∈ cases,
        runtime.evaluate (engine.refresh original) d.feed = runtime.evaluate original d.feed) →
      ((∀ k c, (engine.run original).1.calls[k]? = some c → engine.Gated k c ∧
          (c.pass.lossy = false → engine.Preserves runtime cases k c → c.verdict ≠ .reverted)) ↔
        ∀ k c, (engine.run original).1.calls[k]? = some c → c.Honest ∧
          (c.pass.lossy = false → engine.Preserves runtime cases k c → c.verdict ≠ .unchanged →
            drifted ((engine.run original).1.calls.take k) = false)) := by
  obtain ⟨valid, returns⟩ := run_valid engine original
  generalize (engine.run original).1 = s at valid returns ⊢
  refine ⟨valid.leads, fun c mem => ?_, fun m returned => ?_,
    fun runtime planned cases built answers refreshed => ?_⟩
  · obtain ⟨k, found⟩ := mem_iff_getElem?.mp mem
    exact (valid.faithful k c found).undone
  · obtain ⟨ongoing, sorted⟩ := returns m returned
    refine ⟨sorted, fun gated c mem => ?_, fun honest k c found => ?_⟩
    · obtain ⟨k, found⟩ := mem_iff_getElem?.mp mem
      exact ((valid.faithful k c found).gated_iff_honest (ongoing c mem)).mp (gated k c found)
    · have mem := mem_of_getElem? found
      exact ((valid.faithful k c found).gated_iff_honest (ongoing c mem)).mpr (honest c mem)
  · obtain ⟨-, some_case⟩ := build_matches built
    have lives {k : Nat} {c : Call} (found : s.calls[k]? = some c) : c.verdict ≠ .aborted := by
      have faithful := valid.faithful k c found
      cases faithful with
      | aborted p m m' sorted n nonzero call sort asked =>
        rw [answers] at asked
        exact absurd rfl ((check_spec some_case).1 _ asked).1
      | _ => nofun
    -- the model a call is given has drifted or matches, once all calls are honest
    have matchesBefore (honest : ∀ c ∈ s.calls, c.Honest) {k : Nat} {c : Call}
        (found : s.calls[k]? = some c) :
        Matches runtime cases c.before ↔ drifted (s.calls.take k) = false := by
      obtain ⟨inside, rfl⟩ := List.getElem?_eq_some_iff.mp found
      have split : s.calls = s.calls.take k ++ s.calls[k] :: s.calls.drop (k + 1) := by
        rw [← drop_eq_getElem_cons inside, take_append_drop]
      have leads := valid.leads
      rw [split] at leads
      obtain ⟨b, before, here, -⟩ := leads_append.mp leads
      rw [← here] at before
      refine matches_iff_not_drifted built answers refreshed _ before (fun j d at_j => ?_)
        fun d mem => honest d (mem_of_mem_take mem)
      rw [getElem?_take] at at_j
      split at at_j
      · exact valid.faithful j d at_j
      · cases at_j
    constructor
    · intro kept
      have honest : ∀ c ∈ s.calls, c.Honest := by
        intro c mem
        obtain ⟨k, found⟩ := mem_iff_getElem?.mp mem
        exact ((valid.faithful k c found).gated_iff_honest (lives found)).mp (kept k c found).1
      refine fun k c found => ⟨honest c (mem_of_getElem? found),
        fun lossless preserves changes => ?_⟩
      rw [← matchesBefore honest found]
      exact (((valid.faithful k c found).not_reverted_iff answers some_case lossless preserves).mp
        ((kept k c found).2 lossless preserves)).resolve_left changes
    · intro contract
      have honest : ∀ c ∈ s.calls, c.Honest := by
        intro c mem
        obtain ⟨k, found⟩ := mem_iff_getElem?.mp mem
        exact (contract k c found).1
      refine fun k c found => ⟨((valid.faithful k c found).gated_iff_honest (lives found)).mpr
        (contract k c found).1, fun lossless preserves => ?_⟩
      rw [(valid.faithful k c found).not_reverted_iff answers some_case lossless preserves,
        or_iff_not_imp_left, matchesBefore honest found]
      exact (contract k c found).2 lossless preserves

end Engine

/-- The model of a sum that an identity precedes. -/
def identitySum : ModelProto where
  graph := {
    nodes := [{ opType := str "Identity", inputs := [str "x"], outputs := [str "a"] },
      { opType := str "Add", inputs := [str "a", str "w"], outputs := [str "y"] }]
    inputs := [⟨str "x", []⟩]
    outputs := [⟨str "y", []⟩]
    initializers := [(str "w", { dtype := str "float32", shape := [1], bytes := [0, 0, 128, 63] })] }

/-- A runtime that passes the weight on to the output. -/
def weightRuntime : Runtime := fun m => .ok
  { inputNames := [str "x"]
    run := fun _ => .ok ((∅ : Arrays).insert (str "y") ((m.graph.constArray (str "w")).getD {})) }

def oneCase : List Planned :=
  [{ label := str "random[0] dyn=1", hard := true
     feed := (∅ : Arrays).insert (str "x") { dtype := str "float32", shape := [1] } }]

def recordedCase : List Case := (Verifier.build weightRuntime identitySum oneCase).toOption.getD []

/-- An engine with one pass, which removes the identity. -/
def removing : Engine where
  passes := [{ name := str "remove-identity" }]
  maxIterations := 10
  refresh := id
  call _ _ m :=
    match m.graph.tryBypass 0 [] with
    | some g => if m.graph.nodes.length = 2 then .returned 1 { m with graph := g } else .returned 0 m
    | none => .returned 0 m
  gate _ m := Verifier.check weightRuntime recordedCase m

theorem run_checked_removing :
    (removing.run identitySum).1.calls.map Call.verdict = [.applied false, .unchanged] ∧
      ∀ k c, (removing.run identitySum).1.calls[k]? = some c → removing.Gated k c ∧
        (c.pass.lossy = false → removing.Preserves weightRuntime recordedCase k c →
          c.verdict ≠ .reverted) := by
  have built : Verifier.build weightRuntime identitySum oneCase = .ok recordedCase := by
    have loads : (Verifier.build weightRuntime identitySum oneCase).isOk = true := by decide
    unfold recordedCase
    revert loads
    cases Verifier.build weightRuntime identitySum oneCase with
    | error e => exact fun no => nomatch no
    | ok cases => exact fun _ => rfl
  have verdicts : (removing.run identitySum).1.calls.map Call.verdict =
      [.applied false, .unchanged] := by decide
  have length : (removing.run identitySum).1.calls.length = 2 := by
    rw [← length_map Call.verdict, verdicts]
    rfl
  have honest : ∀ c ∈ (removing.run identitySum).1.calls,
      c.verdict = .unchanged → c.after = c.before := by decide
  have still : ∀ k < 2, drifted ((removing.run identitySum).1.calls.take k) = false := by
    decide
  refine ⟨verdicts, ((Engine.run_checked removing identitySum).2.2.2 weightRuntime oneCase
    recordedCase built (fun _ _ => rfl) fun _ _ => rfl).mpr fun k c found =>
      ⟨honest c (mem_of_getElem? found), fun _ _ _ => still k ?_⟩⟩
  rw [← length]
  exact (List.getElem?_eq_some_iff.mp found).1

/-- A batch normalization whose output the branch of a conditional reads. -/
def captured : ModelProto where
  graph := {
    nodes := [{ opType := str "Conv", inputs := [str "x", str "w"], outputs := [str "a"] },
      { opType := str "BatchNormalization", epsilon := some 0, outputs := [str "y"]
        inputs := [str "a", str "scale", str "shift", str "mean", str "var"] },
      { opType := str "If", inputs := [str "c"], outputs := [str "z"], bodyReads := [str "y"],
        bodyNames := [str "y", str "t"] }]
    inputs := [⟨str "x", []⟩, ⟨str "c", []⟩]
    outputs := [⟨str "z", []⟩]
    initializers := [
      (str "w", { dtype := str "float32", shape := [1, 1, 1, 1], bytes := [0, 0, 128, 63] }),
      (str "scale", { dtype := str "float32", shape := [1], bytes := [0, 0, 0, 64] }),
      (str "shift", { dtype := str "float32", shape := [1], bytes := [0, 0, 0, 0] }),
      (str "mean", { dtype := str "float32", shape := [1], bytes := [0, 0, 0, 0] }),
      (str "var", { dtype := str "float32", shape := [1], bytes := [0, 0, 128, 63] })] }

/-- What a scale of two over a variance of one makes of a weight of one and no bias. -/
def doubling : FoldConvBatchnorm.Arithmetic := fun _ weights _ _ =>
  .ok ({ weights with bytes := [0, 0, 0, 64] },
    { dtype := weights.dtype, shape := [1], bytes := [0, 0, 0, 0] })

/-- An engine that folds batch normalizations. -/
def folding : Engine where
  passes := [{ name := str "fold-conv-batchnorm", lossy := true }]
  maxIterations := 10
  refresh := id
  call _ _ m :=
    match FoldConvBatchnorm.run doubling m with
    | .ok (changes, m) => .returned changes m
    | .error (message, m) => .raised message m
  gate _ _ := .ok { ok := true }

/-- The weight is folded, the batch normalization stays, and the gate is never asked. -/
theorem captured_not_gated :
    ¬ ∀ k c, (folding.run captured).1.calls[k]? = some c → folding.Gated k c := by
  intro gated
  have verdict : (folding.run captured).1.calls.map (fun c => (c.verdict, decide (c.after = c.before)))
      = [(.unchanged, false)] := by decide
  obtain ⟨valid, -⟩ := Engine.run_valid folding captured
  cases calls : (folding.run captured).1.calls with
  | nil =>
    rw [calls] at verdict
    cases verdict
  | cons c rest =>
    rw [calls] at verdict
    have first := head_eq_of_cons_eq verdict
    obtain ⟨kept, changed⟩ := mk.inj first
    have found : (folding.run captured).1.calls[0]? = some c := by
      rw [calls]
      rfl
    have lives : c.verdict ≠ .aborted := by
      rw [kept]
      nofun
    have honest := ((valid.faithful 0 c found).gated_iff_honest lives).mp (gated 0 c found)
    exact of_decide_eq_false changed (honest kept)

end Vknn.OnnxOptimizer
