import Vknn.Decode.Fold

/-!
# Speculative decoding

The plain loop feeds one token, folds its row into the cache and takes the next
token from the pass.  The speculative loop feeds a whole window, the next token
and a number of guesses, keeps the guesses the pass itself confirms, and folds
the rows of the tokens it keeps before the next pass.  What guesses are made, and
how many in a round, is up to the caller.

The target is given by what a pass produces.  Its one assumption is the one the
rules rest on: the row and the next token of a position depend on the rows before
it and the token there, not on how many tokens share the pass.

The main result is that both loops emit the same tokens, stop at the same
position and leave the same cache, whatever is guessed.
-/

namespace Vknn.Decode

open RowStore List Prod Nat Int Or

abbrev Token := Int

/-! ## The target -/

section Columns

variable {heads width : Nat} {α : Type}

/-- What the tokens of a window produce one after the other: a row and a next token each. -/
def columns (column : List (Row heads width α) → Nat → Token → Row heads width α × Token) :
    List (Row heads width α) → Nat → List Token → List (Row heads width α × Token)
  | _, _, [] => []
  | live, position, token :: tokens =>
    column live position token ::
      columns column (live ++ [(column live position token).1]) (position + 1) tokens

end Columns

/-- The rows of the cache a pass at a position sees: those the attention mask marks. -/
def liveRows {heads width : Nat} {α : Type} (ctx : Nat) (past : Nat → α) (p : Nat) :
    List (Row heads width α) :=
  rows heads ctx width past (min p ctx)

/-- A target decoder.  A pass over a window of tokens takes the cache and the position of the first
token; it gives a present output, whose last rows are those of the window, and the most likely
token after each.  A window of any width produces what its tokens produce one after the other on
the live rows. -/
structure Target (heads ctx width : Nat) (α : Type) where
  column : List (Row heads width α) → Nat → Token → Row heads width α × Token
  presentRows : Nat → Nat
  forward : (Nat → α) → Nat → List Token → (Nat → α) × List Token
  wide : ∀ window, window ≤ presentRows window
  forward_rows : ∀ past position tokens,
    (List.range tokens.length).map (fun j =>
      rowAt heads (presentRows tokens.length) width (forward past position tokens).1
        (presentRows tokens.length - tokens.length + j)) =
      (columns column (liveRows ctx past position) position tokens).map fst
  forward_tokens : ∀ past position tokens,
    (forward past position tokens).2 =
      (columns column (liveRows ctx past position) position tokens).map snd

variable {heads ctx width : Nat} {α : Type}

/-- A decoder on the host: its cache, the position its live rows end at, and the most likely
next token. -/
structure HostDecoder (α : Type) where
  past : Nat → α
  p : Nat
  next : Token

section Loops

variable (target : Target heads ctx width α)

/-! ## The plain loop -/

def hostStep (d : HostDecoder α) (token : Token) : HostDecoder α :=
  let out := target.forward d.past d.p [token]
  let slot := if d.p < ctx then d.p else ctx - 1
  { past := copyRows heads (target.presentRows 1) ctx width out.1 (target.presentRows 1 - 1) slot 1
      d.past
    p := d.p + 1
    next := out.2.headD 0 }

/-- Decode at most a number of tokens, one at a time. -/
def plainDecode (eos : Token) : Nat → HostDecoder α → List Token × HostDecoder α
  | 0, d => ([], d)
  | budget + 1, d =>
    if d.next = eos then ([], d)
    else
      let rest := plainDecode eos budget (hostStep target d d.next)
      (d.next :: rest.1, rest.2)

/-! ## The speculative loop -/

/-- The number of leading guesses the target confirms. -/
def specAcceptedDrafts : List Token → List Token → Nat
  | draft :: drafts, token :: targetArgMax =>
    if draft = token then specAcceptedDrafts drafts targetArgMax + 1 else 0
  | _, _ => 0

/-- The number of committed tokens a turn emits: those before the end of the stream and within the
budget. -/
def specEmittedCount (committed : List Token) (eos : Token) (budget : Int) : Int :=
  let emitted : Int := if (committed.length : Int) < budget then committed.length else budget
  match (committed.take emitted.toNat).findIdx? fun token => token = eos with
  | some i => i
  | none => emitted

/-- The state between two rounds.  The rows of the last round that count are still in the present
output; the next round folds them. -/
structure SpecState (α : Type) where
  p : Nat
  next : Token
  tokens : List Token := []
  resident : Nat → α
  present : Nat → α
  pendSlot : Int := -1
  pendRows : Nat := 0
  pendWindow : Nat := 0
  ranAny : Bool := false
  turnDone : Bool := false

/-- The cache a round starts from, with the pending rows folded. -/
def foldedPast (host : Nat → α) (s : SpecState α) : Nat → α :=
  copyLinkRanges s.present
    (specVerifyFoldRanges heads (target.presentRows s.pendWindow) ctx width s.pendWindow s.pendSlot
      s.pendRows)
    (if s.ranAny then s.resident else host)

/-- One round: verify the guesses in one pass and keep those it confirms. -/
def specRound (host : Nat → α) (eos : Token) (budget : Int) (proposals : List Token)
    (s : SpecState α) : SpecState α :=
  let window := proposals.length + 1
  let past := foldedPast target host s
  let out := target.forward past s.p (s.next :: proposals)
  let accepted := specAcceptedDrafts proposals out.2
  let committed := s.next :: proposals.take accepted
  let emitted := (specEmittedCount committed eos (budget - s.tokens.length)).toNat
  { p := s.p + emitted
    next := if emitted < committed.length then s.next else out.2.getD accepted 0
    tokens := s.tokens ++ committed.take emitted
    resident := past
    present := out.1
    pendSlot := s.p
    pendRows := emitted
    pendWindow := window
    ranAny := true
    turnDone := emitted < committed.length }

/-- Whether another round follows: the turn goes on, and the window fits the context. -/
def continues (ctx : Nat) (eos : Token) (budget : Int) (proposals : List Token) (s : SpecState α) : Bool :=
  !s.turnDone && (s.tokens.length : Int) < budget && s.next ≠ eos &&
    s.p + (proposals.length + 1) ≤ ctx

def SpecState.opening (d : HostDecoder α) : SpecState α :=
  { p := d.p, next := d.next, resident := d.past, present := d.past }

/-- The rounds, with the guesses of each given by its number, the next token and the position.
Rounds that run out of fuel give nothing. -/
def specRounds (host : Nat → α) (eos : Token) (budget : Int)
    (propose : Nat → Token → Nat → List Token) : Nat → Nat → SpecState α → Option (SpecState α)
  | 0, round, s => if continues ctx eos budget (propose round s.next s.p) s then none else some s
  | fuel + 1, round, s =>
    let proposals := propose round s.next s.p
    if continues ctx eos budget proposals s then
      specRounds host eos budget propose fuel (round + 1)
        (specRound target host eos budget proposals s)
    else some s

/-- The cache at the end of the rounds: the resident one and the rows still pending. -/
def materialize (host : Nat → α) (s : SpecState α) : Nat → α :=
  if s.ranAny then
    if s.pendRows > 0 then
      copyRows heads (target.presentRows s.pendWindow) ctx width s.present
        (target.presentRows s.pendWindow - s.pendWindow) s.pendSlot.toNat s.pendRows s.resident
    else s.resident
  else host

/-- A turn: rounds, then the plain loop for what the context edge cut off. -/
def specDecode (eos : Token) (budget : Int) (propose : Nat → Token → Nat → List Token)
    (d : HostDecoder α) : Option (List Token × HostDecoder α) :=
  (specRounds target d.past eos budget propose budget.toNat 0 (SpecState.opening d)).map fun s =>
    let after : HostDecoder α := ⟨materialize target d.past s, s.p, s.next⟩
    if s.turnDone then (s.tokens, after)
    else
      let rest := plainDecode target eos (budget - s.tokens.length).toNat after
      (s.tokens ++ rest.1, rest.2)

end Loops

/-! ## Windows -/

section Columns

variable (column : List (Row heads width α) → Nat → Token → Row heads width α × Token)

@[simp] theorem length_columns (live : List (Row heads width α)) (position : Nat)
    (tokens : List Token) : (columns column live position tokens).length = tokens.length := by
  induction tokens generalizing live position with
  | nil => rfl
  | cons token tokens ih => rw [columns, length_cons, ih, length_cons]

/-- What a token of a window produces does not depend on the tokens after it. -/
theorem columns_take (live : List (Row heads width α)) (position : Nat) (tokens : List Token)
    (m : Nat) :
    columns column live position (tokens.take m) = (columns column live position tokens).take m := by
  induction tokens generalizing live position m with
  | nil => simp [columns]
  | cons token tokens ih =>
    cases m with
    | zero => rfl
    | succ m => rw [take_succ_cons, columns, columns, take_succ_cons, ih]

end Columns

/-! ## Feeding tokens one at a time -/

section Feed

variable (target : Target heads ctx width α)

theorem liveRows_of_le {past : Nat → α} {p : Nat} (fits : p ≤ ctx) :
    (liveRows ctx past p : List (Row heads width α)) = rows heads ctx width past p := by
  rw [liveRows, min_eq_left fits]

/-- The rows of a pass that a fold takes from its first one on. -/
theorem copyRows_forward (dst past : Nat → α) (position : Nat) (tokens : List Token)
    {slot m : Nat} (few : m ≤ tokens.length) (fits : slot + m ≤ ctx) :
    copyRows heads (target.presentRows tokens.length) ctx width
      (target.forward past position tokens).1 (target.presentRows tokens.length - tokens.length)
      slot m dst =
    write ctx dst slot (((columns target.column (liveRows ctx past position) position
      tokens).map fst).take m) := by
  rw [copyRows_eq_write fits, ← target.forward_rows, ← map_take, take_range, min_eq_left few]

variable {d start : HostDecoder α} {tokens : List Token} {eos : Token} {budget : Int}
  {s : SpecState α}

/-- **Feeding a token below the context edge** writes its row at its position. -/
theorem hostStep_eq (token : Token) (fits : d.p < ctx) : hostStep target d token =
      { past := write ctx d.past d.p
          [(target.column (rows heads ctx width d.past d.p) d.p token).1]
        p := d.p + 1
        next := (target.column (rows heads ctx width d.past d.p) d.p token).2 } := by
  have folded := copyRows_forward target d.past d.past d.p [token]
    (m := 1) le_rfl fits
  simp only [length_singleton] at folded
  unfold hostStep
  rw [if_pos fits]
  dsimp only
  rw [folded, target.forward_tokens, liveRows_of_le fits.le]
  rfl

def feed (d : HostDecoder α) (tokens : List Token) : HostDecoder α :=
  tokens.foldl (hostStep target) d

theorem feed_append (d : HostDecoder α) (tokens later : List Token) :
    feed target d (tokens ++ later) = feed target (feed target d tokens) later :=
  foldl_append

@[simp] theorem feed_position (d : HostDecoder α) (tokens : List Token) :
    (feed target d tokens).p = d.p + tokens.length := by
  induction tokens generalizing d with
  | nil => rfl
  | cons token tokens ih =>
    change (feed target (hostStep target d token) tokens).p = _
    rw [ih, length_cons, add_comm tokens.length, ← add_assoc]
    rfl

/-- **Feeding tokens below the context edge** writes the rows of their window. -/
theorem feed_past (tokens : List Token) (fits : d.p + tokens.length ≤ ctx) :
    (feed target d tokens).past = write ctx d.past d.p
      ((columns target.column (rows heads ctx width d.past d.p) d.p tokens).map fst) := by
  induction tokens generalizing d with
  | nil => exact (write_nil _ _).symm
  | cons token tokens ih =>
    rw [length_cons] at fits
    have here := hostStep_eq target (d := d) token (by omega)
    have after : (hostStep target d token).p = d.p + 1 := rfl
    have past := ih (d := hostStep target d token) (by rw [after]; omega)
    have seen := rows_write d.past d.p
      [(target.column (rows heads ctx width d.past d.p) d.p token).1]
      (show d.p + 1 ≤ ctx by omega)
    rw [length_singleton] at seen
    change (feed target (hostStep target d token) tokens).past = _
    rw [past, here]
    simp only [seen]
    rw [columns, map_cons]
    exact write_write

/-- Feeding tokens below the context edge appends their rows to the live ones. -/
theorem rows_feed (fits : d.p + tokens.length ≤ ctx) :
    rows heads ctx width (feed target d tokens).past (d.p + tokens.length) =
      rows heads ctx width d.past d.p ++
        (columns target.column (rows heads ctx width d.past d.p) d.p tokens).map fst := by
  have room : d.p + ((columns target.column (rows heads ctx width d.past d.p) d.p tokens).map
      fst).length ≤ ctx := by
    rw [length_map, length_columns]
    exact fits
  have seen := rows_write d.past d.p _ room
  rw [length_map, length_columns] at seen
  rw [feed_past target tokens fits, seen]

/-- Each token is the most likely one after those before it. -/
def Chained (d : HostDecoder α) : List Token → Prop
  | [] => True
  | token :: tokens => d.next = token ∧ Chained (hostStep target d token) tokens

theorem Chained.take {d : HostDecoder α} {tokens : List Token}
    (chained : Chained target d tokens) (m : Nat) :
    Chained target d (tokens.take m) := by
  induction tokens generalizing d m with
  | nil => rw [take_nil]; exact chained
  | cons token tokens ih =>
    cases m with
    | zero => trivial
    | succ m => exact ⟨chained.1, ih chained.2 m⟩

/-- After feeding a part of a chain, the next token is the one that follows. -/
theorem Chained.next_feed
    (chained : Chained target d tokens) {m : Nat} (small : m < tokens.length) :
    (feed target d (tokens.take m)).next = tokens[m] := by
  induction tokens generalizing d m with
  | nil => cases small
  | cons token tokens ih =>
    cases m with
    | zero => exact chained.1
    | succ m => exact ih chained.2 (lt_of_succ_lt_succ small)

/-- **The plain loop feeds a chain that does not end the stream**, and goes on after it. -/
theorem plainDecode_chained
    (chained : Chained target d tokens) (going : eos ∉ tokens) (budget : Nat) :
    plainDecode target eos (tokens.length + budget) d =
      (tokens ++ (plainDecode target eos budget (feed target d tokens)).1,
        (plainDecode target eos budget (feed target d tokens)).2) := by
  induction tokens generalizing d with
  | nil => simp [feed]
  | cons token tokens ih =>
    obtain ⟨rfl, later⟩ := chained
    have notEnd : d.next ≠ eos := fun same => going (same ▸ mem_cons_self)
    rw [length_cons, add_right_comm, plainDecode, if_neg notEnd,
      ih later fun mem => going (mem_cons_of_mem _ mem)]
    rfl

/-- **The tokens a round commits are a chain**: the next token, and the guesses that the pass
confirms; and the pass gives the token after them. -/
theorem chained_committed (drafts : List Token)
    (fits : d.p + (drafts.length + 1) ≤ ctx) :
    let confirmed := (columns target.column (rows heads ctx width d.past d.p) d.p
      (d.next :: drafts)).map snd
    let accepted := specAcceptedDrafts drafts confirmed
    accepted ≤ drafts.length ∧ Chained target d (d.next :: drafts.take accepted) ∧
      (feed target d (d.next :: drafts.take accepted)).next = confirmed.getD accepted 0 := by
  induction drafts generalizing d with
  | nil =>
    have here := hostStep_eq target (d := d) d.next (lt_of_succ_le fits)
    refine ⟨zero_le _, ⟨rfl, trivial⟩, ?_⟩
    change (hostStep target d d.next).next = _
    rw [here]
    rfl
  | cons draft drafts ih =>
    rw [length_cons] at fits
    have here := hostStep_eq target (d := d) d.next (by omega)
    generalize next : hostStep target d d.next = d' at here
    have seen := rows_write d.past d.p
      [(target.column (rows heads ctx width d.past d.p) d.p d.next).1]
      (show d.p + 1 ≤ ctx by omega)
    rw [length_singleton] at seen
    rw [columns, map_cons]
    dsimp only
    rw [specAcceptedDrafts]
    by_cases confirmed : draft = (target.column (rows heads ctx width d.past d.p) d.p d.next).2
    · have sameNext : d'.next = draft := by rw [here, confirmed]
      have live : rows heads ctx width d'.past d'.p = rows heads ctx width d.past d.p ++
          [(target.column (rows heads ctx width d.past d.p) d.p d.next).1] := by
        rw [here]
        exact seen
      have position : d'.p = d.p + 1 := by rw [here]
      have rest := ih (d := d') (by rw [position]; omega)
      rw [sameNext, live, position] at rest
      obtain ⟨few, chained, after⟩ := rest
      simp only [if_pos confirmed]
      refine ⟨succ_le_succ few, ⟨rfl, ?_⟩, ?_⟩
      · rw [next, take_succ_cons]
        exact chained
      · rw [take_succ_cons, getD_cons_succ]
        change (feed target (hostStep target d d.next) _).next = _
        rw [next]
        exact after
    · simp only [if_neg confirmed]
      refine ⟨zero_le _, ⟨rfl, trivial⟩, ?_⟩
      change (hostStep target d d.next).next = _
      rw [next, here]
      rfl

/-! ## Rounds -/

/-- **What a round emits**: at least one token, no end of the stream, no more than the budget; and
it stops short only at one of the two. -/
theorem specEmittedCount_spec (committed : List Token) (eos : Token)
    (positive : 0 < budget) (going : ∃ token tokens, committed = token :: tokens ∧ token ≠ eos) :
    ∃ m : Nat, specEmittedCount committed eos budget = m ∧ 1 ≤ m ∧ m ≤ committed.length ∧
      (m : Int) ≤ budget ∧ eos ∉ committed.take m ∧
      (m < committed.length → (m : Int) = budget ∨ committed[m]? = some eos) := by
  obtain ⟨token, tokens, rfl, notEnd⟩ := going
  obtain ⟨budget, rfl⟩ := eq_ofNat_of_zero_le positive.le
  have cut : (if (((token :: tokens).length : Nat) : Int) < budget then
      (((token :: tokens).length : Nat) : Int) else budget) =
      (min (token :: tokens).length budget : Nat) := by
    split
    · omega
    · omega
  have some : 1 ≤ min (token :: tokens).length budget := by
    rw [length_cons]
    omega
  unfold specEmittedCount
  rw [cut]
  dsimp only
  rw [toNat_natCast]
  generalize bound : min (token :: tokens).length budget = n at *
  cases found : ((token :: tokens).take n).findIdx? fun t => t = eos with
  | none =>
    refine ⟨n, rfl, some, by omega, by omega, fun mem => ?_, fun short => by omega⟩
    have absent := findIdx?_eq_none_iff.mp found eos mem
    simp at absent
  | some i =>
    obtain ⟨small, ends, before⟩ := findIdx?_eq_some_iff_getElem.mp found
    have short : i < n ∧ i < (token :: tokens).length := by
      rw [length_take] at small
      omega
    rw [getElem_take, decide_eq_true_eq] at ends
    refine ⟨i, rfl, ?_, short.2.le, by omega, fun mem => ?_, fun _ => inr ?_⟩
    · cases i with
      | zero => exact absurd ends notEnd
      | succ i => exact succ_le_succ (zero_le i)
    · obtain ⟨j, inside, same⟩ := getElem_of_mem mem
      rw [length_take] at inside
      have earlier := before j (by omega)
      rw [getElem_take] at same earlier
      simp [same] at earlier
    · rw [getElem?_eq_getElem short.2, ends]

def remaining (budget : Int) (s : SpecState α) : Nat := (budget - s.tokens.length).toNat

/-- **A state of the speculative loop tracks a decoder of the plain loop**: the plain loop has
emitted the same tokens and stands at the same position, and its cache is the resident one with
the pending rows. -/
structure Tracks (start : HostDecoder α) (eos : Token) (budget : Int) (s : SpecState α)
    (d : HostDecoder α) : Prop where
  fed : d = feed target start s.tokens
  room : s.tokens = [] ∨ start.p + s.tokens.length ≤ ctx
  decoded : plainDecode target eos budget.toNat start =
    (s.tokens ++ (plainDecode target eos (remaining budget s) d).1,
      (plainDecode target eos (remaining budget s) d).2)
  position : d.p = s.p
  cache : materialize target start.past s = d.past
  pending : s.pendRows = 0 ∨ ∃ slot : Nat, s.pendSlot = slot
  fresh : s.ranAny = false → s.pendRows = 0
  next : s.turnDone = false → d.next = s.next
  ended : s.turnDone = true → plainDecode target eos (remaining budget s) d = ([], d)

/-- A round starts from the cache as it would be left at the end. -/
theorem foldedPast_eq_materialize (host : Nat → α)
    (pending : s.pendRows = 0 ∨ ∃ slot : Nat, s.pendSlot = slot)
    (fresh : s.ranAny = false → s.pendRows = 0) :
    foldedPast target host s = materialize target host s := by
  unfold foldedPast materialize
  rcases pending with none | ⟨slot, atSlot⟩
  · rw [none, Nat.cast_zero, copyLinkRanges_specVerifyFoldRanges_none]
    rfl
  · rw [atSlot, copyLinkRanges_specVerifyFoldRanges _ _ (target.wide s.pendWindow), toNat_natCast]
    cases ran : s.ranAny with
    | false => simp [fresh ran]
    | true =>
      rcases Nat.eq_zero_or_pos s.pendRows with none | some
      · simp [none]
      · simp [some, Nat.pos_iff_ne_zero.mp some]

/-- **One round tracks the plain loop.** -/
theorem Tracks.specRound
    (tracks : Tracks target start eos budget s d)
    {proposals : List Token} (goes : continues ctx eos budget proposals s = true) :
    let s' := Decode.specRound target start.past eos budget proposals s
    s.tokens.length < s'.tokens.length ∧ ∃ d', Tracks target start eos budget s' d' := by
  simp only [continues, Bool.and_eq_true, Bool.not_eq_true', decide_eq_true_eq, ne_eq,
    decide_not] at goes
  obtain ⟨⟨⟨notDone, within⟩, notEnd⟩, fits⟩ := goes
  have next := tracks.next notDone
  have position := tracks.position
  have room : d.p + (proposals.length + 1) ≤ ctx := by rw [position]; exact fits
  obtain ⟨few, chained, after⟩ := chained_committed target (d := d) proposals room
  -- The pass of the round sees the cache of the plain loop.
  have past : foldedPast target start.past s = d.past := by
    rw [foldedPast_eq_materialize target start.past tracks.pending tracks.fresh, tracks.cache]
  have live : (liveRows ctx d.past d.p : List (Row heads width α)) =
      rows heads ctx width d.past d.p := liveRows_of_le (by omega)
  unfold Decode.specRound
  rw [past]
  dsimp only
  rw [← position, ← next, target.forward_tokens, live]
  generalize confirmed : (columns target.column (rows heads ctx width d.past d.p) d.p
    (d.next :: proposals)).map snd = tokens at *
  generalize accepted : specAcceptedDrafts proposals tokens = a at *
  generalize committed : d.next :: proposals.take a = cs at *
  have prefixes : cs = (d.next :: proposals).take (a + 1) := by rw [← committed, take_succ_cons]
  have length : cs.length = a + 1 := by rw [← committed, length_cons, length_take, min_eq_left few]
  obtain ⟨m, emits, some, most, inBudget, going, short⟩ := specEmittedCount_spec
    cs eos (show 0 < budget - s.tokens.length by omega)
    ⟨d.next, _, committed.symm, by rw [next]; simpa using notEnd⟩
  rw [emits, toNat_natCast]
  have partChained := chained.take target m
  have partLength : (cs.take m).length = m := by rw [length_take]; omega
  have fedPast := feed_past target (d := d) (cs.take m) (by rw [partLength]; omega)
  have split : remaining budget s = m + (remaining budget s - m) := by
    have : m ≤ remaining budget s := by unfold remaining; omega
    omega
  have later : (budget - ((s.tokens ++ cs.take m).length : Nat)).toNat = remaining budget s - m := by
    unfold remaining
    rw [length_append, partLength]
    push_cast
    omega
  have grown : (s.tokens ++ cs.take m).length = s.tokens.length + m := by
    rw [length_append, partLength]
  refine ⟨by rw [grown]; omega, feed target d (cs.take m), ?_, inr ?_, ?_, ?_, ?_,
    inr ⟨d.p, rfl⟩, ?_, ?_, ?_⟩
  · rw [feed_append, ← tracks.fed]
  · have reached : d.p = start.p + s.tokens.length := by rw [tracks.fed, feed_position]
    rw [grown]
    omega
  · have decoded := plainDecode_chained target partChained going (remaining budget s - m)
    rw [partLength, ← split] at decoded
    rw [tracks.decoded, decoded]
    simp only [remaining, later, append_assoc]
  · rw [feed_position, partLength]
  · rw [fedPast, materialize]
    have fold := copyRows_forward target d.past d.past d.p (d.next :: proposals)
      (m := m) (by rw [length_cons]; omega) (show d.p + m ≤ ctx by omega)
    rw [length_cons, live] at fold
    simp only [if_true, toNat_natCast, fold]
    rw [if_pos (by omega), prefixes, take_take, min_eq_left (by omega), columns_take, map_take]
  · intro fresh
    cases fresh
  · intro goesOn
    simp only [decide_eq_false_iff_not, not_lt] at goesOn
    have whole : cs.take m = cs := take_of_length_le goesOn
    rw [whole, after, if_neg (by omega)]
  · intro stops
    simp only [decide_eq_true_eq] at stops
    simp only [remaining, later]
    rcases short stops with spent | ends
    · have none : remaining budget s - m = 0 := by
        unfold remaining
        omega
      unfold remaining at none
      rw [none]
      rfl
    · have atEnd := chained.next_feed target stops
      rw [getElem?_eq_getElem stops, Option.some.injEq] at ends
      rw [ends] at atEnd
      cases (budget - s.tokens.length).toNat - m with
      | zero => rfl
      | succ n => rw [plainDecode, if_pos atEnd]

/-- The states that rounds lead to, whatever is guessed in each. -/
inductive Reaches (start : HostDecoder α) (eos : Token) (budget : Int) : SpecState α → Prop
  | opening : Reaches start eos budget (SpecState.opening start)
  | round {s : SpecState α} (proposals : List Token) : Reaches start eos budget s →
      continues ctx eos budget proposals s = true →
      Reaches start eos budget (Decode.specRound target start.past eos budget proposals s)

/-- Before the first round, the loop tracks the decoder it starts from. -/
theorem tracks_opening (start : HostDecoder α) (eos : Token) (budget : Int) :
    Tracks target start eos budget (SpecState.opening start) start where
  fed := rfl
  room := inl rfl
  decoded := by simp [remaining, SpecState.opening]
  position := rfl
  cache := rfl
  pending := inl rfl
  fresh _ := rfl
  next _ := rfl
  ended stopped := by cases stopped

/-- **Every state of the rounds tracks the plain loop.** -/
theorem Reaches.tracks
    (reaches : Reaches target start eos budget s) : ∃ d, Tracks target start eos budget s d := by
  induction reaches with
  | opening => exact ⟨start, tracks_opening target start eos budget⟩
  | round proposals _ goes ih =>
    obtain ⟨d, tracks⟩ := ih
    exact (tracks.specRound target goes).2

/-- **The rounds end** within as many as there are tokens to emit. -/
theorem specRounds_ends
    (propose : Nat → Token → Nat → List Token) (fuel round : Nat)
    (reaches : Reaches target start eos budget s) (enough : remaining budget s ≤ fuel) :
    ∃ s', specRounds target start.past eos budget propose fuel round s = some s' ∧
      Reaches target start eos budget s' := by
  induction fuel generalizing round s with
  | zero =>
    have stops : continues ctx eos budget (propose round s.next s.p) s = false := by
      have spent : ¬ (s.tokens.length : Int) < budget := by
        unfold remaining at enough
        omega
      simp [continues, spent]
    refine ⟨s, ?_, reaches⟩
    rw [specRounds, stops]
    rfl
  | succ fuel ih =>
    rw [specRounds]
    by_cases goes : continues ctx eos budget (propose round s.next s.p) s = true
    · rw [if_pos goes]
      obtain ⟨d, tracks⟩ := reaches.tracks target
      have grown := (tracks.specRound target goes).1
      refine ih (round + 1) (.round _ reaches goes) ?_
      unfold remaining at enough ⊢
      omega
    · rw [if_neg goes]
      exact ⟨s, rfl, reaches⟩

/-- **The cache of every round holds the rows of the tokens emitted so far**, after those it
started from, and no others below the position. -/
theorem Reaches.liveRows_eq
    (reaches : Reaches target start eos budget s) :
    (liveRows ctx (foldedPast target start.past s) s.p : List (Row heads width α)) =
      liveRows ctx start.past start.p ++
        (columns target.column (liveRows ctx start.past start.p) start.p s.tokens).map
          fst := by
  obtain ⟨d, tracks⟩ := reaches.tracks target
  have position : s.p = start.p + s.tokens.length := by
    rw [← tracks.position, tracks.fed, feed_position]
  rw [foldedPast_eq_materialize target start.past tracks.pending tracks.fresh, tracks.cache,
    tracks.fed, position]
  rcases tracks.room with none | room
  · rw [none]
    simp [feed, columns]
  · rw [liveRows_of_le room, liveRows_of_le (by omega), rows_feed target room]

/-- **Speculative decoding is plain decoding.**  Whatever is guessed in each round, the turn ends;
it emits the tokens of the plain loop, and leaves its position and its cache.  In every round, the
rows below the position are those of the tokens emitted so far. -/
theorem specDecode_eq_plainDecode (eos : Token) (budget : Int)
    (propose : Nat → Token → Nat → List Token) (d : HostDecoder α) :
    (∃ out, specDecode target eos budget propose d = some out ∧
      out.1 = (plainDecode target eos budget.toNat d).1 ∧
      out.2.p = (plainDecode target eos budget.toNat d).2.p ∧
      out.2.past = (plainDecode target eos budget.toNat d).2.past) ∧
    ∀ s, Reaches target d eos budget s →
      (liveRows ctx (foldedPast target d.past s) s.p : List (Row heads width α)) =
        liveRows ctx d.past d.p ++
          (columns target.column (liveRows ctx d.past d.p) d.p s.tokens).map fst := by
  refine ⟨?_, fun s reaches => reaches.liveRows_eq target⟩
  obtain ⟨s, ends, reaches⟩ := specRounds_ends target propose budget.toNat 0
    (Reaches.opening : Reaches target d eos budget (SpecState.opening d))
    (by simp [remaining, SpecState.opening])
  obtain ⟨d', tracks⟩ := reaches.tracks target
  unfold specDecode
  rw [ends, Option.map_some, tracks.decoded]
  refine ⟨_, rfl, ?_⟩
  cases done : s.turnDone with
  | true =>
    rw [tracks.ended done]
    dsimp only
    rw [if_pos rfl, append_nil]
    exact ⟨rfl, tracks.position.symm, tracks.cache⟩
  | false =>
    have same : (⟨materialize target d.past s, s.p, s.next⟩ : HostDecoder α) = d' := by
      rw [tracks.cache, ← tracks.position, ← tracks.next done]
    dsimp only
    rw [if_neg (by decide), same]
    exact ⟨rfl, rfl, rfl⟩

end Feed

/-! ## Targets given by a function of the prefix -/

/-- The target whose next token is a function of the tokens so far: its cache keeps them. -/
def prefixTarget (ctx : Nat) (nextToken : List Token → Token) : Target 1 ctx 1 Token :=
  let column : List (Row 1 1 Token) → Nat → Token → Row 1 1 Token × Token :=
    fun live _ token => (fun _ _ => token, nextToken (live.map (fun row => row 0 0) ++ [token]))
  { column
    presentRows := fun window => window
    forward := fun past position tokens =>
      let outs := columns column (liveRows ctx past position) position tokens
      (fun i => ((outs[i]?.map fun out => out.1 0 0).getD 0), outs.map snd)
    wide := fun _ => le_rfl
    forward_rows := fun past position tokens => by
      apply ext_getElem
      · simp
      · intro j inside inside'
        have small : j < tokens.length := by simpa using inside
        funext head lane
        obtain rfl : head = 0 := Subsingleton.elim _ _
        obtain rfl : lane = 0 := Subsingleton.elim _ _
        simp [rowAt, small]
    forward_tokens := fun _ _ _ => rfl }

example : let target := prefixTarget 16 fun tokens => (tokens.sum + tokens.length) % 7
    let start : HostDecoder Token := ⟨fun i => if i = 0 then 2 else 0, 1, 3⟩
    ((specDecode target 4 9 (fun round token _ => [(token + 4) % 7, round]) start).map fst) =
      some (plainDecode target 4 9 start).1 := by
  decide

end Vknn.Decode
