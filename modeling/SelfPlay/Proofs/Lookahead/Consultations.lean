import Mathlib.Tactic.MkIffOfInductiveProp
import SelfPlay.Proofs.Lookahead.Adjudication
import SelfPlay.Proofs.Lookahead.Termination

/-!
# When a tablebase is asked

A tablebase in a `Noted` world answers as it always does and also writes down what it was asked and
what it answered. Play does not see the notes, so those of a noted run are the probes of the bare
run, whatever the tablebase answers from probe to probe. A round asks about the games that are due,
in their order and once each, and before any move is made; then each of them is over or goes on by
its own answer.
-/

namespace SelfPlay

/-- A world with the probes made in it: the position and the answer. -/
structure Noted (ω P : Type) where
  world : ω
  probes : List (P × Wdl × ProbeState)

def Network.noted {ω : Type} (P : Type) (network : Network ω) : Network (Noted ω P) where
  format := network.format
  evaluate samples now :=
    let evaluation := network.evaluate samples now.world
    ⟨evaluation.outcome, evaluation.stopRequested, ⟨evaluation.world, now.probes⟩⟩

def Tablebase.noted {ω P : Type} (tablebase : Tablebase ω P) : Tablebase (Noted ω P) P where
  maxPieces := tablebase.maxPieces
  probe position now :=
    let (answer, world) := tablebase.probe position now.world
    (answer, ⟨world, now.probes ++ [(position, answer)]⟩)

namespace Lookahead

variable {ω P M : Type} [Board P M]

namespace BatchGame

/-- A game that a tablebase for so many pieces is to be asked about: it is still undecided, not
ended by the rules, nobody may castle, and the pieces are few enough. -/
@[mk_iff]
structure IsDue (maxPieces : Nat) (game : BatchGame P M) : Prop where
  undecided : game.result = .undecided
  rules : game.record.history.result = .undecided
  noCastle : Board.noLegalCastle game.record.head = true
  fewPieces : Board.pieceCount game.record.head ≤ maxPieces

instance (maxPieces : Nat) (game : BatchGame P M) : Decidable (game.IsDue maxPieces) :=
  decidable_of_iff _ (isDue_iff maxPieces game).symm

/-- The game with the result that an outcome for the side to move gives it. -/
def decidedBy (game : BatchGame P M) (outcome : Wdl) : BatchGame P M :=
  { game with
    result := match outcome with
      | .win => .won game.record.sideToMove
      | .loss => .won game.record.sideToMove.opponent
      | .draw | .cursedWin | .blessedLoss => .draw }

/-- The game after an answer about it. -/
def answeredBy (game : BatchGame P M) (answer : Wdl × ProbeState) : BatchGame P M :=
  if answer.2 = .fail then game else game.decidedBy answer.1

theorem isTerminal_decidedBy (game : BatchGame P M) (outcome : Wdl) :
    (game.decidedBy outcome).result.isTerminal = true := by
  cases outcome <;> rfl

variable {tablebase : Tablebase ω P} {game : BatchGame P M}

theorem covers_of_isDue (h : game.IsDue tablebase.maxPieces) :
    tablebase.covers game.record.head = true := by
  rw [Tablebase.covers, h.noCastle, Bool.true_and, decide_eq_true h.fewPieces]

theorem isDue_of_covers (hopen : game.result = .undecided)
    (hrules : game.record.history.result = .undecided)
    (hcovers : tablebase.covers game.record.head = true) : game.IsDue tablebase.maxPieces := by
  rw [Tablebase.covers, Bool.and_eq_true, decide_eq_true_eq] at hcovers
  exact ⟨hopen, hrules, hcovers.1, hcovers.2⟩

theorem answeredBy_eq (hopen : game.result = .undecided) (answer : Wdl × ProbeState) :
    { game with
      result := (Tablebase.verdict game.record.sideToMove answer).getD .undecided } =
        game.answeredBy answer := by
  obtain ⟨outcome, state⟩ := answer
  cases state with
  | fail =>
    obtain ⟨tree, result⟩ := game
    cases hopen
    rfl
  | ok | changeSide | zeroing => cases outcome <;> rfl

/-- A game that is due is asked about, and settled by the answer. -/
theorem settle_of_isDue (h : game.IsDue tablebase.maxPieces) (world : ω) :
    game.settle (some tablebase) world =
      (game.answeredBy (tablebase.probe game.record.head world).1,
        (tablebase.probe game.record.head world).2) := by
  have hopen : ¬game.result.isTerminal = true := by rw [h.undecided]; exact Bool.false_ne_true
  have hrules : ¬game.record.history.result.isTerminal = true := by
    rw [h.rules]
    exact Bool.false_ne_true
  unfold settle
  rw [if_neg hopen]
  simp only [if_neg hrules, Tablebase.adjudicate, covers_of_isDue h, if_true]
  exact congrArg (·, _) (answeredBy_eq h.undecided _)

theorem settle_noted_of_isDue (h : game.IsDue tablebase.maxPieces) (world : ω)
    (earlier : List (P × Wdl × ProbeState)) :
    game.settle (some tablebase.noted) ⟨world, earlier⟩ =
      (game.answeredBy (tablebase.probe game.record.head world).1,
        ⟨(tablebase.probe game.record.head world).2,
          earlier ++ [(game.record.head, (tablebase.probe game.record.head world).1)]⟩) := by
  have hdue : game.IsDue tablebase.noted.maxPieces := h
  exact settle_of_isDue hdue ⟨world, earlier⟩

/-- Nothing is asked about a game that is not due. -/
theorem settle_noted_of_not_isDue (h : ¬game.IsDue tablebase.maxPieces) (world : ω)
    (earlier : List (P × Wdl × ProbeState)) :
    game.settle (some tablebase.noted) ⟨world, earlier⟩ =
      ((game.settle (some tablebase) world).1,
        ⟨(game.settle (some tablebase) world).2, earlier⟩) := by
  unfold settle
  split
  · rfl
  · rename_i hopen
    simp only
    split
    · rfl
    · rename_i hrules
      have hcovers : tablebase.covers game.record.head = false :=
        Bool.eq_false_iff.mpr fun hcovers =>
          h (isDue_of_covers (GameResult.eq_undecided_of_not_isTerminal hopen)
            (GameResult.eq_undecided_of_not_isTerminal hrules) hcovers)
      have hnoted : tablebase.noted.covers game.record.head = false := hcovers
      simp only [Tablebase.adjudicate, hcovers, hnoted]
      rfl

/-- A probe about a game that is due, and what the game has become in a list of settled games. -/
structure Settles (maxPieces : Nat) (settled : List (BatchGame P M)) (entry : BatchGame P M × Nat)
    (probe : P × Wdl × ProbeState) : Prop where
  due : entry.1.IsDue maxPieces
  position : probe.1 = entry.1.record.head
  answered : settled[entry.2]? = some (entry.1.answeredBy probe.2)

/-- Settling games probes those that are due, in their order and once each. -/
theorem settleAll_noted (tablebase : Tablebase ω P) (settled : List (BatchGame P M))
    (games : List (BatchGame P M)) (start : Nat) (world : ω)
    (hsettled : ∀ i, settled[start + i]? = (settleAll (some tablebase) games world).1[i]?) :
    ∃ probes, List.Forall₂ (Settles tablebase.maxPieces settled)
        ((games.zipIdx start).filter fun entry => entry.1.IsDue tablebase.maxPieces) probes ∧
      ∀ earlier, settleAll (some tablebase.noted) games ⟨world, earlier⟩ =
        ((settleAll (some tablebase) games world).1,
          ⟨(settleAll (some tablebase) games world).2, earlier ++ probes⟩) := by
  induction games generalizing start world with
  | nil => exact ⟨[], .nil, fun earlier => by rw [List.append_nil]; rfl⟩
  | cons game rest ih =>
    obtain ⟨probes, hprobes, hrest⟩ := ih (start + 1) (game.settle (some tablebase) world).2
      fun i => by rw [Nat.add_right_comm]; exact hsettled (i + 1)
    have hgame : settled[start]? = some (game.settle (some tablebase) world).1 := hsettled 0
    rw [List.zipIdx_cons]
    by_cases hdue : game.IsDue tablebase.maxPieces
    · have hsettle := settle_of_isDue hdue world
      rw [hsettle] at hgame
      refine ⟨(game.record.head, (tablebase.probe game.record.head world).1) :: probes, ?_, ?_⟩
      · rw [List.filter_cons_of_pos (by simpa using hdue)]
        exact .cons ⟨hdue, rfl, hgame⟩ hprobes
      · intro earlier
        rw [hsettle] at hrest
        simp only [settleAll, settle_noted_of_isDue hdue, hsettle, hrest, List.append_assoc,
          List.singleton_append]
    · refine ⟨probes, ?_, fun earlier => ?_⟩
      · rw [List.filter_cons_of_neg (by simpa using hdue)]
        exact hprobes
      · simp only [settleAll, settle_noted_of_not_isDue hdue, hrest]

end BatchGame

namespace Batch

open BatchGame

variable {networks : PerSide (Network ω)} {tablebase : Tablebase ω P} {batch next : Batch P M}
  {world last : ω}

/-- The games that a round is to ask about, with their numbers. A batch that was asked to stop
begins no round. -/
def dueGames (maxPieces : Nat) (batch : Batch P M) : List (BatchGame P M × Nat) :=
  if batch.aborted then []
  else batch.games.zipIdx.filter fun entry => entry.1.IsDue maxPieces

theorem mem_dueGames {maxPieces : Nat} {entry : BatchGame P M × Nat}
    (h : entry ∈ batch.dueGames maxPieces) :
    batch.games[entry.2]? = some entry.1 ∧ entry.1.IsDue maxPieces := by
  unfold dueGames at h
  split at h
  · cases h
  · obtain ⟨hmem, hdue⟩ := List.mem_filter.mp h
    exact ⟨List.mem_zipIdx_iff_getElem?.mp hmem, of_decide_eq_true hdue⟩

theorem settle_noted (tablebase : Tablebase ω P) {batch : Batch P M} (hrun : batch.aborted = false)
    (world : ω) :
    ∃ probes, List.Forall₂
        (Settles tablebase.maxPieces (batch.settle (some tablebase) world).1.games)
        (batch.dueGames tablebase.maxPieces) probes ∧
      ∀ earlier, batch.settle (some tablebase.noted) ⟨world, earlier⟩ =
        ((batch.settle (some tablebase) world).1,
          ⟨(batch.settle (some tablebase) world).2, earlier ++ probes⟩) := by
  obtain ⟨probes, hprobes, hnoted⟩ := settleAll_noted tablebase
    (batch.settle (some tablebase) world).1.games batch.games 0 world
    fun i => by rw [Nat.zero_add]; rfl
  refine ⟨probes, by rwa [dueGames, hrun, if_neg Bool.false_ne_true], fun earlier => ?_⟩
  simp only [settle, hnoted]

variable [BoardMove M] [DecidableEq M]

theorem playGroup_noted (network : Network ω) (side : Color) (batch : Batch P M) (world : ω)
    (earlier : List (P × Wdl × ProbeState)) :
    batch.playGroup (network.noted P) side ⟨world, earlier⟩ =
      ((batch.playGroup network side world).1, (batch.playGroup network side world).2.1,
        ⟨(batch.playGroup network side world).2.2, earlier⟩) := by
  have hformat : (network.noted P).format = network.format := rfl
  unfold playGroup
  simp only [hformat]
  split
  · rfl
  · simp only [Network.noted]
    split <;> rfl

/-- A round probes the games that are due, in their order and once each, and nothing else. -/
theorem round_noted (networks : PerSide (Network ω)) (tablebase : Tablebase ω P)
    (batch : Batch P M) (world : ω) {ending : Option PlayEnd} {next : Batch P M} {last : ω}
    (hround : batch.round networks (some tablebase) world = (ending, next, last)) :
    ∃ probes, List.Forall₂
        (Settles tablebase.maxPieces (batch.settle (some tablebase) world).1.games)
        (batch.dueGames tablebase.maxPieces) probes ∧
      ∀ earlier, batch.round (networks.map (Network.noted P)) (some tablebase.noted)
        ⟨world, earlier⟩ = (ending, next, ⟨last, earlier ++ probes⟩) := by
  cases haborted : batch.aborted with
  | true =>
    have hnone : batch.dueGames tablebase.maxPieces = [] := if_pos haborted
    rw [hnone]
    refine ⟨[], .nil, fun earlier => ?_⟩
    rw [round, haborted, if_pos rfl] at hround
    cases hround
    rw [round, haborted, if_pos rfl, List.append_nil]
  | false =>
    obtain ⟨probes, hprobes, hnoted⟩ := settle_noted tablebase haborted world
    refine ⟨probes, hprobes, fun earlier => ?_⟩
    unfold round at hround ⊢
    rw [haborted, if_neg Bool.false_ne_true] at hround ⊢
    simp only [hnoted] at hround ⊢
    cases hfirst : (batch.settle (some tablebase) world).1.firstUndecided? with
    | none =>
      rw [hfirst] at hround
      cases hround
      rfl
    | some first =>
      simp only [hfirst] at hround ⊢
      rw [PerSide.get_map, playGroup_noted, hround]

/-- The probes of one round. -/
def probes (networks : PerSide (Network ω)) (tablebase : Tablebase ω P) (batch : Batch P M)
    (world : ω) : List (P × Wdl × ProbeState) :=
  (batch.round (networks.map (Network.noted P)) (some tablebase.noted) ⟨world, []⟩).2.2.probes

theorem forall₂_probes (networks : PerSide (Network ω)) (tablebase : Tablebase ω P)
    (batch : Batch P M) (world : ω) :
    List.Forall₂ (Settles tablebase.maxPieces (batch.settle (some tablebase) world).1.games)
      (batch.dueGames tablebase.maxPieces) (batch.probes networks tablebase world) := by
  obtain ⟨probes, hprobes, hnoted⟩ := round_noted networks tablebase batch world rfl
  rwa [Batch.probes, hnoted, List.nil_append]

theorem round_noted_eq (earlier : List (P × Wdl × ProbeState)) {ending : Option PlayEnd}
    (hround : batch.round networks (some tablebase) world = (ending, next, last)) :
    batch.round (networks.map (Network.noted P)) (some tablebase.noted) ⟨world, earlier⟩ =
      (ending, next, ⟨last, earlier ++ batch.probes networks tablebase world⟩) := by
  obtain ⟨probes, -, hnoted⟩ := round_noted networks tablebase batch world hround
  rw [hnoted, Batch.probes, hnoted, List.nil_append]

/-! ## Whole runs -/

/-- The batches, and the worlds, in which the rounds of a run begin. -/
def roundStarts (networks : PerSide (Network ω)) (tablebase : Option (Tablebase ω P)) :
    Nat → Batch P M → ω → List (Batch P M × ω)
  | 0, _, _ => []
  | rounds + 1, batch, world =>
    (batch, world) ::
      match batch.round networks tablebase world with
      | (some _, _, _) => []
      | (none, next, now) => roundStarts networks tablebase rounds next now

theorem roundStarts_one (tablebase : Option (Tablebase ω P)) (batch : Batch P M) (world : ω) :
    batch.roundStarts networks tablebase 1 world = [(batch, world)] := by
  rw [roundStarts]
  split <;> rfl

theorem leads_of_mem_roundStarts {tablebase : Option (Tablebase ω P)} {rounds : Nat}
    {now : Batch P M × ω} (h : now ∈ roundStarts networks tablebase rounds batch world) :
    batch.Leads networks tablebase now.1 := by
  induction rounds generalizing batch world with
  | zero => cases h
  | succ rounds ih =>
    have hround : Step networks tablebase batch (batch.round networks tablebase world).2.1 :=
      .round world
    rw [roundStarts] at h
    rcases List.mem_cons.mp h with rfl | hlater
    · exact .refl
    · split at hlater
      · cases hlater
      · rename_i heq
        rw [heq] at hround
        exact .head hround (ih hlater)

/-- The notes of a run are those of its rounds. -/
theorem playFor_noted (rounds : Nat) (batch : Batch P M) (world : ω)
    (earlier : List (P × Wdl × ProbeState)) :
    batch.playFor (networks.map (Network.noted P)) (some tablebase.noted) rounds ⟨world, earlier⟩ =
      ((batch.playFor networks (some tablebase) rounds world).1,
        (batch.playFor networks (some tablebase) rounds world).2.1,
        ⟨(batch.playFor networks (some tablebase) rounds world).2.2, earlier ++
          (roundStarts networks (some tablebase) rounds batch world).flatMap fun now =>
            now.1.probes networks tablebase now.2⟩) := by
  induction rounds generalizing batch world earlier with
  | zero => simp [playFor, roundStarts]
  | succ rounds ih =>
    obtain ⟨ending, next, last, hround⟩ : ∃ ending next last,
      batch.round networks (some tablebase) world = (ending, next, last) := ⟨_, _, _, rfl⟩
    have hnoted := round_noted_eq earlier hround
    rw [roundStarts, hround, List.flatMap_cons]
    cases ending with
    | some ending =>
      rw [playFor_of_round_eq_some rounds hround, playFor_of_round_eq_some rounds hnoted,
        List.flatMap_nil, List.append_nil]
    | none =>
      rw [playFor_of_round_eq_none rounds hround, playFor_of_round_eq_none rounds hnoted, ih,
        List.append_assoc]

end Batch

variable [BoardMove M] [DecidableEq M]

/-- A probe in a round, and what comes of it for the game that it is about. -/
structure Consults (networks : PerSide (Network ω)) (tablebase : Tablebase ω P) (batch : Batch P M)
    (world : ω) (entry : BatchGame P M × Nat) (probe : P × Wdl × ProbeState) : Prop where
  position : probe.1 = entry.1.record.head
  /-- A probe that failed leaves the game open. It makes its move in this round if its side is the
  one that moves and the network does not fail. -/
  failed : probe.2.2 = .fail →
    (batch.settle (some tablebase) world).1.games[entry.2]? = some entry.1 ∧
      ∃ first, (batch.settle (some tablebase) world).1.firstUndecided? = some first ∧
        (entry.1.record.sideToMove = first.record.sideToMove →
          (batch.round networks (some tablebase) world).1 = none →
          ∃ after, (batch.round networks (some tablebase) world).2.1.games[entry.2]? = some after ∧
            entry.1.Advances after)
  /-- Any other probe ends the game, which then stays as it is for the rest of the round. -/
  answered : probe.2.2 ≠ .fail →
    (batch.settle (some tablebase) world).1.games[entry.2]? = some (entry.1.decidedBy probe.2.1) ∧
      (batch.round networks (some tablebase) world).2.1.games[entry.2]? =
        some (entry.1.decidedBy probe.2.1)

namespace Batch

open BatchGame

variable {networks : PerSide (Network ω)} {tablebase : Tablebase ω P} {batch : Batch P M}
  {world : ω}

theorem exists_firstUndecided? {P M : Type} {batch : Batch P M} {i : Nat} {game : BatchGame P M}
    (hi : batch.games[i]? = some game) (hopen : game.result = .undecided) :
    ∃ first, batch.firstUndecided? = some first := by
  have hfound : (batch.games.find? fun game => !game.result.isTerminal).isSome = true := by
    rw [List.find?_isSome]
    exact ⟨game, List.mem_of_getElem? hi, by rw [hopen]; rfl⟩
  exact Option.isSome_iff_exists.mp hfound

theorem consults_of_settles (hfresh : batch.IsFresh) (hrun : batch.aborted = false)
    {entry : BatchGame P M × Nat} {probe : P × Wdl × ProbeState}
    (h : Settles tablebase.maxPieces (batch.settle (some tablebase) world).1.games entry probe) :
    Consults networks tablebase batch world entry probe := by
  have hsettled := h.answered
  unfold answeredBy at hsettled
  refine ⟨h.position, fun hfail => ?_, fun hanswered => ?_⟩
  · rw [if_pos hfail] at hsettled
    obtain ⟨first, hfirst⟩ := exists_firstUndecided? hsettled h.due.undecided
    refine ⟨hsettled, first, hfirst, fun hside hgoesOn => ?_⟩
    obtain ⟨ending, next, last, hround⟩ : ∃ ending next last,
      batch.round networks (some tablebase) world = (ending, next, last) := ⟨_, _, _, rfl⟩
    obtain ⟨marks, hprogress, -⟩ := round_watched networks (some tablebase) batch world hround
    rw [hround] at hgoesOn ⊢
    obtain rfl : ending = none := hgoesOn
    cases hprogress with
    | grouped _ hfirst' hgrouped =>
      rw [hfirst] at hfirst'
      cases hfirst'
      have hmoved := hgrouped.sideMoved (isFresh_settle hfresh (some tablebase) world)
      obtain ⟨after, hafter, -, hadvances⟩ := hmoved.games entry.2 entry.1 hsettled
      exact ⟨after, hafter, hadvances (awaits_iff.mpr ⟨h.due.undecided, hside⟩)⟩
  · rw [if_neg hanswered] at hsettled
    exact ⟨hsettled, getElem?_round_of_settled hrun hsettled (isTerminal_decidedBy _ _)⟩

/-- Every probe of a round is made about a game that is due, and settles it. -/
theorem forall₂_consults (hfresh : batch.IsFresh) (networks : PerSide (Network ω))
    (tablebase : Tablebase ω P) (world : ω) :
    List.Forall₂ (Consults networks tablebase batch world) (batch.dueGames tablebase.maxPieces)
      (batch.probes networks tablebase world) := by
  have hprobes := forall₂_probes networks tablebase batch world
  cases haborted : batch.aborted with
  | true =>
    have hnone : batch.dueGames tablebase.maxPieces = [] := if_pos haborted
    rw [hnone, List.forall₂_nil_left_iff] at hprobes
    rw [hnone, hprobes]
    exact .nil
  | false => exact hprobes.imp fun _ _ => consults_of_settles hfresh haborted

end Batch

/-- **A tablebase is asked just when it should be.** The probes of a run are those of its rounds,
and those of a round are one for each game that is due, in the order of the games: for each game
that is undecided, not ended by the rules, without castling and with few enough pieces. A probe that
failed leaves its game to be played, any other one ends it at once, in favour of the side to move or
of the other one as it says. A game that is over is never due again. None of this depends on what
the tablebase answers. -/
theorem tablebase_consulted_when_due {players : PerSide (Player ω M)} {openings : List (Opening M)}
    {start batch : Batch P M} (hstart : Batch.ofOpenings players openings = .ok start)
    {networks : PerSide (Network ω)} {tablebase : Tablebase ω P}
    (hleads : start.Leads networks (some tablebase) batch) (rounds : Nat) (world : ω) :
    batch.playFor (networks.map (Network.noted P)) (some tablebase.noted) rounds ⟨world, []⟩ =
        ((batch.playFor networks (some tablebase) rounds world).1,
          (batch.playFor networks (some tablebase) rounds world).2.1,
          ⟨(batch.playFor networks (some tablebase) rounds world).2.2,
            (batch.roundStarts networks (some tablebase) rounds world).flatMap fun now =>
              now.1.probes networks tablebase now.2⟩) ∧
      (∀ now ∈ batch.roundStarts networks (some tablebase) rounds world,
        List.Forall₂ (Consults networks tablebase now.1 now.2)
          (now.1.dueGames tablebase.maxPieces) (now.1.probes networks tablebase now.2)) ∧
      ∀ (i : Nat) (game : BatchGame P M), batch.games[i]? = some game →
        game.result.isTerminal = true → ∀ later, batch.Leads networks (some tablebase) later →
        later.games[i]? = some game ∧
          ∀ entry ∈ later.dueGames tablebase.maxPieces, entry.2 ≠ i := by
  have hfresh : batch.IsFresh := Batch.isFresh_of_leads hleads (Batch.isFresh_of_ofOpenings hstart)
  refine ⟨Batch.playFor_noted rounds batch world [], ?_, ?_⟩
  · intro now hnow
    have hreached := Batch.leads_of_mem_roundStarts hnow
    exact Batch.forall₂_consults (Batch.isFresh_of_leads hreached hfresh) networks tablebase now.2
  · intro i game hi hover later hlater
    have hsame := Batch.getElem?_of_leads hi hover hlater
    refine ⟨hsame, ?_⟩
    rintro entry hentry rfl
    obtain ⟨hgame, hdue⟩ := Batch.mem_dueGames hentry
    rw [hsame] at hgame
    cases hgame
    rw [hdue.undecided] at hover
    cases hover

open TicTacToe in
/-- After three rounds one game is drawn. So in the fourth round the tablebase is asked about the
other game only, and now it does not fail: black, who is to move, has won. -/
theorem fickle_tablebase_consulted_when_due :
    ∃ (batch : Batch HousePosition Square) (game : BatchGame HousePosition Square),
      batch = (houseBatch.playFor ⟨speechlessNetwork, speechlessNetwork⟩ (some fickleTablebase) 3
        0).2.1 ∧
      batch.games[0]? = some game ∧ game.result = .draw ∧
      (batch.playFor (PerSide.map (Network.noted HousePosition)
          ⟨speechlessNetwork, speechlessNetwork⟩) (some fickleTablebase.noted) 1
          ⟨3, []⟩).2.2.probes =
        [(⟨⟨0b010000101, 0b100010000, 5⟩, false, some 7, none⟩, .win, .ok)] ∧
      List.Forall₂ (Consults ⟨speechlessNetwork, speechlessNetwork⟩ fickleTablebase batch 3)
        (batch.dueGames 9) (batch.probes ⟨speechlessNetwork, speechlessNetwork⟩ fickleTablebase 3) ∧
      ∀ entry ∈ batch.dueGames 9, entry.2 ≠ 0 := by
  have hfacts : (houseBatch.playFor ⟨speechlessNetwork, speechlessNetwork⟩ (some fickleTablebase) 3
        0).2.1.games[0]?.map (·.result) = some .draw ∧
      (houseBatch.playFor ⟨speechlessNetwork, speechlessNetwork⟩ (some fickleTablebase) 3
        0).2.1.probes ⟨speechlessNetwork, speechlessNetwork⟩ fickleTablebase 3 =
          [(⟨⟨0b010000101, 0b100010000, 5⟩, false, some 7, none⟩, .win, .ok)] := by decide +kernel
  have hleads : houseBatch.Leads ⟨speechlessNetwork, speechlessNetwork⟩ (some fickleTablebase)
      (houseBatch.playFor ⟨speechlessNetwork, speechlessNetwork⟩ (some fickleTablebase) 3 0).2.1 :=
    Batch.leads_playFor 3 houseBatch 0
  generalize (houseBatch.playFor ⟨speechlessNetwork, speechlessNetwork⟩ (some fickleTablebase) 3
    0).2.1 = batch at hfacts hleads
  obtain ⟨hdrawn, hprobes⟩ := hfacts
  obtain ⟨game, hgame, hresult⟩ := Option.map_eq_some_iff.mp hdrawn
  obtain ⟨hplay, hrounds, hover⟩ :=
    tablebase_consulted_when_due ofOpenings_houseOpenings hleads 1 3
  rw [Batch.roundStarts_one, List.flatMap_singleton, hprobes] at hplay
  obtain ⟨-, hnever⟩ := hover 0 game hgame (by rw [hresult]; rfl) batch .refl
  exact ⟨batch, game, rfl, hgame, hresult, congrArg (·.2.2.probes) hplay,
    hrounds (batch, 3) List.mem_cons_self, hnever⟩

end Lookahead

end SelfPlay
