import SelfPlay.Proofs.Lookahead.Reach
import SelfPlay.Proofs.Lookahead.Ruling

/-!
# When and how a game of a batch is decided

A game is decided once, as soon as something decides it, and stays as it is from then on. The three
sources of a result are the rules, the tablebase, and the want of a legal move. Nothing is assumed
of the networks: they may fail, ask to stop, or answer as they like.
-/

namespace SelfPlay.Lookahead

variable {ω P M : Type} [Board P M]

/-- Neither the rules nor the tablebase decide a game as it stands. -/
structure IsOpen (tablebase : Option (Tablebase ω P)) (answer : P → Wdl × ProbeState)
    (record : GameRecord P M) : Prop where
  rules : record.history.result = .undecided
  notDecided : ∀ tb ∈ tablebase, ∀ result, ¬tb.Decides answer record.head result

/-- Where the result of a game comes from. -/
inductive Explains (tablebase : Option (Tablebase ω P)) (answer : P → Wdl × ProbeState)
    (record : GameRecord P M) : GameResult → Prop
  | rules : record.history.result.isTerminal = true →
      Explains tablebase answer record record.history.result
  | tablebase {tb : Tablebase ω P} {result : GameResult} : record.history.result = .undecided →
      tb ∈ tablebase → tb.Decides answer record.head result →
      Explains tablebase answer record result
  | stuck : IsOpen tablebase answer record → Board.legalMoves record.head = [] →
      Explains tablebase answer record .draw

variable {tablebase : Option (Tablebase ω P)} {answer : P → Wdl × ProbeState}

theorem isOpen_iff (record : GameRecord P M) :
    IsOpen tablebase answer record ↔ ruling tablebase answer record = .undecided := by
  rw [ruling_eq_undecided_iff]
  exact ⟨fun h => ⟨h.rules, h.notDecided⟩, fun h => ⟨h.1, h.2⟩⟩

/-- A ruling that ends a game explains its result. -/
theorem explains_ruling {record : GameRecord P M}
    (h : (ruling tablebase answer record).isTerminal = true) :
    Explains tablebase answer record (ruling tablebase answer record) := by
  by_cases hrules : record.history.result.isTerminal = true
  · rw [ruling_of_isTerminal tablebase answer hrules]
    exact .rules hrules
  · have hopen : record.history.result = .undecided :=
      GameResult.eq_undecided_of_not_isTerminal hrules
    have hdecides : ∃ tb ∈ tablebase, ∃ result, tb.Decides answer record.head result := by
      by_contra hnone
      have hundecided : ruling tablebase answer record = .undecided := by
        rw [ruling_eq_undecided_iff]
        refine ⟨hopen, ?_⟩
        intro tb htb result hresult
        exact hnone ⟨tb, htb, result, hresult⟩
      rw [hundecided] at h
      cases h
    obtain ⟨tb, htb, result, hresult⟩ := hdecides
    obtain rfl : tablebase = some tb := htb
    rw [ruling_of_decides hopen hresult]
    exact .tablebase hopen rfl hresult

/-- A probe that failed, a right to castle and a piece too many each keep a tablebase from deciding
anything. -/
theorem not_decides {tb : Tablebase ω P} {position : P}
    (h : (answer position).2 = .fail ∨ Board.noLegalCastle position = false ∨
      tb.maxPieces < Board.pieceCount position) (result : GameResult) :
    ¬tb.Decides answer position result := by
  intro hdecides
  rcases h with hfail | hcastle | hpieces
  · exact hdecides.answered hfail
  · have hnone := hdecides.noCastle
    rw [hcastle] at hnone
    cases hnone
  · have hfew := hdecides.fewPieces
    omega

namespace BatchGame

/-- With a fixed tablebase settling gives the ruling and nothing else. -/
theorem follows_ruling (hfixed : ∀ tb ∈ tablebase, tb.IsFixed answer) :
    Follows (fun (record : GameRecord P M) result => result = ruling tablebase answer record)
      tablebase := by
  intro game world hopen
  rw [settle_of_isFixed hfixed, result_settled (by rw [hopen]; rfl)]

/-- What a run keeps: a fresh tree, and an explanation for the result of a decided game. -/
structure Sound (tablebase : Option (Tablebase ω P)) (answer : P → Wdl × ProbeState)
    (game : BatchGame P M) : Prop where
  fresh : game.tree.IsFresh
  explained : game.result.isTerminal = true →
    Explains tablebase answer game.record game.result

variable [BoardMove M] [DecidableEq M] {game after : BatchGame P M}

theorem sound_of_progress (h : game.Sound tablebase answer)
    (hprogress : game.Progress (fun record result => result = ruling tablebase answer record)
      after) : after.Sound tablebase answer := by
  refine ⟨isFresh_of_progress h.fresh hprogress, ?_⟩
  cases hprogress with
  | stay => exact h.explained
  | settle hopen hruling hover =>
    intro _
    subst hruling
    exact explains_ruling hover
  | expand hopen hruling => exact h.explained
  | stuck hopen hruling hnone =>
    intro _
    have hmoves : game.expand.tree.head.edges = _ := GameTree.edges_expand h.fresh
    rw [hnone, eq_comm, List.map_eq_nil_iff] at hmoves
    exact .stuck ((isOpen_iff game.record).mpr hruling.symm) hmoves
  | play hopen =>
    intro hover
    have hstill : game.result.isTerminal = true := hover
    rw [hopen] at hstill
    cases hstill

/-- Nothing happens to a game that is over. -/
theorem eq_of_progress {rules : GameRecord P M → GameResult → Prop}
    (h : game.result.isTerminal = true) (hprogress : game.Progress rules after) : after = game := by
  cases hprogress with
  | stay => rfl
  | settle hopen | expand hopen | stuck hopen | play hopen =>
    rw [hopen] at h
    cases h

/-- A move is a legal one of an open game, and leaves the game undecided. -/
theorem move_of_progress (h : game.tree.IsFresh)
    (hprogress : game.Progress (fun record result => result = ruling tablebase answer record) after)
    (hmoved : after.record ≠ game.record) :
    game.result = .undecided ∧ IsOpen tablebase answer game.record ∧ after.result = .undecided ∧
      ∃ move ∈ Board.legalMoves game.record.head,
        after.record = game.record.play (BoardMove.relativeTo move game.record.sideToMove) := by
  cases hprogress with
  | stay | settle | expand | stuck => exact absurd rfl hmoved
  | play hopen hruling hedge =>
    exact ⟨hopen, (isOpen_iff game.record).mpr hruling.symm, hopen, _,
      GameTree.move_mem_of_mem_edges h hedge, rfl⟩

end BatchGame

namespace Batch

open BatchGame

variable {networks : PerSide (Network ω)} {batch later : Batch P M} {i : Nat}
  {game : BatchGame P M}

theorem getElem?_settle (hfixed : ∀ tb ∈ tablebase, tb.IsFixed answer) (world : ω)
    (hi : batch.games[i]? = some game) :
    (batch.settle tablebase world).1.games[i]? = some (game.settled tablebase answer) := by
  rw [settle_of_isFixed hfixed, List.getElem?_map, hi, Option.map_some]

variable [BoardMove M] [DecidableEq M]

/-- A game that is decided by its ruling does not take part in the round. -/
theorem getElem?_round_of_isTerminal (hfixed : ∀ tb ∈ tablebase, tb.IsFixed answer)
    (hrun : batch.aborted = false) (hi : batch.games[i]? = some game)
    (hover : (game.settled tablebase answer).result.isTerminal = true) (world : ω) :
    (batch.round networks tablebase world).2.1.games[i]? =
      some (game.settled tablebase answer) :=
  getElem?_round_of_settled hrun (getElem?_settle hfixed world hi) hover

theorem sound_of_leads (hfixed : ∀ tb ∈ tablebase, tb.IsFixed answer)
    {players : PerSide (Player ω M)} {openings : List (Opening M)} {start : Batch P M}
    (hstart : ofOpenings players openings = .ok start)
    (hleads : start.Leads networks tablebase batch) (hi : batch.games[i]? = some game) :
    game.Sound tablebase answer := by
  have hlt := (List.getElem?_eq_some_iff.mp hi).1
  rw [length_of_leads hleads] at hlt
  have hmem := List.getElem_mem hlt
  have hsound : start.games[i].Sound tablebase answer := by
    refine ⟨isFresh_of_ofOpenings hstart _ hmem, ?_⟩
    intro hover
    obtain ⟨chess960, trees, -, -, rfl⟩ := ofOpenings_eq_ok_iff.mp hstart
    obtain ⟨tree, -, htree⟩ := List.mem_map.mp hmem
    rw [← htree] at hover
    cases hover
  obtain ⟨after, hafter, hkept⟩ := keeps_of_leads (Sound tablebase answer) (follows_ruling hfixed)
    (fun _ _ => sound_of_progress) hleads (List.getElem?_eq_getElem hlt) hsound
  rw [hi] at hafter
  cases hafter
  exact hkept

/-- No run touches a game that is over. -/
theorem getElem?_of_leads (hi : batch.games[i]? = some game) (hover : game.result.isTerminal = true)
    (hleads : batch.Leads networks tablebase later) : later.games[i]? = some game := by
  obtain ⟨after, hafter, hsame⟩ := keeps_of_leads (· = game) (follows_true tablebase)
    (fun before after hbefore hprogress =>
      hbefore ▸ eq_of_progress (by rw [hbefore]; exact hover) hprogress) hleads hi rfl
  rw [hafter, hsame]

end Batch

variable [BoardMove M] [DecidableEq M]

/-- **A game is decided once, and as soon as it can be.** In whatever state a batch is, however it
was played and interrupted: a game that is over stays as it is, with a result that its last
position explains; one that its position decides is over after the next round, without a move; and
a move is always a legal one of a game that nothing decides. Where the rules leave a game open, a
tablebase that has failed, or that does not cover the position, leaves it open as well. -/
theorem game_decided_once {players : PerSide (Player ω M)} {openings : List (Opening M)}
    {start batch : Batch P M} (hstart : Batch.ofOpenings players openings = .ok start)
    {networks : PerSide (Network ω)} {tablebase : Option (Tablebase ω P)}
    {answer : P → Wdl × ProbeState} (hfixed : ∀ tb ∈ tablebase, tb.IsFixed answer)
    (hleads : start.Leads networks tablebase batch) {i : Nat} {game : BatchGame P M}
    (hi : batch.games[i]? = some game) :
    (game.result.isTerminal = true → Explains tablebase answer game.record game.result ∧
      ∀ later, batch.Leads networks tablebase later → later.games[i]? = some game) ∧
    (game.result = .undecided → ¬IsOpen tablebase answer game.record → batch.aborted = false →
      ∀ world, ∃ after, (batch.round networks tablebase world).2.1.games[i]? = some after ∧
        after.result.isTerminal = true ∧ after.record = game.record) ∧
    (∀ world after, (batch.round networks tablebase world).2.1.games[i]? = some after →
      after.record ≠ game.record →
      game.result = .undecided ∧ IsOpen tablebase answer game.record ∧ after.result = .undecided ∧
        ∃ move ∈ Board.legalMoves game.record.head,
          after.record = game.record.play (BoardMove.relativeTo move game.record.sideToMove)) ∧
    (game.record.history.result = .undecided →
      (∀ tb ∈ tablebase, (answer game.record.head).2 = .fail ∨
        Board.noLegalCastle game.record.head = false ∨
        tb.maxPieces < Board.pieceCount game.record.head) →
      IsOpen tablebase answer game.record ∧
        ∀ world, (batch.settle tablebase world).1.games[i]? = some game) := by
  have hsound := Batch.sound_of_leads hfixed hstart hleads hi
  refine ⟨?_, ?_, ?_, ?_⟩
  · intro hover
    refine ⟨hsound.explained hover, ?_⟩
    intro later hlater
    exact Batch.getElem?_of_leads hi hover hlater
  · intro hundecided hdecided hrun world
    have hover : (game.settled tablebase answer).result.isTerminal = true := by
      rw [BatchGame.result_settled (by rw [hundecided]; rfl)]
      rw [isOpen_iff, ← GameResult.isTerminal_eq_false_iff] at hdecided
      exact (Bool.not_eq_false _).mp hdecided
    exact ⟨_, Batch.getElem?_round_of_isTerminal hfixed hrun hi hover world, hover,
      BatchGame.record_settled game⟩
  · intro world after hafter hmoved
    obtain ⟨after', hafter', hprogress⟩ :
        ∃ after', (batch.round networks tablebase world).2.1.games[i]? = some after' ∧
          game.Progress _ after' :=
      Batch.progress_round (BatchGame.follows_ruling hfixed) batch world hi
    rw [hafter] at hafter'
    cases hafter'
    exact BatchGame.move_of_progress hsound.fresh hprogress hmoved
  · intro hrules hsilent
    have hopen : IsOpen tablebase answer game.record :=
      ⟨hrules, fun tb htb => not_decides (hsilent tb htb)⟩
    refine ⟨hopen, ?_⟩
    intro world
    rw [Batch.getElem?_settle hfixed world hi]
    by_cases hover : game.result.isTerminal = true
    · rw [BatchGame.settled_of_isTerminal hover]
    · have hundecided : game.result = .undecided := GameResult.eq_undecided_of_not_isTerminal hover
      rw [BatchGame.settled, if_neg hover, (isOpen_iff game.record).mp hopen, ← hundecided]

open TicTacToe in
/-- The tablebase decides the first game before any move, and what follows leaves it at that. -/
theorem winning_game_decided_once :
    ∃ (batch : Batch Position Square) (game : BatchGame Position Square),
      batch = (winningBatch.round (linePlayers.map (·.network)) (some (perfectTablebase Unit 4))
        ()).2.1 ∧
      batch.games[0]? = some game ∧ game.result = .won .white ∧ game.record.moveCount = 0 ∧
      (batch.playFor (linePlayers.map (·.network)) (some (perfectTablebase Unit 4)) 5
        ()).2.1.games[0]? = some game := by
  let batch := (winningBatch.round (linePlayers.map (·.network))
    (some (perfectTablebase Unit 4)) ()).2.1
  have hdecided : batch.games[0]?.map (fun game => (game.result, game.record.moveCount)) =
      some (.won .white, 0) := by decide +kernel
  obtain ⟨game, hgame, hfacts⟩ := Option.map_eq_some_iff.mp hdecided
  obtain ⟨hresult, hmoves⟩ := Prod.mk.inj hfacts
  have hleads : winningBatch.Leads (linePlayers.map (·.network)) (some (perfectTablebase Unit 4))
      batch := .single (.round ())
  obtain ⟨hover, -, -, -⟩ :=
    game_decided_once ofOpenings_winningOpenings (solver_isFixed 4) hleads hgame
  obtain ⟨-, hstays⟩ := hover (by rw [hresult]; rfl)
  exact ⟨batch, game, rfl, hgame, hresult, hmoves, hstays _ (Batch.leads_playFor 5 batch ())⟩

end SelfPlay.Lookahead
