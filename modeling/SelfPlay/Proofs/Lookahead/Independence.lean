import SelfPlay.Proofs.Lookahead.Run
import SelfPlay.Proofs.Lookahead.Start

/-!
# A batch of games is as many games

When networks value each position by itself and the tablebase always gives a position the same
answer, a game ends in a batch as it ends alone: neither the other openings nor the world that the
networks live in can be told from it.
-/

namespace SelfPlay.Lookahead

variable {ω P M : Type} [BoardMove M] [DecidableEq M] [Board P M]

/-- **Batching never changes a game.** The game of an opening ends in any batch with the result, the
moves and the position with which it ends in a batch of its own, and the whole batch comes to its
end exactly if each opening's game does alone. -/
theorem batch_game_eq_game_alone {players : PerSide (Player ω M)}
    {value : PerSide (List Plane → Numeric.Binary32)}
    (hnetworks : ∀ side, (players.get side).network.IsPointwise (value.get side))
    {tablebase : Option (Tablebase ω P)} {answer : P → Wdl × ProbeState}
    (htablebase : ∀ tb ∈ tablebase, tb.IsFixed answer)
    {openings : List (Opening M)} {batch : Batch P M}
    (hbatch : Batch.ofOpenings players openings = .ok batch) :
    (∀ (i : Nat) (opening : Opening M), openings[i]? = some opening →
      ∃ alone : Batch P M, Batch.ofOpenings players [opening] = .ok alone ∧
        ∀ world world' final finalAlone,
          batch.Finishes (players.map (·.network)) tablebase world final →
          alone.Finishes (players.map (·.network)) tablebase world' finalAlone →
          ∃ last, final.games[i]? = some last ∧ finalAlone.games = [last] ∧
            last.result.isTerminal = true ∧
            final.gameMoves? i = finalAlone.gameMoves? 0 ∧
            final.headFen? i = finalAlone.headFen? 0) ∧
    ∀ world world',
      (∃ final, batch.Finishes (players.map (·.network)) tablebase world final) ↔
        ∀ opening ∈ openings, ∃ alone finalAlone : Batch P M,
          Batch.ofOpenings players [opening] = .ok alone ∧
            alone.Finishes (players.map (·.network)) tablebase world' finalAlone := by
  let judgement : Judgement ω P := ⟨players.map (·.network), value, tablebase, answer⟩
  have h : judgement.Holds := ⟨fun side => by rw [PerSide.get_map]; exact hnetworks side, htablebase⟩
  have hrun := Batch.aborted_of_ofOpenings hbatch
  constructor
  · intro i opening hi
    obtain ⟨game, hgame, halone⟩ := Batch.alone_of_ofOpenings hbatch hi
    refine ⟨_, halone, ?_⟩
    intro world world' final finalAlone hfinal hfinalAlone
    have hfirst : (⟨batch.chess960, [game], 0, false⟩ : Batch P M).games[0]? = some game := rfl
    obtain ⟨last, hlast, hlastAlone, hterminal⟩ :=
      Batch.end_eq_of_finishes h hrun rfl hfinal hfinalAlone hgame hfirst
    obtain ⟨hwritten, -, -⟩ := Batch.game_of_finishes h hrun hfinal
    obtain ⟨hwrittenAlone, hlength, -⟩ := Batch.game_of_finishes h rfl hfinalAlone
    refine ⟨last, hlast, ?_, hterminal, ?_, ?_⟩
    · obtain ⟨other, hother⟩ := List.length_eq_one_iff.mp hlength
      rw [hother] at hlastAlone ⊢
      obtain rfl : other = last := by simpa using hlastAlone
      rfl
    · unfold Batch.gameMoves?
      rw [hlast, hlastAlone, hwritten, hwrittenAlone]
    · unfold Batch.headFen?
      rw [hlast, hlastAlone]
  · intro world world'
    -- both sides say that the turns of each opening's game end
    rw [Batch.finishes_iff h hrun world]
    constructor
    · intro hends opening hmem
      obtain ⟨i, hi⟩ := List.mem_iff_getElem?.mp hmem
      obtain ⟨game, hgame, halone⟩ := Batch.alone_of_ofOpenings hbatch hi
      have hfinishes : ∃ final, (⟨batch.chess960, [game], 0, false⟩ : Batch P M).Finishes
          judgement.networks judgement.tablebase world' final :=
        (Batch.finishes_iff h rfl world').mpr
          (List.forall_mem_singleton.mpr (hends game (List.mem_of_getElem? hgame)))
      obtain ⟨finalAlone, hfinalAlone⟩ := hfinishes
      exact ⟨_, finalAlone, halone, hfinalAlone⟩
    · intro hopenings game hmem
      obtain ⟨i, hgame⟩ := List.mem_iff_getElem?.mp hmem
      have hlt := (List.getElem?_eq_some_iff.mp hgame).1
      rw [Batch.length_games_of_ofOpenings hbatch] at hlt
      obtain ⟨alone, finalAlone, halone, hfinalAlone⟩ := hopenings _ (List.getElem_mem hlt)
      obtain ⟨game', hgame', halone'⟩ :=
        Batch.alone_of_ofOpenings hbatch (List.getElem?_eq_getElem hlt)
      rw [hgame'] at hgame
      cases hgame
      rw [halone'] at halone
      cases halone
      exact (Batch.finishes_iff h rfl world').mp ⟨finalAlone, hfinalAlone⟩ game
        (List.mem_singleton_self game)

open TicTacToe in
/-- Black's win, found beside a game that the tablebase decides for white, is found alone too. -/
theorem winning_game_eq_game_alone :
    ∃ alone final finalAlone : Batch Position Square,
      Batch.ofOpenings linePlayers winningOpenings = .ok winningBatch ∧
      Batch.ofOpenings linePlayers [⟨"x../oo./xx.", []⟩] = .ok alone ∧
      winningBatch.Finishes (linePlayers.map (·.network)) (some (perfectTablebase Unit 4)) ()
        final ∧
      alone.Finishes (linePlayers.map (·.network)) (some (perfectTablebase Unit 4)) () finalAlone ∧
      final.gameMoves? 1 = some [⟨2, 1⟩] ∧ finalAlone.gameMoves? 0 = some [⟨2, 1⟩] := by
  have hfinal : winningBatch.Finishes (linePlayers.map (·.network))
      (some (perfectTablebase Unit 4)) () _ :=
    Batch.finishes_of_playFor 2 (by decide +kernel)
  obtain ⟨hsame, hfinishes⟩ := batch_game_eq_game_alone linePlayers_isPointwise
    (solver_isFixed 4) ofOpenings_winningOpenings
  obtain ⟨alone, halone, hsame⟩ := hsame 1 ⟨"x../oo./xx.", []⟩ rfl
  obtain ⟨alone', finalAlone, halone', hfinalAlone⟩ :=
    (hfinishes () ()).mp ⟨_, hfinal⟩ ⟨"x../oo./xx.", []⟩ (by simp [winningOpenings])
  rw [halone] at halone'
  cases halone'
  obtain ⟨last, -, -, -, hmoves, -⟩ := hsame () () _ finalAlone hfinal hfinalAlone
  have hwin : (winningBatch.playFor (linePlayers.map (·.network))
      (some (perfectTablebase Unit 4)) 2 ()).2.1.gameMoves? 1 = some [⟨2, 1⟩] := by decide +kernel
  exact ⟨alone, _, finalAlone, ofOpenings_winningOpenings, halone, hfinal, hfinalAlone, hwin,
    hmoves.symm.trans hwin⟩

end SelfPlay.Lookahead
