import Mathlib.Algebra.GroupWithZero.Nat
import Mathlib.Algebra.Order.BigOperators.Group.List
import Mathlib.Algebra.Order.Group.Nat
import Mathlib.Order.Lattice.Nat
import SelfPlay.Proofs.Lookahead.Turn

/-!
# Runs of a batch as turns of its games

A run that finishes has taken each game along its own turns to their end (`game_of_finishes`), and
it does finish if all these turns end (`finishes_of_ends`): a round is never wasted, since the first
open game moves in it. Nothing is assumed about the world that the networks and the tablebase live
in, nor about the number of turns of the other games.
-/

namespace SelfPlay.Lookahead

variable {ω P M : Type} [BoardMove M] [DecidableEq M] [Board P M]
variable {judgement : Judgement ω P}

/-- Play from a batch in a world comes to its own end with the batch `final`. -/
def Batch.Finishes (networks : PerSide (Network ω)) (tablebase : Option (Tablebase ω P))
    (batch : Batch P M) (world : ω) (final : Batch P M) : Prop :=
  ∃ rounds after, batch.playFor networks tablebase rounds world = (.finished, final, after)

theorem Batch.finishes_of_playFor {networks : PerSide (Network ω)}
    {tablebase : Option (Tablebase ω P)} {batch : Batch P M} {world : ω} (rounds : Nat)
    (h : (batch.playFor networks tablebase rounds world).1 = .finished) :
    batch.Finishes networks tablebase world (batch.playFor networks tablebase rounds world).2.1 :=
  ⟨rounds, _, by rw [← h]⟩

namespace BatchGame

/-- The game is over after some number of its own turns. -/
def EndsAfter (judgement : Judgement ω P) (game : BatchGame P M) (k : Nat) : Prop :=
  (((turn judgement)^[k] game).rest judgement).result.isTerminal = true

theorem endsAfter_rest_iff (game : BatchGame P M) (k : Nat) :
    (game.rest judgement).EndsAfter judgement k ↔ game.EndsAfter judgement k := by
  unfold EndsAfter
  rw [rest_iterate_congr (rest_rest judgement game)]

theorem endsAfter_turn_iff (game : BatchGame P M) (k : Nat) :
    (game.turn judgement).EndsAfter judgement k ↔ game.EndsAfter judgement (k + 1) := by
  unfold EndsAfter
  rw [Function.iterate_succ_apply]

theorem endsAfter_succ {game : BatchGame P M} {k : Nat} (h : game.EndsAfter judgement k) :
    game.EndsAfter judgement (k + 1) := by
  unfold EndsAfter at h ⊢
  rw [Function.iterate_succ_apply', turn_of_isTerminal h, rest_rest]
  exact h

/-- A game has one end only. -/
theorem end_unique {game : BatchGame P M} {k l : Nat} (hk : game.EndsAfter judgement k)
    (hl : game.EndsAfter judgement l) :
    ((turn judgement)^[k] game).rest judgement = ((turn judgement)^[l] game).rest judgement := by
  rcases Nat.le_total k l with hle | hle
  · obtain ⟨d, rfl⟩ := Nat.exists_eq_add_of_le' hle
    rw [Function.iterate_add_apply, rest_iterate_of_isTerminal hk]
  · obtain ⟨d, rfl⟩ := Nat.exists_eq_add_of_le' hle
    rw [Function.iterate_add_apply, rest_iterate_of_isTerminal hl]

/-- The number of turns to the end. -/
noncomputable def turnsLeft (judgement : Judgement ω P) (game : BatchGame P M) : Nat :=
  sInf {k | game.EndsAfter judgement k}

theorem turnsLeft_rest (game : BatchGame P M) :
    (game.rest judgement).turnsLeft judgement = game.turnsLeft judgement := by
  unfold turnsLeft
  simp only [endsAfter_rest_iff]

/-- An open game comes nearer to its end by a turn. -/
theorem turnsLeft_turn_lt {game : BatchGame P M}
    (hopen : (game.rest judgement).result.isTerminal = false)
    (hend : ∃ k, game.EndsAfter judgement k) :
    (game.turn judgement).turnsLeft judgement < game.turnsLeft judgement := by
  have hleast : game.EndsAfter judgement (game.turnsLeft judgement) := Nat.sInf_mem hend
  cases hleft : game.turnsLeft judgement with
  | zero =>
    rw [hleft] at hleast
    have hterminal : (game.rest judgement).result.isTerminal = true := hleast
    rw [hopen] at hterminal
    cases hterminal
  | succ k =>
    rw [hleft, ← endsAfter_turn_iff] at hleast
    exact Nat.lt_succ_of_le (Nat.sInf_le hleast)

end BatchGame

namespace Batch

/-- In a run that finishes each game reaches the end of its own turns. -/
theorem game_of_finishes (h : judgement.Holds) {batch final : Batch P M}
    (hrun : batch.aborted = false) {world : ω}
    (hplay : batch.Finishes judgement.networks judgement.tablebase world final) :
    final.chess960 = batch.chess960 ∧ final.games.length = batch.games.length ∧
      ∀ (i : Nat) (game : BatchGame P M), batch.games[i]? = some game → ∃ k, game.EndsAfter judgement k ∧
        final.games[i]? = some (((BatchGame.turn judgement)^[k] game).rest judgement) := by
  obtain ⟨rounds, after, hplay⟩ := hplay
  induction rounds generalizing batch world with
  | zero =>
    rw [playFor] at hplay
    cases hplay
  | succ rounds ih =>
    rcases round_of_holds h hrun world with ⟨hnone, after', hround⟩ |
        ⟨first, side, -, -, after', hround⟩
    · rw [playFor_of_round_eq_some rounds hround] at hplay
      cases hplay
      refine ⟨rfl, by simp [rest], ?_⟩
      intro i game hi
      have hgame : (batch.rest judgement).games[i]? = some (game.rest judgement) := by
        simp [rest, hi]
      have hmem := List.mem_of_getElem? hgame
      exact ⟨0, isTerminal_of_firstUndecided?_eq_none hnone _ hmem, hgame⟩
    · rw [playFor_of_round_eq_none rounds hround] at hplay
      have hgoes : (batch.turned judgement side).aborted = false := hrun
      obtain ⟨hwritten, hlength, hgames⟩ := ih hgoes hplay
      refine ⟨hwritten, by rw [hlength, games_turned, List.length_map], ?_⟩
      intro i game hi
      by_cases hside : (game.rest judgement).awaits side = true
      · obtain ⟨k, hend, hfinal⟩ := hgames i (game.turn judgement)
          (by rw [games_turned, List.getElem?_map, hi, Option.map_some, if_pos hside])
        exact ⟨k + 1, (BatchGame.endsAfter_turn_iff game k).mp hend, hfinal⟩
      · obtain ⟨k, hend, hfinal⟩ := hgames i (game.rest judgement)
          (by rw [games_turned, List.getElem?_map, hi, Option.map_some, if_neg hside])
        rw [BatchGame.rest_iterate_congr (BatchGame.rest_rest judgement game)] at hfinal
        exact ⟨k, (BatchGame.endsAfter_rest_iff game k).mp hend, hfinal⟩

/-- Nobody asks for a stop while networks only judge positions. -/
theorem aborted_of_playFor (h : judgement.Holds) {batch final : Batch P M} {rounds : Nat}
    {world last : ω} {ending : PlayEnd} (hrun : batch.aborted = false)
    (hplay : batch.playFor judgement.networks judgement.tablebase rounds world =
      (ending, final, last)) : final.aborted = false := by
  induction rounds generalizing batch world with
  | zero =>
    cases hplay
    exact hrun
  | succ rounds ih =>
    rcases round_of_holds h hrun world with ⟨-, after, hround⟩ | ⟨first, side, -, -, after, hround⟩
    · rw [playFor_of_round_eq_some rounds hround] at hplay
      cases hplay
      exact hrun
    · rw [playFor_of_round_eq_none rounds hround] at hplay
      have hgoes : (batch.turned judgement side).aborted = false := hrun
      exact ih hgoes hplay

/-- A round that does not end the play brings the games nearer to their ends. -/
theorem turnsLeft_round_lt {batch : Batch P M} {first : BatchGame P M} {side : Color}
    (hends : ∀ game ∈ batch.games, ∃ k, game.EndsAfter judgement k)
    (hfirst : (batch.rest judgement).firstUndecided? = some first)
    (hside : first.awaits side = true) :
    ((batch.games.map fun game =>
        if (game.rest judgement).awaits side then game.turn judgement
        else game.rest judgement).map (BatchGame.turnsLeft judgement)).sum <
      (batch.games.map (BatchGame.turnsLeft judgement)).sum := by
  have hturn : ∀ game ∈ batch.games, (game.rest judgement).awaits side = true →
      (game.turn judgement).turnsLeft judgement < game.turnsLeft judgement :=
    fun game hmem hawaits =>
      BatchGame.turnsLeft_turn_lt
        (GameResult.isTerminal_eq_false_iff.mpr (BatchGame.awaits_iff.mp hawaits).1)
        (hends game hmem)
  rw [List.map_map]
  apply List.sum_lt_sum
  · intro game hmem
    by_cases hawaits : (game.rest judgement).awaits side = true
    · rw [Function.comp_apply, if_pos hawaits]
      exact Nat.le_of_lt (hturn game hmem hawaits)
    · rw [Function.comp_apply, if_neg hawaits, BatchGame.turnsLeft_rest]
  · obtain ⟨game, hmem, rfl⟩ := List.mem_map.mp (List.mem_of_find?_eq_some hfirst)
    refine ⟨game, hmem, ?_⟩
    rw [Function.comp_apply, if_pos hside]
    exact hturn game hmem hside

theorem ends_round {batch : Batch P M} {side : Color}
    (hends : ∀ game ∈ batch.games, ∃ k, game.EndsAfter judgement k) :
    ∀ game ∈ (batch.turned judgement side).games, ∃ k, game.EndsAfter judgement k := by
  intro game hmem
  rw [games_turned] at hmem
  obtain ⟨before, hbefore, rfl⟩ := List.mem_map.mp hmem
  obtain ⟨k, hend⟩ := hends before hbefore
  refine ⟨k, ?_⟩
  split
  · exact (BatchGame.endsAfter_turn_iff before k).mpr (BatchGame.endsAfter_succ hend)
  · exact (BatchGame.endsAfter_rest_iff before k).mpr hend

/-- If the turns of each game end, play finishes. -/
theorem finishes_of_ends (h : judgement.Holds) {batch : Batch P M} (hrun : batch.aborted = false)
    (hends : ∀ game ∈ batch.games, ∃ k, game.EndsAfter judgement k) (world : ω) :
    ∃ final, batch.Finishes judgement.networks judgement.tablebase world final := by
  -- the induction is on the turns left in all games together
  generalize hleft : (batch.games.map (BatchGame.turnsLeft judgement)).sum = left
  induction left using Nat.strong_induction_on generalizing batch world with
  | h left ih =>
    rcases round_of_holds h hrun world with ⟨-, after, hround⟩ |
        ⟨first, side, hfirst, hside, after, hround⟩
    · exact ⟨batch.rest judgement, 1, after, playFor_of_round_eq_some 0 hround⟩
    · have hless := turnsLeft_round_lt hends hfirst hside
      rw [hleft, ← games_turned] at hless
      have hgoes : (batch.turned judgement side).aborted = false := hrun
      obtain ⟨final, rounds, after', hplay⟩ := ih _ hless hgoes (ends_round hends) after rfl
      exact ⟨final, rounds + 1, after', (playFor_of_round_eq_none rounds hround).trans hplay⟩

/-- Play finishes exactly if the turns of each game end. -/
theorem finishes_iff (h : judgement.Holds) {batch : Batch P M} (hrun : batch.aborted = false)
    (world : ω) :
    (∃ final, batch.Finishes judgement.networks judgement.tablebase world final) ↔
      ∀ game ∈ batch.games, ∃ k, game.EndsAfter judgement k := by
  constructor
  · rintro ⟨final, hfinal⟩ game hmem
    obtain ⟨i, hi⟩ := List.mem_iff_getElem?.mp hmem
    obtain ⟨-, -, hgames⟩ := game_of_finishes h hrun hfinal
    obtain ⟨k, hend, -⟩ := hgames i game hi
    exact ⟨k, hend⟩
  · intro hends
    exact finishes_of_ends h hrun hends world

/-- Two batches that hold a game at the same point of its course end it alike. -/
theorem end_eq_of_finishes (h : judgement.Holds) {batch other final finalOther : Batch P M}
    (hrun : batch.aborted = false) (hother : other.aborted = false) {world world' : ω}
    (hfinal : batch.Finishes judgement.networks judgement.tablebase world final)
    (hfinalOther : other.Finishes judgement.networks judgement.tablebase world' finalOther)
    {i j : Nat} {game : BatchGame P M} (hi : batch.games[i]? = some game)
    (hj : other.games[j]? = some game) :
    ∃ last, final.games[i]? = some last ∧ finalOther.games[j]? = some last ∧
      last.result.isTerminal = true := by
  obtain ⟨-, -, hgames⟩ := game_of_finishes h hrun hfinal
  obtain ⟨-, -, hgames'⟩ := game_of_finishes h hother hfinalOther
  obtain ⟨k, hend, hlast⟩ := hgames i game hi
  obtain ⟨l, hend', hlast'⟩ := hgames' j game hj
  rw [BatchGame.end_unique hend' hend] at hlast'
  exact ⟨_, hlast, hlast', hend⟩

end Batch

end SelfPlay.Lookahead
