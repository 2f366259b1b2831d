import SelfPlay.Command.Session
import SelfPlay.Proofs.Lookahead.Run
import SelfPlay.Proofs.Lookahead.Termination
import SelfPlay.Proofs.Openings.Lines

/-!
# Sessions that were prepared and played

What a session is made of when nothing was refused: its openings are those of its lines, and the
openings of its games are these in turn. Played, such a session finishes, and every game has a
result.
-/

namespace SelfPlay.Command

open SelfPlay.TicTacToe
open SelfPlay.Lookahead (Batch Judgement)

/-- The elements of a list in turn, so many in all. -/
def takeTurns {α : Type} (list : List α) (count : Nat) : List α :=
  (inTurn list.length count).filterMap fun i => list[i]?

section

variable {α : Type} {list : List α} {count : Nat}

theorem takeTurns_eq (h : list ≠ []) (count : Nat) :
    takeTurns list count = (List.range count).map fun i =>
      list.get ⟨i % list.length, Nat.mod_lt _ (List.length_pos_iff.mpr h)⟩ := by
  unfold takeTurns inTurn
  rw [List.filterMap_map, ← List.filterMap_eq_map]
  refine List.filterMap_congr fun i _ => ?_
  exact List.getElem?_eq_getElem _

theorem length_takeTurns (h : list ≠ []) : (takeTurns list count).length = count := by
  rw [takeTurns_eq h, List.length_map, List.length_range]

theorem getElem?_takeTurns (h : list ≠ []) {i : Nat} (hi : i < count) :
    (takeTurns list count)[i]? = list[i % list.length]? := by
  rw [takeTurns_eq h, List.getElem?_map, List.getElem?_range hi, Option.map_some]
  exact (List.getElem?_eq_getElem _).symm

end

theorem buildOpenings_eq_ok_iff {lines : List OpeningLine} {openings : List (Opening Square)} :
    buildOpenings lines = .ok openings ↔
      List.Forall₂ (fun line opening =>
        line.build Position Square.ofName Position.startText = .ok opening) lines openings := by
  induction lines generalizing openings with
  | nil =>
    rw [buildOpenings, List.forall₂_nil_left_iff]
    constructor
    · rintro ⟨⟩
      rfl
    · rintro rfl
      rfl
  | cons line rest ih =>
    rw [buildOpenings, List.forall₂_cons_left_iff]
    cases hline : line.build Position Square.ofName Position.startText with
    | error fault => simp
    | ok opening =>
      simp only [← ih]
      cases hrest : buildOpenings rest with
      | error fault => simp [Except.map]
      | ok others => simp [Except.map, eq_comm]

namespace Session

/-- What a session is made of when its games begin with the openings in turn. -/
structure IsReady (session : Session) (source : FileSource) (arguments : Arguments)
    (openings : List (Opening Square)) : Prop where
  arguments_eq : session.arguments = arguments
  games_pos : 0 < arguments.games
  loaded : Openings.load source arguments.openings arguments.fen = .ok session.lines
  built : List.Forall₂ (fun line opening =>
    line.build Position Square.ofName Position.startText = .ok opening) session.lines openings
  assignment_eq : session.assignment = inTurn openings.length arguments.games
  networks_eq : session.players.map Player.network =
    ⟨heuristicNetwork Unit, heuristicNetwork Unit⟩
  begun : Batch.ofOpenings session.players (takeTurns openings arguments.games) =
    .ok session.batch

/-- Nothing was refused when a session was prepared. -/
theorem isReady_of_prepare {ρ : Type} {source : FileSource} {generator : Generator ρ}
    {arguments : Arguments} {config : SelfPlayConfig} {session : Session}
    (hgames : 0 < arguments.games) (hturn : arguments.random = false)
    (h : prepare source generator arguments config = .ok session) :
    ∃ openings, session.IsReady source arguments openings := by
  unfold prepare at h
  split at h
  · cases h
  · rename_i lines hlines
    split at h
    · cases h
    · rename_i openings hopenings
      unfold assignOpenings at h
      simp only [hturn, Bool.false_eq_true, if_false] at h
      split at h
      · cases h
      · rename_i made hmade
        cases h
        obtain ⟨white, -, hmade⟩ := exists_of_bind_eq_ok hmade
        obtain ⟨black, -, hmade⟩ := exists_of_bind_eq_ok hmade
        obtain ⟨batch, hbatch, hmade⟩ := exists_of_bind_eq_ok hmade
        cases hmade
        exact ⟨openings, rfl, hgames, hlines, buildOpenings_eq_ok_iff.mp hopenings, rfl, rfl,
          hbatch⟩

theorem IsReady.outputPath_eq {session : Session} {source : FileSource} {arguments : Arguments}
    {openings : List (Opening Square)} (h : session.IsReady source arguments openings)
    {path : String} (hout : arguments.out = some path) (clock : Clock) :
    session.outputPath clock = path := by
  unfold outputPath
  rw [h.arguments_eq, hout, Option.getD_some]

/-- What the solver tells a session about a position. -/
def solved (position : Position) : Wdl × ProbeState := (outcomeOf (solve position), .ok)

theorem tablebase_isFixed (session : Session) : ∀ tb ∈ session.tablebase, tb.IsFixed solved := by
  intro tb htb
  obtain ⟨pieces, -, rfl⟩ := Option.map_eq_some_iff.mp htb
  exact perfectTablebase_isFixed Unit pieces

/-- A batch at the end of its games. -/
structure PlayedTo (session : Session) (final : Batch Position Square) : Prop where
  play_eq : session.play = { session with batch := final }
  leads : session.batch.Leads (session.players.map Player.network) session.tablebase final
  aborted_eq : final.aborted = false
  decided : ∀ game ∈ final.games, game.result.isTerminal = true

/-- **A session that is ready can be played to the end.** -/
theorem IsReady.exists_playedTo {session : Session} {source : FileSource} {arguments : Arguments}
    {openings : List (Opening Square)} (h : session.IsReady source arguments openings) :
    ∃ final, session.PlayedTo final := by
  obtain ⟨ending, final, last, hplay⟩ : ∃ ending final last,
      session.batch.playFor (session.players.map Player.network) session.tablebase
        (roundLimit session.batch) () = (ending, final, last) := ⟨_, _, _, rfl⟩
  have hanswers (side : Color) : ((session.players.map Player.network).get side).NeverFails := by
    rw [h.networks_eq]
    cases side <;> exact fun _ _ => ⟨_, rfl⟩
  have hrun : final.aborted = false := by
    have hholds : Judgement.Holds ⟨session.players.map Player.network,
        ⟨heuristicValue, heuristicValue⟩, session.tablebase, solved⟩ := by
      refine ⟨fun side => ?_, session.tablebase_isFixed⟩
      rw [h.networks_eq]
      cases side <;> exact heuristicNetwork_isPointwise Unit
    exact Batch.aborted_of_playFor hholds (Batch.aborted_of_ofOpenings h.begun) hplay
  have hfinished : ending = .finished := by
    cases ending with
    | finished => rfl
    | failed error => exact absurd rfl (Batch.playFor_ne_failed hanswers hplay error)
    | cutShort =>
      exact absurd rfl (Batch.ne_cutShort_of_roundsLeft_lt
        (Batch.isFresh_of_ofOpenings h.begun) session.batch.roundsLeft_lt_roundLimit hplay)
  subst hfinished
  refine ⟨final, ?_, Batch.leads_of_playFor hplay, hrun, Batch.isTerminal_of_finished hplay hrun⟩
  unfold play
  simp only [hplay]

end Session

theorem isReady_of_prepare {ρ : Type} {source : FileSource} {generator : Generator ρ}
    {arguments : Arguments} {session : Session} (hturn : arguments.random = false)
    (h : (prepare source generator arguments).session = .ok session) :
    ∃ openings, session.IsReady source arguments openings := by
  unfold prepare at h
  split at h
  · cases h
  · rename_i hgames
    split at h
    · cases h
    · exact Session.isReady_of_prepare (Nat.pos_of_ne_zero hgames) hturn h

/-- A generator that always chooses the first thing. -/
def firstChoice : Generator Unit where
  ofSeed _ := ()
  unseeded := ()
  choose count _ := (if count = 0 then none else some 0, ())

end SelfPlay.Command
