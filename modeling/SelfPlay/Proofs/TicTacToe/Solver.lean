import SelfPlay.Board.History
import SelfPlay.Proofs.Lookahead.Ruling
import SelfPlay.Proofs.TicTacToe.Lines
import SelfPlay.TicTacToe.Solver

/-!
# What the solver finds

The search of a position is stated as it runs, without a bound on its depth (`Finds`). Every legal
move takes a vacant square, so the search comes to an end, and what it finds is `solve`. A finished
game it takes for lost by the side to move unless it is drawn: on the games that are asked about
after a move this is what the rules say, and on positions that are read in it need not be.
-/

namespace SelfPlay.TicTacToe

open Position

variable {position : Position} {side : Color}

section BestScore

variable {value other : Square → Int} {best : Int} {moves : List Square}

theorem bestScore_congr (h : ∀ move ∈ moves, value move = other move) (best : Int) :
    bestScore value best moves = bestScore other best moves := by
  induction moves generalizing best with
  | nil => rfl
  | cons move rest ih =>
    obtain ⟨hmove, hrest⟩ := List.forall_mem_cons.mp h
    simp only [bestScore, hmove, ih hrest]

theorem bestScore_of_le (h : ∀ move ∈ moves, -value move ≤ best) :
    bestScore value best moves = best := by
  induction moves with
  | nil => rfl
  | cons move rest ih =>
    obtain ⟨hmove, hrest⟩ := List.forall_mem_cons.mp h
    rw [bestScore, if_neg (by omega), ih hrest]

theorem le_bestScore (value : Square → Int) (best : Int) (moves : List Square) :
    best ≤ bestScore value best moves := by
  induction moves generalizing best with
  | nil => exact Int.le_refl best
  | cons move rest ih =>
    rw [bestScore]
    by_cases hbetter : best < -value move
    · rw [if_pos hbetter]
      by_cases hwin : -value move = 1
      · rw [if_pos hwin]
        exact Int.le_of_lt hbetter
      · rw [if_neg hwin]
        exact Int.le_trans (Int.le_of_lt hbetter) (ih _)
    · rw [if_neg hbetter]
      exact ih best

/-- **Stopping at a win loses nothing** where no score is better than a win. -/
theorem bestScore_eq_foldl (h : ∀ move ∈ moves, -value move ≤ 1) (best : Int) :
    bestScore value best moves = (moves.map fun move => -value move).foldl max best := by
  induction moves generalizing best with
  | nil => rfl
  | cons move rest ih =>
    obtain ⟨-, hrest⟩ := List.forall_mem_cons.mp h
    rw [List.map_cons, List.foldl_cons, ← ih hrest]
    rw [bestScore]
    by_cases hbetter : best < -value move
    · rw [if_pos hbetter, Int.max_eq_right (Int.le_of_lt hbetter)]
      by_cases hwin : -value move = 1
      · rw [if_pos hwin, hwin, bestScore_of_le hrest]
      · rw [if_neg hwin]
    · rw [if_neg hbetter, Int.max_eq_left (by omega)]

end BestScore

theorem solve_of_draw (h : position.result = .draw) : solve position = 0 := by
  unfold solve solveWithin
  rw [h]

theorem solve_of_won (h : position.result = .won side) : solve position = -1 := by
  unfold solve solveWithin
  rw [h]

theorem solveWithin_of_undecided (h : position.result = .undecided) (depth : Nat) :
    solveWithin (depth + 1) position =
      bestScore (fun move => solveWithin depth (position.play move)) (-1) position.legalMoves := by
  conv_lhs => unfold solveWithin
  rw [h]

/-- The depth that the solver starts with is never used up. -/
theorem solve_of_undecided (h : position.result = .undecided) :
    solve position =
      bestScore (fun move => solve (position.play move)) (-1) position.legalMoves := by
  obtain ⟨first, hfirst⟩ := List.exists_mem_of_ne_nil _ (legalMoves_ne_nil h)
  unfold solve
  rw [← length_vacant_play hfirst, solveWithin_of_undecided h]
  refine bestScore_congr (fun move hmove => ?_) (-1)
  have hsame : (position.play first).vacant.length = (position.play move).vacant.length := by
    have hone := length_vacant_play hfirst
    have hother := length_vacant_play hmove
    omega
  rw [hsame]

theorem neg_one_le_solve (position : Position) : -1 ≤ solve position := by
  cases h : position.result with
  | draw =>
    have hvalue := solve_of_draw h
    omega
  | won winner =>
    have hvalue := solve_of_won h
    omega
  | undecided =>
    rw [solve_of_undecided h]
    exact le_bestScore _ _ _

mutual

/-- The search of a position comes to an end and finds a value. -/
inductive Finds : Position → Int → Prop
  | draw {position : Position} : position.result = .draw → Finds position 0
  | won {position : Position} {winner : Color} :
      position.result = .won winner → Finds position (-1)
  | searched {position : Position} {value : Int} : position.result = .undecided →
      Tries position (-1) position.legalMoves value → Finds position value

/-- The moves that remain are tried one after another, where the best score was `best` so far. -/
inductive Tries : Position → Int → List Square → Int → Prop
  | done {position : Position} {best : Int} : Tries position best [] best
  | worse {position : Position} {best value final : Int} {move : Square} {rest : List Square} :
      Finds (position.play move) value → ¬best < -value → Tries position best rest final →
      Tries position best (move :: rest) final
  | better {position : Position} {best value final : Int} {move : Square} {rest : List Square} :
      Finds (position.play move) value → best < -value → -value ≠ 1 →
      Tries position (-value) rest final → Tries position best (move :: rest) final
  | stopped {position : Position} {best value : Int} {move : Square} {rest : List Square} :
      Finds (position.play move) value → best < -value → -value = 1 →
      Tries position best (move :: rest) (-value)

end

theorem tries_iff {moves : List Square} {final : Int}
    (h : ∀ move ∈ moves, ∀ value,
      Finds (position.play move) value ↔ value = solve (position.play move)) (best : Int) :
    Tries position best moves final ↔
      final = bestScore (fun move => solve (position.play move)) best moves := by
  induction moves generalizing best with
  | nil =>
    refine ⟨fun htries => ?_, fun hfinal => hfinal ▸ .done⟩
    cases htries
    rfl
  | cons move rest ih =>
    obtain ⟨hmove, hrest⟩ := List.forall_mem_cons.mp h
    have hfound := (hmove _).mpr rfl
    simp only [bestScore]
    constructor
    · intro htries
      cases htries with
      | worse hfinds hworse htries =>
        obtain rfl := (hmove _).mp hfinds
        rw [if_neg hworse]
        exact (ih hrest best).mp htries
      | better hfinds hbetter hopen htries =>
        obtain rfl := (hmove _).mp hfinds
        rw [if_pos hbetter, if_neg hopen]
        exact (ih hrest _).mp htries
      | stopped hfinds hbetter hwin =>
        obtain rfl := (hmove _).mp hfinds
        rw [if_pos hbetter, if_pos hwin]
    · intro hfinal
      split at hfinal
      · rename_i hbetter
        split at hfinal
        · rename_i hwin
          exact hfinal ▸ .stopped hfound hbetter hwin
        · rename_i hopen
          exact .better hfound hbetter hopen ((ih hrest _).mpr hfinal)
      · rename_i hworse
        exact .worse hfound hworse ((ih hrest best).mpr hfinal)

/-- **The search of every position comes to an end**, and finds what `solve` gives. -/
theorem finds_iff (position : Position) (value : Int) :
    Finds position value ↔ value = solve position := by
  induction position using induction_of_play generalizing value with
  | play position ih =>
    cases hresult : position.result with
    | draw =>
      rw [solve_of_draw hresult]
      refine ⟨fun hfinds => ?_, fun hvalue => hvalue ▸ .draw hresult⟩
      cases hfinds with
      | draw => rfl
      | won hother | searched hother => rw [hresult] at hother; cases hother
    | won winner =>
      rw [solve_of_won hresult]
      refine ⟨fun hfinds => ?_, fun hvalue => hvalue ▸ .won hresult⟩
      cases hfinds with
      | won => rfl
      | draw hother | searched hother => rw [hresult] at hother; cases hother
    | undecided =>
      rw [solve_of_undecided hresult, ← tries_iff ih]
      refine ⟨fun hfinds => ?_, .searched hresult⟩
      cases hfinds with
      | searched _ htries => exact htries
      | draw hother | won hother => rw [hresult] at hother; cases hother

/-! ## Finished games -/

section Finished

variable {ω : Type} {maxPieces : Nat} {history : History Position}

/-- The solver takes the side that has just moved for the winner. -/
theorem adjudicate_of_isTerminal (hover : history.result.isTerminal = true)
    (hcovered : history.last.occupied.count ≤ maxPieces) (world : ω) :
    ((perfectTablebase ω maxPieces).adjudicate history.last world).1 =
      some (if history.result = .draw then .draw else .lost history.last.sideToMove) := by
  have hresult : history.result = history.last.result := rfl
  have hcovers : (perfectTablebase ω maxPieces : Tablebase ω Position).covers history.last = true :=
    decide_eq_true hcovered
  rw [Tablebase.adjudicate_of_isFixed (perfectTablebase_isFixed ω maxPieces), Tablebase.decision,
    if_pos hcovers]
  cases hlast : history.last.result with
  | undecided =>
    rw [hresult, hlast] at hover
    cases hover
  | draw =>
    rw [hresult, hlast]
    have hvalue : solve (StoneBoard.stones history.last) = 0 := solve_of_draw hlast
    rw [hvalue]
    rfl
  | won winner =>
    rw [hresult, hlast]
    have hvalue : solve (StoneBoard.stones history.last) = -1 := solve_of_won hlast
    rw [hvalue]
    rfl

/-- **On a finished game the solver and the rules agree just if the side to move has not won.** The
solver calls a drawn game drawn and any other lost for the side to move. After a move that was made
in an undecided position that is what the rules say; of a position that was read in they may say
that the side to move has won. -/
theorem solver_on_finished_games (hover : history.result.isTerminal = true)
    (hcovered : history.last.occupied.count ≤ maxPieces) (world : ω) :
    let answer := ((perfectTablebase ω maxPieces).adjudicate history.last world).1
    answer = some (if history.result = .draw then .draw else .lost history.last.sideToMove) ∧
    (answer = some history.result ↔ history.result ≠ .won history.last.sideToMove) ∧
    ∀ (before : Position) (move : Square), before.result = .undecided →
      history.last = before.play move → answer = some history.result := by
  intro answer
  have hanswer : answer = _ := adjudicate_of_isTerminal hover hcovered world
  have hagree : answer = some history.result ↔ history.result ≠ .won history.last.sideToMove := by
    rw [hanswer, Option.some_inj]
    cases hresult : history.result with
    | undecided =>
      rw [hresult] at hover
      cases hover
    | draw => simp
    | won winner =>
      cases winner <;> cases history.last.sideToMove <;> decide
  refine ⟨hanswer, hagree, ?_⟩
  intro before move hopen hlast
  rw [hagree]
  have hresult : history.result = (before.play move).result := congrArg Position.result hlast
  rw [hresult, hlast, sideToMove_play, Ne, result_play_eq_won_iff hopen]
  exact fun hwon => Color.opponent_ne _ hwon.1

/-- White has just completed a line. -/
theorem solver_on_finished_rank :
    let history : History Position := .ofStart ⟨0x1C0, 0x018, 5⟩
    ofFen "xxx/oo./..." = .ok history.last ∧ history.result = .won .white ∧
      ((perfectTablebase Unit 5).adjudicate history.last ()).1 = some (.won .white) := by
  intro history
  have hresult : history.result = .won .white := by decide
  have hturn : history.last.sideToMove = .black := by decide
  have hover : history.result.isTerminal = true := by rw [hresult]; rfl
  have hcovered : history.last.occupied.count ≤ 5 := by decide
  obtain ⟨-, hagree, -⟩ := solver_on_finished_games hover hcovered ()
  refine ⟨by decide +kernel, hresult, ?_⟩
  rw [← hresult]
  exact hagree.mpr (by rw [hresult, hturn]; decide)

/-- White has a line, and as many stones are on the board as if black had moved since. -/
theorem solver_differs_on_late_rank :
    ∃ position, ofFen "xxx/oo./o.." = .ok position ∧
      (History.ofStart position).result = .won .white ∧
      ((perfectTablebase Unit 9).adjudicate position ()).1 = some (.won .black) :=
  ⟨⟨0x1C0, 0x019, 6⟩, by decide +kernel, by decide, by decide +kernel⟩

end Finished

end SelfPlay.TicTacToe
