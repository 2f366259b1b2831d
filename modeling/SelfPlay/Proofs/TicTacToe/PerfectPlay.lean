import Mathlib.Data.Nat.Find
import SelfPlay.Proofs.TicTacToe.Solver

/-!
# What the solver's values mean

In an undecided position the solver's value is that of full minimax: stopping at a win loses nothing,
and a line always belongs to the side that has just moved. Minimax in turn tells who can force a
line. A side whose value is 1 follows moves that keep it so; where the value is less, such moves of
the other side are a reply to any strategy.
-/

namespace SelfPlay.TicTacToe

open Position

variable {position : Position} {side : Color}

/-- The value of a position for a side, over all legal moves to the end of the game: the rules'
verdict on a finished game, the greatest value after a move of the side's own, and the least after
a move of the other side. -/
def minimax (side : Color) (position : Position) : Int :=
  let values := position.legalMoves.attach.map fun ⟨move, _⟩ => minimax side (position.play move)
  if position.result.isTerminal then position.result.score side
  else if position.sideToMove = side then values.max?.getD 0
  else values.min?.getD 0
termination_by position.vacant.length
decreasing_by
  rename_i hmove
  have hless := length_vacant_play hmove
  omega

theorem minimax_of_isTerminal (h : position.result.isTerminal = true) :
    minimax side position = position.result.score side := by
  rw [minimax]
  exact if_pos h

theorem minimax_of_undecided (h : position.result = .undecided) :
    minimax side position =
      if position.sideToMove = side then
        (position.legalMoves.map fun move => minimax side (position.play move)).max?.getD 0
      else (position.legalMoves.map fun move => minimax side (position.play move)).min?.getD 0 := by
  rw [minimax, h, List.attach_map_val (f := fun move => minimax side (position.play move))]
  rfl

/-- The value of an undecided position is that of some legal move. No move of a side's own raises its
value, and no move of the other side lowers it. -/
theorem exists_minimax (h : position.result = .undecided) (side : Color) :
    ∃ move ∈ position.legalMoves, minimax side position = minimax side (position.play move) ∧
      ∀ other ∈ position.legalMoves,
        (position.sideToMove = side →
          minimax side (position.play other) ≤ minimax side position) ∧
        (position.sideToMove ≠ side →
          minimax side position ≤ minimax side (position.play other)) := by
  have hnonempty := List.map_eq_nil_iff (f := fun move => minimax side (position.play move)).not.mpr
    (legalMoves_ne_nil h)
  rw [minimax_of_undecided h]
  by_cases hown : position.sideToMove = side
  · obtain ⟨greatest, hgreatest⟩ := Option.isSome_iff_exists.mp (List.isSome_max?_of_ne_nil hnonempty)
    obtain ⟨hmem, hall⟩ := List.max?_eq_some_iff.mp hgreatest
    obtain ⟨move, hmove, hvalue⟩ := List.mem_map.mp hmem
    rw [if_pos hown, hgreatest]
    refine ⟨move, hmove, hvalue.symm, fun other hother => ⟨fun _ => ?_, absurd hown⟩⟩
    exact hall _ (List.mem_map_of_mem hother)
  · obtain ⟨least, hleast⟩ := Option.isSome_iff_exists.mp (List.isSome_min?_of_ne_nil hnonempty)
    obtain ⟨hmem, hall⟩ := List.min?_eq_some_iff.mp hleast
    obtain ⟨move, hmove, hvalue⟩ := List.mem_map.mp hmem
    rw [if_neg hown, hleast]
    refine ⟨move, hmove, hvalue.symm, fun other hother => ⟨(absurd · hown), fun _ => ?_⟩⟩
    exact hall _ (List.mem_map_of_mem hother)

/-- What a position is worth to one side it costs the other. -/
theorem minimax_opponent (side : Color) (position : Position) :
    minimax side.opponent position = -minimax side position := by
  induction position using induction_of_play with
  | play position ih =>
    by_cases hover : position.result.isTerminal = true
    · rw [minimax_of_isTerminal hover, minimax_of_isTerminal hover, GameResult.score_opponent]
    · have hopen := GameResult.eq_undecided_of_not_isTerminal hover
      obtain ⟨move, hmove, hvalue, hbest⟩ := exists_minimax hopen side
      obtain ⟨other, hother, hvalue', hbest'⟩ := exists_minimax hopen side.opponent
      obtain ⟨hown, hreply⟩ := hbest other hother
      obtain ⟨hown', hreply'⟩ := hbest' move hmove
      rw [ih move hmove] at hown' hreply'
      rw [ih other hother] at hvalue'
      rcases Color.eq_or_eq_opponent position.sideToMove side with hturn | hturn
      · have hle := hown hturn
        have hle' := hreply' (hturn ▸ (Color.opponent_ne side).symm)
        omega
      · have hle := hreply (hturn ▸ Color.opponent_ne side)
        have hle' := hown' hturn
        omega

theorem minimax_mem_range (side : Color) (position : Position) :
    -1 ≤ minimax side position ∧ minimax side position ≤ 1 := by
  induction position using induction_of_play with
  | play position ih =>
    by_cases hover : position.result.isTerminal = true
    · rw [minimax_of_isTerminal hover]
      unfold GameResult.score
      split
      · split <;> decide
      · decide
    · obtain ⟨move, hmove, hvalue, -⟩ :=
        exists_minimax (GameResult.eq_undecided_of_not_isTerminal hover) side
      rw [hvalue]
      exact ih move hmove

/-- **The solver gives the minimax value** of every position that the side to move has not won. -/
theorem solve_eq_minimax (h : position.result ≠ .won position.sideToMove) :
    solve position = minimax position.sideToMove position := by
  induction position using induction_of_play with
  | play position ih =>
    cases hresult : position.result with
    | draw =>
      rw [solve_of_draw hresult, minimax_of_isTerminal (by rw [hresult]; rfl), hresult]
      rfl
    | won winner =>
      have hlost : winner ≠ position.sideToMove := fun hsame => h (hsame ▸ hresult)
      rw [solve_of_won hresult, minimax_of_isTerminal (by rw [hresult]; rfl), hresult]
      exact (if_neg hlost).symm
    | undecided =>
      have hvalue (move : Square) (hmove : move ∈ position.legalMoves) :
          -solve (position.play move) = minimax position.sideToMove (position.play move) := by
        rw [ih move hmove, sideToMove_play, minimax_opponent, Int.neg_neg]
        rw [Ne, result_play_eq_won_iff hresult, sideToMove_play]
        exact fun hwon => Color.opponent_ne _ hwon.1
      have hle (move : Square) : -solve (position.play move) ≤ 1 := by
        have := neg_one_le_solve (position.play move)
        omega
      obtain ⟨first, rest, hmoves⟩ := List.exists_cons_of_ne_nil (legalMoves_ne_nil hresult)
      rw [solve_of_undecided hresult, bestScore_eq_foldl fun move _ => hle move,
        List.map_congr_left hvalue, minimax_of_undecided hresult, if_pos rfl, hmoves,
        List.map_cons, List.max?_cons', List.foldl_cons,
        Int.max_eq_right (minimax_mem_range _ _).1]
      rfl

/-- A finished game that is worth a win to a side shows a line of that side. -/
theorem hasLine_of_minimax (h : position.result.isTerminal = true)
    (hvalue : minimax side position = 1) : (position.stonesOf side).hasLine = true := by
  rw [minimax_of_isTerminal h] at hvalue
  cases hresult : position.result with
  | won winner =>
    rw [hresult, GameResult.score] at hvalue
    split at hvalue
    · rename_i hside
      exact hasLine_of_result_eq_won (hside ▸ hresult)
    · cases hvalue
  | undecided | draw =>
    rw [hresult] at hvalue
    cases hvalue

/-- A side that has just got a line has the most it can have. -/
theorem minimax_of_hasLine {move : Square} (h : position.result = .undecided)
    (hline : ((position.play move).stonesOf side).hasLine = true) :
    minimax side (position.play move) = 1 := by
  have hmover := eq_sideToMove_of_hasLine_play h hline
  have hwon := (result_play_eq_won_iff h).mpr ⟨hmover, hline⟩
  rw [minimax_of_isTerminal (by rw [hwon]; rfl), hwon]
  exact if_pos rfl

/-! ## Strategies -/

/-- How a side picks its moves, where it knows all positions of the game so far. -/
abbrev Strategy := History Position → Square

/-- The game after so many moves, where `pick` tells the next move from the number of moves made and
the positions so far. -/
def gameOf (pick : Nat → History Position → Square) (start : Position) : Nat → History Position
  | 0 => .ofStart start
  | n + 1 => (gameOf pick start n).append (pick n (gameOf pick start n))

namespace Strategy

/-- One side follows a strategy, while the other side's moves are given by their number. -/
def against (own : Strategy) (side : Color) (replies : Nat → Square) (n : Nat)
    (history : History Position) : Square :=
  if history.last.sideToMove = side then own history else replies n

/-- Whatever the other side replies, if only it is legal, the strategy makes legal moves until there
is a line of its own side. -/
def Wins (own : Strategy) (side : Color) (start : Position) : Prop :=
  ∀ replies : Nat → Square,
    let pick := own.against side replies
    let game := gameOf pick start
    (∀ n, (game n).last.result = .undecided → (game n).last.sideToMove ≠ side →
      replies n ∈ (game n).last.legalMoves) →
    ∃ n, ((game n).last.stonesOf side).hasLine = true ∧
      ∀ k < n, pick k (game k) ∈ (game k).last.legalMoves

end Strategy

section GameOf

variable {pick : Nat → History Position → Square} {start : Position}

/-- A game in which a legal move is made wherever the rules leave it open comes to an end, and its
moves up to there were legal. -/
theorem exists_isTerminal_gameOf (hlegal : ∀ n, (gameOf pick start n).last.result = .undecided →
      pick n (gameOf pick start n) ∈ (gameOf pick start n).last.legalMoves) :
    ∃ n, (gameOf pick start n).last.result.isTerminal = true ∧
      ∀ k < n, pick k (gameOf pick start k) ∈ (gameOf pick start k).last.legalMoves := by
  have hends : ∃ n, (gameOf pick start n).last.result.isTerminal = true := by
    by_contra hnever
    have hopen (n : Nat) : (gameOf pick start n).last.result = .undecided :=
      GameResult.eq_undecided_of_not_isTerminal fun hover => hnever ⟨n, hover⟩
    have hvacant (n : Nat) : (gameOf pick start n).last.vacant.length + n = start.vacant.length := by
      induction n with
      | zero => rfl
      | succ n ih =>
        have hless := length_vacant_play (hlegal n (hopen n))
        rw [← ih, ← hless, Nat.add_assoc, Nat.add_comm 1 n]
        rfl
    have htoo := hvacant (start.vacant.length + 1)
    omega
  refine ⟨Nat.find hends, Nat.find_spec hends, fun k hk => hlegal k ?_⟩
  exact GameResult.eq_undecided_of_not_isTerminal (Nat.find_min hends hk)

/-- What legal moves keep holds as long as the moves of a game are legal. -/
theorem gameOf_keeps {motive : Position → Prop} (hstart : motive start)
    (hstep : ∀ n (history : History Position), motive history.last →
      pick n history ∈ history.last.legalMoves → motive (history.last.play (pick n history)))
    {n : Nat} (hlegal : ∀ k < n,
      pick k (gameOf pick start k) ∈ (gameOf pick start k).last.legalMoves) :
    motive (gameOf pick start n).last := by
  induction n with
  | zero => exact hstart
  | succ n ih =>
    exact hstep n _ (ih fun k hk => hlegal k (Nat.lt_succ_of_lt hk)) (hlegal n (Nat.lt_succ_self n))

end GameOf

/-- A legal move after which the position is worth as much to a side as before. -/
def steadyMove (side : Color) (position : Position) : Square :=
  (position.legalMoves.find? fun move =>
    minimax side (position.play move) = minimax side position).getD default

theorem steadyMove_spec (h : position.result = .undecided) (side : Color) :
    steadyMove side position ∈ position.legalMoves ∧
      minimax side (position.play (steadyMove side position)) = minimax side position := by
  obtain ⟨move, hmove, hvalue, -⟩ := exists_minimax h side
  obtain ⟨found, hfound⟩ := Option.isSome_iff_exists.mp (List.find?_isSome
    (p := fun move => decide (minimax side (position.play move) = minimax side position)).mpr
      ⟨move, hmove, decide_eq_true hvalue.symm⟩)
  have hsteady : steadyMove side position = found := by
    unfold steadyMove
    rw [hfound]
    rfl
  have hkept := List.find?_some hfound
  rw [hsteady]
  exact ⟨List.mem_of_find?_eq_some hfound, of_decide_eq_true hkept⟩

/-- A side whose value is 1 wins with steady moves. -/
theorem wins_of_minimax {start : Position} (h : minimax side start = 1) :
    Strategy.Wins (fun history => steadyMove side history.last) side start := by
  intro replies pick game hreplies
  obtain ⟨n, hover, hlegal⟩ : ∃ n, (game n).last.result.isTerminal = true ∧
      ∀ k < n, pick k (game k) ∈ (game k).last.legalMoves := by
    refine exists_isTerminal_gameOf fun n hopen => ?_
    by_cases hturn : (game n).last.sideToMove = side
    · have hpick : pick n (game n) = steadyMove side (game n).last := if_pos hturn
      rw [hpick]
      exact (steadyMove_spec hopen side).1
    · have hpick : pick n (game n) = replies n := if_neg hturn
      rw [hpick]
      exact hreplies n hopen hturn
  refine ⟨n, hasLine_of_minimax hover ?_, hlegal⟩
  refine gameOf_keeps (motive := fun position => minimax side position = 1) h ?_ hlegal
  intro n history hone hmove
  have hopen := (mem_legalMoves.mp hmove).1
  by_cases hturn : history.last.sideToMove = side
  · have hpick : pick n history = steadyMove side history.last := if_pos hturn
    rw [hpick, (steadyMove_spec hopen side).2, hone]
  · obtain ⟨-, -, -, hbest⟩ := exists_minimax hopen side
    have hle := (hbest _ hmove).2 hturn
    have hrange := (minimax_mem_range side (history.last.play (pick n history))).2
    omega

/-- Against a side whose value is less than 1 steady moves are a reply to every strategy. -/
theorem not_wins_of_minimax {start : Position} (hopen : start.result = .undecided)
    (h : minimax side start ≠ 1) (own : Strategy) : ¬own.Wins side start := by
  intro hwins
  let pick (_ : Nat) (history : History Position) : Square :=
    if history.last.sideToMove = side then own history else steadyMove side history.last
  -- Replies are to be named before the game is played: they are taken from the game with `pick`.
  let replies (n : Nat) : Square := steadyMove side (gameOf pick start n).last
  have hsame (n : Nat) : gameOf (own.against side replies) start n = gameOf pick start n := by
    induction n with
    | zero => rw [gameOf, gameOf]
    | succ n ih =>
      have hpick : own.against side replies n (gameOf pick start n) =
        pick n (gameOf pick start n) := rfl
      rw [gameOf, gameOf, ih, hpick]
  obtain ⟨n, hline, hlegal⟩ := hwins replies (by
    intro n hundecided _
    rw [hsame] at hundecided ⊢
    exact (steadyMove_spec hundecided side).1)
  simp only [hsame] at hline hlegal
  have hkept : minimax side (gameOf pick start n).last ≠ 1 ∧
      ((gameOf pick start n).last.stonesOf side).hasLine = false := by
    refine gameOf_keeps (motive := fun position =>
      minimax side position ≠ 1 ∧ (position.stonesOf side).hasLine = false)
      ⟨h, not_hasLine_of_undecided hopen side⟩ ?_ hlegal
    intro n history hless hmove
    have hundecided := (mem_legalMoves.mp hmove).1
    have hvalue : minimax side (history.last.play (pick n history)) ≠ 1 := by
      by_cases hturn : history.last.sideToMove = side
      · obtain ⟨-, -, -, hbest⟩ := exists_minimax hundecided side
        have hle := (hbest _ hmove).1 hturn
        have hrange := (minimax_mem_range side history.last).2
        have hbefore := hless.1
        omega
      · have hpick : pick n history = steadyMove side history.last := if_neg hturn
        rw [hpick, (steadyMove_spec hundecided side).2]
        exact hless.1
    refine ⟨hvalue, Bool.eq_false_iff.mpr fun hline => hvalue ?_⟩
    exact minimax_of_hasLine hundecided hline
  rw [hkept.2] at hline
  cases hline

/-- A side can force a line of its own. -/
def HasWinningStrategy (side : Color) (start : Position) : Prop :=
  ∃ own : Strategy, own.Wins side start

theorem hasWinningStrategy_iff (h : position.result = .undecided) (side : Color) :
    HasWinningStrategy side position ↔ minimax side position = 1 := by
  constructor
  · rintro ⟨own, hwins⟩
    by_contra hless
    exact not_wins_of_minimax h hless own hwins
  · intro hvalue
    exact ⟨_, wins_of_minimax hvalue⟩

/-- **The solver is exact where the rules leave a game open.** Its search comes to an end and finds
one value; though it stops at the first win, that is the value of full minimax over all legal moves;
and the value is 1 just if the side to move can force a line of its own whatever is replied, -1 just
if its opponent can, and 0 if neither can. -/
theorem solver_exact {position : Position} (h : position.result = .undecided) :
    (∀ value, Finds position value ↔ value = solve position) ∧
    solve position = minimax position.sideToMove position ∧
    (solve position = 1 ↔ HasWinningStrategy position.sideToMove position) ∧
    (solve position = -1 ↔ HasWinningStrategy position.sideToMove.opponent position) ∧
    (solve position = 0 ↔ ¬HasWinningStrategy position.sideToMove position ∧
      ¬HasWinningStrategy position.sideToMove.opponent position) := by
  have hvalue : solve position = minimax position.sideToMove position :=
    solve_eq_minimax (by rw [h]; exact GameResult.noConfusion)
  have hrange := minimax_mem_range position.sideToMove position
  rw [hasWinningStrategy_iff h, hasWinningStrategy_iff h, minimax_opponent, hvalue]
  refine ⟨fun value => hvalue ▸ finds_iff position value, rfl, Iff.rfl, ?_, ?_⟩ <;> omega

/-- White has no line yet and no move that completes one, but a move that threatens two. -/
theorem fork_solved_exactly :
    let position : Position := ⟨0x011, 0x108, 4⟩
    ofFen "..o/ox./x.." = .ok position ∧ position.result = .undecided ∧ solve position = 1 ∧
      HasWinningStrategy .white position ∧ ¬HasWinningStrategy .black position := by
  intro position
  have hopen : position.result = .undecided := by decide
  have hturn : position.sideToMove = .white := by decide
  have hsolved : solve position = 1 := by decide +kernel
  obtain ⟨-, -, hwins, hloses, -⟩ := solver_exact hopen
  rw [hturn] at hwins hloses
  refine ⟨by decide +kernel, hopen, hsolved, hwins.mp hsolved, fun hblack => ?_⟩
  rw [hloses.mpr hblack] at hsolved
  cases hsolved

end SelfPlay.TicTacToe
