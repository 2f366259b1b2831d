import SelfPlay.Proofs.Numeric.Order
import SelfPlay.Proofs.TicTacToe.Encoding
import SelfPlay.TicTacToe.Heuristic

/-!
# How open lines value a game

The network looks at the planes of the current position only, where it finds the stones as the side to
move sees them. The value would be that of a loss if all eight lines were open to the opponent and none
to the side to move. While the sides take turns this never is so: each stone of the side to move closes a
line to the opponent, and where it has none the opponent has at most one stone, which is not on all lines.
-/

namespace SelfPlay.TicTacToe

open SelfPlay.Numeric

namespace Stones

theorem count_le_count {stones other : Stones}
    (h : ∀ square, stones.has square = true → other.has square = true) :
    stones.count ≤ other.count :=
  List.countP_mono_left fun square _ => h square

/-- Stones on two squares are two at least. -/
theorem two_le_count {stones : Stones} {square other : Square} (h : stones.has square = true)
    (hother : stones.has other = true) (hne : other ≠ square) : 2 ≤ stones.count := by
  have hone : (insert 0 square).count = 1 := count_insert (has_zero square)
  have htwo : ((insert 0 square).insert other).count = 2 := by
    rw [count_insert (by rw [has_insert, has_zero, decide_eq_false hne]; rfl), hone]
  rw [← htwo]
  refine count_le_count fun taken htaken => ?_
  rw [has_insert, has_insert, has_zero, Bool.false_or, Bool.or_eq_true, decide_eq_true_eq,
    decide_eq_true_eq] at htaken
  rcases htaken with rfl | rfl
  · exact h
  · exact hother

theorem exists_has_of_ne_zero {stones : Stones} (h : stones ≠ 0) :
    ∃ square, stones.has square = true := by
  by_contra hnone
  simp only [not_exists, Bool.not_eq_true] at hnone
  exact h (eq_zero_iff.mpr hnone)

/-- Each stone is on a line. -/
theorem exists_line_of_ne_zero {stones : Stones} (h : stones ≠ 0) :
    ∃ line ∈ lines, line &&& stones ≠ 0 := by
  have hlines : ∀ square ∈ Square.all, ∃ line ∈ lines, has line square = true := by
    decide +kernel
  obtain ⟨square, hsquare⟩ := exists_has_of_ne_zero h
  obtain ⟨line, hmem, hline⟩ := hlines square (Square.mem_all square)
  refine ⟨line, hmem, fun hzero => ?_⟩
  have hboth := eq_zero_iff.mp hzero square
  rw [has_and, hline, hsquare] at hboth
  cases hboth

/-- A single stone is not on two ranks. -/
theorem exists_line_of_count_le_one {stones : Stones} (h : stones.count ≤ 1) :
    ∃ line ∈ lines, line &&& stones = 0 := by
  by_contra hall
  have hrank (line : Stones) (hmem : line ∈ lines) :
      ∃ square, has line square = true ∧ stones.has square = true := by
    obtain ⟨square, hsquare⟩ :=
      exists_has_of_ne_zero fun hzero => hall ⟨line, hmem, hzero⟩
    rw [has_and, Bool.and_eq_true] at hsquare
    exact ⟨square, hsquare⟩
  obtain ⟨square, hfirst, hsquare⟩ := hrank 0x007 (by decide)
  obtain ⟨other, hsecond, hother⟩ := hrank 0x038 (by decide)
  have hapart : (0x007 : Stones) &&& 0x038 = 0 := by decide
  have hne : other ≠ square := by
    rintro rfl
    have hboth := eq_zero_iff.mp hapart other
    rw [has_and, hfirst, hsecond] at hboth
    cases hboth
  have htwo := two_le_count hsquare hother hne
  omega

theorem count_rearranged {place : Square → Square} (h : ∀ square, place (place square) = square)
    (stones : Stones) : (stones.rearranged place).count = stones.count := by
  have hperm : (Square.all.map place).Perm Square.all := by
    have hinjective : Function.Injective place := Function.LeftInverse.injective h
    refine (List.perm_ext_iff_of_nodup (Square.nodup_all.map hinjective) Square.nodup_all).mpr ?_
    intro square
    refine ⟨fun _ => Square.mem_all square, fun _ => List.mem_map.mpr ⟨place square, ?_⟩⟩
    exact ⟨Square.mem_all _, h square⟩
  calc (stones.rearranged place).count
      = Square.all.countP (stones.has ∘ place) :=
        List.countP_congr fun square _ => by rw [has_rearranged]; rfl
    _ = (Square.all.map place).countP stones.has := List.countP_map.symm
    _ = stones.count := hperm.countP_eq _

end Stones

/-- Not all lines are open to a side that is at most one stone ahead. -/
theorem openLines_lt {ours theirs : Stones} (h : ours.count ≤ theirs.count + 1) :
    openLines ours theirs < Stones.lines.length := by
  unfold openLines
  rw [List.countP_lt_length_iff]
  by_cases hnone : theirs = 0
  · subst hnone
    obtain ⟨line, hmem, hline⟩ := Stones.exists_line_of_count_le_one h
    exact ⟨line, hmem, by simp [hline]⟩
  · obtain ⟨line, hmem, hline⟩ := Stones.exists_line_of_ne_zero hnone
    exact ⟨line, hmem, by simp only [beq_eq_false_iff_ne.mpr hline, Bool.false_and]⟩

theorem openLineValue_isAboveMinusOne {ours theirs : Stones} (h : theirs.count ≤ ours.count + 1) :
    (openLineValue ours theirs).IsAboveMinusOne := by
  have hall : ∀ difference : Fin 16,
      (Binary32.ofInt ((difference.val : Int) - 7) / 8).IsAboveMinusOne := by
    unfold Binary32.IsAboveMinusOne
    decide +kernel
  have htheirs : openLines theirs ours < 8 := openLines_lt h
  have hours : openLines ours theirs ≤ 8 := List.countP_le_length
  have hdifference : (openLines ours theirs : Int) - openLines theirs ours =
      ((openLines ours theirs + 7 - openLines theirs ours : Nat) : Int) - 7 := by omega
  rw [openLineValue, hdifference]
  exact hall ⟨openLines ours theirs + 7 - openLines theirs ours, by omega⟩

/-- A mask tells the stones that it was made from. -/
theorem stonesOn_plane (stones : Stones) : stonesOn (some stones.plane) = stones := by
  rw [stonesOn, Stones.toNat_mask_plane, BitVec.ofNat_toNat, BitVec.setWidth_eq]

/-- The value of a game is that of the stones that the side to move sees. -/
theorem heuristicValue_encode (current : Position) (earlier : List Position) {count : Nat}
    (hcount : 0 < count) (fill : HistoryFill) :
    heuristicValue (encode (current :: earlier) .classical count fill).planes =
      openLineValue (StonePair.seenBy current.sideToMove current).ours
        (StonePair.seenBy current.sideToMove current).theirs := by
  have hpair : (presented .classical (shownPairs current earlier count fill))[0]? =
      some (.seenBy current.sideToMove current) := getElem?_shownPairs hcount rfl
  obtain ⟨hours, htheirs⟩ := getElem?_planes_encode hpair
  rw [heuristicValue, hours, htheirs, stonesOn_plane, stonesOn_plane]

/-- No game in which the sides have taken turns is worth as little as a lost one. -/
theorem heuristicValue_isAboveMinusOne {current : Position} (h : current.IsRegular)
    (earlier : List Position) {count : Nat} (hcount : 0 < count) (fill : HistoryFill) :
    (heuristicValue (encode (current :: earlier) .classical count fill).planes).IsAboveMinusOne := by
  rw [heuristicValue_encode current earlier hcount fill]
  apply openLineValue_isAboveMinusOne
  have hturns := h.turns
  cases current.sideToMove with
  | white =>
    show current.black.count ≤ current.white.count + 1
    omega
  | black =>
    show current.white.mirrorRanks.count ≤ current.black.mirrorRanks.count + 1
    rw [Stones.mirrorRanks_eq, Stones.mirrorRanks_eq,
      Stones.count_rearranged Square.mirrored_mirrored,
      Stones.count_rearranged Square.mirrored_mirrored]
    omega

end SelfPlay.TicTacToe
