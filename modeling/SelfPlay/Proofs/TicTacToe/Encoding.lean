import Mathlib.Data.List.Forall2
import SelfPlay.Proofs.TicTacToe.Symmetry

/-!
# What a network is shown, and what it cannot see

A network is shown pairs of stone sets: for each of the last positions what the side to move now sees of
it, and from before the start of the game what stands in for it (`shownPairs`). Left and right of all
pairs together are exchanged in the canonical format whenever that makes the newest pair smaller. So a
game and its mirror image are shown as the same planes, and so are a game and the one in which the sides
have changed places.
-/

namespace SelfPlay.TicTacToe

open SelfPlay.Numeric

/-- A plane with value one on the squares of a set. -/
def Stones.plane (stones : Stones) : Plane := ⟨UInt64.ofNat stones.toNat, 1⟩

theorem Stones.toNat_mask_plane (stones : Stones) : stones.plane.mask.toNat = stones.toNat := by
  simp only [plane, UInt64.toNat_ofNat']
  omega

namespace StonePair

def toList (pair : StonePair) : List Stones := [pair.ours, pair.theirs]

theorem flatMap_planes (pairs : List StonePair) :
    pairs.flatMap planes = (pairs.flatMap toList).map Stones.plane := by
  rw [List.map_flatMap]
  rfl

theorem length_flatMap_toList (pairs : List StonePair) :
    (pairs.flatMap toList).length = 2 * pairs.length := by
  induction pairs with
  | nil => rfl
  | cons pair rest ih =>
    rw [List.flatMap_cons, List.length_append, ih, List.length_cons, toList]
    simp only [List.length_cons, List.length_nil]
    omega

theorem flatMap_toList_flipFiles (pairs : List StonePair) :
    (pairs.map flipFiles).flatMap toList =
      (pairs.flatMap toList).map (Stones.rearranged Square.flipped) := by
  rw [List.flatMap_map, List.map_flatMap]
  simp only [toList, flipFiles, List.map_cons, List.map_nil, Stones.flipFiles_eq]

theorem getElem?_flatMap_toList {pairs : List StonePair} {pair : StonePair} {ago : Nat}
    (h : pairs[ago]? = some pair) :
    (pairs.flatMap toList)[2 * ago]? = some pair.ours ∧
      (pairs.flatMap toList)[2 * ago + 1]? = some pair.theirs := by
  induction ago generalizing pairs with
  | zero =>
    cases pairs with
    | nil => cases h
    | cons first rest =>
      obtain rfl := Option.some.inj h
      exact ⟨rfl, rfl⟩
  | succ ago ih =>
    cases pairs with
    | nil => cases h
    | cons first rest => exact ih h

theorem less_iff {pair other : StonePair} :
    pair.less other = true ↔ pair.ours.toNat < other.ours.toNat ∨
      pair.ours = other.ours ∧ pair.theirs.toNat < other.theirs.toNat := by
  simp [less]

/-- Of two different pairs exactly one is less than the other. -/
theorem less_comm {pair other : StonePair} (h : pair ≠ other) : pair.less other = !other.less pair := by
  obtain ⟨ours, theirs⟩ := pair
  obtain ⟨otherOurs, otherTheirs⟩ := other
  rw [Bool.eq_iff_iff, Bool.not_eq_true', ← Bool.not_eq_true, less_iff, less_iff]
  simp only [ne_eq, StonePair.mk.injEq, not_and, ← BitVec.toNat_inj] at h ⊢
  omega

theorem less_irrefl (pair : StonePair) : pair.less pair = false := by
  rw [← Bool.not_eq_true, less_iff]
  simp

end StonePair

/-- The pair for the position so many moves ago, or the one that stands in for it. -/
theorem stonePairs_eq (side : Color) (fill : StonePair) (count : Nat) (positions : List Position) :
    stonePairs side fill count positions =
      (List.range count).map fun ago => (positions[ago]?.map (.seenBy side)).getD fill := by
  induction count generalizing positions with
  | zero => rfl
  | succ count ih =>
    rw [List.range_succ_eq_map, List.map_cons, List.map_map]
    cases positions with
    | nil =>
      rw [stonePairs, ih]
      rfl
    | cons position earlier =>
      rw [stonePairs, ih]
      rfl

/-- Whether an empty board stands in for earlier positions or nothing at all, the same is shown. -/
theorem fillPair_eq (side : Color) (fill : HistoryFill) (start : Position) :
    fillPair side fill start = if fill = .no then .none else .seenBy side start := by
  cases fill with
  | no => rfl
  | always => rfl
  | fenOnly =>
    rw [if_neg (show HistoryFill.fenOnly ≠ .no by decide)]
    simp only [fillPair]
    split
    · rename_i hempty
      exact (StonePair.seenBy_of_occupied_eq_zero hempty.2 side).symm
    · rfl

theorem stonePairs_turned {positions turned : List Position} (side : Color) (fill : StonePair)
    (count : Nat) (h : List.Forall₂ Position.IsTurned positions turned) :
    stonePairs side.opponent fill count turned = stonePairs side fill count positions := by
  induction count generalizing positions turned with
  | zero => rfl
  | succ count ih =>
    cases h with
    | nil => rw [stonePairs, stonePairs, ih .nil]
    | cons hfirst hrest => rw [stonePairs, stonePairs, ih hrest, StonePair.seenBy_opponent hfirst]

theorem isTurned_getLast {current other : Position} {earlier others : List Position}
    (h : List.Forall₂ Position.IsTurned (current :: earlier) (other :: others)) :
    ((current :: earlier).getLast (List.cons_ne_nil _ _)).IsTurned
      ((other :: others).getLast (List.cons_ne_nil _ _)) := by
  induction earlier generalizing current other others with
  | nil =>
    obtain ⟨hcurrent, ⟨⟩⟩ := List.forall₂_cons.mp h
    exact hcurrent
  | cons before earlier ih =>
    obtain ⟨-, hbefore⟩ := List.forall₂_cons.mp h
    cases others with
    | nil => cases hbefore
    | cons otherBefore others =>
      rw [List.getLast_cons_cons, List.getLast_cons_cons]
      exact ih hbefore

/-- The pairs of a game, the current one first, before left and right are exchanged. -/
def shownPairs (current : Position) (earlier : List Position) (count : Nat) (fill : HistoryFill) :
    List StonePair :=
  stonePairs current.sideToMove
    (fillPair current.sideToMove fill ((current :: earlier).getLast (List.cons_ne_nil _ _))) count
    (current :: earlier)

section Pairs

variable {current : Position} {earlier : List Position} {count : Nat} {fill : HistoryFill}

theorem length_shownPairs : (shownPairs current earlier count fill).length = count := by
  rw [shownPairs, stonePairs_eq, List.length_map, List.length_range]

theorem exists_shownPairs_eq_cons (current : Position) (earlier : List Position)
    (fill : HistoryFill) (h : 0 < count) :
    ∃ rest, shownPairs current earlier count fill =
      .seenBy current.sideToMove current :: rest := by
  obtain ⟨fewer, rfl⟩ := Nat.exists_eq_succ_of_ne_zero h.ne'
  exact ⟨_, rfl⟩

theorem getElem?_shownPairs {ago : Nat} {position : Position} (hago : ago < count)
    (h : (current :: earlier)[ago]? = some position) :
    (shownPairs current earlier count fill)[ago]? = some (.seenBy current.sideToMove position) := by
  rw [shownPairs, stonePairs_eq, List.getElem?_map, List.getElem?_range hago, Option.map_some, h]
  rfl

/-- The pairs of a flipped game are the flipped ones, those from before its start among them. -/
theorem shownPairs_flipped (current : Position) (earlier : List Position) (count : Nat)
    (fill : HistoryFill) :
    shownPairs current.flipped (earlier.map Position.flipped) count fill =
      (shownPairs current earlier count fill).map StonePair.flipFiles := by
  have hfill (side : Color) (start : Position) :
      fillPair side fill start.flipped = (fillPair side fill start).flipFiles := by
    rw [fillPair_eq, fillPair_eq]
    split
    · rfl
    · exact StonePair.seenBy_flipped side start
  have hside : current.flipped.sideToMove = current.sideToMove := rfl
  unfold shownPairs
  -- The position filled in is the last one of the game, so it is flipped with the others.
  simp only [← List.map_cons, List.getLast_map, hside, hfill]
  rw [stonePairs_eq, stonePairs_eq, List.map_map]
  refine List.map_congr_left fun ago _ => ?_
  rw [Function.comp_apply, List.getElem?_map]
  cases (current :: earlier)[ago]? with
  | none => rfl
  | some position => exact StonePair.seenBy_flipped _ position

/-- A game in which the sides have changed places gives the same pairs. -/
theorem shownPairs_turned {other : Position} {others : List Position} (count : Nat)
    (fill : HistoryFill)
    (h : List.Forall₂ Position.IsTurned (current :: earlier) (other :: others)) :
    shownPairs other others count fill = shownPairs current earlier count fill := by
  have hside : other.sideToMove = current.sideToMove.opponent := by
    cases h with
    | cons hcurrent _ => exact hcurrent.sideToMove
  have hstart := isTurned_getLast h
  unfold shownPairs
  rw [hside, fillPair_eq, fillPair_eq, StonePair.seenBy_opponent hstart]
  exact stonePairs_turned _ _ _ h

/-- Filling up always and filling up what does not begin with the empty board show the same. -/
theorem shownPairs_fenOnly : shownPairs current earlier count .fenOnly =
    shownPairs current earlier count .always := by
  unfold shownPairs
  rw [fillPair_eq, fillPair_eq]
  rfl

/-- What stands in for missing positions makes no difference where none is missing, nor where nothing
stands on the first one. -/
theorem shownPairs_no (h : count ≤ (current :: earlier).length ∨
    ((current :: earlier).getLast (List.cons_ne_nil _ _)).occupied = 0) :
    shownPairs current earlier count .no = shownPairs current earlier count .always := by
  unfold shownPairs
  rcases h with hlong | hempty
  · rw [stonePairs_eq, stonePairs_eq]
    refine List.map_congr_left fun ago hago => ?_
    have hthere : ago < (current :: earlier).length := (List.mem_range.mp hago).trans_le hlong
    rw [List.getElem?_eq_getElem hthere]
    rfl
  · rw [fillPair_eq, fillPair_eq, if_pos rfl, if_neg (by decide),
      StonePair.seenBy_of_occupied_eq_zero hempty]

end Pairs

/-- Whether left and right are exchanged in a format. -/
def exchanges (format : InputFormat) (pairs : List StonePair) : Bool :=
  format == .canonical && isFlipped pairs

/-- The pairs as a format shows them. -/
def presented (format : InputFormat) (pairs : List StonePair) : List StonePair :=
  if exchanges format pairs then pairs.map StonePair.flipFiles else pairs

section Encoding

variable {format : InputFormat} {pairs : List StonePair} {current : Position}
  {earlier : List Position} {count : Nat} {fill : HistoryFill}

/-- All that a network is shown of a game comes from its pairs and the side to move. -/
theorem encode_cons (current : Position) (earlier : List Position) (format : InputFormat) (count : Nat)
    (fill : HistoryFill) :
    encode (current :: earlier) format count fill =
      ⟨((presented format (shownPairs current earlier count fill)).flatMap StonePair.toList).map
          Stones.plane ++ closingPlanes current.sideToMove format,
        if exchanges format (shownPairs current earlier count fill) then 1 else 0⟩ := by
  rw [← StonePair.flatMap_planes]
  rfl

theorem planes_encode :
    (encode (current :: earlier) format count fill).planes =
      ((presented format (shownPairs current earlier count fill)).flatMap StonePair.toList).map
        Stones.plane ++ closingPlanes current.sideToMove format := by
  rw [encode_cons]

theorem transform_encode :
    (encode (current :: earlier) format count fill).transform =
      if exchanges format (shownPairs current earlier count fill) then 1 else 0 := rfl

theorem transform_encode_eq_one_iff :
    (encode (current :: earlier) format count fill).transform = 1 ↔
      exchanges format (shownPairs current earlier count fill) = true := by
  rw [transform_encode]
  split <;> simp_all

theorem length_presented : (presented format pairs).length = pairs.length := by
  unfold presented
  split
  · exact List.length_map _
  · rfl

theorem getElem?_presented {pair : StonePair} {ago : Nat} (h : pairs[ago]? = some pair) :
    (presented format pairs)[ago]? =
      some (if exchanges format pairs then pair.flipFiles else pair) := by
  unfold presented
  split
  · rw [List.getElem?_map, h, Option.map_some]
  · exact h

/-- The stone sets of the planes, two for each position. -/
theorem length_stones_presented :
    ((presented format (shownPairs current earlier count fill)).flatMap StonePair.toList).length =
      2 * count := by
  rw [StonePair.length_flatMap_toList, length_presented, length_shownPairs]

theorem take_planes_encode :
    (encode (current :: earlier) format count fill).planes.take (2 * count) =
      ((presented format (shownPairs current earlier count fill)).flatMap StonePair.toList).map
        Stones.plane := by
  rw [planes_encode]
  exact List.take_left' (by rw [List.length_map, length_stones_presented])

/-- The planes of so many moves ago. -/
theorem getElem?_planes_encode {pair : StonePair} {ago : Nat}
    (h : (presented format (shownPairs current earlier count fill))[ago]? = some pair) :
    (encode (current :: earlier) format count fill).planes[2 * ago]? = some pair.ours.plane ∧
      (encode (current :: earlier) format count fill).planes[2 * ago + 1]? =
        some pair.theirs.plane := by
  obtain ⟨hours, htheirs⟩ := StonePair.getElem?_flatMap_toList h
  have hplane {index : Nat} {stones : Stones}
      (hstones : ((presented format (shownPairs current earlier count fill)).flatMap
        StonePair.toList)[index]? = some stones) :
      (encode (current :: earlier) format count fill).planes[index]? = some stones.plane := by
    obtain ⟨hindex, -⟩ := List.getElem?_eq_some_iff.mp hstones
    rw [planes_encode, List.getElem?_append_left (by rwa [List.length_map]), List.getElem?_map,
      hstones, Option.map_some]
  exact ⟨hplane hours, hplane htheirs⟩

theorem presented_classical : presented .classical pairs = pairs := rfl

/-- Pairs of which the newest has left and right alike are shown as they are. -/
theorem exchanges_of_eq {pair : StonePair} {rest : List StonePair} (h : pair.flipFiles = pair) :
    exchanges format (pair :: rest) = false := by
  rw [exchanges, isFlipped, h, StonePair.less_irrefl, Bool.and_false]

theorem presented_of_eq {pair : StonePair} {rest : List StonePair} (h : pair.flipFiles = pair) :
    presented format (pair :: rest) = pair :: rest := by
  rw [presented, exchanges_of_eq h, if_neg Bool.false_ne_true]

/-- Of a game and its mirror image one has left and right exchanged, unless the newest pair has left and
right alike. -/
theorem exchanges_map {pair : StonePair} (rest : List StonePair) (h : pair.flipFiles ≠ pair) :
    exchanges .canonical ((pair :: rest).map StonePair.flipFiles) =
      !exchanges .canonical (pair :: rest) := by
  change isFlipped (pair.flipFiles :: rest.map StonePair.flipFiles) = !isFlipped (pair :: rest)
  rw [isFlipped, isFlipped, StonePair.flipFiles_flipFiles]
  exact StonePair.less_comm h.symm

/-- So in the end both are shown alike. -/
theorem presented_map {pair : StonePair} (rest : List StonePair) (h : pair.flipFiles ≠ pair) :
    presented .canonical ((pair :: rest).map StonePair.flipFiles) =
      presented .canonical (pair :: rest) := by
  unfold presented
  rw [exchanges_map rest h]
  cases exchanges .canonical (pair :: rest) with
  | false =>
    rw [Bool.not_false, if_pos rfl, if_neg Bool.false_ne_true, List.map_map]
    exact (List.map_congr_left fun other _ => other.flipFiles_flipFiles).trans (List.map_id _)
  | true => rfl

/-- What has been exchanged is had back by exchanging it again. -/
theorem stones_eq_of_presented (format : InputFormat) (pairs : List StonePair) :
    pairs.flatMap StonePair.toList =
      if exchanges format pairs then
        ((presented format pairs).flatMap StonePair.toList).map (Stones.rearranged Square.flipped)
      else (presented format pairs).flatMap StonePair.toList := by
  unfold presented
  split
  · rw [← StonePair.flatMap_toList_flipFiles, List.map_map]
    refine congrArg (List.flatMap StonePair.toList) ?_
    exact ((List.map_congr_left fun pair _ => pair.flipFiles_flipFiles).trans (List.map_id _)).symm
  · rfl

/-- A newest pair with left and right alike gives the first two planes as it is. -/
theorem take_two_planes_encode {pair : StonePair} {rest : List StonePair}
    (hpairs : shownPairs current earlier count fill = pair :: rest) (h : pair.flipFiles = pair) :
    (encode (current :: earlier) format count fill).planes.take 2 =
      pair.toList.map Stones.plane := by
  rw [planes_encode, hpairs, presented_of_eq h]
  rfl

end Encoding

/-- **A game and its mirror image look the same in the canonical format.** If the current position is not
its own mirror image, all planes are the same, and left and right are exchanged in exactly one of the two;
if it is, at least its own two planes are the same. The stones on the planes are those of the classical
format, with left and right exchanged on all of them or on none, as the transform says. -/
theorem canonical_planes_of_mirror_image (current : Position) (earlier : List Position) (count : Nat)
    (fill : HistoryFill) (hcount : 0 < count) :
    let shown := encode (current :: earlier) .canonical count fill
    let mirrored := encode ((current :: earlier).map Position.flipped) .canonical count fill
    let classical := encode (current :: earlier) .classical count fill
    shown.planes.take 2 = mirrored.planes.take 2 ∧
    (current.flipped ≠ current →
      shown.planes = mirrored.planes ∧
      (shown.transform = 1 ∧ mirrored.transform = 0 ∨
        shown.transform = 0 ∧ mirrored.transform = 1)) ∧
    ∃ stones : List Stones, stones.length = 2 * count ∧
      shown.planes.take (2 * count) = stones.map Stones.plane ∧
      classical.planes.take (2 * count) =
        (if shown.transform = 1 then stones.map (Stones.rearranged Square.flipped)
          else stones).map Stones.plane := by
  intro shown mirrored classical
  obtain ⟨rest, hpairs⟩ := exists_shownPairs_eq_cons current earlier fill hcount
  have hmirrored : shownPairs current.flipped (earlier.map Position.flipped) count fill =
      (StonePair.seenBy current.sideToMove current :: rest).map StonePair.flipFiles := by
    rw [shownPairs_flipped, hpairs]
  have hpair : current.flipped ≠ current →
      (StonePair.seenBy current.sideToMove current).flipFiles ≠ .seenBy current.sideToMove current :=
    fun hskew hsame => hskew (StonePair.flipFiles_seenBy_eq_iff.mp hsame)
  have hplanes (hskew : current.flipped ≠ current) : shown.planes = mirrored.planes := by
    have hside : current.flipped.sideToMove = current.sideToMove := rfl
    simp only [shown, mirrored, List.map_cons, planes_encode]
    rw [hmirrored, presented_map rest (hpair hskew), hpairs, hside]
  refine ⟨?_, fun hskew => ⟨hplanes hskew, ?_⟩, _, length_stones_presented, take_planes_encode, ?_⟩
  · by_cases hskew : current.flipped = current
    · -- Neither game is exchanged, so the older pairs may differ and only the newest ones are alike.
      have halike : (StonePair.seenBy current.sideToMove current).flipFiles =
          .seenBy current.sideToMove current := StonePair.flipFiles_seenBy_eq_iff.mpr hskew
      rw [List.map_cons, halike] at hmirrored
      exact (take_two_planes_encode hpairs halike).trans
        (take_two_planes_encode hmirrored halike).symm
    · rw [hplanes hskew]
  · simp only [shown, mirrored, List.map_cons, transform_encode]
    rw [hmirrored, exchanges_map rest (hpair hskew), hpairs]
    cases exchanges .canonical (StonePair.seenBy current.sideToMove current :: rest) with
    | false => exact .inr ⟨rfl, rfl⟩
    | true => exact .inl ⟨rfl, rfl⟩
  · simp only [shown, classical, transform_encode_eq_one_iff]
    rw [take_planes_encode, presented_classical, stones_eq_of_presented .canonical]

/-- After a first stone in the right corner the canonical format exchanges left and right, after one in
the left corner it does not. -/
theorem first_stone_in_either_corner :
    let game : List Position := [⟨Stones.ofSquares [⟨2, 0⟩], 0, 1⟩, ⟨0, 0, 0⟩]
    let shown := encode game .canonical 8 .always
    let mirrored := encode (game.map Position.flipped) .canonical 8 .always
    shown.planes = mirrored.planes ∧ shown.transform = 1 ∧ mirrored.transform = 0 := by
  intro game shown mirrored
  obtain ⟨-, hskew, -⟩ := canonical_planes_of_mirror_image ⟨Stones.ofSquares [⟨2, 0⟩], 0, 1⟩
    [⟨0, 0, 0⟩] 8 .always (by decide)
  exact ⟨(hskew (by decide)).1, by decide, by decide⟩

/-- **What a network is shown is seen from the side to move.** A game in which the sides have changed
places, on the board turned upside down, is shown as the same planes, with left and right exchanged in
both games or in neither; only the classical plane for the side to move has another value. The two ways
of filling in the first position show the same, and so does leaving missing positions empty if none is
missing or the first board is empty. -/
theorem encode_relative_to_side (positions : List Position) (format : InputFormat) (count : Nat) :
    (∀ (turned : List Position) (fill : HistoryFill), positions ≠ [] →
      List.Forall₂ Position.IsTurned positions turned →
      let shown := encode positions format count fill
      let other := encode turned format count fill
      other.transform = shown.transform ∧
      (format = .canonical → other.planes = shown.planes) ∧
      (format = .classical → ∃ (stones : List Plane) (value otherValue : Binary32),
        stones.length = 2 * count ∧ otherValue ≠ value ∧
        shown.planes = stones ++ [Plane.filled value, Plane.filled 1] ∧
        other.planes = stones ++ [Plane.filled otherValue, Plane.filled 1])) ∧
    encode positions format count .fenOnly = encode positions format count .always ∧
    (count ≤ positions.length ∨
        (∃ start, positions.getLast? = some start ∧ start.occupied = 0) →
      encode positions format count .no = encode positions format count .always) := by
  cases positions with
  | nil => exact ⟨fun _ _ hnone => absurd rfl hnone, rfl, fun _ => rfl⟩
  | cons current earlier =>
    refine ⟨?_, by rw [encode_cons, encode_cons, shownPairs_fenOnly], fun h => ?_⟩
    · rintro _ fill - (_ | ⟨hcurrent, hearlier⟩) shown other
      have hpairs := shownPairs_turned count fill (.cons hcurrent hearlier)
      refine ⟨?_, ?_, ?_⟩
      · rw [transform_encode, transform_encode, hpairs]
      · rintro rfl
        rw [planes_encode, planes_encode, hpairs]
        rfl
      · rintro rfl
        simp only [shown, other, planes_encode, hpairs]
        refine ⟨_, _, _, ?_, ?_, rfl, rfl⟩
        · rw [List.length_map, length_stones_presented]
        · rw [hcurrent.sideToMove]
          cases current.sideToMove <;> decide
    · rw [encode_cons, encode_cons, shownPairs_no]
      refine h.imp_right ?_
      rintro ⟨start, hstart, hempty⟩
      rw [List.getLast?_eq_some_getLast (List.cons_ne_nil _ _), Option.some_inj] at hstart
      rw [hstart, hempty]

/-- Black sees after white's first stone what white sees after black's. -/
theorem first_stone_of_either_side :
    let game : List Position := [⟨Stones.ofSquares [⟨2, 0⟩], 0, 1⟩, ⟨0, 0, 0⟩]
    let turned : List Position := [⟨0, Stones.ofSquares [⟨2, 2⟩], 2⟩, ⟨0, 0, 1⟩]
    (encode turned .canonical 8 .no).planes = (encode game .canonical 8 .no).planes ∧
      encode game .classical 8 .no = encode game .classical 8 .always := by
  intro game turned
  have hturned : List.Forall₂ Position.IsTurned game turned :=
    .cons ⟨by decide, by decide, by decide⟩ (.cons ⟨by decide, by decide, by decide⟩ .nil)
  obtain ⟨hshown, -, -⟩ := encode_relative_to_side game .canonical 8
  obtain ⟨-, -, hfill⟩ := encode_relative_to_side game .classical 8
  obtain ⟨-, hplanes, -⟩ := hshown turned .no (List.cons_ne_nil _ _) hturned
  exact ⟨hplanes rfl, hfill (.inr ⟨_, rfl, rfl⟩)⟩

end SelfPlay.TicTacToe
