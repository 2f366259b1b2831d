import Mathlib.Data.Int.CardIntervalMod
import SelfPlay.Files.FileSystem
import SelfPlay.Files.StoredBlocks
import SelfPlay.Proofs.Command.Session

/-!
# Openings shared out in turn

Game after game takes the next opening, and the first one again after the last. So each opening gets
as many games as there are full turns, and the openings at the front get one more in the turn that
is cut short. There is always an opening to take, since whatever is loaded is not empty: a file in
which no line is an opening is refused.
-/

namespace SelfPlay.Command

/-- One game more takes the opening whose turn it is. -/
theorem inTurn_succ (openings games : Nat) :
    inTurn openings (games + 1) = inTurn openings games ++ [games % openings] := by
  unfold inTurn
  rw [List.range_succ, List.map_append]
  rfl

theorem lt_of_mem_inTurn {openings games opening : Nat} (h : 0 < openings)
    (hmem : opening ∈ inTurn openings games) : opening < openings := by
  obtain ⟨game, -, rfl⟩ := List.mem_map.mp hmem
  exact Nat.mod_lt game h

/-- The games of an opening are those whose numbers leave it as remainder. -/
theorem count_inTurn_eq {openings opening : Nat} (h : opening < openings) (games : Nat) :
    (inTurn openings games).count opening = Nat.count (· ≡ opening [MOD openings]) games := by
  induction games with
  | zero => rfl
  | succ games ih =>
    have hturn : games ≡ opening [MOD openings] ↔ games % openings = opening := by
      unfold Nat.ModEq
      rw [Nat.mod_eq_of_lt h]
    rw [inTurn_succ, List.count_append, ih, Nat.count_succ, List.count_singleton]
    simp only [beq_iff_eq, hturn]

/-- **What an opening gets**: a game for each full turn, and one more if the last turn comes to it.
-/
theorem count_inTurn {openings opening : Nat} (h : opening < openings) (games : Nat) :
    (inTurn openings games).count opening =
      games / openings + if opening < games % openings then 1 else 0 := by
  rw [count_inTurn_eq h, Nat.count_modEq_card games (Nat.zero_lt_of_lt h), Nat.mod_eq_of_lt h]

/-- Of two openings the earlier one gets as many games as the later one, or one more. -/
theorem count_inTurn_le {openings earlier later : Nat} (hearlier : earlier < later)
    (hlater : later < openings) (games : Nat) :
    (inTurn openings games).count later ≤ (inTurn openings games).count earlier ∧
      (inTurn openings games).count earlier ≤ (inTurn openings games).count later + 1 := by
  rw [count_inTurn hlater, count_inTurn (hearlier.trans hlater)]
  split <;> split <;> omega

theorem length_of_buildOpenings {lines : List OpeningLine}
    {openings : List (Opening TicTacToe.Square)} (h : buildOpenings lines = .ok openings) :
    openings.length = lines.length :=
  (buildOpenings_eq_ok_iff.mp h).length_eq.symm

/-- **Openings that were loaded are shared out safely and evenly.** However they were loaded and
however many games there are, their number is not zero, and it is the same after they were built;
every game gets the number of an opening; and of two openings the earlier one gets as many games as
the later one, or one more. -/
theorem openings_shared_out {ρ : Type} {source : FileSource} {file line : Option String}
    {lines : List OpeningLine} (h : Openings.load source file line = .ok lines)
    (generator : Generator ρ) (games : Nat) (seed : Option Nat) :
    let assignment := assignOpenings generator lines.length games false seed
    0 < lines.length ∧
    (∀ openings, buildOpenings lines = .ok openings → openings.length = lines.length) ∧
    assignment.length = games ∧
    (∀ opening ∈ assignment, opening < lines.length) ∧
    ∀ earlier later, earlier < later → later < lines.length →
      assignment.count later ≤ assignment.count earlier ∧
        assignment.count earlier ≤ assignment.count later + 1 := by
  intro assignment
  have hpos : 0 < lines.length := List.length_pos_iff.mpr (Openings.ne_nil_of_load h)
  have hassignment : assignment = inTurn lines.length games := if_neg Bool.false_ne_true
  rw [hassignment]
  exact ⟨hpos, fun _ => length_of_buildOpenings, length_inTurn lines.length games,
    fun _ => lt_of_mem_inTurn hpos, fun _ _ hearlier hlater =>
      count_inTurn_le hearlier hlater games⟩

/-- A compressed file with a comment and three openings. -/
def threeOpenings : FileSystem :=
  ⟨.folder [("openings.txt.gz", .file (StoredBlocks.compress
    (Text.toUtf8 "# three\nstartpos\nx../.o./...\nstartpos moves b2")))], []⟩

/-- Five games: the first two openings get two each, and the third gets one. -/
theorem three_openings_shared_out :
    ∃ lines, Openings.load (threeOpenings.source StoredBlocks.codec (.ofBytes []))
        (some "openings.txt.gz") none = .ok lines ∧
      lines.length = 3 ∧ assignOpenings firstChoice lines.length 5 false none = [0, 1, 2, 0, 1] ∧
      (assignOpenings firstChoice lines.length 5 false none).count 2 ≤
        (assignOpenings firstChoice lines.length 5 false none).count 0 := by
  have hloaded : ((Openings.load (threeOpenings.source StoredBlocks.codec (.ofBytes []))
      (some "openings.txt.gz") none).toOption.any
        fun lines => decide (lines.length = 3)) = true := by decide +kernel
  cases hload : Openings.load (threeOpenings.source StoredBlocks.codec (.ofBytes []))
      (some "openings.txt.gz") none with
  | error fault =>
    rw [hload] at hloaded
    cases hloaded
  | ok lines =>
    rw [hload] at hloaded
    have hthree : lines.length = 3 := of_decide_eq_true hloaded
    obtain ⟨-, -, -, -, hfair⟩ := openings_shared_out hload firstChoice 5 none
    refine ⟨lines, rfl, hthree, ?_, (hfair 0 2 (by decide) (by rw [hthree]; decide)).1⟩
    rw [hthree]
    decide

end SelfPlay.Command
