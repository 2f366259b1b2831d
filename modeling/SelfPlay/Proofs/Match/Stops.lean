import SelfPlay.Proofs.Match.Protocol
import SelfPlay.Proofs.Match.Statistic

/-!
# Requests to stop

A request to stop is passed on to the engine that runs, and from then on no engine is made. This is
read off the rules by which every journal can be read. What becomes of the game is told by its
record: it never gets further than one move from where the last engine found it.
-/

namespace SelfPlay

open SelfPlay.Numeric

/-- What a journal says about requests to stop. -/
structure Journal.HeedsStops {ω P M R : Type} (journal : Journal ω P M R) : Prop where
  /-- Engines are numbered in the order in which they are made. -/
  numbered {before after : Journal ω P M R} {launch : Launch ω P M R} :
    journal = before ++ .launched launch :: after → launch.number = before.launches
  /-- No run begins while another one goes on. -/
  alone {before after : Journal ω P M R} {launch : Launch ω P M R} :
    journal = before ++ .began launch :: after → before.flying = none
  /-- The run that ends is the one that goes on. -/
  closed {before after : Journal ω P M R} {launch : Launch ω P M R} {fault : Option Fault}
    {head : Node M} {world : ω} :
    journal = before ++ .ended launch fault head world :: after → before.flying = some launch
  /-- Once a stop was asked for, the factory is never asked for an engine again. -/
  silent {before after : Journal ω P M R} : journal = before ++ .asked :: after →
    (∀ launch, .launched launch ∉ after) ∧ ∀ fault, .refused fault ∉ after
  /-- The engine that runs while a stop is asked for is told at once. -/
  passedOn {before after : Journal ω P M R} {launch : Launch ω P M R} :
    journal = before ++ .asked :: after → before.flying = some launch →
    ∃ rest, after = .told launch :: rest
  /-- An engine is told only of a stop that is asked for while it runs. -/
  wanted {before after : Journal ω P M R} {launch : Launch ω P M R} :
    journal = before ++ .told launch :: after →
    ∃ earlier : Journal ω P M R, before = earlier ++ [.asked] ∧ earlier.flying = some launch
  /-- An engine whose run is over is never told. -/
  spared {before after : Journal ω P M R} {launch : Launch ω P M R} {fault : Option Fault}
    {head : Node M} {world : ω} :
    journal = before ++ .ended launch fault head world :: after →
    ∀ other, .told other ∈ after → other.number ≠ launch.number

variable {ω P M R : Type}

namespace Phase

variable [BoardMove M] [DecidableEq M] [Board P M] {settings : Settings M R}
  {phase last : Phase ω P M R} {journal : Journal ω P M R}

/-- Once a stop was asked for no engine is made. -/
theorem Reads.silent (h : phase.Reads settings journal last) (hasked : phase.asked = true) :
    (∀ launch, .launched launch ∉ journal) ∧ ∀ fault, .refused fault ∉ journal := by
  induction h with
  | nil => simp
  | cons htakes _ ih =>
    obtain ⟨hlaunched, hrefused⟩ := ih (htakes.asked_iff.mpr (.inl hasked))
    cases htakes with
    | refused => cases hasked
    | launched => cases hasked
    | _ => simp [hlaunched, hrefused]

/-- An engine that is told is there when the reading begins or has a number that is not used up by
then. -/
theorem Reads.told (h : phase.Reads settings journal last) {launch : Launch ω P M R}
    (htold : .told launch ∈ journal) : phase.engine = some launch ∨ phase.made ≤ launch.number := by
  induction h with
  | nil => cases htold
  | cons htakes _ ih =>
    rcases List.mem_cons.mp htold with rfl | hrest
    · cases htakes
      exact .inl rfl
    · cases htakes with
      | launched hnumber =>
        rcases ih hrest with hengine | hmade
        · cases hengine
          exact .inr (Nat.le_of_eq hnumber.symm)
        · exact .inr (hnumber ▸ Nat.le_of_succ_le hmade)
      | failed =>
        rcases ih hrest with hengine | hmade
        · cases hengine
        · exact .inr hmade
      | succeeded =>
        rcases ih hrest with hengine | hmade
        · cases hengine
        · exact .inr hmade
      | _ => exact ih hrest

/-- A journal that is read from the beginning to a rest heeds all requests to stop. -/
theorem Reads.heedsStops {asked : Bool} {made : Nat} {landed : Option (Launch ω P M R × Node M)}
    (h : (resting false 0 none).Reads settings journal (resting asked made landed)) :
    journal.HeedsStops where
  numbered hsplit := by
    subst hsplit
    obtain ⟨now, next, hbefore, htakes, -⟩ := h.split
    cases htakes with
    | launched hnumber => exact hnumber.trans (hbefore.made.trans (Nat.zero_add _))
  alone hsplit := by
    subst hsplit
    obtain ⟨now, next, hbefore, htakes, -⟩ := h.split
    cases htakes with
    | began => exact hbefore.flying
  closed hsplit := by
    subst hsplit
    obtain ⟨now, next, hbefore, htakes, -⟩ := h.split
    cases htakes with
    | failed => exact hbefore.flying
    | succeeded => exact hbefore.flying
  silent hsplit := by
    subst hsplit
    obtain ⟨now, next, -, htakes, hafter⟩ := h.split
    exact hafter.silent (htakes.asked_iff.mpr (.inr rfl))
  passedOn hsplit hflying := by
    subst hsplit
    obtain ⟨now, next, hbefore, htakes, hafter⟩ := h.split
    have hnow : now.flying = some _ := hbefore.flying.symm.trans hflying
    cases htakes with
    | asked => cases hnow
    | caught =>
      cases hnow
      -- A phase in which an engine has to be told is not the last one.
      cases hafter with
      | cons hnext =>
        cases hnext
        exact ⟨_, rfl⟩
  wanted {before after launch} hsplit := by
    subst hsplit
    obtain ⟨now, next, hbefore, htakes, -⟩ := h.split
    cases htakes with
    | told =>
      rcases List.eq_nil_or_concat before with rfl | ⟨earlier, entry, rfl⟩
      · cases hbefore
      · rw [List.concat_eq_append] at hbefore ⊢
        obtain ⟨first, hearlier, hasked⟩ := hbefore.split_last
        cases hasked with
        | caught => exact ⟨earlier, rfl, hearlier.flying⟩
  spared {before after launch fault head world} hsplit other htold := by
    subst hsplit
    obtain ⟨now, next, -, htakes, hafter⟩ := h.split
    have hover : next.engine = none ∧ next.made = launch.number + 1 := by
      cases htakes <;> exact ⟨rfl, rfl⟩
    rcases hafter.told htold with hengine | hmade
    · rw [hover.1] at hengine
      cases hengine
    · rw [hover.2] at hmade
      exact Nat.ne_of_gt hmade

/-- When no engine is there and a stop was asked for, no run ends any more. -/
theorem Reads.ended_not_mem (h : phase.Reads settings journal last) (hasked : phase.asked = true)
    (hengine : phase.engine = none) {launch : Launch ω P M R} {fault : Option Fault}
    {head : Node M} {world : ω} : .ended launch fault head world ∉ journal := by
  induction h with
  | nil => simp
  | cons htakes _ ih =>
    cases htakes with
    | refused => cases hasked
    | launched => cases hasked
    | discarded => simp [ih hasked rfl]
    | asked => simp [ih rfl rfl]
    | _ => cases hengine

/-- An engine is told only when a stop was asked for. -/
theorem Reads.asked_of_told (h : phase.Reads settings journal last) {launch : Launch ω P M R}
    (htold : .told launch ∈ journal) : last.asked = true := by
  obtain ⟨before, after, rfl⟩ := List.append_of_mem htold
  obtain ⟨now, next, -, htakes, hafter⟩ := h.split
  refine hafter.asked_iff.mpr (.inl ?_)
  cases htakes
  rfl

end Phase

section

variable {launch : Launch ω P M R} {written : BestMove M → BestMove M} {outcome : SearchOutcome ω M}
  {asked : Bool} {entries : Journal ω P M R}

theorem Flight.launched_not_mem (h : Flight launch written outcome asked entries)
    (other : Launch ω P M R) : .launched other ∉ entries := by
  induction h with
  | ended => simp
  | announced _ _ ih => simp [ih]
  | asked _ ih => simp [ih]

theorem Flight.requested_of_told (h : Flight launch written outcome asked entries)
    {other : Launch ω P M R} (htold : .told other ∈ entries) : outcome.abort.requested = true := by
  induction h with
  | ended => simp at htold
  | announced _ _ ih => exact ih (by simpa using htold)
  | asked hrest => exact hrest.requested rfl

theorem Flight.ended_mem (h : Flight launch written outcome asked entries) :
    .ended launch outcome.fault outcome.head outcome.world ∈ entries := by
  induction h with
  | ended => exact List.mem_singleton.mpr rfl
  | announced _ _ ih => simp [ih]
  | asked _ ih => simp [ih]

end

section

variable [BoardMove M] [DecidableEq M] [Board P M]
  {engine : SearchEngine ω M R} {tree : GameTree P M} {minimum : Nat}
  {report : M → DiscardedMove M} {asked last : Bool} {entries : Journal ω P M R}

theorem Choosing.launched_not_mem (h : Choosing engine tree minimum report asked last entries)
    (other : Launch ω P M R) : .launched other ∉ entries := by
  induction h with
  | chosen => simp
  | discarded _ _ _ _ ih => simp [ih]
  | asked _ ih => simp [ih]

theorem Choosing.told_not_mem (h : Choosing engine tree minimum report asked last entries)
    (other : Launch ω P M R) : .told other ∉ entries := by
  induction h with
  | chosen => simp
  | discarded _ _ _ _ ih => simp [ih]
  | asked _ ih => simp [ih]

end

namespace Game

/-- The game of the last engine's tree after a round in which an engine was made. -/
theorem searched_of_flight (start : GameRecord P M) (journal : Journal ω P M R)
    {launch : Launch ω P M R} {flight rest : Journal ω P M R}
    (hflight : ∀ other, .launched other ∉ flight) (hrest : ∀ other, .launched other ∉ rest) :
    Journal.searched start (journal ++ (.launched launch :: .began launch :: flight ++ rest)) =
      launch.tree.record := by
  have hquiet : ∀ other, .launched other ∉ .began launch :: flight ++ rest := by
    simp [hflight, hrest]
  rw [Journal.searched_append]
  exact Journal.searched_of_not_mem launch.tree.record hquiet

variable [BoardMove M] [Board P M]

/-- A game is where the last engine found it, or it is one move further, and then the engine has
succeeded and none was ever told to stop. -/
def IsNear (start : GameRecord P M) (game : Game ω P M R) (journal : Journal ω P M R) : Prop :=
  game.record = journal.searched start ∨
    (∀ launch, .told launch ∉ journal) ∧
      ∃ launch head world move, .ended launch none head world ∈ journal ∧
        launch.tree.record = journal.searched start ∧ game.record = launch.tree.record.play move

/-- Nothing changes for a game that stays as it is while no engine is made and none is told. -/
theorem IsNear.append {start : GameRecord P M} {game after : Game ω P M R}
    {journal entries : Journal ω P M R} (hnear : game.IsNear start journal)
    (hsame : after.record = game.record) (hlaunched : ∀ launch, .launched launch ∉ entries)
    (htold : ∀ launch, .told launch ∉ entries) : after.IsNear start (journal ++ entries) := by
  unfold IsNear
  rw [hsame, Journal.searched_append, Journal.searched_of_not_mem _ hlaunched]
  rcases hnear with hrecord | ⟨hnever, launch, head, world, move, hended, hsearched, hrecord⟩
  · exact .inl hrecord
  · refine .inr ⟨?_, launch, head, world, move, List.mem_append_left _ hended, hsearched, hrecord⟩
    intro other hmem
    rcases List.mem_append.mp hmem with hmem | hmem
    · exact hnever other hmem
    · exact htold other hmem

variable [DecidableEq M] [Scalar R] {setup : MatchSetup ω P M R} {allowed : PlayRequest → Prop}

theorem Landing.launched_not_mem {request : PlayRequest} {game after : Game ω P M R} {side : Color}
    {engine : SearchEngine ω M R} {outcome : SearchOutcome ω M} {ending : Option PlayEnd}
    {entries : Journal ω P M R}
    (h : game.Landing setup request side engine outcome ending after entries)
    (other : Launch ω P M R) : .launched other ∉ entries := by
  cases h with
  | moved _ _ _ _ _ hchoosing => exact hchoosing.launched_not_mem other
  | _ => simp

theorem IsNear.round {start : GameRecord P M} {settings : Settings M R} {request : PlayRequest}
    {game after : Game ω P M R} {ending : Option PlayEnd} {journal entries : Journal ω P M R}
    (hnear : game.IsNear start journal) (hfits : game.Fits settings journal)
    (h : game.Progress setup request journal.launches ending after entries) :
    after.IsNear start (journal ++ entries) := by
  cases h with
  | decided => exact hnear.append rfl (by simp) (by simp)
  | stopped => exact hnear.append (record_prepareTree_get game _ _) (by simp) (by simp)
  | refused => exact hnear.append (record_prepareTree_get game _ _) (by simp) (by simp)
  | @searched launch _ _ outcome _ _ flight rest _ hrun _ htree _ _ hflight hlanding =>
    unfold IsNear
    rw [searched_of_flight start journal hflight.launched_not_mem hlanding.launched_not_mem]
    have hprepared := record_prepareTree_get game game.sideToMove .white
    obtain ⟨hlaunch, -⟩ := hfits.inStep.searched htree
    rw [hlaunch]
    cases hlanding with
    | failed => exact .inl ((record_land_get _ _ _ _).trans hprepared)
    | halted => exact .inl ((record_land_get _ _ _ _).trans hprepared)
    | resigned => exact .inl ((record_searched_get _ _).trans hprepared)
    | @moved chosen _ hfault hgoesOn _ _ _ hchoosing =>
      refine .inr ⟨?_, launch, outcome.head, outcome.world, chosen.move, ?_, hlaunch, ?_⟩
      · intro other htold
        simp only [List.cons_append, List.mem_append, List.mem_cons, reduceCtorEq, false_or] at htold
        rcases htold with htold | htold | htold
        · obtain ⟨landed, hreads⟩ := hfits.reads
          have hasked : game.abort.requested = true := hreads.asked_of_told htold
          rw [hrun] at hasked
          cases hasked
        · rw [hflight.requested_of_told htold] at hgoesOn
          cases hgoesOn
        · exact hchoosing.told_not_mem other htold
      · have hended := hflight.ended_mem
        rw [hfault] at hended
        simp [hended]
      · rw [hlaunch, record, GameTrees.get_play, GameTree.play, record_searched_get, hprepared]
        rfl

theorem IsNear.leads {start : GameRecord P M} {settings : Settings M R}
    {now later : Game ω P M R × Journal ω P M R} (hnear : now.1.IsNear start now.2)
    (hfits : now.1.Fits settings now.2) (h : Leads setup allowed now later) :
    later.1.IsNear start later.2 := by
  have hboth := keeps_of_leads
    (Q := fun game journal => game.Fits settings journal ∧ game.IsNear start journal)
    (fun _ hnow hprogress => ⟨hnow.1.round hprogress, hnow.2.round hnow.1 hprogress⟩)
    (fun hnow => ⟨hnow.1.asked, hnow.2.append rfl (by simp) (by simp)⟩) h ⟨hfits, hnear⟩
  exact hboth.2

/-- A game that was asked to stop stays where it is. -/
theorem record_of_leads {now later : Game ω P M R × Journal ω P M R}
    (h : Leads setup allowed now later) (hrequested : now.1.abort.requested = true) :
    later.1.record = now.1.record := by
  have hstays := keeps_of_leads
    (Q := fun game _ => game.abort.requested = true ∧ game.record = now.1.record)
    (fun _ hnow hprogress => by
      obtain ⟨-, hrecord, habort⟩ := hprogress.of_requested hnow.1
      rw [habort, hrecord]
      exact hnow)
    (fun hnow => ⟨rfl, hnow.2⟩) h ⟨hrequested, rfl⟩
  exact hstays.2

end Game

variable [BoardMove M] [DecidableEq M] [Board P M] [Scalar R]

/-- **No request to stop is lost, and none reaches a search that is over.** Whatever engines,
callbacks and others do, and whenever they ask a game to stop: its journal heeds the requests, and
nothing is in flight when no search goes on. After a request the game stays where the last search
found it, or it makes one more move if the request came when that search had succeeded and its end
had been checked for requests. Once the call to play in which the request came is over, no move is
made at all. -/
theorem stop_requests_heeded {options : PerSide (SelfPlayOptions R)} {shared : Bool} {opening : Opening M}
    {start : Game ω P M R} (hbegin : Game.begin options shared opening = .ok start)
    (setup : MatchSetup ω P M R) (world : ω) (acts : List (Act ω)) :
    let journal := start.journal setup world acts
    let final := (start.perform setup world acts).1
    journal.HeedsStops ∧ final.abort.inFlight = none ∧
    (final.abort.requested = true ↔ .asked ∈ journal) ∧
    (∀ before after : Journal ω P M R, journal = before ++ .asked :: after →
      final.record = before.searched start.record ∨
      before.flying = none ∧ ∃ launch head world move, .ended launch none head world ∈ before ∧
        launch.tree.record = before.searched start.record ∧
        final.record = launch.tree.record.play move) ∧
    ∀ earlier later, acts = earlier ++ later → .asked ∈ start.journal setup world earlier →
      final.record = (start.perform setup world earlier).1.record := by
  obtain ⟨hfresh, -⟩ := Game.fresh_of_begin hbegin
  have hfits (some : List (Act ω)) : (start.perform setup world some).1.Fits start.settings
      (start.journal setup world some) := hfresh.fits_perform setup world some
  have hidle : start.abort.inFlight = none := hfresh.fits.grounded
  obtain ⟨landed, hreads⟩ := (hfits acts).reads
  refine ⟨hreads.heedsStops, (hfits acts).grounded, (hfits acts).requested_iff, ?_, ?_⟩
  · intro before after hsplit
    have hrecord : (start.perform setup world acts).1.IsNear start.record
        (start.journal setup world acts) :=
      Game.IsNear.leads (.inl rfl) hfresh.fits
        (Game.leads_journal setup world hidle acts (fun _ => True) fun _ _ _ => trivial)
    rw [hsplit] at hreads hrecord
    obtain ⟨now, next, hbefore, htakes, hafter⟩ := hreads.split
    -- No engine is made after the request, so the last one was made before it.
    have hquiet := (hafter.silent (htakes.asked_iff.mpr (.inr rfl))).1
    have hsearched : Journal.searched start.record (before ++ .asked :: after) =
        before.searched start.record := by
      rw [Journal.searched_append]
      exact Journal.searched_of_not_mem _ (by simp [hquiet])
    rw [Game.IsNear, hsearched] at hrecord
    rcases hrecord with hrecord | ⟨hnever, launch, head, last, move, hended, hlaunch, hrecord⟩
    · exact .inl hrecord
    · cases htakes with
      | @caught _ caught =>
        cases hafter with
        | cons hnext =>
          cases hnext
          exact absurd (by simp) (hnever caught)
      | asked =>
        refine .inr ⟨hbefore.flying, launch, head, last, move, ?_, hlaunch, hrecord⟩
        rcases List.mem_append.mp hended with hended | hended
        · exact hended
        · have hlater : .ended launch none head last ∈ after := by simpa using hended
          exact absurd hlater (hafter.ended_not_mem rfl rfl)
  · rintro earlier later rfl hmem
    have hleads := Game.leads_journal_append setup world hidle earlier later (fun _ => True)
      fun _ _ _ => trivial
    exact Game.record_of_leads hleads ((hfits earlier).requested_iff.mpr hmem)

def Entry.isTold {ω P M R : Type} : Entry ω P M R → Bool
  | .told _ => true
  | _ => false

namespace TicTacToe

/-- Engines of which black's asks for a stop while it searches. -/
def interruptedSetup : MatchSetup Unit Position Square Binary32 where
  players := firstMoveSetup.players
  factory :=
    { intrinsicStoppers := fun _ => []
      create := fun context world =>
        let head := context.tree.expand.head
        (.ok { firstMoveEngine context.tree with
          run := fun _ =>
            if context.tree.sideToMove.isBlack then .requestStop (.finish none head)
            else .finish none head }, world) }

end TicTacToe

open TicTacToe in
/-- A game that is asked to stop after its first move makes no other. One that is asked to stop during
its second search passes this on to the engine and stays where that search found it. -/
theorem firstMove_stop_requests_heeded :
    Game.begin ⟨resigning, resigning⟩ true ⟨".../.../...", []⟩ = .ok firstMoveGame ∧
    ((firstMoveGame.journal firstMoveSetup ()
        [.play firstMoveRequest 1, .requestAbort, .play firstMoveRequest 3]).HeedsStops ∧
      .asked ∈ firstMoveGame.journal firstMoveSetup () [.play firstMoveRequest 1, .requestAbort] ∧
      (firstMoveGame.perform firstMoveSetup ()
        [.play firstMoveRequest 1, .requestAbort, .play firstMoveRequest 3]).1.record =
          (firstMoveGame.perform firstMoveSetup () [.play firstMoveRequest 1, .requestAbort]).1.record) ∧
    (firstMoveGame.journal interruptedSetup () [.play firstMoveRequest 5]).HeedsStops ∧
      (firstMoveGame.perform interruptedSetup () [.play firstMoveRequest 5]).1.moves.length = 1 ∧
      ∃ (before after : Journal Unit Position Square Binary32)
        (launch : Launch Unit Position Square Binary32),
        firstMoveGame.journal interruptedSetup () [.play firstMoveRequest 5] =
          before ++ .asked :: .told launch :: after ∧
        before.flying = some launch ∧
        (firstMoveGame.perform interruptedSetup () [.play firstMoveRequest 5]).1.record =
          before.searched firstMoveGame.record := by
  refine ⟨begin_firstMoveGame, ?_, ?_⟩
  · obtain ⟨-, -, hasked, -, -⟩ := stop_requests_heeded begin_firstMoveGame firstMoveSetup ()
      [.play firstMoveRequest 1, .requestAbort]
    have hmem : .asked ∈ firstMoveGame.journal firstMoveSetup ()
        [.play firstMoveRequest 1, .requestAbort] := hasked.mp (by decide +kernel)
    obtain ⟨hheeds, -, -, -, hlater⟩ := stop_requests_heeded begin_firstMoveGame firstMoveSetup ()
      [.play firstMoveRequest 1, .requestAbort, .play firstMoveRequest 3]
    exact ⟨hheeds, hmem,
      hlater [.play firstMoveRequest 1, .requestAbort] [.play firstMoveRequest 3] rfl hmem⟩
  · obtain ⟨hheeds, -, -, hstays, -⟩ := stop_requests_heeded begin_firstMoveGame interruptedSetup ()
      [.play firstMoveRequest 5]
    have hmoves : (firstMoveGame.perform interruptedSetup ()
        [.play firstMoveRequest 5]).1.moves.length = 1 := by decide +kernel
    have hany : (firstMoveGame.journal interruptedSetup () [.play firstMoveRequest 5]).any
        Entry.isTold = true := by decide +kernel
    obtain ⟨entry, hmem, htold⟩ := List.any_eq_true.mp hany
    cases entry with
    | told launch =>
      obtain ⟨reading, after, hsplit⟩ := List.append_of_mem hmem
      obtain ⟨before, rfl, hflying⟩ := hheeds.wanted hsplit
      rw [List.append_assoc, List.singleton_append] at hsplit
      refine ⟨hheeds, hmoves, before, after, launch, hsplit, hflying, ?_⟩
      refine (hstays before _ hsplit).resolve_right fun hidle => ?_
      rw [hflying] at hidle
      cases hidle.1
    | _ => cases htold

end SelfPlay
