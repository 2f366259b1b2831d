import Mathlib.Logic.Relation
import SelfPlay.Proofs.Match.Rounds

/-!
# What can happen to a game

`Game.Leads` is what any sequence of acts makes of a game and its journal: rounds of a game that is
not over, and requests to stop. What each of these keeps is kept by all acts.
-/

namespace SelfPlay

open SelfPlay.Numeric

variable {ω P M R : Type}

/-- What no round of a game changes. -/
structure Settings (M R : Type) where
  options : PerSide (SelfPlayOptions R)
  opening : Opening M
  chess960 : Bool

namespace Game

def settings (game : Game ω P M R) : Settings M R := ⟨game.options, game.opening, game.chess960⟩

theorem settings_prepareTree (game : Game ω P M R) (side : Color) :
    (game.prepareTree side).settings = game.settings := by
  rw [prepareTree_eq]
  rfl

/-- A game at the end of its opening. -/
def started [Scalar R] (options : PerSide (SelfPlayOptions R)) (shared : Bool) (opening : Opening M)
    (record : GameRecord P M) : Game ω P M R where
  options := options
  opening := opening
  trees :=
    if shared then .shared ⟨record, .empty⟩
    else .independent ⟨⟨record, .empty⟩, ⟨record, .empty⟩⟩
  chess960 := options.white.chess960 || options.black.chess960
  result := .undecided
  abort := .idle
  samples := []
  moveCount := 0
  totalNodes := 0
  marks := .start

@[simp] theorem get_trees_started [Scalar R] {options : PerSide (SelfPlayOptions R)}
    {shared : Bool} {opening : Opening M} (record : GameRecord P M) (side : Color) :
    ((started options shared opening record : Game ω P M R).trees.get side) = ⟨record, .empty⟩ := by
  cases shared with
  | true => rfl
  | false => cases side <;> rfl

variable [Board P M]

/-- Both sides' trees hold the same game. -/
def InStep (game : Game ω P M R) : Prop := ∀ side, (game.trees.get side).record = game.record

/-- The tree that is searched next holds the game. -/
theorem InStep.searched {game : Game ω P M R} (hstep : game.InStep) {tree : GameTree P M}
    (htree : tree = (game.prepareTree game.sideToMove).trees.get game.sideToMove) :
    tree.record = game.record ∧ tree.sideToMove = game.sideToMove := by
  have hrecord : tree.record = game.record := by
    rw [htree, record_prepareTree_get]
    exact hstep _
  exact ⟨hrecord, congrArg GameRecord.sideToMove hrecord⟩

variable [BoardMove M] [Scalar R] {setup : MatchSetup ω P M R} {allowed : PlayRequest → Prop}

theorem settings_searched {request : PlayRequest} {engine : SearchEngine ω M R}
    {outcome : SearchOutcome ω M} (game : Game ω P M R) (side : Color) :
    (game.searched setup request side engine outcome).settings = game.settings := by
  rw [searched_eq]
  rfl

variable [DecidableEq M]

/-- Between rounds nothing is in flight. -/
theorem inFlight_of_progress {request : PlayRequest} {number : Nat} {game after : Game ω P M R}
    {ending : Option PlayEnd} {entries : Journal ω P M R} (hidle : game.abort.inFlight = none)
    (h : game.Progress setup request number ending after entries) :
    after.abort.inFlight = none := by
  cases h with
  | decided => exact hidle
  | stopped =>
    rw [abort_prepareTree]
    exact hidle
  | refused =>
    rw [abort_prepareTree]
    exact hidle
  | searched _ _ _ _ _ _ _ hlanding =>
    cases hlanding with
    | failed => rfl
    | halted => rfl
    | resigned =>
      rw [searched_eq]
      rfl
    | moved _ _ _ _ hnone => exact hnone

/-- A round after which the game goes on leaves its result alone. -/
theorem result_of_progress {request : PlayRequest} {number : Nat} {game after : Game ω P M R}
    {entries : Journal ω P M R} (h : game.Progress setup request number none after entries) :
    after.result = game.result := by
  cases h with
  | searched _ _ _ _ _ _ _ hlanding =>
    cases hlanding with
    | moved =>
      simp only
      rw [searched_eq, land, prepareTree_eq]

/-- A round leaves the moves and positions alone, or it plays a move and the game goes on. -/
theorem records_of_progress {request : PlayRequest} {number : Nat} {game after : Game ω P M R}
    {ending : Option PlayEnd} {entries : Journal ω P M R}
    (h : game.Progress setup request number ending after entries) :
    (∀ side, (after.trees.get side).record = (game.trees.get side).record) ∨
      ending = none ∧
        ∃ move, ∀ side, (after.trees.get side).record = (game.trees.get side).record.play move := by
  cases h with
  | decided => exact .inl fun _ => rfl
  | stopped => exact .inl fun side => record_prepareTree_get game _ side
  | refused => exact .inl fun side => record_prepareTree_get game _ side
  | searched _ _ _ _ _ _ _ hlanding =>
    have hprepared := record_prepareTree_get game game.sideToMove
    cases hlanding with
    | failed => exact .inl fun side => (record_land_get _ _ side _).trans (hprepared side)
    | halted => exact .inl fun side => (record_land_get _ _ side _).trans (hprepared side)
    | resigned => exact .inl fun side => (record_searched_get _ side).trans (hprepared side)
    | @moved chosen =>
      refine .inr ⟨rfl, chosen.move, fun side => ?_⟩
      rw [GameTrees.get_play, GameTree.play, record_searched_get, hprepared]

theorem inStep_of_progress {request : PlayRequest} {number : Nat} {game after : Game ω P M R}
    {ending : Option PlayEnd} {entries : Journal ω P M R} (hstep : game.InStep)
    (h : game.Progress setup request number ending after entries) : after.InStep := by
  intro side
  unfold record
  rcases records_of_progress h with hsame | ⟨-, move, hplayed⟩
  · rw [hsame side, hsame .white, hstep side, hstep .white]
  · rw [hplayed side, hplayed .white, hstep side, hstep .white]

theorem settings_of_progress {request : PlayRequest} {number : Nat} {game after : Game ω P M R}
    {ending : Option PlayEnd} {entries : Journal ω P M R}
    (h : game.Progress setup request number ending after entries) :
    after.settings = game.settings := by
  cases h with
  | decided => rfl
  | stopped => exact settings_prepareTree game _
  | refused => exact settings_prepareTree game _
  | searched _ _ _ _ _ _ _ hlanding =>
    have hprepared := settings_prepareTree game game.sideToMove
    cases hlanding with
    | failed => exact hprepared
    | halted => exact hprepared
    | resigned => exact (settings_searched _ _).trans hprepared
    | moved => exact (settings_searched _ _).trans hprepared

/-- A round of a game that was asked to stop does nothing and writes nothing down. -/
theorem Progress.of_requested {request : PlayRequest} {number : Nat} {game after : Game ω P M R}
    {ending : Option PlayEnd} {entries : Journal ω P M R}
    (h : game.Progress setup request number ending after entries)
    (hrequested : game.abort.requested = true) :
    entries = [] ∧ after.record = game.record ∧ after.abort = game.abort := by
  cases h with
  | decided => exact ⟨rfl, rfl, rfl⟩
  | stopped => exact ⟨rfl, record_prepareTree_get game _ _, abort_prepareTree game _⟩
  | refused _ hrun =>
    rw [hrun] at hrequested
    cases hrequested
  | searched _ hrun =>
    rw [hrun] at hrequested
    cases hrequested

section

variable {options : PerSide (SelfPlayOptions R)} {shared : Bool} {opening : Opening M}

/-- A game begins if the sides agree on how to resign and the opening can be played. -/
theorem begin_eq_ok_iff {game : Game ω P M R} :
    begin options shared opening = .ok game ↔
      options.white.resignWdlStyle = options.black.resignWdlStyle ∧
        ∃ record, GameRecord.ofOpening opening.fen opening.moves = .ok record ∧
          game = started options shared opening record := by
  unfold begin GameTrees.ofOpening GameTree.ofOpening
  by_cases hstyle : options.white.resignWdlStyle = options.black.resignWdlStyle
  · cases hrecord : GameRecord.ofOpening (P := P) opening.fen opening.moves with
    | error error => simp [hstyle]
    | ok record => simp [hstyle, started, eq_comm]
  · simp [hstyle]

end

/-- A game before its first round. -/
structure Fresh (game : Game ω P M R) : Prop where
  idle : game.abort = .idle
  undecided : game.result = .undecided
  unsampled : game.samples = []
  inStep : game.InStep

theorem fresh_of_begin {options : PerSide (SelfPlayOptions R)} {shared : Bool}
    {opening : Opening M} {game : Game ω P M R}
    (h : begin options shared opening = .ok game) : game.Fresh ∧ game.opening = opening := by
  obtain ⟨-, record, -, rfl⟩ := begin_eq_ok_iff.mp h
  refine ⟨⟨rfl, rfl, rfl, fun side => ?_⟩, rfl⟩
  rw [Game.record, get_trees_started, get_trees_started]

/-- A round of a game that is not over, by a request that is allowed, or a request to stop. -/
inductive Step (setup : MatchSetup ω P M R) (allowed : PlayRequest → Prop) :
    Game ω P M R × Journal ω P M R → Game ω P M R × Journal ω P M R → Prop
  | round {request : PlayRequest} {game after : Game ω P M R} {ending : Option PlayEnd}
      {journal entries : Journal ω P M R} : allowed request → game.result = .undecided →
      game.Progress setup request journal.launches ending after entries →
      Step setup allowed (game, journal) (after, journal ++ entries)
  | asked {game : Game ω P M R} {journal : Journal ω P M R} :
      Step setup allowed (game, journal)
        ({ game with abort := ⟨true, none⟩ }, journal ++ [.asked])

/-- Acts lead from one game and journal to another. -/
def Leads (setup : MatchSetup ω P M R) (allowed : PlayRequest → Prop) :
    Game ω P M R × Journal ω P M R → Game ω P M R × Journal ω P M R → Prop :=
  Relation.ReflTransGen (Step setup allowed)

/-- What is kept by each round and by each request is kept along the way. -/
theorem keeps_of_leads {Q : Game ω P M R → Journal ω P M R → Prop}
    (hround : ∀ {request game after ending journal entries}, allowed request → Q game journal →
      game.Progress setup request journal.launches ending after entries →
      Q after (journal ++ entries))
    (hasked : ∀ {game journal}, Q game journal →
      Q { game with abort := ⟨true, none⟩ } (journal ++ [.asked]))
    {now later : Game ω P M R × Journal ω P M R} (h : Leads setup allowed now later)
    (hnow : Q now.1 now.2) : Q later.1 later.2 := by
  induction h with
  | refl => exact hnow
  | tail _ hstep ih =>
    cases hstep with
    | round hallowed _ hprogress => exact hround hallowed ih hprogress
    | asked => exact hasked ih

theorem leads_roundsFor {request : PlayRequest} (hallowed : allowed request) (rounds : Nat)
    (world : ω) (journal : Journal ω P M R) {game : Game ω P M R}
    (hopen : game.result = .undecided) (hidle : game.abort.inFlight = none)
    {result : PlayEnd × Game ω P M R × ω}
    (hresult : roundsFor setup request rounds game world = result) :
    ∃ entries, Leads setup allowed (game, journal) (result.2.1, journal ++ entries) ∧
      result.2.1.abort.inFlight = none ∧
      roundsFor setup.journaled request rounds (game.inWorld (Journaled ω P M R))
          ⟨world, journal⟩ =
        (result.1, result.2.1.inWorld _, ⟨result.2.2, journal ++ entries⟩) := by
  induction rounds generalizing game world journal with
  | zero =>
    subst hresult
    exact ⟨[], by rw [List.append_nil]; exact .refl, hidle, by rw [List.append_nil]; rfl⟩
  | succ rounds ih =>
    obtain ⟨ending, next, now, hround⟩ : ∃ ending next now,
        game.round setup request world = (ending, next, now) := ⟨_, _, _, rfl⟩
    obtain ⟨entries, hprogress, hjournaled⟩ :=
      round_journaled setup request world journal hround
    have hstep : Step setup allowed (game, journal) (next, journal ++ entries) :=
      .round hallowed hopen hprogress
    have hstill := inFlight_of_progress hidle hprogress
    cases ending with
    | some ending =>
      rw [roundsFor_of_round_eq_some rounds hround] at hresult
      subst hresult
      exact ⟨entries, .single hstep, hstill, roundsFor_of_round_eq_some rounds hjournaled⟩
    | none =>
      rw [roundsFor_of_round_eq_none rounds hround] at hresult
      obtain ⟨rest, hleads, hlast, hrest⟩ := ih now (journal ++ entries)
        ((result_of_progress hprogress).trans hopen) hstill hresult
      rw [List.append_assoc] at hleads hrest
      exact ⟨entries ++ rest, .head hstep hleads, hlast,
        (roundsFor_of_round_eq_none rounds hjournaled).trans hrest⟩

theorem leads_act (setup : MatchSetup ω P M R) (world : ω) (journal : Journal ω P M R)
    {game : Game ω P M R} (hidle : game.abort.inFlight = none) {next : Act ω}
    (hallowed : ∀ request rounds, next = .play request rounds → allowed request)
    {result : Game ω P M R × ω} (hresult : act setup (game, world) next = result) :
    ∃ entries, Leads setup allowed (game, journal) (result.1, journal ++ entries) ∧
      result.1.abort.inFlight = none ∧
      (game.inWorld (Journaled ω P M R)).perform setup.journaled ⟨world, journal⟩ next.journaled =
        (result.1.inWorld _, ⟨result.2, journal ++ entries⟩) := by
  cases next with
  | play request rounds =>
    by_cases hover : game.result.isTerminal = true
    · have hstay : playFor setup request rounds game world = (.finished, game, world) :=
        if_pos hover
      have hjournaled : playFor setup.journaled request rounds (game.inWorld (Journaled ω P M R))
          ⟨world, journal⟩ = (.finished, game.inWorld _, ⟨world, journal⟩) := if_pos hover
      rw [act, hstay] at hresult
      subst hresult
      refine ⟨[], by rw [List.append_nil]; exact .refl, hidle, ?_⟩
      rw [List.append_nil]
      exact congrArg Prod.snd hjournaled
    · have hplay : playFor setup request rounds game world =
          roundsFor setup request rounds game world := if_neg hover
      have hjournaled : playFor setup.journaled request rounds (game.inWorld (Journaled ω P M R))
          ⟨world, journal⟩ = roundsFor setup.journaled request rounds (game.inWorld _)
            ⟨world, journal⟩ := if_neg hover
      obtain ⟨entries, hleads, hlast, hrest⟩ := leads_roundsFor (hallowed request rounds rfl) rounds
        world journal (GameResult.eq_undecided_of_not_isTerminal hover) hidle rfl
      rw [act, hplay] at hresult
      subst hresult
      exact ⟨entries, hleads, hlast, congrArg Prod.snd (hjournaled.trans hrest)⟩
  | requestAbort =>
    have hrequest : game.requestAbort world = ({ game with abort := ⟨true, none⟩ }, world) := by
      unfold requestAbort AbortState.request
      rw [hidle]
    rw [act, hrequest] at hresult
    subst hresult
    exact ⟨[.asked], .single .asked, rfl, rfl⟩
  | change f =>
    subst hresult
    exact ⟨[], by rw [List.append_nil]; exact .refl, hidle, by rw [List.append_nil]; rfl⟩

/-- Acts lead from the game before them to the game after them, and with a journal they do the
same. -/
theorem leads_perform (setup : MatchSetup ω P M R) (world : ω) (journal : Journal ω P M R)
    {game : Game ω P M R} (hidle : game.abort.inFlight = none) (acts : List (Act ω))
    (allowed : PlayRequest → Prop)
    (hallowed : ∀ request rounds, .play request rounds ∈ acts → allowed request) :
    ∃ entries, Leads setup allowed (game, journal)
        ((game.perform setup world acts).1, journal ++ entries) ∧
      (game.perform setup world acts).1.abort.inFlight = none ∧
      (game.inWorld (Journaled ω P M R)).perform setup.journaled ⟨world, journal⟩
          (acts.flatMap Act.journaled) =
        ((game.perform setup world acts).1.inWorld _,
          ⟨(game.perform setup world acts).2, journal ++ entries⟩) := by
  induction acts generalizing game world journal with
  | nil => exact ⟨[], by rw [List.append_nil]; exact .refl, hidle, by rw [List.append_nil]; rfl⟩
  | cons next acts ih =>
    have hfirst : ∀ request rounds, next = .play request rounds → allowed request := by
      rintro request rounds rfl
      exact hallowed request rounds List.mem_cons_self
    have hrest : ∀ request rounds, .play request rounds ∈ acts → allowed request := by
      intro request rounds hmem
      exact hallowed request rounds (List.mem_cons_of_mem _ hmem)
    obtain ⟨entries, hleads, hstill, hact⟩ := leads_act setup world journal hidle hfirst rfl
    obtain ⟨more, hlater, hlast, hacts⟩ := ih (act setup (game, world) next).2
      (journal ++ entries) hstill hrest
    rw [List.append_assoc] at hlater hacts
    refine ⟨entries ++ more, hleads.trans hlater, hlast, ?_⟩
    rw [List.flatMap_cons, perform, List.foldl_append]
    unfold perform at hact hacts
    rw [hact]
    exact hacts

theorem perform_append (setup : MatchSetup ω P M R) (game : Game ω P M R) (world : ω)
    (earlier later : List (Act ω)) :
    game.perform setup world (earlier ++ later) =
      (game.perform setup world earlier).1.perform setup (game.perform setup world earlier).2
        later :=
  List.foldl_append

/-- **Whatever is done to a game, writing it down changes nothing.** The journaled game and its world
are those of the bare one, with the journal beside them. -/
theorem perform_journaled (setup : MatchSetup ω P M R) (world : ω) {game : Game ω P M R}
    (hidle : game.abort.inFlight = none) (acts : List (Act ω)) :
    (game.inWorld (Journaled ω P M R)).perform setup.journaled ⟨world, []⟩
        (acts.flatMap Act.journaled) =
      ((game.perform setup world acts).1.inWorld _,
        ⟨(game.perform setup world acts).2, game.journal setup world acts⟩) := by
  obtain ⟨entries, -, -, hjournaled⟩ :=
    leads_perform setup world [] hidle acts (fun _ => True) fun _ _ _ => trivial
  rw [journal, hjournaled]

/-- Acts lead from a game with an empty journal to the game and the journal that they make. -/
theorem leads_journal (setup : MatchSetup ω P M R) (world : ω) {game : Game ω P M R}
    (hidle : game.abort.inFlight = none) (acts : List (Act ω))
    (allowed : PlayRequest → Prop)
    (hallowed : ∀ request rounds, .play request rounds ∈ acts → allowed request) :
    Leads setup allowed (game, [])
      ((game.perform setup world acts).1, game.journal setup world acts) := by
  obtain ⟨entries, hleads, -, hjournaled⟩ := leads_perform setup world [] hidle acts allowed hallowed
  rw [journal, hjournaled]
  exact hleads

/-- What rounds and requests keep of the game itself is kept whatever is done to it. -/
theorem keeps_of_perform {Q : Game ω P M R → Prop}
    (hround : ∀ {request number game after ending entries}, Q game →
      game.Progress setup request number ending after entries → Q after)
    (hasked : ∀ {game}, Q game → Q { game with abort := ⟨true, none⟩ }) (world : ω)
    {game : Game ω P M R} (hidle : game.abort.inFlight = none) (hgame : Q game)
    (acts : List (Act ω)) : Q (game.perform setup world acts).1 :=
  keeps_of_leads (Q := fun now _ => Q now) (fun _ => hround) hasked
    (leads_journal setup world hidle acts (fun _ => True) fun _ _ _ => trivial) hgame

theorem inFlight_perform (setup : MatchSetup ω P M R) (world : ω) {game : Game ω P M R}
    (hidle : game.abort.inFlight = none) (acts : List (Act ω)) :
    (game.perform setup world acts).1.abort.inFlight = none :=
  keeps_of_perform (Q := fun now => now.abort.inFlight = none) inFlight_of_progress (fun _ => rfl)
    world hidle hidle acts

theorem inStep_perform (setup : MatchSetup ω P M R) (world : ω) {game : Game ω P M R}
    (hidle : game.abort.inFlight = none) (hstep : game.InStep) (acts : List (Act ω)) :
    (game.perform setup world acts).1.InStep :=
  keeps_of_perform (Q := InStep) inStep_of_progress id world hidle hstep acts

/-- Further acts lead on from there. -/
theorem leads_journal_append (setup : MatchSetup ω P M R) (world : ω) {game : Game ω P M R}
    (hidle : game.abort.inFlight = none) (earlier later : List (Act ω))
    (allowed : PlayRequest → Prop)
    (hallowed : ∀ request rounds, .play request rounds ∈ later → allowed request) :
    Leads setup allowed
      ((game.perform setup world earlier).1, game.journal setup world earlier)
      ((game.perform setup world (earlier ++ later)).1,
        game.journal setup world (earlier ++ later)) := by
  obtain ⟨entries, -, hstill, hearlier⟩ := leads_perform setup world [] hidle earlier
    (fun _ => True) fun _ _ _ => trivial
  obtain ⟨more, hleads, -, hlater⟩ := leads_perform setup (game.perform setup world earlier).2
    entries hstill later allowed hallowed
  have hfirst : game.journal setup world earlier = entries := by
    rw [journal, hearlier]
    rfl
  have hboth : game.journal setup world (earlier ++ later) = entries ++ more := by
    rw [journal, List.flatMap_append, perform_append, hearlier]
    exact congrArg (·.2.journal) hlater
  rw [perform_append, hfirst, hboth]
  exact hleads

end Game

end SelfPlay
