import Mathlib.Algebra.GroupWithZero.Nat
import Mathlib.Data.List.Induction
import SelfPlay.Proofs.Match.Export
import SelfPlay.Proofs.Match.Inheritance

/-!
# The books of a game

A game counts its searches and their playouts, lists its moves, and has one result. All of these are
told by its journal together with the calls to play. The counters are those of the searches that have
succeeded (`Journal.succeeded`). A search is followed by its move unless a stop was asked for before
it came to its end, or the game is given up by its evaluation; so moves and searches differ by one at
most, and which of the two it is only depends on the last search (`Game.Accounted`).

The counters are numbers without a greatest one.
-/

namespace SelfPlay

open SelfPlay.Numeric

section

variable {ω P M R : Type}

/-- The playouts that a search had made when it came to its end. -/
def FinishedSearch.playouts (search : FinishedSearch ω P M R) : Nat :=
  search.launch.engine.playouts search.world

def FinishedSearch.entry (search : FinishedSearch ω P M R) : Entry ω P M R :=
  .ended search.launch none search.head search.world

namespace Journal

/-- The searches that have ended well, oldest first, whether a stop was asked for or not. -/
def succeeded : Journal ω P M R → List (FinishedSearch ω P M R)
  | [] => []
  | .ended launch none head world :: rest => ⟨launch, head, world⟩ :: succeeded rest
  | _ :: rest => succeeded rest

theorem succeeded_append (before after : Journal ω P M R) :
    succeeded (before ++ after) = before.succeeded ++ after.succeeded := by
  induction before with
  | nil => rfl
  | cons entry before ih =>
    cases entry with
    | ended launch fault head world =>
      cases fault with
      | none => exact congrArg (_ :: ·) ih
      | some _ => exact ih
    | _ => exact ih

end Journal

/-- The journal of a search from its beginning on, taken apart at its end. -/
theorem Flight.split {launch : Launch ω P M R} {written : BestMove M → BestMove M}
    {outcome : SearchOutcome ω M} {asked : Bool} {entries : Journal ω P M R}
    (h : Flight launch written outcome asked entries) :
    ∃ before : Journal ω P M R,
      entries = before ++ [.ended launch outcome.fault outcome.head outcome.world] ∧
      before.succeeded = [] ∧
      (outcome.abort.requested = true ↔ asked = true ∨ .asked ∈ before) := by
  induction h with
  | ended => exact ⟨[], rfl, rfl, by simp⟩
  | announced info _ ih =>
    obtain ⟨before, rfl, hnone, hasked⟩ := ih
    exact ⟨_ :: _ :: before, rfl, hnone, by simp [hasked]⟩
  | asked hrest ih =>
    obtain ⟨before, rfl, hnone, -⟩ := ih
    exact ⟨_ :: _ :: before, rfl, hnone, by simp [hrest.requested rfl]⟩

end

variable {ω P M R : Type} [BoardMove M] [Board P M]

section

variable [DecidableEq M]

theorem Choosing.succeeded {engine : SearchEngine ω M R} {tree : GameTree P M} {minimum : Nat}
    {report : M → DiscardedMove M} {asked last : Bool} {entries : Journal ω P M R}
    (h : Choosing engine tree minimum report asked last entries) : entries.succeeded = [] := by
  induction h with
  | chosen => rfl
  | discarded _ _ _ _ ih => exact ih
  | asked _ ih => exact ih

end

namespace GameRecord

theorem length_moves (record : GameRecord P M) (chess960 : Bool) :
    (record.moves chess960).length = record.moveCount := by
  rw [moves, List.length_reverse, List.length_map, moveCount]

variable [DecidableEq M]

theorem moveCount_playLegal {record final : GameRecord P M} {moves : List M}
    (h : record.playLegal moves = .ok final) :
    final.moveCount = record.moveCount + moves.length := by
  induction moves generalizing record with
  | nil =>
    cases h
    rfl
  | cons move rest ih =>
    unfold playLegal at h
    split at h
    · have hrest := ih h
      have hplayed : (record.play move).moveCount = record.moveCount + 1 := rfl
      rw [List.length_cons]
      omega
    · cases h

theorem ofOpening_eq_ok_iff {fen : String} {moves : List M} {record : GameRecord P M} :
    ofOpening fen moves = .ok record ↔
      ∃ start : P, Board.ofFen fen = .ok start ∧ (ofStart start).playLegal moves = .ok record := by
  unfold ofOpening
  cases hstart : (Board.ofFen fen : Except Error P) with
  | error error => simp
  | ok start => simp

/-- What legal moves keep is kept by an opening. -/
theorem keeps_of_ofOpening {Q : GameRecord P M → Prop}
    (hstart : ∀ {fen : String} {start : P}, Board.ofFen fen = .ok start → Q (ofStart start))
    (hplay : ∀ {record : GameRecord P M} {move : M}, Q record →
      move ∈ Board.legalMoves record.head → Q (record.playRelative move))
    {fen : String} {moves : List M} {final : GameRecord P M}
    (h : ofOpening fen moves = .ok final) : Q final := by
  obtain ⟨start, hfen, hmoves⟩ := ofOpening_eq_ok_iff.mp h
  have hrecord := hstart hfen
  generalize ofStart start = record at hmoves hrecord
  clear h
  induction moves generalizing record with
  | nil =>
    cases hmoves
    exact hrecord
  | cons move rest ih =>
    unfold playLegal at hmoves
    split at hmoves
    · rename_i hlegal
      exact ih _ hmoves (hplay hrecord hlegal)
    · cases hmoves

end GameRecord

theorem Game.length_moves (game : Game ω P M R) : game.moves.length = game.record.moveCount :=
  GameRecord.length_moves _ _

variable [Scalar R]

/-- The result that the evaluation of a search gives to a game, if it gives one. -/
def Settings.verdict (settings : Settings M R) (search : FinishedSearch ω P M R) :
    Option GameResult :=
  let tree := search.launch.tree
  (settings.options.get tree.sideToMove).verdict tree.sideToMove
    (tree.record.history.length / 2 + 1) (search.launch.engine.bestEval search.world)

/-- No move followed a search: when it came to its end a stop had been asked for, or the game was
given up by its evaluation. `before` is what was written down before its end. -/
def FinishedSearch.IsUnplayed (search : FinishedSearch ω P M R) (settings : Settings M R)
    (request : PlayRequest) (before : Journal ω P M R) : Prop :=
  .asked ∈ before ∨ request.resignation = true ∧ settings.verdict search ≠ none

namespace Game

/-- The game is over by the rules. -/
def IsRuled (game : Game ω P M R) : Prop :=
  game.rulesResult.isTerminal = true ∧ game.result = game.rulesResult

/-- What the moves and the result of a game have to do with its last search. -/
structure Accounted (game : Game ω P M R) (settings : Settings M R) (opened : Nat)
    (request : PlayRequest) (before : Journal ω P M R) (search : FinishedSearch ω P M R) :
    Prop where
  unplayed : search.IsUnplayed settings request before →
    game.moves.length + 1 = opened + game.moveCount
  played : ¬search.IsUnplayed settings request before →
    game.moves.length = opened + game.moveCount
  /-- A verdict that counts is the result. -/
  resigned : .asked ∉ before → request.resignation = true →
    ∀ result, settings.verdict search = some result → game.result = result
  source : game.result = .undecided ∨ game.IsRuled ∨
    .asked ∉ before ∧ request.resignation = true ∧ settings.verdict search = some game.result

/-- How a search that has succeeded leaves its game. -/
inductive Exit (settings : Settings M R) (request : PlayRequest) (game : Game ω P M R)
    (before : Journal ω P M R) (search : FinishedSearch ω P M R) (after : Game ω P M R) : Prop
  | halted : .asked ∈ before → after.record = game.record → after.result = game.result →
      Exit settings request game before search after
  | resigned : .asked ∉ before → request.resignation = true →
      settings.verdict search = some after.result → after.record = game.record →
      Exit settings request game before search after
  | moved (move : M) : .asked ∉ before →
      (request.resignation = true → settings.verdict search = none) →
      after.record = game.record.play move → after.result = game.result →
      Exit settings request game before search after

/-- What a round enters into the books: nothing but perhaps the rules' result, or one search. -/
inductive Booked (settings : Settings M R) (request : PlayRequest) (game after : Game ω P M R) :
    Journal ω P M R → Prop
  | quiet {entries : Journal ω P M R} : entries.succeeded = [] → after.record = game.record →
      after.moveCount = game.moveCount → after.totalNodes = game.totalNodes →
      after.result = game.result ∨ after.IsRuled → Booked settings request game after entries
  | searched {before rest : Journal ω P M R} (search : FinishedSearch ω P M R) :
      before.succeeded = [] → rest.succeeded = [] → game.abort.requested = false →
      after.moveCount = game.moveCount + 1 →
      after.totalNodes = game.totalNodes + search.playouts →
      Exit settings request game before search after →
      Booked settings request game after (before ++ search.entry :: rest)

variable {setup : MatchSetup ω P M R} {request : PlayRequest} {settings : Settings M R}
  {game after : Game ω P M R} {ending : Option PlayEnd} {entries journal : Journal ω P M R}
  {number opened : Nat} {called : PlayRequest → Journal ω P M R → Prop}

/-- The verdict on a search as the game gives it. -/
theorem verdict_eq {M : Type} [Board P M] {game : Game ω P M R} (hstep : game.InStep)
    (search : FinishedSearch ω P M R)
    (htree : search.launch.tree = (game.prepareTree game.sideToMove).trees.get game.sideToMove) :
    (game.prepareTree game.sideToMove).verdict game.sideToMove
        (search.launch.engine.bestEval search.world) = game.settings.verdict search := by
  obtain ⟨-, hside⟩ := hstep.searched htree
  have hoptions : (game.prepareTree game.sideToMove).options = game.options :=
    congrArg Settings.options (settings_prepareTree game _)
  unfold verdict moveNumber Settings.verdict settings
  simp only
  rw [hside, hoptions, htree]

/-- The counters are those of the searches that have succeeded. -/
structure Tallied (game : Game ω P M R) (journal : Journal ω P M R) : Prop where
  moveCount : game.moveCount = journal.succeeded.length
  totalNodes : game.totalNodes = (journal.succeeded.map FinishedSearch.playouts).sum

theorem Tallied.round (h : game.Tallied journal)
    (hbooked : game.Booked settings request after entries) :
    after.Tallied (journal ++ entries) := by
  cases hbooked with
  | quiet hnone _ hmoveCount htotalNodes =>
    constructor
    · rw [Journal.succeeded_append, hnone, List.append_nil, hmoveCount, h.moveCount]
    · rw [Journal.succeeded_append, hnone, List.append_nil, htotalNodes, h.totalNodes]
  | @searched before rest search hbefore hrest _ hmoveCount htotalNodes =>
    have hone : Journal.succeeded (before ++ search.entry :: rest) = [search] := by
      rw [Journal.succeeded_append, hbefore]
      exact congrArg (search :: ·) hrest
    constructor
    · rw [Journal.succeeded_append, hone, hmoveCount, h.moveCount, List.length_append]
      rfl
    · rw [Journal.succeeded_append, hone, htotalNodes, h.totalNodes, List.map_append,
        List.sum_append]
      simp

/-- The moves and the result of a game are accounted for by its last search, if there is one.
`called request before` says that a search whose end comes after `before` belongs to `request`. -/
inductive Balanced (called : PlayRequest → Journal ω P M R → Prop) (settings : Settings M R)
    (opened : Nat) (game : Game ω P M R) (journal : Journal ω P M R) : Prop
  | unsearched : journal.succeeded = [] → game.moves.length = opened + game.moveCount →
      (game.result = .undecided ∨ game.IsRuled) → Balanced called settings opened game journal
  | searched {request : PlayRequest} {before : Journal ω P M R}
      {search : FinishedSearch ω P M R} (later : Journal ω P M R) :
      journal = before ++ search.entry :: later →
      later.succeeded = [] → called request before →
      game.Accounted settings opened request before search →
      Balanced called settings opened game journal

/-- While a game is open and not asked to stop, every search has been followed by its move. -/
theorem Balanced.length_moves (h : game.Balanced called settings opened journal)
    (hopen : game.result = .undecided) (hasked : .asked ∉ journal) :
    game.moves.length = opened + game.moveCount := by
  cases h with
  | unsearched _ hlength => exact hlength
  | @searched request before search later hjournal _ _ haccounted =>
    have hbefore : .asked ∉ before := by
      intro hmem
      exact hasked (hjournal ▸ List.mem_append_left _ hmem)
    apply haccounted.played
    rintro (hmem | ⟨hresigns, hverdict⟩)
    · exact hbefore hmem
    · obtain ⟨result, hresult⟩ := Option.ne_none_iff_exists'.mp hverdict
      have hgiven := haccounted.resigned hbefore hresigns result hresult
      rw [hopen] at hgiven
      exact ne_undecided_of_verdict hresult hgiven.symm

theorem accounted_of_exit {before : Journal ω P M R} {search : FinishedSearch ω P M R}
    (hlength : game.moves.length = opened + game.moveCount) (hopen : game.result = .undecided)
    (hasked : .asked ∉ journal) (hcount : after.moveCount = game.moveCount + 1)
    (h : Exit settings request game before search after) :
    after.Accounted settings opened request (journal ++ before) search := by
  have hrecorded := Game.length_moves game
  have hiff : .asked ∈ journal ++ before ↔ .asked ∈ before := by simp [hasked]
  cases h with
  | halted hmem hrecord hresult =>
    have hmoves := (Game.length_moves after).trans (congrArg GameRecord.moveCount hrecord)
    refine ⟨fun _ => by omega, fun hplayed => ?_, fun hnot => ?_, .inl (hresult.trans hopen)⟩
    · exact absurd (.inl (hiff.mpr hmem)) hplayed
    · exact absurd (hiff.mpr hmem) hnot
  | resigned hmem hresigns hverdict hrecord =>
    have hmoves := (Game.length_moves after).trans (congrArg GameRecord.moveCount hrecord)
    refine ⟨fun _ => by omega, fun hplayed => ?_, fun _ _ result hresult => ?_,
      .inr (.inr ⟨mt hiff.mp hmem, hresigns, hverdict⟩)⟩
    · refine absurd (.inr ⟨hresigns, ?_⟩) hplayed
      rw [hverdict]
      exact Option.some_ne_none _
    · rw [hverdict] at hresult
      exact Option.some.inj hresult
  | moved move hmem hkept hrecord hresult =>
    have hmoves : after.moves.length = game.record.moveCount + 1 := by
      rw [Game.length_moves, hrecord]
      rfl
    refine ⟨fun hunplayed => ?_, fun _ => by omega, fun _ hresigns result hgiven => ?_,
      .inl (hresult.trans hopen)⟩
    · rcases hunplayed with hasks | ⟨hresigns, hverdict⟩
      · exact absurd (hiff.mp hasks) hmem
      · exact absurd (hkept hresigns) hverdict
    · rw [hkept hresigns] at hgiven
      cases hgiven

/-- A round that enters no search leaves the books balanced. -/
theorem Balanced.quiet (h : game.Balanced called settings opened journal)
    (hopen : game.result = .undecided) (hnone : entries.succeeded = [])
    (hrecord : after.record = game.record) (hcount : after.moveCount = game.moveCount)
    (hresult : after.result = game.result ∨ after.IsRuled) :
    after.Balanced called settings opened (journal ++ entries) := by
  have hmoves : after.moves.length = game.moves.length := by
    rw [Game.length_moves, Game.length_moves, hrecord]
  rw [hopen] at hresult
  cases h with
  | unsearched hbefore hlength =>
    refine .unsearched ?_ (by omega) hresult
    rw [Journal.succeeded_append, hbefore, hnone]
    rfl
  | @searched request before search later hjournal hlater hcalled haccounted =>
    have hjournal' : journal ++ entries = before ++ search.entry :: (later ++ entries) := by
      rw [hjournal, List.append_assoc, List.cons_append]
    refine .searched (later ++ entries) hjournal' ?_ hcalled ⟨fun hunplayed => ?_, fun hplayed => ?_,
      fun hasked hresigns result hgiven => ?_, ?_⟩
    · rw [Journal.succeeded_append, hlater, hnone]
      rfl
    · rw [hmoves, hcount]
      exact haccounted.unplayed hunplayed
    · rw [hmoves, hcount]
      exact haccounted.played hplayed
    · -- A verdict would have ended the game.
      have hended := haccounted.resigned hasked hresigns result hgiven
      rw [hopen] at hended
      exact absurd hended.symm (ne_undecided_of_verdict hgiven)
    · rcases hresult with hsame | hruled
      · exact .inl hsame
      · exact .inr (.inl hruled)

theorem Balanced.asked (h : game.Balanced called settings opened journal) :
    ({ game with abort := ⟨true, none⟩ } : Game ω P M R).Balanced called settings opened
      (journal ++ [.asked]) := by
  cases h with
  | unsearched hbefore hlength hresult =>
    refine .unsearched ?_ hlength hresult
    rw [Journal.succeeded_append, hbefore]
    rfl
  | @searched request before search later hjournal hlater hcalled haccounted =>
    refine .searched (later ++ [.asked]) ?_ ?_ hcalled
      ⟨haccounted.unplayed, haccounted.played, haccounted.resigned, haccounted.source⟩
    · rw [hjournal, List.append_assoc, List.cons_append]
    · rw [Journal.succeeded_append, hlater]
      rfl

theorem Balanced.imp {other : PlayRequest → Journal ω P M R → Prop}
    (h : game.Balanced called settings opened journal)
    (hother : ∀ request before, called request before → other request before) :
    game.Balanced other settings opened journal := by
  cases h with
  | unsearched hbefore hlength hresult => exact .unsearched hbefore hlength hresult
  | searched later hjournal hlater hcalled haccounted =>
    exact .searched later hjournal hlater (hother _ _ hcalled) haccounted

variable [DecidableEq M]

/-- A search of the prepared tree is booked as it comes out. -/
theorem booked_of_landing {launch : Launch ω P M R} {outcome : SearchOutcome ω M}
    {written : BestMove M → BestMove M} {flight rest : Journal ω P M R} (hstep : game.InStep)
    (hrun : game.abort.requested = false)
    (htree : launch.tree = (game.prepareTree game.sideToMove).trees.get game.sideToMove)
    (hflight : Flight launch written outcome false flight)
    (hlanding : (game.prepareTree game.sideToMove).Landing setup request game.sideToMove
      launch.engine outcome ending after rest) :
    game.Booked game.settings request after
      (.launched launch :: .began launch :: flight ++ rest) := by
  obtain ⟨before, rfl, hnone, hasked⟩ := hflight.split
  have hverdict := verdict_eq hstep ⟨launch, outcome.head, outcome.world⟩ htree
  have hrecord : (game.prepareTree game.sideToMove).record = game.record :=
    record_prepareTree_get game _ _
  rw [prepareTree_eq] at hverdict hrecord hlanding
  have hlanded := record_land_get (game.prepareTree game.sideToMove) game.sideToMove .white outcome
  rw [prepareTree_eq] at hlanded
  have hentries (fault : Option Fault) (after : Journal ω P M R) :
      (.launched launch :: .began launch :: (before ++ [.ended launch fault outcome.head
        outcome.world]) ++ after : Journal ω P M R) = (.launched launch :: .began launch :: before)
          ++ .ended launch fault outcome.head outcome.world :: after := by simp
  rw [hentries]
  cases hlanding with
  | failed hfault =>
    refine .quiet ?_ (hlanded.trans hrecord) rfl rfl (.inl rfl)
    rw [Journal.succeeded_append, hfault]
    exact (List.append_nil _).trans hnone
  | halted hfault hrequested =>
    have hmem : .asked ∈ before := by simpa [hrequested] using hasked
    rw [hfault]
    exact .searched ⟨launch, outcome.head, outcome.world⟩ hnone rfl hrun rfl rfl
      (.halted (by simp [hmem]) (hlanded.trans hrecord) rfl)
  | resigned hfault hgoesOn hresigns hresult =>
    have hunasked : .asked ∉ before := by simpa [hgoesOn] using hasked
    rw [hverdict] at hresult
    rw [hfault, searched_eq]
    exact .searched ⟨launch, outcome.head, outcome.world⟩ hnone rfl hrun rfl rfl
      (.resigned (by simp [hunasked]) hresigns hresult (hlanded.trans hrecord))
  | @moved chosen _ hfault hgoesOn hkept _ _ hchoosing =>
    have hunasked : .asked ∉ before := by simpa [hgoesOn] using hasked
    rw [hverdict] at hkept
    rw [hfault, searched_eq]
    refine .searched ⟨launch, outcome.head, outcome.world⟩ hnone hchoosing.succeeded
      hrun rfl rfl (.moved chosen.move (by simp [hunasked]) hkept ?_ rfl)
    unfold record
    rw [GameTrees.get_play]
    exact congrArg (GameRecord.play · chosen.move) (hlanded.trans hrecord)

theorem Progress.booked (hstep : game.InStep)
    (h : game.Progress setup request number ending after entries) :
    game.Booked game.settings request after entries := by
  cases h with
  | decided hover => exact .quiet rfl rfl rfl rfl (.inr ⟨hover, rfl⟩)
  | stopped =>
    refine .quiet rfl (record_prepareTree_get game _ _) ?_ ?_ (.inl ?_) <;> rw [prepareTree_eq]
  | refused =>
    refine .quiet rfl (record_prepareTree_get game _ _) ?_ ?_ (.inl ?_) <;> rw [prepareTree_eq]
  | searched _ hrun _ htree _ _ hflight hlanding =>
    exact booked_of_landing hstep hrun htree hflight hlanding

theorem tallied_of_leads {allowed : PlayRequest → Prop} {now later : Game ω P M R × Journal ω P M R}
    (hstep : now.1.InStep) (hnow : now.1.Tallied now.2) (h : Leads setup allowed now later) :
    later.1.Tallied later.2 := by
  have hboth := keeps_of_leads (Q := fun game journal => game.InStep ∧ game.Tallied journal)
    (fun _ hnow hprogress =>
      ⟨inStep_of_progress hnow.1 hprogress, hnow.2.round (hprogress.booked hnow.1)⟩)
    (fun {game journal} hnow => by
      refine ⟨hnow.1, ?_, ?_⟩
      · rw [Journal.succeeded_append, hnow.2.moveCount]
        simp [Journal.succeeded]
      · rw [Journal.succeeded_append, hnow.2.totalNodes]
        simp [Journal.succeeded]) h ⟨hstep, hnow⟩
  exact hboth.2

theorem Balanced.round (h : game.Balanced called settings opened journal)
    (hfits : game.Fits settings journal) (hopen : game.result = .undecided)
    (hprogress : game.Progress setup request number ending after entries)
    (hcalled : ∀ before, journal <+: before → before.length < (journal ++ entries).length →
      called request before) :
    after.Balanced called settings opened (journal ++ entries) := by
  have hbooked := hprogress.booked hfits.inStep
  rw [hfits.unchanged] at hbooked
  cases hbooked with
  | quiet hnone hrecord hcount _ hresult => exact h.quiet hopen hnone hrecord hcount hresult
  | @searched before rest search _ hrest hrun hcount _ hexit =>
    have hasked : .asked ∉ journal := by
      rw [← hfits.requested_iff, hrun]
      exact Bool.false_ne_true
    refine .searched rest (List.append_assoc _ _ _).symm hrest (hcalled _ ⟨before, rfl⟩ ?_)
      (accounted_of_exit (h.length_moves hopen hasked) hopen hasked hcount hexit)
    simp

theorem Balanced.leads {allowed : PlayRequest → Prop} {now later : Game ω P M R × Journal ω P M R}
    (hnow : now.1.Balanced called settings opened now.2) (hfits : now.1.Fits settings now.2)
    (h : Leads setup allowed now later)
    (hcalled : ∀ request, allowed request → ∀ before, now.2 <+: before →
      before.length < later.2.length → called request before) :
    later.1.Balanced called settings opened later.2 ∧ now.2 <+: later.2 := by
  induction h with
  | refl => exact ⟨hnow, List.prefix_rfl⟩
  | tail hleads hstep ih =>
    cases hstep with
    | round hallowed hopen hprogress =>
      rename_i journal entries
      have hlonger : journal.length ≤ (journal ++ entries).length := by simp
      obtain ⟨hbalanced, hextends⟩ := ih fun request hrequest before hbefore hlength =>
        hcalled request hrequest before hbefore (Nat.lt_of_lt_of_le hlength hlonger)
      refine ⟨hbalanced.round (hfits.leads hleads) hopen hprogress fun before hbefore hlength => ?_,
        hextends.trans (List.prefix_append _ _)⟩
      exact hcalled _ hallowed before (hextends.trans hbefore) hlength
    | asked =>
      rename_i game journal
      have hlonger : journal.length ≤ (journal ++ [Entry.asked]).length := by simp
      obtain ⟨hbalanced, hextends⟩ := ih fun request hrequest before hbefore hlength =>
        hcalled request hrequest before hbefore (Nat.lt_of_lt_of_le hlength hlonger)
      exact ⟨hbalanced.asked, hextends.trans (List.prefix_append _ _)⟩

/-- What is written down next after `before` belongs to a call to play with this request. -/
def CalledIn (start : Game ω P M R) (setup : MatchSetup ω P M R) (world : ω)
    (acts : List (Act ω)) (request : PlayRequest) (before : Journal ω P M R) : Prop :=
  ∃ earlier rounds later, acts = earlier ++ .play request rounds :: later ∧
    start.journal setup world earlier <+: before ∧
    before.length < (start.journal setup world (earlier ++ [.play request rounds])).length

theorem CalledIn.append {start : Game ω P M R} {world : ω} {acts : List (Act ω)}
    {before : Journal ω P M R} (h : start.CalledIn setup world acts request before)
    (more : List (Act ω)) : start.CalledIn setup world (acts ++ more) request before := by
  obtain ⟨earlier, rounds, later, rfl, hbefore, hlength⟩ := h
  exact ⟨earlier, rounds, later ++ more, by simp, hbefore, hlength⟩

/-- **The books balance whatever is done to a game.** -/
theorem Balanced.perform {start : Game ω P M R} (hfresh : start.Fresh)
    (hopened : start.moves.length = opened) (hcount : start.moveCount = 0)
    (setup : MatchSetup ω P M R) (world : ω) (acts : List (Act ω)) :
    (start.perform setup world acts).1.Balanced (start.CalledIn setup world acts) start.settings
      opened (start.journal setup world acts) := by
  -- The calls are told apart by the last act.
  induction acts using List.reverseRecOn with
  | nil =>
    have hlength : start.moves.length = opened + start.moveCount := by omega
    exact .unsearched rfl hlength (.inl hfresh.undecided)
  | append_singleton acts next ih =>
    have hleads := leads_journal_append setup world hfresh.fits.grounded acts [next]
      (fun request => ∃ rounds, next = .play request rounds)
      (fun request rounds hmem => ⟨rounds, (List.mem_singleton.mp hmem).symm⟩)
    refine ((ih.imp fun _ _ hcalled => hcalled.append [next]).leads
      (hfresh.fits_perform setup world acts) hleads ?_).1
    rintro request ⟨rounds, rfl⟩ before hbefore hlength
    exact ⟨acts, rounds, [], rfl, hbefore, hlength⟩

/-- To a game that is over nothing more happens than that it is asked to stop. -/
theorem eq_of_leads_of_isTerminal {allowed : PlayRequest → Prop}
    {now later : Game ω P M R × Journal ω P M R} (hover : now.1.result.isTerminal = true)
    (h : Leads setup allowed now later) :
    later.1 = { now.1 with abort := later.1.abort } ∧
      ∃ entries, later.2 = now.2 ++ entries ∧ ∀ entry ∈ entries, entry = .asked := by
  induction h with
  | refl => exact ⟨rfl, [], by simp, by simp⟩
  | tail _ hstep ih =>
    obtain ⟨hsame, entries, hjournal, hasked⟩ := ih
    cases hstep with
    | round _ hopen =>
      have hresult := congrArg Game.result hsame
      rw [← hresult, hopen] at hover
      cases hover
    | asked =>
      dsimp only at hsame hjournal
      refine ⟨by rw [hsame], entries ++ [.asked], by rw [hjournal, List.append_assoc], ?_⟩
      simpa [or_imp, forall_and] using hasked

/-- A game begins with the moves of its opening and with empty books. -/
theorem books_of_begin {options : PerSide (SelfPlayOptions R)} {shared : Bool}
    {opening : Opening M} {start : Game ω P M R} (h : begin options shared opening = .ok start) :
    start.moves.length = opening.moves.length ∧ start.Tallied [] := by
  obtain ⟨-, record, hrecord, rfl⟩ := begin_eq_ok_iff.mp h
  refine ⟨?_, ⟨rfl, rfl⟩⟩
  rw [length_moves, Game.record, get_trees_started]
  unfold GameRecord.ofOpening at hrecord
  split at hrecord
  · cases hrecord
  · exact (GameRecord.moveCount_playLegal hrecord).trans (Nat.zero_add _)

/-- A search that none has succeeded after, and the request it was made for. -/
structure LastSearch (start : Game ω P M R) (setup : MatchSetup ω P M R) (world : ω)
    (acts : List (Act ω)) (request : PlayRequest) (before : Journal ω P M R)
    (search : FinishedSearch ω P M R) : Prop where
  ended : ∃ later : Journal ω P M R, later.succeeded = [] ∧
    start.journal setup world acts = before ++ search.entry :: later
  called : start.CalledIn setup world acts request before

end Game

variable [DecidableEq M]

/-- **The books of a game are exact and final.** However often and with whatever requests a game is
played, whatever fails and whoever stops it: its counters are those of the searches that have
succeeded. The last of these settles how many moves there are and where a result comes from, and
before the first of them there are only the opening and the rules. Once there is a result, nothing
more is asked of anyone and nothing changes but that stops can be asked for. -/
theorem books_exact_and_final {options : PerSide (SelfPlayOptions R)} {shared : Bool}
    {opening : Opening M} {start : Game ω P M R}
    (hbegin : Game.begin options shared opening = .ok start) (setup : MatchSetup ω P M R)
    (world : ω) (acts : List (Act ω)) :
    let final := (start.perform setup world acts).1
    let journal := start.journal setup world acts
    start.result = .undecided ∧
    (final.moveCount = journal.succeeded.length ∧
      final.totalNodes = (journal.succeeded.map FinishedSearch.playouts).sum) ∧
    ((journal.succeeded = [] ∧ final.moves.length = opening.moves.length ∧
        (final.result = .undecided ∨ final.IsRuled)) ∨
      ∃ request before search, start.LastSearch setup world acts request before search ∧
        final.Accounted start.settings opening.moves.length request before search) ∧
    (∀ earlier later, acts = earlier ++ later →
      let now := (start.perform setup world earlier).1
      now.result.isTerminal = true → final = { now with abort := final.abort } ∧
        ∃ entries, journal = start.journal setup world earlier ++ entries ∧
          ∀ entry ∈ entries, entry = .asked) ∧
    (final.result.isTerminal = true → ∀ request rounds now,
      Game.playFor setup request rounds final now = (.finished, final, now)) := by
  intro final journal
  obtain ⟨hfresh, -⟩ := Game.fresh_of_begin hbegin
  obtain ⟨hopened, hempty⟩ := Game.books_of_begin hbegin
  have hleads := Game.leads_journal setup world hfresh.fits.grounded acts (fun _ => True)
    fun _ _ _ => trivial
  have htallied : final.Tallied journal := Game.tallied_of_leads hfresh.inStep hempty hleads
  have hbalanced := Game.Balanced.perform hfresh hopened hempty.moveCount setup world acts
  refine ⟨hfresh.undecided, ⟨htallied.moveCount, htallied.totalNodes⟩, ?_, ?_,
    fun hover _ _ _ => if_pos hover⟩
  · cases hbalanced with
    | unsearched hnone hlength hresult =>
      have hcount : final.moveCount = 0 := htallied.moveCount.trans (congrArg List.length hnone)
      exact .inl ⟨hnone, hlength.trans (congrArg _ hcount), hresult⟩
    | searched later hjournal hlater hcalled haccounted =>
      exact .inr ⟨_, _, _, ⟨⟨later, hlater, hjournal⟩, hcalled⟩, haccounted⟩
  · rintro earlier later rfl now hover
    exact Game.eq_of_leads_of_isTerminal hover
      (Game.leads_journal_append setup world hfresh.fits.grounded earlier later (fun _ => True)
        fun _ _ _ => trivial)

namespace TicTacToe

/-- Black may give up, and a stop is asked for after that. -/
def resignedActs : List (Act Unit) :=
  [.play { firstMoveRequest with resignation := true } 10, .requestAbort, .play firstMoveRequest 3]

end TicTacToe

open TicTacToe in
/-- Black gives up in its first search, which is the second of the game. So there is one move less
than there are searches, and all calls to play that follow do nothing. -/
theorem resigned_books_exact_and_final :
    Game.begin ⟨resigning, resigning⟩ true ⟨".../.../...", []⟩ = .ok firstMoveGame ∧
    ∃ final : Game Unit Position Square Binary32,
      (firstMoveGame.perform firstMoveSetup () resignedActs).1 = final ∧
      final.moveCount = 2 ∧ final.totalNodes = 2 ∧ final.moves.length = 1 ∧
      final.result = .won .white ∧
      (∃ request before search,
        firstMoveGame.LastSearch firstMoveSetup () resignedActs request before search ∧
        search.IsUnplayed firstMoveGame.settings request before) ∧
      ∀ request rounds, Game.playFor firstMoveSetup request rounds final () =
        (.finished, final, ()) := by
  have hsearches : ((firstMoveGame.journal firstMoveSetup () resignedActs).succeeded.map
    FinishedSearch.playouts) = [1, 1] := by decide +kernel
  have hresult : (firstMoveGame.perform firstMoveSetup () resignedActs).1.result = .won .white := by
    decide +kernel
  have hmoves : (firstMoveGame.perform firstMoveSetup () resignedActs).1.moves.length = 1 := by
    decide +kernel
  have hcount : (firstMoveGame.journal firstMoveSetup () resignedActs).succeeded.length = 2 := by
    rw [← List.length_map, hsearches]
    rfl
  obtain ⟨-, ⟨hmoveCount, htotalNodes⟩, hlast, -, hfinal⟩ :=
    books_exact_and_final begin_firstMoveGame firstMoveSetup () resignedActs
  rw [hcount] at hmoveCount
  rw [hsearches] at htotalNodes
  refine ⟨begin_firstMoveGame, _, rfl, hmoveCount, htotalNodes, hmoves, hresult, ?_,
    fun request rounds => hfinal (by rw [hresult]; rfl) request rounds ()⟩
  rcases hlast with ⟨hnone, -⟩ | ⟨request, before, search, hsearch, haccounted⟩
  · rw [hnone] at hcount
    cases hcount
  · refine ⟨request, before, search, hsearch, ?_⟩
    by_contra hplayed
    have hlength := haccounted.played hplayed
    rw [hmoves, hmoveCount] at hlength
    cases hlength

end SelfPlay
