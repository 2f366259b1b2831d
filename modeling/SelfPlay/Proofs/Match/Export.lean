import SelfPlay.Proofs.Match.Protocol
import SelfPlay.Proofs.Match.Statistic
import SelfPlay.Proofs.Training.Labels

/-!
# The export of training samples

While a game is played with training on, its samples are those of the searches that have ended well
before anybody asked for a stop, in the order of the journal. When the game is over they are
labelled and handed over, and since this changes nothing that matters, it can be repeated.
-/

namespace SelfPlay

open SelfPlay.Numeric

variable {ω P M R : Type}

/-- A search that has ended well, with the world at that time. -/
structure FinishedSearch (ω P M R : Type) where
  launch : Launch ω P M R
  head : Node M
  world : ω

/-- The searches that have ended well before a stop was asked for. -/
def Journal.completed : Journal ω P M R → List (FinishedSearch ω P M R)
  | [] => []
  | .asked :: _ => []
  | .ended launch none head world :: rest => ⟨launch, head, world⟩ :: completed rest
  | _ :: rest => completed rest

/-- What the end of a search adds to the completed ones. -/
def SearchOutcome.completed (outcome : SearchOutcome ω M) (launch : Launch ω P M R) :
    List (FinishedSearch ω P M R) :=
  match outcome.fault with
  | none => [⟨launch, outcome.head, outcome.world⟩]
  | some _ => []

namespace Journal

theorem completed_append {before : Journal ω P M R} (h : .asked ∉ before)
    (after : Journal ω P M R) : completed (before ++ after) = completed before ++ completed after := by
  induction before with
  | nil => rfl
  | cons entry before ih =>
    have hrest : completed (before ++ after) = completed before ++ completed after :=
      ih fun hmem => h (List.mem_cons_of_mem _ hmem)
    cases entry with
    | asked => exact absurd List.mem_cons_self h
    | ended launch fault head world =>
      cases fault with
      | none => exact congrArg (_ :: ·) hrest
      | some _ => exact hrest
    | _ => exact hrest

theorem completed_append_asked (journal : Journal ω P M R) :
    completed (journal ++ [.asked]) = completed journal := by
  induction journal with
  | nil => rfl
  | cons entry journal ih =>
    cases entry with
    | asked => rfl
    | ended launch fault head world =>
      cases fault with
      | none => exact congrArg (_ :: ·) ih
      | some _ => exact ih
    | _ => exact ih

end Journal

section

variable {launch : Launch ω P M R} {written : BestMove M → BestMove M} {outcome : SearchOutcome ω M}
  {asked : Bool} {entries : Journal ω P M R}

/-- A search is completed if its run was not asked to stop. -/
theorem Flight.completed (h : Flight launch written outcome asked entries)
    (rest : Journal ω P M R) (hasked : asked = false) :
    Journal.completed (entries ++ rest) =
      if outcome.abort.requested then [] else outcome.completed launch ++ rest.completed := by
  induction h with
  | ended =>
    rw [hasked, if_neg Bool.false_ne_true]
    unfold SearchOutcome.completed
    cases outcome.fault <;> rfl
  | announced _ _ ih => exact ih hasked
  | asked hrest =>
    rw [if_pos (hrest.requested rfl)]
    rfl

end

section

variable [BoardMove M] [DecidableEq M] [Board P M]

/-- No search is completed while a move is chosen. -/
theorem Choosing.completed {engine : SearchEngine ω M R} {tree : GameTree P M} {minimum : Nat}
    {report : M → DiscardedMove M} {asked last : Bool} {entries : Journal ω P M R}
    (h : Choosing engine tree minimum report asked last entries) : entries.completed = [] := by
  induction h with
  | chosen => rfl
  | discarded _ _ _ _ ih => exact ih
  | asked => rfl

variable [Scalar R]

/-- The sample of a search that has ended well. -/
def MatchSetup.sample (setup : MatchSetup ω P M R) (search : FinishedSearch ω P M R) :
    TrainingSample R :=
  .ofTree (search.launch.searchedTree search.head)
    (setup.players.get search.launch.tree.sideToMove).network.format
    (search.launch.engine.historyFill search.world) (search.launch.engine.bestEval search.world)

end

namespace Game

theorem samples_prepareTree (game : Game ω P M R) (side : Color) :
    (game.prepareTree side).samples = game.samples := by
  rw [prepareTree_eq]

section

variable [BoardMove M] [Board P M] [Scalar R] {setup : MatchSetup ω P M R}

/-- What a search that was not asked to stop adds to the samples. -/
theorem samples_searched {request : PlayRequest} (htraining : request.training = true)
    {game : Game ω P M R} {side : Color} {launch : Launch ω P M R}
    (htree : launch.tree = game.trees.get side) (hside : launch.tree.sideToMove = side)
    {outcome : SearchOutcome ω M} (hfault : outcome.fault = none) :
    (game.searched setup request side launch.engine outcome).samples =
      game.samples ++ (outcome.completed launch).map setup.sample := by
  have hlanded : (game.land side outcome).trees.get side = launch.searchedTree outcome.head := by
    rw [Launch.searchedTree, htree]
    exact GameTrees.get_set_self _ _ _
  rw [searched_eq, SearchOutcome.completed, hfault]
  simp only [htraining, if_true, hlanded, List.map_cons, List.map_nil, MatchSetup.sample, hside]

variable [DecidableEq M]

/-- A round adds the samples of the searches that it completes. -/
theorem samples_of_progress {request : PlayRequest} (htraining : request.training = true)
    {number : Nat} {game after : Game ω P M R} {ending : Option PlayEnd}
    {entries : Journal ω P M R} (hstep : game.InStep)
    (h : game.Progress setup request number ending after entries) :
    after.samples = game.samples ++ entries.completed.map setup.sample := by
  cases h with
  | decided => exact (List.append_nil _).symm
  | stopped => exact (samples_prepareTree game _).trans (List.append_nil _).symm
  | refused => exact (samples_prepareTree game _).trans (List.append_nil _).symm
  | @searched launch _ _ outcome _ _ flight rest _ _ _ htree _ _ hflight hlanding =>
    obtain ⟨-, hside⟩ := hstep.searched htree
    have hcompleted : Journal.completed (.launched launch :: .began launch :: flight ++ rest) =
        if outcome.abort.requested then [] else outcome.completed launch ++ rest.completed :=
      hflight.completed rest rfl
    rw [hcompleted, ← samples_prepareTree game game.sideToMove]
    cases hlanding with
    | failed hfault =>
      have hnone : outcome.completed launch = [] := by
        rw [SearchOutcome.completed, hfault]
      rw [hnone, Journal.completed, List.append_nil, ite_self]
      exact (List.append_nil _).symm
    | halted _ hrequested =>
      rw [if_pos hrequested]
      exact (List.append_nil _).symm
    | resigned hfault hgoesOn =>
      rw [hgoesOn, if_neg Bool.false_ne_true]
      refine (samples_searched htraining htree hside hfault).trans ?_
      rw [Journal.completed, List.append_nil]
    | moved hfault hgoesOn _ _ _ hchoosing =>
      rw [hgoesOn, if_neg Bool.false_ne_true, hchoosing.completed, List.append_nil]
      exact samples_searched htraining htree hside hfault

/-- A round keeps the samples in agreement with the journal. -/
theorem samples_round {settings : Settings M R} {request : PlayRequest}
    (htraining : request.training = true) {game after : Game ω P M R} {ending : Option PlayEnd}
    {journal entries : Journal ω P M R} (hfits : game.Fits settings journal)
    (hsamples : game.samples = journal.completed.map setup.sample)
    (h : game.Progress setup request journal.launches ending after entries) :
    after.samples = (Journal.completed (journal ++ entries)).map setup.sample := by
  have hadded := samples_of_progress htraining hfits.inStep h
  cases hrequested : game.abort.requested with
  | true =>
    obtain ⟨rfl, -, -⟩ := h.of_requested hrequested
    rw [List.append_nil, ← hsamples]
    exact hadded.trans (List.append_nil _)
  | false =>
    have hasked : .asked ∉ journal := by
      rw [← hfits.requested_iff, hrequested]
      exact Bool.false_ne_true
    rw [Journal.completed_append hasked, List.map_append, ← hsamples]
    exact hadded

/-- The samples of a game are those of its completed searches. -/
theorem samples_of_leads {start : Game ω P M R} (hfresh : start.Fresh)
    {later : Game ω P M R × Journal ω P M R}
    (h : Leads setup (·.training = true) (start, []) later) :
    later.1.samples = later.2.completed.map setup.sample := by
  have hboth := keeps_of_leads
    (Q := fun game journal => game.Fits start.settings journal ∧
      game.samples = journal.completed.map setup.sample)
    (fun htraining hnow hprogress =>
      ⟨hnow.1.round hprogress, samples_round htraining hnow.1 hnow.2 hprogress⟩)
    (fun hnow => ⟨hnow.1.asked, by rw [Journal.completed_append_asked, ← hnow.2]⟩) h
    ⟨hfresh.fits, hfresh.unsampled⟩
  exact hboth.2

end

variable [Scalar R]

/-- The game after any number of exports, to any writers, whether they were refused or not. -/
inductive Exported (game : Game ω P M R) : Game ω P M R → Prop
  | none : Exported game game
  | again {σ : Type} {now : Game ω P M R} (writer : SampleWriter σ R) (sink : σ) :
      Exported game now → Exported game (now.writeSamples writer sink).2.1

/-- The samples of a game with labels. -/
def labelledSamples (game : Game ω P M R) : List (TrainingSample R) :=
  TrainingSample.finalize game.result game.samples

section

variable {σ : Type} {writer : SampleWriter σ R} {sink last : σ} {game : Game ω P M R}

theorem writeSamples_of_not_isTerminal (h : game.result.isTerminal = false)
    (writer : SampleWriter σ R) (sink : σ) :
    game.writeSamples writer sink = (.ok 0, game, sink) := by
  unfold writeSamples
  rw [h, Bool.not_false, Bool.or_true, if_pos rfl]

theorem writeSamples_of_isEmpty (h : game.samples = []) (writer : SampleWriter σ R) (sink : σ) :
    game.writeSamples writer sink = (.ok 0, game, sink) := by
  unfold writeSamples
  rw [h, List.isEmpty_nil, Bool.true_or, if_pos rfl]

theorem writeSamples_eq (hover : game.result.isTerminal = true) (hsome : game.samples ≠ [])
    (writer : SampleWriter σ R) (sink : σ) :
    game.writeSamples writer sink =
      let labelled := { game with samples := game.labelledSamples }
      match writer.writeAll game.labelledSamples sink with
      | (.error fault, sink) => (.error (.writer fault), labelled, sink)
      | (.ok (), sink) =>
        match writer.flush sink with
        | (.error fault, sink) => (.error (.writer fault), labelled, sink)
        | (.ok (), sink) => (.ok game.labelledSamples.length, labelled, sink) := by
  unfold writeSamples
  rw [hover, Bool.not_true, Bool.or_false, if_neg (by simpa using hsome)]
  rfl

/-- An export leaves the game with its samples as they were, or labelled. -/
theorem writeSamples_game (game : Game ω P M R) (writer : SampleWriter σ R) (sink : σ) :
    (game.writeSamples writer sink).2.1 = game ∨
      (game.writeSamples writer sink).2.1 = { game with samples := game.labelledSamples } := by
  by_cases hover : game.result.isTerminal = true
  · by_cases hsome : game.samples = []
    · rw [writeSamples_of_isEmpty hsome]
      exact .inl rfl
    · rw [writeSamples_eq hover hsome]
      right
      simp only
      split
      · rfl
      · split <;> rfl
  · rw [writeSamples_of_not_isTerminal (Bool.eq_false_iff.mpr hover)]
    exact .inl rfl

/-- Exports leave the result alone and do not change what is exported. -/
theorem Exported.labelledSamples {now : Game ω P M R} (h : game.Exported now) :
    now.result = game.result ∧ now.labelledSamples = game.labelledSamples := by
  induction h with
  | none => exact ⟨rfl, rfl⟩
  | @again _ now writer sink _ ih =>
    rcases writeSamples_game now writer sink with hsame | hlabelled
    · rw [hsame]
      exact ih
    · rw [hlabelled]
      exact ⟨ih.1, (TrainingSample.finalize_finalize _ _ _).trans ih.2⟩

theorem labelledSamples_of_isEmpty (h : game.samples = []) : game.labelledSamples = [] := by
  rw [Game.labelledSamples, h]
  rfl

/-- A writer that takes all samples has received them in order. -/
theorem writeSamples_taken (hover : game.result.isTerminal = true)
    (h : writer.Takes sink game.labelledSamples last) :
    (game.writeSamples writer.recording (sink, [])).2.2.2 = game.labelledSamples := by
  by_cases hsome : game.samples = []
  · rw [writeSamples_of_isEmpty hsome, labelledSamples_of_isEmpty hsome]
  · have hall := h.writeAll [] []
    rw [List.append_nil, List.nil_append, SampleWriter.writeAll] at hall
    rw [writeSamples_eq hover hsome, hall]
    -- Whether the writer can finish or not, it keeps what it has received.
    cases hflush : (writer.flush last).1 with
    | error fault => simp only [SampleWriter.recording, hflush]
    | ok => simp only [SampleWriter.recording, hflush]

/-- A writer that refuses a sample has received those before it. -/
theorem writeSamples_refused (hover : game.result.isTerminal = true) {k : Nat}
    {sample : TrainingSample R} (hsample : game.labelledSamples[k]? = some sample)
    (h : writer.Takes sink (game.labelledSamples.take k) last) {fault : Fault} {next : σ}
    (hrefused : writer.write sample last = (.error fault, next)) :
    game.writeSamples writer.recording (sink, []) =
      (.error (.writer fault), { game with samples := game.labelledSamples },
        next, game.labelledSamples.take k) := by
  have hsome : game.samples ≠ [] := by
    intro hnone
    rw [labelledSamples_of_isEmpty hnone] at hsample
    cases hsample
  obtain ⟨hk, rfl⟩ := List.getElem?_eq_some_iff.mp hsample
  have hall := h.writeAll_refused hrefused (game.labelledSamples.drop (k + 1)) []
  rw [← List.drop_eq_getElem_cons hk, List.take_append_drop, List.nil_append] at hall
  rw [writeSamples_eq hover hsome, hall]

end

end Game

section

variable [BoardMove M] [Board P M] [Scalar R]

/-- A sample is that of a search in a game with the given result: it was taken from the searched
tree, it shows the side to move there, and its result is that side's. -/
structure FinishedSearch.IsExportedAs (search : FinishedSearch ω P M R)
    (setup : MatchSetup ω P M R) (result : GameResult) (sample : TrainingSample R) : Prop where
  taken : ∃ pliesLeft, sample =
    { setup.sample search with pliesLeft := pliesLeft, result := sample.result }
  side : sample.sideToMove = search.launch.tree.sideToMove
  won : result = .won search.launch.tree.sideToMove → sample.result = 1
  lost : result = .won search.launch.tree.sideToMove.opponent → sample.result = -1
  drawn : result = .draw → sample.result = 0

theorem FinishedSearch.isExportedAs_of_isLabelled (hboard : LeavesSideBit P)
    {search : FinishedSearch ω P M R} {setup : MatchSetup ω P M R} {result : GameResult}
    {sample : TrainingSample R}
    (h : TrainingSample.IsLabelled result sample (setup.sample search)) :
    search.IsExportedAs setup result sample := by
  obtain ⟨pliesLeft, rfl⟩ := h
  have hside : (setup.sample search).sideToMove = search.launch.tree.sideToMove :=
    TrainingSample.sideToMove_ofTree hboard _ _ _ _
  refine ⟨⟨pliesLeft, rfl⟩, hside, ?_, ?_, ?_⟩
  · rintro rfl
    simp [GameResult.score, hside]
  · rintro rfl
    simp [GameResult.score, hside, Color.opponent_ne]
  · rintro rfl
    rfl

variable [DecidableEq M]

/-- **Exported samples are complete and labelled.** However a game with training on was played, and
whatever failed or was stopped on the way: a game that is not over exports nothing. One that is over
has a list of samples, one for each completed search, and every export to a writer that takes them
hands over just these, in order, however often and in whatever way it was exported before. A writer
that refuses a sample has received just those before it. -/
theorem export_labelled_and_complete {options : PerSide (SelfPlayOptions R)} {shared : Bool}
    {opening : Opening M} {start : Game ω P M R}
    (hbegin : Game.begin options shared opening = .ok start) (hboard : LeavesSideBit P)
    (setup : MatchSetup ω P M R) (world : ω) (acts : List (Act ω))
    (htraining : ∀ request rounds, .play request rounds ∈ acts → request.training = true) :
    let final := (start.perform setup world acts).1
    (final.result.isTerminal = false → ∀ (σ : Type) (writer : SampleWriter σ R) (sink : σ),
      final.writeSamples writer sink = (.ok 0, final, sink)) ∧
    (final.result.isTerminal = true → ∃ samples : List (TrainingSample R),
      List.Forall₂ (fun sample search => search.IsExportedAs setup final.result sample) samples
        (start.journal setup world acts).completed ∧
      ∀ now, final.Exported now → ∀ (σ : Type) (writer : SampleWriter σ R) (sink last : σ),
        (writer.Takes sink samples last →
          (now.writeSamples writer.recording (sink, [])).2.2.2 = samples) ∧
        ∀ k sample fault next, samples[k]? = some sample → writer.Takes sink (samples.take k) last →
          writer.write sample last = (.error fault, next) →
          (now.writeSamples writer.recording (sink, [])).1 = .error (.writer fault) ∧
          (now.writeSamples writer.recording (sink, [])).2.2.2 = samples.take k) := by
  intro final
  refine ⟨fun hopen _ writer sink => Game.writeSamples_of_not_isTerminal hopen writer sink,
    fun hover => ⟨final.labelledSamples, ?_, ?_⟩⟩
  · obtain ⟨hfresh, -⟩ := Game.fresh_of_begin hbegin
    have hsamples : final.samples =
        (start.journal setup world acts).completed.map setup.sample :=
      Game.samples_of_leads hfresh
        (Game.leads_journal setup world hfresh.fits.grounded acts (·.training = true) htraining)
    have hlabelled := TrainingSample.isLabelled_finalize final.result final.samples
    rw [hsamples, List.forall₂_map_right_iff, ← hsamples] at hlabelled
    exact hlabelled.imp fun _ _ h => FinishedSearch.isExportedAs_of_isLabelled hboard h
  · intro now hexported σ writer sink last
    obtain ⟨hresult, hsame⟩ := hexported.labelledSamples
    have hnow : now.result.isTerminal = true := by rw [hresult, hover]
    rw [← hsame]
    refine ⟨Game.writeSamples_taken hnow, fun k sample fault next hsample htakes hrefused => ?_⟩
    rw [Game.writeSamples_refused hnow hsample htakes hrefused]
    exact ⟨rfl, rfl⟩

end

open TicTacToe in
/-- A game that white wins by first moves exports one line for each of its seven searches, and does so
again after an export. -/
theorem firstMove_export_labelled_and_complete :
    Game.begin ⟨resigning, resigning⟩ true ⟨".../.../...", []⟩ = .ok firstMoveGame ∧
    ∃ final : Game Unit Position Square Binary32,
      (firstMoveGame.perform firstMoveSetup () [.play firstMoveRequest 10]).1 = final ∧
      final.result = .won .white ∧
      ∃ samples : List (TrainingSample Binary32), samples.length = 7 ∧
        List.Forall₂ (fun sample search => search.IsExportedAs firstMoveSetup (.won .white) sample)
          samples (firstMoveGame.journal firstMoveSetup () [.play firstMoveRequest 10]).completed ∧
        (final.writeSamples lineWriter.recording ([], [])).2.2.2 = samples ∧
        ((final.writeSamples lineWriter []).2.1.writeSamples
          lineWriter.recording ([], [])).2.2.2 = samples := by
  have hresult : (firstMoveGame.perform firstMoveSetup () [.play firstMoveRequest 10]).1.result =
    .won .white := by decide +kernel
  have hlength : (firstMoveGame.journal firstMoveSetup ()
    [.play firstMoveRequest 10]).completed.length = 7 := by decide +kernel
  have htraining : ∀ request rounds,
      .play request rounds ∈ [(.play firstMoveRequest 10 : Act Unit)] → request.training = true := by
    simp [firstMoveRequest]
  obtain ⟨-, hexport⟩ := export_labelled_and_complete begin_firstMoveGame TicTacToe.leavesSideBit
    firstMoveSetup () [.play firstMoveRequest 10] htraining
  obtain ⟨samples, hsamples, hwritten⟩ := hexport (by rw [hresult]; rfl)
  have hfirst := (hwritten _ .none _ lineWriter [] _).1 (lineWriter_takes [] samples)
  have hagain := (hwritten _ (.again lineWriter [] .none) _ lineWriter [] _).1
    (lineWriter_takes [] samples)
  rw [hresult] at hsamples
  exact ⟨begin_firstMoveGame, _, rfl, hresult, samples, hsamples.length_eq.trans hlength, hsamples,
    hfirst, hagain⟩

end SelfPlay
