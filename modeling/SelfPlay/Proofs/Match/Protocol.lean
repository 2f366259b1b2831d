import SelfPlay.Proofs.Match.Reach

/-!
# The order of a journal

The journal of a game is read by a machine. Its phases say what a game is about to do, and its rules
say which entry may come next: an engine is made only while no stop was asked for, it is told of each
request that comes while it runs, what it offers is announced, and moves are discarded only when it
has come back. Every journal can be read to its end, so what the rules imply is true of every
journal.
-/

namespace SelfPlay

open SelfPlay.Numeric

section

variable {ω P M R : Type}

/-- The engine that runs after an entry. -/
def Entry.flying (now : Option (Launch ω P M R)) : Entry ω P M R → Option (Launch ω P M R)
  | .began launch => some launch
  | .ended .. => none
  | _ => now

/-- The game that the last engine was made for, after an entry. -/
def Entry.searched (now : GameRecord P M) : Entry ω P M R → GameRecord P M
  | .launched launch => launch.tree.record
  | _ => now

/-- The last engine with what it has found out, after an entry, unless it has failed or has not come
back yet. -/
def Entry.landed (now : Option (Launch ω P M R × Node M)) :
    Entry ω P M R → Option (Launch ω P M R × Node M)
  | .launched _ => none
  | .ended launch none head _ => some (launch, head)
  | .ended _ (some _) _ _ => none
  | _ => now

namespace Journal

/-- The engine whose run has begun and is not over. -/
def flying (journal : Journal ω P M R) : Option (Launch ω P M R) :=
  journal.foldl Entry.flying none

/-- The game that the last engine was made for, and `start` if none was made. -/
def searched (start : GameRecord P M) (journal : Journal ω P M R) : GameRecord P M :=
  journal.foldl Entry.searched start

/-- The last engine with what it has found out, if it has come back and has not failed. -/
def landed (journal : Journal ω P M R) : Option (Launch ω P M R × Node M) :=
  journal.foldl Entry.landed none

theorem launches_append (before after : Journal ω P M R) :
    launches (before ++ after) = before.launches + launches after := by
  induction before with
  | nil => exact (Nat.zero_add _).symm
  | cons entry before ih =>
    cases entry with
    | launched =>
      simp only [List.cons_append, launches, ih]
      omega
    | _ => exact ih

theorem searched_append (start : GameRecord P M) (before after : Journal ω P M R) :
    searched start (before ++ after) = searched (before.searched start) after :=
  List.foldl_append

/-- The game that is searched changes only with the engine. -/
theorem searched_of_not_mem (start : GameRecord P M) {journal : Journal ω P M R}
    (h : ∀ launch, .launched launch ∉ journal) : journal.searched start = start := by
  induction journal with
  | nil => rfl
  | cons entry rest ih =>
    have hrest : searched start rest = start :=
      ih fun launch hmem => h launch (List.mem_cons_of_mem _ hmem)
    cases entry with
    | launched launch => exact absurd List.mem_cons_self (h launch)
    | _ => exact hrest

end Journal

/-- What a game is about to do, as far as its journal tells. -/
inductive Phase (ω P M R : Type) where
  /-- No engine is there. Whether a stop was asked for, the number of engines made, and the last one
  with what it has found out, unless it has failed. -/
  | resting (asked : Bool) (made : Nat) (landed : Option (Launch ω P M R × Node M))
  /-- An engine has been made. -/
  | ready (launch : Launch ω P M R)
  /-- An engine runs. -/
  | running (asked : Bool) (launch : Launch ω P M R)
  /-- An engine runs and its best move has to be announced. -/
  | announcing (asked : Bool) (launch : Launch ω P M R) (info : BestMove M)
  /-- An engine runs and has to be told to stop. -/
  | telling (launch : Launch ω P M R)

namespace Phase

def asked : Phase ω P M R → Bool
  | resting asked _ _ => asked
  | ready _ => false
  | running asked _ => asked
  | announcing asked _ _ => asked
  | telling _ => true

def made : Phase ω P M R → Nat
  | resting _ made _ => made
  | ready launch => launch.number + 1
  | running _ launch => launch.number + 1
  | announcing _ launch _ => launch.number + 1
  | telling launch => launch.number + 1

/-- The engine that was made and whose run is not over. -/
def engine : Phase ω P M R → Option (Launch ω P M R)
  | resting _ _ _ => none
  | ready launch => some launch
  | running _ launch => some launch
  | announcing _ launch _ => some launch
  | telling launch => some launch

def flying : Phase ω P M R → Option (Launch ω P M R)
  | resting _ _ _ => none
  | ready _ => none
  | running _ launch => some launch
  | announcing _ launch _ => some launch
  | telling launch => some launch

def landed : Phase ω P M R → Option (Launch ω P M R × Node M)
  | resting _ _ landed => landed
  | _ => none

end Phase

end

variable {ω P M R : Type} [BoardMove M] [DecidableEq M] [Board P M]

namespace Launch

/-- A best move of an engine as a player is told of it. -/
def announcement (launch : Launch ω P M R) (settings : Settings M R) (info : BestMove M) :
    BestMove M :=
  if settings.chess960 then info else info.toLegacy launch.tree.record.head

def searchedTree (launch : Launch ω P M R) (head : Node M) : GameTree P M :=
  { launch.tree with head := head }

/-- An engine's best move in some world is given up, and the player is told of it. -/
structure Discards (launch : Launch ω P M R) (settings : Settings M R) (head : Node M)
    (report : DiscardedMove M) (world : ω) : Prop where
  rejected : (launch.searchedTree head).accepts
    (settings.options.get launch.tree.sideToMove).minimumAllowedVisits
    (launch.engine.bestMove world) = false
  goesOn : (launch.searchedTree head).isEndedBy (launch.engine.bestMove world) = false
  report : report = ⟨settings.opening.fen,
    launch.tree.record.moves settings.chess960 ++ [launch.engine.bestMove world]⟩

end Launch

namespace Phase

/-- The entries that may be read in a phase, with the phase that follows. -/
inductive Takes (settings : Settings M R) :
    Phase ω P M R → Entry ω P M R → Phase ω P M R → Prop
  | refused {made : Nat} {landed : Option (Launch ω P M R × Node M)} (fault : Fault) :
      Takes settings (resting false made landed) (.refused fault) (resting false made landed)
  | launched {made : Nat} {landed : Option (Launch ω P M R × Node M)} {launch : Launch ω P M R} :
      launch.number = made →
      Takes settings (resting false made landed) (.launched launch) (ready launch)
  | began {launch : Launch ω P M R} :
      Takes settings (ready launch) (.began launch) (running false launch)
  | offered {asked : Bool} {launch : Launch ω P M R} (info : BestMove M) :
      Takes settings (running asked launch) (.offered info) (announcing asked launch info)
  | announced {asked : Bool} {launch : Launch ω P M R} {info : BestMove M} :
      Takes settings (announcing asked launch info)
        (.announced (launch.announcement settings info)) (running asked launch)
  | caught {asked : Bool} {launch : Launch ω P M R} :
      Takes settings (running asked launch) .asked (telling launch)
  | told {launch : Launch ω P M R} :
      Takes settings (telling launch) (.told launch) (running true launch)
  | failed {asked : Bool} {launch : Launch ω P M R} (fault : Fault) (head : Node M) (world : ω) :
      Takes settings (running asked launch) (.ended launch (some fault) head world)
        (resting asked (launch.number + 1) none)
  | succeeded {asked : Bool} {launch : Launch ω P M R} (head : Node M) (world : ω) :
      Takes settings (running asked launch) (.ended launch none head world)
        (resting asked (launch.number + 1) (some (launch, head)))
  | discarded {asked : Bool} {made : Nat} {launch : Launch ω P M R} {head : Node M}
      {report : DiscardedMove M} {world : ω} : launch.Discards settings head report world →
      Takes settings (resting asked made (some (launch, head))) (.discarded report world)
        (resting asked made (some (launch, head)))
  | asked {asked : Bool} {made : Nat} {landed : Option (Launch ω P M R × Node M)} :
      Takes settings (resting asked made landed) .asked (resting true made landed)

/-- Entries read one after the other. -/
inductive Reads (settings : Settings M R) : Phase ω P M R → Journal ω P M R → Phase ω P M R → Prop
  | nil {phase : Phase ω P M R} : Reads settings phase [] phase
  | cons {phase next last : Phase ω P M R} {entry : Entry ω P M R} {rest : Journal ω P M R} :
      Takes settings phase entry next → Reads settings next rest last →
      Reads settings phase (entry :: rest) last

variable {settings : Settings M R} {phase next last : Phase ω P M R} {entry : Entry ω P M R}
  {journal : Journal ω P M R}

theorem Takes.flying (h : phase.Takes settings entry next) :
    entry.flying phase.flying = next.flying := by
  cases h <;> rfl

theorem Takes.landed (h : phase.Takes settings entry next) :
    entry.landed phase.landed = next.landed := by
  cases h <;> rfl

theorem Takes.asked_iff (h : phase.Takes settings entry next) :
    next.asked = true ↔ phase.asked = true ∨ entry = .asked := by
  cases h <;> simp [Phase.asked]

theorem Takes.made (h : phase.Takes settings entry next) :
    next.made = phase.made + Journal.launches [entry] := by
  cases h with
  | launched hnumber =>
    subst hnumber
    rfl
  | _ => rfl

theorem reads_append {before after : Journal ω P M R} :
    phase.Reads settings (before ++ after) last ↔
      ∃ next, phase.Reads settings before next ∧ next.Reads settings after last := by
  constructor
  · intro h
    induction before generalizing phase with
    | nil => exact ⟨phase, .nil, h⟩
    | cons entry before ih =>
      cases h with
      | cons htakes hrest =>
        obtain ⟨next, hbefore, hafter⟩ := ih hrest
        exact ⟨next, .cons htakes hbefore, hafter⟩
  · rintro ⟨next, hbefore, hafter⟩
    induction hbefore with
    | nil => exact hafter
    | cons htakes _ ih => exact .cons htakes (ih hafter)

theorem Reads.append {before after : Journal ω P M R} (hbefore : phase.Reads settings before next)
    (hafter : next.Reads settings after last) : phase.Reads settings (before ++ after) last :=
  reads_append.mpr ⟨next, hbefore, hafter⟩

/-- A journal that has been read taken apart at one entry. -/
theorem Reads.split {before after : Journal ω P M R}
    (h : phase.Reads settings (before ++ entry :: after) last) :
    ∃ now next, phase.Reads settings before now ∧ now.Takes settings entry next ∧
      next.Reads settings after last := by
  obtain ⟨now, hbefore, hrest⟩ := reads_append.mp h
  cases hrest with
  | cons htakes hafter => exact ⟨now, _, hbefore, htakes, hafter⟩

theorem Reads.split_last {before : Journal ω P M R}
    (h : phase.Reads settings (before ++ [entry]) last) :
    ∃ now, phase.Reads settings before now ∧ now.Takes settings entry last := by
  obtain ⟨now, next, hbefore, htakes, hafter⟩ := h.split
  cases hafter
  exact ⟨now, hbefore, htakes⟩

theorem Reads.single (h : phase.Takes settings entry next) : phase.Reads settings [entry] next :=
  .cons h .nil

theorem Reads.flying (h : phase.Reads settings journal last) :
    journal.foldl Entry.flying phase.flying = last.flying := by
  induction h with
  | nil => rfl
  | cons htakes _ ih => rw [List.foldl_cons, htakes.flying, ih]

theorem Reads.landed (h : phase.Reads settings journal last) :
    journal.foldl Entry.landed phase.landed = last.landed := by
  induction h with
  | nil => rfl
  | cons htakes _ ih => rw [List.foldl_cons, htakes.landed, ih]

theorem Reads.asked_iff (h : phase.Reads settings journal last) :
    last.asked = true ↔ phase.asked = true ∨ .asked ∈ journal := by
  induction h with
  | nil => simp
  | cons htakes _ ih => rw [ih, htakes.asked_iff, List.mem_cons, or_assoc, eq_comm (a := Entry.asked)]

theorem Reads.made (h : phase.Reads settings journal last) :
    last.made = phase.made + journal.launches := by
  induction h with
  | nil => rfl
  | @cons _ _ _ entry rest htakes _ ih =>
    have hcons : Journal.launches (entry :: rest) = Journal.launches [entry] + rest.launches :=
      Journal.launches_append [entry] rest
    rw [ih, htakes.made, hcons, Nat.add_assoc]

end Phase

section

variable {launch : Launch ω P M R} {settings : Settings M R} {outcome : SearchOutcome ω M}
  {asked last : Bool} {entries : Journal ω P M R}

/-- What the end of a search leaves of an engine. -/
def SearchOutcome.landed (outcome : SearchOutcome ω M) (launch : Launch ω P M R) :
    Option (Launch ω P M R × Node M) :=
  match outcome.fault with
  | none => some (launch, outcome.head)
  | some _ => none

theorem Flight.reads (h : Flight launch (launch.announcement settings) outcome asked entries) :
    (Phase.running asked launch).Reads settings entries
      (.resting outcome.abort.requested (launch.number + 1) (outcome.landed launch)) := by
  induction h with
  | ended =>
    unfold SearchOutcome.landed
    split
    · rename_i hfault
      rw [hfault]
      exact .single (.succeeded _ _)
    · rename_i hfault
      rw [hfault]
      exact .single (.failed _ _ _)
  | announced info _ ih => exact .cons (.offered _) (.cons .announced ih)
  | asked _ ih => exact .cons .caught (.cons .told ih)

theorem Choosing.reads {head : Node M}
    (h : Choosing launch.engine (launch.searchedTree head)
      (settings.options.get launch.tree.sideToMove).minimumAllowedVisits
      (fun move => ⟨settings.opening.fen, launch.tree.record.moves settings.chess960 ++ [move]⟩)
      asked last entries) (made : Nat) :
    (Phase.resting asked made (some (launch, head))).Reads settings entries
      (.resting last made (some (launch, head))) := by
  induction h with
  | chosen => exact .nil
  | discarded world hrejected hgoesOn _ ih => exact .cons (.discarded ⟨hrejected, hgoesOn, rfl⟩) ih
  | asked _ ih => exact .cons .asked ih

end

namespace Game

variable {setup : MatchSetup ω P M R} {allowed : PlayRequest → Prop}

/-- How a game between two rounds fits its journal. -/
structure Fits (settings : Settings M R) (game : Game ω P M R) (journal : Journal ω P M R) :
    Prop where
  grounded : game.abort.inFlight = none
  inStep : game.InStep
  unchanged : game.settings = settings
  reads : ∃ landed, (Phase.resting false 0 none).Reads settings journal
    (.resting game.abort.requested journal.launches landed)

theorem Fits.requested_iff {settings : Settings M R} {game : Game ω P M R} {journal : Journal ω P M R}
    (hfits : game.Fits settings journal) :
    game.abort.requested = true ↔ .asked ∈ journal := by
  obtain ⟨landed, hreads⟩ := hfits.reads
  have hiff := hreads.asked_iff
  simp only [Phase.asked, Bool.false_eq_true, false_or] at hiff
  exact hiff

theorem Fits.asked {settings : Settings M R} {game : Game ω P M R} {journal : Journal ω P M R}
    (hfits : game.Fits settings journal) :
    ({ game with abort := ⟨true, none⟩ } : Game ω P M R).Fits settings (journal ++ [.asked]) := by
  refine ⟨rfl, hfits.inStep, hfits.unchanged, ?_⟩
  obtain ⟨landed, hreads⟩ := hfits.reads
  have hlaunches : Journal.launches (journal ++ [.asked]) = journal.launches :=
    Journal.launches_append journal [.asked]
  rw [hlaunches]
  exact ⟨landed, hreads.append (.single .asked)⟩

theorem Fresh.fits {game : Game ω P M R} (h : game.Fresh) : game.Fits game.settings [] where
  grounded := by
    rw [h.idle]
    rfl
  inStep := h.inStep
  unchanged := rfl
  reads := by
    rw [h.idle]
    exact ⟨none, .nil⟩

variable [Scalar R]

/-- What a round writes down can be read. -/
theorem Progress.reads {request : PlayRequest} {number : Nat} {game after : Game ω P M R}
    {ending : Option PlayEnd} {entries : Journal ω P M R} (hstep : game.InStep)
    (h : game.Progress setup request number ending after entries)
    (landed : Option (Launch ω P M R × Node M)) :
    ∃ made left, (Phase.resting game.abort.requested number landed).Reads game.settings entries
      (.resting after.abort.requested made left) := by
  cases h with
  | decided => exact ⟨_, _, .nil⟩
  | stopped =>
    rw [abort_prepareTree]
    exact ⟨_, _, .nil⟩
  | refused _ hrun =>
    rw [abort_prepareTree, hrun]
    exact ⟨_, _, .single (.refused _)⟩
  | @searched launch _ _ outcome _ _ _ _ _ hrun hnumber htree _ _ hflight hlanding =>
    obtain ⟨hlaunch, hside⟩ := hstep.searched htree
    have hannounced : game.announcement game.sideToMove = launch.announcement game.settings := by
      funext info
      unfold announcement Launch.announcement
      rw [hlaunch, hstep]
      rfl
    rw [hannounced] at hflight
    rw [hrun]
    -- What is left is to read what the end of the round writes down.
    refine ⟨launch.number + 1, outcome.landed launch, .cons (.launched hnumber) (.cons .began
      (hflight.reads.append ?_))⟩
    cases hlanding with
    | failed => exact .nil
    | halted => exact .nil
    | resigned =>
      rw [searched_eq]
      exact .nil
    | moved hfault hgoesOn _ _ _ hchoosing =>
      have hlanded : outcome.landed launch = some (launch, outcome.head) := by
        rw [SearchOutcome.landed, hfault]
      have hreport : (game.prepareTree game.sideToMove).discardReport = fun move =>
          ⟨game.settings.opening.fen, launch.tree.record.moves game.settings.chess960 ++ [move]⟩ := by
        funext move
        have hmoves : (game.prepareTree game.sideToMove).moves = game.moves :=
          moves_congr (by rw [prepareTree_eq]) (record_prepareTree_get _ _ _)
        unfold discardReport
        rw [hmoves, hlaunch, prepareTree_eq]
        rfl
      rw [← htree, hreport, prepareTree_eq, ← hside] at hchoosing
      rw [hlanded, hgoesOn]
      exact hchoosing.reads _

theorem Fits.round {settings : Settings M R} {request : PlayRequest} {game after : Game ω P M R}
    {ending : Option PlayEnd} {journal entries : Journal ω P M R}
    (hfits : game.Fits settings journal)
    (h : game.Progress setup request journal.launches ending after entries) :
    after.Fits settings (journal ++ entries) := by
  refine ⟨inFlight_of_progress hfits.grounded h, inStep_of_progress hfits.inStep h,
    (settings_of_progress h).trans hfits.unchanged, ?_⟩
  obtain ⟨landed, hbefore⟩ := hfits.reads
  obtain ⟨made, left, hentries⟩ := h.reads hfits.inStep landed
  rw [hfits.unchanged] at hentries
  have hreads := hbefore.append hentries
  have hmade : made = 0 + Journal.launches (journal ++ entries) := hreads.made
  rw [Nat.zero_add] at hmade
  subst hmade
  exact ⟨left, hreads⟩

theorem Fits.leads {settings : Settings M R} {now later : Game ω P M R × Journal ω P M R}
    (hfits : now.1.Fits settings now.2) (h : Leads setup allowed now later) :
    later.1.Fits settings later.2 :=
  keeps_of_leads (fun _ hfits hprogress => hfits.round hprogress) Fits.asked h hfits

/-- **Every journal of a game can be read to its end.** -/
theorem Fresh.fits_perform {start : Game ω P M R} (h : start.Fresh) (setup : MatchSetup ω P M R)
    (world : ω) (acts : List (Act ω)) :
    (start.perform setup world acts).1.Fits start.settings (start.journal setup world acts) :=
  h.fits.leads (leads_journal setup world h.fits.grounded acts (fun _ => True) fun _ _ _ => trivial)

end Game

end SelfPlay
