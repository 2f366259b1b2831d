import Mathlib.Logic.Relation
import SelfPlay.Proofs.Lookahead.Choice
import SelfPlay.Proofs.Lookahead.Group
import SelfPlay.Proofs.Lookahead.Start

/-!
# What can happen to the games of a batch

`BatchGame.Progress` lists all that one round does to one game, whatever the networks answer, fail
or ask for: it is the only place where a round is taken apart. `Batch.Leads` is what any sequence of
calls to play and of requests to stop makes of a batch; the world may change as it likes in between.
-/

namespace SelfPlay.Lookahead

open SelfPlay.Numeric

variable {ω P M : Type} [Board P M]

namespace BatchGame

/-- A tablebase follows rules if settling an open game gives a result that they allow. -/
def Follows (rules : GameRecord P M → GameResult → Prop) (tablebase : Option (Tablebase ω P)) :
    Prop :=
  ∀ (game : BatchGame P M) (world : ω), game.result = .undecided →
    rules game.record (game.settle tablebase world).1.result

theorem follows_true (tablebase : Option (Tablebase ω P)) :
    Follows (fun (_ : GameRecord P M) _ => True) tablebase :=
  fun _ _ _ => trivial

theorem settle_of_isTerminal {tablebase : Option (Tablebase ω P)} {game : BatchGame P M}
    (h : game.result.isTerminal = true) (world : ω) : game.settle tablebase world = (game, world) :=
  if_pos h

/-- Settling ends an open game as the rules allow, or leaves it as it is. -/
theorem settle_cases {rules : GameRecord P M → GameResult → Prop}
    {tablebase : Option (Tablebase ω P)} (hrules : Follows rules tablebase) (game : BatchGame P M)
    (world : ω) :
    ((game.settle tablebase world).1 = game ∧
      (game.result = .undecided → rules game.record .undecided)) ∨
    ∃ result, game.result = .undecided ∧ rules game.record result ∧ result.isTerminal = true ∧
      (game.settle tablebase world).1 = { game with result := result } := by
  by_cases hover : game.result.isTerminal = true
  · refine Or.inl ⟨by rw [settle_of_isTerminal hover], ?_⟩
    intro hopen
    rw [hopen] at hover
    cases hover
  · have hopen : game.result = .undecided := GameResult.eq_undecided_of_not_isTerminal hover
    have hgame : (game.settle tablebase world).1 =
        { game with result := (game.settle tablebase world).1.result } := by
      rw [← tree_settle tablebase game world]
    have hallowed := hrules game world hopen
    generalize (game.settle tablebase world).1.result = result at hgame hallowed
    by_cases hterminal : result.isTerminal = true
    · exact Or.inr ⟨result, hopen, hallowed, hterminal, hgame⟩
    · obtain rfl : result = .undecided := GameResult.eq_undecided_of_not_isTerminal hterminal
      refine Or.inl ⟨?_, fun _ => hallowed⟩
      rw [hgame, ← hopen]

theorem getElem?_settleAll (tablebase : Option (Tablebase ω P)) (games : List (BatchGame P M))
    (world : ω) {i : Nat} {game : BatchGame P M} (h : games[i]? = some game) :
    ∃ now, (settleAll tablebase games world).1[i]? = some (game.settle tablebase now).1 := by
  induction games generalizing i world with
  | nil => simp at h
  | cons first rest ih =>
    cases i with
    | zero =>
      obtain rfl : first = game := by simpa using h
      exact ⟨world, rfl⟩
    | succ i => exact ih _ (by simpa using h)

theorem length_settleAll (tablebase : Option (Tablebase ω P)) (games : List (BatchGame P M))
    (world : ω) : (settleAll tablebase games world).1.length = games.length := by
  induction games generalizing world with
  | nil => rfl
  | cons first rest ih => simp [settleAll, ih]

variable [BoardMove M] [DecidableEq M]

/-- What one round makes of a game, when `rules` tells the results that settling may give it. -/
inductive Progress (rules : GameRecord P M → GameResult → Prop) (game : BatchGame P M) :
    BatchGame P M → Prop
  | stay : Progress rules game game
  | settle {result : GameResult} : game.result = .undecided → rules game.record result →
      result.isTerminal = true → Progress rules game { game with result := result }
  | expand : game.result = .undecided → rules game.record .undecided →
      Progress rules game game.expand
  | stuck : game.result = .undecided → rules game.record .undecided →
      game.expand.tree.head.edges = [] → Progress rules game { game.expand with result := .draw }
  | play {edge : Edge M (Node M)} : game.result = .undecided → rules game.record .undecided →
      edge ∈ game.expand.tree.head.edges →
      Progress rules game { game.expand with
        tree := game.expand.tree.play (BoardMove.relativeTo edge.move game.record.sideToMove) }

theorem length_advanceAll (format : InputFormat) (side : Color) (value : Nat → Binary32)
    (games : List (BatchGame P M)) (next : Nat) :
    (advanceAll format side value next games).length = games.length := by
  induction games generalizing next with
  | nil => rfl
  | cons first rest ih =>
    rw [advanceAll]
    split <;> simp [ih]

/-- A game advances by one of its edges, or is drawn for want of any. -/
theorem advance_cases {game : BatchGame P M} {scores : List Binary32}
    (h : scores.length = game.tree.head.edges.length) :
    (game.tree.head.edges = [] ∧ game.advance scores = { game with result := .draw }) ∨
    ∃ i edge, selectBest scores = some i ∧ game.tree.head.edges[i]? = some edge ∧
      game.advance scores = { game with
        tree := game.tree.play (BoardMove.relativeTo edge.move game.record.sideToMove) } := by
  unfold advance
  cases hselect : selectBest scores with
  | none =>
    rw [selectBest_eq_none_iff] at hselect
    rw [hselect, List.length_nil, eq_comm, List.length_eq_zero_iff] at h
    exact Or.inl ⟨h, rfl⟩
  | some i =>
    have hlt := lt_length_of_selectBest hselect
    rw [h] at hlt
    refine Or.inr ⟨i, game.tree.head.edges[i], rfl, List.getElem?_eq_getElem hlt, ?_⟩
    simp [List.getElem?_eq_getElem hlt]

/-- The scores of a game with edges let it advance by one of them. -/
theorem advance_expand_cases (game : BatchGame P M) (format : InputFormat) (values : Nat → Binary32)
    (next : Nat) {after : BatchGame P M}
    (h : after = game.expand.advance (scores values next (candidates format game.expand.tree))) :
    (game.expand.tree.head.edges = [] ∧ after = { game.expand with result := .draw }) ∨
    ∃ edge ∈ game.expand.tree.head.edges, after = { game.expand with
      tree := game.expand.tree.play (BoardMove.relativeTo edge.move game.record.sideToMove) } := by
  have hlength : (scores values next (candidates format game.expand.tree)).length =
      game.expand.tree.head.edges.length := by
    rw [length_scores, candidates, List.length_map]
  rcases advance_cases hlength with ⟨hnone, hadvance⟩ | ⟨i, edge, -, hedge, hadvance⟩
  · exact Or.inl ⟨hnone, h.trans hadvance⟩
  · exact Or.inr ⟨edge, List.mem_of_getElem? hedge, h.trans hadvance⟩

theorem progress_of_awaits {rules : GameRecord P M → GameResult → Prop} {game after : BatchGame P M}
    {format : InputFormat} {side : Color}
    (hrules : game.result = .undecided → rules game.record .undecided)
    (hawaits : game.awaits side = true)
    (h : after = game.expand ∨ ∃ values next,
      after = game.expand.advance (scores values next (candidates format game.expand.tree))) :
    game.Progress rules after := by
  have hopen : game.result = .undecided := (awaits_iff.mp hawaits).1
  rcases h with rfl | ⟨values, next, hadvance⟩
  · exact .expand hopen (hrules hopen)
  · rcases advance_expand_cases game format values next hadvance with
      ⟨hnone, rfl⟩ | ⟨edge, hedge, rfl⟩
    · exact .stuck hopen (hrules hopen) hnone
    · exact .play hopen (hrules hopen) hedge

theorem isFresh_of_progress {rules : GameRecord P M → GameResult → Prop}
    {game after : BatchGame P M} (h : game.tree.IsFresh) (hprogress : game.Progress rules after) :
    after.tree.IsFresh := by
  have hexpand : game.expand.tree.IsFresh := GameTree.isFresh_expand h
  cases hprogress with
  | stay => exact h
  | settle => exact h
  | expand => exact hexpand
  | stuck => exact hexpand
  | play => exact GameTree.isFresh_play hexpand _

/-- A game with a fresh tree keeps its record, or makes a legal move. -/
theorem record_of_progress {rules : GameRecord P M → GameResult → Prop} {game after : BatchGame P M}
    (h : game.tree.IsFresh) (hprogress : game.Progress rules after) :
    after.record = game.record ∨ ∃ move ∈ Board.legalMoves game.record.head,
      after.record = game.record.play (BoardMove.relativeTo move game.record.sideToMove) := by
  cases hprogress with
  | stay | settle | expand | stuck => exact .inl rfl
  | play _ _ hedge => exact .inr ⟨_, GameTree.move_mem_of_mem_edges h hedge, rfl⟩

end BatchGame

namespace Batch

open BatchGame

variable {rules : GameRecord P M → GameResult → Prop} {networks : PerSide (Network ω)}
  {tablebase : Option (Tablebase ω P)}

theorem exists_settle_of_getElem? {batch : Batch P M} {world : ω} {i : Nat} {after : BatchGame P M}
    (hi : (batch.settle tablebase world).1.games[i]? = some after) :
    ∃ game now, batch.games[i]? = some game ∧ after = (game.settle tablebase now).1 := by
  have hlength : (batch.settle tablebase world).1.games.length = batch.games.length :=
    length_settleAll tablebase batch.games world
  have hlt := (List.getElem?_eq_some_iff.mp hi).1
  rw [hlength] at hlt
  have hbefore := List.getElem?_eq_getElem hlt
  obtain ⟨now, hnow⟩ := getElem?_settleAll tablebase batch.games world hbefore
  have hafter : (batch.settle tablebase world).1.games[i]? = _ := hnow
  exact ⟨_, now, hbefore, Option.some.inj (hi.symm.trans hafter)⟩

/-- A game that is open after settling has not been touched by it. -/
theorem getElem?_of_settle {batch : Batch P M} {world : ω} {i : Nat} {game : BatchGame P M}
    (hi : (batch.settle tablebase world).1.games[i]? = some game) (hopen : game.result = .undecided) :
    batch.games[i]? = some game := by
  obtain ⟨before, now, hbefore, rfl⟩ := exists_settle_of_getElem? hi
  rcases settle_cases (follows_true tablebase) before now with ⟨hsame, -⟩ | ⟨result, -, -, hover, hgame⟩
  · rw [hsame]
    exact hbefore
  · rw [hgame] at hopen
    obtain rfl : result = .undecided := hopen
    cases hover

theorem isFresh_settle {batch : Batch P M} (h : batch.IsFresh)
    (tablebase : Option (Tablebase ω P)) (world : ω) : (batch.settle tablebase world).1.IsFresh := by
  intro after hmem
  obtain ⟨i, hi⟩ := List.mem_iff_getElem?.mp hmem
  obtain ⟨game, now, hgame, rfl⟩ := exists_settle_of_getElem? hi
  rw [tree_settle]
  exact h game (List.mem_of_getElem? hgame)

variable [BoardMove M] [DecidableEq M]

/-- The games that await the side advance by scores of their own edges, the others stay. -/
theorem getElem?_advance (format : InputFormat) (side : Color) (values : List Binary32)
    {batch : Batch P M} {i : Nat} {game : BatchGame P M} (h : batch.games[i]? = some game) :
    ∃ after, ((batch.expandGroup side).advance format side values).games[i]? = some after ∧
      (game.awaits side = false → after = game) ∧
      (game.awaits side = true → ∃ values next,
        after = game.expand.advance (scores values next (candidates format game.expand.tree))) := by
  unfold advance
  rw [getElem?_advanceAll, getElem?_expandGroup, h, Option.map_some, Option.map_some]
  refine ⟨_, rfl, ?_, ?_⟩
  · intro hwaits
    simp [hwaits]
  · intro hawaits
    have hstill : game.expand.awaits side = true := hawaits
    simp only [hawaits, if_true, hstill]
    exact ⟨_, _, rfl⟩

/-- A group step lets the games that await the side advance, or leaves them with their edges. -/
theorem getElem?_playGroup (network : Network ω) (side : Color) {batch : Batch P M} (world : ω)
    {i : Nat} {game : BatchGame P M} (h : batch.games[i]? = some game) :
    ∃ after, (batch.playGroup network side world).2.1.games[i]? = some after ∧
      (game.awaits side = false → after = game) ∧
      (game.awaits side = true → after = game.expand ∨ ∃ values next,
        after = game.expand.advance (scores values next
          (candidates network.format game.expand.tree))) := by
  have hexpand : (batch.expandGroup side).games[i]? =
      some (if game.awaits side then game.expand else game) := by
    rw [getElem?_expandGroup, h, Option.map_some]
  have hadvance (values : List Binary32) :
      ∃ after, ((batch.expandGroup side).advance network.format side values).games[i]? =
          some after ∧
        (game.awaits side = false → after = game) ∧
        (game.awaits side = true → after = game.expand ∨ ∃ values next,
          after = game.expand.advance (scores values next
            (candidates network.format game.expand.tree))) := by
    obtain ⟨after, hafter, hwaits, hawaits⟩ := getElem?_advance network.format side values h
    exact ⟨after, hafter, hwaits, fun hside => .inr (hawaits hside)⟩
  unfold playGroup
  simp only
  split
  · exact hadvance []
  · cases (network.evaluate ((batch.expandGroup side).groupSamples network.format side)
        world).outcome with
    | ok values =>
      simp only
      split
      · exact hadvance values
      · exact hadvance values
    | error fault =>
      refine ⟨_, by simp only; split <;> exact hexpand, ?_, ?_⟩
      · intro hwaits
        simp [hwaits]
      · intro hawaits
        simp [hawaits]

/-- All that a round does to a game is one of the things listed. -/
theorem progress_round (hrules : Follows rules tablebase) (batch : Batch P M) (world : ω) {i : Nat}
    {game : BatchGame P M} (h : batch.games[i]? = some game) :
    ∃ after, (batch.round networks tablebase world).2.1.games[i]? = some after ∧
      game.Progress rules after := by
  unfold round
  split
  · exact ⟨game, h, .stay⟩
  · obtain ⟨now, hnow⟩ := getElem?_settleAll tablebase batch.games world h
    have hsettled : (batch.settle tablebase world).1.games[i]? = some (game.settle tablebase now).1 :=
      hnow
    simp only
    split
    · refine ⟨_, hsettled, ?_⟩
      rcases settle_cases hrules game now with ⟨hsame, -⟩ | ⟨result, hopen, hallowed, hover, hgame⟩
      · rw [hsame]
        exact .stay
      · rw [hgame]
        exact .settle hopen hallowed hover
    · rename_i first _
      obtain ⟨after, hafter, hwaits, hawaits⟩ := getElem?_playGroup
        (networks.get first.record.sideToMove) first.record.sideToMove
        (batch.settle tablebase world).2 hsettled
      refine ⟨after, hafter, ?_⟩
      rcases settle_cases hrules game now with
        ⟨hsame, hallowed⟩ | ⟨result, hopen, hallowed, hover, hgame⟩
      · rw [hsame] at hwaits hawaits
        cases hside : game.awaits first.record.sideToMove with
        | false =>
          rw [hwaits hside]
          exact .stay
        | true =>
          exact progress_of_awaits hallowed hside (hawaits hside)
      · -- a game that has just ended awaits nobody
        have hnobody : (game.settle tablebase now).1.awaits first.record.sideToMove = false := by
          rw [hgame]
          exact awaits_of_isTerminal hover _
        rw [hwaits hnobody, hgame]
        exact .settle hopen hallowed hover

theorem length_round (batch : Batch P M) (world : ω) :
    (batch.round networks tablebase world).2.1.games.length = batch.games.length := by
  have hsettle : (batch.settle tablebase world).1.games.length = batch.games.length :=
    length_settleAll tablebase batch.games world
  unfold round playGroup
  split
  · rfl
  · simp only
    split
    · exact hsettle
    · split
      · simp [advance, expandGroup, length_advanceAll, hsettle]
      · split
        · split <;> simp [requestAbort, expandGroup, hsettle]
        · split <;> simp [advance, requestAbort, expandGroup, length_advanceAll, hsettle]

/-- A round in whatever state the world is, or a request to stop. -/
inductive Step (networks : PerSide (Network ω)) (tablebase : Option (Tablebase ω P))
    (batch : Batch P M) : Batch P M → Prop
  | round (world : ω) : Step networks tablebase batch (batch.round networks tablebase world).2.1
  | requestAbort : Step networks tablebase batch batch.requestAbort

/-- Calls to play and requests to stop lead from one batch to the other. -/
def Leads (networks : PerSide (Network ω)) (tablebase : Option (Tablebase ω P)) :
    Batch P M → Batch P M → Prop :=
  Relation.ReflTransGen (Step networks tablebase)

theorem leads_playFor (rounds : Nat) (batch : Batch P M) (world : ω) :
    batch.Leads networks tablebase (batch.playFor networks tablebase rounds world).2.1 := by
  induction rounds generalizing batch world with
  | zero => exact .refl
  | succ rounds ih =>
    have hround : Step networks tablebase batch (batch.round networks tablebase world).2.1 :=
      .round world
    rw [playFor]
    split
    · rename_i heq
      rw [heq] at hround
      exact .single hround
    · rename_i heq
      rw [heq] at hround
      exact .head hround (ih _ _)

theorem leads_of_playFor {rounds : Nat} {batch final : Batch P M} {world last : ω}
    {ending : PlayEnd}
    (hplay : batch.playFor networks tablebase rounds world = (ending, final, last)) :
    batch.Leads networks tablebase final := by
  have hleads : batch.Leads networks tablebase
      (batch.playFor networks tablebase rounds world).2.1 := leads_playFor rounds batch world
  rwa [hplay] at hleads

/-- What each progress keeps is kept by a whole run. -/
theorem keeps_of_leads (kept : BatchGame P M → Prop) (hrules : Follows rules tablebase)
    (hkept : ∀ game after : BatchGame P M, kept game → game.Progress rules after → kept after)
    {batch later : Batch P M} (hleads : batch.Leads networks tablebase later) {i : Nat}
    {game : BatchGame P M} (hgame : batch.games[i]? = some game) (h : kept game) :
    ∃ after, later.games[i]? = some after ∧ kept after := by
  induction hleads with
  | refl => exact ⟨game, hgame, h⟩
  | tail _ hstep ih =>
    obtain ⟨before, hbefore, hstill⟩ := ih
    cases hstep with
    | round world =>
      obtain ⟨after, hafter, hprogress⟩ := progress_round hrules _ world hbefore
      exact ⟨after, hafter, hkept _ _ hstill hprogress⟩
    | requestAbort => exact ⟨before, hbefore, hstill⟩

theorem length_of_leads {batch later : Batch P M} (h : batch.Leads networks tablebase later) :
    later.games.length = batch.games.length := by
  induction h with
  | refl => rfl
  | tail _ hstep ih =>
    cases hstep with
    | round world => rw [length_round, ih]
    | requestAbort => exact ih

/-- No run leaves anything but fresh trees. -/
theorem isFresh_of_leads {batch later : Batch P M} (hleads : batch.Leads networks tablebase later)
    (h : batch.IsFresh) : later.IsFresh := by
  intro after hmem
  obtain ⟨i, hi⟩ := List.mem_iff_getElem?.mp hmem
  have hlt := (List.getElem?_eq_some_iff.mp hi).1
  rw [length_of_leads hleads] at hlt
  obtain ⟨after', hafter, hfresh⟩ := keeps_of_leads (fun game => game.tree.IsFresh)
    (follows_true tablebase) (fun _ _ => isFresh_of_progress) hleads
    (List.getElem?_eq_getElem hlt) (h _ (List.getElem_mem hlt))
  rw [hi] at hafter
  cases hafter
  exact hfresh

/-- A game that is over once the games have been settled takes no part in the round. -/
theorem getElem?_round_of_settled {batch : Batch P M} {world : ω} (hrun : batch.aborted = false)
    {i : Nat} {game : BatchGame P M}
    (hsettled : (batch.settle tablebase world).1.games[i]? = some game)
    (hover : game.result.isTerminal = true) :
    (batch.round networks tablebase world).2.1.games[i]? = some game := by
  unfold round
  rw [if_neg (Bool.eq_false_iff.mp hrun)]
  simp only
  split
  · exact hsettled
  · rename_i first _
    obtain ⟨after, hafter, hwaits, -⟩ := getElem?_playGroup
      (networks.get first.record.sideToMove) first.record.sideToMove
      (batch.settle tablebase world).2 hsettled
    rw [hafter, hwaits (awaits_of_isTerminal hover _)]

end Batch

end SelfPlay.Lookahead
