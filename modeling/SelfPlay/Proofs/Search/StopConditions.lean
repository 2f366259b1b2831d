import Mathlib.Logic.Basic
import Mathlib.Tactic.MkIffOfInductiveProp
import Mathlib.Tactic.Tauto
import SelfPlay.Search.Stopper

/-!
# What makes a chain of stop conditions stop

A report reaches every rule of a stopper, however deep it lies, and each rule goes on to its own
next state. So a stopper is no more than the list of its rules run side by side, and it stops when
one of them does. Budgets tell by the number of earlier reports and by the present one whether they
are used up, and what is used up stays so as long as reports do not decrease.
-/

namespace SelfPlay

/-! ## Chains -/

namespace Stopper

variable {α : Type}

theorem rulesAll_append (members more : List (Stopper α)) :
    rulesAll (members ++ more) = rulesAll members ++ rulesAll more := by
  induction members with
  | nil => rfl
  | cons member rest ih => rw [List.cons_append, rulesAll, rulesAll, ih, List.append_assoc]

theorem mem_rulesAll_iff {rule : α} {members : List (Stopper α)} :
    rule ∈ rulesAll members ↔ ∃ member ∈ members, rule ∈ member.rules := by
  induction members with
  | nil => simp [rulesAll]
  | cons member rest ih => simp [rulesAll, ih]

theorem rules_add (stopper : Stopper α) (more : List (Stopper α)) :
    (stopper.add more).rules = stopper.rules ++ rulesAll more := by
  have hmembers : rulesAll stopper.members = stopper.rules := by
    cases stopper with
    | leaf rule => simp [members, rules, rulesAll]
    | chain members => rfl
  rw [add, rules, rulesAll_append, hmembers]

variable [StopRule α]

mutual

/-- A stopper answers yes if one of its rules does. -/
theorem fst_step (stopper : Stopper α) (stats : SearchStats) :
    (stopper.step stats).1 = stopper.rules.any fun rule => (StopRule.step rule stats).1 := by
  cases stopper with
  | leaf rule => simp [step, rules]
  | chain members => simpa [step, rules] using fst_stepAll members stats

theorem fst_stepAll (members : List (Stopper α)) (stats : SearchStats) :
    (stepAll members stats).1 =
      (rulesAll members).any fun rule => (StopRule.step rule stats).1 := by
  cases members with
  | nil => rfl
  | cons member rest =>
    simp only [stepAll, rulesAll, List.any_append]
    rw [fst_step member stats, fst_stepAll rest stats]

end

mutual

/-- Every rule of a stopper sees the report, whatever the others answer. -/
theorem rules_step (stopper : Stopper α) (stats : SearchStats) :
    (stopper.step stats).2.rules = stopper.rules.map fun rule => (StopRule.step rule stats).2 := by
  cases stopper with
  | leaf rule => rfl
  | chain members => simpa [step, rules] using rulesAll_stepAll members stats

theorem rulesAll_stepAll (members : List (Stopper α)) (stats : SearchStats) :
    rulesAll (stepAll members stats).2 =
      (rulesAll members).map fun rule => (StopRule.step rule stats).2 := by
  cases members with
  | nil => rfl
  | cons member rest =>
    simp only [stepAll, rulesAll, List.map_append]
    rw [rules_step member stats, rulesAll_stepAll rest stats]

end

theorem answers_cons (stopper : Stopper α) (stats : SearchStats) (rest : List SearchStats) :
    stopper.answers (stats :: rest) =
      (stopper.step stats).1 :: (stopper.step stats).2.answers rest := rfl

theorem length_answers (stopper : Stopper α) (reports : List SearchStats) :
    (stopper.answers reports).length = reports.length := by
  induction reports generalizing stopper with
  | nil => rfl
  | cons stats rest ih => rw [answers_cons, List.length_cons, List.length_cons, ih]

/-- A stopper stops at a report just if one of its rules, shown the same reports by itself, does. -/
theorem getElem?_answers_iff (stopper : Stopper α) (reports : List SearchStats) (i : Nat) :
    (stopper.answers reports)[i]? = some true ↔
      ∃ rule ∈ stopper.rules, (StopRule.answers rule reports)[i]? = some true := by
  -- the rules of the stopper for the next report are the next states of its rules
  induction reports generalizing stopper i with
  | nil => simp [answers, StopRule.answers]
  | cons stats rest ih =>
    rw [answers_cons]
    cases i with
    | zero => simp [StopRule.answers, fst_step]
    | succ i =>
      rw [List.getElem?_cons_succ, ih, rules_step]
      simp [StopRule.answers]

/-- Two runs of answers with the same stops are the same. -/
theorem answers_eq_of_iff {stopper other : Stopper α} {reports : List SearchStats}
    (h : ∀ i : Nat, (other.answers reports)[i]? = some true ↔
      (stopper.answers reports)[i]? = some true) :
    other.answers reports = stopper.answers reports := by
  refine List.ext_getElem (by rw [length_answers, length_answers]) fun i hother hstopper => ?_
  have hi := h i
  rw [List.getElem?_eq_getElem hother, List.getElem?_eq_getElem hstopper, Option.some_inj,
    Option.some_inj] at hi
  exact Bool.eq_iff_iff.mpr hi

/-- Neither nesting nor order nor repetition of the rules matters. -/
theorem answers_eq_of_rules {stopper other : Stopper α}
    (h : ∀ rule, rule ∈ other.rules ↔ rule ∈ stopper.rules) (reports : List SearchStats) :
    other.answers reports = stopper.answers reports := by
  apply answers_eq_of_iff
  intro i
  simp only [getElem?_answers_iff, h]

theorem getElem?_answers_add_iff (stopper : Stopper α) (more : List (Stopper α))
    (reports : List SearchStats) (i : Nat) :
    ((stopper.add more).answers reports)[i]? = some true ↔
      (stopper.answers reports)[i]? = some true ∨
        ∃ member ∈ more, (member.answers reports)[i]? = some true := by
  simp only [getElem?_answers_iff, rules_add, List.mem_append, mem_rulesAll_iff]
  constructor
  · rintro ⟨rule, hown | ⟨member, hmember, hrule⟩, hstops⟩
    · exact .inl ⟨rule, hown, hstops⟩
    · exact .inr ⟨member, hmember, rule, hrule, hstops⟩
  · rintro (⟨rule, hown, hstops⟩ | ⟨member, hmember, rule, hrule, hstops⟩)
    · exact ⟨rule, .inl hown, hstops⟩
    · exact ⟨rule, .inr ⟨member, hmember, hrule⟩, hstops⟩

end Stopper

/-! ## Budgets -/

/-- A later report of the same search: nothing has become less. -/
@[mk_iff]
structure SearchStats.AtMost (earlier later : SearchStats) : Prop where
  totalNodes : earlier.totalNodes ≤ later.totalNodes
  playouts : earlier.playouts ≤ later.playouts
  elapsed : earlier.elapsed ≤ later.elapsed

namespace Budget

/-- Whether the budget is used up at a report that `earlier` others came before. -/
def isUsedUp (budget : Budget) (earlier : Nat) (stats : SearchStats) : Bool :=
  match budget with
  | .visits limit => decide (limit ≤ stats.totalNodes)
  | .playouts limit => decide (limit ≤ stats.playouts)
  | .time limit => decide (limit ≤ stats.elapsed)
  | .calls limit seen => decide (limit ≤ seen + earlier + 1)

theorem fst_step (budget : Budget) (stats : SearchStats) :
    (StopRule.step budget stats).1 = budget.isUsedUp 0 stats := by
  cases budget <;> rfl

/-- A budget knows how many reports it has seen. -/
theorem isUsedUp_step (budget : Budget) (stats later : SearchStats) (earlier : Nat) :
    (StopRule.step budget stats).2.isUsedUp earlier later =
      budget.isUsedUp (earlier + 1) later := by
  cases budget with
  | calls limit seen =>
    have hcount : seen + 1 + earlier + 1 = seen + (earlier + 1) + 1 := by omega
    simp [StopRule.step, isUsedUp, hcount]
  | _ => rfl

theorem getElem?_answers (budget : Budget) (reports : List SearchStats) (i : Nat) :
    (StopRule.answers budget reports)[i]? = reports[i]?.map (budget.isUsedUp i) := by
  induction reports generalizing budget i with
  | nil => rfl
  | cons stats rest ih =>
    cases i with
    | zero => simp [StopRule.answers, fst_step]
    | succ i =>
      rw [StopRule.answers, List.getElem?_cons_succ, List.getElem?_cons_succ, ih]
      exact congrArg (fun used => rest[i]?.map used)
        (funext fun later => isUsedUp_step budget stats later i)

/-- What is used up stays used up. -/
theorem isUsedUp_mono (budget : Budget) {stats later : SearchStats} (h : stats.AtMost later)
    {earlier more : Nat} (hle : earlier ≤ more) (hused : budget.isUsedUp earlier stats = true) :
    budget.isUsedUp more later = true := by
  have htotal := h.totalNodes
  have hplayouts := h.playouts
  have helapsed := h.elapsed
  cases budget <;> simp only [isUsedUp, decide_eq_true_eq] at hused ⊢ <;> omega

end Budget

namespace Stopper

theorem getElem?_answers_budgets_iff (stopper : Stopper Budget) {reports : List SearchStats}
    {i : Nat} {stats : SearchStats} (hi : reports[i]? = some stats) :
    (stopper.answers reports)[i]? = some true ↔
      ∃ budget ∈ stopper.rules, budget.isUsedUp i stats = true := by
  simp only [getElem?_answers_iff, Budget.getElem?_answers, hi, Option.map_some, Option.some_inj]

/-- Once a chain of budgets has stopped a search it does so at every later report. -/
theorem getElem?_answers_of_le {stopper : Stopper Budget} {reports : List SearchStats}
    (hreports : reports.Pairwise SearchStats.AtMost) {i j : Nat} (hle : i ≤ j)
    (hj : j < reports.length) (hstops : (stopper.answers reports)[i]? = some true) :
    (stopper.answers reports)[j]? = some true := by
  rcases Nat.eq_or_lt_of_le hle with rfl | hlt
  · exact hstops
  · have hi : i < reports.length := Nat.lt_trans hlt hj
    rw [getElem?_answers_budgets_iff stopper (List.getElem?_eq_getElem hi)] at hstops
    rw [getElem?_answers_budgets_iff stopper (List.getElem?_eq_getElem hj)]
    obtain ⟨budget, hbudget, hused⟩ := hstops
    have hlater := List.pairwise_iff_getElem.mp hreports i j hi hj hlt
    exact ⟨budget, hbudget, budget.isUsedUp_mono hlater hle hused⟩

end Stopper

theorem SearchLimits.rules_stopper (limits : SearchLimits) :
    limits.stopper.rules = limits.budgets := by
  have hleaves (budgets : List Budget) :
      Stopper.rulesAll (budgets.map Stopper.leaf) = budgets := by
    induction budgets with
    | nil => rfl
    | cons budget rest ih => rw [List.map_cons, Stopper.rulesAll, ih]; rfl
  exact hleaves limits.budgets

/-- The stopper of some limits stops a search just if one that is set has been reached. -/
theorem SearchLimits.getElem?_answers_iff (limits : SearchLimits) {reports : List SearchStats}
    {i : Nat} {stats : SearchStats} (hi : reports[i]? = some stats) :
    (limits.stopper.answers reports)[i]? = some true ↔
      (∃ limit ∈ limits.visits, limit ≤ stats.totalNodes) ∨
        (∃ limit ∈ limits.playouts, limit ≤ stats.playouts) ∨
        ∃ limit ∈ limits.movetime, limit ≤ stats.elapsed := by
  rw [Stopper.getElem?_answers_budgets_iff _ hi, rules_stopper]
  simp [budgets, Budget.isUsedUp, or_and_right, exists_or]

/-- **Stop conditions combine as an unbiased or.** A stopper, whatever its rules keep in mind, stops
at a report just if one of its rules, shown all reports so far by itself, stops there; so only the
rules matter, and further members can only add stops. The stopper of some limits stops just where
one that is set has been reached. A chain of budgets that has stopped a search stops it at every
later report, as long as the reports do not decrease. -/
theorem stop_conditions_combine_as_or :
    (∀ {α : Type} [StopRule α] (stopper : Stopper α) (reports : List SearchStats),
      (stopper.answers reports).length = reports.length ∧
      (∀ i : Nat, (stopper.answers reports)[i]? = some true ↔
        ∃ rule ∈ stopper.rules, (StopRule.answers rule reports)[i]? = some true) ∧
      (∀ other : Stopper α, (∀ rule, rule ∈ other.rules ↔ rule ∈ stopper.rules) →
        other.answers reports = stopper.answers reports) ∧
      ∀ (more : List (Stopper α)) (i : Nat),
        ((stopper.add more).answers reports)[i]? = some true ↔
          (stopper.answers reports)[i]? = some true ∨
            ∃ member ∈ more, (member.answers reports)[i]? = some true) ∧
    (∀ (limits : SearchLimits) (reports : List SearchStats) (i : Nat) (stats : SearchStats),
      reports[i]? = some stats →
      ((limits.stopper.answers reports)[i]? = some true ↔
        (∃ limit ∈ limits.visits, limit ≤ stats.totalNodes) ∨
          (∃ limit ∈ limits.playouts, limit ≤ stats.playouts) ∨
          ∃ limit ∈ limits.movetime, limit ≤ stats.elapsed)) ∧
    ∀ (stopper : Stopper Budget) (reports : List SearchStats),
      reports.Pairwise SearchStats.AtMost → ∀ i j : Nat, i ≤ j → j < reports.length →
      (stopper.answers reports)[i]? = some true → (stopper.answers reports)[j]? = some true := by
  refine ⟨?_, ?_, ?_⟩
  · intro α _ stopper reports
    exact ⟨stopper.length_answers reports, stopper.getElem?_answers_iff reports,
      fun other hrules => Stopper.answers_eq_of_rules hrules reports,
      fun more i => stopper.getElem?_answers_add_iff more reports i⟩
  · intro limits reports i stats hi
    exact limits.getElem?_answers_iff hi
  · intro stopper reports hreports i j hle hj hstops
    exact Stopper.getElem?_answers_of_le hreports hle hj hstops

/-- A search with a limit on nodes and one on time. -/
def timedLimits : SearchLimits := ⟨some 800, none, some 500⟩

/-- The stopper of the limits, with an empty chain, a limit that it has already and, two chains
deep, a limit on the number of reports. -/
def nestedStopper : Stopper Budget :=
  timedLimits.stopper.add [.chain [.chain [], .chain [.leaf (.calls 3 0)]], .leaf (.visits 800)]

/-- The same three conditions, each once and in another order. -/
def flatStopper : Stopper Budget :=
  .chain [.leaf (.calls 3 0), .leaf (.time 500), .leaf (.visits 800)]

def growingReports : List SearchStats :=
  [⟨640, 0, 0⟩, ⟨700, 60, 90⟩, ⟨760, 120, 90⟩, ⟨810, 170, 200⟩]

/-- The third report stops the search for being the third, the fourth one by its nodes as well. -/
theorem nested_stopper_combines_as_or :
    flatStopper.answers growingReports = nestedStopper.answers growingReports ∧
      (timedLimits.stopper.answers growingReports)[3]? = some true ∧
      growingReports.Pairwise SearchStats.AtMost ∧
      (nestedStopper.answers growingReports)[2]? = some true ∧
      (nestedStopper.answers growingReports)[3]? = some true := by
  obtain ⟨hchains, hlimits, hbudgets⟩ := stop_conditions_combine_as_or
  obtain ⟨-, -, hrules, -⟩ := hchains nestedStopper growingReports
  have hgrowing : growingReports.Pairwise SearchStats.AtMost := by
    simp [growingReports, SearchStats.atMost_iff]
  have hthird : (nestedStopper.answers growingReports)[2]? = some true := by decide
  have hrule (rule : Budget) : rule ∈ flatStopper.rules ↔ rule ∈ nestedStopper.rules := by
    have hflat : flatStopper.rules = [.calls 3 0, .time 500, .visits 800] := rfl
    have hnested : nestedStopper.rules = [.visits 800, .time 500, .calls 3 0, .visits 800] := rfl
    simp only [hflat, hnested, List.mem_cons, List.not_mem_nil, or_false]
    tauto
  refine ⟨hrules flatStopper hrule, ?_, hgrowing, hthird, ?_⟩
  · rw [hlimits timedLimits growingReports 3 ⟨810, 170, 200⟩ rfl]
    exact .inl ⟨800, rfl, by decide⟩
  · exact hbudgets nestedStopper growingReports hgrowing 2 3 (by decide) (by decide) hthird

end SelfPlay
