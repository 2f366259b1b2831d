import SelfPlay.PlayEnd

/-!
# Play taken up again

Both kinds of play go on round after round until a round says why they come to rest, and what a
round does may depend on the world. Suppose that it does so in three ways only: a round may fail,
somebody may ask it to stop, and the world that it leaves may be another one. The rounds that are
not disturbed then form a relation `Turns` of one outcome for each state, and a run that is not
disturbed is a `Course` of them. So play may be taken up, in any world, in a state that makes the
same turns as the one that was left (`Repeats.resumes`).

How often play is disturbed, or whether it ever comes to rest, is not said here.
-/

namespace SelfPlay

variable {σ ω : Type}

/-- Rounds until one of them says why play comes to rest or so many are used up. -/
def runFor (round : σ → ω → Option PlayEnd × σ × ω) : Nat → σ → ω → PlayEnd × σ × ω
  | 0, state, world => (.cutShort, state, world)
  | rounds + 1, state, world =>
    match round state world with
    | (some ending, state, world) => (ending, state, world)
    | (none, state, world) => runFor round rounds state world

def Disturbed (stopped : σ → Prop) (ending : Option PlayEnd) (state : σ) : Prop :=
  (∃ error, ending = some (.failed error)) ∨ stopped state

/-- In some world a round is not disturbed and does this. -/
def Turns (round : σ → ω → Option PlayEnd × σ × ω) (stopped : σ → Prop) (state : σ)
    (ending : Option PlayEnd) (next : σ) : Prop :=
  ∃ world last, round state world = (ending, next, last) ∧ ¬Disturbed stopped ending next

/-- At most so many turns, each in a world of its own. -/
inductive Course (turns : σ → Option PlayEnd → σ → Prop) : Nat → σ → PlayEnd → σ → Prop
  | cutShort {state : σ} : Course turns 0 state .cutShort state
  | rests {rounds : Nat} {state final : σ} {ending : PlayEnd} : turns state (some ending) final →
      Course turns (rounds + 1) state ending final
  | goesOn {rounds : Nat} {state next final : σ} {ending : PlayEnd} : turns state none next →
      Course turns rounds next ending final → Course turns (rounds + 1) state ending final

/-- States that are the `same` make one turn, whatever the worlds are like. -/
structure Repeats (round : σ → ω → Option PlayEnd × σ × ω) (stopped : σ → Prop)
    (same : σ → σ → Prop) : Prop where
  refl : ∀ state, same state state
  /-- Play that was not cut short has come to rest. -/
  rests : ∀ {state next : σ} {ending : PlayEnd},
    Turns round stopped state (some ending) next → ending ≠ .cutShort
  /-- A request to stop is never forgotten. -/
  stays : ∀ {state next : σ} {world last : ω} {ending : Option PlayEnd}, stopped state →
    round state world = (ending, next, last) → stopped next
  agrees : ∀ {state other next next' : σ} {ending ending' : Option PlayEnd}, same state other →
    Turns round stopped state ending next → Turns round stopped other ending' next' →
    ending' = ending ∧ next' = next

section

variable {round : σ → ω → Option PlayEnd × σ × ω} {state next : σ} {world now : ω}

theorem runFor_of_round_eq_some {ending : PlayEnd} (rounds : Nat)
    (h : round state world = (some ending, next, now)) :
    runFor round (rounds + 1) state world = (ending, next, now) := by
  rw [runFor, h]

theorem runFor_of_round_eq_none (rounds : Nat) (h : round state world = (none, next, now)) :
    runFor round (rounds + 1) state world = runFor round rounds next now := by
  rw [runFor, h]

/-- Play that has come to rest is not changed by further rounds. -/
theorem runFor_of_rests {rounds : Nat} {ending : PlayEnd}
    (h : runFor round rounds state world = (ending, next, now)) (hrests : ending ≠ .cutShort)
    (more : Nat) : runFor round (rounds + more) state world = (ending, next, now) := by
  induction rounds generalizing state world with
  | zero =>
    cases h
    exact absurd rfl hrests
  | succ rounds ih =>
    obtain ⟨first, following, after, hround⟩ : ∃ first following after,
      round state world = (first, following, after) := ⟨_, _, _, rfl⟩
    rw [Nat.succ_add]
    cases first with
    | some first =>
      rw [runFor_of_round_eq_some rounds hround] at h
      rw [runFor_of_round_eq_some _ hround, h]
    | none =>
      rw [runFor_of_round_eq_none rounds hround] at h
      rw [runFor_of_round_eq_none _ hround]
      exact ih h

/-- Play that was cut short goes on from there, and what all rounds keep that do not come to rest
holds there. -/
theorem runFor_of_cutShort (good : σ → Prop)
    (hrests : ∀ {state next : σ} {world last : ω} {ending : PlayEnd},
      round state world = (some ending, next, last) → ending ≠ .cutShort)
    (hkeeps : ∀ {state next : σ} {world last : ω}, round state world = (none, next, last) →
      good state → good next)
    {rounds : Nat} {begun : σ} (h : runFor round rounds state world = (.cutShort, begun, now))
    (hgood : good state) :
    good begun ∧ ∀ more, runFor round (rounds + more) state world = runFor round more begun now := by
  induction rounds generalizing state world with
  | zero =>
    cases h
    exact ⟨hgood, fun more => by rw [Nat.zero_add]⟩
  | succ rounds ih =>
    obtain ⟨first, next, after, hround⟩ : ∃ first next after,
      round state world = (first, next, after) := ⟨_, _, _, rfl⟩
    cases first with
    | some first =>
      rw [runFor_of_round_eq_some rounds hround] at h
      cases h
      exact absurd rfl (hrests hround)
    | none =>
      rw [runFor_of_round_eq_none rounds hround] at h
      obtain ⟨hbegun, hadd⟩ := ih h (hkeeps hround hgood)
      refine ⟨hbegun, fun more => ?_⟩
      rw [Nat.succ_add, runFor_of_round_eq_none _ hround, hadd]

end

/-- Play that has come to rest is not changed by further rounds. -/
theorem Course.of_le {turns : σ → Option PlayEnd → σ → Prop} {rounds more : Nat}
    {state final : σ} {ending : PlayEnd} (h : Course turns rounds state ending final)
    (hrests : ending ≠ .cutShort) (hle : rounds ≤ more) :
    Course turns more state ending final := by
  induction h generalizing more with
  | cutShort => exact absurd rfl hrests
  | rests hturn =>
    obtain ⟨more, rfl⟩ := Nat.exists_eq_add_of_le' hle
    exact .rests hturn
  | @goesOn rounds _ _ _ _ hturn _ ih =>
    obtain ⟨more, rfl⟩ := Nat.exists_eq_add_of_le' hle
    have hrest : rounds ≤ more + rounds := by omega
    exact .goesOn hturn (ih hrests hrest)

namespace Repeats

variable {round : σ → ω → Option PlayEnd × σ × ω} {stopped : σ → Prop} {same : σ → σ → Prop}
  {state begun other final final' : σ} {world last : ω} {ending ending' : PlayEnd} {rounds : Nat}

theorem stopped_of_runFor (h : Repeats round stopped same) (hstopped : stopped state)
    (hrun : runFor round rounds state world = (ending, final, last)) : stopped final := by
  induction rounds generalizing state world with
  | zero =>
    cases hrun
    exact hstopped
  | succ rounds ih =>
    obtain ⟨first, next, now, hround⟩ : ∃ first next now,
      round state world = (first, next, now) := ⟨_, _, _, rfl⟩
    have hnext := h.stays hstopped hround
    cases first with
    | some first =>
      rw [runFor_of_round_eq_some rounds hround] at hrun
      cases hrun
      exact hnext
    | none =>
      rw [runFor_of_round_eq_none rounds hround] at hrun
      exact ih hnext hrun

/-- A run that is not disturbed is a course of turns. -/
theorem course_of_runFor (h : Repeats round stopped same)
    (hrun : runFor round rounds state world = (ending, final, last))
    (hquiet : ¬Disturbed stopped (some ending) final) :
    Course (Turns round stopped) rounds state ending final := by
  induction rounds generalizing state world with
  | zero =>
    cases hrun
    exact .cutShort
  | succ rounds ih =>
    obtain ⟨first, next, now, hround⟩ : ∃ first next now,
      round state world = (first, next, now) := ⟨_, _, _, rfl⟩
    cases first with
    | some first =>
      rw [runFor_of_round_eq_some rounds hround] at hrun
      cases hrun
      exact .rests ⟨world, last, hround, hquiet⟩
    | none =>
      rw [runFor_of_round_eq_none rounds hround] at hrun
      -- had somebody asked to stop already, the end of the run would show it
      have hnext : ¬Disturbed stopped none next := by
        rintro (⟨error, ⟨⟩⟩ | hstopped)
        exact hquiet (.inr (h.stopped_of_runFor hstopped hrun))
      exact .goesOn ⟨world, now, hround, hnext⟩ (ih hrun)

/-- States that are the same have one course to the rest. -/
theorem course_congr (h : Repeats round stopped same) (hsame : same state other)
    (hcourse : Course (Turns round stopped) rounds state ending final)
    (hcourse' : Course (Turns round stopped) rounds other ending' final')
    (hrests : ending ≠ .cutShort) : ending' = ending ∧ final' = final := by
  induction hcourse generalizing other with
  | cutShort => exact absurd rfl hrests
  | rests hturn =>
    cases hcourse' with
    | rests hturn' =>
      obtain ⟨hending, hfinal⟩ := h.agrees hsame hturn hturn'
      exact ⟨Option.some.inj hending, hfinal⟩
    | goesOn hturn' =>
      obtain ⟨⟨⟩, -⟩ := h.agrees hsame hturn hturn'
  | goesOn hturn _ ih =>
    cases hcourse' with
    | rests hturn' =>
      obtain ⟨⟨⟩, -⟩ := h.agrees hsame hturn hturn'
    | goesOn hturn' hrest' =>
      -- after one turn the two are in the same state, not only in states that are the same
      obtain ⟨-, rfl⟩ := h.agrees hsame hturn hturn'
      exact ih (h.refl _) hrest' hrests

/-- A course that comes to rest passes through what it looks like after any number of turns. -/
theorem course_after (h : Repeats round stopped same) {before : Nat}
    (hbefore : Course (Turns round stopped) before state .cutShort begun)
    (hcourse : Course (Turns round stopped) rounds state ending final)
    (hrests : ending ≠ .cutShort) :
    Course (Turns round stopped) rounds begun ending final := by
  generalize hcut : PlayEnd.cutShort = cut at hbefore
  induction hbefore generalizing rounds with
  | cutShort => exact hcourse
  | rests hturn => exact absurd hcut.symm (h.rests hturn)
  | goesOn hturn _ ih =>
    cases hcourse with
    | cutShort => exact absurd rfl hrests
    | rests hturn' =>
      obtain ⟨⟨⟩, -⟩ := h.agrees (h.refl _) hturn hturn'
    | @goesOn rounds _ _ _ _ hturn' hrest =>
      obtain ⟨-, rfl⟩ := h.agrees (h.refl _) hturn hturn'
      exact (ih hrest hcut).of_le hrests (Nat.le_succ rounds)

/-- **Play can be taken up again.** One run was cut short after some rounds, another one from the
same start came to rest. Then play from a state that makes the same turns as the one reached by the
first comes to the rest of the second, unless it is disturbed. -/
theorem resumes (h : Repeats round stopped same) {before again : Nat}
    {reached : σ} {now world' last' world'' last'' : ω}
    (hbefore : runFor round before state world = (.cutShort, begun, now))
    (hbegun : ¬stopped begun)
    (hplay : runFor round rounds state world' = (.finished, final, last'))
    (hfinal : ¬stopped final) (hsame : same begun other) (hle : rounds ≤ again)
    (hagain : runFor round again other world'' = (ending, reached, last'')) :
    (ending = .finished ∧ reached = final) ∨ Disturbed stopped (some ending) reached := by
  by_cases hquiet : Disturbed stopped (some ending) reached
  · exact .inr hquiet
  · have hfirst : ¬Disturbed stopped (some .cutShort) begun := by
      rintro (⟨error, ⟨⟩⟩ | hstopped)
      exact hbegun hstopped
    have hsecond : ¬Disturbed stopped (some .finished) final := by
      rintro (⟨error, ⟨⟩⟩ | hstopped)
      exact hfinal hstopped
    have hrests : PlayEnd.finished ≠ .cutShort := by decide
    have hrest := h.course_after (h.course_of_runFor hbefore hfirst)
      (h.course_of_runFor hplay hsecond) hrests
    exact .inl (h.course_congr hsame (hrest.of_le hrests hle)
      (h.course_of_runFor hagain hquiet) hrests)

end Repeats

end SelfPlay
