import Mathlib

/-- A deterministic machine driven by events: a step may be disabled, and says
what an observer sees of it. -/
structure Machine (σ ε ω : Type) where
  init : σ → Prop
  step : σ → ε → Option (σ × List ω)

namespace Machine
variable {σ ε ω : Type} {M : Machine σ ε ω}

/-- The states reached by runs whose every step meets the guard, each with
everything observed since the start of its run. -/
inductive Reach (M : Machine σ ε ω) (guard : σ → List ω → ε → Prop) : σ → List ω → Prop
  | start {s} : M.init s → Reach M guard s []
  | next {s log e s' out} : Reach M guard s log → guard s log e → M.step s e = some (s', out) →
      Reach M guard s' (log ++ out)

/-- The guard that every step meets. -/
def always : σ → List ω → ε → Prop := fun _ _ _ => True

/-- What holds at the start and survives every guarded step holds throughout. -/
theorem Reach.invariant {guard : σ → List ω → ε → Prop} {I : σ → List ω → Prop}
    (first : ∀ s, M.init s → I s [])
    (keep : ∀ s log e s' out, I s log → guard s log e → M.step s e = some (s', out) → I s' (log ++ out))
    {s : σ} {log : List ω} (reach : M.Reach guard s log) : I s log := by
  induction reach with
  | start init => exact first _ init
  | next _ ok run ih => exact keep _ _ _ _ _ ih ok run

/-- Where every step of a machine is a step of another one, or nothing to it, its
runs are runs of the other. -/
theorem Reach.project {τ δ υ : Type} {N : Machine τ δ υ} {guard : σ → List ω → ε → Prop}
    {guard' : τ → List υ → δ → Prop} (state : σ → τ) (view : ω → υ) (first : ∀ s, M.init s → N.init (state s))
    (keep : ∀ s log e s' out, N.Reach guard' (state s) (log.map view) → guard s log e →
      M.step s e = some (s', out) → (state s' = state s ∧ out = []) ∨
        ∃ e', guard' (state s) (log.map view) e' ∧ N.step (state s) e' = some (state s', out.map view))
    {s : σ} {log : List ω} (reach : M.Reach guard s log) : N.Reach guard' (state s) (log.map view) := by
  induction reach with
  | start init => exact .start (first _ init)
  | next _ ok run ih =>
    rcases keep _ _ _ _ _ ih ok run with ⟨same, rfl⟩ | ⟨e', ok', run'⟩
    · rwa [same, List.append_nil]
    · rw [List.map_append]
      exact .next ih ok' run'

/-- Run a list of events that are all allowed, collecting what is observed. -/
def exec (M : Machine σ ε ω) (allowed : σ → ε → Bool) : σ → List ε → Option (σ × List ω)
  | s, [] => some (s, [])
  | s, e :: rest =>
    if allowed s e then
      match M.step s e with
      | none => none
      | some (s', out) =>
        match exec M allowed s' rest with
        | none => none
        | some (s'', later) => some (s'', out ++ later)
    else none

theorem Reach.exec {guard : σ → List ω → ε → Prop} {allowed : σ → ε → Bool} {s s' : σ} {log out : List ω}
    {events : List ε} (meets : ∀ s log e, allowed s e = true → guard s log e) (reach : M.Reach guard s log)
    (run : M.exec allowed s events = some (s', out)) : M.Reach guard s' (log ++ out) := by
  induction events generalizing s log out with
  | nil =>
    obtain ⟨rfl, rfl⟩ := Prod.mk.inj (Option.some.inj run)
    simpa using reach
  | cons e rest ih =>
    simp only [Machine.exec] at run
    split at run
    swap
    · cases run
    next may =>
      split at run
      · cases run
      · next mid seen step =>
        split at run
        · cases run
        · next last later tail =>
          obtain ⟨rfl, rfl⟩ := Prod.mk.inj (Option.some.inj run)
          rw [← List.append_assoc]
          exact ih (.next reach (meets _ _ _ may) step) tail

/-- What a check finds at the end of a run holds of a state that is reached. -/
theorem exists_reach (guard : σ → List ω → ε → Prop) (allowed : σ → ε → Bool) (s : σ) (events : List ε)
    (check : σ × List ω → Bool) (meets : ∀ s log e, allowed s e = true → guard s log e) (first : M.init s)
    (checked : (M.exec allowed s events).any check = true) :
    ∃ s' log, M.Reach guard s' log ∧ check (s', log) = true := by
  obtain ⟨⟨s', log⟩, run, holds⟩ := (Option.any_eq_true _ _).mp checked
  exact ⟨s', log, Reach.exec meets (.start first) run, holds⟩

/-- The same machine, with all that was observed in its state. -/
def logged (M : Machine σ ε ω) : Machine (σ × List ω) ε ω where
  init s := M.init s.1 ∧ s.2 = []
  step s e := (M.step s.1 e).map fun r => ((r.1, s.2 ++ r.2), r.2)

theorem Reach.of_logged {guard : σ → List ω → ε → Prop} {s : σ × List ω} {log : List ω}
    (reach : M.logged.Reach (fun s _ e => guard s.1 s.2 e) s log) : s.2 = log ∧ M.Reach guard s.1 log := by
  induction reach with
  | start first => exact ⟨first.2, .start first.1⟩
  | next _ ok run ih =>
    obtain ⟨⟨s', out⟩, step, same⟩ := Option.map_eq_some_iff.mp run
    obtain ⟨rfl, rfl⟩ := Prod.mk.inj same
    obtain ⟨rfl, before⟩ := ih
    exact ⟨rfl, before.next ok step⟩

/-- One step of a run: where it was taken, by which event, and what was observed. -/
structure Taken (σ ε ω : Type) where
  before : σ
  event : ε
  seen : List ω

/-- The same machine, observed step by step. -/
def traced (M : Machine σ ε ω) : Machine σ ε (Taken σ ε ω) where
  init := M.init
  step s e := (M.step s e).map fun r => (r.1, [⟨s, e, r.2⟩])

/-- Everything that was observed in the steps of a run. -/
def observed (trace : List (Taken σ ε ω)) : List ω := trace.flatMap Taken.seen

theorem step_traced {s s' : σ} {e : ε} {entries : List (Taken σ ε ω)} :
    M.traced.step s e = some (s', entries) ↔ ∃ out, M.step s e = some (s', out) ∧ entries = [⟨s, e, out⟩] := by
  simp only [traced, Option.map_eq_some_iff, Prod.mk.injEq, Prod.exists]
  constructor
  · rintro ⟨_, out, run, rfl, rfl⟩
    exact ⟨out, run, rfl⟩
  · rintro ⟨out, run, rfl⟩
    exact ⟨s', out, run, rfl, rfl⟩

/-- Every front part of a trace is the trace of a run, and its last step one of its steps. -/
theorem Reach.front {guard : σ → ε → Prop} {s : σ} {trace front back : List (Taken σ ε ω)}
    {last : Taken σ ε ω} (reach : M.traced.Reach (fun s _ e => guard s e) s trace)
    (split : trace = front ++ last :: back) :
    M.traced.Reach (fun s _ e => guard s e) last.before front ∧ guard last.before last.event ∧
      ∃ s', M.step last.before last.event = some (s', last.seen) := by
  induction reach generalizing front last back with
  | start => simp at split
  | @next s' trace e s'' entries before ok run ih =>
    obtain ⟨out, step, rfl⟩ := step_traced.mp run
    rcases List.append_eq_append_iff.mp split with ⟨mid, rfl, tail⟩ | ⟨mid, rfl, tail⟩
    · cases mid with
      | nil =>
        simp only [List.nil_append, List.cons.injEq] at tail
        obtain ⟨rfl, _⟩ := tail
        rw [List.append_nil]
        exact ⟨before, ok, s'', step⟩
      | cons _ _ => simp at tail
    · cases mid with
      | nil =>
        simp only [List.nil_append, List.cons.injEq] at tail
        obtain ⟨rfl, _⟩ := tail
        rw [List.append_nil] at before
        exact ⟨before, ok, s'', step⟩
      | cons m ms =>
        obtain ⟨rfl, _⟩ := List.cons.inj tail
        exact ih rfl

/-- Runs from a given state, with the steps that they take. -/
inductive Steps (M : Machine σ ε ω) (guard : σ → ε → Prop) (s : σ) : List (Taken σ ε ω) → σ → Prop
  | refl : Steps M guard s [] s
  | step {trace s' e s'' out} : Steps M guard s trace s' → guard s' e → M.step s' e = some (s'', out) →
      Steps M guard s (trace ++ [⟨s', e, out⟩]) s''

theorem observed_concat (trace : List (Taken σ ε ω)) (s : σ) (e : ε) (out : List ω) :
    observed (trace ++ [⟨s, e, out⟩]) = observed trace ++ out := by
  simp [observed]

/-- A run from a state that is reached reaches what it leads to. -/
theorem Reach.steps {guard : σ → ε → Prop} {s s' : σ} {log : List ω} {trace : List (Taken σ ε ω)}
    (reach : M.Reach (fun s _ e => guard s e) s log) (steps : M.Steps guard s trace s') :
    M.Reach (fun s _ e => guard s e) s' (log ++ observed trace) := by
  induction steps with
  | refl => rwa [observed, List.flatMap_nil, List.append_nil]
  | step _ ok run ih =>
    rw [observed_concat, ← List.append_assoc]
    exact ih.next ok run

/-- Every step of a run from a state that is reached is taken in a state that is reached. -/
theorem Reach.taken {guard : σ → ε → Prop} {s s' : σ} {log : List ω} {trace : List (Taken σ ε ω)}
    {taken : Taken σ ε ω} (reach : M.Reach (fun s _ e => guard s e) s log) (steps : M.Steps guard s trace s')
    (member : taken ∈ trace) : ∃ log, M.Reach (fun s _ e => guard s e) taken.before log := by
  induction steps with
  | refl => cases member
  | step steps _ _ ih =>
    rcases List.mem_append.mp member with earlier | last
    · exact ih earlier
    · obtain rfl := List.mem_singleton.mp last
      exact ⟨_, reach.steps steps⟩

/-- Run a list of events that are all allowed, noting the steps taken. -/
def follow (M : Machine σ ε ω) (allowed : σ → ε → Bool) :
    σ → List (Taken σ ε ω) → List ε → Option (List (Taken σ ε ω) × σ)
  | s, trace, [] => some (trace, s)
  | s, trace, e :: rest =>
    if allowed s e then
      match M.step s e with
      | none => none
      | some (s', out) => follow M allowed s' (trace ++ [⟨s, e, out⟩]) rest
    else none

theorem Steps.follow {guard : σ → ε → Prop} {allowed : σ → ε → Bool} {s s' s'' : σ}
    {trace trace' : List (Taken σ ε ω)} {events : List ε} (meets : ∀ s e, allowed s e = true → guard s e)
    (steps : M.Steps guard s trace s') (run : M.follow allowed s' trace events = some (trace', s'')) :
    M.Steps guard s trace' s'' := by
  induction events generalizing s' trace with
  | nil =>
    obtain ⟨rfl, rfl⟩ := Prod.mk.inj (Option.some.inj run)
    exact steps
  | cons e rest ih =>
    simp only [Machine.follow] at run
    split at run
    swap
    · cases run
    next may =>
      split at run
      · cases run
      · next step => exact ih (steps.step (meets _ _ may) step) run

end Machine
