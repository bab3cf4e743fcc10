import Mathlib.Logic.Function.Basic
import Mathlib.Data.List.Basic

/-! Transition systems whose steps may fail. A run is a sequence of actions; the guard
restricts which actions a run may take, and the states of such runs are `ReachableBy` it. -/
namespace TransitionSystem

structure System (σ α ε : Type*) where
  start : σ
  step : σ → α → Except ε σ

variable {σ α ε γ : Type*}

/-- The states of the runs all of whose steps satisfy the guard `G`. -/
inductive System.ReachableBy (M : System σ α ε) (G : σ → α → Prop) : σ → Prop
  | start : M.ReachableBy G M.start
  | step {s t : σ} {a : α} (prior : M.ReachableBy G s) (guard : G s a)
      (move : M.step s a = .ok t) : M.ReachableBy G t

/-- The states of all runs. -/
def System.Reachable (M : System σ α ε) : σ → Prop := M.ReachableBy fun _ _ => True

/-- The system started in the state `s`: its runs are those that go on from `s`. -/
def System.startingAt (M : System σ α ε) (s : σ) : System σ α ε := ⟨s, M.step⟩

namespace System
variable {M : System σ α ε} {G H : σ → α → Prop} {s t : σ}

theorem Reachable.start : M.Reachable M.start := ReachableBy.start

theorem Reachable.next {a : α} (h : M.Reachable s) (hs : M.step s a = .ok t) :
    M.Reachable t := ReachableBy.step h trivial hs

theorem ReachableBy.mono (h : M.ReachableBy G s) (hGH : ∀ s a, G s a → H s a) :
    M.ReachableBy H s := by
  induction h with
  | start => exact .start
  | step _ hg hm ih => exact .step ih (hGH _ _ hg) hm

theorem ReachableBy.reachable (h : M.ReachableBy G s) : M.Reachable s :=
  h.mono fun _ _ _ => trivial

/-- The invariant rule: what holds at the start and is kept by every guarded step from a
state of a guarded run holds in every state of every guarded run. -/
theorem ReachableBy.invariant {P : σ → Prop} (h : M.ReachableBy G s) (h0 : P M.start)
    (hstep : ∀ s a t, M.ReachableBy G s → P s → G s a → M.step s a = .ok t → P t) : P s := by
  induction h with
  | start => exact h0
  | step hr hg hm ih => exact hstep _ _ _ hr ih hg hm

theorem ReachableBy.goesOn (h : (M.startingAt s).ReachableBy G t) (hs : M.Reachable s) :
    M.Reachable t := by
  induction h with
  | start => exact hs
  | step _ _ hm ih => exact .step ih trivial hm

theorem Reachable.invariant {P : σ → Prop} (h : M.Reachable s) (h0 : P M.start)
    (hstep : ∀ s a t, M.Reachable s → P s → M.step s a = .ok t → P t) : P s :=
  ReachableBy.invariant h h0 fun s a t hr hp _ hm => hstep s a t hr hp hm

/-- The error of a step that fails. -/
def failure (M : System σ α ε) (s : σ) (a : α) : Option ε :=
  match M.step s a with
  | .ok _ => none
  | .error e => some e

theorem step_of_failure {a : α} {e : ε} (h : M.failure s a = some e) : M.step s a = .error e := by
  unfold failure at h
  split at h
  · cases h
  · rename_i e' he
    rw [he, Option.some.inj h]

/-- Replay a list of actions from `s`, up to the first that fails or breaks the guard. -/
def replayFrom (M : System σ α ε) (G : σ → α → Prop) [∀ s a, Decidable (G s a)] (s : σ) :
    List α → σ
  | [] => s
  | a :: as =>
    if G s a then
      match M.step s a with
      | .ok t => M.replayFrom G t as
      | .error _ => s
    else s

/-- The state after a step that does not fail, as a replay. -/
theorem step_replayFrom {a : α} (h : M.failure s a = none) :
    M.step s a = .ok (M.replayFrom (fun _ _ => True) s [a]) := by
  cases hs : M.step s a with
  | error e =>
    rw [failure, hs] at h
    cases h
  | ok t => simp [replayFrom, hs]

theorem ReachableBy.replayFrom [∀ s a, Decidable (G s a)] {as : List α}
    (h : M.ReachableBy G s) : M.ReachableBy G (M.replayFrom G s as) := by
  induction as generalizing s with
  | nil => exact h
  | cons a as ih =>
    simp only [System.replayFrom]
    split_ifs with hG
    · split
      · exact ih (h.step hG ‹_›)
      · exact h
    · exact h

/-- Replay a list of actions from the start. -/
def replayBy (M : System σ α ε) (G : σ → α → Prop) [∀ s a, Decidable (G s a)] (as : List α) : σ :=
  M.replayFrom G M.start as

def replay (M : System σ α ε) (as : List α) : σ := M.replayBy (fun _ _ => True) as

theorem reachableBy_replayBy [∀ s a, Decidable (G s a)] (as : List α) :
    M.ReachableBy G (M.replayBy G as) := ReachableBy.replayFrom .start

theorem reachable_replay (as : List α) : M.Reachable (M.replay as) := reachableBy_replayBy as

end System

/-- A system together with a record that is kept on the side and never read by a step. -/
def System.withRecord (M : System σ α ε) (g0 : γ) (g : σ → α → σ → γ → γ) :
    System (σ × γ) α ε where
  start := (M.start, g0)
  step x a := (M.step x.1 a).map fun t => (t, g x.1 a t x.2)

namespace System
variable {M : System σ α ε} {g0 : γ} {g : σ → α → σ → γ → γ}

theorem withRecord_step {x y : σ × γ} {a : α} :
    (M.withRecord g0 g).step x a = .ok y ↔
      M.step x.1 a = .ok y.1 ∧ y.2 = g x.1 a y.1 x.2 := by
  obtain ⟨t, r⟩ := y
  simp only [withRecord]
  cases M.step x.1 a with
  | error e => simp [Except.map]
  | ok u =>
    simp only [Except.map, Except.ok.injEq, Prod.mk.injEq]
    constructor
    · rintro ⟨rfl, rfl⟩
      exact ⟨rfl, rfl⟩
    · rintro ⟨rfl, rfl⟩
      exact ⟨rfl, rfl⟩

/-- Forgetting the record of a run of the extended system leaves a run of the system. -/
theorem withRecord_reachable {x : σ × γ} (h : (M.withRecord g0 g).Reachable x) :
    M.Reachable x.1 :=
  h.invariant (P := fun x => M.Reachable x.1) Reachable.start
    fun _ _ _ _ hp hm => hp.next (withRecord_step.mp hm).1

end System
end TransitionSystem
