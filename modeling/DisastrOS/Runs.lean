import Mathlib.Data.List.Infix
import Mathlib.Data.List.Count
import DisastrOS.TransitionSystem

/-! Runs of a transition system along a list of actions, what they yield on their way, and the
rule by which they come to a goal. -/
namespace TransitionSystem
namespace System

variable {σ α ε β : Type*} {M : System σ α ε} {s t u : σ} {a : α} {as : List α}

/-- Take the actions one after the other, from `s` on. -/
def runFrom (M : System σ α ε) (s : σ) : List α → Except ε σ
  | [] => .ok s
  | a :: as =>
    match M.step s a with
    | .ok t => M.runFrom t as
    | .error e => .error e

/-- On its way from `s` along `as` the run comes to a state with the property `P`. -/
def Passes (M : System σ α ε) (s : σ) (as : List α) (P : σ → Prop) : Prop :=
  ∃ before t, before <+: as ∧ M.runFrom s before = .ok t ∧ P t

/-- Every action of the run meets the guard where it is taken. -/
def guarded (M : System σ α ε) (G : σ → α → Prop) [∀ s a, Decidable (G s a)] (s : σ) :
    List α → Bool
  | [] => true
  | a :: as => decide (G s a) &&
    match M.step s a with
    | .ok t => M.guarded G t as
    | .error _ => true

/-- What the steps of the run yield, in order. -/
def yields (M : System σ α ε) (f : σ → α → σ → List β) (s : σ) : List α → List β
  | [] => []
  | a :: as =>
    match M.step s a with
    | .ok t => f s a t ++ M.yields f t as
    | .error _ => []

theorem runFrom_cons : M.runFrom s (a :: as) = .ok u ↔
    ∃ t, M.step s a = .ok t ∧ M.runFrom t as = .ok u := by
  cases h : M.step s a with
  | error e => simp [runFrom, h]
  | ok t => simp [runFrom, h]

theorem yields_cons {f : σ → α → σ → List β} (h : M.step s a = .ok t) :
    M.yields f s (a :: as) = f s a t ++ M.yields f t as := by
  simp [yields, h]

theorem guarded_cons {G : σ → α → Prop} [∀ s a, Decidable (G s a)] (h : M.step s a = .ok t) :
    M.guarded G s (a :: as) = true ↔ G s a ∧ M.guarded G t as = true := by
  simp [guarded, h]

theorem guarded_free : M.guarded (fun _ _ => True) s as = true := by
  induction as generalizing s with
  | nil => rfl
  | cons a as ih =>
    cases h : M.step s a with
    | error e => simp [guarded, h]
    | ok t => simp [guarded, h, ih]

/-- The state after a run that does not fail, as a replay. -/
theorem runFrom_replayFrom (h : (M.runFrom s as).isOk = true) :
    M.runFrom s as = .ok (M.replayFrom (fun _ _ => True) s as) := by
  induction as generalizing s with
  | nil => rfl
  | cons a as ih =>
    cases hs : M.step s a with
    | error e =>
      simp only [runFrom, hs] at h
      cases h
    | ok t =>
      simp only [runFrom, hs] at h ⊢
      simp only [replayFrom, hs, if_true, ih h]

/-- What the steps of a run keep holds at its end. -/
theorem runFrom_guarded {G : σ → α → Prop} [∀ s a, Decidable (G s a)] {P : σ → Prop}
    (h : M.runFrom s as = .ok t) (hG : M.guarded G s as = true) (hs : P s)
    (hstep : ∀ s a t, P s → G s a → M.step s a = .ok t → P t) : P t := by
  induction as generalizing s with
  | nil => exact Except.ok.inj h ▸ hs
  | cons a as ih =>
    obtain ⟨v, hv, ht⟩ := runFrom_cons.mp h
    obtain ⟨hGs, hGv⟩ := (guarded_cons hv).mp hG
    exact ih ht hGv (hstep s a v hs hGs hv)

theorem Passes.now {P : σ → Prop} (h : P s) : M.Passes s as P :=
  ⟨[], s, List.nil_prefix, rfl, h⟩

theorem Passes.later {P : σ → Prop} (hs : M.step s a = .ok t) (h : M.Passes t as P) :
    M.Passes s (a :: as) P := by
  obtain ⟨before, v, hpre, hv, hP⟩ := h
  exact ⟨a :: before, v, List.cons_prefix_cons.mpr ⟨rfl, hpre⟩, runFrom_cons.mpr ⟨t, hs, hv⟩, hP⟩

/-- The actions of a kind that a run takes, counted. -/
theorem length_yields_countP {Q : α → Bool} (h : M.runFrom s as = .ok u) :
    (M.yields (fun _ a _ => if Q a then [a] else []) s as).length = as.countP Q := by
  induction as generalizing s with
  | nil => rfl
  | cons a as ih =>
    obtain ⟨t, ht, hu⟩ := runFrom_cons.mp h
    rw [yields_cons ht, List.length_append, ih hu, List.countP_cons]
    split_ifs
    · rw [List.length_singleton, Nat.add_comm]
    · rw [List.length_nil, Nat.zero_add, Nat.add_zero]

/-- The progress rule: no step raises the measure and every action of the kind `Q` lowers it,
unless the goal is there, so a run with more such actions than the measure comes to the goal. -/
theorem passes_of_measure {G : σ → α → Prop} [∀ s a, Decidable (G s a)] {P goal : σ → Prop}
    {μ : σ → ℕ} {Q : σ → α → Bool}
    (hstep : ∀ s a t, P s → G s a → M.step s a = .ok t →
      goal t ∨ P t ∧ μ t + (if Q s a then 1 else 0) ≤ μ s)
    (h : M.runFrom s as = .ok u) (hG : M.guarded G s as = true) (hs : P s)
    (hlong : μ s < (M.yields (fun s a _ => if Q s a then [a] else []) s as).length) :
    M.Passes s as goal := by
  induction as generalizing s with
  | nil => simp [yields] at hlong
  | cons a as ih =>
    obtain ⟨t, ht, hu⟩ := runFrom_cons.mp h
    obtain ⟨hGs, hGt⟩ := (guarded_cons ht).mp hG
    rcases hstep s a t hs hGs ht with hgoal | ⟨hP, hμ⟩
    · exact .later ht (.now hgoal)
    · refine .later ht (ih hu hGt hP ?_)
      rw [yields_cons ht, List.length_append] at hlong
      split_ifs at hlong hμ
      · rw [List.length_singleton] at hlong
        omega
      · rw [List.length_nil] at hlong
        omega

/-- The progress rule where the kind of an action does not depend on the state. -/
theorem passes_of_count {P goal : σ → Prop} {μ : σ → ℕ} {Q : α → Bool}
    (hstep : ∀ s a t, P s → M.step s a = .ok t →
      goal t ∨ P t ∧ μ t + (if Q a then 1 else 0) ≤ μ s)
    (h : M.runFrom s as = .ok u) (hs : P s) (hlong : μ s < as.countP Q) :
    M.Passes s as goal := by
  refine passes_of_measure (Q := fun _ => Q) (fun s a t hP _ hm => hstep s a t hP hm) h guarded_free hs ?_
  rwa [length_yields_countP h]

/-- The ledger rule: what leaves in a step is taken from the front and what comes is put at the
back, so what has left and what is there are what was there and what has come. -/
theorem yields_ledger {P : σ → Prop} {held : σ → List β} {left came : σ → α → σ → List β}
    (hstep : ∀ s a t, P s → M.step s a = .ok t →
      P t ∧ left s a t ++ held t = held s ++ came s a t)
    (h : M.runFrom s as = .ok u) (hs : P s) :
    M.yields left s as ++ held u = held s ++ M.yields came s as := by
  induction as generalizing s with
  | nil =>
    obtain rfl := Except.ok.inj h
    simp [yields]
  | cons a as ih =>
    obtain ⟨t, ht, hu⟩ := runFrom_cons.mp h
    obtain ⟨hP, hled⟩ := hstep s a t hs ht
    rw [yields_cons ht, yields_cons ht, List.append_assoc, ih hu hP, ← List.append_assoc, hled,
      List.append_assoc]

end System
end TransitionSystem
