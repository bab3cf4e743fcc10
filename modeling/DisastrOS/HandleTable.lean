import Mathlib.Data.List.Find
import Mathlib.Logic.Function.Basic

/-! Objects that have names, and owners that hold them by handles. -/
namespace HandleTable

/-- The objects there are, with their names and attributes, and for each owner its handles and the
objects they stand for, the oldest first. -/
@[ext] structure Table (π η κ ν τ : Type*) where
  object : κ → Option (ν × τ)
  held : π → List (η × κ)

/-- An owner takes an object under a handle, and releases the first that has the handle, or drops
everything. -/
inductive Op (π η κ ν τ : Type*)
  | create (k : κ) (n : ν) (a : τ)
  | destroy (k : κ)
  | take (p : π) (h : η) (k : κ)
  | release (p : π) (h : η)
  | drop (p : π)

namespace Table
variable {π η κ ν τ : Type*} [DecidableEq π] [DecidableEq η] [DecidableEq κ]
variable {T U : Table π η κ ν τ} {op : Op π η κ ν τ} {ops : List (Op π η κ ν τ)}
variable {p : π} {h : η} {k : κ}

/-- What the owner means by the handle. -/
def lookup (T : Table π η κ ν τ) (p : π) (h : η) : Option κ :=
  ((T.held p).find? fun e => e.1 = h).map Prod.snd

/-- A name is given once at a time, what is destroyed is not held, and what is taken is there. -/
def Allows (T : Table π η κ ν τ) : Op π η κ ν τ → Prop
  | .create k n _ => T.object k = none ∧ ∀ k' e, T.object k' = some e → e.1 ≠ n
  | .destroy k => ∀ p, ∀ e ∈ T.held p, e.2 ≠ k
  | .take _ _ k => T.object k ≠ none
  | .release p h => T.lookup p h ≠ none
  | .drop _ => True

def perform (T : Table π η κ ν τ) : Op π η κ ν τ → Table π η κ ν τ
  | .create k n a => { T with object := Function.update T.object k (some (n, a)) }
  | .destroy k => { T with object := Function.update T.object k none }
  | .take p h k => { T with held := Function.update T.held p (T.held p ++ [(h, k)]) }
  | .release p h =>
    { T with held := Function.update T.held p ((T.held p).eraseP fun e => e.1 = h) }
  | .drop p => { T with held := Function.update T.held p [] }

/-- The operations lead from `T` to `U`, and each is allowed where it is performed. -/
inductive Performs : Table π η κ ν τ → List (Op π η κ ν τ) → Table π η κ ν τ → Prop
  | nil (T : Table π η κ ν τ) : Performs T [] T
  | cons {T U : Table π η κ ν τ} {op : Op π η κ ν τ} {ops : List (Op π η κ ν τ)}
      (allowed : T.Allows op) (rest : Performs (T.perform op) ops U) : Performs T (op :: ops) U

theorem Performs.one (ha : T.Allows op) : Performs T [op] (T.perform op) := .cons ha (.nil _)

/-- What is held is there, and names tell objects apart. -/
structure Sound (T : Table π η κ ν τ) : Prop where
  exist : ∀ p, ∀ e ∈ T.held p, T.object e.2 ≠ none
  named : ∀ k e k' e', T.object k = some e → T.object k' = some e' → e.1 = e'.1 → k = k'

/-- The operation ends what the owner means by the handle. -/
def Ends (p : π) (h : η) : Op π η κ ν τ → Prop
  | .release p' h' => p' = p ∧ h' = h
  | .drop p' => p' = p
  | _ => False

omit [DecidableEq π] [DecidableEq κ] in
theorem mem_held_of_lookup (hl : T.lookup p h = some k) : (h, k) ∈ T.held p := by
  obtain ⟨e, he, rfl⟩ := Option.map_eq_some_iff.mp hl
  have hh : e.1 = h := by simpa using List.find?_some he
  exact hh ▸ List.mem_of_find?_eq_some he

/-- Only a take adds to what an owner holds. -/
theorem mem_held_perform {e : η × κ} (hm : e ∈ (T.perform op).held p) :
    e ∈ T.held p ∨ op = .take p e.1 e.2 := by
  cases op with
  | create k n a | destroy k => exact Or.inl hm
  | take p' h k =>
    by_cases hp : p = p'
    · subst hp
      simp only [perform, Function.update_self, List.mem_append, List.mem_singleton] at hm
      exact hm.imp id fun he => by rw [he]
    · exact Or.inl (by simpa [perform, hp] using hm)
  | release p' h =>
    by_cases hp : p = p'
    · subst hp
      simp only [perform, Function.update_self] at hm
      exact Or.inl (List.mem_of_mem_eraseP hm)
    · exact Or.inl (by simpa [perform, hp] using hm)
  | drop p' =>
    by_cases hp : p = p'
    · simp [perform, hp] at hm
    · exact Or.inl (by simpa [perform, hp] using hm)

/-- What is held is not destroyed, and not made a second time. -/
theorem Sound.object_perform {e : η × κ} (hs : T.Sound) (ha : T.Allows op) (he : e ∈ T.held p) :
    (T.perform op).object e.2 = T.object e.2 := by
  cases op with
  | create k n a =>
    refine Function.update_of_ne (fun hk => hs.exist p e he ?_) _ _
    rw [hk]
    exact ha.1
  | destroy k => exact Function.update_of_ne (ha p e he) _ _
  | take p' h k | release p' h | drop p' => rfl

theorem Sound.perform (hs : T.Sound) (ha : T.Allows op) : (T.perform op).Sound := by
  constructor
  case exist =>
    intro p e he
    rcases mem_held_perform he with he | rfl
    · rw [hs.object_perform ha he]
      exact hs.exist p e he
    · exact ha
  case named =>
    intro k e k' e' hk hk' hn
    cases op with
    | create l n a =>
      simp only [Table.perform, Function.update_apply] at hk hk'
      split_ifs at hk hk' with h1 h2 h2
      · rw [h1, h2]
      · cases hk
        exact absurd hn.symm (ha.2 k' e' hk')
      · cases hk'
        exact absurd hn (ha.2 k e hk)
      · exact hs.named k e k' e' hk hk' hn
    | destroy l =>
      simp only [Table.perform, Function.update_apply] at hk hk'
      split_ifs at hk hk'
      exact hs.named k e k' e' hk hk' hn
    | take p' h l | release p' h | drop p' => exact hs.named k e k' e' hk hk' hn

/-- An item of another kind is found as before when one is erased. -/
theorem find?_eraseP {α : Type*} {q r : α → Bool} (hqr : ∀ a, q a = true → r a = false)
    (l : List α) : (l.eraseP q).find? r = l.find? r := by
  induction l with
  | nil => rfl
  | cons a l ih =>
    by_cases hq : q a = true
    · rw [List.eraseP_cons_of_pos hq, List.find?_cons_of_neg (by simp [hqr a hq])]
    · rw [List.eraseP_cons_of_neg hq, List.find?_cons, List.find?_cons, ih]

theorem lookup_perform (hl : T.lookup p h = some k) (hn : ¬ Ends p h op) :
    (T.perform op).lookup p h = some k := by
  cases op with
  | create l n a | destroy l => exact hl
  | take p' h' l =>
    by_cases hp : p = p'
    · subst hp
      obtain ⟨e, he, rfl⟩ := Option.map_eq_some_iff.mp hl
      simp [lookup, perform, he]
    · simpa [lookup, perform, hp] using hl
  | release p' h' =>
    by_cases hp : p = p'
    · subst hp
      have hh : h' ≠ h := fun hh => hn ⟨rfl, hh⟩
      simp only [lookup, perform, Function.update_self]
      rw [find?_eraseP]
      · exact hl
      · simp only [decide_eq_true_eq, decide_eq_false_iff_not]
        exact fun e he he' => hh (he.symm.trans he')
    · simpa [lookup, perform, hp] using hl
  | drop p' =>
    have hp : p ≠ p' := fun hp => hn hp.symm
    simpa [lookup, perform, hp] using hl

theorem Performs.head (hp : Performs T (op :: ops) U) : T.Allows op := by
  cases hp with
  | cons allowed rest => exact allowed

/-- An object that is there afterwards and was not made meanwhile is the one from before. -/
theorem Performs.object_kept (hp : Performs T ops U) (hc : ∀ n a, Op.create k n a ∉ ops)
    (hU : U.object k ≠ none) : U.object k = T.object k := by
  induction hp with
  | nil T => rfl
  | @cons T U op ops allowed rest ih =>
    rw [ih (fun n a hm => hc n a (List.mem_cons_of_mem _ hm)) hU]
    cases op with
    | create l n a =>
      refine Function.update_of_ne (fun hkl => hc n a ?_) _ _
      rw [hkl]
      exact List.mem_cons_self
    | destroy l =>
      refine Function.update_of_ne (fun hkl => hU ?_) _ _
      rw [ih (fun n a hm => hc n a (List.mem_cons_of_mem _ hm)) hU, hkl]
      exact Function.update_self ..
    | take p h l | release p h | drop p => rfl

theorem Performs.sound (hp : Performs T ops U) (hs : T.Sound) : U.Sound := by
  induction hp with
  | nil T => exact hs
  | cons allowed rest ih => exact ih (hs.perform allowed)

/-- A handle keeps its meaning as long as its owner neither releases it nor drops everything,
whatever the others do. -/
theorem Performs.lookup (hp : Performs T ops U) (hs : T.Sound) (hl : T.lookup p h = some k)
    (hn : ∀ op ∈ ops, ¬ Ends p h op) : U.lookup p h = some k ∧ U.object k = T.object k := by
  induction hp with
  | nil T => exact ⟨hl, rfl⟩
  | cons allowed rest ih =>
    obtain ⟨hop, hops⟩ := List.forall_mem_cons.mp hn
    obtain ⟨hl', ho⟩ := ih (hs.perform allowed) (lookup_perform hl hop) hops
    exact ⟨hl', ho.trans (hs.object_perform allowed (mem_held_of_lookup hl))⟩

end Table
end HandleTable
