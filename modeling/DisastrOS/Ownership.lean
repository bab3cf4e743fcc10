import Mathlib.Algebra.BigOperators.Group.Finset.Basic
import Mathlib.Data.Finset.Union

/-! Objects that are held by their owners. Every object in use is in the list of its owner, and
an owner that does not live holds nothing. -/
namespace Ownership

variable {Own Obj : Type*}

/-- The objects of several owners, none of which two of them have, are as many as their lists are
long together. -/
theorem card_eq_sum_length [DecidableEq Obj] {objs : Finset Obj} {owners : Finset Own}
    {held : Own → List Obj} (hmem : ∀ d, d ∈ objs ↔ ∃ b ∈ owners, d ∈ held b)
    (hnodup : ∀ b, (held b).Nodup) (hdisjoint : ∀ b c d, d ∈ held b → d ∈ held c → b = c) :
    objs.card = ∑ b ∈ owners, (held b).length := by
  have hunion : objs = owners.biUnion fun b => (held b).toFinset := by
    ext d
    simp [hmem]
  rw [hunion, Finset.card_biUnion]
  · exact Finset.sum_congr rfl fun b _ => List.toFinset_card_of_nodup (hnodup b)
  · intro b _ c _ hbc
    refine Finset.disjoint_left.mpr fun d hdb hdc => hbc ?_
    exact hdisjoint b c d (List.mem_toFinset.mp hdb) (List.mem_toFinset.mp hdc)

structure Held (alive : Own → Prop) (inUse : Obj → Prop) (owner : Obj → Own)
    (held : Own → List Obj) : Prop where
  mem : ∀ d, inUse d → d ∈ held (owner d)
  none : ∀ b, alive b ∨ held b = []

namespace Held
variable {alive alive' : Own → Prop} {inUse inUse' : Obj → Prop} {owner owner' : Obj → Own}
  {held held' : Own → List Obj} {d : Obj} {p b : Own}

/-- The owner of an object in use lives. -/
theorem alive_owner (h : Held alive inUse owner held) (hd : inUse d) : alive (owner d) := by
  refine (h.none (owner d)).resolve_right fun hnil => ?_
  have := h.mem d hd
  rw [hnil] at this
  cases this

theorem eq_nil (h : Held alive inUse owner held) (hb : ¬ alive b) : held b = [] :=
  (h.none b).resolve_left hb

/-- No object changes hands, and owners end their lives with nothing in their hands. -/
theorem congr (h : Held alive inUse owner held) (halive : ∀ b, alive b → alive' b ∨ held' b = [])
    (hinUse : ∀ d, inUse' d → inUse d) (howner : ∀ d, inUse d → owner' d = owner d)
    (hheld : ∀ b, held' b = held b) : Held alive' inUse' owner' held' := by
  constructor
  · intro d hd
    rw [howner d (hinUse d hd), hheld]
    exact h.mem d (hinUse d hd)
  · intro b
    rcases h.none b with hb | hb
    · exact halive b hb
    · exact Or.inr ((hheld b).trans hb)

/-- The living owner `p` takes the new object `d`. -/
theorem take (h : Held alive inUse owner held) [DecidableEq Own] [DecidableEq Obj]
    (hp : alive p) (hinUse : ∀ k, inUse' k → inUse k ∨ k = d)
    (howner : ∀ k, owner' k = if k = d then p else owner k)
    (hheld : ∀ k, held' k = if k = p then held p ++ [d] else held k) :
    Held alive inUse' owner' held' := by
  constructor
  · intro k hk
    rw [howner, hheld]
    by_cases hkd : k = d
    · simp [hkd]
    · have hmem := h.mem k ((hinUse k hk).resolve_right hkd)
      rw [if_neg hkd]
      split_ifs with hkp
      · rw [hkp] at hmem
        exact List.mem_append_left _ hmem
      · exact hmem
  · intro k
    rw [hheld]
    split_ifs with hkp
    · exact Or.inl (hkp ▸ hp)
    · exact h.none k

/-- The owner `p` gives the object `d` back. -/
theorem giveBack (h : Held alive inUse owner held) [DecidableEq Own] [DecidableEq Obj]
    (hinUse : ∀ k, inUse' k → inUse k ∧ k ≠ d) (howner : ∀ k, owner' k = owner k)
    (hheld : ∀ k, held' k = if k = p then (held p).erase d else held k) :
    Held alive inUse' owner' held' := by
  constructor
  · intro k hk
    obtain ⟨hk, hkd⟩ := hinUse k hk
    have hmem := h.mem k hk
    rw [howner, hheld]
    split_ifs with hkp
    · rw [hkp] at hmem
      exact (List.mem_erase_of_ne hkd).mpr hmem
    · exact hmem
  · intro k
    rw [hheld]
    split_ifs with hkp
    · exact (h.none p).imp (fun hp => hkp ▸ hp) fun hnil => by rw [hnil, List.erase_nil]
    · exact h.none k

end Held
end Ownership
