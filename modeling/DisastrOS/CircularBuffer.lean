import Mathlib.Data.List.Count
import Mathlib.Data.Nat.ModEq

/-! A buffer of `n` slots that is filled and emptied around in the same order. -/
namespace CircularBuffer

/-- The slots of the first `m` items. -/
def slots (n m : ℕ) : List ℕ := (List.range m).map (· % n)

variable {n m c k j : ℕ}

theorem slots_succ (n m : ℕ) : slots n (m + 1) = slots n m ++ [m % n] := by
  rw [slots, List.range_succ, List.map_append]
  rfl

theorem slots_prefix (h : c ≤ m) : slots n c <+: slots n m := by
  induction m with
  | zero =>
    obtain rfl : c = 0 := by omega
    exact List.prefix_rfl
  | succ m ih =>
    by_cases hc : c = m + 1
    · exact hc ▸ List.prefix_rfl
    · rw [slots_succ]
      exact (ih (by omega)).trans (List.prefix_append _ _)

/-- Items that do not come to the slot `j` do not count for it. -/
theorem count_add (h : ∀ i < k, (c + i) % n ≠ j) :
    (slots n (c + k)).count j = (slots n c).count j := by
  induction k with
  | zero => rfl
  | succ k ih =>
    have hne : (c + k) % n ≠ j := h k (by omega)
    have hk := ih fun i hi => h i (by omega)
    rw [← Nat.add_assoc, slots_succ, List.count_append, hk, List.count_singleton]
    simp [hne]

/-- Two numbers that are less than `n` apart come to different slots. -/
theorem mod_ne (h : c < m) (hn : m < c + n) : c % n ≠ m % n := by
  intro he
  have hdvd : n ∣ m - c := (Nat.modEq_iff_dvd' h.le).mp he
  have hle := Nat.le_of_dvd (by omega) hdvd
  omega

/-- The slot of item `m` has been emptied as often as filled, if less than `n` items lie in the
buffer. -/
theorem count_eq (h : c ≤ m) (hn : m < c + n) :
    (slots n m).count (m % n) = (slots n c).count (m % n) := by
  obtain ⟨k, rfl⟩ := Nat.exists_eq_add_of_le h
  exact count_add fun i hi => mod_ne (by omega) (by omega)

/-- The slot of item `c` has been filled once more than emptied, if item `c` lies in the buffer. -/
theorem count_eq_succ (h : c < m) (hn : m ≤ c + n) :
    (slots n m).count (c % n) = (slots n c).count (c % n) + 1 := by
  obtain ⟨k, rfl⟩ := Nat.exists_eq_add_of_le (Nat.succ_le_of_lt h)
  have hlater : ∀ i < k, (c.succ + i) % n ≠ c % n := fun i hi =>
    (mod_ne (by omega) (by omega)).symm
  rw [count_add hlater, slots_succ, List.count_append, List.count_singleton]
  simp

end CircularBuffer
