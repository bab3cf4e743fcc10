import Mathlib.Algebra.Ring.Int.Defs
import Mathlib.Algebra.Ring.Nat
import Mathlib.Logic.Function.Basic

/-! Counting semaphores whose processes wait in the order in which they came. The number that
goes down with every wait and up with every post tells the value and how many processes wait. -/
namespace CountingSemaphore

/-- A process waits only while the value is 0. -/
structure Sem (π : Type*) where
  value : ℕ
  queue : List π
  idle : queue = [] ∨ value = 0

namespace Sem
variable {π : Type*}

def create (v : ℕ) : Sem π := ⟨v, [], Or.inl rfl⟩

/-- The process `p` passes, or goes to the end of the queue. -/
def wait (a : Sem π) (p : π) : Sem π where
  value := a.value - 1
  queue := if 0 < a.value then a.queue else a.queue ++ [p]
  idle := by
    split_ifs with h
    · exact a.idle.imp_right fun h0 => by omega
    · exact Or.inr (by omega)

/-- The first process of the queue passes, or the value goes up. -/
def post (a : Sem π) : Sem π where
  value := if a.queue = [] then a.value + 1 else 0
  queue := a.queue.tail
  idle := by
    split_ifs with h
    · exact Or.inl (by simp [h])
    · exact Or.inr rfl

def count (a : Sem π) : ℤ := a.value - a.queue.length

@[simp] theorem count_create (v : ℕ) : (create v : Sem π).count = v := by simp [count, create]

@[simp] theorem queue_create (v : ℕ) : (create v : Sem π).queue = [] := rfl

theorem queue_eq_nil_of_count {a : Sem π} (h : 0 ≤ a.count) : a.queue = [] := by
  rcases a.idle with hq | hv
  · exact hq
  · rw [count, hv] at h
    exact List.length_eq_zero_iff.mp (by omega)

theorem value_eq (a : Sem π) : a.value = a.count.toNat := by
  rcases a.idle with hq | hv
  · simp [count, hq]
  · rw [count, hv]
    omega

@[simp] theorem count_wait (a : Sem π) (p : π) : (a.wait p).count = a.count - 1 := by
  simp only [count, wait]
  rcases a.idle with hq | hv
  · split_ifs with h
    · omega
    · simp [hq]
      omega
  · simp [hv]
    omega

theorem queue_wait_of_pos {a : Sem π} (p : π) (h : 0 < a.count) : (a.wait p).queue = a.queue := by
  have hv := a.value_eq
  exact if_pos (by omega)

theorem queue_wait_of_nonpos {a : Sem π} (p : π) (h : a.count ≤ 0) :
    (a.wait p).queue = a.queue ++ [p] := by
  have hv := a.value_eq
  exact if_neg (by omega)

@[simp] theorem count_post (a : Sem π) : a.post.count = a.count + 1 := by
  simp only [count, post]
  split_ifs with hq
  · simp [hq]
  · have hv := a.idle.resolve_left hq
    have hlen := List.length_pos_iff.mpr hq
    simp [hv]
    omega

@[simp] theorem queue_post (a : Sem π) : a.post.queue = a.queue.tail := rfl

end Sem

/-! ### Tables of semaphores -/

variable {ι π : Type*}

/-- The semaphores that exist, under their names. -/
abbrev Table (ι π : Type*) := ι → Option (Sem π)

inductive Op (ι π : Type*)
  | create (i : ι) (v : ℕ)
  | wait (i : ι) (p : π)
  | post (i : ι)
  | remove (i : ι)
  | skip

def Op.run [DecidableEq ι] : Op ι π → Table ι π → Table ι π
  | .create i v, A => Function.update A i (some (.create v))
  | .wait i p, A => Function.update A i ((A i).map (Sem.wait · p))
  | .post i, A => Function.update A i ((A i).map Sem.post)
  | .remove i, A => Function.update A i none
  | .skip, A => A

end CountingSemaphore
