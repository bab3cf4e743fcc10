import Mathlib.Algebra.BigOperators.Group.List.Lemmas
import DisastrOS.KernelInvariant

/-! No process is lost or duplicated, and every waiting process can be woken in one way. -/
namespace DisastrOS
open BlockPool TransitionSystem

variable {s : Kernel} {b : ℕ}

/-- The number of timers of the process `b`. -/
def timerCount (s : Kernel) (b : ℕ) : ℕ := s.timers.list.items.countP fun i => sleeper s i = b

/-- The number of places of the process `b` in the queues of the semaphores. -/
def placeCount (s : Kernel) (b : ℕ) : ℕ :=
  (s.sems.list.items.map fun x => (queue s x).countP fun w => waiter s w = b).sum

/-- Exactly one thing will wake the process `b`. -/
def OneWakeSource (s : Kernel) (b : ℕ) : Prop :=
  timerCount s b = 1 ∧ placeCount s b = 0 ∨ timerCount s b = 0 ∧ placeCount s b = 1 ∨
    (s.pcb b).syscallNum = dsosCallWait ∧ timerCount s b = 0 ∧ placeCount s b = 0

theorem countP_eq_one {l : List ℕ} {P : ℕ → Bool} {a : ℕ} (hnd : l.Nodup) (ha : a ∈ l)
    (hP : P a) (hu : ∀ c ∈ l, P c → c = a) : l.countP P = 1 := by
  rw [← List.count_eq_one_of_mem hnd ha, List.count]
  refine List.countP_congr fun c hc => ?_
  simp only [beq_iff_eq]
  exact ⟨hu c hc, fun he => he ▸ hP⟩

namespace KernelInv

theorem timerCount_eq_zero (h : KernelInv s) (hb : b ∉ (s.procs .waiting).items ∨
    (s.pcb b).syscallNum ≠ dsosCallSleep) : timerCount s b = 0 := by
  rw [timerCount, List.countP_eq_zero]
  intro i hi he
  obtain ⟨h1, h2⟩ := h.wake.sleeping i hi
  rw [decide_eq_true_eq] at he
  rw [he] at h1 h2
  exact hb.elim (fun hb => hb h1) (fun hb => hb h2)

theorem placeCount_eq_zero (h : KernelInv s) (hb : b ∉ (s.procs .waiting).items ∨
    (s.pcb b).syscallNum ≠ dsosCallSemwait) : placeCount s b = 0 := by
  refine List.sum_eq_zero fun _ hm => ?_
  obtain ⟨x, -, rfl⟩ := List.mem_map.mp hm
  rw [List.countP_eq_zero]
  intro w hw he
  obtain ⟨h1, h2⟩ := h.wake.queued x w hw
  rw [decide_eq_true_eq] at he
  rw [he] at h1 h2
  exact hb.elim (fun hb => hb h1) (fun hb => hb h2)

theorem oneWakeSource (h : KernelInv s) (hb : b ∈ (s.procs .waiting).items) :
    OneWakeSource s b := by
  rcases h.wake.source b hb with hn | ⟨hn, i, hi, he⟩ | ⟨hn, x, w, hw, he⟩
  · refine Or.inr (Or.inr ⟨hn, ?_, ?_⟩)
    · exact h.timerCount_eq_zero (Or.inr (by rw [hn]; decide))
    · exact h.placeCount_eq_zero (Or.inr (by rw [hn]; decide))
  · refine Or.inl ⟨?_, h.placeCount_eq_zero (Or.inr (by rw [hn]; decide))⟩
    refine countP_eq_one h.wake.timers hi (by simpa using he) fun j hj hjb => ?_
    exact h.wake.oneTimer j hj i hi ((decide_eq_true_eq.mp hjb).trans he.symm)
  · refine Or.inr (Or.inl ⟨h.timerCount_eq_zero (Or.inr (by rw [hn]; decide)), ?_⟩)
    have hx : x ∈ s.sems.list.items := by
      by_contra hx
      rw [h.sem.queue_eq_nil hx] at hw
      cases hw
    -- the queues of the other semaphores do not hold the process
    have hother : ∀ y ≠ x, y ∈ s.sems.list.items →
        ((queue s y).countP fun v => waiter s v = b) = 0 := by
      intro y hy _
      rw [List.countP_eq_zero]
      intro v hv hvb
      exact hy (h.wake.onePlace y v x w hv hw ((decide_eq_true_eq.mp hvb).trans he.symm)).1
    rw [placeCount, List.sum_map_eq_nsmul_single x _ hother,
      List.count_eq_one_of_mem h.sem.nodup hx, one_nsmul]
    refine countP_eq_one (h.sem.queueNodup x) hw (by simpa using he) fun v hv hvb => ?_
    exact (h.wake.onePlace x v x w hv hw ((decide_eq_true_eq.mp hvb).trans he.symm)).2

end KernelInv

/-- In every reachable state a block in use is running, ready, waiting or a zombie, exactly one
of these and once; a free block is none of them; the status tells the waiting processes and the
zombies; and exactly the waiting processes have something that wakes them, exactly one thing. -/
theorem processes_conserved (h : kernel.Reachable s) :
    (∀ b, occurrences s b = if s.pcbs.InUse b then 1 else 0) ∧
    (∀ b, s.pcbs.InUse b → ((s.pcb b).status = .waiting ↔ b ∈ (s.procs .waiting).items)) ∧
    (∀ b, s.pcbs.InUse b → ((s.pcb b).status = .zombie ↔ b ∈ (s.procs .zombie).items)) ∧
    (∀ b ∈ (s.procs .waiting).items, OneWakeSource s b) ∧
    ∀ b, b ∉ (s.procs .waiting).items → timerCount s b = 0 ∧ placeCount s b = 0 := by
  have hi := KernelInv.reachable h
  exact ⟨hi.proc.once, fun b _ => hi.proc.waiting b, hi.proc.zombie, fun _ => hi.oneWakeSource,
    fun b hb => ⟨hi.timerCount_eq_zero (Or.inl hb), hi.placeCount_eq_zero (Or.inl hb)⟩⟩

theorem processes_conserved_waiting :
    let s := kernel.replay [.syscall dsosCallSpawn [0, 0], .syscall dsosCallWait [0, 0]]
    s.running = some 1 ∧ (s.procs .waiting).items = [0] ∧ OneWakeSource s 0 := by
  refine ⟨by decide +kernel, by decide +kernel, ?_⟩
  exact (processes_conserved (TransitionSystem.System.reachable_replay _)).2.2.2.1 0
    (by decide +kernel)

end DisastrOS
