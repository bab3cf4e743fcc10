import DisastrOS.Rotation
import DisastrOS.SemaphoreReturns

/-! The queue in the block of a semaphore, which no allocation initialises: it is empty whenever
the block is freed. -/
namespace DisastrOS
open BlockPool TransitionSystem

/-- The head is as `List_init` leaves it. -/
def ListHead.Cleared (l : ListHead) : Prop := l.first = none ∧ l.last = none ∧ l.size = 0

instance (l : ListHead) : Decidable l.Cleared := inferInstanceAs (Decidable (_ ∧ _))

theorem ListHead.cleared_of_items {l : ListHead} (hl : l.items = [])
    (hsize : l.size = l.items.length) : l.Cleared := by
  rw [hl] at hsize
  exact ⟨by rw [first, hl]; rfl, by rw [last, hl]; rfl, hsize⟩

variable {s t u : Kernel} {p x y w : ℕ} {act : Action} {l : ListHead}

/-! ### What is freed -/

theorem OpensAt.inUse (ho : OpensAt s u p x) (hy : s.sems.semaphore.InUse y) :
    u.sems.semaphore.InUse y := by
  cases ho with
  | found _ same => exact same ▸ hy
  | made st _ taken _ result =>
    subst result
    exact (taken.inUse y).mpr (Or.inl hy)

/-- Only a close frees a semaphore, and it leaves the queue as it is. -/
theorem SemMove.freed (hm : SemMove s t) (hy : s.sems.semaphore.InUse y)
    (hfree : ¬ t.sems.semaphore.InUse y) : (t.sems.semaphore.cell y).waitingDescriptors =
      (s.sems.semaphore.cell y).waitingDescriptors := by
  cases hm with
  | same same => exact absurd (same.sems ▸ hy) hfree
  | newProcess b created => exact absurd (created.sems ▸ hy) hfree
  | noDescriptor p x u _ _ _ opens _ result =>
    subst result
    exact absurd (opens.inUse hy) hfree
  | noPointer p x d u _ _ _ opens failed =>
    exact absurd (failed.semaphore ▸ opens.inUse hy) hfree
  | opened p x d e w u _ _ _ opens opened =>
    rw [opened.semaphore, Store.modify_inUse] at hfree
    exact absurd (opens.inUse hy) hfree
  | closed p x d e w _ _ _ _ _ _ closed => exact (closed.others y).2.2
  | counted x v l counted =>
    rw [counted.sems] at hfree
    exact absurd ((Store.modify_inUse _ x y _).mpr hy) hfree

theorem step_freed (h : KernelInv s) (hs : step s act = .ok t) (hy : s.sems.semaphore.InUse y)
    (hfree : ¬ t.sems.semaphore.InUse y) : (t.sems.semaphore.cell y).waitingDescriptors =
      (s.sems.semaphore.cell y).waitingDescriptors := by
  rcases step_sem h hs with hq | ⟨u, p, he, -, hm⟩ | ⟨b, -, -, hst⟩
  · exact absurd (hq.semaphores.sems ▸ hy) hfree
  · have hsems := he.quiet.semaphores.sems
    rw [← hsems]
    exact hm.freed (hsems ▸ hy) hfree
  · exact absurd (hst.sems ▸ hy) hfree

/-! ### The queue of a block that is not in use -/

namespace SemInv

theorem cleared_of_not_inUse (h : SemInv s) (hx : ¬ s.sems.semaphore.InUse x) :
    (s.sems.semaphore.cell x).waitingDescriptors.Cleared :=
  ListHead.cleared_of_items (h.queue_eq_nil fun hl => hx ((h.inUse x).mp hl)) (h.queueSize x)

/-- The block that is allocated keeps the queue that it had. -/
theorem alloc_cleared {id count : ℤ} {v : SemTable} (h : SemInv s)
    (ha : semaphoreAlloc s.sems id count = some (x, v)) :
    (v.semaphore.cell x).waitingDescriptors.Cleared := by
  obtain ⟨st, htaken, rfl⟩ := semaphoreAlloc_ok ha
  have hcell := htaken.cell x
  rw [if_pos rfl] at hcell
  simp only [hcell]
  exact h.cleared_of_not_inUse htaken.fresh

theorem detach_cleared (h : SemInv s)
    (hl : listDetach (s.sems.semaphore.cell x).waitingDescriptors w = .ok l)
    (hnil : l.items = []) : l.Cleared := by
  obtain ⟨hw, rfl⟩ := listDetach_ok.mp hl
  have hsize : (s.sems.semaphore.cell x).waitingDescriptors.size =
      (s.sems.semaphore.cell x).waitingDescriptors.items.length := h.queueSize x
  have hlen := List.length_erase_of_mem hw
  have hpos := List.length_pos_of_mem hw
  refine ListHead.cleared_of_items hnil ?_
  simp only
  omega

end SemInv

/-- What holds of the queues in the state `s`. -/
structure QueuesRecycled (s : Kernel) : Prop where
  /-- A semaphore that is made by an open begins without waiters. -/
  allocated : ∀ p args id count x v,
    semaphoreAlloc (enterSyscall s p dsosCallSemopen args).sems id count = some (x, v) →
      (v.semaphore.cell x).waitingDescriptors.Cleared
  /-- Nobody waits on a semaphore that is freed. -/
  freed : ∀ act t x, kernel.step s act = .ok t → s.sems.semaphore.InUse x →
    ¬ t.sems.semaphore.InUse x → (s.sems.semaphore.cell x).waitingDescriptors.Cleared ∧
      (t.sems.semaphore.cell x).waitingDescriptors.Cleared
  lastDetach : ∀ x w l, listDetach (s.sems.semaphore.cell x).waitingDescriptors w = .ok l →
    l.items = [] → l.Cleared
  /-- The same of the links: in every memory in which the queue is laid out. -/
  lastLinks : ∀ x w l, listDetach (s.sems.semaphore.cell x).waitingDescriptors w = .ok l →
    l.items = [] → ∀ m : LinkedList.Memory ℕ ℕ, LinkedList.IsList m x (queue s x) →
      (LinkedList.listDetach m x w).2.head x = ⟨none, none, 0⟩

/-- The queue of a semaphore is empty whenever its block is allocated. -/
theorem queues_recycled (h : kernel.Reachable s) : QueuesRecycled s := by
  have hk := KernelInv.reachable h
  constructor
  case allocated => exact fun p args id count x v ha => hk.sem.alloc_cleared ha
  case freed =>
    intro act t x hs hx hfree
    have ht := (KernelInv.reachable (h.next hs)).sem.cleared_of_not_inUse hfree
    have hsame := step_freed hk hs hx hfree
    exact ⟨hsame ▸ ht, ht⟩
  case lastDetach => exact fun x w l hl hnil => hk.sem.detach_cleared hl hnil
  case lastLinks =>
    intro x w l hl hnil m hm
    obtain ⟨m', hm', hlist, -⟩ := listDetach_links hm hl
    rw [hm']
    rw [hnil] at hlist
    exact hlist.head_nil

/-- The block 0 has had a waiter, has been freed, and is the next one to be allocated. -/
theorem queues_recycled_reused :
    let s := kernel.replay [.syscall dsosCallSemopen [7, 0], .syscall dsosCallSpawn [0, 0],
      .syscall dsosCallSemwait [0], .syscall dsosCallSemopen [7, 0],
      .syscall dsosCallSempost [0], .syscall dsosCallSemclose [0], .tick,
      .syscall dsosCallSemclose [0]]
    s.running = some 0 ∧ ¬ s.sems.semaphore.InUse 0 ∧
      (semaphoreAlloc s.sems 8 3).map (·.1) = some 0 ∧ QueuesRecycled s :=
  ⟨by decide +kernel, by decide +kernel, by decide +kernel,
    queues_recycled (System.reachable_replay _)⟩

end DisastrOS
