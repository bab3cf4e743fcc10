import DisastrOS.Runs
import DisastrOS.WaitChoice

/-! The loop of a father that waits for its children one after the other. -/
namespace DisastrOS
open BlockPool TransitionSystem

/-- The entries of the children of `p` that have exited. -/
def zombieChildren (s : Kernel) (p : ℕ) : List ℕ :=
  (children s p).filter fun q => decide ((s.pcb (child s q)).status = .zombie)

/-- The entries of the others. -/
def liveChildren (s : Kernel) (p : ℕ) : List ℕ :=
  (children s p).filter fun q => !decide ((s.pcb (child s q)).status = .zombie)

variable {s t : Kernel} {p q : ℕ} {qs : List ℕ}

/-- The loop of `n` calls `disastrOS_wait(0, result)`. -/
def waits (result : ℤ) (n : ℕ) : List Action :=
  List.replicate n (.syscall dsosCallWait [0, result])

def waitResult (p : ℕ) (_ : Kernel) (_ : Action) (t : Kernel) : List ℤ :=
  [(t.pcb p).syscallRetvalue]

/-- What a wait for any child does when `q` is the first that has exited. -/
structure Collects (s t : Kernel) (p q : ℕ) : Prop where
  running : t.running = some p
  children : children t p = (children s p).erase q
  child : ∀ k, child t k = child s k
  status : ∀ k, (t.pcb k).status = (s.pcb k).status
  pid : ∀ k, (t.pcb k).pid = (s.pcb k).pid
  inUse : ∀ k, t.pcbs.InUse k ↔ s.pcbs.InUse k ∧ k ≠ DisastrOS.child s q
  retvalue : (t.pcb p).syscallRetvalue = (s.pcb (DisastrOS.child s q)).pid

theorem step_collects (h : kernel.Reachable s) (hp : s.running = some p)
    (hz : zombieChildren s p = q :: qs) (r : ℤ) :
    ∃ t, kernel.step s (.syscall dsosCallWait [0, r]) = .ok t ∧ Collects s t p q := by
  have hq : q ∈ children s p ∧ (s.pcb (child s q)).status = .zombie := by
    have hmem : q ∈ zombieChildren s p := by simp [hz]
    simpa [zombieChildren] using hmem
  have hasked : askedChild s p 0 = some q := by
    have hfind := List.head?_filter (p := fun q => decide ((s.pcb (child s q)).status = .zombie))
      (l := children s p)
    rw [← zombieChildren, hz, List.head?_cons] at hfind
    simpa [askedChild, Asked] using hfind.symm
  have hcan : WaitCanEnd s p 0 := Or.inr ⟨Or.inl rfl, Or.inl ⟨q, hasked, hq.2⟩⟩
  obtain ⟨t, ht, hends⟩ := (step_ends_iff (.reachable h) hp [0, r]).mpr hcan
  refine ⟨t, ht, ?_⟩
  have hstatus : ∀ k, ((enterSyscall s p dsosCallWait [0, r]).pcb k).status = (s.pcb k).status :=
    fun k => by simp [enterSyscall]
  have hpid : ∀ k, ((enterSyscall s p dsosCallWait [0, r]).pcb k).pid = (s.pcb k).pid :=
    fun k => by simp [enterSyscall]
  have hchildren : children (enterSyscall s p dsosCallWait [0, r]) p = children s p := by
    simp [children, enterSyscall]
  have hchild : ∀ k, child (enterSyscall s p dsosCallWait [0, r]) k = child s k := fun _ => rfl
  have hinUse : ∀ k, (enterSyscall s p dsosCallWait [0, r]).pcbs.InUse k ↔ s.pcbs.InUse k :=
    fun k => by simp [enterSyscall]
  have hrun : (enterSyscall s p dsosCallWait [0, r]).running = some p := hp
  have hasked' : askedChild (enterSyscall s p dsosCallWait [0, r]) p 0 = some q := by
    rw [← hasked]
    simp only [askedChild, Asked, hchildren, hstatus, hpid, hchild]
  generalize enterSyscall s p dsosCallWait [0, r] = v at *
  cases hends with
  | noChild none result =>
    rw [hchildren] at none
    rw [none] at hq
    cases hq.1
  | notChild named none result => exact absurd rfl named
  | blocks some asked alive result =>
    refine absurd ?_ (alive q hasked')
    rw [hchild, hstatus]
    exact hq.2
  | collects q' asked zombie result returns =>
    obtain rfl : q = q' := Option.some.inj (hasked'.symm.trans asked)
    subst result
    refine ⟨by simp [reaped, hrun], ?_, fun k => ?_, fun k => ?_, fun k => ?_, fun k => ?_, ?_⟩
    · rw [← hchildren]
      simp [DisastrOS.children, reaped]
    · rw [← hchild]
      simp [DisastrOS.child, reaped]
    · rw [← hstatus]
      simp [reaped]
    · rw [← hpid]
      simp [reaped]
    · rw [← hinUse, ← hchild]
      simp [reaped]
    · rw [← hpid, ← hchild]
      simp [reaped]

namespace Collects

theorem zombieChildren (hc : Collects s t p q) (hz : zombieChildren s p = q :: qs) :
    zombieChildren t p = qs := by
  rw [DisastrOS.zombieChildren] at hz ⊢
  simp only [hc.children, hc.child, hc.status]
  rw [← List.erase_filter, hz, List.erase_cons_head]

theorem liveChildren (hc : Collects s t p q) (hz : DisastrOS.zombieChildren s p = q :: qs) :
    liveChildren t p = liveChildren s p := by
  have hq : q ∈ DisastrOS.zombieChildren s p := by simp [hz]
  simp only [DisastrOS.liveChildren, hc.children, hc.child, hc.status]
  rw [← List.erase_filter, List.erase_of_not_mem]
  simp only [DisastrOS.zombieChildren, List.mem_filter, decide_eq_true_eq] at hq
  simp [hq.2]

end Collects

/-- As many waits as a process has children that have exited collect these and no others, in the
order of the children: each returns the pid of the next, and exactly their blocks become free. -/
theorem waits_collect_zombies (h : kernel.Reachable s) (hp : s.running = some p) (r : ℤ) :
    ∃ t, kernel.runFrom s (waits r (zombieChildren s p).length) = .ok t ∧
      t.running = some p ∧ children t p = liveChildren s p ∧
      kernel.yields (waitResult p) s (waits r (zombieChildren s p).length) =
        (zombieChildren s p).map (fun q => (s.pcb (child s q)).pid) ∧
      ∀ k, t.pcbs.InUse k ↔ s.pcbs.InUse k ∧ ∀ q ∈ zombieChildren s p, k ≠ child s q := by
  generalize hz : zombieChildren s p = zs
  induction zs generalizing s with
  | nil =>
    refine ⟨s, rfl, hp, ?_, rfl, by simp⟩
    refine (List.filter_eq_self.mpr fun q hq => ?_).symm
    simpa using List.filter_eq_nil_iff.mp hz q hq
  | cons q qs ih =>
    obtain ⟨u, hu, hc⟩ := step_collects h hp hz r
    obtain ⟨t, ht, hrun, hlive, hyields, hfree⟩ := ih (h.next hu) hc.running (hc.zombieChildren hz)
    refine ⟨t, System.runFrom_cons.mpr ⟨u, hu, ht⟩, hrun, hlive.trans (hc.liveChildren hz), ?_,
      fun k => ?_⟩
    · have hfirst : kernel.yields (waitResult p) s (waits r (qs.length + 1)) =
          (u.pcb p).syscallRetvalue :: kernel.yields (waitResult p) u (waits r qs.length) :=
        System.yields_cons hu
      rw [List.length_cons, hfirst, hyields, hc.retvalue]
      simp [hc.pid, hc.child]
    · rw [hfree, hc.inUse, List.forall_mem_cons, and_assoc]
      simp only [hc.child]

/-- Two of three children have exited, and the second of these first. -/
theorem waits_collect_zombies_two :
    let s := kernel.replay [.syscall dsosCallSpawn [0, 0], .syscall dsosCallSpawn [0, 0],
      .syscall dsosCallSpawn [0, 0], .tick, .tick, .tick, .syscall dsosCallExit [9], .tick,
      .syscall dsosCallExit [7], .tick]
    zombieChildren s 0 = [0, 2] ∧ kernel.yields (waitResult 0) s (waits 0 2) = [1, 3] ∧
      ∃ t, kernel.runFrom s (waits 0 2) = .ok t ∧ t.running = some 0 ∧ children t 0 = [1] := by
  intro s
  have hz : zombieChildren s 0 = [0, 2] := by decide +kernel
  have hlive : liveChildren s 0 = [1] := by decide +kernel
  obtain ⟨t, ht, h1, h2, h3, -⟩ :=
    waits_collect_zombies (System.reachable_replay _) (p := 0) (s := s) (by decide +kernel) 0
  rw [hz] at ht h3
  refine ⟨hz, h3.trans (by decide +kernel), t, ht, h1, h2.trans hlive⟩

end DisastrOS
