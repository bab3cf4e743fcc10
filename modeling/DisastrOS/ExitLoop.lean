import DisastrOS.GivingUp

/-! The loop of `internal_exit` over the children. -/
namespace DisastrOS
open BlockPool TransitionSystem

variable {s : Kernel} {p i : ℕ} {args : List ℤ}

/-- The state in which a call of exit by `p` comes to the loop. -/
def exiting (s : Kernel) (p : ℕ) (args : List ℤ) : Kernel :=
  ((enterSyscall s p dsosCallExit args).modPcb p fun c =>
    { c with returnValue := toInt (c.syscallArgs 0) }).emit
    (.exited ((enterSyscall s p dsosCallExit args).pcb p).pid
      (toInt (((enterSyscall s p dsosCallExit args).pcb p).syscallArgs 0)))

/-- The loop ends after as many rounds as `p` has children, which `i` then has behind its own. -/
structure PassesChildren (s : Kernel) (p i : ℕ) (args : List ℤ) : Prop where
  fewer : ∀ fuel ≤ (children s p).length,
    reparentChildren fuel (exiting s p args) p i = .error .endless
  enough : ∀ fuel > (children s p).length, ∃ t,
    reparentChildren fuel (exiting s p args) p i = .ok t ∧ children t p = [] ∧
      children t i = children s i ++ children s p

/-- A call of exit by `p` hands the children over, gets past the use of its parent and ends. -/
structure ExitFinishes (s : Kernel) (p : ℕ) (args : List ℤ) : Prop where
  passesChildren : ∃ i, s.initPcb = some i ∧ PassesChildren s p i args
  prologue : ∃ r, exitPrologue (enterSyscall s p dsosCallExit args) = .ok r
  ends : kernel.step s (.syscall dsosCallExit args) ≠ .error .endless

theorem children_exiting (s : Kernel) (p : ℕ) (args : List ℤ) (k : ℕ) :
    ((exiting s p args).pcb k).children = (s.pcb k).children := by
  by_cases hk : k = p <;> simp [exiting, enterSyscall, hk]

theorem passesChildren (hc : PtrInv s) (hpi : p ≠ i) : PassesChildren s p i args := by
  have hcan : CanHandOver (exiting s p args) p i :=
    (hc.canHandOver hpi).congr (children_exiting s p args)
  have hlen : ((exiting s p args).pcb p).children.items = children s p := by
    rw [children_exiting]
    rfl
  refine ⟨fun fuel hf => hcan.reparentChildren.1 (hlen ▸ hf), fun fuel hf => ?_⟩
  obtain ⟨t, ht⟩ : ∃ t, reparentChildren fuel (exiting s p args) p i = .ok t :=
    hcan.reparentChildren.2 (hlen ▸ hf)
  obtain ⟨-, sig, rfl⟩ := reparentChildren_ok ht
  refine ⟨_, ht, ?_, ?_⟩
  · simp [children, handedOver, reparented]
  · simp [children, handedOver, reparented, hpi.symm, children_exiting]

/-- A process without a parent does not get past its use. -/
theorem ExitFinishes.parent (h : ExitFinishes s p args) (hp : s.running = some p) :
    (s.pcb p).parent ≠ none := by
  obtain ⟨⟨q, a, u⟩, hr⟩ := h.prologue
  obtain ⟨hq, ha, -⟩ := exitPrologue_ok hr
  obtain rfl : p = q := Option.some.inj (hp.symm.trans hq)
  have hpar : ((enterSyscall s p dsosCallExit args).pcb p).parent = (s.pcb p).parent := by
    simp [enterSyscall]
  simp [← hpar, ha]

/-- A call of exit finishes exactly if the process has a parent, which every process has but init
and those that were init before it. -/
theorem exitFinishes_iff (h : kernel.Reachable s) (hp : s.running = some p) :
    ExitFinishes s p args ↔ (s.pcb p).parent ≠ none := by
  have hk : KernelInv s := .reachable h
  refine ⟨fun hf => hf.parent hp, fun hne => ?_⟩
  obtain ⟨i, hi, -, -⟩ := hk.proc.init
  obtain ⟨a, ha⟩ := Option.ne_none_iff_exists'.mp hne
  have hpi : p ≠ i := fun he => hne (he ▸ hk.proc.parent i hi)
  have hc : PtrInv s := .reachable h
  have hce : PtrInv (enterSyscall s p dsosCallExit args) := hc.family enterSyscall_family
  have hae : ((enterSyscall s p dsosCallExit args).pcb p).parent = some a := by
    simp [enterSyscall, ha]
  obtain ⟨sig, hpro⟩ := exitPrologue_isOk (hk.enter hp) hce hp hae hi hpi
  refine ⟨⟨i, hi, passesChildren hc hpi⟩, ⟨_, hpro⟩, fun hs => ?_⟩
  have hrun : internalExit (enterSyscall s p dsosCallExit args) = .error .endless :=
    (@step_handler s p .exit args hp).symm.trans hs
  have hres : ResInv (enterSyscall s p dsosCallExit args) :=
    (ResInv.reachable h).frame (by constructor <;> intros <;> simp [enterSyscall])
  rcases internalExit_cases (hk.enter hp) hce hres hp hi hpi with
    ⟨-, t, q, ht, -⟩ | ⟨-, hstuck⟩
  · rw [ht] at hrun
    cases hrun
  · rw [hstuck] at hrun
    cases hrun

theorem exitFinishes_two :
    let s := kernel.replay [.syscall dsosCallSpawn [0, 0], .syscall dsosCallPreempt [],
      .syscall dsosCallSpawn [0, 0], .syscall dsosCallSpawn [0, 0]]
    s.running = some 1 ∧ children s 1 = [1, 2] ∧ ExitFinishes s 1 [7] :=
  ⟨by decide +kernel, by decide +kernel,
    (exitFinishes_iff (System.reachable_replay _) (by decide +kernel)).mpr (by decide +kernel)⟩

/-- The exit of init never comes out of the loop if it has a child, and takes the parent from the
null pointer if it has none. So does that of a process that was init before another first process
was made. -/
theorem init_exit_fails :
    (∃ s, kernel.Reachable s ∧ s.running = some 0 ∧ s.initPcb = some 0 ∧ children s 0 = [0] ∧
      (∀ fuel t, reparentChildren fuel (exiting s 0 [7]) 0 0 ≠ .ok t) ∧ ¬ ExitFinishes s 0 [7]) ∧
    (∃ s, kernel.Reachable s ∧ s.running = some 0 ∧ s.initPcb = some 0 ∧ children s 0 = [] ∧
      kernel.failure s (.syscall dsosCallExit [7]) = some .nullPointer ∧
        ¬ ExitFinishes s 0 [7]) ∧
    ∃ s, kernel.Reachable s ∧ s.running = some 0 ∧ s.initPcb = some 1 ∧ children s 0 = [] ∧
      kernel.failure s (.syscall dsosCallExit [7]) = some .nullPointer ∧
        ¬ ExitFinishes s 0 [7] := by
  refine ⟨⟨kernel.replay [.syscall dsosCallSpawn [0, 0]], System.reachable_replay _,
    by decide +kernel, by decide +kernel, by decide +kernel, fun fuel t => ?_, fun hf => ?_⟩,
    ⟨kernel.replay [], System.reachable_replay _, by decide +kernel, by decide +kernel,
      by decide +kernel, by decide +kernel, fun hf => ?_⟩,
    ⟨kernel.replay [.syscall dsosCallSleep [3], .returnToProcess, .tick, .tick, .tick],
      System.reachable_replay _, by decide +kernel, by decide +kernel, by decide +kernel,
      by decide +kernel, fun hf => ?_⟩⟩
  · exact reparentChildren_self (by decide +kernel)
  · exact absurd (hf.parent (by decide +kernel)) (by decide +kernel)
  · exact absurd (hf.parent (by decide +kernel)) (by decide +kernel)
  · exact absurd (hf.parent (by decide +kernel)) (by decide +kernel)

end DisastrOS
