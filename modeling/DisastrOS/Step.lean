import DisastrOS.ResourceOutcome

/-! The steps of the kernel, and the rule by which they keep an invariant. -/
namespace DisastrOS
open BlockPool TransitionSystem

/-- The number under which a handler is registered. -/
def Handler.number : Handler → ℤ
  | .preempt => dsosCallPreempt
  | .fork => dsosCallFork
  | .wait => dsosCallWait
  | .exit => dsosCallExit
  | .spawn => dsosCallSpawn
  | .sleep => dsosCallSleep
  | .openResource => dsosCallOpenResource
  | .closeResource => dsosCallCloseResource
  | .destroyResource => dsosCallDestroyResource
  | .shutdown => dsosCallShutdown
  | .semOpen => dsosCallSemopen
  | .semClose => dsosCallSemclose
  | .semWait => dsosCallSemwait
  | .semPost => dsosCallSempost

theorem syscallVector_number (h : Handler) : syscallVector h.number = some h := by
  cases h <;> decide

theorem eq_or_of_ite_eq_some {n k : ℤ} {o : Option Handler} {g h : Handler}
    (hn : (if n = k then some g else o) = some h) : n = k ∧ g = h ∨ o = some h := by
  split at hn
  · exact Or.inl ⟨‹_›, Option.some.inj hn⟩
  · exact Or.inr hn

theorem syscallVector_eq_some {n : ℤ} {h : Handler} : syscallVector n = some h ↔ n = h.number := by
  constructor
  · intro hn
    unfold syscallVector at hn
    iterate 14
      rcases eq_or_of_ite_eq_some hn with ⟨rfl, rfl⟩ | hn
      · rfl
    cases hn
  · rintro rfl
    exact syscallVector_number h

/-- The PCB of the first process. -/
def initPCB : PCB :=
  { zeroPCB with status := .running, signalsMask := 0xFFFFFFFF, cpuState := some 0 }

/-- The start: the block 0 is in use and runs, and everything else is as the static buffers
and the initialisations leave it. -/
theorem disastrOSStart_eq : ∃ t, (∀ k, t.InUse k ↔ k = 0) ∧
    (∀ k, t.cell k = if k = 0 then initPCB else zeroPCB) ∧
    disastrOSStart = { emptyKernel with
      pcbs := t, lastPid := 1, running := some 0, initPcb := some 0, trace := [.created 0] } := by
  unfold disastrOSStart startFirst
  cases h : pcbAlloc emptyKernel with
  | error e =>
    unfold pcbAlloc at h
    split at h
    · rename_i ha
      have := Store.alloc_eq_none.mp ha
      cases this
    · cases h
  | ok r =>
    obtain ⟨o, s⟩ := r
    obtain ⟨b, t, rfl, ha, rfl⟩ := pcbAlloc_ok h
    have hb : b = 0 := by
      have hf := ha.free
      exact (List.cons.inj hf).1.symm
    subst hb
    refine ⟨(t.modify 0 fun c => { c with status := .running }).modify 0 fun c =>
      { c with cpuState := some c.pid }, fun k => ?_, fun k => ?_, ?_⟩
    · have h0 : ¬ emptyKernel.pcbs.InUse k := Store.not_inUse_init _ _ k
      simpa [h0] using ha.inUse k
    · have h1 : emptyKernel.pcbs.cell k = zeroPCB := rfl
      by_cases hk : k = 0
      · subst hk
        simp [ha.cell, zeroPCB, initPCB, emptyKernel]
      · simp [ha.cell, hk, h1]
    · rfl

variable {s s' : Kernel} {a : Action}

/-- The state in which a timer signal of the running process `p` calls the scheduler. -/
def ticked (s : Kernel) (p : ℕ) : Kernel :=
  { s.modPcb p fun c => { c with cpuState := some c.pid } with time := toInt (s.time + 1) }

theorem timerInterrupt_ok (h : timerInterrupt s = .ok s') :
    ∃ p, s.running = some p ∧ internalSchedule (ticked s p) = .ok s' := by
  obtain ⟨p, hp, h⟩ := bind_ok.mp h
  obtain ⟨u, hu, h⟩ := bind_ok.mp h
  obtain ⟨-, -, h⟩ := bind_ok.mp h
  exact ⟨p, deref_ok.mp hp, Except.ok.inj h ▸ hu⟩

@[simp] theorem pcb_ticked (s : Kernel) (p k : ℕ) : (ticked s p).pcb k =
    if k = p then { s.pcb k with cpuState := some (s.pcb k).pid } else s.pcb k := rfl

theorem waitsFor_enterSyscall {p q : ℕ} {n : ℤ} {args : List ℤ} (hqp : q ≠ p) :
    WaitsFor (enterSyscall s p n args) q p ↔ WaitsFor s q p := by
  simp [WaitsFor, enterSyscall, hqp]

theorem reparented_enterSyscall (s : Kernel) (p i k : ℕ) (n : ℤ) (args : List ℤ) :
    reparented (enterSyscall s p n args) p i k = reparented s p i k := by
  have hch : ∀ k, ((enterSyscall s p n args).pcb k).children = (s.pcb k).children := fun k => by
    simp [enterSyscall]
  simp only [reparented, hch]

theorem pcbPtrByPid_enterSyscall (s : Kernel) (p : ℕ) (n : ℤ) (args : List ℤ) (l : ListHead)
    (v : ℤ) : pcbPtrByPid (enterSyscall s p n args) l v = pcbPtrByPid s l v := by
  have hpid : ∀ k, ((enterSyscall s p n args).pcb k).pid = (s.pcb k).pid := fun k => by
    simp [enterSyscall]
  simp only [pcbPtrByPid, hpid]
  rfl

theorem Handler.number_range (hd : Handler) : 0 ≤ hd.number ∧ hd.number ≤ dsosMaxSyscalls := by
  cases hd <;> decide

theorem enterSyscall_arg {s : Kernel} {p i : ℕ} {n : ℤ} {args : List ℤ}
    (hi : i < syscallNumarg n) :
    ((enterSyscall s p n args).pcb p).syscallArgs i = args.getD i 0 := by
  simp [enterSyscall, hi]

/-- The ways in which a system call returns. -/
inductive SyscallReturns (s : Kernel) (p : ℕ) (n : ℤ) (args : List ℤ) (s' : Kernel) : Prop
  | outOfRange (range : n < 0 ∨ n > dsosMaxSyscalls) (same : s' = s)
  | notImplemented (none : syscallVector n = none)
      (result : s' = (enterSyscall s p n args).setRetvalue p dsosEsyscallNotImplemented)
  | handled (h : Handler) (number : n = h.number)
      (run : runHandler h (enterSyscall s p n args) = .ok s')

theorem disastrOSSyscall_ok {n : ℤ} {args : List ℤ} (h : disastrOSSyscall s n args = .ok s') :
    ∃ p, s.running = some p ∧ SyscallReturns s p n args s' := by
  unfold disastrOSSyscall at h
  split at h
  · cases h
  rename_i p hp
  refine ⟨p, hp, ?_⟩
  split_ifs at h with hr hm
  · exact .outOfRange hr (Except.ok.inj h).symm
  obtain ⟨q, hq, h⟩ := bind_ok.mp h
  obtain rfl : p = q := by
    have hpq : s.running = some q := deref_ok.mp hq
    exact Option.some.inj (hp ▸ hpq)
  have hnum : ((enterSyscall s p n args).pcb p).syscallNum = n := by simp [enterSyscall]
  simp only [hnum, hr, hm, if_false] at h
  split at h
  · rename_i hv
    exact .notImplemented hv (Except.ok.inj h).symm
  · rename_i hd hv
    exact .handled hd (syscallVector_eq_some.mp hv) h

/-- The ways in which the end of the trap goes on. -/
inductive Returned (s s' : Kernel) : Prop
  | resumed (running : s.running ≠ none) (same : s' = s)
  | restarted (b : ℕ) (idle : s.running = none) (started : Started s s' b)

theorem returnToProcess_ok (h : DisastrOS.returnToProcess s = .ok s') : Returned s s' := by
  unfold DisastrOS.returnToProcess at h
  split at h
  · rename_i p hp
    exact .resumed (by simp [hp]) (Except.ok.inj h).symm
  · rename_i hp
    obtain ⟨b, hb⟩ := startFirst_ok h
    exact .restarted b hp hb

theorem Returned.sems (h : Returned s s') : s'.sems = s.sems := by
  cases h with
  | resumed _ same => rw [same]
  | restarted b _ started => exact started.sems

theorem Returned.resources (h : Returned s s') : s'.resources = s.resources := by
  cases h with
  | resumed _ same => rw [same]
  | restarted b _ started => exact started.resources

theorem Returned.timers (h : Returned s s') : s'.timers = s.timers := by
  cases h with
  | resumed _ same => rw [same]
  | restarted b _ started => exact started.timers

theorem Returned.time (h : Returned s s') : s'.time = s.time := by
  cases h with
  | resumed _ same => rw [same]
  | restarted b _ started => exact started.time

theorem step_ok (h : step s a = .ok s') :
    (∃ p n args, s.running = some p ∧ a = .syscall n args ∧ SyscallReturns s p n args s') ∨
      (∃ p, s.running = some p ∧ a = .tick ∧ internalSchedule (ticked s p) = .ok s') ∨
      a = .returnToProcess ∧ Returned s s' := by
  cases a with
  | syscall n args =>
    obtain ⟨p, hp, hr⟩ := disastrOSSyscall_ok h
    exact Or.inl ⟨p, n, args, hp, rfl, hr⟩
  | tick =>
    obtain ⟨p, hp, hs⟩ := timerInterrupt_ok h
    exact Or.inr (Or.inl ⟨p, hp, rfl, hs⟩)
  | returnToProcess => exact Or.inr (Or.inr ⟨rfl, returnToProcess_ok h⟩)

/-- A step keeps what the entry into a system call, the assignment of a return value, every
handler, the scheduler and the start of another first process keep. -/
theorem step_preserves {P : Kernel → Prop}
    (henter : ∀ s p n args, s.running = some p → P s → P (enterSyscall s p n args))
    (hret : ∀ s p v, P s → P (s.setRetvalue p v))
    (hcall : ∀ h s p s', s.running = some p → (s.pcb p).syscallNum = h.number → P s →
      runHandler h s = .ok s' → P s')
    (htick : ∀ s p s', s.running = some p → P s → internalSchedule (ticked s p) = .ok s' → P s')
    (hstart : ∀ s b s', s.running = none → P s → Started s s' b → P s')
    (hs : P s) (h : step s a = .ok s') : P s' := by
  rcases step_ok h with ⟨p, n, args, hp, -, hr⟩ | ⟨p, hp, -, ht⟩ | ⟨-, hr⟩
  · have hin := henter s p n args hp hs
    cases hr with
    | outOfRange _ same => exact same ▸ hs
    | notImplemented _ result => exact result ▸ hret _ p _ hin
    | handled hd number run =>
      refine hcall hd _ p s' ?_ ?_ hin run
      · simpa [enterSyscall] using hp
      · simpa [enterSyscall] using number
  · exact htick s p s' hp hs ht
  · cases hr with
    | resumed _ same => exact same ▸ hs
    | restarted b idle started => exact hstart s b s' idle hs started

end DisastrOS
