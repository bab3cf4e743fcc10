import DisastrOS.Progress

/-! When the system calls that give up the processor leave a process running. -/
namespace DisastrOS
open BlockPool TransitionSystem

variable {s t : Kernel} {p q a b i : ℕ} {n : ℤ} {args : List ℤ} {hd : Handler}

/-- The process `q` that runs after a call of `p` was ready, or is `p`, or the parent of `p` that
waited for its exit. -/
def RunsNext (s : Kernel) (p : ℕ) (hd : Handler) (q : ℕ) : Prop :=
  q ∈ (s.procs .ready).items ∨ q = p ∨ hd = .exit ∧ (s.pcb p).parent = some q ∧ WaitsFor s q p

/-- The zombie that a wait of `p` for `pid` collects is in the list it is detached from. -/
def CollectsListed (s : Kernel) (p : ℕ) (pid : ℤ) : Prop :=
  ∀ q ∈ awaitedPtr s pid (children s p), (s.pcb (child s q)).status = .zombie →
    child s q ∈ (s.procs .zombie).items

/-- A call of `p` with the outcome `r` leaves a process running, or shuts the system down. -/
def LeavesRunning (s : Kernel) (p : ℕ) (hd : Handler) (r : Except Fault Kernel) : Prop :=
  r = .error .shutdown ∨ ∃ t q, r = .ok t ∧ t.running = some q ∧ RunsNext s p hd q

/-- The call of `p` returns, having detached nothing from a list it is not in, and leaves a
process running; or it shuts the system down. -/
def GivesUpSafely (s : Kernel) (p : ℕ) (hd : Handler) (args : List ℤ) : Prop :=
  (hd = .wait → CollectsListed s p (toInt (args.getD 0 0))) ∧
    LeavesRunning s p hd (kernel.step s (.syscall hd.number args))

/-- What the exit of `p`, whose children go to `i`, needs: a parent, which finds `p` among its
children if it waits for it, and a ready process if it does not. -/
def CanExit (s : Kernel) (p i : ℕ) : Prop :=
  ∃ a ∈ (s.pcb p).parent,
    if WaitsFor s a p then pcbPtrByPid s (reparented s p i a) (s.pcb p).pid ≠ none
    else (s.procs .ready).items ≠ []

instance (s : Kernel) (p i : ℕ) : Decidable (CanExit s p i) :=
  inferInstanceAs (Decidable (∃ a ∈ (s.pcb p).parent, _))

/-- What the call of `p` needs: a wait that blocks and a sleep that sets a timer need a ready
process. -/
def CanGiveUp (s : Kernel) (p : ℕ) (args : List ℤ) : Handler → Prop
  | .wait => ∀ q ∈ awaitedPtr s (toInt (args.getD 0 0)) (children s p),
      if (s.pcb (child s q)).status = .zombie then child s q ∈ (s.procs .zombie).items
      else (s.procs .ready).items ≠ []
  | .exit => ∀ i ∈ s.initPcb, CanExit s p i
  | .sleep => (s.pcb p).timer.isSome ∨ s.timers.item.pool.free = [] ∨ (s.procs .ready).items ≠ []
  | _ => True

instance (s : Kernel) (p : ℕ) (args : List ℤ) (hd : Handler) : Decidable (CanGiveUp s p args hd) :=
  match hd with
  | .wait => inferInstanceAs (Decidable (∀ q ∈ awaitedPtr _ _ _, _))
  | .exit => inferInstanceAs (Decidable (∀ i ∈ s.initPcb, _))
  | .sleep => inferInstanceAs (Decidable (_ ∨ _))
  | .preempt | .fork | .spawn | .openResource | .closeResource | .destroyResource | .shutdown
  | .semOpen | .semClose | .semWait | .semPost => inferInstanceAs (Decidable True)

/-! ### The handlers -/

theorem internalWait_none (hp : s.running = some p) (hq : awaitedPtr s
    (toInt ((s.pcb p).syscallArgs 0)) (children s p) = none) :
    internalWait s = .ok (s.setRetvalue p dsosEwait) := by
  rw [children] at hq
  simp only [internalWait, hp, deref, bind, Except.bind, hq]

theorem internalWait_some (hp : s.running = some p) (hq : awaitedPtr s
    (toInt ((s.pcb p).syscallArgs 0)) (children s p) = some q) :
    internalWait s = if (s.pcb (child s q)).status = .zombie then
      collectZombie s p q (child s q) else waitBlock s p := by
  rw [children] at hq
  simp only [internalWait, hp, deref, bind, Except.bind, hq]
  rfl

theorem collectZombie_isOk (hq : q ∈ children s p)
    (hb : s.Linked b → b ∈ (s.procs .zombie).items) :
    ∃ t, collectZombie s p q b = .ok t ∧ t.running = s.running := by
  have hok : ∃ t, collectZombie s p q b = .ok t :=
    bind_isOk (listDetach_ok.mpr ⟨hq, rfl⟩) (bind_isOk (detachZombie_ok.mpr ⟨hb, rfl⟩) ⟨_, rfl⟩)
  obtain ⟨t, ht⟩ := hok
  obtain ⟨-, -, rfl⟩ := collectZombie_ok ht
  exact ⟨_, ht, by simp [reaped]⟩

theorem waitBlock_stuck (hl : ¬ s.Linked p) (hr : (s.procs .ready).items = []) :
    waitBlock s p = .error .nullPointer := by
  refine bind_error (suspend_ok.mpr ⟨hl, rfl⟩) ?_
  rw [suspended_ready, ListHead.first, hr]
  rfl

theorem exitToParent_stuck (ha : a ∈ (s.procs .waiting).items)
    (hq : pcbPtrByPid s (s.pcb a).children (s.pcb p).pid = none) :
    exitToParent s p a = .error .nullPointer := by
  refine bind_error (Kernel.detachProc_ok.mpr ⟨ha, rfl⟩) ?_
  have hnone : ∀ u : Kernel, u.pcbPtrs = s.pcbPtrs → (∀ k, (u.pcb k).pid = (s.pcb k).pid) →
      (u.pcb a).children = (s.pcb a).children →
      deref (pcbPtrByPid u (u.pcb a).children (u.pcb p).pid) = .error .nullPointer := by
    intro u hptr hpid hch
    have : pcbPtrByPid u (u.pcb a).children (u.pcb p).pid = none := by
      simpa only [pcbPtrByPid, hptr, hpid, hch] using hq
    rw [this]
    rfl
  exact bind_stuck (hnone _ (by simp) (by simp) (by simp))

theorem LeavesRunning.of_ok {r : Except Fault Kernel} (hr : r = .ok t) (hq : t.running = some q)
    (h : RunsNext s p hd q) : LeavesRunning s p hd r := Or.inr ⟨t, q, hr, hq, h⟩

theorem not_leavesRunning {r : Except Fault Kernel} (hr : r = .error .nullPointer) :
    ¬ LeavesRunning s p hd r := by
  subst hr
  rintro (h | ⟨t, q, h, -⟩) <;> cases h

theorem internalWait_safe_iff (h : KernelInv s) (hp : s.running = some p) :
    CollectsListed s p (toInt ((s.pcb p).syscallArgs 0)) ∧
        LeavesRunning s p .wait (internalWait s) ↔
      ∀ q ∈ awaitedPtr s (toInt ((s.pcb p).syscallArgs 0)) (children s p),
        if (s.pcb (child s q)).status = .zombie then child s q ∈ (s.procs .zombie).items
        else (s.procs .ready).items ≠ [] := by
  unfold CollectsListed
  cases hq : awaitedPtr s (toInt ((s.pcb p).syscallArgs 0)) (children s p) with
  | none =>
    have hok : LeavesRunning s p .wait (internalWait s) :=
      .of_ok (internalWait_none hp hq) hp (Or.inr (Or.inl rfl))
    simp [hok]
  | some q =>
    rw [internalWait_some hp hq]
    simp only [Option.mem_some_iff, forall_eq']
    split_ifs with hz
    · constructor
      · exact fun hs => hs.1 hz
      · intro hb
        obtain ⟨t, ht, hrun⟩ := collectZombie_isOk (awaitedPtr_mem hq) fun _ => hb
        exact ⟨fun _ => hb, .of_ok ht (hrun.trans hp) (Or.inr (Or.inl rfl))⟩
    · have hl := h.proc.not_linked hp
      constructor
      · rintro ⟨-, hs⟩ hr
        exact not_leavesRunning (waitBlock_stuck hl hr) hs
      · intro hr
        obtain ⟨q', rest, hqr⟩ := List.exists_cons_of_ne_nil hr
        refine ⟨fun h => absurd h hz, .of_ok (waitBlock_ok.mpr ⟨hl, q', rest, hqr, rfl⟩) rfl ?_⟩
        exact Or.inl (by simp [hqr])

/-- The exit of a process other than init returns, or comes upon a null pointer. -/
theorem internalExit_cases (h : KernelInv s) (hc : PtrInv s) (hres : ResInv s)
    (hp : s.running = some p) (hi : s.initPcb = some i) (hpi : p ≠ i) :
    (CanExit s p i ∧ ∃ t q, internalExit s = .ok t ∧ t.running = some q ∧ RunsNext s p .exit q) ∨
      ¬ CanExit s p i ∧ internalExit s = .error .nullPointer := by
  cases ha : (s.pcb p).parent with
  | none =>
    refine Or.inr ⟨?_, bind_stuck (exitPrologue_orphan h hc hp ha hi hpi)⟩
    rintro ⟨a, ha', -⟩
    cases ha.symm.trans ha'
  | some a =>
    have hcan : CanExit s p i ↔
        if WaitsFor s a p then pcbPtrByPid s (reparented s p i a) (s.pcb p).pid ≠ none
        else (s.procs .ready).items ≠ [] := by simp [CanExit, ha]
    rw [hcan]
    have hl := h.proc.not_linked hp
    have hpw : (s.pcb p).status ≠ .waiting := fun hw =>
      hl (Or.inr (Or.inl ((h.proc.waiting p).mp hw)))
    obtain ⟨sig, hpro⟩ := exitPrologue_isOk h hc hp ha hi hpi
    have hready : ((zombified s p i sig).procs .ready).items = (s.procs .ready).items := by
      simp [zombified]
    by_cases hw : WaitsFor s a p
    · have haw := (h.proc.waiting a).mp hw.1
      have haw' : a ∈ ((zombified s p i sig).procs .waiting).items := by simpa [zombified] using haw
      have hfind : pcbPtrByPid (zombified s p i sig) ((zombified s p i sig).pcb a).children
          ((zombified s p i sig).pcb p).pid = pcbPtrByPid s (reparented s p i a) (s.pcb p).pid := by
        simp [pcbPtrByPid, zombified]
      simp only [if_pos hw]
      cases hq : pcbPtrByPid s (reparented s p i a) (s.pcb p).pid with
      | none =>
        refine Or.inr ⟨by simp, ?_⟩
        rw [internalExit_eq hpro, if_pos ((waitsFor_zombified hpw).mpr hw)]
        exact exitToParent_stuck haw' (hfind.trans hq)
      | some q =>
        obtain ⟨t, ht, hd⟩ := internalExit_toParent h hc hres hp ha hi hpi hw hq
        exact Or.inl ⟨by simp, t, a, ht, hd.running, Or.inr (Or.inr ⟨rfl, ha, hw⟩)⟩
    · rw [internalExit_eq hpro, if_neg fun hw' => hw ((waitsFor_zombified hpw).mp hw')]
      simp only [if_neg hw]
      by_cases hr : (s.procs .ready).items = []
      · refine Or.inr ⟨not_not.mpr hr, bind_stuck ?_⟩
        rw [ListHead.first, hready, hr]
        rfl
      · obtain ⟨q, rest, hqr⟩ := List.exists_cons_of_ne_nil hr
        have hqr' := hready.trans hqr
        refine Or.inl ⟨hr, _, q, bind_ok.mpr ⟨q, deref_first_ok.mpr ⟨rest, hqr'⟩, bind_ok.mpr
          ⟨_, (Kernel.detachProc_first_ok hqr').mpr rfl, rfl⟩⟩, rfl, Or.inl (by simp [hqr])⟩

theorem internalExit_safe_iff (h : KernelInv s) (hc : PtrInv s) (hres : ResInv s)
    (hp : s.running = some p) (hi : s.initPcb = some i) (hpi : p ≠ i) :
    LeavesRunning s p .exit (internalExit s) ↔ CanExit s p i := by
  rcases internalExit_cases h hc hres hp hi hpi with ⟨hcan, t, q, ht, hq, hnext⟩ | ⟨hno, hr⟩
  · exact iff_of_true (.of_ok ht hq hnext) hcan
  · exact iff_of_false (not_leavesRunning hr) hno

theorem timerPrevious_mem {t : TimerTable} {time : ℤ} {prev : Option ℕ} {l : List ℕ}
    (h : timerPrevious t time prev l = some i) : prev = some i ∨ i ∈ l := by
  fun_induction timerPrevious t time prev l with
  | case1 => exact Or.inl h
  | case2 => exact Or.inl h
  | case3 prev j js _ ih =>
    rcases ih h with hj | hj
    · exact Or.inr (by simp [Option.some.inj hj])
    · exact Or.inr (List.mem_cons_of_mem j hj)

theorem timerListAdd_isOk {t : TimerTable} (time : ℤ) (p : ℕ)
    (h : ∀ i ∈ t.list.items, t.item.InUse i) :
    ∃ o, timerListAdd t time p = .ok o := by
  unfold timerListAdd
  simp only
  split
  · exact ⟨none, rfl⟩
  · rename_i j t' hj
    unfold timerItemAlloc at hj
    split at hj
    · cases hj
    rename_i k st hk
    obtain ⟨rfl, rfl⟩ := Prod.mk.inj (Option.some.inj hj)
    have hfresh : k ∉ t.list.items := fun hm => (Store.alloc_eq_some hk).fresh (h k hm)
    have hins : ∃ l, listInsert t.list (timerPrevious t time none t.list.items) k = .ok l := by
      unfold listInsert
      rw [if_neg hfresh]
      cases hprev : timerPrevious t time none t.list.items with
      | none => exact ⟨_, rfl⟩
      | some q =>
        have hq := (timerPrevious_mem hprev).resolve_left (by simp)
        exact ⟨_, by simp only [hq, if_true]; rfl⟩
    obtain ⟨l, hl⟩ := hins
    exact bind_isOk hl ⟨_, rfl⟩

theorem internalSleep_isOk (h : KernelInv s) (hp : s.running = some p) :
    ∃ t, internalSleep s = .ok t := by
  refine bind_isOk (deref_ok.mpr hp) ?_
  split_ifs
  · exact ⟨_, rfl⟩
  obtain ⟨o, ho⟩ := timerListAdd_isOk (wakeTime s p) p fun i => (h.wake.timerInUse i).mp
  refine bind_isOk ho ?_
  cases o with
  | none => exact ⟨_, rfl⟩
  | some t =>
    have hl : ¬ (s.setTimers t).Linked p := h.proc.not_linked hp
    refine bind_isOk (suspend_ok.mpr ⟨hl, rfl⟩) ?_
    split
    · rename_i q hq
      obtain ⟨rest, hr⟩ := ListHead.first_eq_some hq
      exact bind_isOk ((Kernel.detachProc_first_ok hr).mpr rfl) ⟨_, rfl⟩
    · exact ⟨_, rfl⟩

theorem internalSleep_timer (hp : s.running = some p) (ht : (s.pcb p).timer.isSome) :
    internalSleep s = .ok (s.setRetvalue p dsosEsleep) := by
  simp only [internalSleep, hp, deref, bind, Except.bind, ht, if_true]

theorem internalSleep_safe_iff (h : KernelInv s) (hp : s.running = some p) :
    LeavesRunning s p .sleep (internalSleep s) ↔
      (s.pcb p).timer.isSome ∨ s.timers.item.pool.free = [] ∨ (s.procs .ready).items ≠ [] := by
  obtain ⟨t, ht⟩ := internalSleep_isOk h hp
  obtain ⟨p', hp', hcase⟩ := internalSleep_ok ht
  obtain rfl : p = p' := Option.some.inj (hp ▸ hp')
  constructor
  · rintro (hs | ⟨t', q, ht', hq, -⟩)
    · cases ht.symm.trans hs
    obtain rfl := Except.ok.inj (ht.symm.trans ht')
    rcases hcase with ⟨hnone, -⟩ | ⟨i, st, l, -, -, -, ⟨q', rest, hr, -⟩ | ⟨-, rfl⟩⟩
    · exact hnone.elim Or.inl fun hf => Or.inr (Or.inl hf)
    · exact Or.inr (Or.inr (by simp [hr]))
    · cases hq
  · intro hcan
    rcases hcan with htimer | hcan
    · exact .of_ok (internalSleep_timer hp htimer) hp (Or.inr (Or.inl rfl))
    rcases hcase with ⟨-, rfl⟩ | ⟨i, st, l, ha, -, -, ⟨q, rest, hr, rfl⟩ | ⟨hr, -⟩⟩
    · exact .of_ok ht hp (Or.inr (Or.inl rfl))
    · exact .of_ok ht rfl (Or.inl (by simp [hr]))
    · rcases hcan with hf | hr'
      · rw [ha.free] at hf
        cases hf
      · exact absurd hr hr'

theorem semWaitCount_isOk {x : ℕ} (hp : s.running = some p) : ∃ t, semWaitCount s x = .ok t :=
  bind_isOk (deref_ok.mpr hp) ⟨_, rfl⟩

/-- The semWait of `p` on the descriptor number `fd` blocks. -/
def SemWaitBlocks (s : Kernel) (p : ℕ) (fd : ℤ) : Prop :=
  ∃ d ∈ semDescriptorListByFd s.sems (s.pcb p).semDescriptors fd,
    (s.sems.semaphore.cell (s.sems.descriptor.cell d).semaphore).count ≤ 0

instance (s : Kernel) (p : ℕ) (fd : ℤ) : Decidable (SemWaitBlocks s p fd) :=
  inferInstanceAs (Decidable (∃ d ∈ semDescriptorListByFd _ _ _, _))

theorem internalSemWait_returns (h : KernelInv s) (hp : s.running = some p) :
    (SemWaitBlocks s p (toInt ((s.pcb p).syscallArgs 0)) ∧ (s.procs .ready).items = [] ∧
        internalSemWait s = .error .shutdown) ∨
      (SemWaitBlocks s p (toInt ((s.pcb p).syscallArgs 0)) → (s.procs .ready).items ≠ []) ∧
        ∃ t, internalSemWait s = .ok t := by
  have hl := h.proc.not_linked hp
  unfold internalSemWait
  simp only [hp, deref, bind, Except.bind]
  split
  · rename_i hd
    exact Or.inr ⟨by simp [SemWaitBlocks, hd], _, rfl⟩
  rename_i d hd
  have hlink := h.sem.linked p d (SemInv.byFd_mem hd)
  split_ifs with hc
  · -- a running process stands in no queue yet
    have hw : (s.sems.descriptor.cell d).waitPtr ∉ (s.sems.semaphore.cell
        (s.sems.descriptor.cell d).semaphore).waitingDescriptors.items := by
      intro hm
      refine h.waiter_ne hp hm ?_
      rw [waiter, hlink.waitPtr, hlink.owner]
    have hsus (u : SemTable) : suspend (s.setSems u) p = .ok (suspended (s.setSems u) p) :=
      suspend_ok.mpr ⟨hl, rfl⟩
    simp only [listInsert_last_ok.mpr ⟨hw, rfl⟩, hsus]
    split
    · rename_i q hq
      obtain ⟨rest, hr⟩ := ListHead.first_eq_some hq
      simp only [(Kernel.detachProc_first_ok hr).mpr rfl]
      have hne : (s.procs .ready).items ≠ [] := by
        rw [show (s.procs .ready).items = q :: rest from hr]
        simp
      exact Or.inr ⟨fun _ => hne, semWaitCount_isOk rfl⟩
    · rename_i hq
      have hr := ListHead.first_eq_none hq
      exact Or.inl ⟨⟨d, hd, hc⟩, hr, rfl⟩
  · exact Or.inr ⟨by simp [SemWaitBlocks, hd, hc], semWaitCount_isOk hp⟩

theorem internalSemWait_safe (h : KernelInv s) (hp : s.running = some p) :
    LeavesRunning s p .semWait (internalSemWait s) := by
  rcases internalSemWait_returns h hp with ⟨-, -, hs⟩ | ⟨-, t, ht⟩
  · exact Or.inl hs
  obtain ⟨p', hp', hcase⟩ := internalSemWait_ok ht
  obtain rfl : p = p' := Option.some.inj (hp ▸ hp')
  rcases hcase with ⟨-, rfl⟩ | ⟨d, x, w, -, -, -, ⟨-, rfl⟩ | ⟨-, -, -, q, rest, hr, rfl⟩⟩
  · exact .of_ok ht hp (Or.inr (Or.inl rfl))
  · exact .of_ok ht hp (Or.inr (Or.inl rfl))
  · exact .of_ok ht rfl (Or.inl (by simp [hr]))

/-! ### The system calls -/

variable (s p n args) in
theorem awaitedPtr_enterSyscall (pid : ℤ) (l : List ℕ) :
    awaitedPtr (enterSyscall s p n args) pid l = awaitedPtr s pid l := by
  have hstatus : ∀ k, ((enterSyscall s p n args).pcb k).status = (s.pcb k).status := fun k => by
    simp [enterSyscall]
  have hpid : ∀ k, ((enterSyscall s p n args).pcb k).pid = (s.pcb k).pid := fun k => by
    simp [enterSyscall]
  have hptr : (enterSyscall s p n args).pcbPtrs = s.pcbPtrs := by simp [enterSyscall]
  fun_induction awaitedPtr s pid l with
  | case1 => rfl
  | case2 => rfl
  | case3 q q' qs hq => simp only [awaitedPtr, hptr, hstatus, hpid, hq, if_true]
  | case4 q q' qs hq ih => simp only [awaitedPtr, hptr, hstatus, hpid, hq, if_false, ih]

variable (s p n args) in
theorem leavesRunning_enterSyscall (r : Except Fault Kernel) :
    LeavesRunning (enterSyscall s p n args) p hd r ↔ LeavesRunning s p hd r := by
  have hpar : ((enterSyscall s p n args).pcb p).parent = (s.pcb p).parent := by
    simp [enterSyscall]
  have hruns : ∀ q, RunsNext (enterSyscall s p n args) p hd q ↔ RunsNext s p hd q := by
    intro q
    unfold RunsNext
    rw [hpar]
    by_cases hqp : q = p
    · simp [hqp]
    · rw [waitsFor_enterSyscall hqp]
      rfl
  simp only [LeavesRunning, hruns]

/-- The entry into the kernel changes nothing that the exit needs. -/
theorem canExit_enterSyscall (h : KernelInv s) (hp : s.running = some p) :
    CanExit (enterSyscall s p n args) p i ↔ CanExit s p i := by
  have hpid : ∀ k, ((enterSyscall s p n args).pcb k).pid = (s.pcb k).pid := fun k => by
    simp [enterSyscall]
  have hpar : ((enterSyscall s p n args).pcb p).parent = (s.pcb p).parent := by
    simp [enterSyscall]
  have hprocs : (enterSyscall s p n args).procs = s.procs := rfl
  have hwaits : ∀ a, WaitsFor (enterSyscall s p n args) a p ↔ WaitsFor s a p := by
    intro a
    by_cases hap : a = p
    · have hpw : (s.pcb p).status ≠ .waiting := fun hw =>
        h.not_waiting hp ((h.proc.waiting p).mp hw)
      simp [WaitsFor, hap, enterSyscall, hpw]
    · exact waitsFor_enterSyscall hap
  simp only [CanExit, hpar, hwaits, hpid, hprocs, pcbPtrByPid_enterSyscall,
    reparented_enterSyscall]

/-- Exactly when `CanGiveUp` does a call of wait, exit, sleep or semWait leave a process
running. -/
theorem givesUpSafely_iff (h : kernel.Reachable s) (hp : s.running = some p)
    (hd : Handler) (hhd : hd = .wait ∨ hd = .exit ∨ hd = .sleep ∨ hd = .semWait)
    (hexit : hd = .exit → s.initPcb ≠ some p) (args : List ℤ) :
    GivesUpSafely s p hd args ↔ CanGiveUp s p args hd := by
  have hk := KernelInv.reachable h
  have hke : KernelInv (enterSyscall s p hd.number args) := hk.enter hp
  have hpe : (enterSyscall s p hd.number args).running = some p := hp
  unfold GivesUpSafely
  rw [show kernel.step s = step s from rfl, step_handler hp,
    ← leavesRunning_enterSyscall s p hd.number args]
  rcases hhd with rfl | rfl | rfl | rfl
  · have harg : ((enterSyscall s p Handler.wait.number args).pcb p).syscallArgs 0 =
        args.getD 0 0 := by
      simp [enterSyscall, show syscallNumarg Handler.wait.number = 2 from rfl]
    have hstatus : ∀ k, ((enterSyscall s p Handler.wait.number args).pcb k).status =
        (s.pcb k).status := fun k => by simp [enterSyscall]
    have hch : children (enterSyscall s p Handler.wait.number args) p = children s p := by
      simp [children, enterSyscall]
    have hchild : child (enterSyscall s p Handler.wait.number args) = child s := rfl
    have hprocs : (enterSyscall s p Handler.wait.number args).procs = s.procs := rfl
    have hiff := internalWait_safe_iff hke hpe
    simp only [CollectsListed, harg, awaitedPtr_enterSyscall, hstatus, hch, hchild, hprocs] at hiff
    simpa [CanGiveUp, CollectsListed, runHandler] using hiff
  · obtain ⟨i, hi, -, -⟩ := hk.proc.init
    have hpi : p ≠ i := fun he => hexit rfl (he ▸ hi)
    have hres : ResInv (enterSyscall s p Handler.exit.number args) :=
      (ResInv.reachable h).frame (by constructor <;> intros <;> simp [enterSyscall])
    have hiff := internalExit_safe_iff hke ((PtrInv.reachable h).family enterSyscall_family) hres
      hpe hi hpi
    rw [canExit_enterSyscall hk hp] at hiff
    simpa [CanGiveUp, runHandler, hi] using hiff
  · simpa [CanGiveUp, runHandler, Handler.number, enterSyscall] using internalSleep_safe_iff hke hpe
  · simpa [CanGiveUp, runHandler] using internalSemWait_safe hke hpe

theorem givesUpSafely_exit :
    let s := kernel.replay [.syscall dsosCallSpawn [0, 0], .syscall dsosCallWait [0, 0]]
    s.running = some 1 ∧ GivesUpSafely s 1 .exit [7] := by
  refine ⟨by decide +kernel, ?_⟩
  exact (givesUpSafely_iff (System.reachable_replay _) (by decide +kernel) .exit
    (Or.inr (Or.inl rfl)) (by decide +kernel) [7]).mpr (by decide +kernel)

/-- A process that exits while init sleeps and nobody is ready detaches the null pointer. -/
theorem exit_detaches_null : ∃ s, kernel.Reachable s ∧ s.running = some 1 ∧
    s.initPcb ≠ some 1 ∧ (s.procs .waiting).items = [0] ∧ s.timers.list.items ≠ [] ∧
    ¬ GivesUpSafely s 1 .exit [7] := by
  refine ⟨_, System.reachable_replay [.syscall dsosCallSpawn [0, 0],
    .syscall dsosCallSleep [100]], by decide +kernel, by decide +kernel, by decide +kernel,
    by decide +kernel, fun h => ?_⟩
  exact not_leavesRunning (System.step_of_failure (by decide +kernel)) h.2

end DisastrOS
