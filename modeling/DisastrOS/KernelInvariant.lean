import DisastrOS.SemaphoreInvariant

/-! The invariants of all reachable states. -/
namespace DisastrOS
open BlockPool TransitionSystem

variable {s s' : Kernel} {p q b a i d e x w : ℕ} {rest : List ℕ}

/-! ### The system calls on processes and the scheduler leave semaphores and resources alone -/

theorem SameSemaphores.refl (s : Kernel) : SameSemaphores s s := ⟨rfl, fun _ => rfl, fun _ => rfl⟩

theorem SameResources.refl (s : Kernel) : SameResources s s := ⟨rfl, fun _ => rfl, fun _ => rfl⟩

theorem wakeElapsed_frame {fuel : ℕ} {prev : Option ℕ} (h : wakeElapsed fuel s prev = .ok s') :
    SameSemaphores s s' ∧ SameResources s s' := by
  refine wakeElapsed_induct (P := fun u => SameSemaphores s u ∧ SameResources s u)
    (fun u u' i prev _ hu hr => ?_) h ⟨.refl s, .refl s⟩
  obtain ⟨-, -, -, -, ready, j, rest, -, -, rfl⟩ := wakeTimer_ok hr
  refine ⟨hu.1.trans ?_, hu.2.trans ?_⟩ <;> constructor <;> intros <;> simp [wokenState]

theorem internalSchedule_frame (h : internalSchedule s = .ok s') :
    SameSemaphores s s' ∧ SameResources s s' := by
  obtain ⟨u, hu, ⟨-, rfl⟩ | ⟨p, q, rest, -, -, -, -, -, rfl⟩⟩ := internalSchedule_ok h
  · exact wakeElapsed_frame hu
  · obtain ⟨h1, h2⟩ := wakeElapsed_frame hu
    refine ⟨h1.trans ?_, h2.trans ?_⟩ <;> constructor <;> intros <;> simp [rotated]

theorem internalSleep_frame (h : internalSleep s = .ok s') :
    SameSemaphores s s' ∧ SameResources s s' := by
  obtain ⟨p, -, ⟨-, rfl⟩ | ⟨i, st, l, -, -, -, ⟨q, rest, -, rfl⟩ | ⟨-, rfl⟩⟩⟩ := internalSleep_ok h
  · exact ⟨.setRetvalue s p _, .setRetvalue s p _⟩
  · constructor <;> constructor <;> intros <;> simp [dispatched, suspended]
  · constructor <;> constructor <;> intros <;> simp [suspended]

theorem internalWait_frame (h : internalWait s = .ok s') :
    SameSemaphores s s' ∧ SameResources s s' := by
  obtain ⟨p, -, ⟨-, rfl⟩ | ⟨q, b, -, -, ⟨-, hc⟩ | ⟨-, hw⟩⟩⟩ := internalWait_ok h
  · exact ⟨.setRetvalue s p _, .setRetvalue s p _⟩
  · obtain ⟨-, -, rfl⟩ := collectZombie_ok hc
    constructor <;> constructor <;> intros <;> simp [reaped]
  · obtain ⟨-, q, rest, -, rfl⟩ := waitBlock_ok.mp hw
    constructor <;> constructor <;> intros <;> simp [dispatched, suspended]

theorem zombified_frame (s : Kernel) (p i : ℕ) (sig : ℕ → BitVec 32) :
    SameSemaphores s (zombified s p i sig) ∧ SameResources s (zombified s p i sig) := by
  constructor <;> constructor <;> intros <;> simp [zombified]

/-- A process without timers keeps the timers as they are. -/
theorem releaseTimers_eq {t : TimerTable} {l : List ℕ} (h : ∀ i ∈ l, (t.item.cell i).pcb ≠ p) :
    releaseTimers t p l = .ok t := by
  induction l with
  | nil => rfl
  | cons i l ih =>
    rw [releaseTimers, if_neg (h i (by simp))]
    exact ih fun j hj => h j (by simp [hj])

theorem setTimers_self {t : TimerTable} (h : t = s.timers) : s.setTimers t = s := by
  rw [h]
  rfl

/-- The ways in which the process `p` ends; `a` is its parent, and its children go to `i`. -/
inductive ExitReturns (s s' : Kernel) (p a i : ℕ) (sig : ℕ → BitVec 32) : Prop
  /-- The parent waits for it and takes it over through the pointer `q`. -/
  | toParent (q : ℕ) (u : Kernel) (waits : WaitsFor s a p) (waiting : a ∈ (s.procs .waiting).items)
      (found : pcbPtrByPid s (reparented s p i a) (s.pcb p).pid = some q)
      (released : releaseDescriptors ((s.pcb p).descriptors.items.length + 1)
        (handedToParent (zombified s p i sig) p a q) p = .ok u)
      (result : s' = reclaimed u p a)
  /-- It stays as a zombie. -/
  | toNext (q : ℕ) (rest : List ℕ) (noWaiter : ¬ WaitsFor s a p)
      (ready : (s.procs .ready).items = q :: rest)
      (result : s' = resumed (zombified s p i sig) q rest)

theorem waitsFor_zombified {sig : ℕ → BitVec 32} (hp : (s.pcb p).status ≠ .waiting) :
    WaitsFor (zombified s p i sig) a p ↔ WaitsFor s a p := by
  by_cases hap : a = p
  · subst hap
    simp [WaitsFor, zombified, hp]
  · simp [WaitsFor, zombified, hap]

theorem internalExit_returns (hproc : ProcInv s) (hwake : WakeInv s)
    (h : internalExit s = .ok s') : ∃ p a i sig, s.running = some p ∧
      (s.pcb p).parent = some a ∧ s.initPcb = some i ∧ p ≠ i ∧ ExitReturns s s' p a i sig := by
  obtain ⟨p, a, i, sig, hp, ha, hl, hi, he⟩ := internalExit_ok h
  have hpw : (s.pcb p).status ≠ .waiting := fun hw => hl (Or.inr (Or.inl ((hproc.waiting p).mp hw)))
  have hpi : p ≠ i := by
    rintro rfl
    rw [hproc.parent p hi] at ha
    cases ha
  refine ⟨p, a, i, sig, hp, ha, hi, hpi, ?_⟩
  rw [waitsFor_zombified hpw] at he
  rcases he with ⟨hw, he⟩ | ⟨hw, q, rest, hr, rfl⟩
  · have haw := (hproc.waiting a).mp hw.1
    have hpa := (hproc.running_ne hp haw).symm
    obtain ⟨-, q, t, u, hq, ht, hu, -, rfl⟩ := exitToParent_ok hpa he
    have hnone : ∀ j ∈ s.timers.list.items, (s.timers.item.cell j).pcb ≠ p := fun j hj hjp =>
      hl (Or.inr (Or.inl (hjp ▸ (hwake.sleeping j hj).1)))
    obtain rfl : s.timers = t := Except.ok.inj ((releaseTimers_eq hnone).symm.trans ht)
    have hdesc : ((zombified s p i sig).pcb p).descriptors = (s.pcb p).descriptors := by
      simp [zombified]
    have htimers : (handedToParent (zombified s p i sig) p a q).setTimers s.timers =
        handedToParent (zombified s p i sig) p a q :=
      setTimers_self (by simp [handedToParent, zombified])
    rw [hdesc, htimers] at hu
    refine .toParent q u hw haw ?_ hu rfl
    simpa [zombified, pcbPtrByPid] using hq
  · exact .toNext q rest hw hr rfl

/-- The resources of `p` are gone, and the rest is as it was. -/
theorem releaseDescriptors_frame {fuel : ℕ} (h : releaseDescriptors fuel s p = .ok s') :
    SameProcesses s s' ∧ SameSemaphores s s' := by
  obtain ⟨l, t, rfl⟩ := releaseDescriptors_ok h
  constructor <;> constructor <;> intros <;> simp

theorem internalExit_frame (hproc : ProcInv s) (hwake : WakeInv s) (h : internalExit s = .ok s') :
    SameSemaphores s s' := by
  obtain ⟨p, a, i, sig, hp, -, -, -, he⟩ := internalExit_returns hproc hwake h
  cases he with
  | toParent q u _ _ _ released result =>
    subst result
    have h1 := (zombified_frame s p i sig).1
    have h2 : SameSemaphores (zombified s p i sig) (handedToParent (zombified s p i sig) p a q) := by
      constructor <;> intros <;> simp [handedToParent]
    have h3 : SameSemaphores u (reclaimed u p a) := by
      constructor <;> intros <;> simp [reclaimed]
    exact ((h1.trans h2).trans (releaseDescriptors_frame released).2).trans h3
  | toNext q rest _ _ result =>
    subst result
    refine (zombified_frame s p i sig).1.trans ?_
    constructor <;> intros <;> simp [resumed]

/-! ### All invariants together -/

structure KernelInv (s : Kernel) : Prop where
  proc : ProcInv s
  wake : WakeInv s
  sem : SemInv s

theorem timerListCurrent_ok {t : TimerTable} {time : ℤ} (h : timerListCurrent t time = some i) :
    ∃ rest, t.list.items = i :: rest := by
  unfold timerListCurrent at h
  split at h
  · cases h
  · rename_i j hj
    split_ifs at h
    obtain rfl := Option.some.inj h
    exact ListHead.first_eq_some hj

theorem WakeInv.wakeElapsed {fuel : ℕ} {prev : Option ℕ} (hproc : ProcInv s) (h : WakeInv s)
    (hs : wakeElapsed fuel s prev = .ok s') : WakeInv s' := by
  refine (wakeElapsed_induct (P := fun u => ProcInv u ∧ WakeInv u)
    (fun u u' i prev hi hu hr => ⟨hu.1.wakeTimer hr, ?_⟩) hs ⟨hproc, h⟩).2
  obtain ⟨-, -, -, -, ready, j, rest, -, hj, rfl⟩ := wakeTimer_ok hr
  obtain ⟨rest', hi⟩ := timerListCurrent_ok hi
  obtain ⟨rfl, rfl⟩ : i = j ∧ rest' = rest := List.cons.inj (hi.symm.trans hj)
  apply hu.2.leaveSleep (hu.1.nodup .waiting) hi
  all_goals simp [wokenState, timerItemFree, sleeper]

namespace KernelInv

theorem not_waiting (h : KernelInv s) (hp : s.running = some p) :
    p ∉ (s.procs .waiting).items := fun hw => h.proc.not_linked hp (Or.inr (Or.inl hw))

theorem waiter_ne (h : KernelInv s) (hp : s.running = some p) (hw : w ∈ queue s x) :
    waiter s w ≠ p := fun he => h.not_waiting hp (he ▸ (h.wake.queued x w hw).1)

/-- A change that leaves processes, semaphores and timers as they are. -/
theorem frame (h : KernelInv s) (h1 : SameProcesses s s') (h2 : SameSemaphores s s') :
    KernelInv s' where
  proc := h.proc.frame h1
  sem := h.sem.frame h2
  wake := h.wake.congr h1.timers (by rw [h1.procs]) (fun k _ => h1.syscallNum k)
    (fun x => by rw [queue, queue, h2.sems]) (fun x w _ => by rw [waiter, waiter, h2.sems])

theorem setRetvalue {v : ℤ} (h : KernelInv s) : KernelInv (s.setRetvalue p v) :=
  h.frame (.setRetvalue s p v) (.setRetvalue s p v)

theorem internalSchedule (h : KernelInv s) (hs : internalSchedule s = .ok s') : KernelInv s' := by
  refine ⟨h.proc.internalSchedule hs, ?_, h.sem.frame (internalSchedule_frame hs).1⟩
  obtain ⟨u, hu, ⟨-, rfl⟩ | ⟨p, q, rest, -, -, -, -, -, rfl⟩⟩ := internalSchedule_ok hs
  · exact h.wake.wakeElapsed h.proc hu
  · apply (h.wake.wakeElapsed h.proc hu).congr
    all_goals simp [rotated, queue, waiter]

/-- Nobody that waits for a semaphore is new. -/
theorem waiter_old (h : KernelInv s) (hb : ¬ s.pcbs.InUse b) (hw : w ∈ queue s x) :
    waiter s w ≠ b := fun he => hb (he ▸ h.proc.inUse_of_mem (h.wake.queued x w hw).1)

theorem newChild {cpu : Option ℤ} (h : KernelInv s) (hp : s.running = some p)
    (hc : NewChild s s' p b q cpu) : KernelInv s' := by
  refine ⟨h.proc.newChild hp hc, ?_,
    h.sem.newProcess hc.newProcess fun x w => h.waiter_old hc.fresh⟩
  refine h.wake.congr hc.timers (by rw [hc.newProcess.waiting]) (fun k hk => ?_)
    (fun x => by rw [queue, queue, hc.sems]) (fun x w _ => by rw [waiter, waiter, hc.sems])
  have hkb : k ≠ b := fun he => hc.fresh (he ▸ h.proc.inUse_of_mem hk)
  rw [hc.pcb, if_neg hkb]
  split_ifs <;> rfl

/-- Another first process has come up. -/
theorem started (h : KernelInv s) (hidle : s.running = none) (hc : Started s s' b) :
    KernelInv s' := by
  refine ⟨h.proc.started hidle hc, ?_,
    h.sem.newProcess hc.newProcess fun x w => h.waiter_old hc.fresh⟩
  refine h.wake.congr hc.timers (by rw [hc.procs]) (fun k hk => ?_)
    (fun x => by rw [queue, queue, hc.sems]) (fun x w _ => by rw [waiter, waiter, hc.sems])
  have hkb : k ≠ b := fun he => hc.fresh (he ▸ h.proc.inUse_of_mem hk)
  rw [hc.pcb, if_neg hkb]

theorem internalSleep (h : KernelInv s) (hp : s.running = some p)
    (hn : (s.pcb p).syscallNum = dsosCallSleep) (hs : internalSleep s = .ok s') :
    KernelInv s' := by
  refine ⟨h.proc.internalSleep hs, ?_, h.sem.frame (internalSleep_frame hs).1⟩
  obtain ⟨p', hp', ⟨-, rfl⟩ | ⟨i, st, l, ha, hl, -, hd⟩⟩ := internalSleep_ok hs
  · exact h.setRetvalue.wake
  obtain rfl : p = p' := Option.some.inj (hp ▸ hp')
  rcases hd with ⟨q, rest, -, rfl⟩ | ⟨-, rfl⟩
  · apply h.wake.enterSleep (h.not_waiting hp) hn ha
    case hlist => exact (listInsert_ok hl).2.1
    all_goals simp [dispatched, suspended]
  · apply h.wake.enterSleep (h.not_waiting hp) hn ha
    case hlist => exact (listInsert_ok hl).2.1
    all_goals simp [suspended]

theorem internalWait (h : KernelInv s) (hp : s.running = some p)
    (hn : (s.pcb p).syscallNum = dsosCallWait) (hs : internalWait s = .ok s') : KernelInv s' := by
  refine ⟨h.proc.internalWait hs, ?_, h.sem.frame (internalWait_frame hs).1⟩
  obtain ⟨p', hp', hcase⟩ := internalWait_ok hs
  obtain rfl : p = p' := Option.some.inj (hp ▸ hp')
  rcases hcase with ⟨-, rfl⟩ | ⟨q, b, -, -, ⟨-, hc⟩ | ⟨-, hw⟩⟩
  · exact h.setRetvalue.wake
  · obtain ⟨-, -, rfl⟩ := collectZombie_ok hc
    apply h.wake.congr
    all_goals simp [reaped, queue, waiter]
  · obtain ⟨-, q, rest, -, rfl⟩ := waitBlock_ok.mp hw
    exact h.wake.enterWait (h.not_waiting hp) hn

theorem internalExit (h : KernelInv s) (hs : internalExit s = .ok s') : KernelInv s' := by
  refine ⟨h.proc.internalExit hs, ?_, h.sem.frame (internalExit_frame h.proc h.wake hs)⟩
  obtain ⟨p, a, i, sig, hp, -, -, -, he⟩ := internalExit_returns h.proc h.wake hs
  cases he with
  | toParent q u waits waiting found released result =>
    subst result
    obtain ⟨l, t, rfl⟩ := releaseDescriptors_ok released
    apply h.wake.leaveWait (h.proc.nodup .waiting) waits.2.1
    all_goals simp [reclaimed, handedToParent, zombified]
  | toNext q rest _ _ result =>
    subst result
    apply h.wake.congr
    all_goals simp [resumed, zombified, queue, waiter]

theorem openDescriptor (h : KernelInv s) (hx : x ∈ s.sems.list.items)
    (hno : ∀ f ∈ (s.pcb p).semDescriptors.items, (s.sems.descriptor.cell f).semaphore ≠ x)
    (hs : semOpenDescriptor s p x = .ok s') : KernelInv s' := by
  rcases semOpenDescriptor_ok hs with ⟨-, rfl⟩ | ⟨d, hf⟩ | ⟨d, e, w, ho⟩
  · exact h.setRetvalue
  · refine ⟨h.proc.frame hf.processes, ?_, h.sem.openFailed hf⟩
    exact h.wake.congr hf.processes.timers (by rw [hf.processes.procs])
      (fun k _ => hf.processes.syscallNum k) (SemInv.queue_openFailed hf)
      fun y w hw => h.sem.waiter_openFailed hf hw
  · refine ⟨h.proc.frame ho.processes, ?_, h.sem.opened ho hx hno⟩
    exact h.wake.congr ho.processes.timers (by rw [ho.processes.procs])
      (fun k _ => ho.processes.syscallNum k) (SemInv.queue_opened ho)
      fun y w hw => h.sem.waiter_opened ho hw

theorem semCreated {st : Store Semaphore} {id value : ℤ} (h : KernelInv s)
    (ha : Store.Allocated s.sems.semaphore st x
      (fun c => { c with id := id, count := value, descriptors := .init }))
    (hx : x ∉ s.sems.list.items) (hid : semaphoreListById s.sems id = none) :
    KernelInv (semCreated s x st) := by
  refine ⟨h.proc.frame (.setSems s _), ?_, h.sem.created ha hx fun y hy => ?_⟩
  · refine h.wake.congr rfl rfl (fun _ _ => rfl) (fun y => ?_) (fun _ _ _ => rfl)
    change (st.cell y).waitingDescriptors.items = queue s y
    rw [ha.cell]
    split_ifs <;> rfl
  · simpa using List.find?_eq_none.mp hid y hy

theorem internalSemOpen (h : KernelInv s) (hs : internalSemOpen s = .ok s') : KernelInv s' := by
  obtain ⟨p, hp, ⟨d, -, rfl⟩ | ⟨hnone, ⟨x, hx, hs⟩ | ⟨hid, ⟨-, rfl⟩ | ⟨x, st, ha, hx, hs⟩⟩⟩⟩ :=
    internalSemOpen_ok hs
  · exact h.setRetvalue
  · refine h.openDescriptor (List.mem_of_find?_eq_some hx) (fun f hf he => ?_) hs
    have h1 := List.find?_eq_none.mp hnone f hf
    have h2 := List.find?_some hx
    rw [he] at h1
    simp only [decide_eq_true_eq] at h1 h2
    exact h1 h2.symm
  · exact h.setRetvalue
  · refine (h.semCreated ha hx hid).openDescriptor (by simp [DisastrOS.semCreated])
      (fun f hf he => hx ?_) hs
    exact he ▸ (h.sem.linked p f hf).listed

theorem internalSemClose (h : KernelInv s) (hs : internalSemClose s = .ok s') : KernelInv s' := by
  obtain ⟨p, hp, ⟨-, rfl⟩ | ⟨d, x, e, w, hd, hx, he, hw, hc⟩⟩ := internalSemClose_ok hs
  · exact h.setRetvalue
  have hl := h.sem.linked p d (SemInv.byFd_mem hd)
  replace hc := hc hl.inUse (he ▸ hl.ptrInUse) (hw ▸ hl.waitPtrInUse) (hw ▸ he ▸ hl.differ)
    ((h.sem.inUse x).mp (hx ▸ hl.listed))
  refine ⟨h.proc.frame hc.processes, ?_,
    h.sem.closed hc hx he hw fun y v hv => h.waiter_ne hp hv⟩
  exact h.wake.congr hc.processes.timers (by rw [hc.processes.procs])
    (fun k _ => hc.processes.syscallNum k) (SemInv.queue_closed hc)
    fun y v _ => SemInv.waiter_closed hc v

theorem internalSemWait (h : KernelInv s) (hp : s.running = some p)
    (hn : (s.pcb p).syscallNum = dsosCallSemwait) (hs : internalSemWait s = .ok s') :
    KernelInv s' := by
  obtain ⟨p', hp', hcase⟩ := internalSemWait_ok hs
  obtain rfl : p = p' := Option.some.inj (hp ▸ hp')
  rcases hcase with ⟨-, rfl⟩ | ⟨d, x, w, hd, hx, hw, ⟨-, rfl⟩ | ⟨-, hnot, -, q, rest, hr, rfl⟩⟩
  · exact h.setRetvalue
  · refine KernelInv.setRetvalue ⟨h.proc.frame (.setSems s _), ?_, h.sem.recount⟩
    refine h.wake.congr rfl rfl (fun _ _ => rfl) (fun y => ?_) (fun _ _ _ => rfl)
    rw [SemInv.queue_semSet]
    split_ifs with hy
    · rw [hy, queue]
    · rfl
  · have hdm := SemInv.byFd_mem hd
    have hl := h.sem.linked p d hdm
    refine KernelInv.setRetvalue ⟨(h.proc.frame (.setSems s _)).dispatched hp hr, ?_, ?_⟩
    · apply h.wake.enterQueue (h.not_waiting hp) hn (w := w) (x := x)
      case hw => rw [waiter, ← hw, hl.waitPtr, hl.owner]
      case hqueue => exact fun y => SemInv.queue_semSet y
      all_goals simp [dispatched, suspended, waiter, semSet]
    · refine (h.sem.enqueue (v := toInt ((s.sems.semaphore.cell x).count - 1)) hdm hx hw
        hnot).frame ?_
      constructor <;> intros <;> simp [dispatched, suspended, queue]

theorem internalSemPost (h : KernelInv s) (hs : internalSemPost s = .ok s') : KernelInv s' := by
  obtain ⟨p, hp, ⟨-, rfl⟩ | ⟨d, x, -, -, ⟨-, rfl⟩ |
    ⟨-, w, rest, b, hq, hb, hbw, -, -, -, rfl⟩⟩⟩ := internalSemPost_ok hs
  · exact h.setRetvalue
  · refine KernelInv.setRetvalue ⟨h.proc.frame (.setSems s _), ?_, h.sem.recount⟩
    refine h.wake.congr rfl rfl (fun _ _ => rfl) (fun y => ?_) (fun _ _ _ => rfl)
    rw [SemInv.queue_semSet]
    split_ifs with hy
    · rw [hy, queue]
    · rfl
  · have hproc := h.proc.internalSemPost hs
    have hwq : w ∈ queue s x := by simp [queue, hq]
    refine KernelInv.setRetvalue ⟨?_, ?_, ?_⟩
    · exact hproc.congr rfl rfl (fun _ => rfl) rfl (fun k => by simp) (fun k => by simp)
    · apply h.wake.leaveQueue (h.proc.nodup .waiting) (h.sem.queueNodup x) hwq
      case hqueue => exact fun y => SemInv.queue_semSet y
      case hwaiting => simp [semWoken, waiter, hb]
      all_goals simp [semWoken, waiter, semSet]
    · refine (h.sem.dequeue (v := toInt ((s.sems.semaphore.cell x).count + 1)) hwq).frame ?_
      constructor <;> intros <;> simp [semWoken, queue]

theorem runHandler {hd : Handler} (h : KernelInv s) (hp : s.running = some p)
    (hn : (s.pcb p).syscallNum = hd.number) (hs : runHandler hd s = .ok s') : KernelInv s' := by
  cases hd with
  | preempt => exact h.internalSchedule hs
  | fork =>
    obtain ⟨b, q, hc⟩ := internalFork_ok hp (h.proc.inUse_of_running hp) hs
    exact h.newChild hp hc
  | wait => exact h.internalWait hp hn hs
  | exit => exact h.internalExit hs
  | spawn =>
    obtain ⟨b, q, hc⟩ := internalSpawn_ok hp (h.proc.inUse_of_running hp) hs
    exact h.newChild hp hc
  | sleep => exact h.internalSleep hp hn hs
  | openResource => exact h.frame (internalOpenResource_frame hs).1 (internalOpenResource_frame hs).2
  | closeResource =>
    exact h.frame (internalCloseResource_frame hs).1 (internalCloseResource_frame hs).2
  | destroyResource =>
    exact h.frame (internalDestroyResource_frame hs).1 (internalDestroyResource_frame hs).2
  | shutdown => cases hs
  | semOpen => exact h.internalSemOpen hs
  | semClose => exact h.internalSemClose hs
  | semWait => exact h.internalSemWait hp hn hs
  | semPost => exact h.internalSemPost hs

theorem start : KernelInv disastrOSStart := by
  refine ⟨ProcInv.start, ?_, ?_⟩
  all_goals
    obtain ⟨t, hu, hc, hs⟩ := disastrOSStart_eq
    rw [hs]
    have hsem : ∀ x, emptyKernel.sems.semaphore.cell x = ⟨0, 0, .init, .init⟩ := fun _ => rfl
    have hown : ∀ k, (t.cell k).semDescriptors.items = [] := fun k => by
      rw [hc]
      split_ifs <;> rfl
  · refine ⟨List.nodup_nil, fun i => ?_, ?_, ?_, ?_, ?_, ?_⟩
    · have := Store.not_inUse_init maxNumProcesses (⟨0, 0⟩ : TimerItem) i
      simpa [emptyKernel] using this
    · exact fun _ hi => absurd hi List.not_mem_nil
    · exact fun _ hi => absurd hi List.not_mem_nil
    · exact fun _ _ hw => absurd hw List.not_mem_nil
    · exact fun _ _ _ _ hw => absurd hw List.not_mem_nil
    · exact fun _ hb => absurd hb List.not_mem_nil
  · refine ⟨List.nodup_nil, fun x => ?_, ?_, ?_, ?_, ?_, ?_, ?_, ?_, ?_, ?_, ?_⟩
    · have := Store.not_inUse_init maxNumSemaphores (⟨0, 0, .init, .init⟩ : Semaphore) x
      simpa [emptyKernel] using this
    · exact fun _ hx => absurd hx List.not_mem_nil
    · intro k
      simp [Kernel.pcb, hown]
    · intro k d hd
      simp [Kernel.pcb, hown] at hd
    · intro k d hd
      simp [Kernel.pcb, hown] at hd
    · exact fun x => List.nodup_nil
    · exact fun x => rfl
    · exact fun _ _ he => absurd he List.not_mem_nil
    · exact fun x => List.nodup_nil
    · exact fun x => rfl
    · exact fun _ _ hw => absurd hw List.not_mem_nil

theorem enter {n : ℤ} {args : List ℤ} (h : KernelInv s) (hp : s.running = some p) :
    KernelInv (enterSyscall s p n args) := by
  refine ⟨h.proc.enter, ?_, h.sem.frame ?_⟩
  · refine h.wake.congr rfl rfl (fun k hk => ?_) (fun _ => rfl) (fun _ _ _ => rfl)
    have hkp := h.proc.running_ne hp hk
    simp [enterSyscall, hkp]
  · constructor <;> intros <;> simp [enterSyscall]

theorem ticked (h : KernelInv s) : KernelInv (ticked s p) := by
  refine ⟨h.proc.ticked, ?_, h.sem.frame ?_⟩
  · exact h.wake.congr rfl rfl (fun k _ => by simp) (fun _ => rfl) (fun _ _ _ => rfl)
  · constructor <;> intros <;> simp [DisastrOS.ticked, Kernel.pcb]

theorem step {act : Action} (h : KernelInv s) (hs : step s act = .ok s') : KernelInv s' :=
  step_preserves (fun _ _ _ _ hp hi => hi.enter hp) (fun _ _ _ hi => hi.setRetvalue)
    (fun _ _ _ _ hp hn hi hr => hi.runHandler hp hn hr)
    (fun _ _ _ _ hi ht => hi.ticked.internalSchedule ht)
    (fun _ _ _ hidle hi hc => hi.started hidle hc) h hs

/-- The invariants hold in every state of every run. -/
theorem reachable (h : kernel.Reachable s) : KernelInv s :=
  h.invariant start fun _ _ _ _ hi hs => hi.step hs

end KernelInv
end DisastrOS
