import DisastrOS.SemaphoreCounts

/-! Which call determines the value that a process reads when it goes on. -/
namespace DisastrOS
open BlockPool TransitionSystem

variable {s t u : Kernel} {p q b k w x y : ℕ} {v : ℤ} {act : Action} {args : List ℤ}
  {l l' : List (ℕ × ℤ)} {L : ℕ → Option ℤ} {rest : List ℕ}

/-- The assignments to return values, the last first. -/
def assignments (l : List Event) : List (ℕ × ℤ) :=
  l.filterMap fun
    | .assigned b v => some (b, v)
    | _ => none

@[simp] theorem assignments_assigned (b : ℕ) (v : ℤ) (l : List Event) :
    assignments (.assigned b v :: l) = (b, v) :: assignments l := rfl

@[simp] theorem assignments_created (v : ℤ) (l : List Event) :
    assignments (.created v :: l) = assignments l := rfl

@[simp] theorem assignments_exited (v r : ℤ) (l : List Event) :
    assignments (.exited v r :: l) = assignments l := rfl

@[simp] theorem assignments_collected (v : ℤ) (b : ℕ) (r : Option ℤ) (l : List Event) :
    assignments (.collected v b r :: l) = assignments l := rfl

/-- The assignments between the two states. -/
def assignmentsSince (s t : Kernel) : List (ℕ × ℤ) :=
  (assignments t.trace).take ((assignments t.trace).length - (assignments s.trace).length)

/-- The step makes the assignments `l`, and leaves the other return values as they are. -/
structure Assigns (s t : Kernel) (l : List (ℕ × ℤ)) : Prop where
  trace : assignments t.trace = l ++ assignments s.trace
  retvalue : ∀ k, (t.pcb k).syscallRetvalue = (l.lookup k).getD (s.pcb k).syscallRetvalue

namespace Assigns

theorem since (h : Assigns s t l) : assignmentsSince s t = l := by
  simp [assignmentsSince, h.trace]

theorem trans (h : Assigns s t l) (h' : Assigns t u l') : Assigns s u (l' ++ l) := by
  refine ⟨by rw [h'.trace, h.trace, List.append_assoc], fun k => ?_⟩
  rw [h'.retvalue, h.retvalue, List.lookup_append]
  cases l'.lookup k with
  | none => rfl
  | some v => rfl

theorem keeps (ht : assignments t.trace = assignments s.trace)
    (hr : ∀ k, (t.pcb k).syscallRetvalue = (s.pcb k).syscallRetvalue) : Assigns s t [] :=
  ⟨ht, fun k => hr k⟩

theorem assigned (ht : assignments t.trace = (p, v) :: assignments s.trace)
    (hr : ∀ k, (t.pcb k).syscallRetvalue = if k = p then v else (s.pcb k).syscallRetvalue) :
    Assigns s t [(p, v)] := by
  refine ⟨ht, fun k => ?_⟩
  rw [hr, List.lookup_cons]
  by_cases hk : k = p
  · simp [hk]
  · simp [hk, beq_eq_false_iff_ne.mpr hk]

theorem self (h : Assigns s t [(p, v)]) : (t.pcb p).syscallRetvalue = v := by
  rw [h.retvalue, List.lookup_cons_self, Option.getD_some]

theorem lookup_of_ne (hb : b ≠ p) : [(p, v)].lookup b = none := by
  simp [List.lookup_cons, beq_eq_false_iff_ne.mpr hb]

theorem other (h : Assigns s t [(p, v)]) (hb : b ≠ p) :
    (t.pcb b).syscallRetvalue = (s.pcb b).syscallRetvalue := by
  rw [h.retvalue, lookup_of_ne hb, Option.getD_none]

theorem same (h : Assigns s t []) (b : ℕ) :
    (t.pcb b).syscallRetvalue = (s.pcb b).syscallRetvalue := h.retvalue b

theorem setRetvalue (s : Kernel) (p : ℕ) (v : ℤ) : Assigns s (s.setRetvalue p v) [(p, v)] := by
  refine .assigned (by simp) fun k => ?_
  by_cases hk : k = p
  · simp [hk]
  · simp [hk]

/-- A return value that is kept until it is assigned. -/
theorem thenSet (h : Assigns s t []) (p : ℕ) (v : ℤ) :
    Assigns s (t.setRetvalue p v) [(p, v)] := h.trans (.setRetvalue t p v)

theorem semSet (s : Kernel) (x : ℕ) (v : ℤ) (l : ListHead) : Assigns s (semSet s x v l) [] :=
  .keeps rfl fun _ => rfl

theorem internalSchedule (hk : KernelInv s) (hs : internalSchedule s = .ok t) :
    Assigns s t [] := by
  obtain ⟨u, hel, hcase⟩ := internalSchedule_elapsed hk hs
  have hu : Assigns s u [] := by
    refine .keeps (by rw [hel.trace]) fun k => ?_
    rw [hel.pcb]
    split_ifs
    · rfl
    · rfl
  rcases hcase with ⟨-, rfl⟩ | ⟨p, q, rest, -, -, rfl⟩
  · exact hu
  · exact hu.trans (.keeps (by simp [rotated]) fun k => by simp [rotated])

theorem newChild {cpu : Option ℤ} (h : NewChild s t p b q cpu) :
    Assigns s t [(p, s.lastPid)] := by
  refine .assigned (by simp [h.trace]) fun k => ?_
  rw [h.pcb]
  split_ifs with hb hp hp
  · exact absurd (hp.symm.trans hb) h.differ
  · rfl
  · rfl
  · rfl

/-- `PCB_alloc` leaves the field as it is in the block. -/
theorem started (h : Started s t b) : Assigns s t [] := by
  refine .keeps (by simp [h.trace]) fun k => ?_
  rw [h.pcb]
  split_ifs <;> rfl

end Assigns

/-- What the handler called by `p` assigns. -/
inductive ResultMove (s t : Kernel) (p : ℕ) : Handler → Prop
  | own {hd : Handler} (v : ℤ) (noExit : hd ≠ .exit) (assigns : Assigns s t [(p, v)]) :
      ResultMove s t p hd
  | nothing {hd : Handler}
      (noWaiter : hd = .exit → ∀ a, (s.pcb p).parent = some a → ¬ WaitsFor s a p)
      (assigns : Assigns s t []) : ResultMove s t p hd
  /-- The process ends, and `a` has waited for it. -/
  | child (a : ℕ) (parent : (s.pcb p).parent = some a) (waits : WaitsFor s a p) (differ : a ≠ p)
      (assigns : Assigns s t [(a, (s.pcb p).pid)]) : ResultMove s t p .exit
  /-- The process blocks, and the next one gets the value. -/
  | strays (x q : ℕ) (called : calledSemaphore s p (toInt ((s.pcb p).syscallArgs 0)) = some x)
      (blocks : count s x ≤ 0) (ready : q ∈ (s.procs .ready).items)
      (assigns : Assigns s t [(q, 0)]) : ResultMove s t p .semWait

/-! ### The handlers -/

theorem internalOpenResource_result (hp : s.running = some p)
    (hs : internalOpenResource s = .ok t) : ∃ v, Assigns s t [(p, v)] := by
  obtain ⟨p', hp', hcase⟩ := internalOpenResource_ok hs
  obtain rfl : p = p' := Option.some.inj (hp.symm.trans hp')
  rcases hcase with ⟨v, rfl⟩ | ⟨u, r, hu, hcase⟩
  · exact ⟨v, .setRetvalue s p v⟩
  have hsu : Assigns s u [] := by
    cases hu with
    | known _ _ same => exact same ▸ .keeps rfl fun _ => rfl
    | new st _ _ _ _ result =>
      subst result
      exact .keeps rfl fun _ => rfl
  rcases hcase with ⟨v, rfl⟩ | ⟨d, e, -, ho⟩
  · exact ⟨v, hsu.thenSet p v⟩
  · exact ⟨_, hsu.trans (.assigned (by rw [ho.trace]; rfl) ho.retvalue)⟩

theorem internalCloseResource_result (hp : s.running = some p)
    (hs : internalCloseResource s = .ok t) : ∃ v, Assigns s t [(p, v)] := by
  obtain ⟨p', hp', hcase⟩ := internalCloseResource_ok hs
  obtain rfl : p = p' := Option.some.inj (hp.symm.trans hp')
  rcases hcase with rfl | ⟨d, u, -, hu, rfl⟩
  · exact ⟨_, .setRetvalue s p _⟩
  · obtain ⟨r, e, hc⟩ := releaseDescriptor_closed hu
    exact ⟨0, (Assigns.keeps (by rw [hc.trace]) hc.retvalue).thenSet p 0⟩

theorem internalDestroyResource_result (hp : s.running = some p)
    (hs : internalDestroyResource s = .ok t) : ∃ v, Assigns s t [(p, v)] := by
  obtain ⟨p', hp', hcase⟩ := internalDestroyResource_ok hs
  obtain rfl : p = p' := Option.some.inj (hp.symm.trans hp')
  rcases hcase with ⟨v, rfl⟩ | ⟨r, -, -, rfl⟩
  · exact ⟨v, .setRetvalue s p v⟩
  · have hu : Assigns s (resourceDestroyed s r) [] := .keeps rfl fun _ => rfl
    exact ⟨0, hu.thenSet p 0⟩

theorem semOpenDescriptor_result (hs : semOpenDescriptor s p x = .ok t) :
    ∃ v, Assigns s t [(p, v)] := by
  rcases semOpenDescriptor_ok hs with ⟨-, rfl⟩ | ⟨d, hf⟩ | ⟨d, e, w, ho⟩
  · exact ⟨_, .setRetvalue s p _⟩
  · exact ⟨_, .assigned (by rw [hf.trace]; rfl) hf.retvalue⟩
  · exact ⟨_, .assigned (by rw [ho.trace]; rfl) ho.retvalue⟩

theorem internalSemOpen_result (hp : s.running = some p) (hs : internalSemOpen s = .ok t) :
    ∃ v, Assigns s t [(p, v)] := by
  obtain ⟨p', hp', hcase⟩ := internalSemOpen_ok hs
  obtain rfl : p = p' := Option.some.inj (hp.symm.trans hp')
  rcases hcase with ⟨d, -, rfl⟩ | ⟨-, ⟨x, -, hs⟩ | ⟨-, ⟨-, rfl⟩ | ⟨x, st, -, -, hs⟩⟩⟩
  · exact ⟨_, .setRetvalue s p _⟩
  · exact semOpenDescriptor_result hs
  · exact ⟨_, .setRetvalue s p _⟩
  · have hu : Assigns s (semCreated s x st) [] := .keeps rfl fun _ => rfl
    obtain ⟨v, hv⟩ := semOpenDescriptor_result hs
    exact ⟨v, hu.trans hv⟩

theorem internalSemClose_result (hk : KernelInv s) (hp : s.running = some p)
    (hs : internalSemClose s = .ok t) : ∃ v, Assigns s t [(p, v)] := by
  obtain ⟨p', hp', hcase⟩ := internalSemClose_ok hs
  obtain rfl : p = p' := Option.some.inj (hp.symm.trans hp')
  rcases hcase with ⟨-, rfl⟩ | ⟨d, x, e, w, hd, hx, he, hw, hc⟩
  · exact ⟨_, .setRetvalue s p _⟩
  · have hl := hk.sem.linked p d (SemInv.byFd_mem hd)
    have hlisted : x ∈ s.sems.list.items := hx ▸ hl.listed
    replace hc := hc hl.inUse (he ▸ hl.ptrInUse) (hw ▸ hl.waitPtrInUse) (hw ▸ he ▸ hl.differ)
      ((hk.sem.inUse x).mp hlisted)
    exact ⟨0, .assigned (by rw [hc.trace]; rfl) hc.retvalue⟩

theorem internalSemWait_result (hp : s.running = some p) (hs : internalSemWait s = .ok t) :
    ResultMove s t p .semWait := by
  obtain ⟨p', hp', hcase⟩ := internalSemWait_ok hs
  obtain rfl : p = p' := Option.some.inj (hp.symm.trans hp')
  rcases hcase with ⟨-, rfl⟩ | ⟨d, x, w, hd, hx, hw, ⟨-, rfl⟩ | ⟨hc, -, -, q, rest, hr, rfl⟩⟩
  · exact .own _ (by decide) (.setRetvalue s p _)
  · exact .own 0 (by decide) ((Assigns.semSet s x _ _).thenSet p 0)
  · refine .strays x q (by simp [calledSemaphore, hd, hx]) hc (by simp [hr]) ?_
    refine Assigns.thenSet (.keeps ?_ fun k => ?_) q 0
    · simp [dispatched, suspended]
    · simp [dispatched, suspended]

theorem internalSemPost_result (hp : s.running = some p) (hs : internalSemPost s = .ok t) :
    ∃ v, Assigns s t [(p, v)] := by
  obtain ⟨p', hp', hcase⟩ := internalSemPost_ok hs
  obtain rfl : p = p' := Option.some.inj (hp.symm.trans hp')
  rcases hcase with ⟨-, rfl⟩ | ⟨d, x, hd, hx, ⟨-, rfl⟩ | ⟨-, w, rest, b, -, -, -, -, -, -, rfl⟩⟩
  · exact ⟨_, .setRetvalue s p _⟩
  · exact ⟨0, (Assigns.semSet s x _ _).thenSet p 0⟩
  · refine ⟨0, Assigns.thenSet (.keeps ?_ fun k => ?_) p 0⟩
    · simp [semWoken]
    · simp [semWoken]

theorem internalWait_result (hp : s.running = some p) (hs : internalWait s = .ok t) :
    ResultMove s t p .wait := by
  obtain ⟨p', hp', hcase⟩ := internalWait_ok hs
  obtain rfl : p = p' := Option.some.inj (hp.symm.trans hp')
  rcases hcase with ⟨-, rfl⟩ | ⟨q, b, -, -, ⟨-, hc⟩ | ⟨-, hb⟩⟩
  · exact .own _ (by decide) (.setRetvalue s p _)
  · obtain ⟨-, -, rfl⟩ := collectZombie_ok hc
    refine .own (s.pcb b).pid (by decide) (.assigned (by simp [reaped]) fun k => ?_)
    by_cases hk : k = p
    · simp [reaped, hk]
    · simp [reaped, hk]
  · obtain ⟨-, r, rest, -, rfl⟩ := waitBlock_ok.mp hb
    refine .nothing (by simp) (.keeps ?_ fun k => ?_)
    · simp [dispatched, suspended]
    · simp [dispatched, suspended]

theorem internalSleep_result (hp : s.running = some p) (hs : internalSleep s = .ok t) :
    ResultMove s t p .sleep := by
  obtain ⟨p', hp', hcase⟩ := internalSleep_ok hs
  obtain rfl : p = p' := Option.some.inj (hp.symm.trans hp')
  rcases hcase with ⟨-, rfl⟩ | ⟨i, st, l, -, -, -, ⟨q, rest, -, rfl⟩ | ⟨-, rfl⟩⟩
  · exact .own _ (by decide) (.setRetvalue s p _)
  · refine .nothing (by simp) (.keeps ?_ fun k => ?_)
    · simp [dispatched, suspended]
    · simp [dispatched, suspended]
  · refine .nothing (by simp) (.keeps ?_ fun k => ?_)
    · simp [suspended]
    · simp [suspended]

theorem internalExit_result (hk : KernelInv s) (hp : s.running = some p)
    (hs : internalExit s = .ok t) : ResultMove s t p .exit := by
  obtain ⟨p', a, i, sig, hp', ha, hi, hpi, hr⟩ := internalExit_returns hk.proc hk.wake hs
  obtain rfl : p = p' := Option.some.inj (hp.symm.trans hp')
  cases hr with
  | toParent q u waits waiting found released result =>
    obtain ⟨l, r, rfl⟩ := releaseDescriptors_ok released
    subst result
    have hap : a ≠ p := fun he => hk.not_waiting hp (he ▸ waiting)
    refine .child a ha waits hap (.assigned ?_ fun k => ?_)
    · simp [reclaimed, handedToParent, zombified]
    · by_cases hka : k = a
      · simp [reclaimed, handedToParent, zombified, hka, hap]
      · simp [reclaimed, handedToParent, zombified, hka]
  | toNext q rest noWaiter ready result =>
    subst result
    refine .nothing (fun _ c hc hw => ?_) (.keeps ?_ fun k => ?_)
    · obtain rfl : a = c := Option.some.inj (ha.symm.trans hc)
      exact noWaiter hw
    · simp [resumed, zombified]
    · simp [resumed, zombified]

theorem runHandler_result {hd : Handler} (hk : KernelInv s) (hp : s.running = some p)
    (hs : runHandler hd s = .ok t) : ResultMove s t p hd := by
  have hown : hd ≠ .exit → (∃ v, Assigns s t [(p, v)]) → ResultMove s t p hd := fun hne ⟨v, hv⟩ =>
    .own v hne hv
  cases hd with
  | preempt => exact .nothing (by simp) (.internalSchedule hk hs)
  | fork =>
    obtain ⟨b, q, hc⟩ := internalFork_ok hp (hk.proc.inUse_of_running hp) hs
    exact .own _ (by decide) (.newChild hc)
  | wait => exact internalWait_result hp hs
  | exit => exact internalExit_result hk hp hs
  | spawn =>
    obtain ⟨b, q, hc⟩ := internalSpawn_ok hp (hk.proc.inUse_of_running hp) hs
    exact .own _ (by decide) (.newChild hc)
  | sleep => exact internalSleep_result hp hs
  | openResource => exact hown (by decide) (internalOpenResource_result hp hs)
  | closeResource => exact hown (by decide) (internalCloseResource_result hp hs)
  | destroyResource => exact hown (by decide) (internalDestroyResource_result hp hs)
  | shutdown => cases hs
  | semOpen => exact hown (by decide) (internalSemOpen_result hp hs)
  | semClose => exact hown (by decide) (internalSemClose_result hk hp hs)
  | semWait => exact internalSemWait_result hp hs
  | semPost => exact hown (by decide) (internalSemPost_result hp hs)

/-! ### One step -/

/-- The semWait that the action is, if it is one, passes at once. -/
def SemWaitPasses (s : Kernel) (act : Action) : Prop :=
  match semEvent s act with
  | .wait x _ => 0 < count s x
  | _ => True

instance (s : Kernel) (act : Action) : Decidable (SemWaitPasses s act) :=
  match h : semEvent s act with
  | .wait x _ => decidable_of_iff (0 < count s x) (by simp [SemWaitPasses, h])
  | .none | .create .. | .remove .. | .post .. => isTrue (by simp [SemWaitPasses, h])

/-- The pid of the child whose exit, by this action, wakes `b` out of its wait. -/
def wakingChild (s : Kernel) (act : Action) (b : ℕ) : Option ℤ :=
  match s.running, act with
  | some p, .syscall n _ =>
    if n = dsosCallExit ∧ (s.pcb p).parent = some b ∧ WaitsFor s b p then some (s.pcb p).pid
    else none
  | _, _ => none

/-- The action is a call that goes into the kernel. -/
def Enters : Action → Prop
  | .syscall n _ => 0 ≤ n ∧ n ≤ dsosMaxSyscalls
  | .tick | .returnToProcess => False

instance (act : Action) : Decidable (Enters act) :=
  match act with
  | .syscall _ _ => inferInstanceAs (Decidable (_ ∧ _))
  | .tick | .returnToProcess => inferInstanceAs (Decidable False)

/-- The value that the last call of each process determines for it, as far as it is determined:
what its handler assigns to it, the pid of the child for which it has waited, or 0 for the
semaphore for which it waits. -/
def recordResult (s : Kernel) (act : Action) (t : Kernel) (L : ℕ → Option ℤ) : ℕ → Option ℤ :=
  fun b =>
    if ¬ s.pcbs.InUse b then none
    else if s.running = some b then
      if ¬ Enters act then L b
      else if SemWaitPasses s act then (assignmentsSince s t).lookup b
      else some 0
    else (wakingChild s act b).or (L b)

def resultKernel : System (Kernel × (ℕ → Option ℤ)) Action Fault :=
  kernel.withRecord (fun _ => none) recordResult

/-- What a step assigns. -/
inductive StepResult (s t : Kernel) (act : Action) : Prop
  | own (p : ℕ) (v : ℤ) (running : s.running = some p) (enters : Enters act)
      (wakes : ∀ b, wakingChild s act b = none) (assigns : Assigns s t [(p, v)])
  | nothing (wakes : ∀ b, wakingChild s act b = none) (assigns : Assigns s t [])
  | child (a p : ℕ) (running : s.running = some p) (enters : Enters act) (differ : a ≠ p)
      (wakes : ∀ b, wakingChild s act b = if b = a then some (s.pcb p).pid else none)
      (assigns : Assigns s t [(a, (s.pcb p).pid)])
  | strays (x p : ℕ) (event : semEvent s act = .wait x p) (blocks : count s x ≤ 0)

theorem wakingChild_of_ne {n : ℤ} (hp : s.running = some p) (hn : n ≠ dsosCallExit) (b : ℕ) :
    wakingChild s (.syscall n args) b = none := by
  simp [wakingChild, hp, hn]

theorem ResultMove.entered {hd : Handler} (hk : KernelInv s) (hp : s.running = some p)
    (hm : ResultMove (enterSyscall s p hd.number args) t p hd) :
    StepResult s t (.syscall hd.number args) := by
  have hin : Assigns s (enterSyscall s p hd.number args) [] :=
    .keeps rfl fun k => by simp [enterSyscall]
  have henters : Enters (.syscall hd.number args) := hd.number_range
  have hpar : ∀ k, ((enterSyscall s p hd.number args).pcb k).parent = (s.pcb k).parent :=
    fun k => by simp [enterSyscall]
  have hpid : ((enterSyscall s p hd.number args).pcb p).pid = (s.pcb p).pid := by
    simp [enterSyscall]
  have hexit : hd.number = dsosCallExit → hd = .exit := by
    cases hd <;> decide
  cases hm with
  | own v noExit assigns =>
    exact .own p v hp henters (wakingChild_of_ne hp fun hn => noExit (hexit hn))
      (hin.trans assigns)
  | nothing noWaiter assigns =>
    refine .nothing (fun b => ?_) (hin.trans assigns)
    simp only [wakingChild, hp]
    refine if_neg ?_
    rintro ⟨hn, hb, hw⟩
    have hbp : b ≠ p := fun he => hk.not_waiting hp ((hk.proc.waiting p).mp (he ▸ hw.1))
    exact noWaiter (hexit hn) b ((hpar p).trans hb) ((waitsFor_enterSyscall hbp).mpr hw)
  | child a parent waits differ assigns =>
    rw [hpid] at assigns
    have hpa : (s.pcb p).parent = some a := (hpar p).symm.trans parent
    refine .child a p hp henters differ (fun b => ?_) (hin.trans assigns)
    simp only [wakingChild, hp]
    by_cases hb : b = a
    · subst hb
      rw [if_pos rfl]
      exact if_pos ⟨rfl, hpa, (waitsFor_enterSyscall differ).mp waits⟩
    · rw [if_neg hb]
      exact if_neg fun h => hb (Option.some.inj (h.2.1.symm.trans hpa))
  | strays x q called blocks ready assigns =>
    refine .strays x p ?_ blocks
    rw [semEvent_number hp, handlerEvent, called]
    rfl

theorem step_outOfRange {n : ℤ} (hp : s.running = some p) (hn : n < 0 ∨ n > dsosMaxSyscalls) :
    kernel.step s (.syscall n args) = .ok s := by
  simp only [kernel, step, disastrOSSyscall, hp]
  exact if_pos hn

theorem step_result (hk : KernelInv s) (hs : kernel.step s act = .ok t) : StepResult s t act := by
  rcases step_ok hs with ⟨p, n, args, hp, rfl, hr⟩ | ⟨p, hp, rfl, ht⟩ | ⟨rfl, hr⟩
  · by_cases hn : n < 0 ∨ n > dsosMaxSyscalls
    · obtain rfl := Except.ok.inj ((step_outOfRange hp hn).symm.trans hs)
      have hexit : n ≠ dsosCallExit := by
        rintro rfl
        revert hn
        decide
      exact .nothing (wakingChild_of_ne hp hexit) (.keeps rfl fun _ => rfl)
    have henters : 0 ≤ n ∧ n ≤ dsosMaxSyscalls := by omega
    cases hr with
    | outOfRange range _ => exact absurd range hn
    | notImplemented none result =>
      subst result
      have hexit : n ≠ dsosCallExit := by
        rintro rfl
        exact absurd none (by decide)
      have hin : Assigns s (enterSyscall s p n args) [] :=
        .keeps rfl fun k => by simp [enterSyscall]
      exact .own p _ hp henters (wakingChild_of_ne hp hexit) (hin.thenSet p _)
    | handled hd number run =>
      subst number
      exact (runHandler_result (hk.enter hp) hp run).entered hk hp
  · have hin : Assigns s (ticked s p) [] := by
      refine .keeps rfl fun k => ?_
      rw [pcb_ticked]
      split_ifs <;> rfl
    exact .nothing (fun b => by simp [wakingChild]) (hin.trans (.internalSchedule hk.ticked ht))
  · refine .nothing (fun b => by simp [wakingChild]) ?_
    cases hr with
    | resumed _ same => exact same ▸ .keeps rfl fun _ => rfl
    | restarted b idle started => exact .started started

/-! ### Every run -/

def ResultsInv (s : Kernel) (L : ℕ → Option ℤ) : Prop :=
  ∀ p v, L p = some v → (s.pcb p).syscallRetvalue = v

theorem not_blocks (hpass : SemWaitPasses s act) (hev : semEvent s act = .wait x p) :
    ¬ count s x ≤ 0 := by
  unfold SemWaitPasses at hpass
  rw [hev] at hpass
  exact not_le.mpr hpass

/-- What the last call of a process other than the running one determines. -/
theorem recordResult_of_ne (hb : s.running ≠ some b) (h : recordResult s act t L b = some v) :
    (wakingChild s act b).or (L b) = some v := by
  unfold recordResult at h
  split_ifs at h with hu
  exact h

/-- What the call of the running process determines. -/
theorem recordResult_running (hb : s.running = some b) (hpass : SemWaitPasses s act)
    (h : recordResult s act t L b = some v) :
    (if Enters act then (assignmentsSince s t).lookup b else L b) = some v := by
  unfold recordResult at h
  rw [ite_not] at h
  split_ifs at h ⊢
  · exact h
  · exact h

theorem ResultsInv.step (h : ResultsInv s L) (hpass : SemWaitPasses s act)
    (hr : StepResult s t act) : ResultsInv t (recordResult s act t L) := by
  intro b v hb
  have hother : s.running ≠ some b → wakingChild s act b = none → (s.pcb b).syscallRetvalue = v :=
    fun hrun hw => by
      have hL := recordResult_of_ne hrun hb
      rw [hw, Option.none_or] at hL
      exact h b v hL
  cases hr with
  | own p r running enters wakes assigns =>
    by_cases hbp : b = p
    · subst hbp
      have hv := recordResult_running running hpass hb
      rw [if_pos enters, assigns.since, List.lookup_cons_self] at hv
      exact assigns.self.trans (Option.some.inj hv)
    · have hrun : s.running ≠ some b := fun he => hbp (Option.some.inj (he.symm.trans running))
      exact (assigns.other hbp).trans (hother hrun (wakes b))
  | nothing wakes assigns =>
    rw [assigns.same]
    by_cases hrun : s.running = some b
    · have hv := recordResult_running hrun hpass hb
      rw [assigns.since] at hv
      split_ifs at hv
      · simp at hv
      · exact h b v hv
    · exact hother hrun (wakes b)
  | child a p running enters differ wakes assigns =>
    by_cases hba : b = a
    · subst hba
      have hrun : s.running ≠ some b := fun he =>
        differ (Option.some.inj (he.symm.trans running))
      have hv := recordResult_of_ne hrun hb
      rw [wakes, if_pos rfl, Option.some_or] at hv
      exact assigns.self.trans (Option.some.inj hv)
    · rw [assigns.other hba]
      by_cases hrun : s.running = some b
      · have hv := recordResult_running hrun hpass hb
        rw [if_pos enters, assigns.since, Assigns.lookup_of_ne hba] at hv
        cases hv
      · exact hother hrun ((wakes b).trans (if_neg hba))
  | strays x p event blocks => exact absurd blocks (not_blocks hpass event)

theorem ResultsInv.reachableBy
    (h : resultKernel.ReachableBy (fun y act => SemWaitPasses y.1 act) (s, L)) :
    kernel.Reachable s ∧ ResultsInv s L := by
  refine h.invariant (P := fun y => kernel.Reachable y.1 ∧ ResultsInv y.1 y.2) ?_ ?_
  · exact ⟨.start, fun p v hv => absurd hv (by simp [resultKernel, System.withRecord])⟩
  · rintro ⟨s, L⟩ act ⟨t, L'⟩ - ⟨hr, hi⟩ hG hm
    obtain ⟨hs, hL⟩ := System.withRecord_step.mp hm
    refine ⟨hr.next hs, ?_⟩
    change ResultsInv t L'
    rw [show L' = recordResult s act t L from hL]
    exact hi.step hG (step_result (KernelInv.reachable hr) hs)

end DisastrOS
