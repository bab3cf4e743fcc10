import DisastrOS.KernelInvariant

/-! The lists of children: every pointer to a process stands in at most one of them. -/
namespace DisastrOS
open BlockPool TransitionSystem

/-- The process that a pointer refers to. -/
def child (s : Kernel) (q : ℕ) : ℕ := (s.pcbPtrs.cell q).pcb

/-- The pointers to the children of the process `a`. -/
def children (s : Kernel) (a : ℕ) : List ℕ := (s.pcb a).children.items

/-- The two states have the same processes with the same children and the same history. -/
structure SameFamily (s s' : Kernel) : Prop where
  initPcb : s'.initPcb = s.initPcb
  lastPid : s'.lastPid = s.lastPid
  inUse : ∀ k, s'.pcbs.InUse k ↔ s.pcbs.InUse k
  size : s'.pcbs.pool.sizeMax = s.pcbs.pool.sizeMax
  pcbPtrs : s'.pcbPtrs = s.pcbPtrs
  zombies : (s'.procs .zombie).items = (s.procs .zombie).items
  pid : ∀ k, (s'.pcb k).pid = (s.pcb k).pid
  returnValue : ∀ k, (s'.pcb k).returnValue = (s.pcb k).returnValue
  parent : ∀ k, (s'.pcb k).parent = (s.pcb k).parent
  children : ∀ k, (s'.pcb k).children = (s.pcb k).children
  history : history s'.trace = history s.trace

theorem SameProcesses.family {s s' : Kernel} (h : SameProcesses s s') : SameFamily s s' where
  initPcb := h.initPcb
  lastPid := h.lastPid
  inUse k := by simp only [Store.InUse, h.pool]
  size := by rw [h.pool]
  pcbPtrs := h.pcbPtrs
  zombies := by rw [h.procs]
  pid := h.pid
  returnValue := h.returnValue
  parent := h.parent
  children := h.children
  history := h.history

theorem SameFamily.refl (s : Kernel) : SameFamily s s := (SameProcesses.refl s).family

theorem SameFamily.trans {s s' t : Kernel} (h : SameFamily s s') (h' : SameFamily s' t) :
    SameFamily s t := by
  constructor <;> grind [SameFamily]

/-- The process `p` has become a zombie, and `i` has its children. -/
structure Zombied (s s' : Kernel) (p i : ℕ) : Prop where
  initPcb : s'.initPcb = s.initPcb
  lastPid : s'.lastPid = s.lastPid
  inUse : ∀ k, s'.pcbs.InUse k ↔ s.pcbs.InUse k
  size : s'.pcbs.pool.sizeMax = s.pcbs.pool.sizeMax
  pcbPtrs : s'.pcbPtrs = s.pcbPtrs
  zombies : (s'.procs .zombie).items = (s.procs .zombie).items ++ [p]
  pid : ∀ k, (s'.pcb k).pid = (s.pcb k).pid
  returnValue : ∀ k, (s'.pcb k).returnValue =
    if k = p then toInt ((s.pcb p).syscallArgs 0) else (s.pcb k).returnValue
  parent : ∀ k, (s'.pcb k).parent = (s.pcb k).parent
  children : ∀ k, (s'.pcb k).children = reparented s p i k
  history : history s'.trace =
    .exited (s.pcb p).pid (toInt ((s.pcb p).syscallArgs 0)) :: history s.trace

/-- The process `p` has been freed, `i` has its children, and its parent `a` its result. -/
structure Delivered (s s' : Kernel) (p a i q : ℕ) : Prop where
  initPcb : s'.initPcb = s.initPcb
  lastPid : s'.lastPid = s.lastPid
  running : s'.running = some a
  inUse : ∀ k, s'.pcbs.InUse k ↔ s.pcbs.InUse k ∧ k ≠ p
  size : s'.pcbs.pool.sizeMax = s.pcbs.pool.sizeMax
  pcbPtrs : s'.pcbPtrs = s.pcbPtrs
  zombies : (s'.procs .zombie).items = (s.procs .zombie).items
  pid : ∀ k, (s'.pcb k).pid = (s.pcb k).pid
  returnValue : ∀ k, (s'.pcb k).returnValue =
    if k = p then toInt ((s.pcb p).syscallArgs 0) else (s.pcb k).returnValue
  args : (s'.pcb a).syscallArgs = (s.pcb a).syscallArgs
  retvalue : (s'.pcb a).syscallRetvalue = (s.pcb p).pid
  parent : ∀ k, (s'.pcb k).parent = (s.pcb k).parent
  children : ∀ k, (s'.pcb k).children.items =
    if k = a then (reparented s p i a).items.erase q else (reparented s p i k).items
  memory : (s.pcb a).syscallArgs 1 ≠ 0 →
    s'.memory ((s.pcb a).syscallArgs 1) = toInt ((s.pcb p).syscallArgs 0)
  history : history s'.trace = .collected (s.pcb p).pid a
      (if (s.pcb a).syscallArgs 1 = 0 then none else some (toInt ((s.pcb p).syscallArgs 0))) ::
    .exited (s.pcb p).pid (toInt ((s.pcb p).syscallArgs 0)) :: history s.trace

/-- What a handler, or a return to `main_context`, does to the families of processes. -/
inductive FamilyMove (s s' : Kernel) : Prop
  | same (same : SameFamily s s')
  | create (p b q : ℕ) (cpu : Option ℤ) (running : s.running = some p)
      (created : NewChild s s' p b q cpu)
  | zombie (p a i : ℕ) (running : s.running = some p)
      (number : (s.pcb p).syscallNum = dsosCallExit) (parent : (s.pcb p).parent = some a)
      (init : s.initPcb = some i) (differ : p ≠ i) (noWaiter : ¬ WaitsFor s a p)
      (zombied : Zombied s s' p i)
  | deliver (p a i q : ℕ) (running : s.running = some p)
      (number : (s.pcb p).syscallNum = dsosCallExit) (parent : (s.pcb p).parent = some a)
      (init : s.initPcb = some i) (differ : p ≠ i) (waits : WaitsFor s a p)
      (waiting : a ∈ (s.procs .waiting).items)
      (found : pcbPtrByPid s (reparented s p i a) (s.pcb p).pid = some q)
      (delivered : Delivered s s' p a i q)
  | collect (p q : ℕ) (running : s.running = some p)
      (number : (s.pcb p).syscallNum = dsosCallWait) (mem : q ∈ children s p)
      (zombie : (s.pcb (child s q)).status = .zombie) (result : s' = reaped s p q (child s q))
  | start (b : ℕ) (idle : s.running = none) (started : Started s s' b)

section
variable {s s' : Kernel} {p q b a i d x w : ℕ} {rest : List ℕ}

theorem wakeElapsed_family {fuel : ℕ} {prev : Option ℕ} (h : wakeElapsed fuel s prev = .ok s') :
    SameFamily s s' := by
  refine wakeElapsed_induct (P := SameFamily s) (fun u u' i prev _ hu hr => ?_) h (.refl s)
  obtain ⟨-, -, -, -, ready, j, rest, -, -, rfl⟩ := wakeTimer_ok hr
  refine hu.trans ?_
  constructor <;> intros <;> simp [wokenState]

theorem internalSchedule_family (h : internalSchedule s = .ok s') : SameFamily s s' := by
  obtain ⟨u, hu, ⟨-, rfl⟩ | ⟨p, q, rest, -, -, -, -, -, rfl⟩⟩ := internalSchedule_ok h
  · exact wakeElapsed_family hu
  · refine (wakeElapsed_family hu).trans ?_
    constructor <;> intros <;> simp [rotated]

theorem dispatched_family : SameFamily s (dispatched (suspended s p) q rest) := by
  constructor <;> intros <;> simp [dispatched, suspended]

theorem internalSleep_family (h : internalSleep s = .ok s') : SameFamily s s' := by
  obtain ⟨p, -, ⟨-, rfl⟩ | ⟨i, st, l, -, -, -, ⟨q, rest, -, rfl⟩ | ⟨-, rfl⟩⟩⟩ := internalSleep_ok h
  · exact (SameProcesses.setRetvalue s p _).family
  · constructor <;> intros <;> simp [dispatched, suspended]
  · constructor <;> intros <;> simp [suspended]

theorem internalWait_family (hp : s.running = some p)
    (hn : (s.pcb p).syscallNum = dsosCallWait) (h : internalWait s = .ok s') : FamilyMove s s' := by
  obtain ⟨p', hp', hcase⟩ := internalWait_ok h
  obtain rfl : p = p' := Option.some.inj (hp ▸ hp')
  rcases hcase with ⟨-, rfl⟩ | ⟨q, b, hq, rfl, ⟨hz, hc⟩ | ⟨-, hw⟩⟩
  · exact .same (SameProcesses.setRetvalue s p _).family
  · obtain ⟨hm, -, rfl⟩ := collectZombie_ok hc
    exact .collect p q hp hn hm hz rfl
  · obtain ⟨-, q, rest, -, rfl⟩ := waitBlock_ok.mp hw
    exact .same dispatched_family

theorem internalSemWait_family (h : internalSemWait s = .ok s') : SameFamily s s' := by
  obtain ⟨p, hp, ⟨-, rfl⟩ | ⟨d, x, w, -, -, -, ⟨-, rfl⟩ | ⟨-, -, -, q, rest, hr, rfl⟩⟩⟩ :=
    internalSemWait_ok h
  · exact (SameProcesses.setRetvalue s p _).family
  · exact ((SameProcesses.setSems s _).trans (.setRetvalue _ p 0)).family
  · exact ((SameProcesses.setSems s _).family.trans dispatched_family).trans
      (SameProcesses.setRetvalue _ q 0).family

theorem internalSemPost_family (h : internalSemPost s = .ok s') : SameFamily s s' := by
  obtain ⟨p, hp, ⟨-, rfl⟩ | ⟨d, x, -, -, ⟨-, rfl⟩ | ⟨-, w, queue, b, -, -, hb, -, -, -, rfl⟩⟩⟩ :=
    internalSemPost_ok h
  · exact (SameProcesses.setRetvalue s p _).family
  · exact ((SameProcesses.setSems s _).trans (.setRetvalue _ p 0)).family
  · have hwoken : SameFamily s (semWoken s x w b) := by
      constructor <;> intros <;> simp [semWoken, semSet]
    exact hwoken.trans (SameProcesses.setRetvalue _ p 0).family

/-- The block of `p` has been reclaimed for its waiting parent `a`. -/
theorem reclaimed_delivered {u : Kernel} {sig : ℕ → BitVec 32} {fuel : ℕ}
    (hp : p ∉ (s.procs .zombie).items) (hap : a ≠ p)
    (hu : releaseDescriptors fuel (handedToParent (zombified s p i sig) p a q) p = .ok u) :
    Delivered s (reclaimed u p a) p a i q := by
  obtain ⟨l, t, rfl⟩ := releaseDescriptors_ok hu
  constructor
  case zombies =>
    simp [reclaimed, handedToParent, zombified, List.erase_append_right, hp]
  case children =>
    intro k
    by_cases hka : k = a <;> simp [reclaimed, handedToParent, zombified, hka]
  case memory =>
    intro h0
    simp [reclaimed, handedToParent, zombified, hap, h0]
  case returnValue =>
    intro k
    by_cases hkp : k = p <;> simp [reclaimed, handedToParent, zombified, hkp]
  case history => simp [reclaimed, handedToParent, zombified, history]
  all_goals intros
  all_goals simp [reclaimed, handedToParent, zombified, hap]

theorem internalExit_family (h : KernelInv s) (hp : s.running = some p)
    (hn : (s.pcb p).syscallNum = dsosCallExit) (hs : internalExit s = .ok s') : FamilyMove s s' := by
  obtain ⟨p', a, i, sig, hp', ha, hi, hpi, he⟩ := internalExit_returns h.proc h.wake hs
  obtain rfl : p = p' := Option.some.inj (hp ▸ hp')
  have hl := h.proc.not_linked hp
  simp only [Kernel.Linked, not_or] at hl
  cases he with
  | toParent q u waits waiting found released result =>
    have hap := h.proc.running_ne hp waiting
    refine .deliver p a i q hp hn ha hi hpi waits waiting found ?_
    exact result ▸ reclaimed_delivered hl.2.2 hap released
  | toNext q rest noWaiter ready result =>
    subst result
    refine .zombie p a i hp hn ha hi hpi noWaiter ?_
    constructor
    case returnValue =>
      intro k
      by_cases hkp : k = p <;> simp [resumed, zombified, hkp]
    case history => simp [resumed, zombified, history]
    all_goals intros
    all_goals simp [resumed, zombified]

theorem runHandler_family {hd : Handler} (h : KernelInv s) (hp : s.running = some p)
    (hn : (s.pcb p).syscallNum = hd.number) (hs : runHandler hd s = .ok s') : FamilyMove s s' := by
  cases hd with
  | preempt => exact .same (internalSchedule_family hs)
  | fork =>
    obtain ⟨b, q, hc⟩ := internalFork_ok hp (h.proc.inUse_of_running hp) hs
    exact .create p b q _ hp hc
  | wait => exact internalWait_family hp hn hs
  | exit => exact internalExit_family h hp hn hs
  | spawn =>
    obtain ⟨b, q, hc⟩ := internalSpawn_ok hp (h.proc.inUse_of_running hp) hs
    exact .create p b q _ hp hc
  | sleep => exact .same (internalSleep_family hs)
  | openResource => exact .same (internalOpenResource_frame hs).1.family
  | closeResource => exact .same (internalCloseResource_frame hs).1.family
  | destroyResource => exact .same (internalDestroyResource_frame hs).1.family
  | shutdown => cases hs
  | semOpen => exact .same (internalSemOpen_frame hs).1.family
  | semClose => exact .same (internalSemClose_frame hs).1.family
  | semWait => exact .same (internalSemWait_family hs)
  | semPost => exact .same (internalSemPost_family hs)

theorem enterSyscall_family {n : ℤ} {args : List ℤ} : SameFamily s (enterSyscall s p n args) := by
  constructor <;> intros <;> simp [enterSyscall]

theorem ticked_family : SameFamily s (ticked s p) := by
  constructor <;> intros <;> simp [ticked, Kernel.pcb]

/-- A step leaves the families alone, is a system call that makes one move, or starts another
first process. -/
theorem step_family {act : Action} (h : KernelInv s) (hs : step s act = .ok s') :
    SameFamily s s' ∨ (∃ p n args, s.running = some p ∧ act = .syscall n args ∧
      KernelInv (enterSyscall s p n args) ∧ FamilyMove (enterSyscall s p n args) s') ∨
      ∃ b, act = .returnToProcess ∧ s.running = none ∧ Started s s' b := by
  rcases step_ok hs with ⟨p, n, args, hp, rfl, hr⟩ | ⟨p, hp, -, ht⟩ | ⟨rfl, hr⟩
  · cases hr with
    | outOfRange _ same => exact Or.inl (same ▸ .refl s)
    | notImplemented _ result =>
      exact Or.inl (enterSyscall_family.trans (result ▸ (SameProcesses.setRetvalue _ p _).family))
    | handled hd number run =>
      have hrun : (enterSyscall s p n args).running = some p := hp
      refine Or.inr (Or.inl ⟨p, n, args, hp, rfl, h.enter hp,
        runHandler_family (h.enter hp) hrun ?_ run⟩)
      simpa [enterSyscall] using number
  · exact Or.inl (ticked_family.trans (internalSchedule_family ht))
  · cases hr with
    | resumed _ same => exact Or.inl (same ▸ .refl s)
    | restarted b idle started => exact Or.inr (Or.inr ⟨b, rfl, idle, started⟩)

/-- The same with the state `u` in which the move is made. -/
theorem step_move {act : Action} (h : KernelInv s) (hs : step s act = .ok s') :
    ∃ u, SameFamily s u ∧ KernelInv u ∧ FamilyMove u s' := by
  rcases step_family h hs with hsame | ⟨p, n, args, -, -, hk, hm⟩ | ⟨b, -, hidle, hc⟩
  · exact ⟨s, .refl s, h, .same hsame⟩
  · exact ⟨_, enterSyscall_family, hk, hm⟩
  · exact ⟨s, .refl s, h, .start b hidle hc⟩

end

theorem zombified_zombied (s : Kernel) (p i : ℕ) (sig : ℕ → BitVec 32) :
    Zombied s (zombified s p i sig) p i := by
  constructor
  case returnValue =>
    intro k
    by_cases hkp : k = p <;> simp [zombified, hkp]
  case history => simp [zombified, history]
  all_goals intros
  all_goals simp [zombified]

structure PtrInv (s : Kernel) : Prop where
  nodup : ∀ a, (children s a).Nodup
  disjoint : ∀ a b q, q ∈ children s a → q ∈ children s b → a = b
  inUse : ∀ a, ∀ q ∈ children s a, s.pcbPtrs.InUse q

variable {s s' : Kernel} {p q b a i : ℕ} {rest : List ℕ}

theorem children_start (k : ℕ) : children disastrOSStart k = [] := by
  obtain ⟨t, -, hc, hs⟩ := disastrOSStart_eq
  rw [hs]
  simp only [children, Kernel.pcb, hc]
  split_ifs <;> rfl

namespace PtrInv

theorem congr (h : PtrInv s) (hchildren : ∀ k, children s' k = children s k)
    (hptrs : s'.pcbPtrs = s.pcbPtrs) : PtrInv s' := by
  refine ⟨fun a => ?_, fun a b q => ?_, fun a q hq => ?_⟩
  · rw [hchildren]
    exact h.nodup a
  · rw [hchildren, hchildren]
    exact h.disjoint a b q
  · rw [hptrs]
    exact h.inUse a q (hchildren a ▸ hq)

theorem family (h : PtrInv s) (hs : SameFamily s s') : PtrInv s' :=
  h.congr (fun k => by rw [children, children, hs.children]) hs.pcbPtrs

theorem newChild_children {cpu : Option ℤ} (hc : NewChild s s' p b q cpu) (k : ℕ) :
    children s' k = if k = b then [] else if k = p then children s p ++ [q] else children s k := by
  rw [children, hc.pcb]
  split_ifs <;> rfl

theorem newChild {cpu : Option ℤ} (h : PtrInv s) (hc : NewChild s s' p b q cpu) : PtrInv s' := by
  have hmem : ∀ k r, r ∈ children s' k → r ∈ children s k ∨ k = p ∧ r = q := by
    intro k r hr
    rw [newChild_children hc] at hr
    split_ifs at hr with hkb hkp
    · cases hr
    · rcases List.mem_append.mp hr with hr | hr
      · exact Or.inl (hkp ▸ hr)
      · exact Or.inr ⟨hkp, List.mem_singleton.mp hr⟩
    · exact Or.inl hr
  have hfresh : ∀ k, q ∉ children s k := fun k hq => hc.freshPtr (h.inUse k q hq)
  refine ⟨fun k => ?_, fun k l r hk hl => ?_, fun k r hr => ?_⟩
  · rw [newChild_children hc]
    split_ifs
    · exact List.nodup_nil
    · exact (h.nodup p).append (List.nodup_singleton q) (by simpa using hfresh p)
    · exact h.nodup k
  · rcases hmem k r hk with hk | ⟨rfl, rfl⟩ <;> rcases hmem l r hl with hl | ⟨rfl, hr⟩
    · exact h.disjoint k l r hk hl
    · exact absurd (hr ▸ hk) (hfresh k)
    · exact absurd hl (hfresh l)
    · rfl
  · rw [hc.inUsePtr]
    rcases hmem k r hr with hr | ⟨-, rfl⟩
    · exact Or.inl (h.inUse k r hr)
    · exact Or.inr rfl

theorem started_children (hc : Started s s' b) (k : ℕ) :
    children s' k = if k = b then [] else children s k := by
  rw [children, hc.pcb]
  split_ifs <;> rfl

theorem started (h : PtrInv s) (hc : Started s s' b) : PtrInv s' := by
  have hmem : ∀ k r, r ∈ children s' k → r ∈ children s k := by
    intro k r hr
    rw [started_children hc] at hr
    split_ifs at hr
    · cases hr
    · exact hr
  refine ⟨fun k => ?_, fun k l r hk hl => h.disjoint k l r (hmem k r hk) (hmem l r hl),
    fun k r hr => ?_⟩
  · rw [started_children hc]
    split_ifs
    · exact List.nodup_nil
    · exact h.nodup k
  · rw [hc.pcbPtrs]
    exact h.inUse k r (hmem k r hr)

/-- The children of `p` have gone to `i`. -/
theorem reparented (h : PtrInv s) (hpi : p ≠ i) (hptrs : s'.pcbPtrs = s.pcbPtrs)
    (hchildren : ∀ k, children s' k = (reparented s p i k).items) : PtrInv s' := by
  have hmem : ∀ k r, r ∈ children s' k ↔
      k ≠ p ∧ r ∈ children s k ∨ k = i ∧ r ∈ children s p := by
    intro k r
    rw [hchildren, DisastrOS.reparented]
    split_ifs with hkp hki
    · subst hkp
      simp [hpi]
    · subst hki
      simp [hkp, children]
    · simp [hkp, hki, children]
  refine ⟨fun k => ?_, fun k l r hk hl => ?_, fun k r hr => ?_⟩
  · rw [hchildren, DisastrOS.reparented]
    split_ifs with hkp hki
    · exact List.nodup_nil
    · refine (h.nodup i).append (h.nodup p) fun r hr hr' => ?_
      exact hpi (h.disjoint p i r hr' hr)
    · exact h.nodup k
  · rcases (hmem k r).mp hk with ⟨hkp, hk⟩ | ⟨rfl, hk⟩ <;>
      rcases (hmem l r).mp hl with ⟨hlp, hl⟩ | ⟨rfl, hl⟩
    · exact h.disjoint k l r hk hl
    · exact absurd (h.disjoint k p r hk hl) hkp
    · exact absurd (h.disjoint l p r hl hk) hlp
    · rfl
  · rw [hptrs]
    rcases (hmem k r).mp hr with ⟨-, hr⟩ | ⟨-, hr⟩
    · exact h.inUse k r hr
    · exact h.inUse p r hr

/-- The pointer `q` leaves the children of `a`, and may be freed. -/
theorem detached (h : PtrInv s) (hq : q ∈ children s a)
    (hchildren : ∀ k, children s' k = if k = a then (children s a).erase q else children s k)
    (hptrs : ∀ r, s.pcbPtrs.InUse r → r ≠ q → s'.pcbPtrs.InUse r) : PtrInv s' := by
  have hmem : ∀ k r, r ∈ children s' k → r ∈ children s k ∧ r ≠ q := by
    intro k r hr
    rw [hchildren] at hr
    split_ifs at hr with hk
    · have := (h.nodup a).mem_erase_iff.mp hr
      exact ⟨hk ▸ this.2, this.1⟩
    · refine ⟨hr, ?_⟩
      rintro rfl
      exact hk (h.disjoint k a r hr hq)
  refine ⟨fun k => ?_, fun k l r hk hl => ?_, fun k r hr => ?_⟩
  · rw [hchildren]
    split_ifs
    · exact (h.nodup a).erase q
    · exact h.nodup k
  · exact h.disjoint k l r (hmem k r hk).1 (hmem l r hl).1
  · exact hptrs r (h.inUse k r (hmem k r hr).1) (hmem k r hr).2

theorem reaped_children {k : ℕ} : children (reaped s p q b) k =
    if k = p then (children s p).erase q else children s k := by
  by_cases hk : k = p <;> simp [children, reaped, hk]

theorem reaped (h : PtrInv s) (hq : q ∈ children s p) : PtrInv (reaped s p q b) := by
  refine h.detached hq (fun k => reaped_children) fun r hr hrq => ?_
  simpa [DisastrOS.reaped] using ⟨hr, hrq⟩

theorem delivered (h : PtrInv s) (hpi : p ≠ i) (hq : q ∈ (DisastrOS.reparented s p i a).items)
    (hd : Delivered s s' p a i q) : PtrInv s' := by
  have hmid : PtrInv (handedOver s p i fun _ => 0) := h.reparented hpi rfl fun _ => rfl
  refine hmid.detached hq (fun k => ?_) fun r hr _ => ?_
  · rw [children, hd.children]
    rfl
  · rw [hd.pcbPtrs]
    exact hr

theorem move (h : PtrInv s) (hm : FamilyMove s s') : PtrInv s' := by
  cases hm with
  | same same => exact h.family same
  | create p b q cpu _ created => exact h.newChild created
  | zombie p a i _ _ _ _ differ _ zombied =>
    exact h.reparented differ zombied.pcbPtrs fun k => by rw [children, zombied.children]
  | deliver p a i q _ _ _ _ differ _ _ found delivered =>
    exact h.delivered differ (List.mem_of_find?_eq_some found) delivered
  | collect p q _ _ mem _ result => exact result ▸ h.reaped mem
  | start b _ started => exact h.started started

theorem start : PtrInv disastrOSStart := by
  refine ⟨fun k => ?_, fun k l q hk => ?_, fun k q hq => ?_⟩
  · simp [children_start]
  · simp [children_start] at hk
  · simp [children_start] at hq

theorem reachable (h : kernel.Reachable s) : PtrInv s :=
  h.invariant start fun s act t hr hp hm => by
    obtain ⟨u, hu, -, hmove⟩ := step_move (KernelInv.reachable hr) hm
    exact (hp.family hu).move hmove

end PtrInv

/-- The lists of children and the processes in use fit together. The processes without a parent
are init and those that were init before it. -/
structure ChildInv (s : Kernel) : Prop where
  ptr : PtrInv s
  childInUse : ∀ a, ∀ q ∈ children s a, s.pcbs.InUse (child s q)
  owner : ∀ a, ∀ q ∈ children s a, s.pcbs.InUse a ∧ a ∉ (s.procs .zombie).items
  hasParent : ∀ a, ∀ q ∈ children s a, (s.pcb (child s q)).parent ≠ none
  unique : ∀ a, ∀ q ∈ children s a, ∀ b, ∀ r ∈ children s b, child s q = child s r → q = r
  irrefl : ∀ a, ∀ q ∈ children s a, child s q ≠ a
  complete : ∀ b, s.pcbs.InUse b → (s.pcb b).parent ≠ none →
    ∃ a, ∃ q ∈ children s a, child s q = b

namespace ChildInv

theorem family (h : ChildInv s) (hs : SameFamily s s') : ChildInv s' := by
  have hc : ∀ k, children s' k = children s k := fun k => by rw [children, children, hs.children]
  have hch : ∀ q, child s' q = child s q := fun q => by rw [child, child, hs.pcbPtrs]
  constructor
  case ptr => exact h.ptr.family hs
  all_goals simp only [hc, hch, hs.inUse, hs.zombies, hs.parent]
  case childInUse => exact h.childInUse
  case owner => exact h.owner
  case hasParent => exact h.hasParent
  case unique => exact h.unique
  case irrefl => exact h.irrefl
  case complete => exact h.complete

theorem newChild {cpu : Option ℤ} (h : ChildInv s) (hk : ProcInv s) (hp : s.running = some p)
    (hc : NewChild s s' p b q cpu) : ChildInv s' := by
  have hfresh : ∀ k, q ∉ children s k := fun k hq => hc.freshPtr (h.ptr.inUse k q hq)
  have hmem : ∀ k r, r ∈ children s' k → r ∈ children s k ∧ child s' r = child s r ∨
      k = p ∧ r = q ∧ child s' r = b := by
    intro k r hr
    have hch : child s' r = if r = q then b else child s r := by
      rw [child, hc.cellPtr]
      split_ifs <;> rfl
    rw [PtrInv.newChild_children hc] at hr
    split_ifs at hr with hkb hkp
    · cases hr
    · rcases List.mem_append.mp hr with hr | hr
      · have hrq : r ≠ q := fun he => hfresh p (he ▸ hr)
        exact Or.inl ⟨hkp ▸ hr, by rw [hch, if_neg hrq]⟩
      · obtain rfl := List.mem_singleton.mp hr
        exact Or.inr ⟨hkp, rfl, by rw [hch, if_pos rfl]⟩
    · have hrq : r ≠ q := fun he => hfresh k (he ▸ hr)
      exact Or.inl ⟨hr, by rw [hch, if_neg hrq]⟩
  have hold : ∀ k r, r ∈ children s k → r ∈ children s' k ∧ child s' r = child s r := by
    intro k r hr
    have hrq : r ≠ q := fun he => hfresh k (he ▸ hr)
    have hkb : k ≠ b := fun he => hc.fresh (he ▸ (h.owner k r hr).1)
    refine ⟨?_, by rw [child, hc.cellPtr, if_neg hrq, child]⟩
    rw [PtrInv.newChild_children hc, if_neg hkb]
    split_ifs with hkp
    · exact List.mem_append_left _ (hkp ▸ hr)
    · exact hr
  have hnew : q ∈ children s' p ∧ child s' q = b := by
    refine ⟨?_, by rw [child, hc.cellPtr, if_pos rfl]⟩
    rw [PtrInv.newChild_children hc, if_neg hc.differ, if_pos rfl]
    simp
  have hzombie : s'.procs .zombie = s.procs .zombie := by simp [hc.procs]
  have hparent : ∀ k, (s'.pcb k).parent = if k = b then some p else (s.pcb k).parent := fun k => by
    rw [hc.pcb]
    split_ifs <;> rfl
  constructor
  case ptr => exact h.ptr.newChild hc
  case childInUse =>
    intro k r hr
    rw [hc.inUse]
    rcases hmem k r hr with ⟨hr, he⟩ | ⟨-, -, he⟩
    · exact Or.inl (he ▸ h.childInUse k r hr)
    · exact Or.inr he
  case owner =>
    intro k r hr
    rw [hc.inUse, hzombie]
    rcases hmem k r hr with ⟨hr, -⟩ | ⟨rfl, -, -⟩
    · exact ⟨Or.inl (h.owner k r hr).1, (h.owner k r hr).2⟩
    · exact ⟨Or.inl (hk.inUse_of_running hp), fun hz => hk.not_linked hp (Or.inr (Or.inr hz))⟩
  case hasParent =>
    intro k r hr
    rw [hparent]
    rcases hmem k r hr with ⟨hr, he⟩ | ⟨-, -, he⟩
    · have hrb : child s r ≠ b := fun hb => hc.fresh (hb ▸ h.childInUse k r hr)
      rw [he, if_neg hrb]
      exact h.hasParent k r hr
    · simp [he]
  case unique =>
    intro k r hr l t ht he
    rcases hmem k r hr with ⟨hr, h1⟩ | ⟨rfl, rfl, h1⟩ <;>
      rcases hmem l t ht with ⟨ht, h2⟩ | ⟨rfl, rfl, h2⟩
    · exact h.unique k r hr l t ht (by rw [← h1, ← h2, he])
    · exact absurd (h.childInUse k r hr) (by rw [← h1, he, h2]; exact hc.fresh)
    · exact absurd (h.childInUse l t ht) (by rw [← h2, ← he, h1]; exact hc.fresh)
    · rfl
  case irrefl =>
    intro k r hr
    rcases hmem k r hr with ⟨hr, he⟩ | ⟨rfl, -, he⟩
    · exact he ▸ h.irrefl k r hr
    · exact fun hb => hc.differ (hb.symm.trans he)
  case complete =>
    intro k hku hki
    by_cases hkb : k = b
    · exact ⟨p, q, hnew.1, hkb ▸ hnew.2⟩
    · rw [hparent, if_neg hkb] at hki
      obtain ⟨a, r, hr, he⟩ := h.complete k (((hc.inUse k).mp hku).resolve_right hkb) hki
      exact ⟨a, r, (hold a r hr).1, (hold a r hr).2.trans he⟩

/-- Another first process has neither children nor a parent. -/
theorem started (h : ChildInv s) (hc : Started s s' b) : ChildInv s' := by
  have hnil : children s b = [] := by
    rw [List.eq_nil_iff_forall_not_mem]
    exact fun r hr => hc.fresh (h.owner b r hr).1
  have hchildren : ∀ k, children s' k = children s k := fun k => by
    rw [PtrInv.started_children hc]
    split_ifs with hk
    · rw [hk, hnil]
    · rfl
  have hch : ∀ r, child s' r = child s r := fun r => by rw [child, child, hc.pcbPtrs]
  have hparent : ∀ k, (s'.pcb k).parent = if k = b then none else (s.pcb k).parent := fun k => by
    rw [hc.pcb]
    split_ifs <;> rfl
  constructor
  case ptr => exact h.ptr.started hc
  all_goals simp only [hchildren, hch, hc.procs, hc.inUse]
  case childInUse => exact fun a q hq => Or.inl (h.childInUse a q hq)
  case owner => exact fun a q hq => ⟨Or.inl (h.owner a q hq).1, (h.owner a q hq).2⟩
  case hasParent =>
    intro a q hq
    have hqb : child s q ≠ b := fun hb => hc.fresh (hb ▸ h.childInUse a q hq)
    rw [hparent, if_neg hqb]
    exact h.hasParent a q hq
  case unique => exact h.unique
  case irrefl => exact h.irrefl
  case complete =>
    intro k hku hkp
    rw [hparent] at hkp
    by_cases hkb : k = b
    · exact absurd (if_pos hkb) hkp
    · rw [if_neg hkb] at hkp
      exact h.complete k (hku.resolve_right hkb) hkp

/-- The pointers that `p` had are those that `i` gets. -/
theorem mem_reparented {k r : ℕ} (hpi : p ≠ i) : r ∈ (reparented s p i k).items ↔
    k ≠ p ∧ r ∈ children s k ∨ k = i ∧ r ∈ children s p := by
  rw [reparented]
  split_ifs with hkp hki
  · subst hkp
    simp [hpi]
  · subst hki
    simp [hkp, children]
  · simp [hkp, hki, children]

theorem zombied (h : ChildInv s) (hk : ProcInv s)
    (hi : s.initPcb = some i) (hpi : p ≠ i) (hz : Zombied s s' p i) : ChildInv s' := by
  have hmem : ∀ k r, r ∈ children s' k ↔
      k ≠ p ∧ r ∈ children s k ∨ k = i ∧ r ∈ children s p := fun k r => by
    rw [children, hz.children, mem_reparented hpi]
  have hch : ∀ q, child s' q = child s q := fun q => by rw [child, child, hz.pcbPtrs]
  have hold : ∀ k r, r ∈ children s' k → ∃ l, r ∈ children s l := by
    intro k r hr
    rcases (hmem k r).mp hr with ⟨-, hr⟩ | ⟨-, hr⟩
    · exact ⟨k, hr⟩
    · exact ⟨p, hr⟩
  obtain ⟨j, hj, hju, hjz⟩ := hk.init
  obtain rfl : j = i := Option.some.inj (hj.symm.trans hi)
  constructor
  case ptr => exact h.ptr.reparented hpi hz.pcbPtrs fun k => by rw [children, hz.children]
  case childInUse =>
    intro k r hr
    obtain ⟨l, hl⟩ := hold k r hr
    rw [hz.inUse, hch]
    exact h.childInUse l r hl
  case owner =>
    intro k r hr
    rw [hz.inUse, hz.zombies, List.mem_append, List.mem_singleton]
    rcases (hmem k r).mp hr with ⟨hkp, hr⟩ | ⟨rfl, hr⟩
    · obtain ⟨h1, h2⟩ := h.owner k r hr
      exact ⟨h1, not_or.mpr ⟨h2, hkp⟩⟩
    · exact ⟨hju, not_or.mpr ⟨fun hm => hjz ((hk.zombie k hju).mpr hm), hpi.symm⟩⟩
  case hasParent =>
    intro k r hr
    obtain ⟨l, hl⟩ := hold k r hr
    rw [hz.parent, hch]
    exact h.hasParent l r hl
  case unique =>
    intro k r hr l t ht he
    obtain ⟨k', hk'⟩ := hold k r hr
    obtain ⟨l', hl'⟩ := hold l t ht
    rw [hch, hch] at he
    exact h.unique k' r hk' l' t hl' he
  case irrefl =>
    intro k r hr
    rw [hch]
    rcases (hmem k r).mp hr with ⟨-, hr⟩ | ⟨rfl, hr⟩
    · exact h.irrefl k r hr
    · exact fun he => h.hasParent p r hr (he ▸ hk.parent k hi)
  case complete =>
    intro b hb hbi
    rw [hz.inUse] at hb
    rw [hz.parent] at hbi
    obtain ⟨a, r, hr, he⟩ := h.complete b hb hbi
    by_cases hap : a = p
    · exact ⟨j, r, (hmem j r).mpr (Or.inr ⟨rfl, hap ▸ hr⟩), (hch r).trans he⟩
    · exact ⟨a, r, (hmem a r).mpr (Or.inl ⟨hap, hr⟩), (hch r).trans he⟩

/-- The process `b`, a child of `a` through `q`, is freed together with that entry. -/
theorem freed (h : ChildInv s) (hq : q ∈ children s a) (hb : child s q = b)
    (hnone : children s b = []) (hptr : PtrInv s')
    (hparent : ∀ k, (s'.pcb k).parent = (s.pcb k).parent)
    (hinUse : ∀ k, s'.pcbs.InUse k ↔ s.pcbs.InUse k ∧ k ≠ b)
    (hzombies : ∀ k, k ∈ (s'.procs .zombie).items → k ∈ (s.procs .zombie).items)
    (hchildren : ∀ k, children s' k = if k = a then (children s a).erase q else children s k)
    (hch : ∀ r, child s' r = child s r) : ChildInv s' := by
  have hmem : ∀ k r, r ∈ children s' k ↔ r ∈ children s k ∧ r ≠ q := by
    intro k r
    rw [hchildren]
    split_ifs with hk
    · rw [hk, (h.ptr.nodup a).mem_erase_iff, and_comm]
    · refine ⟨fun hr => ⟨hr, ?_⟩, fun hr => hr.1⟩
      rintro rfl
      exact hk (h.ptr.disjoint k a r hr hq)
  constructor
  case ptr => exact hptr
  case childInUse =>
    intro k r hr
    obtain ⟨hr, hrq⟩ := (hmem k r).mp hr
    rw [hinUse, hch]
    refine ⟨h.childInUse k r hr, fun he => hrq ?_⟩
    exact h.unique k r hr a q hq (he.trans hb.symm)
  case owner =>
    intro k r hr
    obtain ⟨hr, -⟩ := (hmem k r).mp hr
    obtain ⟨h1, h2⟩ := h.owner k r hr
    rw [hinUse]
    refine ⟨⟨h1, ?_⟩, fun hz => h2 (hzombies k hz)⟩
    rintro rfl
    rw [hnone] at hr
    cases hr
  case hasParent =>
    intro k r hr
    rw [hparent, hch]
    exact h.hasParent k r ((hmem k r).mp hr).1
  case unique =>
    intro k r hr l t ht he
    rw [hch, hch] at he
    exact h.unique k r ((hmem k r).mp hr).1 l t ((hmem l t).mp ht).1 he
  case irrefl =>
    intro k r hr
    rw [hch]
    exact h.irrefl k r ((hmem k r).mp hr).1
  case complete =>
    intro c hc hci
    obtain ⟨hc, hcb⟩ := (hinUse c).mp hc
    rw [hparent] at hci
    obtain ⟨l, r, hr, he⟩ := h.complete c hc hci
    refine ⟨l, r, (hmem l r).mpr ⟨hr, ?_⟩, (hch r).trans he⟩
    rintro rfl
    exact hcb (he.symm.trans hb)

/-- The state in which the exiting process `p` has given its children away is as if it had
become a zombie. -/
theorem delivered (h : ChildInv s) (hk : ProcInv s)
    (hi : s.initPcb = some i) (hpi : p ≠ i) (hq : q ∈ (reparented s p i a).items)
    (hself : child s q = p) (hd : Delivered s s' p a i q) : ChildInv s' := by
  have hz := zombified_zombied s p i fun _ => 0
  have hmid := h.zombied hk hi hpi hz
  have hkids : ∀ k,
      children (zombified s p i fun _ => 0) k = (reparented s p i k).items := fun k => by
    rw [children, hz.children]
  refine hmid.freed (a := a) (q := q) (b := p) ?_ hself ?_ ?_ ?_ ?_ ?_ ?_ ?_
  · rw [hkids]
    exact hq
  · rw [hkids, reparented, if_pos rfl]
  · exact h.ptr.delivered hpi hq hd
  · exact fun k => (hd.parent k).trans (hz.parent k).symm
  · exact hd.inUse
  · intro k hkz
    rw [hd.zombies] at hkz
    rw [hz.zombies]
    exact List.mem_append_left _ hkz
  · intro k
    rw [children, hd.children]
    simp only [hkids]
  · intro r
    rw [child, hd.pcbPtrs]
    rfl

theorem reaped (h : ChildInv s) (hk : ProcInv s) (hq : q ∈ children s p)
    (hz : (s.pcb (child s q)).status = .zombie) : ChildInv (reaped s p q (child s q)) := by
  have hu := h.childInUse p q hq
  have hzm := (hk.zombie _ hu).mp hz
  refine h.freed hq rfl ?_ (h.ptr.reaped hq) ?_ ?_ ?_ (fun k => PtrInv.reaped_children) ?_
  · rw [List.eq_nil_iff_forall_not_mem]
    exact fun r hr => (h.owner _ r hr).2 hzm
  · simp [DisastrOS.reaped]
  · simp [DisastrOS.reaped]
  · intro k hkz
    simp only [DisastrOS.reaped, pcbFree_procs, Kernel.emit_procs, storeResult_procs,
      Kernel.setProcs_procs, if_true] at hkz
    exact List.mem_of_mem_erase hkz
  · intro r
    simp [DisastrOS.reaped, child]

/-- A move keeps the families together if a process that is handed to its parent finds its own
entry in the list of the parent. -/
theorem move (h : ChildInv s) (hk : ProcInv s) (hm : FamilyMove s s')
    (hself : ∀ p a i q, s.running = some p → (s.pcb p).syscallNum = dsosCallExit →
      (s.pcb p).parent = some a → p ≠ i → a ∈ (s.procs .waiting).items → WaitsFor s a p →
      pcbPtrByPid s (DisastrOS.reparented s p i a) (s.pcb p).pid = some q → child s q = p) :
    ChildInv s' := by
  cases hm with
  | same same => exact h.family same
  | create p b q cpu running created => exact h.newChild hk running created
  | zombie p a i _ _ _ init differ _ zombied => exact h.zombied hk init differ zombied
  | deliver p a i q running number parent init differ waits waiting found delivered =>
    exact h.delivered hk init differ (List.mem_of_find?_eq_some found)
      (hself p a i q running number parent differ waiting waits found) delivered
  | collect p q _ _ mem zombie result => exact result ▸ h.reaped hk mem zombie
  | start b _ started => exact h.started started

theorem start : ChildInv disastrOSStart := by
  have hptr := PtrInv.start
  obtain ⟨t, hu, hc, hs⟩ := disastrOSStart_eq
  constructor
  case ptr => exact hptr
  case complete =>
    intro b hb hbi
    rw [hs] at hb hbi
    obtain rfl := (hu b).mp hb
    simp [Kernel.pcb, hc, initPCB, zeroPCB] at hbi
  all_goals
    intro a q hq
    rw [children_start] at hq
    cases hq

end ChildInv

/-! ### Process ids -/

/-- The number of processes that a run has created. -/
def createdCount (l : List Event) : ℕ :=
  l.countP fun
    | .created _ => true
    | _ => false

theorem createdCount_history (l : List Event) : createdCount (history l) = createdCount l := by
  unfold createdCount history
  rw [List.countP_filter]
  refine List.countP_congr fun e _ => ?_
  cases e <;> simp

/-- The ids that have been given out are the numbers below `lastPid`, one for each process. -/
structure PidInv (s : Kernel) : Prop where
  lastPid : s.lastPid = createdCount s.trace
  bounds : ∀ b, s.pcbs.InUse b → 0 ≤ (s.pcb b).pid ∧ (s.pcb b).pid < s.lastPid
  distinct : ∀ b c, s.pcbs.InUse b → s.pcbs.InUse c → (s.pcb b).pid = (s.pcb c).pid → b = c

theorem SameFamily.createdCount (h : SameFamily s s') :
    createdCount s'.trace = createdCount s.trace := by
  rw [← createdCount_history, h.history, createdCount_history]

theorem toInt_of_lt {n : ℕ} (h : n < 2 ^ 31) : toInt n = n := by
  rw [toInt, Int.bmod_eq_of_le] <;> omega

theorem NewProcess.createdCount (h : NewProcess s s' b) :
    createdCount s'.trace = createdCount s.trace + 1 := by
  rw [← createdCount_history, h.history, ← createdCount_history s.trace]
  simp [DisastrOS.createdCount]

namespace PidInv

theorem of_pid (h : PidInv s) (hl : s'.lastPid = s.lastPid)
    (hc : createdCount s'.trace = createdCount s.trace)
    (hu : ∀ k, s'.pcbs.InUse k → s.pcbs.InUse k) (hp : ∀ k, (s'.pcb k).pid = (s.pcb k).pid) :
    PidInv s' := by
  refine ⟨by rw [hl, hc, h.lastPid], fun b hb => ?_, fun b c hb hc he => ?_⟩
  · rw [hl, hp]
    exact h.bounds b (hu b hb)
  · rw [hp, hp] at he
    exact h.distinct b c (hu b hb) (hu c hc) he

theorem newProcess_lastPid (h : PidInv s) (hc : NewProcess s s' b)
    (hlt : DisastrOS.createdCount s'.trace < 2 ^ 31) : s'.lastPid = s.lastPid + 1 := by
  have hcount := hc.createdCount
  have hto := toInt_of_lt (n := DisastrOS.createdCount s.trace + 1) (by omega)
  rw [hc.lastPid, h.lastPid]
  exact_mod_cast hto

theorem newProcess (h : PidInv s) (hc : NewProcess s s' b)
    (hlt : DisastrOS.createdCount s'.trace < 2 ^ 31) : PidInv s' := by
  have hcount := hc.createdCount
  have hlast := h.newProcess_lastPid hc hlt
  have hpid := hc.pid
  have hold : ∀ k, s'.pcbs.InUse k → k ≠ b → s.pcbs.InUse k := fun k hk hkb =>
    ((hc.inUse k).mp hk).resolve_right hkb
  refine ⟨by rw [hlast, hcount, h.lastPid]; rfl, fun k hk => ?_, fun k l hk hl he => ?_⟩
  · rw [hpid, hlast]
    split_ifs with hkb
    · have := h.lastPid
      omega
    · have := h.bounds k (hold k hk hkb)
      omega
  · rw [hpid, hpid] at he
    split_ifs at he with hkb hlb hlb
    · exact hkb.trans hlb.symm
    · have := h.bounds l (hold l hl hlb)
      omega
    · have := h.bounds k (hold k hk hkb)
      omega
    · exact h.distinct k l (hold k hk hkb) (hold l hl hlb) he

/-- A move creates at most one process. -/
theorem createdCount_move (hm : FamilyMove s s') :
    DisastrOS.createdCount s.trace ≤ DisastrOS.createdCount s'.trace := by
  cases hm with
  | same same => exact same.createdCount.ge
  | create p b q cpu _ created =>
    have := created.newProcess.createdCount
    omega
  | zombie p a i _ _ _ _ _ _ zombied =>
    rw [← createdCount_history s'.trace, zombied.history, ← createdCount_history s.trace]
    simp [DisastrOS.createdCount]
  | deliver p a i q _ _ _ _ _ _ _ _ delivered =>
    rw [← createdCount_history s'.trace, delivered.history, ← createdCount_history s.trace]
    simp [DisastrOS.createdCount]
  | collect p q _ _ _ _ result =>
    subst result
    simp [DisastrOS.reaped, DisastrOS.createdCount]
  | start b _ started =>
    have := started.newProcess.createdCount
    omega

theorem move (h : PidInv s) (hm : FamilyMove s s')
    (hlt : DisastrOS.createdCount s'.trace < 2 ^ 31) : PidInv s' := by
  cases hm with
  | same same => exact h.of_pid same.lastPid same.createdCount (fun k => (same.inUse k).mp) same.pid
  | create p b q cpu _ created => exact h.newProcess created.newProcess hlt
  | zombie p a i _ _ _ _ _ _ zombied =>
    refine h.of_pid zombied.lastPid ?_ (fun k => (zombied.inUse k).mp) zombied.pid
    rw [← createdCount_history s'.trace, zombied.history, ← createdCount_history s.trace]
    simp [DisastrOS.createdCount]
  | deliver p a i q _ _ _ _ _ _ _ _ delivered =>
    refine h.of_pid delivered.lastPid ?_ (fun k hk => ((delivered.inUse k).mp hk).1) delivered.pid
    rw [← createdCount_history s'.trace, delivered.history, ← createdCount_history s.trace]
    simp [DisastrOS.createdCount]
  | collect p q _ _ _ _ result =>
    subst result
    refine h.of_pid ?_ ?_ ?_ ?_ <;> simp [DisastrOS.reaped, DisastrOS.createdCount]
    exact fun k hk _ => hk
  | start b _ started => exact h.newProcess started.newProcess hlt

theorem family (h : PidInv s) (hs : SameFamily s s') : PidInv s' :=
  h.of_pid hs.lastPid hs.createdCount (fun k => (hs.inUse k).mp) hs.pid

theorem start : PidInv disastrOSStart := by
  obtain ⟨t, hu, hc, hs⟩ := disastrOSStart_eq
  rw [hs]
  refine ⟨rfl, fun b hb => ?_, fun b c hb hc _ => ?_⟩
  · obtain rfl := (hu b).mp hb
    simp [Kernel.pcb, hc, initPCB, zeroPCB]
  · exact ((hu b).mp hb).trans ((hu c).mp hc).symm

/-- A process that is handed to its parent finds itself in the list of the parent. -/
theorem finds_itself (h : PidInv s) (hch : ChildInv s) (hk : ProcInv s) (hp : s.running = some p)
    (hpi : p ≠ i)
    (hq : pcbPtrByPid s (DisastrOS.reparented s p i a) (s.pcb p).pid = some q) : child s q = p := by
  have hm := List.mem_of_find?_eq_some hq
  have hpid := List.find?_some hq
  rw [decide_eq_true_eq] at hpid
  refine h.distinct _ _ ?_ (hk.inUse_of_running hp) hpid
  rcases (ChildInv.mem_reparented hpi).mp hm with ⟨-, hm⟩ | ⟨-, hm⟩
  · exact hch.childInUse a q hm
  · exact hch.childInUse p q hm

end PidInv

/-- As long as the process ids have not wrapped around, families stay together. -/
theorem child_pid_reachable (h : kernel.Reachable s) :
    createdCount s.trace < 2 ^ 31 → ChildInv s ∧ PidInv s := by
  refine h.invariant (P := fun s => createdCount s.trace < 2 ^ 31 → ChildInv s ∧ PidInv s)
    (fun _ => ⟨.start, .start⟩) fun s act t hr hp hm hlt => ?_
  obtain ⟨u, hu, hk, hmove⟩ := step_move (KernelInv.reachable hr) hm
  have hle := PidInv.createdCount_move hmove
  rw [hu.createdCount] at hle
  obtain ⟨hch, hpid⟩ := hp (by omega)
  replace hch := hch.family hu
  replace hpid := hpid.family hu
  refine ⟨hch.move hk.proc hmove fun p a i q hrun _ _ hpi _ _ hq => ?_, hpid.move hmove hlt⟩
  exact hpid.finds_itself hch hk.proc hrun hpi hq

/-! ### Init, and the processes without a parent -/

section
variable {s s' : Kernel} {act : Action} {b : ℕ}

/-- A system call and a timer signal are those of a running process. -/
theorem running_of_step (hs : kernel.step s act = .ok s') (hact : act ≠ .returnToProcess) :
    s.running ≠ none := by
  rcases step_ok hs with ⟨p, n, args, hp, -, -⟩ | ⟨p, hp, -, -⟩ | ⟨rfl, -⟩
  · simp [hp]
  · simp [hp]
  · exact absurd rfl hact

/-- Another process becomes init only when nobody runs. -/
theorem FamilyMove.initPcb (hm : FamilyMove s s') (hr : s.running ≠ none) :
    s'.initPcb = s.initPcb := by
  cases hm with
  | same same => exact same.initPcb
  | create p b q cpu _ created => exact created.initPcb
  | zombie p a i _ _ _ _ _ _ zombied => exact zombied.initPcb
  | deliver p a i q _ _ _ _ _ _ _ _ delivered => exact delivered.initPcb
  | collect p q _ _ _ _ result =>
    subst result
    simp [reaped]
  | start b idle started => exact absurd idle hr

theorem step_initPcb (hk : KernelInv s) (hs : kernel.step s act = .ok s') (hr : s.running ≠ none) :
    s'.initPcb = s.initPcb := by
  rcases step_family hk hs with hsame | ⟨p, n, args, hp, -, -, hm⟩ | ⟨b, -, hidle, -⟩
  · exact hsame.initPcb
  · exact hm.initPcb (by simp [enterSyscall, hp])
  · exact absurd hidle hr

theorem FamilyMove.parent (hm : FamilyMove s s') (hb : s.pcbs.InUse b) :
    (s'.pcb b).parent = (s.pcb b).parent := by
  cases hm with
  | same same => exact same.parent b
  | create p c q cpu _ created =>
    have hbc : b ≠ c := fun he => created.fresh (he ▸ hb)
    rw [created.pcb, if_neg hbc]
    split_ifs <;> rfl
  | zombie p a i _ _ _ _ _ _ zombied => exact zombied.parent b
  | deliver p a i q _ _ _ _ _ _ _ _ delivered => exact delivered.parent b
  | collect p q _ _ _ _ result =>
    subst result
    by_cases hbp : b = p <;> simp [reaped, hbp]
  | start c _ started =>
    have hbc : b ≠ c := fun he => started.fresh (he ▸ hb)
    rw [started.pcb, if_neg hbc]

theorem step_parent (hk : KernelInv s) (hs : kernel.step s act = .ok s') (hb : s.pcbs.InUse b) :
    (s'.pcb b).parent = (s.pcb b).parent := by
  obtain ⟨u, hsu, -, hm⟩ := step_move hk hs
  rw [hm.parent ((hsu.inUse b).mpr hb), hsu.parent]

/-- No process but init is without a parent. -/
def OnlyInitOrphan (s : Kernel) : Prop :=
  ∀ b, s.pcbs.InUse b → (s.pcb b).parent = none → s.initPcb = some b

namespace OnlyInitOrphan

theorem family (h : OnlyInitOrphan s) (hs : SameFamily s s') : OnlyInitOrphan s' := by
  intro b hb hpar
  rw [hs.initPcb]
  exact h b ((hs.inUse b).mp hb) (hs.parent b ▸ hpar)

theorem move (h : OnlyInitOrphan s) (hm : FamilyMove s s') (hr : s.running ≠ none) :
    OnlyInitOrphan s' := by
  intro b hb hpar
  rw [hm.initPcb hr]
  have hold : s.pcbs.InUse b → s.initPcb = some b := fun hu => h b hu (hm.parent hu ▸ hpar)
  cases hm with
  | same same => exact hold ((same.inUse b).mp hb)
  | create p c q cpu _ created =>
    rcases (created.inUse b).mp hb with hu | rfl
    · exact hold hu
    · rw [created.pcb, if_pos rfl] at hpar
      cases hpar
  | zombie p a i _ _ _ _ _ _ zombied => exact hold ((zombied.inUse b).mp hb)
  | deliver p a i q _ _ _ _ _ _ _ _ delivered => exact hold ((delivered.inUse b).mp hb).1
  | collect p q _ _ _ _ result =>
    subst result
    have hu : s.pcbs.InUse b ∧ b ≠ child s q := by simpa [reaped] using hb
    exact hold hu.1
  | start c idle _ => exact absurd idle hr

/-- It is so until a sleep leaves nobody to run and another first process is made. -/
theorem reachableBy (h : kernel.ReachableBy NoRestart s) : OnlyInitOrphan s := by
  refine h.invariant (P := OnlyInitOrphan) ?_ fun s act t hr hp hG hm => ?_
  · obtain ⟨t, hu, -, hs⟩ := disastrOSStart_eq
    change OnlyInitOrphan disastrOSStart
    rw [hs]
    intro b hb _
    rw [(hu b).mp hb]
  · rcases step_family (KernelInv.reachable hr.reachable) hm with
      hsame | ⟨p, n, args, hrun, -, -, hmove⟩ | ⟨b, rfl, hidle, -⟩
    · exact hp.family hsame
    · exact (hp.family enterSyscall_family).move hmove (by simp [enterSyscall, hrun])
    · exact absurd hidle hG

end OnlyInitOrphan

end

end DisastrOS
