import DisastrOS.ChildInvariant
import DisastrOS.Ownership

/-! What a step does to the semaphores, one case for every way in which it can end. -/
namespace DisastrOS
open BlockPool TransitionSystem Ownership

/-- The semaphore `x` that an open of `p` finds, or has just made, in the state `u`. -/
inductive OpensAt (s u : Kernel) (p x : ℕ) : Prop
  | found (listed : semaphoreListById s.sems (toInt ((s.pcb p).syscallArgs 0)) = some x)
      (same : u = s)
  | made (st : Store Semaphore)
      (unknown : semaphoreListById s.sems (toInt ((s.pcb p).syscallArgs 0)) = none)
      (taken : Store.Allocated s.sems.semaphore st x (fun c => { c with
        id := toInt ((s.pcb p).syscallArgs 0)
        count := toInt ((s.pcb p).syscallArgs 1)
        descriptors := .init }))
      (fresh : x ∉ s.sems.list.items) (result : u = semCreated s x st)

/-- The count and the queue of `x` are `v` and `l`, and nothing else of a semaphore differs. -/
structure SemCounted (s s' : Kernel) (x : ℕ) (v : ℤ) (l : ListHead) : Prop where
  sems : s'.sems = (semSet s x v l).sems
  lastSemFd : ∀ k, (s'.pcb k).lastSemFd = (s.pcb k).lastSemFd
  semDescriptors : ∀ k, (s'.pcb k).semDescriptors = (s.pcb k).semDescriptors

inductive SemMove (s s' : Kernel) : Prop
  | same (same : SameSemaphores s s')
  | newProcess (b : ℕ) (created : NewProcess s s' b)
  | noDescriptor (p x : ℕ) (u : Kernel) (running : s.running = some p)
      (number : (s.pcb p).syscallNum = dsosCallSemopen)
      (notOpen : mySearch s.sems (s.pcb p).semDescriptors (toInt ((s.pcb p).syscallArgs 0)) = none)
      (opens : OpensAt s u p x) (empty : u.sems.descriptor.pool.free = [])
      (result : s' = u.setRetvalue p dsosEcreatefd)
  | noPointer (p x d : ℕ) (u : Kernel) (running : s.running = some p)
      (number : (s.pcb p).syscallNum = dsosCallSemopen)
      (notOpen : mySearch s.sems (s.pcb p).semDescriptors (toInt ((s.pcb p).syscallArgs 0)) = none)
      (opens : OpensAt s u p x) (failed : SemOpenFailed u s' p x d)
  | opened (p x d e w : ℕ) (u : Kernel) (running : s.running = some p)
      (number : (s.pcb p).syscallNum = dsosCallSemopen)
      (notOpen : mySearch s.sems (s.pcb p).semDescriptors (toInt ((s.pcb p).syscallArgs 0)) = none)
      (opens : OpensAt s u p x) (opened : SemOpened u s' p x d e w)
  | closed (p x d e w : ℕ) (running : s.running = some p)
      (number : (s.pcb p).syscallNum = dsosCallSemclose)
      (found : semDescriptorListByFd s.sems (s.pcb p).semDescriptors
        (toInt ((s.pcb p).syscallArgs 0)) = some d)
      (semaphore : (s.sems.descriptor.cell d).semaphore = x)
      (ptr : (s.sems.descriptor.cell d).ptr = e) (waitPtr : (s.sems.descriptor.cell d).waitPtr = w)
      (closed : SemClosed s s' p x d e w)
  | counted (x : ℕ) (v : ℤ) (l : ListHead) (counted : SemCounted s s' x v l)

variable {s s' u : Kernel} {p q x d e w b a i : ℕ}

theorem SemMove.setRetvalue (s : Kernel) (p : ℕ) (v : ℤ) :
    SemMove s (s.setRetvalue p v) := .same (.setRetvalue s p v)

theorem OpensAt.invariant (h : KernelInv s) (ho : OpensAt s u p x) : KernelInv u := by
  cases ho with
  | found _ same => exact same ▸ h
  | made st unknown taken fresh result => exact result ▸ h.semCreated taken fresh unknown

theorem OpensAt.listed (ho : OpensAt s u p x) : x ∈ u.sems.list.items := by
  cases ho with
  | found listed same => exact same ▸ List.mem_of_find?_eq_some listed
  | made st unknown taken fresh result =>
    subst result
    simp [semCreated]

/-- An open that makes its semaphore changes no more than the semaphores and their list. -/
theorem OpensAt.shape (ho : OpensAt s u p x) : ∃ t, u = s.setSems t ∧
    t.descriptor = s.sems.descriptor ∧ t.descriptorPtr = s.sems.descriptorPtr := by
  cases ho with
  | found _ same => exact ⟨s.sems, same ▸ rfl, rfl, rfl⟩
  | made st _ _ _ result => exact ⟨_, result, rfl, rfl⟩

theorem OpensAt.room (ho : OpensAt s u p x)
    (hid : semaphoreListById s.sems (toInt ((s.pcb p).syscallArgs 0)) = none) :
    s.sems.semaphore.pool.free ≠ [] := by
  cases ho with
  | found listed _ =>
    rw [hid] at listed
    cases listed
  | made st _ taken _ _ =>
    rw [taken.free]
    simp

theorem internalSemOpen_sem (hp : s.running = some p)
    (hn : (s.pcb p).syscallNum = dsosCallSemopen) (h : internalSemOpen s = .ok s') :
    SemMove s s' := by
  have hmove : ∀ {x u}, mySearch s.sems (s.pcb p).semDescriptors
      (toInt ((s.pcb p).syscallArgs 0)) = none → OpensAt s u p x →
      semOpenDescriptor u p x = .ok s' → SemMove s s' := by
    intro x u hnone ho hs
    rcases semOpenDescriptor_ok hs with ⟨hf, rfl⟩ | ⟨d, hf⟩ | ⟨d, e, w, hopen⟩
    · exact .noDescriptor p x u hp hn hnone ho hf rfl
    · exact .noPointer p x d u hp hn hnone ho hf
    · exact .opened p x d e w u hp hn hnone ho hopen
  obtain ⟨p', hp', hcase⟩ := internalSemOpen_ok h
  obtain rfl : p = p' := Option.some.inj (hp ▸ hp')
  rcases hcase with ⟨d, -, rfl⟩ | ⟨hnone, ⟨x, hx, hs⟩ | ⟨hid, ⟨-, rfl⟩ | ⟨x, st, ha, hx, hs⟩⟩⟩
  · exact .setRetvalue s p _
  · exact hmove hnone (.found hx rfl) hs
  · exact .setRetvalue s p _
  · exact hmove hnone (.made st hid ha hx rfl) hs

theorem internalSemClose_sem (h : KernelInv s) (hp : s.running = some p)
    (hn : (s.pcb p).syscallNum = dsosCallSemclose) (hs : internalSemClose s = .ok s') :
    SemMove s s' := by
  obtain ⟨p', hp', hcase⟩ := internalSemClose_ok hs
  obtain rfl : p = p' := Option.some.inj (hp ▸ hp')
  rcases hcase with ⟨-, rfl⟩ | ⟨d, x, e, w, hd, hx, he, hw, hc⟩
  · exact .setRetvalue s p _
  · have hl := h.sem.linked p d (SemInv.byFd_mem hd)
    exact .closed p x d e w hp hn hd hx he hw (hc hl.inUse (he ▸ hl.ptrInUse) (hw ▸ hl.waitPtrInUse)
      (hw ▸ he ▸ hl.differ) ((h.sem.inUse x).mp (hx ▸ hl.listed)))

theorem internalSemWait_sem (h : internalSemWait s = .ok s') : SemMove s s' := by
  obtain ⟨p, hp, ⟨-, rfl⟩ | ⟨d, x, w, -, -, -, ⟨-, rfl⟩ | ⟨-, -, -, q, rest, hr, rfl⟩⟩⟩ :=
    internalSemWait_ok h
  · exact .setRetvalue s p _
  · refine .counted x _ _ ⟨rfl, ?_, ?_⟩ <;> intros <;> simp
  · refine .counted x _ _ ⟨rfl, ?_, ?_⟩ <;> intros <;> simp [dispatched, suspended]

theorem internalSemPost_sem (h : internalSemPost s = .ok s') : SemMove s s' := by
  obtain ⟨p, hp, ⟨-, rfl⟩ | ⟨d, x, -, -, ⟨-, rfl⟩ | ⟨-, w, queue, b, -, -, -, -, -, -, rfl⟩⟩⟩ :=
    internalSemPost_ok h
  · exact .setRetvalue s p _
  · refine .counted x _ _ ⟨rfl, ?_, ?_⟩ <;> intros <;> simp
  · refine .counted x _ _ ⟨semWoken_sems s x w b, ?_, ?_⟩ <;> intros <;> simp [semWoken]

theorem runHandler_sem {hd : Handler} (h : KernelInv s) (hp : s.running = some p)
    (hn : (s.pcb p).syscallNum = hd.number) (hs : runHandler hd s = .ok s') : SemMove s s' := by
  cases hd with
  | preempt => exact .same (internalSchedule_frame hs).1
  | fork =>
    obtain ⟨b, q, hc⟩ := internalFork_ok hp (h.proc.inUse_of_running hp) hs
    exact .newProcess b hc.newProcess
  | wait => exact .same (internalWait_frame hs).1
  | exit => exact .same (internalExit_frame h.proc h.wake hs)
  | spawn =>
    obtain ⟨b, q, hc⟩ := internalSpawn_ok hp (h.proc.inUse_of_running hp) hs
    exact .newProcess b hc.newProcess
  | sleep => exact .same (internalSleep_frame hs).1
  | openResource => exact .same (internalOpenResource_frame hs).2
  | closeResource => exact .same (internalCloseResource_frame hs).2
  | destroyResource => exact .same (internalDestroyResource_frame hs).2
  | shutdown => cases hs
  | semOpen => exact internalSemOpen_sem hp hn hs
  | semClose => exact internalSemClose_sem h hp hn hs
  | semWait => exact internalSemWait_sem hs
  | semPost => exact internalSemPost_sem hs

/-- Neither the families nor the semaphores and resources have changed. -/
structure Quiet (s s' : Kernel) : Prop where
  family : SameFamily s s'
  semaphores : SameSemaphores s s'
  resources : SameResources s s'

theorem enterSyscall_quiet (s : Kernel) (p : ℕ) (n : ℤ) (args : List ℤ) :
    Quiet s (enterSyscall s p n args) := by
  constructor <;> constructor <;> intros <;> simp [enterSyscall]

/-- A step changes none of these, is the call of a handler, or starts another first process. -/
theorem step_call {act : Action} (h : KernelInv s) (hs : step s act = .ok s') :
    Quiet s s' ∨ (∃ p hd args, s.running = some p ∧ act = .syscall (Handler.number hd) args ∧
      KernelInv (enterSyscall s p hd.number args) ∧
      ((enterSyscall s p hd.number args).pcb p).syscallNum = hd.number ∧
      runHandler hd (enterSyscall s p hd.number args) = .ok s') ∨
    ∃ b, act = .returnToProcess ∧ s.running = none ∧ Started s s' b := by
  rcases step_ok hs with ⟨p, n, args, hp, rfl, hr⟩ | ⟨p, hp, -, ht⟩ | ⟨rfl, hr⟩
  · cases hr with
    | outOfRange _ same =>
      subst same
      exact Or.inl ⟨.refl s', .refl s', .refl s'⟩
    | notImplemented _ result =>
      subst result
      have he := enterSyscall_quiet s p n args
      exact Or.inl ⟨he.family.trans (SameProcesses.setRetvalue _ p _).family,
        he.semaphores.trans (.setRetvalue _ p _), he.resources.trans (.setRetvalue _ p _)⟩
    | handled hd number run =>
      subst number
      exact Or.inr (Or.inl ⟨p, hd, args, hp, rfl, h.enter hp, by simp [enterSyscall], run⟩)
  · obtain ⟨h1, h2⟩ := internalSchedule_frame ht
    refine Or.inl ⟨ticked_family.trans (internalSchedule_family ht), .trans ?_ h1, .trans ?_ h2⟩
    · constructor <;> intros <;> simp [ticked, Kernel.pcb]
    · constructor <;> intros <;> simp [ticked, Kernel.pcb]
  · cases hr with
    | resumed _ same =>
      subst same
      exact Or.inl ⟨.refl s', .refl s', .refl s'⟩
    | restarted b idle started => exact Or.inr (Or.inr ⟨b, rfl, idle, started⟩)

/-- The state `u` in which the handler of a call of `p` starts. -/
structure Entered (s u : Kernel) (act : Action) (p : ℕ) : Prop where
  running : s.running = some p
  runs : u.running = some p
  invariant : KernelInv u
  quiet : Quiet s u
  exits : (u.pcb p).syscallNum = dsosCallExit → ∃ args, act = .syscall dsosCallExit args
  opens : (u.pcb p).syscallNum = dsosCallSemopen → ∃ args,
    act = .syscall dsosCallSemopen args ∧ (u.pcb p).syscallArgs 0 = args.getD 0 0

theorem enterSyscall_entered {hd : Handler} {args : List ℤ} (hp : s.running = some p)
    (hk : KernelInv (enterSyscall s p hd.number args)) :
    Entered s (enterSyscall s p hd.number args) (.syscall hd.number args) p := by
  have hnum : ((enterSyscall s p hd.number args).pcb p).syscallNum = hd.number := by
    simp [enterSyscall]
  refine ⟨hp, hp, hk, enterSyscall_quiet s p _ args, fun he => ⟨args, ?_⟩, fun he => ⟨args, ?_, ?_⟩⟩
  · rw [← he, hnum]
  · rw [← he, hnum]
  · rw [hnum] at he
    have hv : syscallVector dsosCallSemopen = some .semOpen := syscallVector_number .semOpen
    simp [enterSyscall, syscallNumarg, he, hv]

/-- What is known of the opens of the action holds where the handler of an open starts. -/
theorem Entered.onOpen {act : Action} {P : Kernel → ℕ → ℤ → Prop} (he : Entered s u act p)
    (hquiet : ∀ n, P s p n → P u p n)
    (h : ∀ args, act = .syscall dsosCallSemopen args → P s p (toInt (args.getD 0 0))) (k : ℕ)
    (hk : u.running = some k) (hn : (u.pcb k).syscallNum = dsosCallSemopen) :
    P u k (toInt ((u.pcb k).syscallArgs 0)) := by
  obtain rfl : p = k := Option.some.inj (he.runs ▸ hk)
  obtain ⟨args, hact, harg⟩ := he.opens hn
  rw [harg]
  exact hquiet _ (h args hact)

/-- A process with no semaphore open has none where the handler of its exit starts. -/
theorem Entered.onExit {act : Action} (he : Entered s u act p)
    (h : ∀ args, act = .syscall dsosCallExit args → (s.pcb p).semDescriptors.items = []) (k : ℕ)
    (hk : u.running = some k) (hn : (u.pcb k).syscallNum = dsosCallExit) :
    (u.pcb k).semDescriptors.items = [] := by
  obtain rfl : p = k := Option.some.inj (he.runs ▸ hk)
  obtain ⟨args, hact⟩ := he.exits hn
  rw [he.quiet.semaphores.semDescriptors]
  exact h args hact

/-- A step leaves the semaphores alone, makes one move, or starts another first process. -/
theorem step_sem {act : Action} (h : KernelInv s) (hs : step s act = .ok s') :
    Quiet s s' ∨ (∃ u p, Entered s u act p ∧ FamilyMove u s' ∧ SemMove u s') ∨
      ∃ b, act = .returnToProcess ∧ s.running = none ∧ Started s s' b := by
  rcases step_call h hs with hq | ⟨p, hd, args, hp, rfl, hke, hnum, hrun⟩ | hstart
  · exact Or.inl hq
  · exact Or.inr (Or.inl ⟨_, p, enterSyscall_entered hp hke, runHandler_family hke hp hnum hrun,
      runHandler_sem hke hp hnum hrun⟩)
  · exact Or.inr (Or.inr hstart)

/-! ### Descriptors and their owners -/

/-- The process `b` has the semaphore `x` open. -/
def HasOpen (s : Kernel) (b x : ℕ) : Prop :=
  ∃ d ∈ (s.pcb b).semDescriptors.items, (s.sems.descriptor.cell d).semaphore = x

instance (s : Kernel) (b x : ℕ) : Decidable (HasOpen s b x) := inferInstanceAs (Decidable (∃ d ∈ _, _))

/-- The process `b` is neither free nor a zombie. -/
def Alive (s : Kernel) (b : ℕ) : Prop := s.pcbs.InUse b ∧ b ∉ (s.procs .zombie).items

theorem alive_of_running (h : ProcInv s) (hp : s.running = some p) : Alive s p :=
  ⟨h.inUse_of_running hp, fun hz => h.not_linked hp (Or.inr (Or.inr hz))⟩

theorem SameFamily.alive (h : SameFamily s s') (b : ℕ) : Alive s' b ↔ Alive s b := by
  rw [Alive, Alive, h.inUse, h.zombies]

/-- A process stays alive unless it exits. -/
theorem FamilyMove.alive (h : ProcInv s) (hm : FamilyMove s s') (hb : Alive s b) :
    Alive s' b ∨ s.running = some b ∧ (s.pcb b).syscallNum = dsosCallExit := by
  obtain ⟨hu, hz⟩ := hb
  cases hm with
  | same same => exact Or.inl ((same.alive b).mpr ⟨hu, hz⟩)
  | create p c q cpu _ created =>
    refine Or.inl ⟨(created.inUse b).mpr (Or.inl hu), ?_⟩
    rwa [created.procs, if_neg (by decide)]
  | zombie p a i running number _ _ _ _ zombied =>
    by_cases hbp : b = p
    · subst hbp
      exact Or.inr ⟨running, number⟩
    · refine Or.inl ⟨(zombied.inUse b).mpr hu, ?_⟩
      rw [zombied.zombies, List.mem_append, List.mem_singleton]
      exact not_or.mpr ⟨hz, hbp⟩
  | deliver p a i q running number _ _ _ _ _ _ delivered =>
    by_cases hbp : b = p
    · subst hbp
      exact Or.inr ⟨running, number⟩
    · exact Or.inl ⟨(delivered.inUse b).mpr ⟨hu, hbp⟩, delivered.zombies ▸ hz⟩
  | collect p q _ _ _ zombie result =>
    subst result
    have hne : b ≠ child s q := by
      rintro rfl
      exact hz ((h.zombie _ hu).mp zombie)
    refine Or.inl ⟨by simpa [reaped] using ⟨hu, hne⟩, ?_⟩
    simp only [reaped, pcbFree_procs, Kernel.emit_procs, storeResult_procs, Kernel.setProcs_procs,
      if_true]
    exact fun hm => hz (List.mem_of_mem_erase hm)
  | start c _ started =>
    exact Or.inl ⟨(started.inUse b).mpr (Or.inl hu), started.procs .zombie ▸ hz⟩

/-- Every descriptor in use is open in its process, and only living processes have any. -/
def SemOwned (s : Kernel) : Prop :=
  Held (Alive s) s.sems.descriptor.InUse (fun d => (s.sems.descriptor.cell d).pcb)
    fun b => (s.pcb b).semDescriptors.items

/-- An open of `p` that cannot have all the blocks that it needs does not take any. -/
def SemOpenWhole (s : Kernel) (p : ℕ) (semnum : ℤ) : Prop :=
  mySearch s.sems (s.pcb p).semDescriptors semnum ≠ none ∨
    (semaphoreListById s.sems semnum = none ∧ s.sems.semaphore.pool.free = []) ∨
    (semaphoreListById s.sems semnum ≠ none ∧ s.sems.descriptor.pool.free = []) ∨
    (s.sems.descriptor.pool.free ≠ [] ∧ 2 ≤ s.sems.descriptorPtr.pool.free.length)

instance (s : Kernel) (p : ℕ) (semnum : ℤ) : Decidable (SemOpenWhole s p semnum) :=
  inferInstanceAs (Decidable (_ ∨ _))

theorem SemOpenWhole.quiet {semnum : ℤ} (h : SemOpenWhole s p semnum) (hq : Quiet s s') :
    SemOpenWhole s' p semnum := by
  unfold SemOpenWhole
  rw [hq.semaphores.sems, hq.semaphores.semDescriptors]
  exact h

/-- An open that has found its semaphore or made it lacks no pointer if it is whole, and lacks a
descriptor only if it has made nothing. -/
theorem OpensAt.whole (ho : OpensAt s u p x)
    (hw : SemOpenWhole s p (toInt ((s.pcb p).syscallArgs 0)))
    (hnone : mySearch s.sems (s.pcb p).semDescriptors (toInt ((s.pcb p).syscallArgs 0)) = none) :
    (u = s ∧ s.sems.descriptor.pool.free = []) ∨
      (s.sems.descriptor.pool.free ≠ [] ∧ 2 ≤ s.sems.descriptorPtr.pool.free.length) := by
  rcases hw with hsome | ⟨hid, hfull⟩ | ⟨hid, hfull⟩ | hroom
  · exact absurd hnone hsome
  · exact absurd hfull (ho.room hid)
  · cases ho with
    | found _ same => exact Or.inl ⟨same, hfull⟩
    | made _ unknown _ _ _ => exact absurd unknown hid
  · exact Or.inr hroom

theorem not_openFailed (ho : OpensAt s u p x)
    (hw : SemOpenWhole s p (toInt ((s.pcb p).syscallArgs 0)))
    (hnone : mySearch s.sems (s.pcb p).semDescriptors (toInt ((s.pcb p).syscallArgs 0)) = none) :
    ¬ SemOpenFailed u s' p x d := by
  intro hf
  have hroom := hf.noRoom
  have hfree := hf.free
  obtain ⟨t, rfl, hd, he⟩ := ho.shape
  simp only [Kernel.setSems_sems, hd, he] at hroom hfree
  rcases ho.whole hw hnone with ⟨-, hfull⟩ | ⟨-, hlen⟩
  · rw [hfull] at hfree
    cases hfree
  · omega

namespace SemOwned

theorem quiet (h : SemOwned s) (hq : Quiet s s') : SemOwned s' := by
  refine Held.congr h (fun b hb => Or.inl ((hq.family.alive b).mpr hb)) (fun d hd => ?_)
    (fun d _ => ?_) fun b => ?_
  · rwa [hq.semaphores.sems] at hd
  · rw [hq.semaphores.sems]
  · rw [hq.semaphores.semDescriptors]

theorem move (h : SemOwned s) (hk : KernelInv s) (hf : FamilyMove s s') (hs : SemMove s s')
    (hexit : ∀ p, s.running = some p → (s.pcb p).syscallNum = dsosCallExit →
      (s.pcb p).semDescriptors.items = [])
    (hwhole : ∀ p, s.running = some p → (s.pcb p).syscallNum = dsosCallSemopen →
      SemOpenWhole s p (toInt ((s.pcb p).syscallArgs 0))) : SemOwned s' := by
  have halive : ∀ b, Alive s b → Alive s' b ∨ (s.pcb b).semDescriptors.items = [] := fun b hb =>
    (hf.alive hk.proc hb).imp_right fun ⟨hp, hn⟩ => hexit b hp hn
  have hsurvive : Held (Alive s') s.sems.descriptor.InUse
      (fun d => (s.sems.descriptor.cell d).pcb) fun b => (s.pcb b).semDescriptors.items :=
    Held.congr h halive (fun _ => id) (fun _ _ => rfl) fun _ => rfl
  cases hs with
  | same same =>
    refine Held.congr hsurvive (fun _ => Or.inl) (fun d hd => ?_) (fun d _ => ?_) fun b => ?_
    · rwa [same.sems] at hd
    · rw [same.sems]
    · rw [same.semDescriptors]
  | newProcess b created =>
    have hnil : (s.pcb b).semDescriptors.items = [] :=
      (h.none b).resolve_left fun hb => created.fresh hb.1
    refine Held.congr hsurvive (fun _ => Or.inl) (fun d hd => ?_) (fun d _ => ?_) fun k => ?_
    · rwa [created.sems] at hd
    · rw [created.sems]
    · rw [created.semDescriptors]
      split_ifs with hkb
      · rw [hkb, hnil]
        rfl
      · rfl
  | noDescriptor p x u running number notOpen opens empty result =>
    subst result
    obtain ⟨t, rfl, hd, -⟩ := opens.shape
    refine Held.congr hsurvive (fun _ => Or.inl) (fun d hu => ?_) (fun d _ => ?_) fun k => ?_
    · simpa [hd] using hu
    · simp [hd]
    · simp
  | noPointer p x d u running number notOpen opens failed =>
    exact absurd failed (not_openFailed opens (hwhole p running number) notOpen)
  | opened p x d e w u running number notOpen opens opened =>
    have hp : Alive s' p := (hf.alive hk.proc (alive_of_running hk.proc running)).resolve_right
      fun ⟨_, hn⟩ => by
        rw [number] at hn
        exact absurd hn (by decide)
    obtain ⟨t, rfl, hd, -⟩ := opens.shape
    refine Held.take (d := d) hsurvive hp (fun k hu => ?_) (fun k => ?_) fun k => ?_
    · simpa only [Kernel.setSems_sems, hd] using (opened.inUse k).mp hu
    · rw [opened.cell]
      split_ifs
      · rfl
      · simp [hd]
    · rw [opened.semDescriptors]
      split_ifs <;> simp
  | closed p x d e w running number found semaphore ptr waitPtr closed =>
    refine Held.giveBack (p := p) (d := d) hsurvive (fun k hu => ?_) (fun k => ?_) fun k => ?_
    · rwa [closed.descriptor, Store.free_inUse] at hu
    · rw [closed.cell_descriptor]
    · rw [closed.semDescriptors]
      split_ifs <;> rfl
  | counted x v l counted =>
    refine Held.congr hsurvive (fun _ => Or.inl) (fun d hd => ?_) (fun d _ => ?_) fun b => ?_
    · rwa [counted.sems] at hd
    · rw [counted.sems]
      rfl
    · rw [counted.semDescriptors]

end SemOwned

/-! ### No semaphore without descriptors -/

/-- Every semaphore in the list is open. -/
def SemHeld (s : Kernel) : Prop :=
  ∀ x ∈ s.sems.list.items, (s.sems.semaphore.cell x).descriptors.items ≠ []

namespace SemHeld

theorem same (h : SemHeld s) (hs : SameSemaphores s s') : SemHeld s' := by
  rw [SemHeld, hs.sems]
  exact h

theorem move (h : SemHeld s) (hk : KernelInv s) (hs : SemMove s s')
    (hwhole : ∀ p, s.running = some p → (s.pcb p).syscallNum = dsosCallSemopen →
      SemOpenWhole s p (toInt ((s.pcb p).syscallArgs 0))) : SemHeld s' := by
  cases hs with
  | same same => exact h.same same
  | newProcess b created =>
    rw [SemHeld, created.sems]
    exact h
  | noDescriptor p x u running number notOpen opens empty result =>
    obtain ⟨t, hu, hd, -⟩ := opens.shape
    have hfull : s.sems.descriptor.pool.free = [] := by simpa [hu, hd] using empty
    rcases opens.whole (hwhole p running number) notOpen with ⟨rfl, -⟩ | ⟨hroom, -⟩
    · rw [result]
      exact h.same (.setRetvalue u p _)
    · exact absurd hfull hroom
  | noPointer p x d u running number notOpen opens failed =>
    exact absurd failed (not_openFailed opens (hwhole p running number) notOpen)
  | opened p x d e w u running number notOpen opens opened =>
    intro y hy
    rw [opened.list] at hy
    rw [opened.cell_semaphore]
    split_ifs with hyx
    · simp
    · cases opens with
      | found _ same =>
        subst same
        exact h y hy
      | made st _ taken _ result =>
        subst result
        simp only [semCreated, Kernel.setSems_sems, List.mem_append, List.mem_singleton] at hy
        simp only [semCreated, Kernel.setSems_sems]
        rw [taken.cell, if_neg hyx]
        exact h y (hy.resolve_right hyx)
  | closed p x d e w running number found semaphore ptr waitPtr closed =>
    intro y hy
    rw [closed.cell]
    by_cases h1 : (s.sems.semaphore.cell x).descriptors.size = 1
    · rw [(closed.unlinked h1).2.1] at hy
      obtain ⟨hyx, hy⟩ := hk.sem.nodup.mem_erase_iff.mp hy
      rw [if_neg hyx]
      exact h y hy
    · rw [(closed.kept h1).1] at hy
      split_ifs with hyx
      · subst hyx
        have hlen := List.length_erase_add_one closed.listed
        rw [hk.sem.size] at h1
        intro hnil
        rw [show (s.sems.semaphore.cell y).descriptors.items.erase e = [] from hnil,
          List.length_nil] at hlen
        omega
      · exact h y hy
  | counted x v l counted =>
    intro y hy
    rw [counted.sems] at hy ⊢
    rw [semSet_cell]
    split_ifs <;> exact h y hy

end SemHeld
end DisastrOS
