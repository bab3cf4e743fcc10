import DisastrOS.SemaphoreRoom

/-! Which call of a semaphore a step is, and what it does to the counts and the queues. -/
namespace DisastrOS
open BlockPool TransitionSystem

variable {s t u : Kernel} {p q b d e w x y : ℕ} {act : Action} {args : List ℤ}

/-- The processes that wait for the semaphore `x`, in order. -/
def waiters (s : Kernel) (x : ℕ) : List ℕ := (queue s x).map (waiter s)

/-- The semaphore that `p` means by the number `fd`. -/
def calledSemaphore (s : Kernel) (p : ℕ) (fd : ℤ) : Option ℕ :=
  (semDescriptorListByFd s.sems (s.pcb p).semDescriptors fd).map fun d =>
    (s.sems.descriptor.cell d).semaphore

/-- What happens to the semaphores: one is made or goes, or a process waits for one or posts
it. -/
inductive SemEvent
  | none
  | create (x : ℕ) (semnum value : ℤ)
  | remove (x : ℕ)
  | wait (x p : ℕ)
  | post (x : ℕ)
  deriving DecidableEq, Repr

/-- An open makes a semaphore if there is none yet and a block is free, whether or not it
succeeds then. -/
def semOpenEvent (s : Kernel) (p : ℕ) (semnum value : ℤ) : SemEvent :=
  match mySearch s.sems (s.pcb p).semDescriptors semnum, semaphoreListById s.sems semnum,
      s.sems.semaphore.pool.free with
  | none, none, x :: _ => .create x semnum value
  | _, _, _ => .none

def semCloseEvent (s : Kernel) (p : ℕ) (fd : ℤ) : SemEvent :=
  match calledSemaphore s p fd with
  | some x => if (s.sems.semaphore.cell x).descriptors.size = 1 then .remove x else .none
  | none => .none

/-- What the call of the handler does to the semaphores. -/
def handlerEvent (s : Kernel) (p : ℕ) : Handler → SemEvent
  | .semOpen => semOpenEvent s p (toInt ((s.pcb p).syscallArgs 0)) (toInt ((s.pcb p).syscallArgs 1))
  | .semClose => semCloseEvent s p (toInt ((s.pcb p).syscallArgs 0))
  | .semWait => ((calledSemaphore s p (toInt ((s.pcb p).syscallArgs 0))).map (.wait · p)).getD .none
  | .semPost => ((calledSemaphore s p (toInt ((s.pcb p).syscallArgs 0))).map .post).getD .none
  | _ => .none

/-- What the action does to the semaphores. -/
def semEvent (s : Kernel) : Action → SemEvent
  | .syscall n args =>
    match s.running, syscallVector n with
    | some p, some hd => handlerEvent (enterSyscall s p n args) p hd
    | _, _ => .none
  | .tick | .returnToProcess => .none

/-- The semaphore `x` has the same id, count and queue. -/
structure SameSem (s t : Kernel) (x : ℕ) : Prop where
  id : (t.sems.semaphore.cell x).id = (s.sems.semaphore.cell x).id
  count : (t.sems.semaphore.cell x).count = (s.sems.semaphore.cell x).count
  queue : queue t x = queue s x
  waiters : waiters t x = waiters s x

/-- What the event does to the list of semaphores, and to the count and the queue of each. -/
inductive SemStep (s t : Kernel) : SemEvent → Prop
  | none (list : t.sems.list.items = s.sems.list.items)
      (same : ∀ y ∈ s.sems.list.items, SameSem s t y) : SemStep s t .none
  | create (x : ℕ) (semnum value : ℤ)
      (isInt : toInt value = value) (unknown : semaphoreListById s.sems semnum = none)
      (new : x ∉ s.sems.list.items)
      (list : t.sems.list.items = s.sems.list.items ++ [x])
      (id : (t.sems.semaphore.cell x).id = semnum)
      (count : (t.sems.semaphore.cell x).count = value) (queue : queue t x = [])
      (same : ∀ y ∈ s.sems.list.items, SameSem s t y) : SemStep s t (.create x semnum value)
  | remove (x : ℕ) (listed : x ∈ s.sems.list.items)
      (list : t.sems.list.items = s.sems.list.items.erase x)
      (same : ∀ y ∈ s.sems.list.items, SameSem s t y) : SemStep s t (.remove x)
  | wait (x p w : ℕ) (listed : x ∈ s.sems.list.items)
      (list : t.sems.list.items = s.sems.list.items)
      (id : (t.sems.semaphore.cell x).id = (s.sems.semaphore.cell x).id)
      (count : (t.sems.semaphore.cell x).count = toInt ((s.sems.semaphore.cell x).count - 1))
      (queue : queue t x = if 0 < (s.sems.semaphore.cell x).count then queue s x
        else queue s x ++ [w])
      (waiters : waiters t x = if 0 < (s.sems.semaphore.cell x).count then waiters s x
        else waiters s x ++ [p])
      (same : ∀ y ∈ s.sems.list.items, y ≠ x → SameSem s t y) : SemStep s t (.wait x p)
  | post (x : ℕ) (listed : x ∈ s.sems.list.items)
      (list : t.sems.list.items = s.sems.list.items)
      (id : (t.sems.semaphore.cell x).id = (s.sems.semaphore.cell x).id)
      (count : (t.sems.semaphore.cell x).count = toInt ((s.sems.semaphore.cell x).count + 1))
      (queue : queue t x = if (s.sems.semaphore.cell x).count < 0 then (queue s x).tail
        else queue s x)
      (waiters : waiters t x = if (s.sems.semaphore.cell x).count < 0 then (waiters s x).tail
        else waiters s x)
      (same : ∀ y ∈ s.sems.list.items, y ≠ x → SameSem s t y) : SemStep s t (.post x)

namespace SameSem

theorem of_sems (h : t.sems = s.sems) (x : ℕ) : SameSem s t x := by
  have hq : DisastrOS.queue t x = DisastrOS.queue s x := by rw [DisastrOS.queue, h]; rfl
  have hw : waiter t = waiter s := by
    funext w
    rw [waiter, h]
    rfl
  refine ⟨by rw [h], by rw [h], hq, ?_⟩
  rw [DisastrOS.waiters, DisastrOS.waiters, hq, hw]

theorem trans (h : SameSem s t x) (h' : SameSem t u x) : SameSem s u x :=
  ⟨h'.id.trans h.id, h'.count.trans h.count, h'.queue.trans h.queue, h'.waiters.trans h.waiters⟩

end SameSem

theorem SemStep.of_sems (h : t.sems = s.sems) : SemStep s t .none :=
  .none (by rw [h]) fun y _ => .of_sems h y

/-! ### Opening and closing -/

/-- What is in a queue stays as it is when a descriptor is opened. -/
theorem SameSem.opened (h : SemInv s) (ho : SemOpened s t p x d e w) (y : ℕ) : SameSem s t y := by
  obtain ⟨hid, hcount, -⟩ := ho.others y
  have hqueue := SemInv.queue_opened ho y
  refine ⟨hid, hcount, hqueue, ?_⟩
  unfold DisastrOS.waiters
  rw [hqueue]
  exact List.map_congr_left fun v hv => h.waiter_opened ho hv

theorem SameSem.openFailed (h : SemInv s) (hf : SemOpenFailed s t p x d) (y : ℕ) :
    SameSem s t y := by
  have hqueue := SemInv.queue_openFailed hf y
  refine ⟨by rw [hf.semaphore], by rw [hf.semaphore], hqueue, ?_⟩
  unfold DisastrOS.waiters
  rw [hqueue]
  exact List.map_congr_left fun v hv => h.waiter_openFailed hf hv

theorem SameSem.closed (hc : SemClosed s t p x d e w) (y : ℕ) : SameSem s t y := by
  obtain ⟨hid, hcount, -⟩ := hc.others y
  have hqueue := SemInv.queue_closed hc y
  refine ⟨hid, hcount, hqueue, ?_⟩
  unfold DisastrOS.waiters
  rw [hqueue]
  exact List.map_congr_left fun v _ => SemInv.waiter_closed hc v

/-- A semaphore that is made does not change the others. -/
theorem SameSem.created {st : Store Semaphore} {f : Semaphore → Semaphore}
    (ha : Store.Allocated s.sems.semaphore st x f) (hy : y ≠ x) : SameSem s (semCreated s x st) y := by
  have hcell : (semCreated s x st).sems.semaphore.cell y = s.sems.semaphore.cell y :=
    (ha.cell y).trans (if_neg hy)
  have hqueue : DisastrOS.queue (semCreated s x st) y = DisastrOS.queue s y := by
    unfold DisastrOS.queue
    rw [hcell]
  refine ⟨by rw [hcell], by rw [hcell], hqueue, ?_⟩
  rw [DisastrOS.waiters, DisastrOS.waiters, hqueue]
  rfl

/-- An open that has found its semaphore, or made it, changes no other. -/
theorem semStep_opens (h : KernelInv s) (ho : OpensAt s u p x) (hlist : t.sems.list = u.sems.list)
    (hsame : ∀ y, SameSem u t y) (hnone : mySearch s.sems (s.pcb p).semDescriptors
      (toInt ((s.pcb p).syscallArgs 0)) = none) : SemStep s t (handlerEvent s p .semOpen) := by
  cases ho with
  | found listed same =>
    subst same
    have hev : handlerEvent u p .semOpen = .none := by
      simp [handlerEvent, semOpenEvent, hnone, listed]
    rw [hev]
    exact .none (by rw [hlist]) fun y _ => hsame y
  | made st unknown taken fresh result =>
    subst result
    have hev : handlerEvent s p .semOpen = .create x (toInt ((s.pcb p).syscallArgs 0))
        (toInt ((s.pcb p).syscallArgs 1)) := by
      simp [handlerEvent, semOpenEvent, hnone, unknown, taken.free]
    have hcell := (taken.cell x).trans (if_pos rfl)
    have hcell' : (semCreated s x st).sems.semaphore.cell x = _ := hcell
    rw [hev]
    refine .create x _ _ (by simp [toInt]) unknown fresh ?_ ?_ ?_ ?_ fun y hy => ?_
    · rw [hlist]
      rfl
    · rw [(hsame x).id, hcell']
    · rw [(hsame x).count, hcell']
    · rw [(hsame x).queue, queue, hcell']
      exact h.sem.queue_eq_nil fresh
    · have hyx : y ≠ x := fun he => fresh (he ▸ hy)
      exact (SameSem.created taken hyx).trans (hsame y)

theorem internalSemOpen_step (h : KernelInv s) (hp : s.running = some p)
    (hs : internalSemOpen s = .ok t) : SemStep s t (handlerEvent s p .semOpen) := by
  have hopens : ∀ {x u}, mySearch s.sems (s.pcb p).semDescriptors
      (toInt ((s.pcb p).syscallArgs 0)) = none → OpensAt s u p x →
      semOpenDescriptor u p x = .ok t → SemStep s t (handlerEvent s p .semOpen) := by
    intro x u hnone ho hs
    have hku := (ho.invariant h).sem
    rcases semOpenDescriptor_ok hs with ⟨-, rfl⟩ | ⟨d, hf⟩ | ⟨d, e, w, hopen⟩
    · exact semStep_opens h ho rfl (.of_sems (t := u.setRetvalue p dsosEcreatefd) rfl) hnone
    · exact semStep_opens h ho hf.list (.openFailed hku hf) hnone
    · exact semStep_opens h ho hopen.list (.opened hku hopen) hnone
  obtain ⟨p', hp', hcase⟩ := internalSemOpen_ok hs
  obtain rfl : p = p' := Option.some.inj (hp.symm.trans hp')
  rcases hcase with ⟨d, hd, rfl⟩ | ⟨hnone, ⟨x, hx, hs⟩ | ⟨hid, ⟨hfull, rfl⟩ | ⟨x, st, ha, hx, hs⟩⟩⟩
  · have hev : handlerEvent s p .semOpen = .none := by simp [handlerEvent, semOpenEvent, hd]
    rw [hev]
    exact .of_sems rfl
  · exact hopens hnone (.found hx rfl) hs
  · have hev : handlerEvent s p .semOpen = .none := by
      simp [handlerEvent, semOpenEvent, hnone, hid, hfull]
    rw [hev]
    exact .of_sems rfl
  · exact hopens hnone (.made st hid ha hx rfl) hs

theorem internalSemClose_step (h : KernelInv s) (hp : s.running = some p)
    (hs : internalSemClose s = .ok t) : SemStep s t (handlerEvent s p .semClose) := by
  obtain ⟨p', hp', hcase⟩ := internalSemClose_ok hs
  obtain rfl : p = p' := Option.some.inj (hp.symm.trans hp')
  rcases hcase with ⟨hnone, rfl⟩ | ⟨d, x, e, w, hd, hx, he, hw, hc⟩
  · have hev : handlerEvent s p .semClose = .none := by
      simp [handlerEvent, semCloseEvent, calledSemaphore, hnone]
    rw [hev]
    exact .of_sems rfl
  have hl := h.sem.linked p d (SemInv.byFd_mem hd)
  have hlisted : x ∈ s.sems.list.items := hx ▸ hl.listed
  replace hc := hc hl.inUse (he ▸ hl.ptrInUse) (hw ▸ hl.waitPtrInUse) (hw ▸ he ▸ hl.differ)
    ((h.sem.inUse x).mp hlisted)
  by_cases h1 : (s.sems.semaphore.cell x).descriptors.size = 1
  · have hev : handlerEvent s p .semClose = .remove x := by
      simp [handlerEvent, semCloseEvent, calledSemaphore, hd, hx, h1]
    rw [hev]
    exact .remove x hlisted (by rw [(hc.unlinked h1).2.1]) fun y _ => .closed hc y
  · have hev : handlerEvent s p .semClose = .none := by
      simp [handlerEvent, semCloseEvent, calledSemaphore, hd, hx, h1]
    rw [hev]
    exact .none (by rw [(hc.kept h1).1]) fun y _ => .closed hc y

/-! ### Waiting and posting -/

section
variable {v : ℤ} {l : ListHead}

theorem waiter_semSet (h : t.sems = (semSet s x v l).sems) (w : ℕ) : waiter t w = waiter s w := by
  rw [waiter, h]
  rfl

theorem SameSem.semSet (h : t.sems = (semSet s x v l).sems) (hy : y ≠ x) : SameSem s t y := by
  have hcell : t.sems.semaphore.cell y = s.sems.semaphore.cell y := by
    rw [h, semSet_cell, if_neg hy]
  have hqueue : DisastrOS.queue t y = DisastrOS.queue s y := by
    unfold DisastrOS.queue
    rw [hcell]
  refine ⟨by rw [hcell], by rw [hcell], hqueue, ?_⟩
  rw [DisastrOS.waiters, DisastrOS.waiters, hqueue]
  exact List.map_congr_left fun w _ => waiter_semSet h w

theorem cell_semSet (h : t.sems = (semSet s x v l).sems) :
    (t.sems.semaphore.cell x).id = (s.sems.semaphore.cell x).id ∧
      (t.sems.semaphore.cell x).count = v ∧ queue t x = l.items ∧
      waiters t x = l.items.map (waiter s) := by
  have hcell : t.sems.semaphore.cell x =
      { s.sems.semaphore.cell x with count := v, waitingDescriptors := l } := by
    rw [h, semSet_cell, if_pos rfl]
  have hqueue : queue t x = l.items := by
    unfold queue
    rw [hcell]
  refine ⟨by rw [hcell], by rw [hcell], hqueue, ?_⟩
  rw [waiters, hqueue]
  exact List.map_congr_left fun w _ => waiter_semSet h w

end

theorem calledSemaphore_eq_some (h : SemInv s)
    (hd : semDescriptorListByFd s.sems (s.pcb p).semDescriptors (toInt ((s.pcb p).syscallArgs 0)) =
      some d) : calledSemaphore s p (toInt ((s.pcb p).syscallArgs 0)) =
        some (s.sems.descriptor.cell d).semaphore ∧
      (s.sems.descriptor.cell d).semaphore ∈ s.sems.list.items := by
  refine ⟨by simp [calledSemaphore, hd], ?_⟩
  exact (h.linked p d (SemInv.byFd_mem hd)).listed

/-- The place in which `p` waits is its own. -/
theorem waiter_waitPtr (h : SemInv s) (hd : d ∈ (s.pcb p).semDescriptors.items) :
    waiter s (s.sems.descriptor.cell d).waitPtr = p := by
  have hl := h.linked p d hd
  rw [waiter, hl.waitPtr, hl.owner]

theorem internalSemWait_step (h : KernelInv s) (hp : s.running = some p)
    (hs : internalSemWait s = .ok t) : SemStep s t (handlerEvent s p .semWait) := by
  obtain ⟨p', hp', hcase⟩ := internalSemWait_ok hs
  obtain rfl : p = p' := Option.some.inj (hp.symm.trans hp')
  rcases hcase with ⟨hnone, rfl⟩ | ⟨d, x, w, hd, hx, hw, hcase⟩
  · have hev : handlerEvent s p .semWait = .none := by simp [handlerEvent, calledSemaphore, hnone]
    rw [hev]
    exact .of_sems rfl
  obtain ⟨hcall, hlisted⟩ := calledSemaphore_eq_some h.sem hd
  rw [hx] at hcall hlisted
  have hev : handlerEvent s p .semWait = .wait x p := by simp [handlerEvent, hcall]
  have hwaiter : waiter s w = p := hw ▸ waiter_waitPtr h.sem (SemInv.byFd_mem hd)
  rw [hev]
  rcases hcase with ⟨hpos, rfl⟩ | ⟨hneg, -, -, q, rest, -, rfl⟩
  · generalize htt : (semSet s x (toInt ((s.sems.semaphore.cell x).count - 1))
      (s.sems.semaphore.cell x).waitingDescriptors).setRetvalue p 0 = t
    have hsems : t.sems = (semSet s x (toInt ((s.sems.semaphore.cell x).count - 1))
      (s.sems.semaphore.cell x).waitingDescriptors).sems := by rw [← htt]; rfl
    obtain ⟨hid, hcount, hqueue, hwaiters⟩ := cell_semSet hsems
    refine .wait x p w hlisted (by rw [hsems]; rfl) hid hcount ?_ ?_ fun y _ hy => .semSet hsems hy
    · rw [if_pos hpos, hqueue, queue]
    · rw [if_pos hpos, hwaiters, waiters, queue]
  · generalize htt : (dispatched (suspended (semSet s x (toInt ((s.sems.semaphore.cell x).count - 1))
      ⟨(s.sems.semaphore.cell x).waitingDescriptors.items ++ [w],
        (s.sems.semaphore.cell x).waitingDescriptors.size + 1⟩) p) q rest).setRetvalue q 0 = t
    have hsems : t.sems = (semSet s x (toInt ((s.sems.semaphore.cell x).count - 1))
      ⟨(s.sems.semaphore.cell x).waitingDescriptors.items ++ [w],
        (s.sems.semaphore.cell x).waitingDescriptors.size + 1⟩).sems := by rw [← htt]; rfl
    obtain ⟨hid, hcount, hqueue, hwaiters⟩ := cell_semSet hsems
    refine .wait x p w hlisted (by rw [hsems]; rfl) hid hcount ?_ ?_ fun y _ hy => .semSet hsems hy
    · rw [if_neg (by omega), hqueue, queue]
    · rw [if_neg (by omega), hwaiters, waiters, queue, List.map_append, List.map_singleton, hwaiter]

theorem internalSemPost_step (h : KernelInv s) (hp : s.running = some p)
    (hs : internalSemPost s = .ok t) : SemStep s t (handlerEvent s p .semPost) := by
  obtain ⟨p', hp', hcase⟩ := internalSemPost_ok hs
  obtain rfl : p = p' := Option.some.inj (hp.symm.trans hp')
  rcases hcase with ⟨hnone, rfl⟩ | ⟨d, x, hd, hx, hcase⟩
  · have hev : handlerEvent s p .semPost = .none := by simp [handlerEvent, calledSemaphore, hnone]
    rw [hev]
    exact .of_sems rfl
  obtain ⟨hcall, hlisted⟩ := calledSemaphore_eq_some h.sem hd
  rw [hx] at hcall hlisted
  have hev : handlerEvent s p .semPost = .post x := by simp [handlerEvent, hcall]
  rw [hev]
  rcases hcase with ⟨hidle, rfl⟩ | ⟨hneg, w, rest, b, hqw, -, -, -, -, -, rfl⟩
  · generalize htt : (semSet s x (toInt ((s.sems.semaphore.cell x).count + 1))
      (s.sems.semaphore.cell x).waitingDescriptors).setRetvalue p 0 = t
    have hsems : t.sems = (semSet s x (toInt ((s.sems.semaphore.cell x).count + 1))
      (s.sems.semaphore.cell x).waitingDescriptors).sems := by rw [← htt]; rfl
    obtain ⟨hid, hcount, hqueue, hwaiters⟩ := cell_semSet hsems
    have hnil : (s.sems.semaphore.cell x).count < 0 →
        (s.sems.semaphore.cell x).waitingDescriptors.items = [] := fun hneg =>
      hidle.resolve_left (by omega)
    refine .post x hlisted (by rw [hsems]; rfl) hid hcount ?_ ?_ fun y _ hy => .semSet hsems hy
    · rw [hqueue, queue]
      split_ifs with hneg
      · simp [hnil hneg]
      · rfl
    · rw [hwaiters, waiters, queue]
      split_ifs with hneg
      · simp [hnil hneg]
      · rfl
  · have hsems : ((semWoken s x w b).setRetvalue p 0).sems = _ := semWoken_sems s x w b
    obtain ⟨hid, hcount, hqueue, hwaiters⟩ := cell_semSet hsems
    have htail : (s.sems.semaphore.cell x).waitingDescriptors.items.erase w = rest := by simp [hqw]
    refine .post x hlisted (by rw [hsems]; rfl) hid hcount ?_ ?_ fun y _ hy => .semSet hsems hy
    · rw [if_pos hneg, hqueue, queue, htail, hqw, List.tail_cons]
    · rw [if_pos hneg, hwaiters, waiters, queue, htail, hqw, List.map_cons, List.tail_cons]

/-! ### One step -/

theorem runHandler_semStep {hd : Handler} (h : KernelInv s) (hp : s.running = some p)
    (hs : runHandler hd s = .ok t) : SemStep s t (handlerEvent s p hd) := by
  cases hd with
  | preempt => exact .of_sems (internalSchedule_frame hs).1.sems
  | fork =>
    obtain ⟨b, q, hc⟩ := internalFork_ok hp (h.proc.inUse_of_running hp) hs
    exact .of_sems hc.sems
  | wait => exact .of_sems (internalWait_frame hs).1.sems
  | exit => exact .of_sems (internalExit_frame h.proc h.wake hs).sems
  | spawn =>
    obtain ⟨b, q, hc⟩ := internalSpawn_ok hp (h.proc.inUse_of_running hp) hs
    exact .of_sems hc.sems
  | sleep => exact .of_sems (internalSleep_frame hs).1.sems
  | openResource => exact .of_sems (internalOpenResource_frame hs).2.sems
  | closeResource => exact .of_sems (internalCloseResource_frame hs).2.sems
  | destroyResource => exact .of_sems (internalDestroyResource_frame hs).2.sems
  | shutdown => cases hs
  | semOpen => exact internalSemOpen_step h hp hs
  | semClose => exact internalSemClose_step h hp hs
  | semWait => exact internalSemWait_step h hp hs
  | semPost => exact internalSemPost_step h hp hs

/-- The entry into a system call does not change the semaphores. -/
theorem SemStep.entered {n : ℤ} {ev : SemEvent} (h : SemStep (enterSyscall s p n args) t ev) :
    SemStep s t ev := by
  have hsame : ∀ y, SameSem (enterSyscall s p n args) t y → SameSem s t y := fun y hy =>
    ⟨hy.id, hy.count, hy.queue, hy.waiters⟩
  cases h with
  | none list same => exact .none list fun y hy => hsame y (same y hy)
  | create x semnum value isInt unknown new list id count queue same =>
    exact .create x semnum value isInt unknown new list id count queue fun y hy =>
      hsame y (same y hy)
  | remove x listed list same => exact .remove x listed list fun y hy => hsame y (same y hy)
  | wait x p w listed list id count queue waiters same =>
    exact .wait x p w listed list id count queue waiters fun y hy hyx => hsame y (same y hy hyx)
  | post x listed list id count queue waiters same =>
    exact .post x listed list id count queue waiters fun y hy hyx => hsame y (same y hy hyx)

/-- A step does to the semaphores what its event says. -/
theorem step_semEvent (h : KernelInv s) (hs : step s act = .ok t) :
    SemStep s t (semEvent s act) := by
  rcases step_ok hs with ⟨p, n, args, hp, rfl, hr⟩ | ⟨p, hp, rfl, ht⟩ | ⟨rfl, hr⟩
  · cases hr with
    | outOfRange range same =>
      have hnone : syscallVector n = Option.none := by
        cases hv : syscallVector n with
        | none => rfl
        | some hd =>
          have hn := syscallVector_eq_some.mp hv
          have hrange := hd.number_range
          omega
      have hev : semEvent s (.syscall n args) = .none := by simp [semEvent, hp, hnone]
      rw [hev]
      exact .of_sems (by rw [same])
    | notImplemented none result =>
      have hev : semEvent s (.syscall n args) = .none := by simp [semEvent, hp, none]
      rw [hev]
      exact .of_sems (by rw [result]; rfl)
    | handled hd number run =>
      have hev : semEvent s (.syscall n args) = handlerEvent (enterSyscall s p n args) p hd := by
        simp [semEvent, hp, number, syscallVector_number]
      rw [hev]
      exact (runHandler_semStep (h.enter hp) hp run).entered
  · exact .of_sems (internalSchedule_frame ht).1.sems
  · exact .of_sems hr.sems

/-! ### Which call an event is -/

/-- What the call of a handler can be. -/
inductive CallMeans (s : Kernel) (p : ℕ) : Handler → SemEvent → Prop
  | none (hd : Handler) : CallMeans s p hd .none
  | create (x : ℕ) (semnum value : ℤ) : CallMeans s p .semOpen (.create x semnum value)
  | remove (x : ℕ) : CallMeans s p .semClose (.remove x)
  | wait (x : ℕ) (called : calledSemaphore s p (toInt ((s.pcb p).syscallArgs 0)) = some x) :
      CallMeans s p .semWait (.wait x p)
  | post (x : ℕ) (called : calledSemaphore s p (toInt ((s.pcb p).syscallArgs 0)) = some x) :
      CallMeans s p .semPost (.post x)

theorem handlerEvent_means (s : Kernel) (p : ℕ) (hd : Handler) :
    CallMeans s p hd (handlerEvent s p hd) := by
  cases hd with
  | semOpen =>
    simp only [handlerEvent, semOpenEvent]
    split
    · exact .create _ _ _
    · exact .none _
  | semClose =>
    simp only [handlerEvent, semCloseEvent]
    split
    · split_ifs
      · exact .remove _
      · exact .none _
    · exact .none _
  | semWait =>
    rw [handlerEvent]
    cases hc : calledSemaphore s p (toInt ((s.pcb p).syscallArgs 0)) with
    | none => exact .none _
    | some x => exact .wait x hc
  | semPost =>
    rw [handlerEvent]
    cases hc : calledSemaphore s p (toInt ((s.pcb p).syscallArgs 0)) with
    | none => exact .none _
    | some x => exact .post x hc
  | _ => exact .none _

theorem handlerEvent_wait {hd : Handler} (h : handlerEvent s p hd = .wait x q) :
    hd = .semWait ∧ q = p ∧
      calledSemaphore s p (toInt ((s.pcb p).syscallArgs 0)) = some x := by
  have hm := handlerEvent_means s p hd
  rw [h] at hm
  cases hm with
  | wait _ called => exact ⟨rfl, rfl, called⟩

theorem handlerEvent_post {hd : Handler} (h : handlerEvent s p hd = .post x) :
    hd = .semPost ∧ calledSemaphore s p (toInt ((s.pcb p).syscallArgs 0)) = some x := by
  have hm := handlerEvent_means s p hd
  rw [h] at hm
  cases hm with
  | post _ called => exact ⟨rfl, called⟩

/-- Only an open can make a semaphore. -/
theorem handlerEvent_create {hd : Handler} {semnum value : ℤ}
    (h : handlerEvent s p hd = .create x semnum value) : hd = .semOpen := by
  have hm := handlerEvent_means s p hd
  rw [h] at hm
  cases hm with
  | create => rfl

/-- An event other than none is that of a handler of the running process. -/
theorem semEvent_handler (h : semEvent s act ≠ .none) : ∃ p hd args, s.running = some p ∧
    act = .syscall (Handler.number hd) args ∧
    semEvent s act = handlerEvent (enterSyscall s p hd.number args) p hd := by
  cases act with
  | tick => exact absurd rfl h
  | returnToProcess => exact absurd rfl h
  | syscall n args =>
    unfold semEvent at h ⊢
    cases hp : s.running with
    | none => simp [hp] at h
    | some p =>
      cases hv : syscallVector n with
      | none => simp [hp, hv] at h
      | some hd =>
        obtain rfl := syscallVector_eq_some.mp hv
        exact ⟨p, hd, args, rfl, rfl, by simp [hv]⟩

/-! ### Which event a call is -/

theorem semEvent_number {hd : Handler} (hp : s.running = some p) :
    semEvent s (.syscall hd.number args) =
      handlerEvent (enterSyscall s p hd.number args) p hd := by
  simp [semEvent, hp, syscallVector_number]

theorem calledSemaphore_enter {n fd : ℤ} :
    calledSemaphore (enterSyscall s p n args) p fd = calledSemaphore s p fd := by
  simp [calledSemaphore, enterSyscall]

theorem semEvent_semWait (hp : s.running = some p)
    (hx : calledSemaphore s p (toInt (args.getD 0 0)) = some x) :
    semEvent s (.syscall Handler.semWait.number args) = .wait x p := by
  rw [semEvent_number hp, handlerEvent, enterSyscall_arg (by decide), calledSemaphore_enter, hx]
  rfl

theorem semEvent_semPost (hp : s.running = some p)
    (hx : calledSemaphore s p (toInt (args.getD 0 0)) = some x) :
    semEvent s (.syscall Handler.semPost.number args) = .post x := by
  rw [semEvent_number hp, handlerEvent, enterSyscall_arg (by decide), calledSemaphore_enter, hx]
  rfl

end DisastrOS
