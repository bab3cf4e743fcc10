import DisastrOS.SemaphoreMoves
import DisastrOS.SemaphoreProgress

/-! How an open and a close of a semaphore return, and that the one undoes the other. -/
namespace DisastrOS
open BlockPool TransitionSystem

variable {s t u v r : Kernel} {p d e w x : ℕ} {args args' : List ℤ}

/-- The ways in which an open of a semaphore that `p` has not open returns; the call is entered
in the state `v`. -/
inductive SemOpenReturns (v t : Kernel) (p : ℕ) (semnum : ℤ) : Prop
  | noSemaphore (unknown : semaphoreListById v.sems semnum = none)
      (full : v.sems.semaphore.pool.free = []) (result : t = v.setRetvalue p dsosEcreatesem)
  | noDescriptor (x : ℕ) (u : Kernel) (opens : OpensAt v u p x)
      (full : v.sems.descriptor.pool.free = []) (result : t = u.setRetvalue p dsosEcreatefd)
  | noPointer (x d : ℕ) (u : Kernel) (opens : OpensAt v u p x)
      (full : v.sems.descriptorPtr.pool.free.length < 2) (failed : SemOpenFailed u t p x d)
  | opened (x d e w : ℕ) (u : Kernel) (opens : OpensAt v u p x) (opened : SemOpened u t p x d e w)

theorem semOpenDescriptor_returns (ho : OpensAt v u p x) (hs : semOpenDescriptor u p x = .ok t) :
    SemOpenReturns v t p (toInt ((v.pcb p).syscallArgs 0)) := by
  obtain ⟨m, hu, hd, he⟩ := ho.shape
  have hdesc : u.sems.descriptor = v.sems.descriptor := by rw [hu, ← hd]; rfl
  have hptr : u.sems.descriptorPtr = v.sems.descriptorPtr := by rw [hu, ← he]; rfl
  rcases semOpenDescriptor_ok hs with ⟨hfull, rfl⟩ | ⟨d, hf⟩ | ⟨d, e, w, hopen⟩
  · exact .noDescriptor x u ho (hdesc ▸ hfull) rfl
  · exact .noPointer x d u ho (hptr ▸ hf.noRoom) hf
  · exact .opened x d e w u ho hopen

theorem enterSyscall_sems (s : Kernel) (p : ℕ) (n : ℤ) (args : List ℤ) :
    (enterSyscall s p n args).sems = s.sems ∧
      ((enterSyscall s p n args).pcb p).semDescriptors = (s.pcb p).semDescriptors := by
  simp [enterSyscall]

/-- An open of a semaphore that `p` has not open returns in one of these ways. -/
theorem step_semOpen (h : KernelInv s) (hp : s.running = some p)
    (hnone : mySearch s.sems (s.pcb p).semDescriptors (toInt (args.getD 0 0)) = none) :
    ∃ t, kernel.step s (.syscall dsosCallSemopen args) = .ok t ∧
      SemOpenReturns (enterSyscall s p dsosCallSemopen args) t p (toInt (args.getD 0 0)) := by
  have hpv : (enterSyscall s p dsosCallSemopen args).running = some p := hp
  obtain ⟨t, ht⟩ := internalSemOpen_isOk (h.enter hp) hpv
  refine ⟨t, (@step_handler s p .semOpen args hp).trans ht, ?_⟩
  have harg : ((enterSyscall s p dsosCallSemopen args).pcb p).syscallArgs 0 = args.getD 0 0 :=
    enterSyscall_arg (by decide)
  obtain ⟨hsems, hown⟩ := enterSyscall_sems s p dsosCallSemopen args
  obtain ⟨p', hp', hcase⟩ := internalSemOpen_ok ht
  obtain rfl : p = p' := Option.some.inj (hpv.symm.trans hp')
  rw [← harg]
  rcases hcase with ⟨d, hd, -⟩ | ⟨-, ⟨x, hx, hs⟩ | ⟨hid, ⟨hfull, rfl⟩ | ⟨x, st, ha, hx, hs⟩⟩⟩
  · rw [hsems, hown, harg, hnone] at hd
    cases hd
  · exact semOpenDescriptor_returns (.found hx rfl) hs
  · exact .noSemaphore hid hfull rfl
  · exact semOpenDescriptor_returns (.made st hid ha hx rfl) hs

/-- The pools of descriptors and of pointers are those before the semaphore was made. -/
theorem OpensAt.pools (ho : OpensAt v u p x) : u.sems.descriptor = v.sems.descriptor ∧
    u.sems.descriptorPtr = v.sems.descriptorPtr := by
  obtain ⟨m, rfl, hd, he⟩ := ho.shape
  exact ⟨hd, he⟩

/-- No pool has run out for an open that succeeds. -/
theorem SemOpenReturns.room (ho : OpensAt v u p x) (hopen : SemOpened u t p x d e w) :
    v.sems.descriptor.pool.free ≠ [] ∧ 2 ≤ v.sems.descriptorPtr.pool.free.length := by
  obtain ⟨hd, he⟩ := ho.pools
  rw [← hd, ← he, hopen.free, hopen.freePtr]
  simp

/-- What `p` has open after an open that has made the descriptor `d`. -/
structure AfterOpen (s t : Kernel) (p x d e w : ℕ) : Prop where
  running : t.running = s.running
  retvalue : (t.pcb p).syscallRetvalue = (s.pcb p).lastSemFd
  lastSemFd : (t.pcb p).lastSemFd = toInt ((s.pcb p).lastSemFd + 1)
  items : (t.pcb p).semDescriptors.items = (s.pcb p).semDescriptors.items ++ [d]
  notOpen : d ∉ (s.pcb p).semDescriptors.items
  new : t.sems.descriptor.cell d = ⟨p, x, (s.pcb p).lastSemFd, e, w⟩
  old : ∀ b ∈ (s.pcb p).semDescriptors.items,
    t.sems.descriptor.cell b = s.sems.descriptor.cell b

theorem AfterOpen.of_opened
    (ho : OpensAt (enterSyscall s p dsosCallSemopen args) u p x) (hopen : SemOpened u t p x d e w) :
    AfterOpen s t p x d e w := by
  obtain ⟨hsems, hown⟩ := enterSyscall_sems s p dsosCallSemopen args
  have hdesc : u.sems.descriptor = s.sems.descriptor := by rw [ho.pools.1, hsems]
  obtain ⟨hrunning, hlast, hdescs⟩ : u.running = s.running ∧
      (u.pcb p).lastSemFd = (s.pcb p).lastSemFd ∧
      (u.pcb p).semDescriptors = (s.pcb p).semDescriptors := by
    obtain ⟨m, rfl, -⟩ := ho.shape
    exact ⟨rfl, by simp [enterSyscall], hown⟩
  have hnew : d ∉ (s.pcb p).semDescriptors.items := hdescs ▸ hopen.notOpen
  constructor
  case running => exact hopen.processes.running.trans hrunning
  case retvalue => rw [hopen.retvalue, if_pos rfl, hlast]
  case lastSemFd => rw [hopen.lastSemFd, if_pos rfl, hlast]
  case items => rw [hopen.items, hdescs]
  case notOpen => exact hnew
  case new => rw [hopen.cell_new, hlast]
  case old =>
    intro b hb
    have hbd : b ≠ d := fun he => hnew (he ▸ hb)
    rw [hopen.cell, if_neg hbd, hdesc]

/-- A close of a descriptor that `p` has open returns and releases it. -/
theorem step_semClose (hk : KernelInv s) (hp : s.running = some p)
    (hd : semDescriptorListByFd s.sems (s.pcb p).semDescriptors (toInt (args.getD 0 0)) = some d) :
    ∃ t, kernel.step s (.syscall dsosCallSemclose args) = .ok t ∧
      SemClosed (enterSyscall s p dsosCallSemclose args) t p (s.sems.descriptor.cell d).semaphore d
        (s.sems.descriptor.cell d).ptr (s.sems.descriptor.cell d).waitPtr := by
  have hpv : (enterSyscall s p dsosCallSemclose args).running = some p := hp
  obtain ⟨t, ht⟩ := internalSemClose_isOk (hk.enter hp) hpv
  refine ⟨t, (@step_handler s p .semClose args hp).trans ht, ?_⟩
  have harg : ((enterSyscall s p dsosCallSemclose args).pcb p).syscallArgs 0 = args.getD 0 0 :=
    enterSyscall_arg (by decide)
  obtain ⟨hsems, hown⟩ := enterSyscall_sems s p dsosCallSemclose args
  obtain ⟨p', hp', hcase⟩ := internalSemClose_ok ht
  obtain rfl : p = p' := Option.some.inj (hpv.symm.trans hp')
  rw [hsems, hown, harg, hd] at hcase
  rcases hcase with ⟨hnone, -⟩ | ⟨d', x, e, w, hd', rfl, rfl, rfl, hc⟩
  · cases hnone
  obtain rfl := Option.some.inj hd'
  have hl := hk.sem.linked p d (SemInv.byFd_mem hd)
  exact hc hl.inUse hl.ptrInUse hl.waitPtrInUse hl.differ ((hk.sem.inUse _).mp hl.listed)

/-! ### One open and one close -/

/-- The descriptors, the pointers and the contents of the semaphores of `s` are in `r` as they
were; the order in which blocks are handed out may differ. -/
structure DescriptorsRestored (s r : Kernel) : Prop where
  semDescriptors : ∀ b, (r.pcb b).semDescriptors = (s.pcb b).semDescriptors
  descriptor : ∀ d, s.sems.descriptor.InUse d →
    r.sems.descriptor.cell d = s.sems.descriptor.cell d
  descriptorPtr : ∀ e, s.sems.descriptorPtr.InUse e →
    r.sems.descriptorPtr.cell e = s.sems.descriptorPtr.cell e
  semaphore : ∀ x ∈ s.sems.list.items, r.sems.semaphore.cell x = s.sems.semaphore.cell x
  free : r.sems.descriptor.pool.free.Perm s.sems.descriptor.pool.free
  freePtr : r.sems.descriptorPtr.pool.free.Perm s.sems.descriptorPtr.pool.free

/-- The same, and the semaphores are those of `s` in their order. -/
structure SemsRestored (s r : Kernel) : Prop extends DescriptorsRestored s r where
  list : r.sems.list = s.sems.list
  freeSem : r.sems.semaphore.pool.free.Perm s.sems.semaphore.pool.free

/-- The close of a descriptor puts back what the open of it has taken; `v` is the state after the
open as the close is entered. -/
theorem SemOpened.undone (ho : SemOpened u t p x d e w) (hs : SameSemaphores t v)
    (hc : SemClosed v r p x d e w) : DescriptorsRestored u r := by
  obtain ⟨hv, -, hown⟩ := hs
  have hinUse : t.sems.descriptor.InUse d := (ho.inUse d).mpr (Or.inr rfl)
  have hptr : t.sems.descriptorPtr.InUse e := (ho.inUsePtr e).mpr (Or.inr (Or.inl rfl))
  have hwait : (t.sems.descriptorPtr.free e).2.InUse w :=
    (Store.free_inUse _ _ _).mpr ⟨(ho.inUsePtr w).mpr (Or.inr (Or.inr rfl)), ho.differ⟩
  constructor
  case semDescriptors =>
    intro b
    rw [hc.semDescriptors, hown, hown, ho.semDescriptors, ho.semDescriptors]
    by_cases hb : b = p
    · subst hb
      simp [List.erase_append_right, ho.notOpen]
    · simp [hb]
  case descriptor =>
    intro k hk
    rw [hc.cell_descriptor, hv, ho.cell_old hk]
  case descriptorPtr =>
    intro k hk
    have hke : k ≠ e := fun he => ho.freshPtr (he ▸ hk)
    have hkw : k ≠ w := fun he => ho.freshWaitPtr (he ▸ hk)
    rw [hc.cell_descriptorPtr, hv, ho.cellPtr, if_neg (by tauto)]
  case semaphore =>
    intro y _
    rw [hc.cell, hv, ho.cell_semaphore]
    split_ifs with hy
    · subst hy
      simp [List.erase_append_right, ho.notListed]
    · rfl
  case free => rw [hc.descriptor, hv, Store.free_free hinUse, ho.free]
  case freePtr =>
    rw [hc.descriptorPtr, hv, Store.free_free hwait, Store.free_free hptr, ho.freePtr]
    exact List.Perm.swap _ _ _

/-- A semaphore that others have open stays when it is closed. -/
theorem SemOpened.undone_found (hk : KernelInv s) (hheld : SemHeld s)
    (hx : x ∈ s.sems.list.items) (ho : SemOpened s t p x d e w) (hs : SameSemaphores t v)
    (hc : SemClosed v r p x d e w) : SemsRestored s r := by
  have hpos := List.length_pos_of_ne_nil (hheld x hx)
  have hsize : (v.sems.semaphore.cell x).descriptors.size ≠ 1 := by
    rw [hs.sems, ho.cell_semaphore, if_pos rfl]
    change (s.sems.semaphore.cell x).descriptors.size + 1 ≠ 1
    rw [hk.sem.size]
    omega
  obtain ⟨hlist, hpool⟩ := hc.kept hsize
  refine ⟨ho.undone hs hc, ?_, ?_⟩
  · rw [hlist, hs.sems, ho.list]
  · rw [hpool, hs.sems, ho.semaphore, Store.modify_pool]

/-- A semaphore that has been made by the open goes again. -/
theorem SemOpened.undone_made {st : Store Semaphore} {i c : ℤ}
    (ha : Store.Allocated s.sems.semaphore st x fun c' => { c' with
      id := i, count := c, descriptors := .init })
    (hx : x ∉ s.sems.list.items) (ho : SemOpened (semCreated s x st) t p x d e w)
    (hs : SameSemaphores t v) (hc : SemClosed v r p x d e w) : SemsRestored s r := by
  have hsize : (v.sems.semaphore.cell x).descriptors.size = 1 := by
    rw [hs.sems, ho.semaphore]
    simp [semCreated, ha.cell]
  have hinUse : t.sems.semaphore.InUse x := by
    rw [ho.semaphore, Store.modify_inUse]
    exact (ha.inUse x).mpr (Or.inr rfl)
  obtain ⟨-, hlist, -⟩ := hc.unlinked hsize
  have hd := ho.undone hs hc
  refine ⟨⟨hd.semDescriptors, hd.descriptor, hd.descriptorPtr, fun y hy => ?_, hd.free, hd.freePtr⟩,
    ?_, ?_⟩
  · have hyx : y ≠ x := fun he => hx (he ▸ hy)
    have hy' := hd.semaphore y (by simp [semCreated, hy])
    simpa [semCreated, ha.cell, hyx] using hy'
  · rw [hlist, hs.sems, ho.list]
    simp [semCreated, List.erase_append_right, hx]
  · rw [hc.released hsize, hs.sems, Store.free_free hinUse, ho.semaphore, ha.free]
    rfl

theorem SemsRestored.of_same (hs : SameSemaphores s u) (h : SemsRestored u r) :
    SemsRestored s r := by
  obtain ⟨⟨h1, h2, h3, h4, h5, h6⟩, h7, h8⟩ := h
  rw [hs.sems] at h2 h3 h4 h5 h6 h7 h8
  exact ⟨⟨fun b => (h1 b).trans (hs.semDescriptors b), h2, h3, h4, h5, h6⟩, h7, h8⟩

/-- The close of the descriptor that the open has made leaves the semaphores as they were. -/
theorem SemOpened.restored (hk : KernelInv s) (hheld : SemHeld s) (hp : s.running = some p)
    (ho : OpensAt (enterSyscall s p dsosCallSemopen args) u p x) (hopen : SemOpened u t p x d e w)
    (hc : SemClosed (enterSyscall t p dsosCallSemclose args') r p x d e w) : SemsRestored s r := by
  have hentered := (enterSyscall_quiet s p dsosCallSemopen args).semaphores
  have hreentered := (enterSyscall_quiet t p dsosCallSemclose args').semaphores
  have hlisted := ho.listed
  refine .of_same hentered ?_
  cases ho with
  | found listed same =>
    subst same
    exact hopen.undone_found (hk.enter hp) (hheld.same hentered) hlisted hreentered hc
  | made st unknown taken fresh result =>
    subst result
    exact hopen.undone_made taken fresh hreentered hc

/-- The close finds the new descriptor unless an older one has its number. -/
theorem AfterOpen.byFd (h : AfterOpen s t p x d e w) : ∃ f,
    semDescriptorListByFd t.sems (t.pcb p).semDescriptors (s.pcb p).lastSemFd = some f ∧
      (f = d ↔ ∀ b ∈ (s.pcb p).semDescriptors.items,
        (s.sems.descriptor.cell b).fd ≠ (s.pcb p).lastSemFd) := by
  rw [semDescriptorListByFd, h.items, List.find?_append]
  cases hf : (s.pcb p).semDescriptors.items.find? fun b =>
      (t.sems.descriptor.cell b).fd = (s.pcb p).lastSemFd with
  | none =>
    refine ⟨d, by simp [h.new], iff_of_true rfl fun b hb => ?_⟩
    have hne := List.find?_eq_none.mp hf b hb
    rw [← h.old b hb]
    simpa using hne
  | some f =>
    have hmem := List.mem_of_find?_eq_some hf
    have hfd := List.find?_some hf
    simp only [h.old f hmem, decide_eq_true_eq] at hfd
    exact ⟨f, rfl, iff_of_false (fun he => h.notOpen (he ▸ hmem)) fun hall => hall f hmem hfd⟩

end DisastrOS
