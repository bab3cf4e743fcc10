import DisastrOS.ResourceHandles

/-! The semaphores of the kernel are objects that processes hold by the numbers of their
descriptors. -/
namespace DisastrOS
open BlockPool TransitionSystem HandleTable

abbrev SemOp := Op ℕ ℤ ℕ ℤ Unit

/-- The semaphores with their ids, and what the processes have open. -/
def semaphoreHandles (s : Kernel) : Table ℕ ℤ ℕ ℤ Unit where
  object x := if x ∈ s.sems.list.items then some ((s.sems.semaphore.cell x).id, ()) else none
  held p := (s.pcb p).semDescriptors.items.map fun d =>
    ((s.sems.descriptor.cell d).fd, (s.sems.descriptor.cell d).semaphore)

variable {s t u v : Kernel} {p q b d e w x : ℕ} {fd id : ℤ} {act : Action} {args : List ℤ}

theorem semaphore_object_eq_some {n : ℤ} : (semaphoreHandles s).object x = some (n, ()) ↔
    x ∈ s.sems.list.items ∧ (s.sems.semaphore.cell x).id = n := by
  simp only [semaphoreHandles]
  split_ifs with hx
  · simp [hx]
  · simp [hx]

theorem lookup_semaphoreHandles (s : Kernel) (p : ℕ) (fd : ℤ) :
    (semaphoreHandles s).lookup p fd = (semDescriptorListByFd s.sems (s.pcb p).semDescriptors fd).map
      fun d => (s.sems.descriptor.cell d).semaphore := by
  simp [Table.lookup, semaphoreHandles, semDescriptorListByFd, List.find?_map, Function.comp_def]

/-! ### What the parts of a call perform -/

theorem semaphoreHandles_same (h : SameSemaphores s t) :
    semaphoreHandles t = semaphoreHandles s := by
  simp only [semaphoreHandles, h.sems, h.semDescriptors]

theorem semaphoreHandles_newProcess (hc : NewProcess s t b) :
    semaphoreHandles t = (semaphoreHandles s).perform (.drop b) := by
  ext1
  · simp only [semaphoreHandles, hc.sems, Table.perform]
  · funext k
    simp only [semaphoreHandles, hc.sems, Table.perform, Function.update_apply, hc.semDescriptors]
    split_ifs with hkb
    · rfl
    · rfl

theorem semaphoreHandles_created {st : Store Semaphore} {n : ℤ}
    (ha : Store.Allocated s.sems.semaphore st x (fun c => { c with
      id := id, count := n, descriptors := .init })) :
    semaphoreHandles (semCreated s x st) = (semaphoreHandles s).perform (.create x id ()) := by
  ext1
  · funext y
    simp only [semaphoreHandles, semCreated, Kernel.setSems_sems, ha.cell, List.mem_append,
      List.mem_singleton, Table.perform, Function.update_apply]
    by_cases hy : y = x
    · simp [hy]
    · simp [hy]
  · rfl

theorem semaphoreHandles_opened (hi : SemInv s) (ho : SemOpened s t p x d e w) :
    semaphoreHandles t =
      (semaphoreHandles s).perform (.take p (t.pcb p).syscallRetvalue x) := by
  ext1
  · funext y
    simp only [semaphoreHandles, ho.list, ho.semaphore, Table.perform, Store.modify_cell]
    split_ifs <;> rfl
  · funext k
    have hold : ∀ k, (s.pcb k).semDescriptors.items.map (fun d =>
        ((t.sems.descriptor.cell d).fd, (t.sems.descriptor.cell d).semaphore)) =
        (semaphoreHandles s).held k := fun k => by
      refine List.map_congr_left fun f hf => ?_
      have hfd : f ≠ d := fun hfd => ho.fresh (hfd ▸ (hi.linked k f hf).inUse)
      rw [ho.cell, if_neg hfd]
    simp only [Table.perform, Function.update_apply, ho.retvalue, if_true]
    simp only [semaphoreHandles, ho.semDescriptors]
    split_ifs with hk
    · rw [List.map_append, hold, List.map_singleton, ho.cell_new]
      rfl
    · exact hold k

/-- A descriptor that no pointer leads to is in nobody's list. -/
theorem semaphoreHandles_openFailed (hi : SemInv s) (hf : SemOpenFailed s t p x d) :
    semaphoreHandles t = semaphoreHandles s := by
  ext1
  · simp only [semaphoreHandles, hf.list, hf.semaphore]
  · funext k
    simp only [semaphoreHandles, hf.semDescriptors]
    refine List.map_congr_left fun f hm => ?_
    rw [hf.cell f fun hfd => hf.fresh (hfd ▸ (hi.linked k f hm).inUse)]

theorem semaphore_held_closed (hc : SemClosed s t p x d e w)
    (hd : semDescriptorListByFd s.sems (s.pcb p).semDescriptors fd = some d) :
    (semaphoreHandles t).held = ((semaphoreHandles s).perform (.release p fd)).held := by
  funext k
  simp only [semaphoreHandles, Table.perform, Function.update_apply, hc.cell_descriptor,
    hc.semDescriptors]
  split_ifs with hk
  · exact map_erase_find hd
  · rfl

/-- A semaphore that has descriptors left stays. -/
theorem semaphoreHandles_kept (hc : SemClosed s t p x d e w)
    (hd : semDescriptorListByFd s.sems (s.pcb p).semDescriptors fd = some d)
    (h1 : (s.sems.semaphore.cell x).descriptors.size ≠ 1) :
    semaphoreHandles t = (semaphoreHandles s).perform (.release p fd) := by
  ext1
  · funext y
    simp only [semaphoreHandles, (hc.kept h1).1, (hc.others y).1, Table.perform]
  · exact semaphore_held_closed hc hd

theorem semaphoreHandles_removed (hi : SemInv s) (hc : SemClosed s t p x d e w)
    (hd : semDescriptorListByFd s.sems (s.pcb p).semDescriptors fd = some d)
    (h1 : (s.sems.semaphore.cell x).descriptors.size = 1) :
    semaphoreHandles t = ((semaphoreHandles s).perform (.release p fd)).perform (.destroy x) := by
  ext1
  · funext y
    simp only [semaphoreHandles, (hc.unlinked h1).2.1, (hc.others y).1, hi.nodup.mem_erase_iff,
      Table.perform, Function.update_apply]
    by_cases hy : y = x
    · simp [hy]
    · simp [hy]
  · exact semaphore_held_closed hc hd

/-- Nobody has a semaphore open any more whose last descriptor is closed. -/
theorem not_held_of_removed (hi : SemInv s) (hc : SemClosed s t p x d e w)
    (h1 : (s.sems.semaphore.cell x).descriptors.size = 1) (hit : SemInv t) :
    ∀ k, ∀ f ∈ (semaphoreHandles t).held k, f.2 ≠ x := by
  intro k f hf hfx
  obtain ⟨g, hg, rfl⟩ := List.mem_map.mp hf
  have hl := (hit.linked k g hg).listed
  rw [show (t.sems.descriptor.cell g).semaphore = x from hfx, (hc.unlinked h1).2.1] at hl
  exact hi.nodup.not_mem_erase hl

/-! ### What a call performs -/

/-- How many descriptors the semaphore `x` has, those of exited processes among them. -/
def descriptorsOf (s : Kernel) (x : ℕ) : ℕ := (s.sems.semaphore.cell x).descriptors.items.length

/-- The semaphore `x` is the one with this id. -/
def SemNamed (s : Kernel) (x : ℕ) (id : ℤ) : Prop :=
  (semaphoreHandles s).object x = some (toInt id, ())

/-- A descriptor or one of its two pointers is missing. -/
def NoDescriptorLeft (s : Kernel) : Prop :=
  s.sems.descriptor.pool.free = [] ∨ s.sems.descriptorPtr.pool.free.length < 2

/-- What a system call that returns has done to the semaphores and to who has them open. -/
inductive SemCall (s t : Kernel) : Action → List SemOp → Prop
  /-- The semaphore is there, and the process that had not opened it gets the number that is
  returned. -/
  | opened (p x : ℕ) (args : List ℤ) (running : s.running = some p)
      (named : SemNamed s x (args.getD 0 0))
      (notOpen : ∀ f ∈ (semaphoreHandles s).held p, f.2 ≠ x) :
      SemCall s t (.syscall dsosCallSemopen args) [.take p (t.pcb p).syscallRetvalue x]
  | created (p x : ℕ) (args : List ℤ) (running : s.running = some p)
      (unknown : ∀ y, ¬ SemNamed s y (args.getD 0 0)) :
      SemCall s t (.syscall dsosCallSemopen args)
        [.create x (toInt (args.getD 0 0)) (), .take p (t.pcb p).syscallRetvalue x]
  /-- The new semaphore stays without a descriptor. -/
  | leftBehind (p x : ℕ) (args : List ℤ) (running : s.running = some p)
      (unknown : ∀ y, ¬ SemNamed s y (args.getD 0 0)) (full : NoDescriptorLeft s)
      (retvalue : (t.pcb p).syscallRetvalue < 0) :
      SemCall s t (.syscall dsosCallSemopen args) [.create x (toInt (args.getD 0 0)) ()]
  /-- The process is told the number by which it has the semaphore already. -/
  | alreadyOpen (p x : ℕ) (args : List ℤ) (running : s.running = some p)
      (named : SemNamed s x (args.getD 0 0))
      (number : ((t.pcb p).syscallRetvalue, x) ∈ (semaphoreHandles s).held p) :
      SemCall s t (.syscall dsosCallSemopen args) []
  /-- The semaphore is there and a descriptor is missing, or the semaphore itself is. -/
  | notOpened (p : ℕ) (args : List ℤ) (running : s.running = some p)
      (notOpen : ∀ f ∈ (semaphoreHandles s).held p, ¬ SemNamed s f.2 (args.getD 0 0))
      (full : (∃ y, SemNamed s y (args.getD 0 0)) ∧ NoDescriptorLeft s ∨
        (∀ y, ¬ SemNamed s y (args.getD 0 0)) ∧ s.sems.semaphore.pool.free = [])
      (retvalue : (t.pcb p).syscallRetvalue < 0) :
      SemCall s t (.syscall dsosCallSemopen args) []
  /-- Another descriptor of the semaphore is there. -/
  | closed (p x : ℕ) (args : List ℤ) (running : s.running = some p)
      (number : (semaphoreHandles s).lookup p (toInt (args.getD 0 0)) = some x)
      (others : 1 < descriptorsOf s x) (retvalue : (t.pcb p).syscallRetvalue = 0) :
      SemCall s t (.syscall dsosCallSemclose args) [.release p (toInt (args.getD 0 0))]
  /-- The semaphore goes with its last descriptor. -/
  | removed (p x : ℕ) (args : List ℤ) (running : s.running = some p)
      (number : (semaphoreHandles s).lookup p (toInt (args.getD 0 0)) = some x)
      (last : descriptorsOf s x = 1) (retvalue : (t.pcb p).syscallRetvalue = 0) :
      SemCall s t (.syscall dsosCallSemclose args)
        [.release p (toInt (args.getD 0 0)), .destroy x]
  | notClosed (p : ℕ) (args : List ℤ) (running : s.running = some p)
      (unknown : (semaphoreHandles s).lookup p (toInt (args.getD 0 0)) = none)
      (retvalue : (t.pcb p).syscallRetvalue = dsosEnotmysem) :
      SemCall s t (.syscall dsosCallSemclose args) []
  /-- A block that was not in use becomes a process. -/
  | born (b : ℕ) (hd : Handler) (args : List ℤ) (handler : hd = .spawn ∨ hd = .fork)
      (fresh : ¬ s.pcbs.InUse b) : SemCall s t (.syscall hd.number args) [.drop b]
  /-- Nobody runs, and it becomes another first process. -/
  | started (b : ℕ) (idle : s.running = none) (fresh : ¬ s.pcbs.InUse b) :
      SemCall s t .returnToProcess [.drop b]
  | other (act : Action) (no : ∀ args, act ≠ .syscall dsosCallSemopen args ∧
      act ≠ .syscall dsosCallSemclose args) : SemCall s t act []

/-- The call leads from what was open before to what is open after it. -/
def SemCallPerforms (s t : Kernel) (act : Action) : Prop :=
  ∃ ops, SemCall s t act ops ∧ (semaphoreHandles s).Performs ops (semaphoreHandles t)

theorem SemCallPerforms.same (hsame : semaphoreHandles t = semaphoreHandles s)
    (hno : ∀ args, act ≠ .syscall dsosCallSemopen args ∧ act ≠ .syscall dsosCallSemclose args) :
    SemCallPerforms s t act :=
  ⟨[], .other act hno, hsame ▸ .nil _⟩

theorem SemCallPerforms.unconcerned {n : ℤ} (hsame : semaphoreHandles t = semaphoreHandles s)
    (hopen : n ≠ dsosCallSemopen) (hclose : n ≠ dsosCallSemclose) :
    SemCallPerforms s t (.syscall n args) :=
  .same hsame fun _ => by simp [hopen, hclose]

theorem semaphore_object_ne_none (hx : x ∈ s.sems.list.items) :
    (semaphoreHandles s).object x ≠ none := by
  simp [semaphoreHandles, hx]

/-- An id that the search does not find is the id of no semaphore. -/
theorem not_semNamed {n : ℤ} (hid : semaphoreListById s.sems (toInt n) = none) :
    ∀ y, ¬ SemNamed s y n := by
  intro y hy
  obtain ⟨hmem, hn⟩ := semaphore_object_eq_some.mp hy
  exact List.find?_eq_none.mp hid y hmem (by simpa using hn)

/-- A semaphore is made under an id that no other has. -/
theorem allows_semCreate (hx : x ∉ s.sems.list.items)
    (hid : semaphoreListById s.sems id = none) : (semaphoreHandles s).Allows (.create x id ()) := by
  refine ⟨by simp [semaphoreHandles, hx], fun y f hy hf => ?_⟩
  obtain ⟨hmem, hn⟩ := semaphore_object_eq_some.mp (show _ = some (f.1, ()) from hy)
  exact List.find?_eq_none.mp hid y hmem (by simpa [hn] using hf)

/-- The semaphore that an open of `p` finds or makes, and what comes before the descriptor. -/
theorem OpensAt.performs (ho : OpensAt s u p x) :
    (u = s ∧ SemNamed s x ((s.pcb p).syscallArgs 0)) ∨
      (∀ y, ¬ SemNamed s y ((s.pcb p).syscallArgs 0)) ∧
      (semaphoreHandles s).Allows (.create x (toInt ((s.pcb p).syscallArgs 0)) ()) ∧
        semaphoreHandles u =
          (semaphoreHandles s).perform (.create x (toInt ((s.pcb p).syscallArgs 0)) ()) := by
  cases ho with
  | found listed same =>
    refine Or.inl ⟨same, semaphore_object_eq_some.mpr ⟨List.mem_of_find?_eq_some listed, ?_⟩⟩
    simpa using List.find?_some listed
  | made st unknown taken fresh result =>
    subst result
    exact Or.inr ⟨not_semNamed unknown, allows_semCreate fresh unknown,
      semaphoreHandles_created taken⟩

theorem OpensAt.noDescriptorLeft (ho : OpensAt s u p x) (hfull : NoDescriptorLeft u) :
    NoDescriptorLeft s := by
  obtain ⟨w, rfl, hd, he⟩ := ho.shape
  simpa only [NoDescriptorLeft, Kernel.setSems_sems, hd, he] using hfull

theorem descriptorsOf_pos (hi : SemInv s) (hd : d ∈ (s.pcb p).semDescriptors.items)
    (hx : (s.sems.descriptor.cell d).semaphore = x) : 0 < descriptorsOf s x :=
  List.length_pos_of_mem (hx ▸ (hi.linked p d hd).entry)

theorem notOpen_of_mySearch {n : ℤ}
    (hs : mySearch s.sems (s.pcb p).semDescriptors (toInt n) = none) :
    ∀ f ∈ (semaphoreHandles s).held p, ¬ SemNamed s f.2 n := by
  intro f hf hx
  obtain ⟨d, hd, rfl⟩ := List.mem_map.mp hf
  have hne := List.find?_eq_none.mp hs d hd
  exact hne (by simpa using (semaphore_object_eq_some.mp hx).2.symm)

/-- What an open of `p` does that finds its semaphore or makes it. -/
theorem semOpenDescriptor_performs (hi : SemInv u) (hp : s.running = some p)
    (henter : SameSemaphores s v)
    (harg : (v.pcb p).syscallArgs 0 = args.getD 0 0) (ho : OpensAt v u p x)
    (hnone : mySearch v.sems (v.pcb p).semDescriptors (toInt (args.getD 0 0)) = none)
    (hs : semOpenDescriptor u p x = .ok t) :
    SemCallPerforms s t (.syscall dsosCallSemopen args) := by
  have hsame := semaphoreHandles_same henter
  have hbegins := ho.performs
  have hnotOpen := notOpen_of_mySearch hnone
  simp only [harg, SemNamed, hsame] at hbegins hnotOpen
  have hfailed : NoDescriptorLeft u → (t.pcb p).syscallRetvalue < 0 →
      semaphoreHandles t = semaphoreHandles u →
      SemCallPerforms s t (.syscall dsosCallSemopen args) := by
    intro hfull hret hut
    have hfull : NoDescriptorLeft s := by
      simpa only [NoDescriptorLeft, henter.sems] using ho.noDescriptorLeft hfull
    rcases hbegins with ⟨rfl, hnamed⟩ | ⟨hunknown, hallow, hu⟩
    · refine ⟨[], .notOpened p args hp hnotOpen (Or.inl ⟨⟨x, hnamed⟩, hfull⟩) hret, ?_⟩
      rw [hut, hsame]
      exact .nil _
    · refine ⟨_, .leftBehind p x args hp hunknown hfull hret, ?_⟩
      rw [hut, hu]
      exact .one hallow
  rcases semOpenDescriptor_ok hs with ⟨hempty, rfl⟩ | ⟨d, hf⟩ | ⟨d, e, w, hopen⟩
  · exact hfailed (Or.inl hempty) (by simp [dsosEcreatefd])
      (semaphoreHandles_same (.setRetvalue u p _))
  · refine hfailed (Or.inr hf.noRoom) ?_ (semaphoreHandles_openFailed hi hf)
    rw [hf.retvalue, if_pos rfl]
    decide
  · have ht := semaphoreHandles_opened hi hopen
    rcases hbegins with ⟨rfl, hnamed⟩ | ⟨hunknown, hallow, hu⟩
    · refine ⟨_, .opened p x args hp hnamed ?_, ?_⟩
      · rintro f hf rfl
        exact hnotOpen f hf hnamed
      · rw [ht, hsame]
        refine .one ?_
        rw [Table.Allows, hnamed]
        simp
    · refine ⟨_, .created p x args hp hunknown, ?_⟩
      rw [ht, hu]
      refine .cons hallow (.one ?_)
      rw [← hu]
      exact semaphore_object_ne_none ho.listed

theorem step_semOpen_performs (h : KernelInv s) (hp : s.running = some p)
    (hs : kernel.step s (.syscall dsosCallSemopen args) = .ok t) :
    SemCallPerforms s t (.syscall dsosCallSemopen args) := by
  have henter := (enterSyscall_quiet s p dsosCallSemopen args).semaphores
  have hsame := semaphoreHandles_same henter
  have hk : KernelInv (enterSyscall s p dsosCallSemopen args) := h.enter hp
  have hrun : internalSemOpen (enterSyscall s p dsosCallSemopen args) = .ok t :=
    (@step_handler s p .semOpen args hp).symm.trans hs
  have harg : ((enterSyscall s p dsosCallSemopen args).pcb p).syscallArgs 0 = args.getD 0 0 :=
    enterSyscall_arg (by decide)
  obtain ⟨p', hp', hcase⟩ := internalSemOpen_ok hrun
  obtain rfl : p = p' := Option.some.inj (hp.symm.trans hp')
  generalize enterSyscall s p dsosCallSemopen args = v at *
  have hperforms : ∀ {u x}, OpensAt v u p x →
      mySearch v.sems (v.pcb p).semDescriptors (toInt ((v.pcb p).syscallArgs 0)) = none →
      semOpenDescriptor u p x = .ok t → SemCallPerforms s t (.syscall dsosCallSemopen args) :=
    fun ho hnone hopen =>
      semOpenDescriptor_performs (ho.invariant hk).sem hp henter harg ho (harg ▸ hnone) hopen
  rcases hcase with ⟨d, hd, rfl⟩ | ⟨hnone, ⟨x, hx, hopen⟩ |
    ⟨hid, ⟨hempty, rfl⟩ | ⟨x, st, ha, hx, hopen⟩⟩⟩
  · have hmem := List.mem_of_find?_eq_some hd
    have hkey := List.find?_some hd
    rw [harg, decide_eq_true_eq] at hkey
    refine ⟨[], .alreadyOpen p (v.sems.descriptor.cell d).semaphore args hp ?_ ?_, ?_⟩
    · rw [SemNamed, ← hsame, semaphore_object_eq_some]
      exact ⟨(hk.sem.linked p d hmem).listed, hkey.symm⟩
    · rw [← hsame]
      exact List.mem_map.mpr ⟨d, hmem, by simp⟩
    · rw [semaphoreHandles_same (.setRetvalue v p _), hsame]
      exact .nil _
  · exact hperforms (.found hx rfl) hnone hopen
  · rw [harg] at hid hnone
    have hnotOpen := notOpen_of_mySearch hnone
    have hunknown := not_semNamed hid
    simp only [SemNamed, hsame] at hnotOpen hunknown
    refine ⟨[], .notOpened p args hp hnotOpen (Or.inr ⟨hunknown, henter.sems ▸ hempty⟩)
      (by simp [dsosEcreatesem]), ?_⟩
    rw [semaphoreHandles_same (.setRetvalue v p _), hsame]
    exact .nil _
  · exact hperforms (.made st hid ha hx rfl) hnone hopen

theorem step_semClose_performs (h : kernel.Reachable s) (hp : s.running = some p)
    (hs : kernel.step s (.syscall dsosCallSemclose args) = .ok t) :
    SemCallPerforms s t (.syscall dsosCallSemclose args) := by
  have henter := (enterSyscall_quiet s p dsosCallSemclose args).semaphores
  have hsame := semaphoreHandles_same henter
  have hk : KernelInv (enterSyscall s p dsosCallSemclose args) :=
    (KernelInv.reachable h).enter hp
  have hit : SemInv t := (KernelInv.reachable (h.next hs)).sem
  have hrun : internalSemClose (enterSyscall s p dsosCallSemclose args) = .ok t :=
    (@step_handler s p .semClose args hp).symm.trans hs
  have harg : ((enterSyscall s p dsosCallSemclose args).pcb p).syscallArgs 0 = args.getD 0 0 :=
    enterSyscall_arg (by decide)
  obtain ⟨p', hp', hcase⟩ := internalSemClose_ok hrun
  obtain rfl : p = p' := Option.some.inj (hp.symm.trans hp')
  generalize enterSyscall s p dsosCallSemclose args = v at *
  have hlookup := lookup_semaphoreHandles v p (toInt (args.getD 0 0))
  rw [harg] at hcase
  rcases hcase with ⟨hnone, rfl⟩ | ⟨d, x, e, w, hd, hx, he, hw, hc⟩
  · rw [hnone, hsame, Option.map_none] at hlookup
    refine ⟨[], .notClosed p args hp hlookup (by simp), ?_⟩
    rw [semaphoreHandles_same (.setRetvalue v p _), hsame]
    exact .nil _
  · have hl := hk.sem.linked p d (SemInv.byFd_mem hd)
    have hc := hc hl.inUse (he ▸ hl.ptrInUse) (hw ▸ hl.waitPtrInUse) (hw ▸ he ▸ hl.differ)
      ((hk.sem.inUse x).mp (hx ▸ hl.listed))
    have hret : (t.pcb p).syscallRetvalue = 0 := by rw [hc.retvalue, if_pos rfl]
    rw [hd, hsame, Option.map_some, hx] at hlookup
    have hallow : (semaphoreHandles s).Allows (.release p (toInt (args.getD 0 0))) := by
      rw [Table.Allows, hlookup]
      simp
    have hcount : descriptorsOf v x = descriptorsOf s x := by simp only [descriptorsOf, henter.sems]
    have hsize : (v.sems.semaphore.cell x).descriptors.size = descriptorsOf s x :=
      hcount ▸ hk.sem.size x
    have hpos : 0 < descriptorsOf s x := hcount ▸ descriptorsOf_pos hk.sem (SemInv.byFd_mem hd) hx
    by_cases h1 : (v.sems.semaphore.cell x).descriptors.size = 1
    · have hlast : descriptorsOf s x = 1 := by omega
      refine ⟨_, .removed p x args hp hlookup hlast hret, ?_⟩
      rw [semaphoreHandles_removed hk.sem hc hd h1, hsame]
      refine .cons hallow (.one fun k f hf => ?_)
      refine not_held_of_removed hk.sem hc h1 hit k f ?_
      rwa [semaphore_held_closed hc hd, hsame]
    · have hothers : 1 < descriptorsOf s x := by omega
      refine ⟨_, .closed p x args hp hlookup hothers hret, ?_⟩
      rw [semaphoreHandles_kept hc hd h1, hsame]
      exact .one hallow

theorem step_semNewChild_performs {hd : Handler} (hhd : hd = .spawn ∨ hd = .fork) {cpu : Option ℤ}
    (hc : NewChild (enterSyscall s p hd.number args) t p b q cpu) :
    SemCallPerforms s t (.syscall hd.number args) := by
  refine ⟨_, .born b hd args hhd hc.fresh, ?_⟩
  rw [semaphoreHandles_newProcess hc.newProcess,
    semaphoreHandles_same (enterSyscall_quiet s p _ args).semaphores]
  exact .one trivial

/-- Neither the count of a semaphore nor its queue says who has it open. -/
theorem semaphoreHandles_counted {n : ℤ} {l : ListHead} (hc : SemCounted s t x n l) :
    semaphoreHandles t = semaphoreHandles s := by
  ext1
  · funext y
    simp only [semaphoreHandles, hc.sems, semSet, Kernel.setSems_sems, Store.modify_cell]
    split_ifs <;> rfl
  · simp only [semaphoreHandles, hc.sems, hc.semDescriptors, semSet, Kernel.setSems_sems]

theorem semaphoreHandles_semWait (h : internalSemWait s = .ok t) :
    semaphoreHandles t = semaphoreHandles s := by
  obtain ⟨p, hp, ⟨-, rfl⟩ | ⟨d, x, w, -, -, -, ⟨-, rfl⟩ | ⟨-, -, -, q, rest, hr, rfl⟩⟩⟩ :=
    internalSemWait_ok h
  · exact semaphoreHandles_same (.setRetvalue s p _)
  · refine semaphoreHandles_counted (x := x) ⟨rfl, ?_, ?_⟩ <;> intros <;> simp
  · refine semaphoreHandles_counted (x := x) ⟨rfl, ?_, ?_⟩ <;> intros <;>
      simp [dispatched, suspended]

theorem semaphoreHandles_semPost (h : internalSemPost s = .ok t) :
    semaphoreHandles t = semaphoreHandles s := by
  obtain ⟨p, hp, ⟨-, rfl⟩ | ⟨d, x, -, -, ⟨-, rfl⟩ | ⟨-, w, queue, b, -, -, -, -, -, -, rfl⟩⟩⟩ :=
    internalSemPost_ok h
  · exact semaphoreHandles_same (.setRetvalue s p _)
  · refine semaphoreHandles_counted (x := x) ⟨rfl, ?_, ?_⟩ <;> intros <;> simp
  · refine semaphoreHandles_counted (x := x) ⟨semWoken_sems s x w b, ?_, ?_⟩ <;> intros <;>
      simp [semWoken]

/-- Every step is a sequence of allowed operations on the semaphores and on what the processes
have open, and the one that its system call means. -/
theorem semaphore_calls_mean (h : kernel.Reachable s) (hs : kernel.step s act = .ok t) :
    SemCallPerforms s t act := by
  have hk : KernelInv s := .reachable h
  rcases step_ok hs with ⟨p, n, args, hp, rfl, hr⟩ | ⟨p, -, rfl, ht⟩ | ⟨rfl, hr⟩
  · have henter := (enterSyscall_quiet s p n args).semaphores
    cases hr with
    | outOfRange range same =>
      subst same
      refine .unconcerned rfl ?_ ?_
      all_goals
        rintro rfl
        exact absurd range (by decide)
    | notImplemented none result =>
      subst result
      refine .unconcerned (semaphoreHandles_same (henter.trans (.setRetvalue _ p _))) ?_ ?_
      all_goals
        rintro rfl
        exact absurd none (by decide)
    | handled hd number run =>
      subst number
      have hke : KernelInv (enterSyscall s p hd.number args) := hk.enter hp
      have hpe : (enterSyscall s p hd.number args).running = some p := hp
      have hu := hke.proc.inUse_of_running hpe
      have hframe : SameSemaphores (enterSyscall s p hd.number args) t →
          hd.number ≠ dsosCallSemopen ∧ hd.number ≠ dsosCallSemclose →
          SemCallPerforms s t (.syscall hd.number args) := fun hf ⟨hopen, hclose⟩ =>
        .unconcerned (semaphoreHandles_same (henter.trans hf)) hopen hclose
      have hsame := semaphoreHandles_same henter
      cases hd with
      | semOpen => exact step_semOpen_performs hk hp hs
      | semClose => exact step_semClose_performs h hp hs
      | semWait =>
        exact .unconcerned ((semaphoreHandles_semWait run).trans hsame) (by decide) (by decide)
      | semPost =>
        exact .unconcerned ((semaphoreHandles_semPost run).trans hsame) (by decide) (by decide)
      | fork =>
        obtain ⟨b, q, hc⟩ := internalFork_ok hpe hu run
        exact step_semNewChild_performs (Or.inr rfl) hc
      | spawn =>
        obtain ⟨b, q, hc⟩ := internalSpawn_ok hpe hu run
        exact step_semNewChild_performs (Or.inl rfl) hc
      | shutdown => cases run
      | exit => exact hframe (internalExit_frame hke.proc hke.wake run) (by decide)
      | preempt => exact hframe (internalSchedule_frame run).1 (by decide)
      | wait => exact hframe (internalWait_frame run).1 (by decide)
      | sleep => exact hframe (internalSleep_frame run).1 (by decide)
      | openResource => exact hframe (internalOpenResource_frame run).2 (by decide)
      | closeResource => exact hframe (internalCloseResource_frame run).2 (by decide)
      | destroyResource => exact hframe (internalDestroyResource_frame run).2 (by decide)
  · have hticked : SameSemaphores s (ticked s p) := by
      refine ⟨rfl, fun k => ?_, fun k => ?_⟩ <;> simp
    exact .same (semaphoreHandles_same (hticked.trans (internalSchedule_frame ht).1)) fun _ => by
      simp
  · cases hr with
    | resumed _ same =>
      subst same
      exact .same rfl fun _ => by simp
    | restarted b idle started =>
      refine ⟨_, .started b idle started.fresh, ?_⟩
      rw [semaphoreHandles_newProcess started.newProcess]
      exact .one trivial

/-- The second close is the last one, and the semaphore goes with it. -/
theorem semaphore_calls_mean_close :
    let s := kernel.replay [.syscall dsosCallSemopen [4, 2], .syscall dsosCallSpawn [0, 0], .tick,
      .syscall dsosCallSemopen [4, 7], .syscall dsosCallSemclose [0], .tick]
    (semaphoreHandles s).held 0 = [(0, 0)] ∧ (semaphoreHandles s).object 0 = some (4, ()) ∧ ∃ t,
      kernel.step s (.syscall dsosCallSemclose [0]) = .ok t ∧
        (semaphoreHandles t).held 0 = [] ∧ (semaphoreHandles t).object 0 = none ∧
          SemCallPerforms s t (.syscall dsosCallSemclose [0]) := by
  have hs : kernel.failure (kernel.replay [.syscall dsosCallSemopen [4, 2],
      .syscall dsosCallSpawn [0, 0], .tick, .syscall dsosCallSemopen [4, 7],
      .syscall dsosCallSemclose [0], .tick]) (.syscall dsosCallSemclose [0]) = none := by
    decide +kernel
  refine ⟨by decide +kernel, by decide +kernel, _, System.step_replayFrom hs, by decide +kernel,
    by decide +kernel, ?_⟩
  exact semaphore_calls_mean (System.reachable_replay _) (System.step_replayFrom hs)

/-! ### What a number means -/

theorem SemCall.keeps {ops : List SemOp} (hc : SemCall s t act ops) (hp : Alive s p)
    (hk : KeepsNumber dsosCallSemclose p fd s act) : ∀ op ∈ ops, ¬ Table.Ends p fd op := by
  cases hc with
  | closed q x args running number others retvalue =>
    rintro op hop hends
    obtain rfl := List.mem_singleton.mp hop
    obtain ⟨rfl, hfd⟩ := hends
    exact (hk running).2 rfl hfd
  | removed q x args running number last retvalue =>
    rintro op hop hends
    rcases List.mem_pair.mp hop with rfl | rfl
    · obtain ⟨rfl, hfd⟩ := hends
      exact (hk running).2 rfl hfd
    · exact hends
  | born b hd args handler fresh =>
    rintro op hop hends
    obtain rfl := List.mem_singleton.mp hop
    obtain rfl : b = p := hends
    exact fresh hp.1
  | started b idle fresh =>
    rintro op hop hends
    obtain rfl := List.mem_singleton.mp hop
    obtain rfl : b = p := hends
    exact fresh hp.1
  | _ => simp [Table.Ends]

end DisastrOS
