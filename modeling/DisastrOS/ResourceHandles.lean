import DisastrOS.HandleTable
import DisastrOS.Runs
import DisastrOS.OpenAtomic
import DisastrOS.OpenDescriptors

/-! The resources of the kernel are objects that processes hold by the numbers of their
descriptors. -/
namespace DisastrOS
open BlockPool TransitionSystem HandleTable

abbrev ResourceOp := Op ℕ ℤ ℕ ℤ ℤ

/-- The resources with their ids and types, and what the processes have open. -/
def resourceHandles (s : Kernel) : Table ℕ ℤ ℕ ℤ ℤ where
  object r :=
    if r ∈ s.resources.list.items then
      some ((s.resources.resource.cell r).id, (s.resources.resource.cell r).type)
    else none
  held p := (s.pcb p).descriptors.items.map fun d =>
    ((s.resources.descriptor.cell d).fd, (s.resources.descriptor.cell d).resource)

variable {s t u : Kernel} {p q b d e r : ℕ} {fd id type : ℤ} {act : Action} {args : List ℤ}

theorem object_eq_some {n a : ℤ} : (resourceHandles s).object r = some (n, a) ↔
    r ∈ s.resources.list.items ∧ (s.resources.resource.cell r).id = n ∧
      (s.resources.resource.cell r).type = a := by
  simp only [resourceHandles]
  split_ifs with hr
  · simp [hr]
  · simp [hr]

theorem lookup_resourceHandles (s : Kernel) (p : ℕ) (fd : ℤ) : (resourceHandles s).lookup p fd =
    (descriptorListByFd s.resources (s.pcb p).descriptors fd).map fun d =>
      (s.resources.descriptor.cell d).resource := by
  simp [Table.lookup, resourceHandles, descriptorListByFd, List.find?_map, Function.comp_def]

/-! ### What the parts of a call perform -/

theorem handles_same (h : SameResources s t) : resourceHandles t = resourceHandles s := by
  simp only [resourceHandles, h.resources, h.descriptors]

theorem handles_newProcess (hc : NewProcess s t b) :
    resourceHandles t = (resourceHandles s).perform (.drop b) := by
  ext1
  · simp only [resourceHandles, hc.resources, Table.perform]
  · funext k
    simp only [resourceHandles, hc.resources, Table.perform, Function.update_apply, hc.descriptors]
    split_ifs with hkb
    · rfl
    · rfl

theorem handles_created {st : Store Resource}
    (ha : Store.Allocated s.resources.resource st r (fun _ => ⟨id, type, .init⟩)) :
    resourceHandles (resourceCreated s r st) =
      (resourceHandles s).perform (.create r id type) := by
  ext1
  · funext y
    simp only [resourceHandles, resourceCreated, Kernel.setResources_resources, ha.cell,
      List.mem_append, List.mem_singleton, Table.perform, Function.update_apply]
    by_cases hy : y = r
    · simp [hy]
    · simp [hy]
  · rfl

theorem handles_opened (hi : ResInv s) (ho : ResourceOpened s t p r d e) :
    resourceHandles t =
      (resourceHandles s).perform (.take p (t.pcb p).syscallRetvalue r) := by
  ext1
  · funext y
    simp only [resourceHandles, ho.list, ho.resource, Table.perform, Store.modify_cell]
    split_ifs <;> rfl
  · funext k
    have hold : ∀ k, (s.pcb k).descriptors.items.map (fun d =>
        ((t.resources.descriptor.cell d).fd, (t.resources.descriptor.cell d).resource)) =
        (resourceHandles s).held k := fun k =>
      List.map_congr_left fun f hf => by rw [ho.cell_old (hi.linked k f hf).inUse]
    simp only [Table.perform, Function.update_apply, ho.retvalue, if_true]
    simp only [resourceHandles, ho.descriptors]
    split_ifs with hk
    · rw [List.map_append, hold, List.map_singleton, ho.cell_new]
      rfl
    · exact hold k

/-- The first descriptor of a list that has the number is erased from what the list holds. -/
theorem map_erase_find {f : ℕ → ℤ × ℕ} {l : List ℕ} (h : l.find? (fun d => (f d).1 = fd) = some d) :
    (l.erase d).map f = (l.map f).eraseP fun e => e.1 = fd := by
  induction l with
  | nil => cases h
  | cons a l ih =>
    by_cases ha : (f a).1 = fd
    · obtain rfl : a = d := by simpa [ha] using h
      simp [ha]
    · have had : a ≠ d := by
        rintro rfl
        exact ha (by simpa using List.find?_some h)
      rw [List.erase_cons_tail (by simpa using had), List.map_cons, List.map_cons,
        List.eraseP_cons_of_neg (by simpa using ha), ih (by simpa [ha] using h)]

theorem object_closed (hc : ResourceClosed s t p r d e) :
    (resourceHandles t).object = (resourceHandles s).object := by
  funext y
  simp only [resourceHandles, hc.list, hc.resource, Store.modify_cell]
  split_ifs <;> rfl

theorem handles_closed (hc : ResourceClosed s t p r d e)
    (hd : descriptorListByFd s.resources (s.pcb p).descriptors fd = some d) :
    resourceHandles t = (resourceHandles s).perform (.release p fd) := by
  ext1
  · exact object_closed hc
  · funext k
    simp only [resourceHandles, Table.perform, Function.update_apply, hc.cell_descriptor,
      hc.descriptors]
    split_ifs with hk
    · exact map_erase_find hd
    · rfl

theorem handles_destroyed (hi : ResInv s) : resourceHandles (resourceDestroyed s r) =
    (resourceHandles s).perform (.destroy r) := by
  ext1
  · funext y
    simp only [resourceHandles, resourceDestroyed, Kernel.setResources_resources,
      hi.nodup.mem_erase_iff, Table.perform, Function.update_apply]
    by_cases hy : y = r
    · simp [hy]
    · simp [hy]
  · rfl

/-- A process that its parent takes over drops what it has open. -/
theorem handles_released {fuel : ℕ} (h : releaseDescriptors fuel s p = .ok t) :
    resourceHandles t = (resourceHandles s).perform (.drop p) := by
  obtain ⟨hobj, hheld⟩ := releaseDescriptors_induct
    (P := fun u => (resourceHandles u).object = (resourceHandles s).object ∧
      ∀ k ≠ p, (resourceHandles u).held k = (resourceHandles s).held k)
    (fun u v d hu hr => by
      obtain ⟨r, e, hc⟩ := releaseDescriptor_closed hr
      refine ⟨(object_closed hc).trans hu.1, fun k hk => ?_⟩
      rw [← hu.2 k hk]
      simp only [resourceHandles, hc.cell_descriptor, hc.descriptors, if_neg hk])
    h ⟨rfl, fun _ _ => rfl⟩
  ext1
  · exact hobj
  · funext k
    simp only [Table.perform, Function.update_apply]
    split_ifs with hk
    · subst hk
      obtain ⟨l, w, rfl⟩ := releaseDescriptors_ok h
      simp [resourceHandles]
    · exact hheld k hk

/-! ### What a call performs -/

/-- What a system call that returns has done to what processes have open. -/
inductive ResourceCall (s t : Kernel) : Action → List ResourceOp → Prop
  /-- The resource is there, and the process gets the number that is returned. -/
  | opened (p r : ℕ) (args : List ℤ) (running : s.running = some p)
      (mode : BitVec.ofInt 32 (args.getD 2 0) &&& dsosCreate = 0)
      (named : (resourceHandles s).object r = some (toInt (args.getD 0 0), toInt (args.getD 1 0))) :
      ResourceCall s t (.syscall dsosCallOpenResource args)
        [.take p (t.pcb p).syscallRetvalue r]
  | created (p r : ℕ) (args : List ℤ) (running : s.running = some p)
      (mode : BitVec.ofInt 32 (args.getD 2 0) &&& dsosCreate ≠ 0) :
      ResourceCall s t (.syscall dsosCallOpenResource args)
        [.create r (toInt (args.getD 0 0)) (toInt (args.getD 1 0)),
          .take p (t.pcb p).syscallRetvalue r]
  /-- No descriptor is free for the new resource. -/
  | leftBehind (p r : ℕ) (args : List ℤ) (running : s.running = some p)
      (retvalue : (t.pcb p).syscallRetvalue = dsosEresourcenofd) :
      ResourceCall s t (.syscall dsosCallOpenResource args)
        [.create r (toInt (args.getD 0 0)) (toInt (args.getD 1 0))]
  | notOpened (p : ℕ) (args : List ℤ) (running : s.running = some p)
      (retvalue : (t.pcb p).syscallRetvalue < 0) :
      ResourceCall s t (.syscall dsosCallOpenResource args) []
  | closed (p : ℕ) (args : List ℤ) (running : s.running = some p)
      (retvalue : (t.pcb p).syscallRetvalue = 0) :
      ResourceCall s t (.syscall dsosCallCloseResource args) [.release p (toInt (args.getD 0 0))]
  | notClosed (p : ℕ) (args : List ℤ) (running : s.running = some p)
      (unknown : (resourceHandles s).lookup p (toInt (args.getD 0 0)) = none)
      (retvalue : (t.pcb p).syscallRetvalue = dsosEresourceclose) :
      ResourceCall s t (.syscall dsosCallCloseResource args) []
  | destroyed (p r : ℕ) (type : ℤ) (args : List ℤ) (running : s.running = some p)
      (named : (resourceHandles s).object r = some (toInt (args.getD 0 0), type))
      (retvalue : (t.pcb p).syscallRetvalue = 0) :
      ResourceCall s t (.syscall dsosCallDestroyResource args) [.destroy r]
  | notDestroyed (p : ℕ) (args : List ℤ) (running : s.running = some p)
      (retvalue : (t.pcb p).syscallRetvalue < 0) :
      ResourceCall s t (.syscall dsosCallDestroyResource args) []
  /-- The parent waits for the process that exits. -/
  | exited (p : ℕ) (args : List ℤ) (running : s.running = some p) :
      ResourceCall s t (.syscall dsosCallExit args) [.drop p]
  /-- A block that was not in use becomes a process. -/
  | born (b : ℕ) (hd : Handler) (args : List ℤ) (handler : hd = .spawn ∨ hd = .fork)
      (fresh : ¬ s.pcbs.InUse b) : ResourceCall s t (.syscall hd.number args) [.drop b]
  /-- Nobody runs, and it becomes another first process. -/
  | started (b : ℕ) (idle : s.running = none) (fresh : ¬ s.pcbs.InUse b) :
      ResourceCall s t .returnToProcess [.drop b]
  | other (act : Action) (no : ∀ args, act ≠ .syscall dsosCallOpenResource args ∧
      act ≠ .syscall dsosCallCloseResource args ∧ act ≠ .syscall dsosCallDestroyResource args) :
      ResourceCall s t act []

theorem object_ne_none (hr : r ∈ s.resources.list.items) : (resourceHandles s).object r ≠ none := by
  simp [resourceHandles, hr]

/-- A resource is made under an id that no other has. -/
theorem allows_create (hr : r ∉ s.resources.list.items)
    (hid : resourceListById s.resources id = none) :
    (resourceHandles s).Allows (.create r id type) := by
  refine ⟨by simp [resourceHandles, hr], fun y e hy he => ?_⟩
  obtain ⟨n, a⟩ := e
  obtain ⟨hmem, hn, -⟩ := object_eq_some.mp hy
  have := List.find?_eq_none.mp hid y hmem
  exact this (by simpa [hn] using he)

/-- A resource without descriptors is held by nobody. -/
theorem allows_destroy (hi : ResInv s) (hnil : (s.resources.resource.cell r).descriptors.items = []) :
    (resourceHandles s).Allows (.destroy r) := by
  intro p e he her
  obtain ⟨d, hd, rfl⟩ := List.mem_map.mp he
  have hentry := (hi.linked p d hd).entry
  rw [show (s.resources.descriptor.cell d).resource = r from her, hnil] at hentry
  cases hentry

/-- The call leads from what was open before to what is open after it. -/
def ResourceCallPerforms (s t : Kernel) (act : Action) : Prop :=
  ∃ ops, ResourceCall s t act ops ∧ (resourceHandles s).Performs ops (resourceHandles t)

theorem ResourceCallPerforms.same (hsame : SameResources s t)
    (hno : ∀ args, act ≠ .syscall dsosCallOpenResource args ∧
      act ≠ .syscall dsosCallCloseResource args ∧ act ≠ .syscall dsosCallDestroyResource args) :
    ResourceCallPerforms s t act :=
  ⟨[], .other act hno, handles_same hsame ▸ .nil _⟩

theorem ResourceCallPerforms.unconcerned {n : ℤ} (hsame : SameResources s t)
    (hopen : n ≠ dsosCallOpenResource) (hclose : n ≠ dsosCallCloseResource)
    (hdestroy : n ≠ dsosCallDestroyResource) : ResourceCallPerforms s t (.syscall n args) :=
  .same hsame fun _ => by simp [hopen, hclose, hdestroy]

theorem openRefusal_known {w : ResourceTable} {openMode : BitVec 32}
    (hm : openMode &&& dsosCreate = 0) (hf : resourceListById w id = some r)
    (h : openRefusal w id type openMode = none) : (w.resource.cell r).type = type := by
  rw [openRefusal, if_neg (not_not.mpr hm), hf, descriptorRefusal] at h
  by_contra ht
  rw [if_pos ht] at h
  cases h

theorem step_open_performs (h : kernel.Reachable s) (hp : s.running = some p)
    (hs : kernel.step s (.syscall dsosCallOpenResource args) = .ok t) :
    ResourceCallPerforms s t (.syscall dsosCallOpenResource args) := by
  have henter := enterSyscall_resources s p dsosCallOpenResource args
  have hi : ResInv (enterSyscall s p dsosCallOpenResource args) := (ResInv.reachable h).frame henter
  have hsame := handles_same henter
  have ho := step_openResource h hp args
  rw [hs] at ho
  generalize hu : enterSyscall s p dsosCallOpenResource args = v at *
  generalize hr : Except.ok t = y at ho
  cases ho with
  | refused w refusal =>
    obtain rfl := Except.ok.inj hr
    refine ⟨[], .notOpened p args hp ?_, ?_⟩
    · simpa using openRefusal_neg refusal
    · rw [handles_same (.setRetvalue v p w), hsame]
      exact .nil _
  | noResource findsNone => cases hr
  | leftBehind r st mode unknown alloc full =>
    obtain rfl := Except.ok.inj hr
    have hnew : r ∉ v.resources.list.items := fun hm => alloc.fresh ((hi.inUse r).mp hm)
    refine ⟨_, .leftBehind p r args hp (by simp), ?_⟩
    rw [handles_same (.setRetvalue _ p _), handles_created alloc, ← hsame]
    exact .one (allows_create hnew unknown)
  | opened u t' r d e begins allowed opened =>
    obtain rfl := Except.ok.inj hr
    cases begins with
    | known mode found same =>
      subst same
      have hmem := resourceListById_mem found
      refine ⟨_, .opened p r args hp mode ?_, ?_⟩
      · rw [← hsame, object_eq_some]
        exact ⟨hmem, by simpa using List.find?_some found, openRefusal_known mode found allowed⟩
      · rw [handles_opened hi opened, ← hsame]
        exact .one (object_ne_none hmem)
    | new st mode unknown alloc notListed result =>
      subst result
      refine ⟨_, .created p r args hp mode, ?_⟩
      have hmem : r ∈ (resourceCreated v r st).resources.list.items := by simp [resourceCreated]
      rw [handles_opened (hi.created alloc notListed) opened, handles_created alloc, ← hsame]
      refine .cons (allows_create notListed unknown) (.one ?_)
      rw [← handles_created alloc]
      exact object_ne_none hmem

theorem step_close_performs (hp : s.running = some p)
    (hs : kernel.step s (.syscall dsosCallCloseResource args) = .ok t) :
    ResourceCallPerforms s t (.syscall dsosCallCloseResource args) := by
  have henter := enterSyscall_resources s p dsosCallCloseResource args
  have hsame := handles_same henter
  have hrun : internalCloseResource (enterSyscall s p dsosCallCloseResource args) = .ok t :=
    (@step_handler s p .closeResource args hp).symm.trans hs
  have hpe : (enterSyscall s p dsosCallCloseResource args).running = some p := hp
  have harg : ((enterSyscall s p dsosCallCloseResource args).pcb p).syscallArgs 0 = args.getD 0 0 :=
    enterSyscall_arg (by decide)
  generalize enterSyscall s p dsosCallCloseResource args = v at *
  have hlookup := lookup_resourceHandles v p (toInt (args.getD 0 0))
  unfold internalCloseResource at hrun
  simp only [hpe, deref, bind, Except.bind, harg] at hrun
  split at hrun
  · rename_i hnone
    obtain rfl := Except.ok.inj hrun
    rw [hnone, hsame, Option.map_none] at hlookup
    refine ⟨[], .notClosed p args hp hlookup (by simp), ?_⟩
    rw [handles_same (.setRetvalue v p _), hsame]
    exact .nil _
  · rename_i d hd
    rw [hd, hsame, Option.map_some] at hlookup
    cases hrel : releaseDescriptor v p d with
    | error f =>
      rw [hrel] at hrun
      cases hrun
    | ok u =>
      rw [hrel] at hrun
      obtain rfl := Except.ok.inj hrun
      obtain ⟨r, e, hc⟩ := releaseDescriptor_closed hrel
      refine ⟨_, .closed p args hp (by simp), ?_⟩
      rw [handles_same (.setRetvalue u p 0), handles_closed hc hd, ← hsame]
      refine .one ?_
      rw [Table.Allows, hsame, hlookup]
      simp

theorem step_destroy_performs (h : kernel.Reachable s) (hp : s.running = some p)
    (hs : kernel.step s (.syscall dsosCallDestroyResource args) = .ok t) :
    ResourceCallPerforms s t (.syscall dsosCallDestroyResource args) := by
  have henter := enterSyscall_resources s p dsosCallDestroyResource args
  have hi : ResInv (enterSyscall s p dsosCallDestroyResource args) :=
    (ResInv.reachable h).frame henter
  have hl : Lockstep (enterSyscall s p dsosCallDestroyResource args).resources :=
    (Lockstep.reachable h).of_eq henter.resources
  have hsame := handles_same henter
  have hrun : internalDestroyResource (enterSyscall s p dsosCallDestroyResource args) = .ok t :=
    (@step_handler s p .destroyResource args hp).symm.trans hs
  have hpe : (enterSyscall s p dsosCallDestroyResource args).running = some p := hp
  have harg : ((enterSyscall s p dsosCallDestroyResource args).pcb p).syscallArgs 0 =
      args.getD 0 0 := enterSyscall_arg (by decide)
  generalize enterSyscall s p dsosCallDestroyResource args = v at *
  have hfailed : ∀ w < 0, t = v.setRetvalue p w →
      ResourceCallPerforms s t (.syscall dsosCallDestroyResource args) := by
    rintro w hw rfl
    refine ⟨[], .notDestroyed p args hp (by simpa using hw), ?_⟩
    rw [handles_same (.setRetvalue v p w), hsame]
    exact .nil _
  unfold internalDestroyResource at hrun
  simp only [hpe, deref, bind, Except.bind, harg] at hrun
  split at hrun
  · exact hfailed dsosEresourceclose (by decide) (Except.ok.inj hrun).symm
  rename_i r hr
  split_ifs at hrun with hz
  · exact hfailed dsosEresourceinuse (by decide) (Except.ok.inj hrun).symm
  have hmem := resourceListById_mem hr
  have hnil : (v.resources.resource.cell r).descriptors.items = [] := by
    have hsize := hl.size r
    rw [not_not.mp hz] at hsize
    exact List.length_eq_zero_iff.mp (by omega)
  have hdetach := listDetach_ok.mpr ⟨hmem, rfl⟩
  simp only [hdetach, resourceFree, if_pos hnil] at hrun
  have ht : t = (resourceDestroyed v r).setRetvalue p 0 := (Except.ok.inj hrun).symm
  subst ht
  refine ⟨_, .destroyed p r (v.resources.resource.cell r).type args hp ?_ (by simp), ?_⟩
  · rw [← hsame, object_eq_some]
    exact ⟨hmem, by simpa using List.find?_some hr, rfl⟩
  · rw [handles_same (.setRetvalue _ p 0), handles_destroyed hi, ← hsame]
    exact .one (allows_destroy hi hnil)

theorem step_exit_performs (h : kernel.Reachable s) (hp : s.running = some p)
    (hs : kernel.step s (.syscall dsosCallExit args) = .ok t) :
    ResourceCallPerforms s t (.syscall dsosCallExit args) := by
  have henter := enterSyscall_resources s p dsosCallExit args
  have hke : KernelInv (enterSyscall s p dsosCallExit args) := (KernelInv.reachable h).enter hp
  have hrun : internalExit (enterSyscall s p dsosCallExit args) = .ok t :=
    (@step_handler s p .exit args hp).symm.trans hs
  obtain ⟨p', a, i, sig, hp', -, -, -, he⟩ := internalExit_returns hke.proc hke.wake hrun
  obtain rfl : p = p' := Option.some.inj (hp.symm.trans hp')
  cases he with
  | toParent q u _ _ _ released result =>
    subst result
    have hf : SameResources s (handedToParent
        (zombified (enterSyscall s p dsosCallExit args) p i sig) p a q) :=
      henter.trans ResInv.handedToParent_frame
    have hr : SameResources u (reclaimed u p a) := by
      constructor <;> intros <;> simp [reclaimed]
    refine ⟨_, .exited p args hp, ?_⟩
    rw [handles_same hr, handles_released released, handles_same hf]
    exact .one trivial
  | toNext q rest _ _ result =>
    subst result
    refine .unconcerned ((henter.trans (zombified_frame _ p i sig).2).trans ?_) (by decide)
      (by decide) (by decide)
    constructor <;> intros <;> simp [resumed]

theorem step_newChild_performs {hd : Handler} (hhd : hd = .spawn ∨ hd = .fork) {cpu : Option ℤ}
    (hc : NewChild (enterSyscall s p hd.number args) t p b q cpu) :
    ResourceCallPerforms s t (.syscall hd.number args) := by
  refine ⟨_, .born b hd args hhd hc.fresh, ?_⟩
  rw [handles_newProcess hc.newProcess, handles_same (enterSyscall_resources s p _ args)]
  exact .one trivial

/-- Every step is a sequence of allowed operations on what the processes have open, and the one
that its system call means. -/
theorem resource_calls_mean (h : kernel.Reachable s) (hs : kernel.step s act = .ok t) :
    ResourceCallPerforms s t act := by
  have hk : KernelInv s := .reachable h
  rcases step_ok hs with ⟨p, n, args, hp, rfl, hr⟩ | ⟨p, -, rfl, ht⟩ | ⟨rfl, hr⟩
  · have henter := enterSyscall_resources s p n args
    cases hr with
    | outOfRange range same =>
      subst same
      refine .unconcerned (.refl t) ?_ ?_ ?_
      all_goals
        rintro rfl
        exact absurd range (by decide)
    | notImplemented none result =>
      subst result
      refine .unconcerned (henter.trans (.setRetvalue _ p _)) ?_ ?_ ?_
      all_goals
        rintro rfl
        exact absurd none (by decide)
    | handled hd number run =>
      subst number
      have hke : KernelInv (enterSyscall s p hd.number args) := hk.enter hp
      have hpe : (enterSyscall s p hd.number args).running = some p := hp
      have hu := hke.proc.inUse_of_running hpe
      cases hd with
      | openResource => exact step_open_performs h hp hs
      | closeResource => exact step_close_performs hp hs
      | destroyResource => exact step_destroy_performs h hp hs
      | exit => exact step_exit_performs h hp hs
      | fork =>
        obtain ⟨b, q, hc⟩ := internalFork_ok hpe hu run
        exact step_newChild_performs (Or.inr rfl) hc
      | spawn =>
        obtain ⟨b, q, hc⟩ := internalSpawn_ok hpe hu run
        exact step_newChild_performs (Or.inl rfl) hc
      | shutdown => cases run
      | preempt =>
        exact .unconcerned (henter.trans (internalSchedule_frame run).2) (by decide) (by decide)
          (by decide)
      | wait =>
        exact .unconcerned (henter.trans (internalWait_frame run).2) (by decide) (by decide)
          (by decide)
      | sleep =>
        exact .unconcerned (henter.trans (internalSleep_frame run).2) (by decide) (by decide)
          (by decide)
      | semOpen =>
        exact .unconcerned (henter.trans (internalSemOpen_frame run).2) (by decide) (by decide)
          (by decide)
      | semClose =>
        exact .unconcerned (henter.trans (internalSemClose_frame run).2) (by decide) (by decide)
          (by decide)
      | semWait =>
        exact .unconcerned (henter.trans (ResInv.internalSemWait_resources run)) (by decide)
          (by decide) (by decide)
      | semPost =>
        exact .unconcerned (henter.trans (ResInv.internalSemPost_resources run)) (by decide)
          (by decide) (by decide)
  · have hticked : SameResources s (ticked s p) := by
      refine ⟨rfl, fun k => ?_, fun k => ?_⟩ <;> simp
    exact .same (hticked.trans (internalSchedule_frame ht).2) fun _ => by simp
  · cases hr with
    | resumed _ same =>
      subst same
      exact .same (.refl t) fun _ => by simp
    | restarted b idle started =>
      refine ⟨_, .started b idle started.fresh, ?_⟩
      rw [handles_newProcess started.newProcess]
      exact .one trivial

/-- A close takes the number away from the process that calls it. -/
theorem resource_calls_mean_close :
    let s := kernel.replay [.syscall dsosCallOpenResource [4, 2, dsosCreate.toNat],
      .syscall dsosCallOpenResource [4, 2, 0]]
    (resourceHandles s).held 0 = [(0, 0), (1, 0)] ∧ ∃ t,
      kernel.step s (.syscall dsosCallCloseResource [0]) = .ok t ∧
        (resourceHandles t).held 0 = [(1, 0)] ∧
          ResourceCallPerforms s t (.syscall dsosCallCloseResource [0]) := by
  have hs : kernel.failure (kernel.replay [.syscall dsosCallOpenResource [4, 2, dsosCreate.toNat],
      .syscall dsosCallOpenResource [4, 2, 0]]) (.syscall dsosCallCloseResource [0]) = none := by
    decide +kernel
  refine ⟨by decide +kernel, _, System.step_replayFrom hs, by decide +kernel, ?_⟩
  exact resource_calls_mean (System.reachable_replay _) (System.step_replayFrom hs)

/-! ### What a number means -/

/-- The process `p` neither exits nor closes the number `fd` by the call with the number `closing`. -/
def KeepsNumber (closing : ℤ) (p : ℕ) (fd : ℤ) (s : Kernel) : Action → Prop
  | .syscall n args => s.running = some p →
      n ≠ dsosCallExit ∧ (n = closing → toInt (args.getD 0 0) ≠ fd)
  | .tick | .returnToProcess => True

instance (closing : ℤ) (p : ℕ) (fd : ℤ) (s : Kernel) (act : Action) :
    Decidable (KeepsNumber closing p fd s act) :=
  match act with
  | .syscall _ _ => inferInstanceAs (Decidable (_ → _ ∧ (_ → _)))
  | .tick | .returnToProcess => inferInstanceAs (Decidable True)

theorem KeepsNumber.alive {closing : ℤ} (h : KeepsNumber closing p fd s act) (hk : KernelInv s)
    (hs : kernel.step s act = .ok t) (hp : Alive s p) : Alive t p := by
  rcases step_alive hk hs hp with ha | ⟨hrun, args, rfl⟩
  · exact ha
  · exact absurd rfl (h hrun).1

theorem ResourceCall.keeps {ops : List ResourceOp} (hc : ResourceCall s t act ops)
    (hp : Alive s p) (hk : KeepsNumber dsosCallCloseResource p fd s act) :
    ∀ op ∈ ops, ¬ Table.Ends p fd op := by
  cases hc with
  | closed q args running retvalue =>
    rintro op hop hends
    obtain rfl := List.mem_singleton.mp hop
    obtain ⟨rfl, hfd⟩ := hends
    exact (hk running).2 rfl hfd
  | exited q args running =>
    rintro op hop hends
    obtain rfl := List.mem_singleton.mp hop
    obtain rfl : q = p := hends
    exact (hk running).1 rfl
  | born b hd args handler fresh =>
    rintro op hop hends
    obtain rfl := List.mem_singleton.mp hop
    obtain rfl : b = p := hends
    exact fresh hp.1
  | started b idle fresh =>
    rintro op hop hends
    obtain rfl := List.mem_singleton.mp hop
    obtain rfl : b = p := hends
    exact fresh hp.1
  | _ => simp [Table.Ends]

end DisastrOS
