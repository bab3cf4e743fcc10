import DisastrOS.Progress

/-! The descriptors of resources and the two pools they come from. -/
namespace DisastrOS
open BlockPool TransitionSystem

variable {s s' t u : Kernel} {p q a b d e r : ℕ} {act : Action} {args : List ℤ}

/-- What every release of a descriptor keeps is kept by the end of the process `p`. -/
theorem internalExit_resources {P : Kernel → Prop} (hk : KernelInv s) (hi : ResInv s)
    (hp : s.running = some p) (hs : internalExit s = .ok t)
    (hsame : ∀ u v, v.resources = u.resources → P u → P v)
    (hclose : ∀ u v r d e, ResInv u → P u → ResourceClosed u v p r d e → P v) (h : P s) : P t := by
  obtain ⟨p', a, i, sig, hp', -, -, -, he⟩ := internalExit_returns hk.proc hk.wake hs
  obtain rfl : p = p' := Option.some.inj (hp ▸ hp')
  cases he with
  | toParent q u _ _ _ released result =>
    have hf : SameResources s (handedToParent (zombified s p i sig) p a q) :=
      ResInv.handedToParent_frame
    obtain ⟨-, hu⟩ := releaseDescriptors_induct (P := fun u => ResInv u ∧ P u)
      (fun u v d hx hr => by
        obtain ⟨r, e, hc⟩ := releaseDescriptor_closed hr
        exact ⟨hx.1.closed hc, hclose u v r d e hx.1 hx.2 hc⟩)
      released ⟨hi.frame hf, hsame _ _ hf.resources h⟩
    exact hsame _ _ (by simp [result, reclaimed]) hu
  | toNext q rest _ _ result =>
    refine hsame _ _ ?_ h
    rw [result, resumed]
    exact (zombified_frame s p i sig).2.resources

theorem runHandler_resources {hd : Handler} (hk : KernelInv s) (hp : s.running = some p)
    (hs : runHandler hd s = .ok t) (hopen : hd ≠ .openResource) (hclose : hd ≠ .closeResource)
    (hdestroy : hd ≠ .destroyResource) (hexit : hd ≠ .exit) : t.resources = s.resources := by
  cases hd with
  | preempt => exact (internalSchedule_frame hs).2.resources
  | fork =>
    obtain ⟨b, q, hc⟩ := internalFork_ok hp (hk.proc.inUse_of_running hp) hs
    exact hc.resources
  | wait => exact (internalWait_frame hs).2.resources
  | exit => exact absurd rfl hexit
  | spawn =>
    obtain ⟨b, q, hc⟩ := internalSpawn_ok hp (hk.proc.inUse_of_running hp) hs
    exact hc.resources
  | sleep => exact (internalSleep_frame hs).2.resources
  | openResource => exact absurd rfl hopen
  | closeResource => exact absurd rfl hclose
  | destroyResource => exact absurd rfl hdestroy
  | shutdown => cases hs
  | semOpen => exact (internalSemOpen_frame hs).2.resources
  | semClose => exact (internalSemClose_frame hs).2.resources
  | semWait => exact (ResInv.internalSemWait_resources hs).resources
  | semPost => exact (ResInv.internalSemPost_resources hs).resources

/-- The descriptor `d` has its entry in the list of its resource. -/
structure DescriptorListed (t : ResourceTable) (d : ℕ) : Prop where
  resource : (t.descriptor.cell d).resource ∈ t.list.items
  entry : (t.descriptor.cell d).ptr ∈
    (t.resource.cell (t.descriptor.cell d).resource).descriptors.items
  back : (t.descriptorPtr.cell (t.descriptor.cell d).ptr).descriptor = d

/-- The resources have different ids and count their descriptors, every descriptor in use is
listed, and there are as many free descriptors as free pointers to descriptors. -/
structure Lockstep (t : ResourceTable) : Prop where
  free : t.descriptor.pool.free.length = t.descriptorPtr.pool.free.length
  ids : ∀ r ∈ t.list.items, ∀ r' ∈ t.list.items,
    (t.resource.cell r).id = (t.resource.cell r').id → r = r'
  size : ∀ r, (t.resource.cell r).descriptors.size =
    (t.resource.cell r).descriptors.items.length
  listed : ∀ d, t.descriptor.InUse d → DescriptorListed t d

namespace Lockstep

theorem of_eq {t t' : ResourceTable} (h : Lockstep t) (he : t' = t) : Lockstep t' := he ▸ h

/-- A resource is found by its id. -/
theorem resourceListById {t : ResourceTable} (h : Lockstep t) (hr : r ∈ t.list.items) :
    resourceListById t (t.resource.cell r).id = some r := by
  cases hf : DisastrOS.resourceListById t (t.resource.cell r).id with
  | none =>
    have hnone := List.find?_eq_none.mp hf r hr
    simp at hnone
  | some r' =>
    have hid := List.find?_some hf
    simp only [decide_eq_true_eq] at hid
    rw [h.ids r' (resourceListById_mem hf) r hr hid]

theorem opened (h : Lockstep s.resources) (hi : ResInv s) (ho : ResourceOpened s s' p r d e)
    (hr : r ∈ s.resources.list.items) : Lockstep s'.resources := by
  refine ⟨?_, fun y hy z hz hyz => ?_, fun y => ?_, fun k hk => ?_⟩
  · have hd := congrArg List.length ho.free
    have he := congrArg List.length ho.freePtr
    have hf := h.free
    simp only [List.length_cons] at hd he
    omega
  · rw [ho.list] at hy hz
    rw [ho.id_eq, ho.id_eq] at hyz
    exact h.ids y hy z hz hyz
  · have hsize := h.size y
    rw [ho.cell_resource]
    split_ifs with hy
    · simp [hsize]
    · exact hsize
  · rcases (ho.inUse k).mp hk with hk | rfl
    · obtain ⟨hres, hentry, hback⟩ := h.listed k hk
      constructor <;> rw [ho.cell_old hk]
      · rwa [ho.list]
      · exact ho.mem_entries.mpr (Or.inl hentry)
      · rwa [ho.cellPtr_old (hi.entry _ _ hentry).inUse]
    · constructor <;> rw [ho.cell_new]
      · rwa [ho.list]
      · exact ho.mem_entries.mpr (Or.inr ⟨rfl, rfl⟩)
      · rw [ho.cellPtr_new]

theorem closed (h : Lockstep s.resources) (hi : ResInv s) (hc : ResourceClosed s s' p r d e) :
    Lockstep s'.resources := by
  have hd := hi.linked p d hc.isOpen
  have he := hi.entry r e hc.listed
  have hback : (s.resources.descriptorPtr.cell e).descriptor = d := hc.ptrEq ▸ hd.ptr
  refine ⟨?_, fun y hy z hz hyz => ?_, fun y => ?_, fun k hk => ?_⟩
  · rw [hc.descriptor, hc.descriptorPtr, Store.free_free hd.inUse, Store.free_free he.inUse,
      List.length_cons, List.length_cons, h.free]
  · rw [hc.list] at hy hz
    rw [hc.id_eq, hc.id_eq] at hyz
    exact h.ids y hy z hz hyz
  · have hsize := h.size y
    rw [hc.cell_resource]
    split_ifs with hy
    · subst hy
      have hpos := List.length_pos_of_mem hc.listed
      have hlen := List.length_erase_of_mem hc.listed
      simp only [hsize, hlen]
      omega
    · exact hsize
  · obtain ⟨hk, hkd⟩ := hc.inUse.mp hk
    obtain ⟨hres, hentry, hkback⟩ := h.listed k hk
    have hptr : (s.resources.descriptor.cell k).ptr ≠ e := fun hke =>
      hkd (hkback.symm.trans (hke ▸ hback))
    constructor <;> rw [hc.cell_descriptor]
    · rwa [hc.list]
    · exact (hi.closed_mem_entries hc).mpr ⟨hentry, hptr⟩
    · rwa [hc.cell_descriptorPtr]

theorem created {st : Store Resource} {id type : ℤ} (h : Lockstep s.resources)
    (ha : Store.Allocated s.resources.resource st r (fun _ => ⟨id, type, .init⟩))
    (hr : r ∉ s.resources.list.items)
    (hnew : DisastrOS.resourceListById s.resources id = none) :
    Lockstep (resourceCreated s r st).resources := by
  have hcell : ∀ y, (resourceCreated s r st).resources.resource.cell y =
      if y = r then ⟨id, type, .init⟩ else s.resources.resource.cell y := fun y => ha.cell y
  have hlist : ∀ y, y ∈ (resourceCreated s r st).resources.list.items ↔
      y ∈ s.resources.list.items ∨ y = r := by
    intro y
    simp [resourceCreated]
  have hids : ∀ y ∈ s.resources.list.items, (s.resources.resource.cell y).id ≠ id := by
    intro y hy
    simpa using List.find?_eq_none.mp hnew y hy
  have hold : ∀ y ∈ s.resources.list.items, (resourceCreated s r st).resources.resource.cell y =
      s.resources.resource.cell y := by
    intro y hy
    rw [hcell, if_neg]
    rintro rfl
    exact hr hy
  have hself : ((resourceCreated s r st).resources.resource.cell r).id = id := by
    rw [hcell, if_pos rfl]
  refine ⟨h.free, fun y hy z hz hyz => ?_, fun y => ?_, fun k hk => ?_⟩
  · rcases (hlist y).mp hy with hy | hyr <;> rcases (hlist z).mp hz with hz | hzr
    · rw [hold y hy, hold z hz] at hyz
      exact h.ids y hy z hz hyz
    · rw [hold y hy, hzr, hself] at hyz
      exact absurd hyz (hids y hy)
    · rw [hold z hz, hyr, hself] at hyz
      exact absurd hyz.symm (hids z hz)
    · exact hyr.trans hzr.symm
  · rw [hcell]
    split_ifs
    · rfl
    · exact h.size y
  · obtain ⟨hres, hentry, hback⟩ := h.listed k hk
    refine ⟨(hlist _).mpr (Or.inl hres), ?_, hback⟩
    have hsame := hold _ hres
    exact hsame.symm ▸ hentry

theorem destroyed (h : Lockstep s.resources) (hi : ResInv s)
    (hnil : (s.resources.resource.cell r).descriptors.items = []) :
    Lockstep (resourceDestroyed s r).resources := by
  have hlist : ∀ y, y ∈ (resourceDestroyed s r).resources.list.items ↔
      y ∈ s.resources.list.items ∧ y ≠ r := by
    intro y
    simp only [resourceDestroyed, Kernel.setResources_resources]
    rw [hi.nodup.mem_erase_iff, and_comm]
  refine ⟨h.free, fun y hy z hz hyz => ?_, h.size, fun k hk => ?_⟩
  · exact h.ids y ((hlist y).mp hy).1 z ((hlist z).mp hz).1 hyz
  · obtain ⟨hres, hentry, hback⟩ := h.listed k hk
    refine ⟨(hlist _).mpr ⟨hres, ?_⟩, hentry, hback⟩
    intro he
    change (s.resources.descriptor.cell k).resource = r at he
    rw [he, hnil] at hentry
    cases hentry

theorem begins {id type : ℤ} {openMode : BitVec 32} (h : Lockstep s.resources)
    (hu : OpenBegins s u id type openMode r) : Lockstep u.resources := by
  cases hu with
  | known mode found same => exact same ▸ h
  | new st mode unknown alloc notListed result => exact result ▸ h.created alloc notListed unknown

theorem internalOpenResource (h : Lockstep s.resources) (hi : ResInv s)
    (hs : internalOpenResource s = .ok s') : Lockstep s'.resources := by
  obtain ⟨p, -, ⟨v, rfl⟩ | ⟨u, r, hu, ⟨v, rfl⟩ | ⟨d, e, -, ho⟩⟩⟩ := internalOpenResource_ok hs
  · exact h
  · exact (h.begins hu).of_eq rfl
  · exact (h.begins hu).opened (hi.begins hu) ho hu.mem

theorem internalCloseResource (h : Lockstep s.resources) (hi : ResInv s)
    (hs : internalCloseResource s = .ok s') : Lockstep s'.resources := by
  obtain ⟨p, -, rfl | ⟨d, u, -, hu, rfl⟩⟩ := internalCloseResource_ok hs
  · exact h
  · obtain ⟨r, e, hc⟩ := releaseDescriptor_closed hu
    exact (h.closed hi hc).of_eq rfl

theorem internalDestroyResource (h : Lockstep s.resources) (hi : ResInv s)
    (hs : internalDestroyResource s = .ok s') : Lockstep s'.resources := by
  obtain ⟨p, -, ⟨v, rfl⟩ | ⟨r, -, hnil, rfl⟩⟩ := internalDestroyResource_ok hs
  · exact h
  · exact (h.destroyed hi hnil).of_eq rfl

theorem runHandler {hd : Handler} (h : Lockstep s.resources) (hi : ResInv s) (hk : KernelInv s)
    (hp : s.running = some p) (hs : runHandler hd s = .ok s') : Lockstep s'.resources := by
  cases hd with
  | openResource => exact h.internalOpenResource hi hs
  | closeResource => exact h.internalCloseResource hi hs
  | destroyResource => exact h.internalDestroyResource hi hs
  | exit =>
    exact internalExit_resources (P := fun s => Lockstep s.resources) hk hi hp hs
      (fun _ _ he hu => hu.of_eq he) (fun _ _ _ _ _ hiu hu hc => hu.closed hiu hc) h
  | preempt | fork | wait | spawn | sleep | shutdown | semOpen | semClose | semWait | semPost =>
    exact h.of_eq (runHandler_resources hk hp hs (by decide) (by decide) (by decide) (by decide))

theorem start : Lockstep disastrOSStart.resources := by
  have hs : disastrOSStart.resources = emptyKernel.resources := by
    obtain ⟨t, -, -, hs⟩ := disastrOSStart_eq
    rw [hs]
  rw [hs]
  refine ⟨rfl, fun _ hr => absurd hr List.not_mem_nil, fun _ => rfl, fun d hd => ?_⟩
  exact absurd hd (Store.not_inUse_init _ _ d)

theorem step (h : Lockstep s.resources) (hi : ResInv s) (hk : KernelInv s)
    (hs : step s act = .ok s') : Lockstep s'.resources := by
  rcases step_ok hs with ⟨p, n, args, hp, -, hr⟩ | ⟨p, -, -, ht⟩ | ⟨-, hr⟩
  · have henter : SameResources s (enterSyscall s p n args) := by
      constructor <;> intros <;> simp [enterSyscall]
    cases hr with
    | outOfRange _ same => exact same ▸ h
    | notImplemented _ result => exact h.of_eq (by rw [result]; rfl)
    | handled hd _ run =>
      have hle : Lockstep (enterSyscall s p n args).resources := h
      exact hle.runHandler (hi.frame henter) (hk.enter hp) hp run
  · exact h.of_eq (internalSchedule_frame ht).2.resources
  · exact h.of_eq hr.resources

theorem reachable (h : kernel.Reachable s) : Lockstep s.resources :=
  h.invariant (P := fun s => Lockstep s.resources) start fun _ _ _ hr hx hs =>
    Lockstep.step hx (ResInv.reachable hr) (KernelInv.reachable hr) hs

end Lockstep

/-! ### Opening and destroying -/

/-- The open creates a resource, and none is free. -/
def OpenFindsNoResource (s : Kernel) (id : ℤ) (openMode : BitVec 32) : Prop :=
  openMode &&& dsosCreate ≠ 0 ∧ resourceListById s.resources id = none ∧
    s.resources.resource.pool.free = []

theorem descriptorPtrAlloc_isSome {v : ResourceTable} {fd : ℤ} (h : Lockstep s.resources)
    (ha : descriptorAlloc s.resources fd r p = some (d, v)) :
    ∃ e w, descriptorPtrAlloc v d = some (e, w) := by
  obtain ⟨st, hst, rfl⟩ := descriptorAlloc_ok ha
  have hfree : s.resources.descriptorPtr.pool.free ≠ [] := fun hnil => by
    have := h.free
    simp [hst.free, hnil] at this
  unfold descriptorPtrAlloc
  split
  · rename_i hnone
    exact absurd (Store.alloc_eq_none.mp hnone) hfree
  · exact ⟨_, _, rfl⟩

theorem openDescriptor_isOk {type : ℤ} {openMode : BitVec 32} (h : Lockstep s.resources)
    (hi : ResInv s) (res : Option ℕ) : ∃ t, openDescriptor s p res type openMode = .ok t := by
  unfold openDescriptor
  cases res with
  | none => exact ⟨_, rfl⟩
  | some r =>
    simp only
    split_ifs
    · exact ⟨_, rfl⟩
    · exact ⟨_, rfl⟩
    split
    · exact ⟨_, rfl⟩
    rename_i d v hd
    obtain ⟨e, w, he⟩ := descriptorPtrAlloc_isSome h hd
    obtain ⟨st, hst, rfl⟩ := descriptorAlloc_ok hd
    obtain ⟨pt, hpt, rfl⟩ := descriptorPtrAlloc_ok he
    have hdp : d ∉ (s.pcb p).descriptors.items := fun hm => hst.fresh (hi.linked p d hm).inUse
    have her : e ∉ (s.resources.resource.cell r).descriptors.items := fun hm =>
      hpt.fresh (hi.entry r e hm).inUse
    simp only [Kernel.modPcb_resources, Kernel.setResources_resources, he, Option.map_some,
      Option.getD_some]
    refine bind_isOk (listInsert_last_ok.mpr ⟨?_, rfl⟩) ?_
    · simpa using hdp
    refine bind_isOk (deref_ok.mpr rfl) (bind_isOk (listInsert_last_ok.mpr ⟨?_, rfl⟩) ⟨_, rfl⟩)
    simpa using her

theorem openDescriptor_outcome (h : Lockstep s.resources) (hi : ResInv s) (p : ℕ)
    (res : Option ℕ) (type : ℤ) (openMode : BitVec 32) :
    (∃ v, descriptorRefusal s.resources res type openMode = some v ∧
      openDescriptor s p res type openMode = .ok (s.setRetvalue p v)) ∨
    ∃ r d e t, res = some r ∧ descriptorRefusal s.resources res type openMode = none ∧
      openDescriptor s p res type openMode = .ok t ∧ ResourceOpened s t p r d e := by
  have hok : ∃ t, openDescriptor s p res type openMode = .ok t := openDescriptor_isOk h hi res
  obtain ⟨t, ht⟩ := hok
  rcases openDescriptor_ok ht with ⟨v, hv, rfl⟩ | ⟨r, d, e, hr, hno, -, ho⟩
  · exact Or.inl ⟨v, hv, ht⟩
  · exact Or.inr ⟨r, d, e, t, hr, hno, ht, ho⟩

/-- A new resource is refused for want of a descriptor only. -/
theorem descriptorRefusal_created {st : Store Resource} {id type : ℤ} (openMode : BitVec 32)
    (ha : Store.Allocated s.resources.resource st r (fun _ => ⟨id, type, .init⟩)) :
    descriptorRefusal (resourceCreated s r st).resources (some r) type openMode =
      if s.resources.descriptor.pool.free = [] then some dsosEresourcenofd else none := by
  simp [descriptorRefusal, resourceCreated, ha.cell, ListHead.init]

/-- The error for an open that neither takes a block nor dereferences the null pointer. -/
def openRefusal (t : ResourceTable) (id type : ℤ) (openMode : BitVec 32) : Option ℤ :=
  if openMode &&& dsosCreate ≠ 0 then
    (resourceListById t id).map fun _ => dsosEresourcecreate
  else descriptorRefusal t (resourceListById t id) type openMode

theorem openRefusal_new {v : ResourceTable} {id type : ℤ} {openMode : BitVec 32}
    (hc : openMode &&& dsosCreate ≠ 0) (hf : resourceListById v id = none) :
    openRefusal v id type openMode = none := by
  rw [openRefusal, if_pos hc, hf, Option.map_none]

/-- How an open of the resource with the given id by `p` comes out. -/
inductive OpenOutcome (s : Kernel) (p : ℕ) (id type : ℤ) (openMode : BitVec 32) :
    Except Fault Kernel → Prop
  | refused (v : ℤ) (refusal : openRefusal s.resources id type openMode = some v) :
      OpenOutcome s p id type openMode (.ok (s.setRetvalue p v))
  | noResource (findsNone : OpenFindsNoResource s id openMode) :
      OpenOutcome s p id type openMode (.error .nullPointer)
  | leftBehind (r : ℕ) (st : Store Resource) (mode : openMode &&& dsosCreate ≠ 0)
      (unknown : resourceListById s.resources id = none)
      (alloc : Store.Allocated s.resources.resource st r (fun _ => ⟨id, type, .init⟩))
      (full : s.resources.descriptor.pool.free = []) :
      OpenOutcome s p id type openMode
        (.ok ((resourceCreated s r st).setRetvalue p dsosEresourcenofd))
  | opened (u t : Kernel) (r d e : ℕ) (begins : OpenBegins s u id type openMode r)
      (allowed : openRefusal s.resources id type openMode = none)
      (opened : ResourceOpened u t p r d e) : OpenOutcome s p id type openMode (.ok t)

theorem internalOpenResource_outcome (h : Lockstep s.resources) (hi : ResInv s)
    (hp : s.running = some p) :
    OpenOutcome s p (toInt ((s.pcb p).syscallArgs 0)) (toInt ((s.pcb p).syscallArgs 1))
      (openModeOf s p) (internalOpenResource s) := by
  unfold internalOpenResource openModeOf
  simp only [hp, deref, bind, Except.bind]
  set id := toInt ((s.pcb p).syscallArgs 0)
  set type := toInt ((s.pcb p).syscallArgs 1)
  set openMode := BitVec.ofInt 32 ((s.pcb p).syscallArgs 2)
  split_ifs with hc
  · cases hf : resourceListById s.resources id with
    | some r => exact .refused _ (by rw [openRefusal, if_pos hc, hf, Option.map_some])
    | none =>
      cases ha : resourceAlloc s.resources id type with
      | none => exact .noResource ⟨hc, hf, resourceAlloc_eq_none.mp ha⟩
      | some y =>
        obtain ⟨r, v⟩ := y
        obtain ⟨st, hst, rfl⟩ := resourceAlloc_ok ha
        have hr : r ∉ s.resources.list.items := fun hm => hst.fresh ((hi.inUse r).mp hm)
        have hins := listInsert_last_ok.mpr ⟨hr, rfl⟩
        have hrefusal := descriptorRefusal_created openMode hst
        simp only [hins]
        rcases openDescriptor_outcome (h.created hst hr hf) (hi.created hst hr) p (some r) type
          openMode with ⟨v, hv, ht⟩ | ⟨r', d, e, t, hr', hno, ht, ho⟩
        · rw [hrefusal] at hv
          split_ifs at hv with hfull
          obtain rfl := Option.some.inj hv
          rw [resourceCreated] at ht
          simp only [ht]
          exact .leftBehind r st hc hf hst hfull
        · obtain rfl := Option.some.inj hr'
          have hbegins : OpenBegins s (resourceCreated s r st) id type openMode r :=
            .new st hc hf hst hr rfl
          rw [resourceCreated] at ht
          simp only [ht]
          exact .opened _ t r d e hbegins (openRefusal_new hc hf) ho
  · have hopen : openRefusal s.resources id type openMode =
        descriptorRefusal s.resources (resourceListById s.resources id) type openMode := if_neg hc
    rcases openDescriptor_outcome h hi p (resourceListById s.resources id) type openMode with
      ⟨v, hv, ht⟩ | ⟨r, d, e, t, hr, hno, ht, ho⟩
    · rw [ht]
      exact .refused v (hopen.trans hv)
    · rw [ht]
      exact .opened s t r d e (.known (not_not.mp hc) hr rfl) (hopen.trans hno) ho

theorem internalOpenResource_error {f : Fault} (h : Lockstep s.resources) (hi : ResInv s)
    (hp : s.running = some p) : internalOpenResource s = .error f ↔
      f = .nullPointer ∧ OpenFindsNoResource s (toInt ((s.pcb p).syscallArgs 0)) (openModeOf s p) := by
  have ho := internalOpenResource_outcome h hi hp
  generalize internalOpenResource s = x at ho
  cases ho with
  | refused v refusal =>
    refine iff_of_false (by simp) fun hno => ?_
    rw [openRefusal_new hno.2.1 hno.2.2.1] at refusal
    cases refusal
  | noResource findsNone => simp [findsNone, eq_comm]
  | leftBehind r st mode unknown alloc full => simp [OpenFindsNoResource, alloc.free]
  | opened u t r d e begins allowed opened =>
    cases begins with
    | known mode found same => simp [OpenFindsNoResource, mode]
    | new st mode unknown alloc notListed result => simp [OpenFindsNoResource, alloc.free]

theorem internalDestroyResource_isOk (h : Lockstep s.resources) (hp : s.running = some p) :
    ∃ t, internalDestroyResource s = .ok t := by
  refine bind_isOk (deref_ok.mpr hp) ?_
  simp only
  split
  · exact ⟨_, rfl⟩
  rename_i r hr
  split_ifs with hz
  · exact ⟨_, rfl⟩
  have hnil : (s.resources.resource.cell r).descriptors.items = [] := by
    have hsize := h.size r
    rw [not_not.mp hz] at hsize
    exact List.length_eq_zero_iff.mp (by omega)
  refine bind_isOk (listDetach_ok.mpr ⟨resourceListById_mem hr, rfl⟩) ?_
  unfold resourceFree
  rw [if_pos hnil]
  exact ⟨_, rfl⟩

/-- The entries of resources and the descriptors belong to each other one to one, and what the
code relies on without a test holds. -/
structure DescriptorsSound (s : Kernel) : Prop where
  pools : s.resources.descriptor.pool.free.length = s.resources.descriptorPtr.pool.free.length
  ids : (s.resources.list.items.map fun r => (s.resources.resource.cell r).id).Nodup
  entries : ∀ r ∈ s.resources.list.items,
    (s.resources.resource.cell r).descriptors.items.Nodup ∧
      ∀ e ∈ (s.resources.resource.cell r).descriptors.items, ResEntry s r e
  listed : ∀ d, s.resources.descriptor.InUse d → ∃! re : ℕ × ℕ,
    re.1 ∈ s.resources.list.items ∧ re.2 ∈ (s.resources.resource.cell re.1).descriptors.items ∧
      (s.resources.descriptorPtr.cell re.2).descriptor = d
  /-- Wherever `internal_openResource` is, a pointer is free once a descriptor was. -/
  ptrAlloc : ∀ u id type openMode r, OpenBegins s u id type openMode r → ∀ fd p d v,
    descriptorAlloc u.resources fd r p = some (d, v) → ∃ e w, descriptorPtrAlloc v d = some (e, w)
  opens : ∀ p ∈ s.running, ∀ args f, kernel.step s (.syscall dsosCallOpenResource args) = .error f ↔
    f = .nullPointer ∧ OpenFindsNoResource s (toInt (args.getD 0 0)) (BitVec.ofInt 32 (args.getD 2 0))
  destroys : ∀ p ∈ s.running, ∀ args, ∃ t,
    kernel.step s (.syscall dsosCallDestroyResource args) = .ok t ∧
      ∀ r, s.resources.resource.InUse r → ¬ t.resources.resource.InUse r →
        ∀ d, s.resources.descriptor.InUse d → (s.resources.descriptor.cell d).resource ≠ r

theorem Lockstep.ids_nodup {v : ResourceTable} (h : Lockstep v) (hnd : v.list.items.Nodup) :
    (v.list.items.map fun r => (v.resource.cell r).id).Nodup :=
  hnd.map_on h.ids

/-- A descriptor in use has exactly one entry. -/
theorem Lockstep.listed_once (h : Lockstep s.resources) (hi : ResInv s)
    (hd : s.resources.descriptor.InUse d) : ∃! re : ℕ × ℕ,
      re.1 ∈ s.resources.list.items ∧ re.2 ∈ (s.resources.resource.cell re.1).descriptors.items ∧
        (s.resources.descriptorPtr.cell re.2).descriptor = d := by
  obtain ⟨hres, hentry, hback⟩ := h.listed d hd
  refine ⟨⟨_, _⟩, ⟨hres, hentry, hback⟩, ?_⟩
  rintro ⟨r, e⟩ ⟨-, he, rfl⟩
  have hen := hi.entry r e he
  simp only [hen.ptr, hen.resource]

theorem step_destroy (hl : Lockstep s.resources) (hp : s.running = some p) :
    ∃ t, kernel.step s (.syscall dsosCallDestroyResource args) = .ok t ∧
      ∀ r, s.resources.resource.InUse r → ¬ t.resources.resource.InUse r →
        ∀ d, s.resources.descriptor.InUse d → (s.resources.descriptor.cell d).resource ≠ r := by
  have hrun : (enterSyscall s p dsosCallDestroyResource args).running = some p := hp
  obtain ⟨t, ht⟩ := internalDestroyResource_isOk (s := enterSyscall s p dsosCallDestroyResource args)
    hl hrun
  refine ⟨t, (@step_handler s p .destroyResource args hp).trans ht, fun r hr hnr d hd he => ?_⟩
  obtain ⟨p', -, ⟨v, rfl⟩ | ⟨r', -, hnil, rfl⟩⟩ := internalDestroyResource_ok ht
  · exact hnr hr
  · have hrr : r = r' := by
      by_contra hne
      exact hnr ((Store.free_inUse _ r' r).mpr ⟨hr, hne⟩)
    have hentry := (hl.listed d hd).entry
    change (s.resources.resource.cell r').descriptors.items = [] at hnil
    rw [he, hrr, hnil] at hentry
    cases hentry

theorem descriptors_sound (h : kernel.Reachable s) : DescriptorsSound s := by
  have hi := ResInv.reachable h
  have hl := Lockstep.reachable h
  constructor
  case pools => exact hl.free
  case ids => exact hl.ids_nodup hi.nodup
  case entries => exact fun r _ => ⟨hi.entriesNodup r, hi.entry r⟩
  case listed => exact fun d hd => hl.listed_once hi hd
  case ptrAlloc =>
    intro u id type openMode r hu fd p d v hv
    exact descriptorPtrAlloc_isSome (hl.begins hu) hv
  case opens =>
    intro p hp args f
    have hrun : (enterSyscall s p dsosCallOpenResource args).running = some p := hp
    have henter : SameResources s (enterSyscall s p dsosCallOpenResource args) := by
      constructor <;> intros <;> simp [enterSyscall]
    have herr :=
      internalOpenResource_error (f := f) (s := enterSyscall s p dsosCallOpenResource args)
      hl (hi.frame henter) hrun
    have hstep : kernel.step s (.syscall dsosCallOpenResource args) =
        internalOpenResource (enterSyscall s p dsosCallOpenResource args) :=
      @step_handler s p .openResource args hp
    rw [openModeOf, enterSyscall_arg (by decide), enterSyscall_arg (by decide)] at herr
    rw [hstep, herr]
    rfl
  case destroys => exact fun p hp args => step_destroy hl hp

/-- Two processes have a resource open. The one that has opened it first closes it, and then cannot
destroy it, as the other has it open. -/
theorem descriptors_sound_shared :
    let s := kernel.replay [.syscall dsosCallSpawn [0, 0],
      .syscall dsosCallOpenResource [4, 1, 1], .syscall dsosCallPreempt [],
      .syscall dsosCallOpenResource [4, 1, 2], .syscall dsosCallPreempt [],
      .syscall dsosCallCloseResource [0], .syscall dsosCallDestroyResource [4]]
    (s.pcb 0).descriptors.items = [] ∧ (s.pcb 1).descriptors.items = [1] ∧
      (s.resources.resource.cell 0).descriptors.items = [1] ∧
      (s.pcb 0).syscallRetvalue = dsosEresourceinuse ∧ DescriptorsSound s := by
  exact ⟨by decide +kernel, by decide +kernel, by decide +kernel, by decide +kernel,
    descriptors_sound (System.reachable_replay _)⟩

end DisastrOS
