import DisastrOS.ExitOutcome
import DisastrOS.SemaphoreOutcome

/-! What the system calls on resources have done when they return. -/
namespace DisastrOS
open BlockPool

variable {s s' : Kernel} {p d e r : ℕ} {fd id type : ℤ}

theorem resourceAlloc_ok {t t' : ResourceTable} (h : resourceAlloc t id type = some (r, t')) :
    ∃ st, Store.Allocated t.resource st r (fun _ => ⟨id, type, .init⟩) ∧
      t' = { t with resource := st } := by
  unfold resourceAlloc at h
  split at h
  · cases h
  · rename_i y st ha
    obtain ⟨rfl, rfl⟩ := Prod.mk.inj (Option.some.inj h)
    exact ⟨st, Store.alloc_eq_some ha, rfl⟩

theorem resourceAlloc_eq_none {t : ResourceTable} :
    resourceAlloc t id type = none ↔ t.resource.pool.free = [] := by
  unfold resourceAlloc
  split
  · rename_i ha
    simpa using Store.alloc_eq_none.mp ha
  · rename_i ha
    simp [(Store.alloc_eq_some ha).free]

theorem descriptorAlloc_ok {t t' : ResourceTable} (h : descriptorAlloc t fd r p = some (d, t')) :
    ∃ st, Store.Allocated t.descriptor st d
        (fun c => { c with fd := fd, resource := r, pcb := p }) ∧
      t' = { t with descriptor := st } := by
  unfold descriptorAlloc at h
  split at h
  · cases h
  · rename_i y st ha
    obtain ⟨rfl, rfl⟩ := Prod.mk.inj (Option.some.inj h)
    exact ⟨st, Store.alloc_eq_some ha, rfl⟩

theorem descriptorPtrAlloc_ok {t t' : ResourceTable} (h : descriptorPtrAlloc t d = some (e, t')) :
    ∃ st, Store.Allocated t.descriptorPtr st e (fun _ => ⟨d⟩) ∧
      t' = { t with descriptorPtr := st } := by
  unfold descriptorPtrAlloc at h
  split at h
  · cases h
  · rename_i y st ha
    obtain ⟨rfl, rfl⟩ := Prod.mk.inj (Option.some.inj h)
    exact ⟨st, Store.alloc_eq_some ha, rfl⟩

/-- What a successful open of the resource `r` by `p` does. -/
structure ResourceOpened (s s' : Kernel) (p r d e : ℕ) : Prop where
  processes : SameProcesses s s'
  semaphores : SameSemaphores s s'
  fresh : ¬ s.resources.descriptor.InUse d
  free : s.resources.descriptor.pool.free = d :: s'.resources.descriptor.pool.free
  inUse : ∀ k, s'.resources.descriptor.InUse k ↔ s.resources.descriptor.InUse k ∨ k = d
  cell : ∀ k, s'.resources.descriptor.cell k =
    if k = d then ⟨p, r, (s.pcb p).lastFd, e⟩ else s.resources.descriptor.cell k
  freshPtr : ¬ s.resources.descriptorPtr.InUse e
  freePtr : s.resources.descriptorPtr.pool.free = e :: s'.resources.descriptorPtr.pool.free
  inUsePtr : ∀ k, s'.resources.descriptorPtr.InUse k ↔ s.resources.descriptorPtr.InUse k ∨ k = e
  cellPtr : ∀ k, s'.resources.descriptorPtr.cell k =
    if k = e then ⟨d⟩ else s.resources.descriptorPtr.cell k
  list : s'.resources.list = s.resources.list
  resource : s'.resources.resource = s.resources.resource.modify r fun c => { c with
    descriptors := ⟨c.descriptors.items ++ [e], c.descriptors.size + 1⟩ }
  lastFd : ∀ k, (s'.pcb k).lastFd =
    if k = p then toInt ((s.pcb p).lastFd + 1) else (s.pcb k).lastFd
  notOpen : d ∉ (s.pcb p).descriptors.items
  notListed : e ∉ (s.resources.resource.cell r).descriptors.items
  descriptors : ∀ k, (s'.pcb k).descriptors =
    if k = p then ⟨(s.pcb p).descriptors.items ++ [d], (s.pcb p).descriptors.size + 1⟩
    else (s.pcb k).descriptors
  retvalue : ∀ k, (s'.pcb k).syscallRetvalue =
    if k = p then (s.pcb p).lastFd else (s.pcb k).syscallRetvalue
  trace : s'.trace = .assigned p (s.pcb p).lastFd :: s.trace

namespace ResourceOpened

theorem cell_new (h : ResourceOpened s s' p r d e) :
    s'.resources.descriptor.cell d = ⟨p, r, (s.pcb p).lastFd, e⟩ := by
  rw [h.cell, if_pos rfl]

theorem cell_old {k : ℕ} (h : ResourceOpened s s' p r d e)
    (hk : s.resources.descriptor.InUse k) :
    s'.resources.descriptor.cell k = s.resources.descriptor.cell k := by
  have hkd : k ≠ d := fun he => h.fresh (he ▸ hk)
  rw [h.cell, if_neg hkd]

theorem cellPtr_new (h : ResourceOpened s s' p r d e) :
    s'.resources.descriptorPtr.cell e = ⟨d⟩ := by
  rw [h.cellPtr, if_pos rfl]

theorem cellPtr_old {k : ℕ} (h : ResourceOpened s s' p r d e)
    (hk : s.resources.descriptorPtr.InUse k) :
    s'.resources.descriptorPtr.cell k = s.resources.descriptorPtr.cell k := by
  have hke : k ≠ e := fun he => h.freshPtr (he ▸ hk)
  rw [h.cellPtr, if_neg hke]

theorem cell_resource (h : ResourceOpened s s' p r d e) (y : ℕ) :
    s'.resources.resource.cell y = if y = r then { s.resources.resource.cell y with
      descriptors := ⟨(s.resources.resource.cell y).descriptors.items ++ [e],
        (s.resources.resource.cell y).descriptors.size + 1⟩ }
    else s.resources.resource.cell y := by
  rw [h.resource, Store.modify_cell]

theorem id_eq (h : ResourceOpened s s' p r d e) (y : ℕ) :
    (s'.resources.resource.cell y).id = (s.resources.resource.cell y).id := by
  rw [h.cell_resource]
  split_ifs <;> rfl

theorem mem_own {k f : ℕ} (h : ResourceOpened s s' p r d e) :
    f ∈ (s'.pcb k).descriptors.items ↔ f ∈ (s.pcb k).descriptors.items ∨ k = p ∧ f = d := by
  rw [h.descriptors]
  by_cases hk : k = p <;> simp [hk]

theorem mem_entries {y f : ℕ} (h : ResourceOpened s s' p r d e) :
    f ∈ (s'.resources.resource.cell y).descriptors.items ↔
      f ∈ (s.resources.resource.cell y).descriptors.items ∨ y = r ∧ f = e := by
  rw [h.cell_resource]
  by_cases hy : y = r <;> simp [hy]

end ResourceOpened

/-- An exclusive open is turned down when the resource `r` has a descriptor. -/
def OpenAllowed (s : Kernel) (r : ℕ) (openMode : BitVec 32) : Prop :=
  openMode &&& dsosExcl ≠ 0 → (s.resources.resource.cell r).descriptors.size = 0

/-- The error for an open that comes to the resource `res`. -/
def descriptorRefusal (t : ResourceTable) (res : Option ℕ) (type : ℤ) (openMode : BitVec 32) :
    Option ℤ :=
  match res with
  | none => some dsosEresourceopen
  | some r =>
    if (t.resource.cell r).type ≠ type then some dsosEresourceopen
    else if openMode &&& dsosExcl ≠ 0 ∧ (t.resource.cell r).descriptors.size ≠ 0 then
      some dsosEresourcenoexcl
    else if t.descriptor.pool.free = [] then some dsosEresourcenofd
    else none

theorem descriptorAlloc_eq_none {t : ResourceTable} :
    descriptorAlloc t fd r p = none ↔ t.descriptor.pool.free = [] := by
  unfold descriptorAlloc
  split
  · rename_i ha
    simpa using Store.alloc_eq_none.mp ha
  · rename_i ha
    simp [(Store.alloc_eq_some ha).free]

theorem openDescriptor_ok {res : Option ℕ} {openMode : BitVec 32}
    (h : openDescriptor s p res type openMode = .ok s') :
    (∃ v, descriptorRefusal s.resources res type openMode = some v ∧ s' = s.setRetvalue p v) ∨
      ∃ r d e, res = some r ∧ descriptorRefusal s.resources res type openMode = none ∧
        OpenAllowed s r openMode ∧ ResourceOpened s s' p r d e := by
  unfold openDescriptor at h
  unfold descriptorRefusal
  split at h
  · exact Or.inl ⟨_, rfl, (Except.ok.inj h).symm⟩
  rename_i r
  split_ifs at h with ht hx
  · exact Or.inl ⟨_, if_pos ht, (Except.ok.inj h).symm⟩
  · exact Or.inl ⟨_, (if_neg ht).trans (if_pos hx), (Except.ok.inj h).symm⟩
  have hallowed : OpenAllowed s r openMode := fun hm => by_contra fun hz => hx ⟨hm, hz⟩
  simp only [if_neg ht, if_neg hx]
  split at h
  · rename_i hfull
    exact Or.inl ⟨_, if_pos (descriptorAlloc_eq_none.mp hfull), (Except.ok.inj h).symm⟩
  rename_i d t hdt
  obtain ⟨st, hd, rfl⟩ := descriptorAlloc_ok hdt
  have hfree : s.resources.descriptor.pool.free ≠ [] := by simp [hd.free]
  simp only [bind_ok, deref_ok, listInsert_last_ok, Except.ok.injEq] at h
  obtain ⟨_, ⟨hdp, rfl⟩, e, he, _, ⟨hex, rfl⟩, rfl⟩ := h
  obtain ⟨⟨e', t⟩, het, rfl⟩ := Option.map_eq_some_iff.mp he
  obtain ⟨pt, hpt, rfl⟩ := descriptorPtrAlloc_ok het
  refine Or.inr ⟨r, d, e', rfl, if_neg hfree, hallowed, ?_⟩
  simp only [het, Option.map_some, Option.getD_some] at hdp hex ⊢
  constructor
  case processes => constructor <;> intros <;> simp
  case semaphores => constructor <;> intros <;> simp
  case fresh => exact hd.fresh
  case free => exact hd.free
  case inUse => exact hd.inUse
  case cell =>
    intro k
    by_cases hk : k = d
    · subst hk
      simp [hd.cell]
    · simp [hd.cell, hk]
  case freshPtr => exact hpt.fresh
  case freePtr => exact hpt.free
  case inUsePtr => exact hpt.inUse
  case cellPtr =>
    intro k
    simp [hpt.cell]
  case notOpen => simpa using hdp
  case notListed => simpa using hex
  case descriptors | retvalue | lastFd =>
    intro k
    by_cases hk : k = p
    · subst hk
      simp [hd.cell]
    · simp [hk]
  case trace => simp [hd.cell]
  case resource =>
    simp only [Kernel.setRetvalue, Kernel.setResources_resources, Kernel.modPcb_resources,
      Kernel.emit_resources]
    exact Store.modify_congr rfl
  all_goals simp

/-- The new resource `r` is in the list of resources. -/
def resourceCreated (s : Kernel) (r : ℕ) (st : Store Resource) : Kernel :=
  s.setResources { s.resources with
    resource := st
    list := ⟨s.resources.list.items ++ [r], s.resources.list.size + 1⟩ }

theorem resourceListById_mem {t : ResourceTable} (h : resourceListById t id = some r) :
    r ∈ t.list.items := List.mem_of_find?_eq_some h

/-- How an open of the resource with the given id by `p` begins: with the resource as it is, or
with a new one. -/
inductive OpenBegins (s u : Kernel) (id type : ℤ) (openMode : BitVec 32) (r : ℕ) : Prop
  | known (mode : openMode &&& dsosCreate = 0) (found : resourceListById s.resources id = some r)
      (same : u = s)
  | new (st : Store Resource) (mode : openMode &&& dsosCreate ≠ 0)
      (unknown : resourceListById s.resources id = none)
      (alloc : Store.Allocated s.resources.resource st r (fun _ => ⟨id, type, .init⟩))
      (notListed : r ∉ s.resources.list.items) (result : u = resourceCreated s r st)

/-- The mode with which `p` opens a resource. -/
def openModeOf (s : Kernel) (p : ℕ) : BitVec 32 := BitVec.ofInt 32 ((s.pcb p).syscallArgs 2)

theorem OpenBegins.mem {u : Kernel} {openMode : BitVec 32}
    (h : OpenBegins s u id type openMode r) : r ∈ u.resources.list.items := by
  cases h with
  | known mode found same => exact same ▸ resourceListById_mem found
  | new st mode unknown alloc notListed result => simp [result, resourceCreated]

theorem internalOpenResource_ok (h : internalOpenResource s = .ok s') :
    ∃ p, s.running = some p ∧
      ((∃ v, s' = s.setRetvalue p v) ∨
        ∃ u r, OpenBegins s u (toInt ((s.pcb p).syscallArgs 0)) (toInt ((s.pcb p).syscallArgs 1))
          (openModeOf s p) r ∧ ((∃ v, s' = u.setRetvalue p v) ∨
            ∃ d e, OpenAllowed u r (openModeOf s p) ∧ ResourceOpened u s' p r d e)) := by
  obtain ⟨p, hp, h⟩ := bind_ok.mp h
  rw [deref_ok] at hp
  refine ⟨p, hp, ?_⟩
  simp only at h
  split_ifs at h with hc
  · split at h
    · exact Or.inl ⟨_, (Except.ok.inj h).symm⟩
    rename_i hnone
    split at h
    · cases h
    rename_i r t hrt
    obtain ⟨st, hst, rfl⟩ := resourceAlloc_ok hrt
    simp only [bind_ok, listInsert_last_ok] at h
    obtain ⟨_, ⟨hr, rfl⟩, h⟩ := h
    refine Or.inr ⟨resourceCreated s r st, r, .new st hc hnone hst hr rfl, ?_⟩
    rcases openDescriptor_ok h with ⟨v, -, hv⟩ | ⟨r', d, e, hr', -, hx, ho⟩
    · exact Or.inl ⟨v, hv⟩
    · obtain rfl := Option.some.inj hr'
      exact Or.inr ⟨d, e, hx, ho⟩
  · rcases openDescriptor_ok h with ⟨v, -, hv⟩ | ⟨r, d, e, hr, -, hx, ho⟩
    · exact Or.inl ⟨v, hv⟩
    · exact Or.inr ⟨s, r, .known (not_not.mp hc) hr rfl, Or.inr ⟨d, e, hx, ho⟩⟩

/-- What releasing the descriptor `d` of `p` does. -/
structure ResourceClosed (s s' : Kernel) (p r d e : ℕ) : Prop where
  processes : SameProcesses s s'
  semaphores : SameSemaphores s s'
  isOpen : d ∈ (s.pcb p).descriptors.items
  resourceEq : (s.resources.descriptor.cell d).resource = r
  ptrEq : (s.resources.descriptor.cell d).ptr = e
  listed : e ∈ (s.resources.resource.cell r).descriptors.items
  lastFd : ∀ k, (s'.pcb k).lastFd = (s.pcb k).lastFd
  descriptor : s'.resources.descriptor = (s.resources.descriptor.free d).2
  descriptorPtr : s'.resources.descriptorPtr = (s.resources.descriptorPtr.free e).2
  list : s'.resources.list = s.resources.list
  resource : s'.resources.resource = s.resources.resource.modify r fun c => { c with
    descriptors := ⟨c.descriptors.items.erase e, c.descriptors.size - 1⟩ }
  descriptors : ∀ k, (s'.pcb k).descriptors =
    if k = p then ⟨(s.pcb p).descriptors.items.erase d, (s.pcb p).descriptors.size - 1⟩
    else (s.pcb k).descriptors
  retvalue : ∀ k, (s'.pcb k).syscallRetvalue = (s.pcb k).syscallRetvalue
  trace : s'.trace = s.trace

namespace ResourceClosed

theorem cell_descriptor (h : ResourceClosed s s' p r d e) :
    s'.resources.descriptor.cell = s.resources.descriptor.cell := by
  rw [h.descriptor, Store.free_cell]

theorem cell_descriptorPtr (h : ResourceClosed s s' p r d e) :
    s'.resources.descriptorPtr.cell = s.resources.descriptorPtr.cell := by
  rw [h.descriptorPtr, Store.free_cell]

theorem inUse {k : ℕ} (h : ResourceClosed s s' p r d e) :
    s'.resources.descriptor.InUse k ↔ s.resources.descriptor.InUse k ∧ k ≠ d := by
  rw [h.descriptor, Store.free_inUse]

theorem inUsePtr {k : ℕ} (h : ResourceClosed s s' p r d e) :
    s'.resources.descriptorPtr.InUse k ↔ s.resources.descriptorPtr.InUse k ∧ k ≠ e := by
  rw [h.descriptorPtr, Store.free_inUse]

theorem cell_resource (h : ResourceClosed s s' p r d e) (y : ℕ) :
    s'.resources.resource.cell y = if y = r then { s.resources.resource.cell y with
      descriptors := ⟨(s.resources.resource.cell y).descriptors.items.erase e,
        (s.resources.resource.cell y).descriptors.size - 1⟩ }
    else s.resources.resource.cell y := by
  rw [h.resource, Store.modify_cell]

theorem id_eq (h : ResourceClosed s s' p r d e) (y : ℕ) :
    (s'.resources.resource.cell y).id = (s.resources.resource.cell y).id := by
  rw [h.cell_resource]
  split_ifs <;> rfl

end ResourceClosed

theorem releaseDescriptor_closed (h : releaseDescriptor s p d = .ok s') :
    ∃ r e, ResourceClosed s s' p r d e := by
  simp only [releaseDescriptor, bind_ok, listDetach_ok, Except.ok.injEq] at h
  obtain ⟨_, ⟨hd, rfl⟩, _, ⟨he, rfl⟩, rfl⟩ := h
  refine ⟨(s.resources.descriptor.cell d).resource, (s.resources.descriptor.cell d).ptr, ?_⟩
  constructor
  case resourceEq => rfl
  case ptrEq => rfl
  case isOpen => exact hd
  case listed => exact he
  case resource =>
    simp only [Kernel.setResources_resources, Kernel.modPcb_resources]
    exact Store.modify_congr rfl
  case processes => constructor <;> intros <;> simp
  case semaphores => constructor <;> intros <;> simp
  case descriptors =>
    intro k
    by_cases hk : k = p
    · simp [hk]
    · simp [hk]
  all_goals intros
  all_goals simp

theorem internalCloseResource_ok (h : internalCloseResource s = .ok s') :
    ∃ p, s.running = some p ∧ (s' = s.setRetvalue p dsosEresourceclose ∨
      ∃ d u, descriptorListByFd s.resources (s.pcb p).descriptors
          (toInt ((s.pcb p).syscallArgs 0)) = some d ∧
        releaseDescriptor s p d = .ok u ∧ s' = u.setRetvalue p 0) := by
  obtain ⟨p, hp, h⟩ := bind_ok.mp h
  refine ⟨p, deref_ok.mp hp, ?_⟩
  simp only at h
  split at h
  · exact Or.inl (Except.ok.inj h).symm
  · rename_i d hd
    obtain ⟨u, hu, h⟩ := bind_ok.mp h
    exact Or.inr ⟨d, u, hd, hu, (Except.ok.inj h).symm⟩

/-- The resource `r` is gone. -/
def resourceDestroyed (s : Kernel) (r : ℕ) : Kernel :=
  s.setResources { s.resources with
    resource := (s.resources.resource.free r).2
    list := ⟨s.resources.list.items.erase r, s.resources.list.size - 1⟩ }

theorem internalDestroyResource_ok (h : internalDestroyResource s = .ok s') :
    ∃ p, s.running = some p ∧ ((∃ v, s' = s.setRetvalue p v) ∨
      ∃ r, r ∈ s.resources.list.items ∧ (s.resources.resource.cell r).descriptors.items = [] ∧
        s' = (resourceDestroyed s r).setRetvalue p 0) := by
  obtain ⟨p, hp, h⟩ := bind_ok.mp h
  refine ⟨p, deref_ok.mp hp, ?_⟩
  simp only at h
  split at h
  · exact Or.inl ⟨_, (Except.ok.inj h).symm⟩
  rename_i r hr
  split_ifs at h with hz
  · exact Or.inl ⟨_, (Except.ok.inj h).symm⟩
  simp only [bind_ok, listDetach_ok, Except.ok.injEq] at h
  obtain ⟨_, ⟨hm, rfl⟩, t, hfree, rfl⟩ := h
  unfold resourceFree at hfree
  split_ifs at hfree with hi
  exact Or.inr ⟨r, hm, hi, by rw [← Except.ok.inj hfree]; rfl⟩

/-! ### What the system calls on resources leave as it is -/

theorem releaseDescriptor_frame (h : releaseDescriptor s p d = .ok s') :
    SameProcesses s s' ∧ SameSemaphores s s' := by
  obtain ⟨-, t, rfl⟩ := releaseDescriptor_ok h
  constructor <;> constructor <;> intros <;> simp

theorem OpenBegins.frame {u : Kernel} {openMode : BitVec 32}
    (h : OpenBegins s u id type openMode r) : SameProcesses s u ∧ SameSemaphores s u := by
  cases h with
  | known mode found same =>
    subst same
    exact ⟨.refl u, ⟨rfl, fun _ => rfl, fun _ => rfl⟩⟩
  | new st mode unknown alloc notListed result =>
    subst result
    exact ⟨.setResources s _, .setResources s _⟩

theorem internalOpenResource_frame (h : internalOpenResource s = .ok s') :
    SameProcesses s s' ∧ SameSemaphores s s' := by
  obtain ⟨p, -, ⟨v, rfl⟩ | ⟨u, r, hu, h⟩⟩ := internalOpenResource_ok h
  · exact ⟨.setRetvalue s p v, .setRetvalue s p v⟩
  · obtain ⟨hproc, hsem⟩ := hu.frame
    rcases h with ⟨v, rfl⟩ | ⟨d, e, -, ho⟩
    · exact ⟨hproc.trans (.setRetvalue u p v), hsem.trans (.setRetvalue u p v)⟩
    · exact ⟨hproc.trans ho.processes, hsem.trans ho.semaphores⟩

theorem internalCloseResource_frame (h : internalCloseResource s = .ok s') :
    SameProcesses s s' ∧ SameSemaphores s s' := by
  obtain ⟨p, -, rfl | ⟨d, u, -, hu, rfl⟩⟩ := internalCloseResource_ok h
  · exact ⟨.setRetvalue s p _, .setRetvalue s p _⟩
  · obtain ⟨h1, h2⟩ := releaseDescriptor_frame hu
    exact ⟨h1.trans (.setRetvalue u p 0), h2.trans (.setRetvalue u p 0)⟩

theorem internalDestroyResource_frame (h : internalDestroyResource s = .ok s') :
    SameProcesses s s' ∧ SameSemaphores s s' := by
  obtain ⟨p, -, ⟨v, rfl⟩ | ⟨r, -, -, rfl⟩⟩ := internalDestroyResource_ok h
  · exact ⟨.setRetvalue s p v, .setRetvalue s p v⟩
  · exact ⟨(SameProcesses.setResources s _).trans (.setRetvalue _ p 0),
      (SameSemaphores.setResources s _).trans (.setRetvalue _ p 0)⟩

end DisastrOS
