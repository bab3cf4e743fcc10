import DisastrOS.WakeInvariant

/-! The cross links between processes, semaphores, descriptors and descriptor pointers. -/
namespace DisastrOS
open BlockPool TransitionSystem

/-- The links of a descriptor `d` in the list of the process `p`. -/
structure SemLinked (s : Kernel) (p d : ℕ) : Prop where
  inUse : s.sems.descriptor.InUse d
  owner : (s.sems.descriptor.cell d).pcb = p
  listed : (s.sems.descriptor.cell d).semaphore ∈ s.sems.list.items
  ptrInUse : s.sems.descriptorPtr.InUse (s.sems.descriptor.cell d).ptr
  waitPtrInUse : s.sems.descriptorPtr.InUse (s.sems.descriptor.cell d).waitPtr
  differ : (s.sems.descriptor.cell d).waitPtr ≠ (s.sems.descriptor.cell d).ptr
  ptr : (s.sems.descriptorPtr.cell (s.sems.descriptor.cell d).ptr).descriptor = d
  waitPtr : (s.sems.descriptorPtr.cell (s.sems.descriptor.cell d).waitPtr).descriptor = d
  entry : (s.sems.descriptor.cell d).ptr ∈
    (s.sems.semaphore.cell (s.sems.descriptor.cell d).semaphore).descriptors.items

/-- The links of an entry `e` of the descriptors of the semaphore `x`. -/
structure SemEntry (s : Kernel) (x e : ℕ) : Prop where
  inUse : s.sems.descriptorPtr.InUse e
  descInUse : s.sems.descriptor.InUse (s.sems.descriptorPtr.cell e).descriptor
  ptr : (s.sems.descriptor.cell (s.sems.descriptorPtr.cell e).descriptor).ptr = e
  semaphore : (s.sems.descriptor.cell (s.sems.descriptorPtr.cell e).descriptor).semaphore = x

/-- The links of an entry `w` of the queue of the semaphore `x`. -/
structure SemQueued (s : Kernel) (x w : ℕ) : Prop where
  isOpen : (s.sems.descriptorPtr.cell w).descriptor ∈ (s.pcb (waiter s w)).semDescriptors.items
  waitPtr : (s.sems.descriptor.cell (s.sems.descriptorPtr.cell w).descriptor).waitPtr = w
  semaphore : (s.sems.descriptor.cell (s.sems.descriptorPtr.cell w).descriptor).semaphore = x

structure SemInv (s : Kernel) : Prop where
  nodup : s.sems.list.items.Nodup
  inUse : ∀ x, x ∈ s.sems.list.items ↔ s.sems.semaphore.InUse x
  ids : ∀ x ∈ s.sems.list.items, ∀ y ∈ s.sems.list.items,
    (s.sems.semaphore.cell x).id = (s.sems.semaphore.cell y).id → x = y
  ownNodup : ∀ p, (s.pcb p).semDescriptors.items.Nodup
  linked : ∀ p, ∀ d ∈ (s.pcb p).semDescriptors.items, SemLinked s p d
  unique : ∀ p, ∀ d ∈ (s.pcb p).semDescriptors.items, ∀ d' ∈ (s.pcb p).semDescriptors.items,
    (s.sems.descriptor.cell d).semaphore = (s.sems.descriptor.cell d').semaphore → d = d'
  entriesNodup : ∀ x, (s.sems.semaphore.cell x).descriptors.items.Nodup
  size : ∀ x, (s.sems.semaphore.cell x).descriptors.size =
    (s.sems.semaphore.cell x).descriptors.items.length
  entry : ∀ x, ∀ e ∈ (s.sems.semaphore.cell x).descriptors.items, SemEntry s x e
  queueNodup : ∀ x, (queue s x).Nodup
  queueSize : ∀ x, (s.sems.semaphore.cell x).waitingDescriptors.size = (queue s x).length
  queued : ∀ x, ∀ w ∈ queue s x, SemQueued s x w

namespace SemInv
variable {s s' : Kernel} {p q b a i d e x w : ℕ} {rest : List ℕ}

/-- The descriptor found under a number is in the list that was searched. -/
theorem byFd_mem {t : SemTable} {h : ListHead} {fd : ℤ}
    (hd : semDescriptorListByFd t h fd = some d) : d ∈ h.items := List.mem_of_find?_eq_some hd

theorem queue_linked (h : SemInv s) (hw : w ∈ queue s x) :
    SemLinked s (waiter s w) (s.sems.descriptorPtr.cell w).descriptor :=
  h.linked _ _ (h.queued x w hw).isOpen

/-- Nobody waits for a semaphore that is not in the list. -/
theorem queue_eq_nil (h : SemInv s) (hx : x ∉ s.sems.list.items) : queue s x = [] := by
  rw [List.eq_nil_iff_forall_not_mem]
  intro w hw
  have := (h.queue_linked hw).listed
  rw [(h.queued x w hw).semaphore] at this
  exact hx this

theorem frame (h : SemInv s) (hs : SameSemaphores s s') : SemInv s' := by
  have hq : ∀ x, queue s' x = queue s x := fun x => by rw [queue, queue, hs.sems]
  have hwt : ∀ w, waiter s' w = waiter s w := fun w => by rw [waiter, waiter, hs.sems]
  refine ⟨?_, ?_, ?_, ?_, ?_, ?_, ?_, ?_, ?_, ?_, ?_, ?_⟩
  · rw [hs.sems]; exact h.nodup
  · rw [hs.sems]; exact h.inUse
  · rw [hs.sems]; exact h.ids
  · simpa only [hs.semDescriptors] using h.ownNodup
  · intro p d hd
    rw [hs.semDescriptors] at hd
    obtain ⟨h1, h2, h3, h4, h5, h6, h7, h8, h9⟩ := h.linked p d hd
    constructor <;> rw [hs.sems] <;> assumption
  · simpa only [hs.sems, hs.semDescriptors] using h.unique
  · rw [hs.sems]; exact h.entriesNodup
  · rw [hs.sems]; exact h.size
  · intro x e he
    rw [hs.sems] at he
    obtain ⟨h1, h2, h3, h4⟩ := h.entry x e he
    constructor <;> rw [hs.sems] <;> assumption
  · simpa only [hq] using h.queueNodup
  · intro x
    rw [hq, hs.sems]
    exact h.queueSize x
  · intro x w hw
    rw [hq] at hw
    obtain ⟨h1, h2, h3⟩ := h.queued x w hw
    constructor
    · rw [hwt, hs.semDescriptors, hs.sems]
      exact h1
    · rw [hs.sems]
      exact h2
    · rw [hs.sems]
      exact h3

/-! ### Opening -/

/-- The blocks that an open takes are none of those that are linked. -/
theorem opened_old (h : SemInv s) (ho : SemOpened s s' p x d e w) {k f : ℕ}
    (hf : f ∈ (s.pcb k).semDescriptors.items) : f ≠ d ∧
      s'.sems.descriptor.cell f = s.sems.descriptor.cell f ∧
      s'.sems.descriptorPtr.cell (s.sems.descriptor.cell f).ptr =
        s.sems.descriptorPtr.cell (s.sems.descriptor.cell f).ptr ∧
      s'.sems.descriptorPtr.cell (s.sems.descriptor.cell f).waitPtr =
        s.sems.descriptorPtr.cell (s.sems.descriptor.cell f).waitPtr := by
  have hl := h.linked k f hf
  have hfd : f ≠ d := fun he => ho.fresh (he ▸ hl.inUse)
  have hold : ∀ g, s.sems.descriptorPtr.InUse g →
      s'.sems.descriptorPtr.cell g = s.sems.descriptorPtr.cell g := by
    intro g hg
    rw [ho.cellPtr, if_neg]
    rintro (rfl | rfl)
    · exact ho.freshPtr hg
    · exact ho.freshWaitPtr hg
  exact ⟨hfd, ho.cell_old hl.inUse, hold _ hl.ptrInUse, hold _ hl.waitPtrInUse⟩

theorem opened_linked (h : SemInv s) (ho : SemOpened s s' p x d e w) (hx : x ∈ s.sems.list.items)
    {k f : ℕ} (hf : f ∈ (s'.pcb k).semDescriptors.items) : SemLinked s' k f := by
  rcases ho.mem_own.mp hf with hf | ⟨rfl, rfl⟩
  · obtain ⟨-, hc, hp, hw⟩ := h.opened_old ho hf
    have hl := h.linked k f hf
    constructor <;> try rw [hc]
    · exact (ho.inUse f).mpr (Or.inl hl.inUse)
    · exact hl.owner
    · rw [ho.list]
      exact hl.listed
    · exact (ho.inUsePtr _).mpr (Or.inl hl.ptrInUse)
    · exact (ho.inUsePtr _).mpr (Or.inl hl.waitPtrInUse)
    · exact hl.differ
    · rw [hp]
      exact hl.ptr
    · rw [hw]
      exact hl.waitPtr
    · exact ho.mem_entries.mpr (Or.inl hl.entry)
  · constructor <;> try rw [ho.cell_new]
    · exact (ho.inUse f).mpr (Or.inr rfl)
    · rw [ho.list]
      exact hx
    · exact (ho.inUsePtr _).mpr (Or.inr (Or.inl rfl))
    · exact (ho.inUsePtr _).mpr (Or.inr (Or.inr rfl))
    · exact ho.differ
    · rw [ho.cellPtr, if_pos (Or.inl rfl)]
    · rw [ho.cellPtr, if_pos (Or.inr rfl)]
    · exact ho.mem_entries.mpr (Or.inr ⟨rfl, rfl⟩)

/-- The process that opens the semaphore had it not open before. -/
theorem opened_unique (h : SemInv s) (ho : SemOpened s s' p x d e w)
    (hno : ∀ f ∈ (s.pcb p).semDescriptors.items, (s.sems.descriptor.cell f).semaphore ≠ x)
    {k f g : ℕ} (hf : f ∈ (s'.pcb k).semDescriptors.items)
    (hg : g ∈ (s'.pcb k).semDescriptors.items)
    (he : (s'.sems.descriptor.cell f).semaphore = (s'.sems.descriptor.cell g).semaphore) :
    f = g := by
  rcases ho.mem_own.mp hf with hf | ⟨rfl, rfl⟩ <;> rcases ho.mem_own.mp hg with hg | ⟨hk, rfl⟩
  · rw [(h.opened_old ho hf).2.1, (h.opened_old ho hg).2.1] at he
    exact h.unique k f hf g hg he
  · subst hk
    rw [(h.opened_old ho hf).2.1, ho.cell_new] at he
    exact absurd he (hno f hf)
  · rw [(h.opened_old ho hg).2.1, ho.cell_new] at he
    exact absurd he.symm (hno g hg)
  · rfl

theorem opened_entry (h : SemInv s) (ho : SemOpened s s' p x d e w) {y f : ℕ}
    (hf : f ∈ (s'.sems.semaphore.cell y).descriptors.items) : SemEntry s' y f := by
  rcases ho.mem_entries.mp hf with hf | ⟨rfl, rfl⟩
  · have hen := h.entry y f hf
    have hfe : ¬ (f = e ∨ f = w) := by
      rintro (rfl | rfl)
      · exact ho.freshPtr hen.inUse
      · exact ho.freshWaitPtr hen.inUse
    have hc : s'.sems.descriptorPtr.cell f = s.sems.descriptorPtr.cell f := by
      rw [ho.cellPtr, if_neg hfe]
    constructor
    · exact (ho.inUsePtr f).mpr (Or.inl hen.inUse)
    · rw [hc]
      exact (ho.inUse _).mpr (Or.inl hen.descInUse)
    · rw [hc, ho.cell_old hen.descInUse]
      exact hen.ptr
    · rw [hc, ho.cell_old hen.descInUse]
      exact hen.semaphore
  · have hc : s'.sems.descriptorPtr.cell f = ⟨d⟩ := by rw [ho.cellPtr, if_pos (Or.inl rfl)]
    constructor
    · exact (ho.inUsePtr f).mpr (Or.inr (Or.inl rfl))
    · rw [hc]
      exact (ho.inUse d).mpr (Or.inr rfl)
    · rw [hc, ho.cell_new]
    · rw [hc, ho.cell_new]

theorem queue_opened (ho : SemOpened s s' p x d e w) (y : ℕ) : queue s' y = queue s y := by
  rw [queue, queue, (ho.others y).2.2]

theorem waiter_opened (h : SemInv s) (ho : SemOpened s s' p x d e w) {y v : ℕ}
    (hv : v ∈ queue s y) : waiter s' v = waiter s v := by
  have hq := h.queued y v hv
  obtain ⟨-, hc, -, hw⟩ := h.opened_old ho hq.isOpen
  rw [hq.waitPtr] at hw
  rw [waiter, waiter, hw, hc]

theorem opened_queued (h : SemInv s) (ho : SemOpened s s' p x d e w) {y v : ℕ}
    (hv : v ∈ queue s' y) : SemQueued s' y v := by
  rw [queue_opened ho] at hv
  have hv' := h.queued y v hv
  obtain ⟨-, hc, -, hw⟩ := h.opened_old ho hv'.isOpen
  rw [hv'.waitPtr] at hw
  constructor
  · rw [h.waiter_opened ho hv, hw]
    exact ho.mem_own.mpr (Or.inl hv'.isOpen)
  · rw [hw, hc]
    exact hv'.waitPtr
  · rw [hw, hc]
    exact hv'.semaphore

theorem opened (h : SemInv s) (ho : SemOpened s s' p x d e w) (hx : x ∈ s.sems.list.items)
    (hno : ∀ f ∈ (s.pcb p).semDescriptors.items, (s.sems.descriptor.cell f).semaphore ≠ x) :
    SemInv s' := by
  refine ⟨?_, ?_, ?_, ?_, fun k f hf => h.opened_linked ho hx hf,
    fun k f hf g hg => h.opened_unique ho hno hf hg, ?_, ?_, fun y f hf => h.opened_entry ho hf,
    fun y => ?_, fun y => ?_, fun y v hv => h.opened_queued ho hv⟩
  · rw [ho.list]
    exact h.nodup
  · intro y
    rw [ho.list, h.inUse, ho.semaphore]
    rfl
  · intro y hy z hz
    rw [ho.list] at hy hz
    rw [(ho.others y).1, (ho.others z).1]
    exact h.ids y hy z hz
  · intro k
    rw [ho.semDescriptors]
    split_ifs
    · exact (h.ownNodup p).append (List.nodup_singleton d) (by simpa using ho.notOpen)
    · exact h.ownNodup k
  · intro y
    rw [ho.cell_semaphore]
    split_ifs with hy
    · subst hy
      exact (h.entriesNodup y).append (List.nodup_singleton e) (by simpa using ho.notListed)
    · exact h.entriesNodup y
  · intro y
    rw [ho.cell_semaphore]
    split_ifs with hy
    · simp [h.size y]
    · exact h.size y
  · rw [queue_opened ho]
    exact h.queueNodup y
  · rw [queue_opened ho, (ho.others y).2.2]
    exact h.queueSize y

theorem queue_openFailed (hf : SemOpenFailed s s' p x d) (y : ℕ) : queue s' y = queue s y := by
  rw [queue, queue, hf.semaphore]

theorem waiter_openFailed (h : SemInv s) (hf : SemOpenFailed s s' p x d) {y v : ℕ}
    (hv : v ∈ queue s y) : waiter s' v = waiter s v := by
  have hl := h.queue_linked hv
  have hq := h.queued y v hv
  have hne : (s.sems.descriptorPtr.cell v).descriptor ≠ d := fun he => hf.fresh (he ▸ hl.inUse)
  have hu := hl.waitPtrInUse
  rw [hq.waitPtr] at hu
  rw [waiter, waiter, hf.cellPtr v hu, hf.cell _ hne]

/-- The descriptor that a failed open leaves behind is not linked to anything. -/
theorem openFailed (h : SemInv s) (hf : SemOpenFailed s s' p x d) : SemInv s' := by
  have hsem : s'.sems.semaphore = s.sems.semaphore := hf.semaphore
  have hq : ∀ y, queue s' y = queue s y := queue_openFailed hf
  have hold : ∀ k g, g ∈ (s.pcb k).semDescriptors.items →
      s'.sems.descriptor.cell g = s.sems.descriptor.cell g := fun k g hg =>
    hf.cell g fun he => hf.fresh (he ▸ (h.linked k g hg).inUse)
  refine ⟨?_, ?_, ?_, ?_, ?_, ?_, ?_, ?_, ?_, ?_, ?_, ?_⟩
  · rw [hf.list]
    exact h.nodup
  · rw [hf.list, hsem]
    exact h.inUse
  · rw [hf.list, hsem]
    exact h.ids
  · simpa only [hf.semDescriptors] using h.ownNodup
  · intro k g hg
    rw [hf.semDescriptors] at hg
    have hc := hold k g hg
    have hl := h.linked k g hg
    constructor <;> try rw [hc]
    · exact (hf.inUse g).mpr (Or.inl hl.inUse)
    · exact hl.owner
    · rw [hf.list]
      exact hl.listed
    · exact hf.inUsePtr _ hl.ptrInUse
    · exact hf.inUsePtr _ hl.waitPtrInUse
    · exact hl.differ
    · rw [hf.cellPtr _ hl.ptrInUse]
      exact hl.ptr
    · rw [hf.cellPtr _ hl.waitPtrInUse]
      exact hl.waitPtr
    · rw [hsem]
      exact hl.entry
  · intro k g hg g' hg' he
    rw [hf.semDescriptors] at hg hg'
    rw [hold k g hg, hold k g' hg'] at he
    exact h.unique k g hg g' hg' he
  · rw [hsem]
    exact h.entriesNodup
  · rw [hsem]
    exact h.size
  · intro y g hg
    rw [hsem] at hg
    have hen := h.entry y g hg
    have hc := hf.cellPtr g hen.inUse
    have hd : (s.sems.descriptorPtr.cell g).descriptor ≠ d := fun hd =>
      hf.fresh (hd ▸ hen.descInUse)
    constructor
    · exact hf.inUsePtr g hen.inUse
    · rw [hc]
      exact (hf.inUse _).mpr (Or.inl hen.descInUse)
    · rw [hc, hf.cell _ hd]
      exact hen.ptr
    · rw [hc, hf.cell _ hd]
      exact hen.semaphore
  · simpa only [hq] using h.queueNodup
  · intro y
    rw [hq, hsem]
    exact h.queueSize y
  · intro y v hv
    rw [hq] at hv
    have hv' := h.queued y v hv
    have hl := h.queue_linked hv
    have hw := hf.cellPtr v (hv'.waitPtr ▸ hl.waitPtrInUse)
    have hc := hold _ _ hv'.isOpen
    constructor
    · rw [h.waiter_openFailed hf hv, hw, hf.semDescriptors]
      exact hv'.isOpen
    · rw [hw, hc]
      exact hv'.waitPtr
    · rw [hw, hc]
      exact hv'.semaphore

/-- A new semaphore has neither descriptors nor a queue. -/
theorem created {st : Store Semaphore} {id value : ℤ} (h : SemInv s)
    (ha : Store.Allocated s.sems.semaphore st x
      (fun c => { c with id := id, count := value, descriptors := .init }))
    (hx : x ∉ s.sems.list.items)
    (hid : ∀ y ∈ s.sems.list.items, (s.sems.semaphore.cell y).id ≠ id) :
    SemInv (semCreated s x st) := by
  have hcell : ∀ y, (semCreated s x st).sems.semaphore.cell y = if y = x then
      { s.sems.semaphore.cell y with id := id, count := value, descriptors := .init }
      else s.sems.semaphore.cell y := fun y => ha.cell y
  have hold : ∀ y, y ∈ s.sems.list.items →
      (semCreated s x st).sems.semaphore.cell y = s.sems.semaphore.cell y := by
    intro y hy
    have hyx : y ≠ x := fun he => hx (he ▸ hy)
    rw [hcell, if_neg hyx]
  have hlist : ∀ y, y ∈ (semCreated s x st).sems.list.items ↔ y ∈ s.sems.list.items ∨ y = x := by
    intro y
    simp [semCreated]
  have hwd : ∀ y, ((semCreated s x st).sems.semaphore.cell y).waitingDescriptors =
      (s.sems.semaphore.cell y).waitingDescriptors := fun y => by
    rw [hcell]
    split_ifs <;> rfl
  have hq : ∀ y, queue (semCreated s x st) y = queue s y := fun y => by rw [queue, queue, hwd]
  refine ⟨?_, ?_, ?_, h.ownNodup, ?_, h.unique, ?_, ?_, ?_, ?_, ?_, ?_⟩
  · exact h.nodup.append (List.nodup_singleton x) (by simpa using hx)
  · intro y
    rw [hlist, h.inUse]
    exact (ha.inUse y).symm
  · intro y hy z hz he
    rcases (hlist y).mp hy with hy' | rfl <;> rcases (hlist z).mp hz with hz' | rfl
    · rw [hold y hy', hold z hz'] at he
      exact h.ids y hy' z hz' he
    · rw [hold y hy', hcell, if_pos rfl] at he
      exact absurd he (hid y hy')
    · rw [hold z hz', hcell, if_pos rfl] at he
      exact absurd he.symm (hid z hz')
    · rfl
  · intro k g hg
    have hl := h.linked k g hg
    refine ⟨hl.inUse, hl.owner, (hlist _).mpr (Or.inl hl.listed), hl.ptrInUse, hl.waitPtrInUse,
      hl.differ, hl.ptr, hl.waitPtr, ?_⟩
    have hc := hold _ hl.listed
    change _ ∈ ((semCreated s x st).sems.semaphore.cell
      (s.sems.descriptor.cell g).semaphore).descriptors.items
    rw [hc]
    exact hl.entry
  · intro y
    rw [hcell]
    split_ifs
    · exact List.nodup_nil
    · exact h.entriesNodup y
  · intro y
    rw [hcell]
    split_ifs
    · rfl
    · exact h.size y
  · intro y g hg
    rw [hcell] at hg
    split_ifs at hg
    · cases hg
    · obtain ⟨h1, h2, h3, h4⟩ := h.entry y g hg
      exact ⟨h1, h2, h3, h4⟩
  · intro y
    rw [hq]
    exact h.queueNodup y
  · intro y
    rw [hq, hwd]
    exact h.queueSize y
  · intro y v hv
    rw [hq] at hv
    obtain ⟨h1, h2, h3⟩ := h.queued y v hv
    exact ⟨h1, h2, h3⟩

/-! ### Closing -/

theorem closed_mem_own (h : SemInv s) (hc : SemClosed s s' p x d e w) {k f : ℕ} :
    f ∈ (s'.pcb k).semDescriptors.items ↔
      f ∈ (s.pcb k).semDescriptors.items ∧ ¬ (k = p ∧ f = d) := by
  rw [hc.semDescriptors]
  split_ifs with hk
  · subst hk
    rw [(h.ownNodup k).mem_erase_iff]
    tauto
  · simp [hk]

theorem closed_mem_list (h : SemInv s) (hc : SemClosed s s' p x d e w) {y : ℕ} :
    y ∈ s'.sems.list.items ↔
      y ∈ s.sems.list.items ∧ ((s.sems.semaphore.cell x).descriptors.size = 1 → y ≠ x) := by
  by_cases h1 : (s.sems.semaphore.cell x).descriptors.size = 1
  · rw [(hc.unlinked h1).2.1, h.nodup.mem_erase_iff]
    simp [h1, and_comm]
  · rw [(hc.kept h1).1]
    simp [h1]

theorem closed_mem_entries (h : SemInv s) (hc : SemClosed s s' p x d e w)
    (hx : (s.sems.descriptor.cell d).semaphore = x) (he : (s.sems.descriptor.cell d).ptr = e)
    {y g : ℕ} : g ∈ (s'.sems.semaphore.cell y).descriptors.items ↔
      g ∈ (s.sems.semaphore.cell y).descriptors.items ∧ g ≠ e := by
  rw [hc.cell]
  split_ifs with hy
  · rw [(h.entriesNodup y).mem_erase_iff, and_comm]
  · refine ⟨fun hg => ⟨hg, ?_⟩, fun hg => hg.1⟩
    rintro rfl
    have hs := (h.entry y g hg).semaphore
    rw [← he, (h.linked p d hc.isOpen).ptr, hx] at hs
    exact hy hs.symm

/-- The pointers of other descriptors stay in use. -/
theorem closed_ptrInUse (h : SemInv s) (hc : SemClosed s s' p x d e w)
    (he : (s.sems.descriptor.cell d).ptr = e) (hw : (s.sems.descriptor.cell d).waitPtr = w)
    {k : ℕ} (hk : s.sems.descriptorPtr.InUse k)
    (hkd : (s.sems.descriptorPtr.cell k).descriptor ≠ d) : s'.sems.descriptorPtr.InUse k := by
  have hd := h.linked p d hc.isOpen
  rw [hc.descriptorPtr, Store.free_inUse, Store.free_inUse]
  refine ⟨⟨hk, ?_⟩, ?_⟩
  · rintro rfl
    exact hkd (he ▸ hd.ptr)
  · rintro rfl
    exact hkd (hw ▸ hd.waitPtr)

theorem closed_linked (h : SemInv s) (hc : SemClosed s s' p x d e w)
    (hx : (s.sems.descriptor.cell d).semaphore = x) (he : (s.sems.descriptor.cell d).ptr = e)
    (hw : (s.sems.descriptor.cell d).waitPtr = w) {k f : ℕ}
    (hf : f ∈ (s'.pcb k).semDescriptors.items) : SemLinked s' k f := by
  obtain ⟨hf, hne⟩ := (h.closed_mem_own hc).mp hf
  have hd := h.linked p d hc.isOpen
  have hl := h.linked k f hf
  have hfd : f ≠ d := by
    rintro rfl
    exact hne ⟨hl.owner ▸ hd.owner, rfl⟩
  have hfe : (s.sems.descriptor.cell f).ptr ≠ e := fun hfe => hfd <| by
    rw [← hl.ptr, hfe, ← he, hd.ptr]
  constructor <;> try rw [hc.cell_descriptor]
  · rw [hc.descriptor, Store.free_inUse]
    exact ⟨hl.inUse, hfd⟩
  · exact hl.owner
  · refine (h.closed_mem_list hc).mpr ⟨hl.listed, fun h1 hs => hfe ?_⟩
    -- the entry of `f` would be the only one, which is `e`
    have hen := hl.entry
    rw [hs] at hen
    have hnil := (hc.unlinked h1).1
    by_contra hne
    have := (List.mem_erase_of_ne hne).mpr hen
    rw [hnil] at this
    cases this
  · exact h.closed_ptrInUse hc he hw hl.ptrInUse (by rw [hl.ptr]; exact hfd)
  · exact h.closed_ptrInUse hc he hw hl.waitPtrInUse (by rw [hl.waitPtr]; exact hfd)
  · exact hl.differ
  · rw [hc.cell_descriptorPtr]
    exact hl.ptr
  · rw [hc.cell_descriptorPtr]
    exact hl.waitPtr
  · exact (h.closed_mem_entries hc hx he).mpr ⟨hl.entry, hfe⟩

theorem closed_entry (h : SemInv s) (hc : SemClosed s s' p x d e w)
    (hx : (s.sems.descriptor.cell d).semaphore = x) (he : (s.sems.descriptor.cell d).ptr = e)
    (hw : (s.sems.descriptor.cell d).waitPtr = w) {y g : ℕ}
    (hg : g ∈ (s'.sems.semaphore.cell y).descriptors.items) : SemEntry s' y g := by
  obtain ⟨hg, hge⟩ := (h.closed_mem_entries hc hx he).mp hg
  have hen := h.entry y g hg
  have hgd : (s.sems.descriptorPtr.cell g).descriptor ≠ d := by
    intro hgd
    have := hen.ptr
    rw [hgd, he] at this
    exact hge this.symm
  constructor <;> try rw [hc.cell_descriptorPtr]
  · exact h.closed_ptrInUse hc he hw hen.inUse hgd
  · rw [hc.descriptor, Store.free_inUse]
    exact ⟨hen.descInUse, hgd⟩
  · rw [hc.cell_descriptor]
    exact hen.ptr
  · rw [hc.cell_descriptor]
    exact hen.semaphore

theorem queue_closed (hc : SemClosed s s' p x d e w) (y : ℕ) : queue s' y = queue s y := by
  rw [queue, queue, (hc.others y).2.2]

theorem waiter_closed (hc : SemClosed s s' p x d e w) (v : ℕ) : waiter s' v = waiter s v := by
  rw [waiter, waiter, hc.cell_descriptor, hc.cell_descriptorPtr]

theorem closed_queued (h : SemInv s) (hc : SemClosed s s' p x d e w)
    (hwaiter : ∀ y v, v ∈ queue s y → waiter s v ≠ p) {y v : ℕ} (hv : v ∈ queue s' y) :
    SemQueued s' y v := by
  rw [queue_closed hc] at hv
  have hv' := h.queued y v hv
  constructor
  · rw [waiter_closed hc, hc.cell_descriptorPtr]
    exact (h.closed_mem_own hc).mpr ⟨hv'.isOpen, fun hpd => hwaiter y v hv hpd.1⟩
  · rw [hc.cell_descriptorPtr, hc.cell_descriptor]
    exact hv'.waitPtr
  · rw [hc.cell_descriptorPtr, hc.cell_descriptor]
    exact hv'.semaphore

/-- A process that is not waiting closes a descriptor. -/
theorem closed (h : SemInv s) (hc : SemClosed s s' p x d e w)
    (hx : (s.sems.descriptor.cell d).semaphore = x) (he : (s.sems.descriptor.cell d).ptr = e)
    (hw : (s.sems.descriptor.cell d).waitPtr = w)
    (hwaiter : ∀ y v, v ∈ queue s y → waiter s v ≠ p) : SemInv s' := by
  refine ⟨?_, ?_, ?_, ?_, fun k f hf => h.closed_linked hc hx he hw hf, ?_, ?_, ?_,
    fun y g hg => h.closed_entry hc hx he hw hg, fun y => ?_, fun y => ?_,
    fun y v hv => h.closed_queued hc hwaiter hv⟩
  · by_cases h1 : (s.sems.semaphore.cell x).descriptors.size = 1
    · rw [(hc.unlinked h1).2.1]
      exact h.nodup.erase x
    · rw [(hc.kept h1).1]
      exact h.nodup
  · intro y
    rw [h.closed_mem_list hc, h.inUse]
    by_cases h1 : (s.sems.semaphore.cell x).descriptors.size = 1
    · rw [(hc.unlinked h1).2.2]
      simp [h1]
    · simp only [Store.InUse, (hc.kept h1).2]
      simp [h1]
  · intro y hy z hz
    rw [(hc.others y).1, (hc.others z).1]
    exact h.ids y ((h.closed_mem_list hc).mp hy).1 z ((h.closed_mem_list hc).mp hz).1
  · intro k
    rw [hc.semDescriptors]
    split_ifs
    · exact (h.ownNodup p).erase d
    · exact h.ownNodup k
  · intro k f hf g hg hfg
    rw [hc.cell_descriptor] at hfg
    exact h.unique k f ((h.closed_mem_own hc).mp hf).1 g ((h.closed_mem_own hc).mp hg).1 hfg
  · intro y
    rw [hc.cell]
    split_ifs
    · exact (h.entriesNodup y).erase e
    · exact h.entriesNodup y
  · intro y
    rw [hc.cell]
    split_ifs with hy
    · subst hy
      have hlen := List.length_erase_add_one hc.listed
      simp only [h.size y]
      omega
    · exact h.size y
  · rw [queue_closed hc]
    exact h.queueNodup y
  · rw [queue_closed hc, (hc.others y).2.2]
    exact h.queueSize y

/-! ### Waiting and posting -/

theorem queue_semSet {v : ℤ} {l : ListHead} (y : ℕ) :
    queue (semSet s x v l) y = if y = x then l.items else queue s y := by
  rw [queue, semSet_cell]
  split_ifs <;> rfl

/-- The count of `x` is any number and its queue is made of linked places. -/
theorem set {v : ℤ} {l : ListHead} (h : SemInv s) (hnd : l.items.Nodup)
    (hsize : l.size = l.items.length) (hl : ∀ w ∈ l.items, SemQueued s x w) :
    SemInv (semSet s x v l) := by
  have hid : ∀ y, ((semSet s x v l).sems.semaphore.cell y).id = (s.sems.semaphore.cell y).id :=
    fun y => by
      rw [semSet_cell]
      split_ifs <;> rfl
  have hdesc : ∀ y, ((semSet s x v l).sems.semaphore.cell y).descriptors =
      (s.sems.semaphore.cell y).descriptors := fun y => by
    rw [semSet_cell]
    split_ifs <;> rfl
  refine ⟨h.nodup, h.inUse, ?_, h.ownNodup, ?_, h.unique, ?_, ?_, ?_, ?_, ?_, ?_⟩
  · intro y hy z hz
    rw [hid, hid]
    exact h.ids y hy z hz
  · intro k f hf
    obtain ⟨h1, h2, h3, h4, h5, h6, h7, h8, h9⟩ := h.linked k f hf
    exact ⟨h1, h2, h3, h4, h5, h6, h7, h8, by rw [hdesc]; exact h9⟩
  · simpa only [hdesc] using h.entriesNodup
  · simpa only [hdesc] using h.size
  · intro y e he
    rw [hdesc] at he
    obtain ⟨h1, h2, h3, h4⟩ := h.entry y e he
    exact ⟨h1, h2, h3, h4⟩
  · intro y
    rw [queue_semSet]
    split_ifs
    · exact hnd
    · exact h.queueNodup y
  · intro y
    rw [queue_semSet, semSet_cell]
    split_ifs
    · exact hsize
    · exact h.queueSize y
  · intro y w hw
    rw [queue_semSet] at hw
    split_ifs at hw with hy
    · subst hy
      obtain ⟨h1, h2, h3⟩ := hl w hw
      exact ⟨h1, h2, h3⟩
    · obtain ⟨h1, h2, h3⟩ := h.queued y w hw
      exact ⟨h1, h2, h3⟩

theorem recount {v : ℤ} (h : SemInv s) :
    SemInv (semSet s x v (s.sems.semaphore.cell x).waitingDescriptors) :=
  h.set (h.queueNodup x) (h.queueSize x) (h.queued x)

theorem enqueue {v : ℤ} (h : SemInv s) (hd : d ∈ (s.pcb p).semDescriptors.items)
    (hx : (s.sems.descriptor.cell d).semaphore = x) (hw : (s.sems.descriptor.cell d).waitPtr = w)
    (hnot : w ∉ queue s x) : SemInv (semSet s x v
      ⟨queue s x ++ [w], (s.sems.semaphore.cell x).waitingDescriptors.size + 1⟩) := by
  have hl := h.linked p d hd
  have hwd : (s.sems.descriptorPtr.cell w).descriptor = d := hw ▸ hl.waitPtr
  refine h.set ?_ ?_ fun v hv => ?_
  · exact (h.queueNodup x).append (List.nodup_singleton w) (by simpa using hnot)
  · simp [h.queueSize x]
  · rcases List.mem_append.mp hv with hv | hv
    · exact h.queued x v hv
    · obtain rfl := List.mem_singleton.mp hv
      constructor
      · rw [waiter, hwd, hl.owner]
        exact hd
      · rw [hwd, hw]
      · rw [hwd, hx]

theorem dequeue {v : ℤ} (h : SemInv s) (hw : w ∈ queue s x) : SemInv (semSet s x v
    ⟨(queue s x).erase w, (s.sems.semaphore.cell x).waitingDescriptors.size - 1⟩) := by
  refine h.set ((h.queueNodup x).erase w) ?_ fun v hv => ?_
  · have := List.length_erase_add_one hw
    simp only [h.queueSize x]
    omega
  · exact h.queued x v (List.mem_of_mem_erase hv)

/-! ### New processes -/

/-- A new process has nothing open, and nobody that waits is new. -/
theorem newProcess (h : SemInv s) (hc : NewProcess s s' b)
    (hwaiter : ∀ y v, v ∈ queue s y → waiter s v ≠ b) : SemInv s' := by
  have hown := hc.semDescriptors
  have hmem : ∀ k f, f ∈ (s'.pcb k).semDescriptors.items → f ∈ (s.pcb k).semDescriptors.items := by
    intro k f hf
    rw [hown] at hf
    split_ifs at hf
    · cases hf
    · exact hf
  have hq : ∀ x, queue s' x = queue s x := fun x => by rw [queue, queue, hc.sems]
  have hwt : ∀ w, waiter s' w = waiter s w := fun w => by rw [waiter, waiter, hc.sems]
  refine ⟨?_, ?_, ?_, ?_, ?_, ?_, ?_, ?_, ?_, ?_, ?_, ?_⟩
  · rw [hc.sems]; exact h.nodup
  · rw [hc.sems]; exact h.inUse
  · rw [hc.sems]; exact h.ids
  · intro k
    rw [hown]
    split_ifs
    · exact List.nodup_nil
    · exact h.ownNodup k
  · intro k f hf
    obtain ⟨h1, h2, h3, h4, h5, h6, h7, h8, h9⟩ := h.linked k f (hmem k f hf)
    constructor <;> rw [hc.sems] <;> assumption
  · intro k f hf g hg he
    rw [hc.sems] at he
    exact h.unique k f (hmem k f hf) g (hmem k g hg) he
  · rw [hc.sems]; exact h.entriesNodup
  · rw [hc.sems]; exact h.size
  · intro x e he
    rw [hc.sems] at he
    obtain ⟨h1, h2, h3, h4⟩ := h.entry x e he
    constructor <;> rw [hc.sems] <;> assumption
  · simpa only [hq] using h.queueNodup
  · intro x
    rw [hq, hc.sems]
    exact h.queueSize x
  · intro x w hw
    rw [hq] at hw
    obtain ⟨h1, h2, h3⟩ := h.queued x w hw
    constructor
    · rw [hwt, hown, if_neg (hwaiter x w hw), hc.sems]
      exact h1
    · rw [hc.sems]; exact h2
    · rw [hc.sems]; exact h3

end SemInv
end DisastrOS
