import DisastrOS.Outcome
import DisastrOS.Frame

/-! What the system calls on semaphores have done when they return. -/
namespace DisastrOS
open BlockPool

variable {s s' : Kernel} {p q b d e w x : ℕ} {fd id value : ℤ}

/-! ### Open -/

theorem semaphoreAlloc_ok {t t' : SemTable} (h : semaphoreAlloc t id value = some (x, t')) :
    ∃ st, Store.Allocated t.semaphore st x
        (fun c => { c with id := id, count := value, descriptors := .init }) ∧
      t' = { t with semaphore := st } := by
  unfold semaphoreAlloc at h
  split at h
  · cases h
  · rename_i y st ha
    obtain ⟨rfl, rfl⟩ := Prod.mk.inj (Option.some.inj h)
    exact ⟨st, Store.alloc_eq_some ha, rfl⟩

theorem semDescriptorAlloc_ok {t t' : SemTable} (h : semDescriptorAlloc t fd x p = some (d, t')) :
    ∃ st, Store.Allocated t.descriptor st d
        (fun c => { c with fd := fd, semaphore := x, pcb := p }) ∧
      t' = { t with descriptor := st } := by
  unfold semDescriptorAlloc at h
  split at h
  · cases h
  · rename_i y st ha
    obtain ⟨rfl, rfl⟩ := Prod.mk.inj (Option.some.inj h)
    exact ⟨st, Store.alloc_eq_some ha, rfl⟩

theorem semDescriptorPtrAlloc_ok {t t' : SemTable} (h : semDescriptorPtrAlloc t d = some (e, t')) :
    ∃ st, Store.Allocated t.descriptorPtr st e (fun _ => ⟨d⟩) ∧
      t' = { t with descriptorPtr := st } := by
  unfold semDescriptorPtrAlloc at h
  split at h
  · cases h
  · rename_i y st ha
    obtain ⟨rfl, rfl⟩ := Prod.mk.inj (Option.some.inj h)
    exact ⟨st, Store.alloc_eq_some ha, rfl⟩

theorem semaphoreAlloc_eq_none {t : SemTable} (h : semaphoreAlloc t id value = none) :
    t.semaphore.pool.free = [] := by
  unfold semaphoreAlloc at h
  split at h
  · exact Store.alloc_eq_none.mp ‹_›
  · cases h

theorem semDescriptorAlloc_eq_none {t : SemTable} (h : semDescriptorAlloc t fd x p = none) :
    t.descriptor.pool.free = [] := by
  unfold semDescriptorAlloc at h
  split at h
  · exact Store.alloc_eq_none.mp ‹_›
  · cases h

theorem semDescriptorPtrAlloc_eq_none {t : SemTable} (h : semDescriptorPtrAlloc t d = none) :
    t.descriptorPtr.pool.free = [] := by
  unfold semDescriptorPtrAlloc at h
  split at h
  · exact Store.alloc_eq_none.mp ‹_›
  · cases h

/-- The pools of semaphores, descriptors and pointers are as large as they were. -/
structure SameSizes (t t' : SemTable) : Prop where
  semaphore : t'.semaphore.pool.sizeMax = t.semaphore.pool.sizeMax
  descriptor : t'.descriptor.pool.sizeMax = t.descriptor.pool.sizeMax
  descriptorPtr : t'.descriptorPtr.pool.sizeMax = t.descriptorPtr.pool.sizeMax

/-- What a successful open of the listed semaphore `x` by `p` does. -/
structure SemOpened (s s' : Kernel) (p x d e w : ℕ) : Prop where
  processes : SameProcesses s s'
  resources : SameResources s s'
  fresh : ¬ s.sems.descriptor.InUse d
  inUse : ∀ k, s'.sems.descriptor.InUse k ↔ s.sems.descriptor.InUse k ∨ k = d
  cell : ∀ k, s'.sems.descriptor.cell k =
    if k = d then ⟨p, x, (s.pcb p).lastSemFd, e, w⟩ else s.sems.descriptor.cell k
  freshPtr : ¬ s.sems.descriptorPtr.InUse e
  freshWaitPtr : ¬ s.sems.descriptorPtr.InUse w
  differ : w ≠ e
  inUsePtr : ∀ k, s'.sems.descriptorPtr.InUse k ↔ s.sems.descriptorPtr.InUse k ∨ k = e ∨ k = w
  cellPtr : ∀ k, s'.sems.descriptorPtr.cell k =
    if k = e ∨ k = w then ⟨d⟩ else s.sems.descriptorPtr.cell k
  list : s'.sems.list = s.sems.list
  semaphore : s'.sems.semaphore = s.sems.semaphore.modify x fun c => { c with
    descriptors := ⟨c.descriptors.items ++ [e], c.descriptors.size + 1⟩ }
  notOpen : d ∉ (s.pcb p).semDescriptors.items
  notListed : e ∉ (s.sems.semaphore.cell x).descriptors.items
  free : s.sems.descriptor.pool.free = d :: s'.sems.descriptor.pool.free
  freePtr : s.sems.descriptorPtr.pool.free = e :: w :: s'.sems.descriptorPtr.pool.free
  sizes : SameSizes s.sems s'.sems
  lastSemFd : ∀ k, (s'.pcb k).lastSemFd =
    if k = p then toInt ((s.pcb p).lastSemFd + 1) else (s.pcb k).lastSemFd
  semDescriptors : ∀ k, (s'.pcb k).semDescriptors =
    if k = p then ⟨(s.pcb p).semDescriptors.items ++ [d], (s.pcb p).semDescriptors.size + 1⟩
    else (s.pcb k).semDescriptors
  retvalue : ∀ k, (s'.pcb k).syscallRetvalue =
    if k = p then (s.pcb p).lastSemFd else (s.pcb k).syscallRetvalue
  trace : s'.trace = .assigned p (s.pcb p).lastSemFd :: s.trace

namespace SemOpened

theorem items (h : SemOpened s s' p x d e w) :
    (s'.pcb p).semDescriptors.items = (s.pcb p).semDescriptors.items ++ [d] := by
  rw [h.semDescriptors, if_pos rfl]

theorem cell_new (h : SemOpened s s' p x d e w) :
    s'.sems.descriptor.cell d = ⟨p, x, (s.pcb p).lastSemFd, e, w⟩ := by
  rw [h.cell, if_pos rfl]

theorem cell_old {k : ℕ} (h : SemOpened s s' p x d e w) (hk : s.sems.descriptor.InUse k) :
    s'.sems.descriptor.cell k = s.sems.descriptor.cell k := by
  have hkd : k ≠ d := fun he => h.fresh (he ▸ hk)
  rw [h.cell, if_neg hkd]

theorem mem_own {k f : ℕ} (h : SemOpened s s' p x d e w) :
    f ∈ (s'.pcb k).semDescriptors.items ↔
      f ∈ (s.pcb k).semDescriptors.items ∨ k = p ∧ f = d := by
  rw [h.semDescriptors]
  by_cases hk : k = p <;> simp [hk]

theorem cell_semaphore (h : SemOpened s s' p x d e w) (y : ℕ) : s'.sems.semaphore.cell y =
    if y = x then { s.sems.semaphore.cell y with descriptors :=
      ⟨(s.sems.semaphore.cell y).descriptors.items ++ [e],
        (s.sems.semaphore.cell y).descriptors.size + 1⟩ }
    else s.sems.semaphore.cell y := by
  rw [h.semaphore, Store.modify_cell]

/-- An open leaves the id, the count and the queue of every semaphore as they are. -/
theorem others (h : SemOpened s s' p x d e w) (y : ℕ) :
    (s'.sems.semaphore.cell y).id = (s.sems.semaphore.cell y).id ∧
      (s'.sems.semaphore.cell y).count = (s.sems.semaphore.cell y).count ∧
      (s'.sems.semaphore.cell y).waitingDescriptors =
        (s.sems.semaphore.cell y).waitingDescriptors := by
  rw [h.cell_semaphore]
  split_ifs <;> exact ⟨rfl, rfl, rfl⟩

theorem mem_entries {y f : ℕ} (h : SemOpened s s' p x d e w) :
    f ∈ (s'.sems.semaphore.cell y).descriptors.items ↔
      f ∈ (s.sems.semaphore.cell y).descriptors.items ∨ y = x ∧ f = e := by
  rw [h.cell_semaphore]
  by_cases hy : y = x <;> simp [hy]

end SemOpened

/-- What an open does whose descriptor cannot be reached: no pointer to it is left, or only
one. -/
structure SemOpenFailed (s s' : Kernel) (p x d : ℕ) : Prop where
  processes : SameProcesses s s'
  resources : SameResources s s'
  fresh : ¬ s.sems.descriptor.InUse d
  inUse : ∀ k, s'.sems.descriptor.InUse k ↔ s.sems.descriptor.InUse k ∨ k = d
  cell : ∀ k, k ≠ d → s'.sems.descriptor.cell k = s.sems.descriptor.cell k
  owner : (s'.sems.descriptor.cell d).pcb = p ∧ (s'.sems.descriptor.cell d).semaphore = x
  free : s.sems.descriptor.pool.free = d :: s'.sems.descriptor.pool.free
  noRoom : s.sems.descriptorPtr.pool.free.length < 2
  sizes : SameSizes s.sems s'.sems
  inUsePtr : ∀ k, s.sems.descriptorPtr.InUse k → s'.sems.descriptorPtr.InUse k
  cellPtr : ∀ k, s.sems.descriptorPtr.InUse k →
    s'.sems.descriptorPtr.cell k = s.sems.descriptorPtr.cell k
  list : s'.sems.list = s.sems.list
  semaphore : s'.sems.semaphore = s.sems.semaphore
  lastSemFd : ∀ k, (s'.pcb k).lastSemFd =
    if k = p then toInt ((s.pcb p).lastSemFd + 1) else (s.pcb k).lastSemFd
  semDescriptors : ∀ k, (s'.pcb k).semDescriptors = (s.pcb k).semDescriptors
  retvalue : ∀ k, (s'.pcb k).syscallRetvalue =
    if k = p then dsosEcreateptr else (s.pcb k).syscallRetvalue
  trace : s'.trace = .assigned p dsosEcreateptr :: s.trace

theorem semOpenDescriptor_ok (h : semOpenDescriptor s p x = .ok s') :
    s.sems.descriptor.pool.free = [] ∧ s' = s.setRetvalue p dsosEcreatefd ∨
      (∃ d, SemOpenFailed s s' p x d) ∨ ∃ d e w, SemOpened s s' p x d e w := by
  unfold semOpenDescriptor at h
  split at h
  · rename_i hn
    exact Or.inl ⟨semDescriptorAlloc_eq_none hn, (Except.ok.inj h).symm⟩
  rename_i d t hdt
  obtain ⟨st, hd, rfl⟩ := semDescriptorAlloc_ok hdt
  simp only at h
  split at h
  · rename_i hn
    right; left
    obtain rfl := Except.ok.inj h
    refine ⟨d, ?_⟩
    constructor
    case processes => constructor <;> intros <;> simp
    case resources => constructor <;> intros <;> simp
    case fresh => exact hd.fresh
    case inUse => exact hd.inUse
    case cell =>
      intro k hk
      simp [hd.cell, hk]
    case owner => simp [hd.cell]
    case free => exact hd.free
    case noRoom =>
      have hf := semDescriptorPtrAlloc_eq_none hn
      simp only [Kernel.modPcb_sems, Kernel.setSems_sems] at hf
      simp [hf]
    case sizes => exact ⟨rfl, hd.sizeMax, rfl⟩
    case lastSemFd | retvalue =>
      intro k
      by_cases hk : k = p
      · subst hk
        simp
      · simp [hk]
    all_goals simp
  rename_i e t het
  obtain ⟨pt, he, rfl⟩ := semDescriptorPtrAlloc_ok het
  simp only at h
  split at h
  · rename_i hn
    right; left
    obtain rfl := Except.ok.inj h
    refine ⟨d, ?_⟩
    constructor
    case processes => constructor <;> intros <;> simp
    case resources => constructor <;> intros <;> simp
    case fresh => exact hd.fresh
    case inUse => exact hd.inUse
    case cell =>
      intro k hk
      simp [hd.cell, hk]
    case owner => simp [hd.cell]
    case free => exact hd.free
    case noRoom =>
      have hf : pt.pool.free = [] := semDescriptorPtrAlloc_eq_none hn
      have hf' : s.sems.descriptorPtr.pool.free = e :: pt.pool.free := he.free
      simp [hf', hf]
    case sizes => exact ⟨rfl, hd.sizeMax, he.sizeMax⟩
    case inUsePtr =>
      intro k hk
      exact (he.inUse k).mpr (Or.inl hk)
    case cellPtr =>
      intro k hk
      have hke : k ≠ e := fun hke => he.fresh (hke ▸ hk)
      simp [he.cell, hke]
    case lastSemFd | retvalue =>
      intro k
      by_cases hk : k = p
      · subst hk
        simp
      · simp [hk]
    all_goals simp
  rename_i w t hwt
  obtain ⟨pt', hw, rfl⟩ := semDescriptorPtrAlloc_ok hwt
  simp only [bind_ok, listInsert_last_ok, Except.ok.injEq] at h
  obtain ⟨_, ⟨hdp, rfl⟩, _, ⟨hex, rfl⟩, rfl⟩ := h
  right; right
  refine ⟨d, e, w, ?_⟩
  have hwe : w ≠ e := fun hwe => hw.fresh ((he.inUse w).mpr (Or.inr hwe))
  constructor
  case processes => constructor <;> intros <;> simp
  case resources => constructor <;> intros <;> simp
  case fresh => exact hd.fresh
  case inUse => exact hd.inUse
  case cell =>
    intro k
    by_cases hk : k = d
    · subst hk
      simp [hd.cell]
    · simp [hd.cell, hk]
  case freshPtr => exact he.fresh
  case freshWaitPtr => exact fun hu => hw.fresh ((he.inUse w).mpr (Or.inl hu))
  case differ => exact hwe
  case inUsePtr =>
    intro k
    simpa [or_assoc] using (hw.inUse k).trans (or_congr_left (he.inUse k))
  case cellPtr =>
    intro k
    by_cases hkw : k = w
    · simp [hw.cell, hkw]
    · simp [hw.cell, he.cell, hkw]
  case notOpen => simpa using hdp
  case notListed => simpa using hex
  case free => exact hd.free
  case freePtr =>
    have hf : pt.pool.free = w :: pt'.pool.free := hw.free
    have hf' : s.sems.descriptorPtr.pool.free = e :: pt.pool.free := he.free
    rw [hf', hf]
    rfl
  case sizes => exact ⟨rfl, hd.sizeMax, hw.sizeMax.trans he.sizeMax⟩
  case lastSemFd | retvalue =>
    intro k
    by_cases hk : k = p
    · subst hk
      simp [hd.cell]
    · simp [hk]
  case semDescriptors =>
    intro k
    by_cases hk : k = p
    · subst hk
      simp
    · simp [hk]
  case trace => simp [hd.cell]
  case semaphore =>
    simp only [Kernel.setRetvalue, Kernel.setSems_sems, Kernel.modPcb_sems, Kernel.emit_sems]
    exact Store.modify_congr rfl
  all_goals simp

/-- The new semaphore `x` is in the list of semaphores. -/
def semCreated (s : Kernel) (x : ℕ) (st : Store Semaphore) : Kernel :=
  s.setSems { s.sems with
    semaphore := st
    list := ⟨s.sems.list.items ++ [x], s.sems.list.size + 1⟩ }

theorem internalSemOpen_ok (h : internalSemOpen s = .ok s') : ∃ p, s.running = some p ∧
    ((∃ d, mySearch s.sems (s.pcb p).semDescriptors (toInt ((s.pcb p).syscallArgs 0)) = some d ∧
        s' = s.setRetvalue p (s.sems.descriptor.cell d).fd) ∨
      mySearch s.sems (s.pcb p).semDescriptors (toInt ((s.pcb p).syscallArgs 0)) = none ∧
        ((∃ x, semaphoreListById s.sems (toInt ((s.pcb p).syscallArgs 0)) = some x ∧
          semOpenDescriptor s p x = .ok s') ∨
        semaphoreListById s.sems (toInt ((s.pcb p).syscallArgs 0)) = none ∧
          (s.sems.semaphore.pool.free = [] ∧ s' = s.setRetvalue p dsosEcreatesem ∨
          ∃ x st, Store.Allocated s.sems.semaphore st x (fun c => { c with
              id := toInt ((s.pcb p).syscallArgs 0)
              count := toInt ((s.pcb p).syscallArgs 1)
              descriptors := .init }) ∧
            x ∉ s.sems.list.items ∧ semOpenDescriptor (semCreated s x st) p x = .ok s'))) := by
  obtain ⟨p, hp, h⟩ := bind_ok.mp h
  refine ⟨p, deref_ok.mp hp, ?_⟩
  simp only at h
  split at h
  · rename_i d hd
    exact Or.inl ⟨d, hd, (Except.ok.inj h).symm⟩
  rename_i hnone
  refine Or.inr ⟨hnone, ?_⟩
  split at h
  · rename_i x hx
    exact Or.inl ⟨x, hx, h⟩
  rename_i hid
  refine Or.inr ⟨hid, ?_⟩
  split at h
  · rename_i hn
    exact Or.inl ⟨semaphoreAlloc_eq_none hn, (Except.ok.inj h).symm⟩
  · rename_i x t ht
    obtain ⟨st, hst, rfl⟩ := semaphoreAlloc_ok ht
    simp only [bind_ok, listInsert_last_ok] at h
    obtain ⟨_, ⟨hx, rfl⟩, h⟩ := h
    exact Or.inr ⟨x, st, hst, hx, h⟩

theorem semOpenDescriptor_frame (h : semOpenDescriptor s p x = .ok s') :
    SameProcesses s s' ∧ SameResources s s' := by
  rcases semOpenDescriptor_ok h with ⟨-, rfl⟩ | ⟨d, hf⟩ | ⟨d, e, w, ho⟩
  · exact ⟨.setRetvalue s p _, .setRetvalue s p _⟩
  · exact ⟨hf.processes, hf.resources⟩
  · exact ⟨ho.processes, ho.resources⟩

theorem internalSemOpen_frame (h : internalSemOpen s = .ok s') :
    SameProcesses s s' ∧ SameResources s s' := by
  obtain ⟨p, -, ⟨d, -, rfl⟩ | ⟨-, ⟨x, -, h⟩ | ⟨-, ⟨-, rfl⟩ | ⟨x, st, -, -, h⟩⟩⟩⟩ :=
    internalSemOpen_ok h
  · exact ⟨.setRetvalue s p _, .setRetvalue s p _⟩
  · exact semOpenDescriptor_frame h
  · exact ⟨.setRetvalue s p _, .setRetvalue s p _⟩
  · obtain ⟨h1, h2⟩ := semOpenDescriptor_frame h
    exact ⟨(SameProcesses.setSems s _).trans h1, (SameResources.setSems s _).trans h2⟩

/-! ### Close -/

/-- What a close of the descriptor `d` of `p` does that returns 0: the semaphore `x` goes with
its last descriptor. -/
structure SemClosed (s s' : Kernel) (p x d e w : ℕ) : Prop where
  processes : SameProcesses s s'
  resources : SameResources s s'
  descriptor : s'.sems.descriptor = (s.sems.descriptor.free d).2
  descriptorPtr : s'.sems.descriptorPtr = ((s.sems.descriptorPtr.free e).2.free w).2
  isOpen : d ∈ (s.pcb p).semDescriptors.items
  listed : e ∈ (s.sems.semaphore.cell x).descriptors.items
  cell : ∀ k, s'.sems.semaphore.cell k = if k = x then
    { s.sems.semaphore.cell k with descriptors :=
      ⟨(s.sems.semaphore.cell k).descriptors.items.erase e,
        (s.sems.semaphore.cell k).descriptors.size - 1⟩ }
    else s.sems.semaphore.cell k
  unlinked : (s.sems.semaphore.cell x).descriptors.size = 1 →
    (s.sems.semaphore.cell x).descriptors.items.erase e = [] ∧
    s'.sems.list = ⟨s.sems.list.items.erase x, s.sems.list.size - 1⟩ ∧
    ∀ k, s'.sems.semaphore.InUse k ↔ s.sems.semaphore.InUse k ∧ k ≠ x
  released : (s.sems.semaphore.cell x).descriptors.size = 1 →
    s'.sems.semaphore.pool = (s.sems.semaphore.free x).2.pool
  kept : (s.sems.semaphore.cell x).descriptors.size ≠ 1 →
    s'.sems.list = s.sems.list ∧ s'.sems.semaphore.pool = s.sems.semaphore.pool
  lastSemFd : ∀ k, (s'.pcb k).lastSemFd = (s.pcb k).lastSemFd
  semDescriptors : ∀ k, (s'.pcb k).semDescriptors =
    if k = p then ⟨(s.pcb p).semDescriptors.items.erase d, (s.pcb p).semDescriptors.size - 1⟩
    else (s.pcb k).semDescriptors
  retvalue : ∀ k, (s'.pcb k).syscallRetvalue =
    if k = p then 0 else (s.pcb k).syscallRetvalue
  trace : s'.trace = .assigned p 0 :: s.trace

namespace SemClosed

@[simp] theorem cell_descriptor (h : SemClosed s s' p x d e w) :
    s'.sems.descriptor.cell = s.sems.descriptor.cell := by
  rw [h.descriptor, Store.free_cell]

@[simp] theorem cell_descriptorPtr (h : SemClosed s s' p x d e w) :
    s'.sems.descriptorPtr.cell = s.sems.descriptorPtr.cell := by
  rw [h.descriptorPtr, Store.free_cell, Store.free_cell]

/-- A close leaves the id, the count and the queue of every semaphore as they are. -/
theorem others (h : SemClosed s s' p x d e w) (y : ℕ) :
    (s'.sems.semaphore.cell y).id = (s.sems.semaphore.cell y).id ∧
      (s'.sems.semaphore.cell y).count = (s.sems.semaphore.cell y).count ∧
      (s'.sems.semaphore.cell y).waitingDescriptors =
        (s.sems.semaphore.cell y).waitingDescriptors := by
  rw [h.cell]
  split_ifs <;> exact ⟨rfl, rfl, rfl⟩

end SemClosed

theorem releaseCode_eq_zero {r : Pool.Release} : releaseCode r = 0 ↔ r = .success := by
  cases r <;> simp [releaseCode]

theorem semCloseUnlink_ok (h : semCloseUnlink s p x = .ok s') :
    ((s.sems.semaphore.cell x).descriptors.size = 0 ∧ x ∈ s.sems.list.items ∧
      (s.sems.semaphore.cell x).descriptors.items = [] ∧
      s' = (s.setSems { s.sems with
        list := ⟨s.sems.list.items.erase x, s.sems.list.size - 1⟩
        semaphore := (s.sems.semaphore.free x).2 }).setRetvalue p
          (releaseCode (s.sems.semaphore.free x).1)) ∨
    (s.sems.semaphore.cell x).descriptors.size ≠ 0 ∧ s' = s.setRetvalue p 0 := by
  unfold semCloseUnlink at h
  simp only at h
  split_ifs at h with hz
  · simp only [bind_ok, listDetach_ok] at h
    obtain ⟨_, ⟨hx, rfl⟩, ⟨ret, t⟩, hfree, h⟩ := h
    unfold semaphoreFree at hfree
    split_ifs at hfree with hi
    obtain ⟨rfl, rfl⟩ := Prod.mk.inj (Except.ok.inj hfree)
    exact Or.inl ⟨hz, hx, hi, (Except.ok.inj h).symm⟩
  · exact Or.inr ⟨hz, (Except.ok.inj h).symm⟩

/-- The state before the test on the number of descriptors of `x`. -/
def semReleased (s : Kernel) (p x d e w : ℕ) : Kernel :=
  (s.modPcb p fun c => { c with
      semDescriptors := ⟨c.semDescriptors.items.erase d, c.semDescriptors.size - 1⟩ }).setSems
    { s.sems with
      descriptor := (s.sems.descriptor.free d).2
      descriptorPtr := ((s.sems.descriptorPtr.free e).2.free w).2
      semaphore := s.sems.semaphore.modify x fun c => { c with
        descriptors := ⟨c.descriptors.items.erase e, c.descriptors.size - 1⟩ } }

theorem internalSemClose_ok (h : internalSemClose s = .ok s') : ∃ p, s.running = some p ∧
    ((semDescriptorListByFd s.sems (s.pcb p).semDescriptors (toInt ((s.pcb p).syscallArgs 0)) =
        none ∧ s' = s.setRetvalue p dsosEnotmysem) ∨
      ∃ d x e w, semDescriptorListByFd s.sems (s.pcb p).semDescriptors
          (toInt ((s.pcb p).syscallArgs 0)) = some d ∧
        (s.sems.descriptor.cell d).semaphore = x ∧ (s.sems.descriptor.cell d).ptr = e ∧
        (s.sems.descriptor.cell d).waitPtr = w ∧
        (s.sems.descriptor.InUse d → s.sems.descriptorPtr.InUse e →
          s.sems.descriptorPtr.InUse w → w ≠ e → s.sems.semaphore.InUse x →
          SemClosed s s' p x d e w)) := by
  obtain ⟨p, hp, h⟩ := bind_ok.mp h
  refine ⟨p, deref_ok.mp hp, ?_⟩
  simp only at h
  split at h
  · rename_i hnone
    exact Or.inl ⟨hnone, (Except.ok.inj h).symm⟩
  rename_i d hd
  refine Or.inr ⟨d, _, _, _, hd, rfl, rfl, rfl, fun hud hue huw hwe hux => ?_⟩
  generalize hx : (s.sems.descriptor.cell d).semaphore = x at *
  generalize he : (s.sems.descriptor.cell d).ptr = e at *
  generalize hw : (s.sems.descriptor.cell d).waitPtr = w at *
  have hret : releaseCode (s.sems.descriptor.free d).1 = 0 :=
    releaseCode_eq_zero.mpr (Store.free_eq_success.mpr hud)
  have hrete : releaseCode (s.sems.descriptorPtr.free e).1 = 0 :=
    releaseCode_eq_zero.mpr (Store.free_eq_success.mpr hue)
  have hretw : releaseCode ((s.sems.descriptorPtr.free e).2.free w).1 = 0 :=
    releaseCode_eq_zero.mpr (Store.free_eq_success.mpr (by simpa using ⟨huw, hwe⟩))
  simp only [bind_ok, listDetach_ok, semDescriptorFree, semDescriptorPtrFree, hret, ne_eq,
    not_true, if_false, Kernel.setSems_sems, Kernel.modPcb_sems, hrete, hretw] at h
  obtain ⟨_, ⟨hdp, rfl⟩, _, ⟨hex, rfl⟩, h⟩ := h
  have hrel : semCloseUnlink (semReleased s p x d e w) p x = .ok s' := by
    convert h using 2
    refine Kernel.eq_of_pcb ?_ rfl fun k => ?_
    · simp only [semReleased, Kernel.setSems, Kernel.modPcb]
      congr 2
      exact Store.modify_congr rfl
    · by_cases hk : k = p
      · subst hk
        simp [semReleased]
      · simp [semReleased, hk]
  have hsize : (((semReleased s p x d e w).sems.semaphore.cell x).descriptors) =
      ⟨(s.sems.semaphore.cell x).descriptors.items.erase e,
        (s.sems.semaphore.cell x).descriptors.size - 1⟩ := by
    simp [semReleased]
  have hlist : (semReleased s p x d e w).sems.list = s.sems.list := rfl
  rcases semCloseUnlink_ok hrel with ⟨hz, hxl, hi, rfl⟩ | ⟨hz, rfl⟩
  · rw [hsize] at hz hi
    have hretx : releaseCode ((semReleased s p x d e w).sems.semaphore.free x).1 = 0 :=
      releaseCode_eq_zero.mpr (Store.free_eq_success.mpr hux)
    rw [hretx]
    constructor
    case processes => constructor <;> intros <;> simp [semReleased]
    case resources => constructor <;> intros <;> simp [semReleased]
    case isOpen => simpa using hdp
    case listed => simpa using hex
    case unlinked =>
      intro _
      refine ⟨hi, by simp [hlist], fun k => ?_⟩
      simp [semReleased]
    case released => exact fun _ => rfl
    case kept =>
      intro h1
      simp only at hz
      omega
    case semDescriptors | retvalue =>
      intro k
      by_cases hk : k = p
      · subst hk
        simp [semReleased]
      · simp [semReleased, hk]
    all_goals simp [semReleased]
  · rw [hsize] at hz
    constructor
    case processes => constructor <;> intros <;> simp [semReleased]
    case resources => constructor <;> intros <;> simp [semReleased]
    case isOpen => simpa using hdp
    case listed => simpa using hex
    case unlinked | released =>
      intro h1
      simp only at hz
      omega
    case kept => exact fun _ => ⟨rfl, rfl⟩
    case semDescriptors | retvalue =>
      intro k
      by_cases hk : k = p
      · subst hk
        simp [semReleased]
      · simp [semReleased, hk]
    all_goals simp [semReleased]

/-- However a close ends, it changes the descriptors of its caller, the table of semaphores
and the value that it returns. -/
theorem internalSemClose_shape (h : internalSemClose s = .ok s') : ∃ p,
    s.running = some p ∧ ((∃ v, s' = s.setRetvalue p v) ∨ ∃ l t v,
      s' = ((s.modPcb p fun c => { c with semDescriptors := l }).setSems t).setRetvalue p v) := by
  obtain ⟨p, hp, h⟩ := bind_ok.mp h
  refine ⟨p, deref_ok.mp hp, ?_⟩
  simp only at h
  split at h
  · exact Or.inl ⟨_, (Except.ok.inj h).symm⟩
  right
  simp only [bind_ok, listDetach_ok] at h
  obtain ⟨l, -, h⟩ := h
  split_ifs at h with h1
  · exact ⟨l, _, _, (Except.ok.inj h).symm⟩
  simp only [bind_ok, listDetach_ok] at h
  obtain ⟨_, -, h⟩ := h
  split_ifs at h with h2 h3
  · exact ⟨l, _, _, (Except.ok.inj h).symm⟩
  · exact ⟨l, _, _, (Except.ok.inj h).symm⟩
  rcases semCloseUnlink_ok h with ⟨-, -, -, rfl⟩ | ⟨-, rfl⟩
  · exact ⟨l, _, _, rfl⟩
  · exact ⟨l, _, _, rfl⟩

theorem internalSemClose_frame (h : internalSemClose s = .ok s') :
    SameProcesses s s' ∧ SameResources s s' := by
  obtain ⟨p, -, ⟨v, rfl⟩ | ⟨l, t, v, rfl⟩⟩ := internalSemClose_shape h
  · exact ⟨.setRetvalue s p v, .setRetvalue s p v⟩
  · constructor <;> constructor <;> intros <;> simp

/-! ### Wait and post -/

/-- The count of `x` is `value` and its queue is `queue`. -/
def semSet (s : Kernel) (x : ℕ) (value : ℤ) (queue : ListHead) : Kernel :=
  s.setSems { s.sems with
    semaphore := s.sems.semaphore.modify x fun c => { c with
      count := value
      waitingDescriptors := queue } }

theorem semSet_eq (s : Kernel) (x : ℕ) (f : Semaphore → Semaphore) (value : ℤ) (queue : ListHead)
    (hf : f (s.sems.semaphore.cell x) =
      { s.sems.semaphore.cell x with count := value, waitingDescriptors := queue }) :
    s.setSems { s.sems with semaphore := s.sems.semaphore.modify x f } =
      semSet s x value queue := by
  refine congrArg (fun st => s.setSems { s.sems with semaphore := st }) (Store.modify_congr ?_)
  exact hf

@[simp] theorem semSet_procs (s : Kernel) (x : ℕ) (v : ℤ) (h : ListHead) :
    (semSet s x v h).procs = s.procs := rfl

@[simp] theorem semSet_running (s : Kernel) (x : ℕ) (v : ℤ) (h : ListHead) :
    (semSet s x v h).running = s.running := rfl

@[simp] theorem semSet_trace (s : Kernel) (x : ℕ) (v : ℤ) (h : ListHead) :
    (semSet s x v h).trace = s.trace := rfl

@[simp] theorem pcb_semSet (s : Kernel) (x k : ℕ) (v : ℤ) (h : ListHead) :
    (semSet s x v h).pcb k = s.pcb k := rfl

@[simp] theorem semSet_cell (s : Kernel) (x k : ℕ) (v : ℤ) (h : ListHead) :
    (semSet s x v h).sems.semaphore.cell k = if k = x then { s.sems.semaphore.cell k with
      count := v, waitingDescriptors := h } else s.sems.semaphore.cell k := rfl

theorem semSet_semSet (s : Kernel) (x : ℕ) (v v' : ℤ) (h h' : ListHead) :
    semSet (semSet s x v h) x v' h' = semSet s x v' h' := by
  simp only [semSet, Kernel.setSems_sems, Store.modify_modify]
  rfl

theorem semWaitCount_ok : semWaitCount s x = .ok s' ↔ ∃ r, s.running = some r ∧
    s' = (semSet s x (toInt ((s.sems.semaphore.cell x).count - 1))
      (s.sems.semaphore.cell x).waitingDescriptors).setRetvalue r 0 := by
  simp only [semWaitCount, bind_ok, deref_ok, Except.ok.injEq, Kernel.setSems_running]
  rw [semSet_eq s x _ _ _ rfl]
  simp only [eq_comm]

theorem internalSemWait_ok (h : internalSemWait s = .ok s') : ∃ p, s.running = some p ∧
    ((semDescriptorListByFd s.sems (s.pcb p).semDescriptors (toInt ((s.pcb p).syscallArgs 0)) =
        none ∧ s' = s.setRetvalue p dsosEnotmysem) ∨
      ∃ d x w, semDescriptorListByFd s.sems (s.pcb p).semDescriptors
          (toInt ((s.pcb p).syscallArgs 0)) = some d ∧
        (s.sems.descriptor.cell d).semaphore = x ∧ (s.sems.descriptor.cell d).waitPtr = w ∧
        ((0 < (s.sems.semaphore.cell x).count ∧ s' =
          (semSet s x (toInt ((s.sems.semaphore.cell x).count - 1))
            (s.sems.semaphore.cell x).waitingDescriptors).setRetvalue p 0) ∨
        (s.sems.semaphore.cell x).count ≤ 0 ∧
          w ∉ (s.sems.semaphore.cell x).waitingDescriptors.items ∧ ¬ s.Linked p ∧
          ∃ q rest, (s.procs .ready).items = q :: rest ∧ s' =
            (dispatched (suspended (semSet s x (toInt ((s.sems.semaphore.cell x).count - 1))
              ⟨(s.sems.semaphore.cell x).waitingDescriptors.items ++ [w],
                (s.sems.semaphore.cell x).waitingDescriptors.size + 1⟩) p) q rest).setRetvalue q
              0)) := by
  obtain ⟨p, hp, h⟩ := bind_ok.mp h
  rw [deref_ok] at hp
  refine ⟨p, hp, ?_⟩
  simp only at h
  split at h
  · rename_i hnone
    exact Or.inl ⟨hnone, (Except.ok.inj h).symm⟩
  rename_i d hd
  refine Or.inr ⟨d, _, _, hd, rfl, rfl, ?_⟩
  generalize (s.sems.descriptor.cell d).semaphore = x at *
  generalize (s.sems.descriptor.cell d).waitPtr = w at *
  split_ifs at h with hc
  · right
    simp only [bind_ok, listInsert_last_ok, suspend_ok] at h
    obtain ⟨_, ⟨hw, rfl⟩, _, ⟨hl, rfl⟩, h⟩ := h
    rw [semSet_eq s x _ (s.sems.semaphore.cell x).count _ rfl] at h hl
    refine ⟨hc, hw, hl, ?_⟩
    split at h
    · rename_i q hq
      obtain ⟨rest, hr⟩ := ListHead.first_eq_some hq
      obtain ⟨_, hd, h⟩ := bind_ok.mp h
      obtain rfl := (Kernel.detachProc_first_ok hr).mp hd
      obtain ⟨r, hqr, rfl⟩ := semWaitCount_ok.mp h
      obtain rfl : q = r := Option.some.inj hqr
      refine ⟨q, rest, by simpa [suspended] using hr, ?_⟩
      have hdisp (u : Kernel) :
          semSet (dispatched (suspended u p) q rest) x
            (toInt (((dispatched (suspended u p) q rest).sems.semaphore.cell x).count - 1))
            ((dispatched (suspended u p) q rest).sems.semaphore.cell x).waitingDescriptors =
          dispatched (suspended (semSet u x (toInt ((u.sems.semaphore.cell x).count - 1))
            (u.sems.semaphore.cell x).waitingDescriptors) p) q rest := rfl
      have hset := hdisp (semSet s x (s.sems.semaphore.cell x).count
        ⟨(s.sems.semaphore.cell x).waitingDescriptors.items ++ [w],
          (s.sems.semaphore.cell x).waitingDescriptors.size + 1⟩)
      rw [semSet_semSet, semSet_cell, if_pos rfl] at hset
      exact congrArg (Kernel.setRetvalue · q 0) hset
    · cases h
  · left
    obtain ⟨r, hr, rfl⟩ := semWaitCount_ok.mp h
    obtain rfl : p = r := by simpa [hp] using hr
    exact ⟨by omega, rfl⟩

/-- The process `b` that waits in `w` for `x` is ready. -/
def semWoken (s : Kernel) (x w b : ℕ) : Kernel :=
  (((semSet s x (toInt ((s.sems.semaphore.cell x).count + 1))
    ⟨(s.sems.semaphore.cell x).waitingDescriptors.items.erase w,
      (s.sems.semaphore.cell x).waitingDescriptors.size - 1⟩).setProcs .waiting
    ⟨(s.procs .waiting).items.erase b, (s.procs .waiting).size - 1⟩).setProcs .ready
    ⟨(s.procs .ready).items ++ [b], (s.procs .ready).size + 1⟩).setStatus b .ready

theorem semWoken_sems (s : Kernel) (x w b : ℕ) : (semWoken s x w b).sems =
    (semSet s x (toInt ((s.sems.semaphore.cell x).count + 1))
      ⟨(s.sems.semaphore.cell x).waitingDescriptors.items.erase w,
        (s.sems.semaphore.cell x).waitingDescriptors.size - 1⟩).sems := rfl

theorem internalSemPost_ok (h : internalSemPost s = .ok s') : ∃ p, s.running = some p ∧
    ((semDescriptorListByFd s.sems (s.pcb p).semDescriptors (toInt ((s.pcb p).syscallArgs 0)) =
        none ∧ s' = s.setRetvalue p dsosEnotmysem) ∨
      ∃ d x, semDescriptorListByFd s.sems (s.pcb p).semDescriptors
          (toInt ((s.pcb p).syscallArgs 0)) = some d ∧
        (s.sems.descriptor.cell d).semaphore = x ∧
        (((0 ≤ (s.sems.semaphore.cell x).count ∨
            (s.sems.semaphore.cell x).waitingDescriptors.items = []) ∧
          s' = (semSet s x (toInt ((s.sems.semaphore.cell x).count + 1))
            (s.sems.semaphore.cell x).waitingDescriptors).setRetvalue p 0) ∨
        (s.sems.semaphore.cell x).count < 0 ∧
          ∃ w queue b, (s.sems.semaphore.cell x).waitingDescriptors.items = w :: queue ∧
            (s.sems.descriptor.cell (s.sems.descriptorPtr.cell w).descriptor).pcb = b ∧
            b ∈ (s.procs .waiting).items ∧ b ∉ (s.procs .ready).items ∧
            b ∉ (s.procs .waiting).items.erase b ∧ b ∉ (s.procs .zombie).items ∧
            s' = (semWoken s x w b).setRetvalue p 0)) := by
  obtain ⟨p, hp, h⟩ := bind_ok.mp h
  rw [deref_ok] at hp
  refine ⟨p, hp, ?_⟩
  simp only at h
  split at h
  · rename_i hnone
    exact Or.inl ⟨hnone, (Except.ok.inj h).symm⟩
  rename_i d hd
  refine Or.inr ⟨d, _, hd, rfl, ?_⟩
  generalize (s.sems.descriptor.cell d).semaphore = x at *
  have hcount (u : Kernel) : semPostCount u p x =
      (semSet u x (toInt ((u.sems.semaphore.cell x).count + 1))
        (u.sems.semaphore.cell x).waitingDescriptors).setRetvalue p 0 := by
    rw [semPostCount, semSet_eq u x _ _ _ rfl]
  split at h
  · rename_i w hw
    obtain ⟨queue, hq⟩ := ListHead.first_eq_some hw
    split_ifs at h with hc
    · right
      obtain ⟨u, hu, h⟩ := bind_ok.mp h
      obtain rfl := Except.ok.inj h
      simp only [semPostWake, bind_ok, listDetach_ok, Except.ok.injEq] at hu
      obtain ⟨_, ⟨-, rfl⟩, hu⟩ := hu
      rw [semSet_eq s x _ (s.sems.semaphore.cell x).count _ rfl] at hu
      simp only [Kernel.detachProc_ok, Kernel.insertProc_last_ok] at hu
      obtain ⟨_, ⟨hb, rfl⟩, _, ⟨hl, rfl⟩, rfl⟩ := hu
      simp only [Kernel.Linked, not_or, Kernel.setProcs_procs, semSet_procs, reduceCtorEq,
        if_false, if_true] at hl
      refine ⟨hc, w, queue, _, hq, rfl, hb, hl.1, hl.2.1, hl.2.2, ?_⟩
      have hwoken (u : Kernel) (hwait hready : ListHead) (b : ℕ) :
          semPostCount (((u.setProcs .waiting hwait).setProcs .ready hready).setStatus b .ready)
            p x = ((((semSet u x (toInt ((u.sems.semaphore.cell x).count + 1))
              (u.sems.semaphore.cell x).waitingDescriptors).setProcs .waiting
            hwait).setProcs .ready hready).setStatus b .ready).setRetvalue p 0 := by
        rw [hcount]
        rfl
      rw [hwoken, semSet_semSet, semSet_cell, if_pos rfl]
      rfl
    · exact Or.inl ⟨Or.inl (by omega), by rw [← hcount, Except.ok.inj h]⟩
  · rename_i hw
    refine Or.inl ⟨Or.inr (ListHead.first_eq_none hw), by rw [← hcount, Except.ok.inj h]⟩

end DisastrOS
