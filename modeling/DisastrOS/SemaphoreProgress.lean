import DisastrOS.Progress

/-! The system calls on semaphores always return, unless a wait finds no other process to run. -/
namespace DisastrOS
open BlockPool

variable {s s' : Kernel} {p x : ℕ}

theorem semOpenDescriptor_isOk (h : KernelInv s) (p x : ℕ) :
    ∃ t, semOpenDescriptor s p x = .ok t := by
  unfold semOpenDescriptor
  split
  · exact ⟨_, rfl⟩
  rename_i d t hdt
  obtain ⟨st, hd, rfl⟩ := semDescriptorAlloc_ok hdt
  simp only
  split
  · exact ⟨_, rfl⟩
  rename_i e t het
  obtain ⟨pt, he, rfl⟩ := semDescriptorPtrAlloc_ok het
  simp only
  split
  · exact ⟨_, rfl⟩
  rename_i w t hwt
  obtain ⟨pt', hw, rfl⟩ := semDescriptorPtrAlloc_ok hwt
  refine bind_isOk (listInsert_last_ok.mpr ⟨fun hm => hd.fresh ?_, rfl⟩)
    (bind_isOk (listInsert_last_ok.mpr ⟨fun hm => he.fresh ?_, rfl⟩) ⟨_, rfl⟩)
  · exact (h.sem.linked p d (by simpa using hm)).inUse
  · exact (h.sem.entry x e (by simpa using hm)).inUse

theorem internalSemOpen_isOk (h : KernelInv s) (hp : s.running = some p) :
    ∃ t, internalSemOpen s = .ok t := by
  refine bind_isOk (deref_ok.mpr hp) ?_
  simp only
  split
  · exact ⟨_, rfl⟩
  split
  · exact semOpenDescriptor_isOk h p _
  rename_i hid
  split
  · exact ⟨_, rfl⟩
  · rename_i x t ht
    obtain ⟨st, ha, rfl⟩ := semaphoreAlloc_ok ht
    have hx : x ∉ s.sems.list.items := fun hm => ha.fresh ((h.sem.inUse x).mp hm)
    exact bind_isOk (listInsert_last_ok.mpr ⟨hx, rfl⟩)
      (semOpenDescriptor_isOk (h.semCreated ha hx hid) p x)

/-- An empty semaphore in the list can be unlinked. -/
theorem semCloseUnlink_isOk (p : ℕ) (hx : x ∈ s.sems.list.items)
    (hsize : (s.sems.semaphore.cell x).descriptors.size =
      (s.sems.semaphore.cell x).descriptors.items.length) :
    ∃ t, semCloseUnlink s p x = .ok t := by
  unfold semCloseUnlink
  simp only
  split_ifs with hz
  · have hnil : (s.sems.semaphore.cell x).descriptors.items = [] := by
      rw [hsize] at hz
      exact List.length_eq_zero_iff.mp (by omega)
    exact bind_isOk (listDetach_ok.mpr ⟨hx, rfl⟩) (bind_isOk (if_pos hnil) ⟨_, rfl⟩)
  · exact ⟨_, rfl⟩

theorem internalSemClose_isOk (h : KernelInv s) (hp : s.running = some p) :
    ∃ t, internalSemClose s = .ok t := by
  refine bind_isOk (deref_ok.mpr hp) ?_
  simp only
  split
  · exact ⟨_, rfl⟩
  rename_i d hd
  have hdm := SemInv.byFd_mem hd
  have hl := h.sem.linked p d hdm
  have hsem := h.sem.size (s.sems.descriptor.cell d).semaphore
  generalize hx : (s.sems.descriptor.cell d).semaphore = x at *
  generalize he : (s.sems.descriptor.cell d).ptr = e at *
  generalize hw : (s.sems.descriptor.cell d).waitPtr = w at *
  have hlisted : x ∈ s.sems.list.items := hx ▸ hl.listed
  have hentry : e ∈ (s.sems.semaphore.cell x).descriptors.items := by
    have hen := hl.entry
    rwa [hx, he] at hen
  have hret : releaseCode (s.sems.descriptor.free d).1 = 0 :=
    releaseCode_eq_zero.mpr (Store.free_eq_success.mpr hl.inUse)
  have hrete : releaseCode (s.sems.descriptorPtr.free e).1 = 0 :=
    releaseCode_eq_zero.mpr (Store.free_eq_success.mpr (he ▸ hl.ptrInUse))
  have hretw : releaseCode ((s.sems.descriptorPtr.free e).2.free w).1 = 0 :=
    releaseCode_eq_zero.mpr (Store.free_eq_success.mpr (by
      have hwe := hl.differ
      rw [he, hw] at hwe
      simpa using ⟨hw ▸ hl.waitPtrInUse, hwe⟩))
  refine bind_isOk (listDetach_ok.mpr ⟨hdm, rfl⟩) ?_
  simp only [semDescriptorFree, semDescriptorPtrFree, hret, ne_eq, not_true, if_false,
    Kernel.setSems_sems, Kernel.modPcb_sems]
  refine bind_isOk (listDetach_ok.mpr ⟨hentry, rfl⟩) ?_
  simp only [hrete, hretw, not_true, if_false]
  have hlen := List.length_erase_add_one hentry
  refine semCloseUnlink_isOk p hlisted ?_
  simp only [Kernel.setSems_sems, Store.modify_cell, if_true, hsem]
  omega

end DisastrOS
