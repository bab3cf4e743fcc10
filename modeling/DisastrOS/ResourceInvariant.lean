import DisastrOS.KernelInvariant

/-! The cross links between processes, resources, descriptors and descriptor pointers. -/
namespace DisastrOS
open BlockPool TransitionSystem

/-- The links of a descriptor `d` in the list of the process `p`. -/
structure ResLinked (s : Kernel) (p d : ℕ) : Prop where
  inUse : s.resources.descriptor.InUse d
  owner : (s.resources.descriptor.cell d).pcb = p
  listed : (s.resources.descriptor.cell d).resource ∈ s.resources.list.items
  ptrInUse : s.resources.descriptorPtr.InUse (s.resources.descriptor.cell d).ptr
  ptr : (s.resources.descriptorPtr.cell (s.resources.descriptor.cell d).ptr).descriptor = d
  entry : (s.resources.descriptor.cell d).ptr ∈
    (s.resources.resource.cell (s.resources.descriptor.cell d).resource).descriptors.items

/-- The links of an entry `e` of the descriptors of the resource `r`. -/
structure ResEntry (s : Kernel) (r e : ℕ) : Prop where
  inUse : s.resources.descriptorPtr.InUse e
  descInUse : s.resources.descriptor.InUse (s.resources.descriptorPtr.cell e).descriptor
  ptr : (s.resources.descriptor.cell (s.resources.descriptorPtr.cell e).descriptor).ptr = e
  resource : (s.resources.descriptor.cell (s.resources.descriptorPtr.cell e).descriptor).resource = r

structure ResInv (s : Kernel) : Prop where
  nodup : s.resources.list.items.Nodup
  inUse : ∀ r, r ∈ s.resources.list.items ↔ s.resources.resource.InUse r
  ownNodup : ∀ p, (s.pcb p).descriptors.items.Nodup
  linked : ∀ p, ∀ d ∈ (s.pcb p).descriptors.items, ResLinked s p d
  entriesNodup : ∀ r, (s.resources.resource.cell r).descriptors.items.Nodup
  entry : ∀ r, ∀ e ∈ (s.resources.resource.cell r).descriptors.items, ResEntry s r e

namespace ResInv
variable {s s' : Kernel} {p q b d e r : ℕ}

theorem frame (h : ResInv s) (hs : SameResources s s') : ResInv s' := by
  refine ⟨?_, ?_, ?_, fun p d hd => ?_, ?_, fun r e he => ?_⟩
  · rw [hs.resources]; exact h.nodup
  · rw [hs.resources]; exact h.inUse
  · simpa only [hs.descriptors] using h.ownNodup
  · rw [hs.descriptors] at hd
    obtain ⟨h1, h2, h3, h4, h5, h6⟩ := h.linked p d hd
    constructor <;> rw [hs.resources] <;> assumption
  · rw [hs.resources]; exact h.entriesNodup
  · rw [hs.resources] at he
    obtain ⟨h1, h2, h3, h4⟩ := h.entry r e he
    constructor <;> rw [hs.resources] <;> assumption

theorem opened_linked (h : ResInv s) (ho : ResourceOpened s s' p r d e)
    (hr : r ∈ s.resources.list.items) {k f : ℕ} (hf : f ∈ (s'.pcb k).descriptors.items) :
    ResLinked s' k f := by
  rcases ho.mem_own.mp hf with hf | ⟨rfl, rfl⟩
  · have hl := h.linked k f hf
    constructor <;> try rw [ho.cell_old hl.inUse]
    · exact (ho.inUse f).mpr (Or.inl hl.inUse)
    · exact hl.owner
    · rw [ho.list]
      exact hl.listed
    · exact (ho.inUsePtr _).mpr (Or.inl hl.ptrInUse)
    · rw [ho.cellPtr_old hl.ptrInUse]
      exact hl.ptr
    · exact ho.mem_entries.mpr (Or.inl hl.entry)
  · constructor <;> try rw [ho.cell_new]
    · exact (ho.inUse f).mpr (Or.inr rfl)
    · rw [ho.list]
      exact hr
    · exact (ho.inUsePtr _).mpr (Or.inr rfl)
    · rw [ho.cellPtr_new]
    · exact ho.mem_entries.mpr (Or.inr ⟨rfl, rfl⟩)

theorem opened_entry (h : ResInv s) (ho : ResourceOpened s s' p r d e) {y f : ℕ}
    (hf : f ∈ (s'.resources.resource.cell y).descriptors.items) : ResEntry s' y f := by
  rcases ho.mem_entries.mp hf with hf | ⟨rfl, rfl⟩
  · have hen := h.entry y f hf
    constructor <;> try rw [ho.cellPtr_old hen.inUse]
    · exact (ho.inUsePtr f).mpr (Or.inl hen.inUse)
    · exact (ho.inUse _).mpr (Or.inl hen.descInUse)
    · rw [ho.cell_old hen.descInUse]
      exact hen.ptr
    · rw [ho.cell_old hen.descInUse]
      exact hen.resource
  · constructor <;> try rw [ho.cellPtr_new]
    · exact (ho.inUsePtr f).mpr (Or.inr rfl)
    · exact (ho.inUse d).mpr (Or.inr rfl)
    · rw [ho.cell_new]
    · rw [ho.cell_new]

theorem opened (h : ResInv s) (ho : ResourceOpened s s' p r d e)
    (hr : r ∈ s.resources.list.items) : ResInv s' := by
  refine ⟨?_, ?_, ?_, fun k f hf => h.opened_linked ho hr hf, fun y => ?_,
    fun y f hf => h.opened_entry ho hf⟩
  · rw [ho.list]
    exact h.nodup
  · intro y
    rw [ho.list, h.inUse, ho.resource]
    rfl
  · intro k
    rw [ho.descriptors]
    split_ifs
    · exact (h.ownNodup p).append (List.nodup_singleton d) (by simpa using ho.notOpen)
    · exact h.ownNodup k
  · rw [ho.cell_resource]
    split_ifs with hy
    · subst hy
      exact (h.entriesNodup y).append (List.nodup_singleton e) (by simpa using ho.notListed)
    · exact h.entriesNodup y

theorem closed_mem_entries (h : ResInv s) (hc : ResourceClosed s s' p r d e) {y f : ℕ} :
    f ∈ (s'.resources.resource.cell y).descriptors.items ↔
      f ∈ (s.resources.resource.cell y).descriptors.items ∧ f ≠ e := by
  rw [hc.cell_resource]
  split_ifs with hy
  · rw [(h.entriesNodup y).mem_erase_iff, and_comm]
  · refine ⟨fun hf => ⟨hf, ?_⟩, fun hf => hf.1⟩
    rintro rfl
    have hs := (h.entry y f hf).resource
    rw [← hc.ptrEq, (h.linked p d hc.isOpen).ptr, hc.resourceEq] at hs
    exact hy hs.symm

theorem closed_linked (h : ResInv s) (hc : ResourceClosed s s' p r d e) {k f : ℕ}
    (hf : f ∈ (s'.pcb k).descriptors.items) : ResLinked s' k f := by
  have hd := h.linked p d hc.isOpen
  -- what stays in a list is another descriptor with another entry
  obtain ⟨hf, hfd⟩ : f ∈ (s.pcb k).descriptors.items ∧ f ≠ d := by
    rw [hc.descriptors] at hf
    split_ifs at hf with hk
    · subst hk
      exact and_comm.mp ((h.ownNodup k).mem_erase_iff.mp hf)
    · refine ⟨hf, ?_⟩
      rintro rfl
      exact hk ((h.linked k f hf).owner.symm.trans hd.owner)
  have hl := h.linked k f hf
  have hfe : (s.resources.descriptor.cell f).ptr ≠ e := fun he => hfd <| by
    rw [← hl.ptr, he, ← hc.ptrEq, hd.ptr]
  constructor <;> try rw [hc.cell_descriptor]
  · exact hc.inUse.mpr ⟨hl.inUse, hfd⟩
  · exact hl.owner
  · rw [hc.list]
    exact hl.listed
  · exact hc.inUsePtr.mpr ⟨hl.ptrInUse, hfe⟩
  · rw [hc.cell_descriptorPtr]
    exact hl.ptr
  · exact (h.closed_mem_entries hc).mpr ⟨hl.entry, hfe⟩

theorem closed_entry (h : ResInv s) (hc : ResourceClosed s s' p r d e) {y f : ℕ}
    (hf : f ∈ (s'.resources.resource.cell y).descriptors.items) : ResEntry s' y f := by
  obtain ⟨hf, hfe⟩ := (h.closed_mem_entries hc).mp hf
  have hen := h.entry y f hf
  have hfd : (s.resources.descriptorPtr.cell f).descriptor ≠ d := by
    intro hfd
    have := hen.ptr
    rw [hfd, hc.ptrEq] at this
    exact hfe this.symm
  constructor <;> try rw [hc.cell_descriptorPtr]
  · exact hc.inUsePtr.mpr ⟨hen.inUse, hfe⟩
  · exact hc.inUse.mpr ⟨hen.descInUse, hfd⟩
  · rw [hc.cell_descriptor]
    exact hen.ptr
  · rw [hc.cell_descriptor]
    exact hen.resource

theorem closed (h : ResInv s) (hc : ResourceClosed s s' p r d e) : ResInv s' := by
  refine ⟨?_, ?_, fun k => ?_, fun k f hf => h.closed_linked hc hf, fun y => ?_,
    fun y f hf => h.closed_entry hc hf⟩
  · rw [hc.list]
    exact h.nodup
  · intro y
    rw [hc.list, h.inUse, hc.resource]
    rfl
  · rw [hc.descriptors]
    split_ifs
    · exact (h.ownNodup p).erase d
    · exact h.ownNodup k
  · rw [hc.cell_resource]
    split_ifs
    · exact (h.entriesNodup y).erase e
    · exact h.entriesNodup y

/-- A new resource has no descriptors. -/
theorem created {st : Store Resource} {id type : ℤ} (h : ResInv s)
    (ha : Store.Allocated s.resources.resource st r (fun _ => ⟨id, type, .init⟩))
    (hr : r ∉ s.resources.list.items) : ResInv (resourceCreated s r st) := by
  have hcell : ∀ y, (resourceCreated s r st).resources.resource.cell y =
      if y = r then ⟨id, type, .init⟩ else s.resources.resource.cell y := fun y => ha.cell y
  have hlist : ∀ y, y ∈ (resourceCreated s r st).resources.list.items ↔
      y ∈ s.resources.list.items ∨ y = r := by
    intro y
    simp [resourceCreated]
  refine ⟨?_, fun y => ?_, h.ownNodup, fun k f hf => ?_, fun y => ?_, fun y f hf => ?_⟩
  · exact h.nodup.append (List.nodup_singleton r) (by simpa using hr)
  · rw [hlist, h.inUse]
    exact (ha.inUse y).symm
  · have hl := h.linked k f hf
    have hne : (s.resources.descriptor.cell f).resource ≠ r := fun he => hr (he ▸ hl.listed)
    refine ⟨hl.inUse, hl.owner, (hlist _).mpr (Or.inl hl.listed), hl.ptrInUse, hl.ptr, ?_⟩
    change _ ∈ ((resourceCreated s r st).resources.resource.cell
      (s.resources.descriptor.cell f).resource).descriptors.items
    rw [hcell, if_neg hne]
    exact hl.entry
  · rw [hcell]
    split_ifs
    · exact List.nodup_nil
    · exact h.entriesNodup y
  · rw [hcell] at hf
    split_ifs at hf
    · cases hf
    · obtain ⟨h1, h2, h3, h4⟩ := h.entry y f hf
      exact ⟨h1, h2, h3, h4⟩

theorem destroyed (h : ResInv s) (hnil : (s.resources.resource.cell r).descriptors.items = []) :
    ResInv (resourceDestroyed s r) := by
  have hlist : ∀ y, y ∈ (resourceDestroyed s r).resources.list.items ↔
      y ∈ s.resources.list.items ∧ y ≠ r := by
    intro y
    simp only [resourceDestroyed, Kernel.setResources_resources]
    rw [h.nodup.mem_erase_iff, and_comm]
  refine ⟨h.nodup.erase r, fun y => ?_, h.ownNodup, fun k f hf => ?_, h.entriesNodup,
    fun y f hf => ?_⟩
  · rw [hlist, h.inUse]
    exact (Store.free_inUse _ r y).symm
  · have hl := h.linked k f hf
    have hne : (s.resources.descriptor.cell f).resource ≠ r := by
      intro he
      have hen := hl.entry
      rw [he, hnil] at hen
      cases hen
    exact ⟨hl.inUse, hl.owner, (hlist _).mpr ⟨hl.listed, hne⟩, hl.ptrInUse, hl.ptr, hl.entry⟩
  · obtain ⟨h1, h2, h3, h4⟩ := h.entry y f hf
    exact ⟨h1, h2, h3, h4⟩

/-- A new process has nothing open. -/
theorem newProcess (h : ResInv s) (hc : NewProcess s s' b) : ResInv s' := by
  have hown := hc.descriptors
  refine ⟨?_, ?_, fun k => ?_, fun k f hf => ?_, ?_, fun r e he => ?_⟩
  · rw [hc.resources]; exact h.nodup
  · rw [hc.resources]; exact h.inUse
  · rw [hown]
    split_ifs
    · exact List.nodup_nil
    · exact h.ownNodup k
  · rw [hown] at hf
    split_ifs at hf
    · cases hf
    · obtain ⟨h1, h2, h3, h4, h5, h6⟩ := h.linked k f hf
      constructor <;> rw [hc.resources] <;> assumption
  · rw [hc.resources]; exact h.entriesNodup
  · rw [hc.resources] at he
    obtain ⟨h1, h2, h3, h4⟩ := h.entry r e he
    constructor <;> rw [hc.resources] <;> assumption

theorem releaseDescriptors {fuel : ℕ} (h : ResInv s)
    (hs : releaseDescriptors fuel s p = .ok s') : ResInv s' :=
  releaseDescriptors_induct (fun _ _ _ hi hr => by
    obtain ⟨r, e, hc⟩ := releaseDescriptor_closed hr
    exact hi.closed hc) hs h

theorem begins {u : Kernel} {id type : ℤ} {openMode : BitVec 32} (h : ResInv s)
    (hu : OpenBegins s u id type openMode r) : ResInv u := by
  cases hu with
  | known mode found same => exact same ▸ h
  | new st mode unknown alloc notListed result => exact result ▸ h.created alloc notListed

theorem internalOpenResource (h : ResInv s) (hs : internalOpenResource s = .ok s') :
    ResInv s' := by
  obtain ⟨p, -, ⟨v, rfl⟩ | ⟨u, r, hu, hs⟩⟩ := internalOpenResource_ok hs
  · exact h.frame (.setRetvalue s p v)
  · have hi := h.begins hu
    rcases hs with ⟨v, rfl⟩ | ⟨d, e, -, ho⟩
    · exact hi.frame (.setRetvalue u p v)
    · exact hi.opened ho hu.mem

theorem internalCloseResource (h : ResInv s) (hs : internalCloseResource s = .ok s') :
    ResInv s' := by
  obtain ⟨p, -, rfl | ⟨d, u, -, hu, rfl⟩⟩ := internalCloseResource_ok hs
  · exact h.frame (.setRetvalue s p _)
  · obtain ⟨r, e, hc⟩ := releaseDescriptor_closed hu
    exact (h.closed hc).frame (.setRetvalue u p 0)

theorem internalDestroyResource (h : ResInv s) (hs : internalDestroyResource s = .ok s') :
    ResInv s' := by
  obtain ⟨p, -, ⟨v, rfl⟩ | ⟨r, -, hnil, rfl⟩⟩ := internalDestroyResource_ok hs
  · exact h.frame (.setRetvalue s p v)
  · exact (h.destroyed hnil).frame (.setRetvalue _ p 0)

theorem handedToParent_frame {a i : ℕ} {sig : ℕ → BitVec 32} :
    SameResources s (handedToParent (zombified s p i sig) p a q) :=
  (zombified_frame s p i sig).2.trans (by constructor <;> intros <;> simp [handedToParent])

theorem internalExit (h : ResInv s) (hk : KernelInv s) (hs : internalExit s = .ok s') :
    ResInv s' := by
  obtain ⟨p, a, i, sig, -, -, -, -, he⟩ := internalExit_returns hk.proc hk.wake hs
  cases he with
  | toParent q u _ _ _ released result =>
    subst result
    refine ((h.frame handedToParent_frame).releaseDescriptors released).frame ?_
    constructor <;> intros <;> simp [reclaimed]
  | toNext q rest _ _ result =>
    subst result
    refine h.frame ((zombified_frame s p i sig).2.trans ?_)
    constructor <;> intros <;> simp [resumed]

theorem internalSemWait_resources (hs : internalSemWait s = .ok s') : SameResources s s' := by
  obtain ⟨p, hp, ⟨-, rfl⟩ | ⟨d, x, w, -, -, -, ⟨-, rfl⟩ | ⟨-, -, -, q, rest, hr, rfl⟩⟩⟩ :=
    internalSemWait_ok hs
  · exact .setRetvalue s p _
  · exact (SameResources.setSems s _).trans (.setRetvalue _ p 0)
  · refine SameResources.trans ?_ (.setRetvalue _ q 0)
    constructor <;> intros <;> simp [dispatched, suspended, semSet]

theorem internalSemPost_resources (hs : internalSemPost s = .ok s') : SameResources s s' := by
  obtain ⟨p, hp, ⟨-, rfl⟩ | ⟨d, x, -, -, ⟨-, rfl⟩ | ⟨-, w, queue, b, -, -, -, -, -, -, rfl⟩⟩⟩ :=
    internalSemPost_ok hs
  · exact .setRetvalue s p _
  · exact (SameResources.setSems s _).trans (.setRetvalue _ p 0)
  · refine SameResources.trans ?_ (.setRetvalue _ p 0)
    constructor <;> intros <;> simp [semWoken, semSet]

theorem runHandler {hd : Handler} (h : ResInv s) (hk : KernelInv s) (hp : s.running = some p)
    (hs : runHandler hd s = .ok s') : ResInv s' := by
  cases hd with
  | preempt => exact h.frame (internalSchedule_frame hs).2
  | fork =>
    obtain ⟨b, q, hc⟩ := internalFork_ok hp (hk.proc.inUse_of_running hp) hs
    exact h.newProcess hc.newProcess
  | wait => exact h.frame (internalWait_frame hs).2
  | exit => exact h.internalExit hk hs
  | spawn =>
    obtain ⟨b, q, hc⟩ := internalSpawn_ok hp (hk.proc.inUse_of_running hp) hs
    exact h.newProcess hc.newProcess
  | sleep => exact h.frame (internalSleep_frame hs).2
  | openResource => exact h.internalOpenResource hs
  | closeResource => exact h.internalCloseResource hs
  | destroyResource => exact h.internalDestroyResource hs
  | shutdown => cases hs
  | semOpen => exact h.frame (internalSemOpen_frame hs).2
  | semClose => exact h.frame (internalSemClose_frame hs).2
  | semWait => exact h.frame (internalSemWait_resources hs)
  | semPost => exact h.frame (internalSemPost_resources hs)

theorem start : ResInv disastrOSStart := by
  obtain ⟨t, hu, hc, hs⟩ := disastrOSStart_eq
  rw [hs]
  have hown : ∀ k, (t.cell k).descriptors.items = [] := fun k => by
    rw [hc]
    split_ifs <;> rfl
  refine ⟨List.nodup_nil, fun r => ?_, fun k => ?_, fun k d hd => ?_, fun r => List.nodup_nil,
    fun _ _ he => absurd he List.not_mem_nil⟩
  · have := Store.not_inUse_init maxNumResources (⟨0, 0, .init⟩ : Resource) r
    simpa [emptyKernel] using this
  · simp [Kernel.pcb, hown]
  · simp [Kernel.pcb, hown] at hd

theorem step {act : Action} (h : ResInv s) (hk : KernelInv s) (hs : step s act = .ok s') :
    ResInv s' := by
  refine (step_preserves (P := fun s => KernelInv s ∧ ResInv s)
    (fun s p n args hp hi => ⟨hi.1.enter hp, hi.2.frame ?_⟩)
    (fun s p v hi => ⟨hi.1.setRetvalue, hi.2.frame (.setRetvalue s p v)⟩)
    (fun hd s p s' hp hn hi hr => ⟨hi.1.runHandler hp hn hr, hi.2.runHandler hi.1 hp hr⟩)
    (fun s p s' hp hi ht => ⟨hi.1.ticked.internalSchedule ht, hi.2.frame ?_⟩)
    (fun s b s' hidle hi hc => ⟨hi.1.started hidle hc, hi.2.newProcess hc.newProcess⟩)
    ⟨hk, h⟩ hs).2
  · constructor <;> intros <;> simp [enterSyscall]
  · refine SameResources.trans ?_ (internalSchedule_frame ht).2
    constructor <;> intros <;> simp [ticked, Kernel.pcb]

theorem reachable (h : kernel.Reachable s) : ResInv s :=
  h.invariant start fun _ _ _ hr hi hs => hi.step (KernelInv.reachable hr) hs

end ResInv
end DisastrOS
