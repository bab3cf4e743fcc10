import DisastrOS.SemaphoreHandles

/-! A descriptor that its process has left open when it exited is never given back. -/
namespace DisastrOS
open BlockPool TransitionSystem HandleTable

variable {s t u : Kernel} {p b d r x : ℕ} {fd : ℤ} {act : Action} {acts : List Action}

theorem NewProcess.dead {c : ℕ} (hc : NewProcess s t c) (hb : ¬ Alive s b) : ¬ Alive t b ∨
    (t.pcb b).descriptors.items = [] ∧ (t.pcb b).semDescriptors.items = [] := by
  by_cases hbc : b = c
  · right
    rw [hc.descriptors, hc.semDescriptors, if_pos hbc, if_pos hbc]
    exact ⟨rfl, rfl⟩
  · left
    rintro ⟨hu, hz⟩
    exact hb ⟨((hc.inUse b).mp hu).resolve_right hbc, hc.zombies ▸ hz⟩

/-- A process that is not alive stays so, or its block is given to a process that has nothing
open. -/
theorem FamilyMove.dead (hm : FamilyMove s t) (hb : ¬ Alive s b) : ¬ Alive t b ∨
    (t.pcb b).descriptors.items = [] ∧ (t.pcb b).semDescriptors.items = [] := by
  cases hm with
  | same same => exact Or.inl (mt (same.alive b).mp hb)
  | create p c q cpu _ created => exact created.newProcess.dead hb
  | start c _ started => exact started.newProcess.dead hb
  | zombie p a i _ _ _ _ _ _ zombied =>
    left
    rintro ⟨hu, hz⟩
    rw [zombied.zombies, List.mem_append, not_or] at hz
    exact hb ⟨(zombied.inUse b).mp hu, hz.1⟩
  | deliver p a i q _ _ _ _ _ _ _ _ delivered =>
    left
    rintro ⟨hu, hz⟩
    exact hb ⟨((delivered.inUse b).mp hu).1, delivered.zombies ▸ hz⟩
  | collect p q _ _ _ zombie result =>
    subst result
    left
    rintro ⟨hu, hz⟩
    have hu' : s.pcbs.InUse b ∧ b ≠ child s q := by simpa [reaped] using hu
    refine hb ⟨hu'.1, fun hm => hz ?_⟩
    simpa [reaped] using (List.mem_erase_of_ne hu'.2).mpr hm

/-! ### Resources -/

/-- The descriptor `d` is in use, and no living process has it open. -/
structure ResLost (s : Kernel) (d : ℕ) : Prop where
  inUse : s.resources.descriptor.InUse d
  dead : ∀ b, d ∈ (s.pcb b).descriptors.items → ¬ Alive s b

/-- The descriptor `d` stays in use, and nobody gets it. -/
structure KeepsDescriptor (s t : Kernel) (d : ℕ) : Prop where
  inUse : t.resources.descriptor.InUse d
  cell : t.resources.descriptor.cell d = s.resources.descriptor.cell d
  sub : ∀ b, d ∈ (t.pcb b).descriptors.items → d ∈ (s.pcb b).descriptors.items

namespace KeepsDescriptor

theorem same (hd : s.resources.descriptor.InUse d) (h : SameResources s t) :
    KeepsDescriptor s t d := by
  refine ⟨?_, ?_, fun b hb => ?_⟩
  · rwa [h.resources]
  · rw [h.resources]
  · rwa [h.descriptors] at hb

theorem trans (h : KeepsDescriptor s t d) (h' : KeepsDescriptor t u d) : KeepsDescriptor s u d :=
  ⟨h'.inUse, h'.cell.trans h.cell, fun b hb => h.sub b (h'.sub b hb)⟩

theorem newProcess (hd : s.resources.descriptor.InUse d) (hc : NewProcess s t b) :
    KeepsDescriptor s t d := by
  refine ⟨?_, ?_, fun k hk => ?_⟩
  · rwa [hc.resources]
  · rw [hc.resources]
  · rw [hc.descriptors] at hk
    split_ifs at hk with hkb
    · cases hk
    · exact hk

theorem opened {f e : ℕ} (hd : s.resources.descriptor.InUse d)
    (ho : ResourceOpened s t p r f e) : KeepsDescriptor s t d := by
  refine ⟨(ho.inUse d).mpr (Or.inl hd), ho.cell_old hd, fun b hb => ?_⟩
  rw [ho.descriptors] at hb
  split_ifs at hb with hbp
  · subst hbp
    rcases List.mem_append.mp hb with hb | hb
    · exact hb
    · exact absurd (List.mem_singleton.mp hb ▸ hd) ho.fresh
  · exact hb

theorem closed {f e : ℕ} (hd : s.resources.descriptor.InUse d)
    (hp : d ∉ (s.pcb p).descriptors.items) (hc : ResourceClosed s t p r f e) :
    KeepsDescriptor s t d := by
  refine ⟨hc.inUse.mpr ⟨hd, fun hdf => hp (hdf ▸ hc.isOpen)⟩, by rw [hc.cell_descriptor],
    fun b hb => ?_⟩
  rw [hc.descriptors] at hb
  split_ifs at hb with hbp
  · subst hbp
    exact List.mem_of_mem_erase hb
  · exact hb

theorem released {fuel : ℕ} (hd : s.resources.descriptor.InUse d)
    (hp : d ∉ (s.pcb p).descriptors.items) (h : releaseDescriptors fuel s p = .ok t) :
    KeepsDescriptor s t d := by
  refine releaseDescriptors_induct (P := fun u => KeepsDescriptor s u d) (fun u v f hu hr => ?_) h
    (.same hd (.refl s))
  obtain ⟨r, e, hc⟩ := releaseDescriptor_closed hr
  exact hu.trans (.closed hu.inUse (fun hm => hp (hu.sub p hm)) hc)

theorem openResource (hd : s.resources.descriptor.InUse d)
    (hs : internalOpenResource s = .ok t) : KeepsDescriptor s t d := by
  obtain ⟨p, -, ⟨v, rfl⟩ | ⟨u, r, hbegins, hcase⟩⟩ := internalOpenResource_ok hs
  · exact .same hd (.setRetvalue s p v)
  have hu : KeepsDescriptor s u d := by
    cases hbegins with
    | known mode found same => exact .same hd (same ▸ .refl u)
    | new st mode unknown alloc notListed result =>
      subst result
      exact ⟨hd, rfl, fun b hb => hb⟩
  rcases hcase with ⟨v, rfl⟩ | ⟨f, e, -, ho⟩
  · exact hu.trans (.same hu.inUse (.setRetvalue u p v))
  · exact hu.trans (.opened hu.inUse ho)

theorem exit (hk : KernelInv s) (hd : s.resources.descriptor.InUse d)
    (hp : ∀ p, s.running = some p → d ∉ (s.pcb p).descriptors.items)
    (hs : internalExit s = .ok t) : KeepsDescriptor s t d := by
  obtain ⟨p, a, i, sig, hrun, -, -, -, he⟩ := internalExit_returns hk.proc hk.wake hs
  cases he with
  | toParent q u _ _ _ released result =>
    subst result
    have hf : KeepsDescriptor s (handedToParent (zombified s p i sig) p a q) d :=
      .same hd ResInv.handedToParent_frame
    have hu := hf.trans (.released hf.inUse (fun hm => hp p hrun (hf.sub p hm)) released)
    refine hu.trans (.same hu.inUse ?_)
    constructor <;> intros <;> simp [reclaimed]
  | toNext q rest _ _ result =>
    subst result
    refine .same hd ((zombified_frame s p i sig).2.trans ?_)
    constructor <;> intros <;> simp [resumed]

/-- A handler keeps what the process that runs does not have open. -/
theorem runHandler {hd : Handler} (hk : KernelInv s) (hrun : s.running = some p)
    (hd' : s.resources.descriptor.InUse d) (hp : d ∉ (s.pcb p).descriptors.items)
    (hs : runHandler hd s = .ok t) : KeepsDescriptor s t d := by
  have hu := hk.proc.inUse_of_running hrun
  have hothers : ∀ q, s.running = some q → d ∉ (s.pcb q).descriptors.items := fun q hq => by
    obtain rfl : p = q := Option.some.inj (hrun.symm.trans hq)
    exact hp
  cases hd with
  | openResource => exact .openResource hd' hs
  | closeResource =>
    obtain ⟨q, hq, rfl | ⟨f, u, -, hrel, rfl⟩⟩ := internalCloseResource_ok hs
    · exact .same hd' (.setRetvalue s q _)
    · obtain ⟨r, e, hc⟩ := releaseDescriptor_closed hrel
      have hu : KeepsDescriptor s u d := .closed hd' (hothers q hq) hc
      exact hu.trans (.same hu.inUse (.setRetvalue u q 0))
  | destroyResource =>
    obtain ⟨q, -, ⟨v, rfl⟩ | ⟨r, -, -, rfl⟩⟩ := internalDestroyResource_ok hs
    · exact .same hd' (.setRetvalue s q v)
    · exact KeepsDescriptor.trans (t := resourceDestroyed s r) ⟨hd', rfl, fun b hb => hb⟩
        (.same hd' (.setRetvalue _ q 0))
  | exit => exact .exit hk hd' hothers hs
  | fork =>
    obtain ⟨b, q, hc⟩ := internalFork_ok hrun hu hs
    exact .newProcess hd' hc.newProcess
  | spawn =>
    obtain ⟨b, q, hc⟩ := internalSpawn_ok hrun hu hs
    exact .newProcess hd' hc.newProcess
  | shutdown => cases hs
  | preempt => exact .same hd' (internalSchedule_frame hs).2
  | wait => exact .same hd' (internalWait_frame hs).2
  | sleep => exact .same hd' (internalSleep_frame hs).2
  | semOpen => exact .same hd' (internalSemOpen_frame hs).2
  | semClose => exact .same hd' (internalSemClose_frame hs).2
  | semWait => exact .same hd' (ResInv.internalSemWait_resources hs)
  | semPost => exact .same hd' (ResInv.internalSemPost_resources hs)

end KeepsDescriptor

/-- A resource is not made in the place of one that is there. -/
theorem ResourceCall.not_made {ops : List ResourceOp} (hc : ResourceCall s t act ops)
    (hops : (resourceHandles s).Performs ops (resourceHandles t))
    (hr : (resourceHandles s).object r ≠ none) : ∀ n a, Op.create r n a ∉ ops := by
  have hhead : ∀ {r' n a ops'}, (resourceHandles s).Performs (.create r' n a :: ops')
      (resourceHandles t) → r ≠ r' := fun hp hrr => hr (hrr ▸ hp.head.1)
  cases hc with
  | created p r' args running mode =>
    have hne := hhead hops
    simp [hne]
  | leftBehind p r' args running retvalue =>
    have hne := hhead hops
    simp [hne]
  | _ => simp

theorem step_resLost (h : kernel.Reachable s) (hl : ResLost s d)
    (hs : kernel.step s act = .ok t) : ResLost t d ∧
      t.resources.descriptor.cell d = s.resources.descriptor.cell d ∧
        (resourceHandles t).object (s.resources.descriptor.cell d).resource =
          (resourceHandles s).object (s.resources.descriptor.cell d).resource := by
  have hk : KernelInv s := .reachable h
  have hkeeps : KeepsDescriptor s t d ∧ ∀ b, ¬ Alive s b → ¬ Alive t b ∨
      (t.pcb b).descriptors.items = [] := by
    rcases step_call hk hs with hq | ⟨p, hd, args, hp, rfl, hke, hnum, hrun⟩ | ⟨b, -, -, hst⟩
    · exact ⟨.same hl.inUse hq.resources, fun b hb => Or.inl (mt (hq.family.alive b).mp hb)⟩
    · have he := enterSyscall_quiet s p hd.number args
      have hnot : d ∉ ((enterSyscall s p hd.number args).pcb p).descriptors.items := fun hm =>
        hl.dead p (he.resources.descriptors p ▸ hm) (alive_of_running hk.proc hp)
      have hv := KeepsDescriptor.same hl.inUse he.resources
      refine ⟨hv.trans (.runHandler hke hp hv.inUse hnot hrun), fun b hb => ?_⟩
      have hdead := (runHandler_family hke hp hnum hrun).dead (mt (he.family.alive b).mp hb)
      exact hdead.imp id And.left
    · exact ⟨.newProcess hl.inUse hst.newProcess, fun k hk =>
        (hst.newProcess.dead hk).imp id And.left⟩
  obtain ⟨hkd, hdead⟩ := hkeeps
  refine ⟨⟨hkd.inUse, fun b hb => ?_⟩, hkd.cell, ?_⟩
  · rcases hdead b (hl.dead b (hkd.sub b hb)) with hb' | hnil
    · exact hb'
    · rw [hnil] at hb
      cases hb
  · obtain ⟨ops, hcall, hops⟩ := resource_calls_mean h hs
    have hlisted := ((Lockstep.reachable (h.next hs)).listed d hkd.inUse).resource
    rw [hkd.cell] at hlisted
    have hbefore := ((Lockstep.reachable h).listed d hl.inUse).resource
    exact hops.object_kept (hcall.not_made hops (object_ne_none hbefore)) (object_ne_none hlisted)

/-- What a process has left open when it exited and nobody closed for it can never be destroyed. -/
theorem left_open_resource_stays (h : kernel.Reachable s) (hb : ¬ Alive s b)
    (hheld : (fd, r) ∈ (resourceHandles s).held b) (hrun : kernel.runFrom s acts = .ok u) :
    (resourceHandles u).object r = (resourceHandles s).object r ∧
      (resourceHandles u).object r ≠ none := by
  obtain ⟨d, hd, he⟩ := List.mem_map.mp hheld
  obtain ⟨rfl, rfl⟩ := Prod.mk.inj he
  have hlinked := (ResInv.reachable h).linked b d hd
  have hlost : ResLost s d := by
    refine ⟨hlinked.inUse, fun k hk => ?_⟩
    obtain rfl : k = b := ((ResInv.reachable h).linked k d hk).owner.symm.trans hlinked.owner
    exact hb
  obtain ⟨hu, -, -, ho⟩ := System.runFrom_guarded (P := fun v => kernel.Reachable v ∧ ResLost v d ∧
      v.resources.descriptor.cell d = s.resources.descriptor.cell d ∧
        (resourceHandles v).object (s.resources.descriptor.cell d).resource =
          (resourceHandles s).object (s.resources.descriptor.cell d).resource)
    hrun System.guarded_free ⟨h, hlost, rfl, rfl⟩ fun v act w ⟨hr, hl, hc, ho⟩ _ hs => by
      obtain ⟨hlw, hcw, how⟩ := step_resLost hr hl hs
      rw [hc] at how
      exact ⟨hr.next hs, hlw, hcw.trans hc, how.trans ho⟩
  exact ⟨ho, ho ▸ object_ne_none hlinked.listed⟩

/-- A child exits while its parent does not wait. The parent collects it, gives its block to
another child, and still cannot destroy the resource. -/
theorem left_open_resource_stays_reborn :
    let s := kernel.replay [.syscall dsosCallSpawn [0, 0], .tick,
      .syscall dsosCallOpenResource [4, 2, dsosCreate.toNat], .syscall dsosCallExit [3]]
    let acts := [.syscall dsosCallWait [0, 0], .syscall dsosCallSpawn [0, 0],
      .syscall dsosCallDestroyResource [4]]
    let u := kernel.replayFrom (fun _ _ => True) s acts
    (resourceHandles s).held 1 = [(0, 0)] ∧ (resourceHandles u).held 1 = [] ∧
      (u.pcb 0).syscallRetvalue = dsosEresourceinuse ∧
        (resourceHandles u).object 0 = (resourceHandles s).object 0 ∧
          (resourceHandles u).object 0 ≠ none := by
  refine ⟨by decide +kernel, by decide +kernel, by decide +kernel, ?_⟩
  refine @left_open_resource_stays _ _ 1 0 0 _ (System.reachable_replay _) ?_ (by decide +kernel)
    (System.runFrom_replayFrom (by decide +kernel))
  exact fun ha => ha.2 (by decide +kernel)

/-! ### Semaphores -/

/-- The descriptor `d` is one of the semaphore `x`, and no living process has it open. -/
structure SemLost (s : Kernel) (x d : ℕ) : Prop where
  listed : x ∈ s.sems.list.items
  inUse : s.sems.descriptor.InUse d
  ptrInUse : s.sems.descriptorPtr.InUse (s.sems.descriptor.cell d).ptr
  back : (s.sems.descriptorPtr.cell (s.sems.descriptor.cell d).ptr).descriptor = d
  entry : (s.sems.descriptor.cell d).ptr ∈ (s.sems.semaphore.cell x).descriptors.items
  dead : ∀ b, d ∈ (s.pcb b).semDescriptors.items → ¬ Alive s b

namespace SemLost

/-- A move that touches neither the descriptor nor the list of its semaphore. -/
theorem of_same (h : SemLost s x d) (hx : x ∈ t.sems.list.items)
    (hdead : ∀ b, ¬ Alive s b → ¬ Alive t b ∨ (t.pcb b).semDescriptors.items = [])
    (hsub : ∀ b, d ∈ (t.pcb b).semDescriptors.items → d ∈ (s.pcb b).semDescriptors.items)
    (hu : t.sems.descriptor.InUse d)
    (hc : t.sems.descriptor.cell d = s.sems.descriptor.cell d)
    (hpu : t.sems.descriptorPtr.InUse (s.sems.descriptor.cell d).ptr)
    (hpc : t.sems.descriptorPtr.cell (s.sems.descriptor.cell d).ptr =
      s.sems.descriptorPtr.cell (s.sems.descriptor.cell d).ptr)
    (he : (s.sems.descriptor.cell d).ptr ∈ (t.sems.semaphore.cell x).descriptors.items) :
    SemLost t x d := by
  refine ⟨hx, hu, by rwa [hc], ?_, by rwa [hc], fun b hb => ?_⟩
  · rw [hc, hpc]
    exact h.back
  · rcases hdead b (h.dead b (hsub b hb)) with hb' | hnil
    · exact hb'
    · rw [hnil] at hb
      cases hb

theorem same (h : SemLost s x d) (hs : SameSemaphores s t)
    (hdead : ∀ b, ¬ Alive s b → ¬ Alive t b ∨ (t.pcb b).semDescriptors.items = []) :
    SemLost t x d := by
  refine h.of_same ?_ hdead (fun b hb => by rwa [hs.semDescriptors] at hb) ?_ ?_ ?_ ?_ ?_
  · rw [hs.sems]; exact h.listed
  · rw [hs.sems]; exact h.inUse
  · rw [hs.sems]
  · rw [hs.sems]; exact h.ptrInUse
  · rw [hs.sems]
  · rw [hs.sems]; exact h.entry

/-- Another semaphore is found or made. -/
theorem opensAt {y : ℕ} (h : SemLost s x d) (ho : OpensAt s u p y) : SemLost u x d := by
  cases ho with
  | found listed same => exact same ▸ h
  | made st unknown taken fresh result =>
    subst result
    have hxy : x ≠ y := fun hxy => fresh (hxy ▸ h.listed)
    refine h.of_same ?_ (fun b hb => Or.inl hb) (fun b hb => hb) h.inUse rfl h.ptrInUse rfl ?_
    · exact List.mem_append_left _ h.listed
    · change _ ∈ (st.cell x).descriptors.items
      rw [taken.cell, if_neg hxy]
      exact h.entry

/-- The list of a semaphore that has a lost descriptor does not become empty. -/
theorem closed {y f e w : ℕ} (h : SemLost s x d) (hi : SemInv s) (hp : Alive s p)
    (hc : SemClosed s t p y f e w) (hptr : (s.sems.descriptor.cell f).ptr = e)
    (hwait : (s.sems.descriptor.cell f).waitPtr = w)
    (hdead : ∀ b, ¬ Alive s b → ¬ Alive t b ∨ (t.pcb b).semDescriptors.items = []) :
    SemLost t x d := by
  have hl := hi.linked p f hc.isOpen
  have hfd : d ≠ f := fun hfd => h.dead p (hfd ▸ hc.isOpen) hp
  have hne : (s.sems.descriptor.cell d).ptr ≠ e := fun he =>
    hfd (h.back.symm.trans (by rw [he, ← hptr, hl.ptr]))
  have hnw : (s.sems.descriptor.cell d).ptr ≠ w := fun hw =>
    hfd (h.back.symm.trans (by rw [hw, ← hwait, hl.waitPtr]))
  have hentry : (s.sems.descriptor.cell d).ptr ∈ (t.sems.semaphore.cell x).descriptors.items := by
    rw [hc.cell]
    split_ifs
    · exact (List.mem_erase_of_ne hne).mpr h.entry
    · exact h.entry
  refine h.of_same ?_ hdead (fun b hb => ?_) ?_ (by rw [hc.cell_descriptor]) ?_
    (by rw [hc.cell_descriptorPtr]) hentry
  · by_cases h1 : (s.sems.semaphore.cell y).descriptors.size = 1
    · have hxy : x ≠ y := by
        rintro rfl
        have hmem := (List.mem_erase_of_ne hne).mpr h.entry
        rw [(hc.unlinked h1).1] at hmem
        cases hmem
      rw [(hc.unlinked h1).2.1]
      exact (List.mem_erase_of_ne hxy).mpr h.listed
    · rw [(hc.kept h1).1]
      exact h.listed
  · rw [hc.semDescriptors] at hb
    split_ifs at hb with hbp
    · subst hbp
      exact List.mem_of_mem_erase hb
    · exact hb
  · rw [hc.descriptor, Store.free_inUse]
    exact ⟨h.inUse, hfd⟩
  · rw [hc.descriptorPtr, Store.free_inUse, Store.free_inUse]
    exact ⟨⟨h.ptrInUse, hne⟩, hnw⟩

theorem opened {y f e w : ℕ} (h : SemLost s x d) (ho : SemOpened s t p y f e w)
    (hdead : ∀ b, ¬ Alive s b → ¬ Alive t b ∨ (t.pcb b).semDescriptors.items = []) :
    SemLost t x d := by
  have hdf : d ≠ f := fun hdf => ho.fresh (hdf ▸ h.inUse)
  refine h.of_same (ho.list ▸ h.listed) hdead (fun b hb => ?_) ((ho.inUse d).mpr (Or.inl h.inUse))
    ?_ ((ho.inUsePtr _).mpr (Or.inl h.ptrInUse)) ?_ (ho.mem_entries.mpr (Or.inl h.entry))
  · rw [ho.semDescriptors] at hb
    split_ifs at hb with hbp
    · subst hbp
      exact (List.mem_append.mp hb).resolve_right fun hm => hdf (List.mem_singleton.mp hm)
    · exact hb
  · rw [ho.cell, if_neg hdf]
  · rw [ho.cellPtr, if_neg]
    rintro (he | hw)
    · exact ho.freshPtr (he ▸ h.ptrInUse)
    · exact ho.freshWaitPtr (hw ▸ h.ptrInUse)

theorem openFailed {y f : ℕ} (h : SemLost s x d) (hf : SemOpenFailed s t p y f)
    (hdead : ∀ b, ¬ Alive s b → ¬ Alive t b ∨ (t.pcb b).semDescriptors.items = []) :
    SemLost t x d := by
  refine h.of_same (hf.list ▸ h.listed) hdead (fun b hb => hf.semDescriptors b ▸ hb)
    ((hf.inUse d).mpr (Or.inl h.inUse)) (hf.cell d fun hdf => hf.fresh (hdf ▸ h.inUse))
    (hf.inUsePtr _ h.ptrInUse) (hf.cellPtr _ h.ptrInUse) ?_
  rw [hf.semaphore]
  exact h.entry

theorem newProcess (h : SemLost s x d) (hc : NewProcess s t b) : SemLost t x d := by
  refine h.of_same (hc.sems ▸ h.listed) (fun k hk => (hc.dead hk).imp id And.right)
    (fun k hm => ?_) (hc.sems ▸ h.inUse) (by rw [hc.sems]) (hc.sems ▸ h.ptrInUse)
    (by rw [hc.sems]) (hc.sems ▸ h.entry)
  rw [hc.semDescriptors] at hm
  split_ifs at hm with hkb
  · cases hm
  · exact hm

theorem move (h : SemLost s x d) (hk : KernelInv s) (hm : SemMove s t)
    (hdead : ∀ b, ¬ Alive s b → ¬ Alive t b ∨ (t.pcb b).semDescriptors.items = []) :
    SemLost t x d := by
  cases hm with
  | same same => exact h.same same hdead
  | newProcess b created => exact h.newProcess created
  | noDescriptor p y u running number notOpen opens empty result =>
    have hu := h.opensAt opens
    obtain ⟨v, rfl, -, -⟩ := opens.shape
    subst result
    exact hu.same (.setRetvalue _ p _) hdead
  | noPointer p y f u running number notOpen opens failed =>
    have hu := h.opensAt opens
    obtain ⟨v, rfl, -, -⟩ := opens.shape
    exact hu.openFailed failed hdead
  | opened p y f e w u running number notOpen opens opened =>
    have hu := h.opensAt opens
    obtain ⟨v, rfl, -, -⟩ := opens.shape
    exact hu.opened opened hdead
  | closed p y f e w running number found semaphore ptr waitPtr closed =>
    exact h.closed hk.sem (alive_of_running hk.proc running) closed ptr waitPtr hdead
  | counted y v l counted =>
    refine h.of_same ?_ hdead (fun b hb => counted.semDescriptors b ▸ hb) ?_ ?_ ?_ ?_ ?_
    all_goals rw [counted.sems]
    · exact h.listed
    · exact h.inUse
    · rfl
    · exact h.ptrInUse
    · rfl
    · simp only [semSet, Kernel.setSems_sems, Store.modify_cell]
      split_ifs <;> exact h.entry

theorem step (h : SemLost s x d) (hk : KernelInv s) (hs : kernel.step s act = .ok t) :
    SemLost t x d := by
  rcases step_call hk hs with hq | ⟨p, hd, args, hp, rfl, hke, hnum, hrun⟩ | ⟨b, -, -, hst⟩
  · exact h.same hq.semaphores fun b hb => Or.inl (mt (hq.family.alive b).mp hb)
  · have he := enterSyscall_quiet s p hd.number args
    have hv := h.same he.semaphores fun b hb => Or.inl (mt (he.family.alive b).mp hb)
    exact hv.move hke (runHandler_sem hke hp hnum hrun) fun b hb =>
      ((runHandler_family hke hp hnum hrun).dead hb).imp id And.right
  · exact h.newProcess hst.newProcess

end SemLost

/-- A semaphore is not made in the place of one that is there. -/
theorem SemCall.not_made {ops : List SemOp} (hc : SemCall s t act ops)
    (hops : (semaphoreHandles s).Performs ops (semaphoreHandles t))
    (hx : (semaphoreHandles s).object x ≠ none) : ∀ n a, Op.create x n a ∉ ops := by
  have hhead : ∀ {y n a ops'}, (semaphoreHandles s).Performs (.create y n a :: ops')
      (semaphoreHandles t) → x ≠ y := fun hp hxy => hx (hxy ▸ hp.head.1)
  cases hc with
  | created p y args running unknown =>
    have hne := hhead hops
    simp [hne]
  | leftBehind p y args running unknown full retvalue =>
    have hne := hhead hops
    simp [hne]
  | _ => simp

/-- A semaphore that a process has left open when it exited is never removed. -/
theorem left_open_semaphore_stays (h : kernel.Reachable s) (hb : ¬ Alive s b)
    (hheld : (fd, x) ∈ (semaphoreHandles s).held b) (hrun : kernel.runFrom s acts = .ok u) :
    (semaphoreHandles u).object x = (semaphoreHandles s).object x ∧
      (semaphoreHandles u).object x ≠ none := by
  obtain ⟨d, hd, he⟩ := List.mem_map.mp hheld
  obtain ⟨rfl, rfl⟩ := Prod.mk.inj he
  have hlinked := (KernelInv.reachable h).sem.linked b d hd
  have hlost : SemLost s (s.sems.descriptor.cell d).semaphore d := by
    refine ⟨hlinked.listed, hlinked.inUse, hlinked.ptrInUse, hlinked.ptr, hlinked.entry,
      fun k hk => ?_⟩
    obtain rfl : k = b :=
      ((KernelInv.reachable h).sem.linked k d hk).owner.symm.trans hlinked.owner
    exact hb
  obtain ⟨hu, -, ho⟩ := System.runFrom_guarded (P := fun v => kernel.Reachable v ∧
      SemLost v (s.sems.descriptor.cell d).semaphore d ∧
        (semaphoreHandles v).object (s.sems.descriptor.cell d).semaphore =
          (semaphoreHandles s).object (s.sems.descriptor.cell d).semaphore)
    hrun System.guarded_free ⟨h, hlost, rfl⟩ fun v act w ⟨hr, hl, ho⟩ _ hs => by
      have hlw := hl.step (.reachable hr) hs
      obtain ⟨ops, hcall, hops⟩ := semaphore_calls_mean hr hs
      have how := hops.object_kept (hcall.not_made hops (semaphore_object_ne_none hl.listed))
        (semaphore_object_ne_none hlw.listed)
      exact ⟨hr.next hs, hlw, how.trans ho⟩
  exact ⟨ho, ho ▸ semaphore_object_ne_none hlinked.listed⟩

/-- The parent waits for the child that exits, and still the semaphore outlives the last close. -/
theorem left_open_semaphore_stays_waited :
    let s := kernel.replay [.syscall dsosCallSpawn [0, 0], .syscall dsosCallSemopen [4, 1],
      .syscall dsosCallWait [0, 0], .syscall dsosCallSemopen [4, 1], .syscall dsosCallExit [3]]
    let acts := [.syscall dsosCallSemclose [0], .syscall dsosCallSpawn [0, 0]]
    let u := kernel.replayFrom (fun _ _ => True) s acts
    (semaphoreHandles s).held 1 = [(0, 0)] ∧ (semaphoreHandles u).held 0 = [] ∧
      (semaphoreHandles u).held 1 = [] ∧
        (semaphoreHandles u).object 0 = (semaphoreHandles s).object 0 ∧
          (semaphoreHandles u).object 0 ≠ none := by
  refine ⟨by decide +kernel, by decide +kernel, by decide +kernel, ?_⟩
  refine @left_open_semaphore_stays _ _ 1 0 0 _ (System.reachable_replay _) ?_ (by decide +kernel)
    (System.runFrom_replayFrom (by decide +kernel))
  exact fun ha => absurd ha.1 (by decide +kernel)

end DisastrOS
