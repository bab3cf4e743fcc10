import DisastrOS.Ownership
import DisastrOS.Progress

/-! The pointers to children are as many as there are children, in runs in which no process
exits while its parent waits for it and init stays the only process without a parent. -/
namespace DisastrOS
open BlockPool TransitionSystem Ownership

variable {s s' : Kernel} {p q b a i : ℕ}

/-- The pointers in use are the entries of the lists of children, one for each process but
init; so there is a pointer for every new process, and spawn and fork return. -/
structure EntriesConserved (s : Kernel) : Prop where
  entries : s.pcbPtrs.pool.used.card = ∑ a ∈ s.pcbs.pool.used, (children s a).length
  processes : ∑ a ∈ s.pcbs.pool.used, (children s a).length + 1 = s.pcbs.pool.used.card
  allocates : ∀ p n args b u, pcbAlloc (enterSyscall s p n args) = .ok (some b, u) →
    ∃ q v, pcbPtrAlloc ((u.setStatus b .ready).modPcb b fun c => { c with parent := some p }) b =
      .ok (some q, v)
  returns : ∀ (hd : Handler) args, hd = .spawn ∨ hd = .fork → s.running ≠ none → s.pcbs.pool.free ≠ [] →
    ∃ t, step s (.syscall hd.number args) = .ok t

/-- The step is not an exit that finds its parent waiting for it. -/
def NoHandover (s : Kernel) : Action → Prop
  | .syscall n _ => n = dsosCallExit → ∀ p ∈ s.running, ∀ a ∈ (s.pcb p).parent, ¬ WaitsFor s a p
  | .tick | .returnToProcess => True

instance (s : Kernel) (act : Action) : Decidable (NoHandover s act) :=
  match act with
  | .syscall n _ => inferInstanceAs (Decidable (n = dsosCallExit → _))
  | .tick | .returnToProcess => inferInstanceAs (Decidable True)

/-- Every pointer in use is an entry of a list of children. -/
def NoStrayPtr (s : Kernel) : Prop := ∀ q, s.pcbPtrs.InUse q → ∃ a, q ∈ children s a

/-- The pool of pointers has as many blocks as the pool of PCBs. -/
def SameSize (s : Kernel) : Prop := s.pcbPtrs.pool.sizeMax = s.pcbs.pool.sizeMax

theorem SameSize.move (h : SameSize s) (hm : FamilyMove s s') : SameSize s' := by
  unfold SameSize at h ⊢
  cases hm with
  | same same => rw [same.pcbPtrs, same.size, h]
  | create p b q cpu _ created => rw [created.sizePtr, created.size, h]
  | zombie p a i _ _ _ _ _ _ zombied => rw [zombied.pcbPtrs, zombied.size, h]
  | deliver p a i q _ _ _ _ _ _ _ _ delivered => rw [delivered.pcbPtrs, delivered.size, h]
  | collect p q _ _ _ _ result =>
    subst result
    simpa [reaped] using h
  | start b _ started => rw [started.pcbPtrs, started.size, h]

theorem sameSize_reachable (h : kernel.Reachable s) : SameSize s := by
  refine h.invariant ?_ fun s act t hr hp hm => ?_
  · unfold SameSize
    decide +kernel
  · obtain ⟨u, hu, -, hmove⟩ := step_move (KernelInv.reachable hr) hm
    refine SameSize.move ?_ hmove
    rw [SameSize, hu.pcbPtrs, hu.size, hp]

theorem NoStrayPtr.family (h : NoStrayPtr s) (hs : SameFamily s s') : NoStrayPtr s' := by
  intro q hq
  rw [hs.pcbPtrs] at hq
  obtain ⟨a, ha⟩ := h q hq
  exact ⟨a, by rwa [children, hs.children]⟩

theorem NoStrayPtr.move (h : NoStrayPtr s) (hc : ChildInv s) (hm : FamilyMove s s')
    (hno : ∀ p a, s.running = some p → (s.pcb p).syscallNum = dsosCallExit →
      (s.pcb p).parent = some a → a ∈ (s.procs .waiting).items → ¬ WaitsFor s a p) :
    NoStrayPtr s' := by
  cases hm with
  | same same => exact h.family same
  | create p b q cpu _ created =>
    intro r hr
    rcases (created.inUsePtr r).mp hr with hr | rfl
    · obtain ⟨a, ha⟩ := h r hr
      have hab : a ≠ b := fun he => created.fresh (he ▸ (hc.owner a r ha).1)
      refine ⟨a, ?_⟩
      rw [PtrInv.newChild_children created, if_neg hab]
      split_ifs with hap
      · exact List.mem_append_left _ (hap ▸ ha)
      · exact ha
    · refine ⟨p, ?_⟩
      rw [PtrInv.newChild_children created, if_neg created.differ, if_pos rfl]
      simp
  | zombie p a i _ _ _ _ differ _ zombied =>
    intro r hr
    rw [zombied.pcbPtrs] at hr
    obtain ⟨k, hk⟩ := h r hr
    by_cases hkp : k = p
    · refine ⟨i, ?_⟩
      rw [children, zombied.children, ChildInv.mem_reparented differ]
      exact Or.inr ⟨rfl, hkp ▸ hk⟩
    · refine ⟨k, ?_⟩
      rw [children, zombied.children, ChildInv.mem_reparented differ]
      exact Or.inl ⟨hkp, hk⟩
  | deliver p a i q running number parent _ _ waits waiting _ _ =>
    exact absurd waits (hno p a running number parent waiting)
  | collect p q _ _ mem _ result =>
    subst result
    intro r hr
    have hr' : s.pcbPtrs.InUse r ∧ r ≠ q := by simpa [reaped] using hr
    obtain ⟨k, hk⟩ := h r hr'.1
    refine ⟨k, ?_⟩
    rw [PtrInv.reaped_children]
    split_ifs with hkp
    · exact ((hc.ptr.nodup p).mem_erase_iff).mpr ⟨hr'.2, hkp ▸ hk⟩
    · exact hk
  | start b _ started =>
    intro r hr
    rw [started.pcbPtrs] at hr
    obtain ⟨k, hk⟩ := h r hr
    have hkb : k ≠ b := fun he => started.fresh (he ▸ (hc.owner k r hk).1)
    exact ⟨k, by rwa [PtrInv.started_children started, if_neg hkb]⟩

theorem entries_invariant (h : kernel.ReachableBy NoHandover s) : ChildInv s ∧ NoStrayPtr s := by
  refine h.invariant (P := fun s => ChildInv s ∧ NoStrayPtr s) ⟨.start, fun q hq => ?_⟩
    fun s act t hr hp hG hm => ?_
  · obtain ⟨t, -, -, hs⟩ := disastrOSStart_eq
    change disastrOSStart.pcbPtrs.InUse q at hq
    rw [hs] at hq
    exact absurd hq (Store.not_inUse_init _ _ q)
  have hki := KernelInv.reachable hr.reachable
  rcases step_family hki hm with
    hsame | ⟨p, n, args, hrun, rfl, hk, hmove⟩ | ⟨b, -, hidle, hstarted⟩
  · exact ⟨hp.1.family hsame, hp.2.family hsame⟩
  · -- the guard speaks about the state before the call, the move about the one inside it
    have hno : ∀ p' a, (enterSyscall s p n args).running = some p' →
        ((enterSyscall s p n args).pcb p').syscallNum = dsosCallExit →
        ((enterSyscall s p n args).pcb p').parent = some a →
        a ∈ ((enterSyscall s p n args).procs .waiting).items →
        ¬ WaitsFor (enterSyscall s p n args) a p' := by
      intro p' a hp' hnum hpar haw
      have hap' := hk.proc.running_ne hp' haw
      obtain rfl : p = p' := Option.some.inj (hrun ▸ hp')
      simp only [enterSyscall, Kernel.pcb_modPcb, if_true] at hnum hpar
      rw [waitsFor_enterSyscall hap']
      exact hG hnum p hrun a hpar
    refine ⟨(hp.1.family enterSyscall_family).move hk.proc hmove ?_,
      (hp.2.family enterSyscall_family).move (hp.1.family enterSyscall_family) hmove hno⟩
    exact fun p' a _ _ hp' hnum hpar _ haw hw _ => absurd hw (hno p' a hp' hnum hpar haw)
  · refine ⟨hp.1.started hstarted, hp.2.move hp.1 (.start b hidle hstarted) fun p a hrun => ?_⟩
    simp [hidle] at hrun

/-! ### The two pools -/

theorem card_pcbPtrs (hc : ChildInv s) (hn : NoStrayPtr s) :
    s.pcbPtrs.pool.used.card = ∑ a ∈ s.pcbs.pool.used, (children s a).length := by
  refine card_eq_sum_length (fun q => ?_) hc.ptr.nodup hc.ptr.disjoint
  simp only [Pool.mem_used]
  constructor
  · intro hq
    obtain ⟨a, ha⟩ := hn q hq
    exact ⟨a, (hc.owner a q ha).1, ha⟩
  · rintro ⟨a, -, ha⟩
    exact hc.ptr.inUse a q ha

/-- The pointers in use refer to the processes in use but init, one to each. -/
theorem card_pcbPtrs_add_one (hc : ChildInv s) (hn : NoStrayPtr s) (ho : OnlyInitOrphan s)
    (hi : s.initPcb = some i) (hu : s.pcbs.InUse i) (hpar : (s.pcb i).parent = none) :
    s.pcbPtrs.pool.used.card + 1 = s.pcbs.pool.used.card := by
  have himage : s.pcbPtrs.pool.used.image (child s) = s.pcbs.pool.used.erase i := by
    ext b
    simp only [Finset.mem_image, Finset.mem_erase, Pool.mem_used]
    constructor
    · rintro ⟨q, hq, rfl⟩
      obtain ⟨a, ha⟩ := hn q hq
      refine ⟨fun he => hc.hasParent a q ha ?_, hc.childInUse a q ha⟩
      rw [he, hpar]
    · rintro ⟨hbi, hb⟩
      have hbpar : (s.pcb b).parent ≠ none := fun h =>
        hbi (Option.some.inj (hi.symm.trans (ho b hb h))).symm
      obtain ⟨a, q, hq, he⟩ := hc.complete b hb hbpar
      exact ⟨q, hc.ptr.inUse a q hq, he⟩
  have hinj : Set.InjOn (child s) s.pcbPtrs.pool.used := by
    intro q hq r hr he
    obtain ⟨a, ha⟩ := hn q (Pool.mem_used.mp hq)
    obtain ⟨b, hb⟩ := hn r (Pool.mem_used.mp hr)
    exact hc.unique a q ha b r hb he
  have hcard := Finset.card_image_of_injOn hinj
  rw [himage, Finset.card_erase_of_mem (Pool.mem_used.mpr hu)] at hcard
  have hpos : 0 < s.pcbs.pool.used.card := Finset.card_pos.mpr ⟨i, Pool.mem_used.mpr hu⟩
  omega

/-- As long as no process exits while its parent waits for it, and no second process is made
without a parent, every child has one pointer and no other pointer is in use. -/
theorem entries_conserved
    (h : kernel.ReachableBy (fun s act => NoHandover s act ∧ NoRestart s act) s) :
    EntriesConserved s := by
  have hk := KernelInv.reachable h.reachable
  obtain ⟨hc, hn⟩ := entries_invariant (h.mono fun _ _ hG => hG.1)
  have ho := OnlyInitOrphan.reachableBy (h.mono fun _ _ hG => hG.2)
  obtain ⟨i, hi, hu, -⟩ := hk.proc.init
  have hsize : s.pcbPtrs.pool.sizeMax = s.pcbs.pool.sizeMax := sameSize_reachable h.reachable
  have hcard := card_pcbPtrs_add_one hc hn ho hi hu (hk.proc.parent i hi)
  -- a pointer is free whenever a PCB is
  have hfree : s.pcbs.pool.free ≠ [] → s.pcbPtrs.pool.free ≠ [] := by
    intro hb hq
    have h1 := s.pcbs.pool.card_used_add_free
    have h2 := s.pcbPtrs.pool.card_used_add_free
    rw [hq, List.length_nil] at h2
    have := List.length_pos_of_ne_nil hb
    omega
  constructor
  case entries => exact card_pcbPtrs hc hn
  case processes => rw [← card_pcbPtrs hc hn, hcard]
  case allocates =>
    intro p n args b u hb
    obtain ⟨b', t, -, ha, rfl⟩ := pcbAlloc_ok hb
    refine pcbPtrAlloc_isOk ?_
    have hne : s.pcbs.pool.free ≠ [] := by
      have : s.pcbs.pool.free = b' :: t.pool.free := ha.free
      simp [this]
    exact hfree hne
  case returns =>
    intro hd args hhd hrun hb
    obtain ⟨p, hp⟩ := Option.ne_none_iff_exists'.mp hrun
    have hnew : ∃ r, newChild (enterSyscall s p hd.number args) = .ok r :=
      newChild_isOk (hk.enter hp) (hc.ptr.family enterSyscall_family) hp hb (hfree hb)
    rcases hhd with rfl | rfl
    · exact step_isOk hp (internalSpawn_isOk hnew)
    · exact step_isOk hp (internalFork_isOk hnew)

theorem entries_conserved_collected :
    let s := kernel.replayBy (fun s act => NoHandover s act ∧ NoRestart s act) [
      .syscall dsosCallSpawn [0, 0],
      .syscall dsosCallPreempt [], .syscall dsosCallExit [7], .syscall dsosCallWait [0, 0]]
    (s.pcb 0).syscallRetvalue = 1 ∧ EntriesConserved s :=
  ⟨by decide +kernel, entries_conserved (System.reachableBy_replayBy _)⟩

theorem EntriesConserved.free (h : EntriesConserved s) :
    s.pcbPtrs.pool.sizeMax + s.pcbs.pool.free.length + 1 =
      s.pcbs.pool.sizeMax + s.pcbPtrs.pool.free.length := by
  have hptrs := s.pcbPtrs.pool.card_used_add_free
  have hpcbs := s.pcbs.pool.card_used_add_free
  have hentries := h.entries
  have hprocesses := h.processes
  omega

/-- A child that exits while its parent waits for it leaves its pointer behind, and a first
process that falls asleep alone is followed by another that has no pointer either. -/
theorem pcbPtr_lost :
    ¬ EntriesConserved (kernel.replay [.syscall dsosCallSpawn [0, 0],
      .syscall dsosCallWait [0, 0], .syscall dsosCallExit [7]]) ∧
    ¬ EntriesConserved (kernel.replay [.syscall dsosCallSleep [5], .returnToProcess]) := by
  constructor <;> exact fun h => absurd h.free (by decide +kernel)

end DisastrOS
