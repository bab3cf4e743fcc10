import DisastrOS.SemaphoreReturns

/-! The relation between the processes and the semaphores that they have open, as both sides
and the pools see it. -/
namespace DisastrOS
open BlockPool TransitionSystem Ownership

variable {s s' u : Kernel} {p q b d e w x y : ℕ}

/-- The processes that have the semaphore `x` open. -/
def openers (s : Kernel) (x : ℕ) : Finset ℕ := s.pcbs.pool.used.filter fun b => HasOpen s b x

/-- A close by `p` of its descriptor `d` returns; its semaphore goes, and its block is free, if
nobody else has it open, and every other semaphore stays. -/
def ClosesWithLast (s : Kernel) (p d : ℕ) (args : List ℤ) : Prop :=
  ∃ t, kernel.step s (.syscall dsosCallSemclose args) = .ok t ∧
    (((s.sems.descriptor.cell d).semaphore ∉ t.sems.list.items ∧
        ¬ t.sems.semaphore.InUse (s.sems.descriptor.cell d).semaphore) ↔
      openers s (s.sems.descriptor.cell d).semaphore = {p}) ∧
    ∀ y ≠ (s.sems.descriptor.cell d).semaphore,
      (y ∈ t.sems.list.items ↔ y ∈ s.sems.list.items) ∧
      (t.sems.semaphore.InUse y ↔ s.sems.semaphore.InUse y)

/-- What is open in the processes and what the semaphores have in their lists is the same, and
nothing else is in use. -/
structure TwoSided (s : Kernel) : Prop where
  ids : ∀ x ∈ s.sems.list.items, ∀ y ∈ s.sems.list.items,
    (s.sems.semaphore.cell x).id = (s.sems.semaphore.cell y).id → x = y
  owner : ∀ p, ∀ d ∈ (s.pcb p).semDescriptors.items, (s.sems.descriptor.cell d).pcb = p
  linked : ∀ d, d ∈ (s.pcb (s.sems.descriptor.cell d).pcb).semDescriptors.items ↔
    (s.sems.descriptorPtr.cell (s.sems.descriptor.cell d).ptr).descriptor = d ∧
    (s.sems.descriptor.cell d).ptr ∈
      (s.sems.semaphore.cell (s.sems.descriptor.cell d).semaphore).descriptors.items ∧
    (s.sems.descriptor.cell d).semaphore ∈ s.sems.list.items
  unique : ∀ p, ∀ d ∈ (s.pcb p).semDescriptors.items, ∀ d' ∈ (s.pcb p).semDescriptors.items,
    (s.sems.descriptor.cell d).semaphore = (s.sems.descriptor.cell d').semaphore → d = d'
  fds : ∀ p, ∀ d ∈ (s.pcb p).semDescriptors.items, ∀ d' ∈ (s.pcb p).semDescriptors.items,
    (s.sems.descriptor.cell d).fd = (s.sems.descriptor.cell d').fd → d = d'
  lastFd : ∀ p, ∀ d ∈ (s.pcb p).semDescriptors.items,
    (s.sems.descriptor.cell d).fd < (s.pcb p).lastSemFd
  size : ∀ x ∈ s.sems.list.items,
    (s.sems.semaphore.cell x).descriptors.size = (openers s x).card ∧ 1 ≤ (openers s x).card
  queued : ∀ x, ∀ w ∈ queue s x, ∃ p, ∃ d ∈ (s.pcb p).semDescriptors.items,
    (s.sems.descriptor.cell d).waitPtr = w ∧ (s.sems.descriptor.cell d).semaphore = x
  descriptors : s.sems.descriptor.pool.used.card =
    ∑ p ∈ s.pcbs.pool.used, (s.pcb p).semDescriptors.items.length
  pointers : s.sems.descriptorPtr.pool.used.card = 2 * s.sems.descriptor.pool.used.card
  semaphores : s.sems.semaphore.pool.used.card = s.sems.list.items.length
  closes : ∀ p args d, s.running = some p →
    semDescriptorListByFd s.sems (s.pcb p).semDescriptors (toInt (args.getD 0 0)) = some d →
    ClosesWithLast s p d args

/-- An open of `p` that makes a descriptor finds a block for everything. -/
def SemOpenRoom (s : Kernel) (p : ℕ) (semnum : ℤ) : Prop :=
  mySearch s.sems (s.pcb p).semDescriptors semnum ≠ none ∨
    ((semaphoreListById s.sems semnum ≠ none ∨ s.sems.semaphore.pool.free ≠ []) ∧
      s.sems.descriptor.pool.free ≠ [] ∧ 2 ≤ s.sems.descriptorPtr.pool.free.length)

instance (s : Kernel) (p : ℕ) (semnum : ℤ) : Decidable (SemOpenRoom s p semnum) :=
  inferInstanceAs (Decidable (_ ∨ _))

/-- The open of `p` does not make the number of its next descriptor overflow. -/
def SemFdFits (s : Kernel) (p : ℕ) (semnum : ℤ) : Prop :=
  mySearch s.sems (s.pcb p).semDescriptors semnum ≠ none ∨ (s.pcb p).lastSemFd < 2 ^ 31 - 1

instance (s : Kernel) (p : ℕ) (semnum : ℤ) : Decidable (SemFdFits s p semnum) :=
  inferInstanceAs (Decidable (_ ∨ _))

/-- No allocation for a semaphore fails in the step, and no process exits that has one open. -/
def RoomAndClosed (s : Kernel) : Action → Prop
  | .syscall n args => ∀ p ∈ s.running,
      (n = dsosCallExit → (s.pcb p).semDescriptors.items = []) ∧
      (n = dsosCallSemopen → SemOpenRoom s p (toInt (args.getD 0 0)))
  | .tick | .returnToProcess => True

instance (s : Kernel) (act : Action) : Decidable (RoomAndClosed s act) :=
  match act with
  | .syscall n _ => inferInstanceAs (Decidable (∀ p ∈ s.running, (n = dsosCallExit → _) ∧ _))
  | .tick | .returnToProcess => inferInstanceAs (Decidable True)

/-- The same, and the step does not make the number of a next descriptor overflow. -/
def RoomAndFds (s : Kernel) : Action → Prop
  | .syscall n args => RoomAndClosed s (.syscall n args) ∧
      ∀ p ∈ s.running, n = dsosCallSemopen → SemFdFits s p (toInt (args.getD 0 0))
  | .tick | .returnToProcess => True

instance (s : Kernel) (act : Action) : Decidable (RoomAndFds s act) :=
  match act with
  | .syscall n _ =>
    inferInstanceAs (Decidable (_ ∧ ∀ p ∈ s.running, n = dsosCallSemopen → _))
  | .tick | .returnToProcess => inferInstanceAs (Decidable True)

/-! ### Numbers and pointers -/

/-- Numbers are given out in increasing order. -/
structure FdInv (s : Kernel) : Prop where
  next : ∀ p, 0 ≤ (s.pcb p).lastSemFd
  fds : ∀ p, ∀ d ∈ (s.pcb p).semDescriptors.items, ∀ d' ∈ (s.pcb p).semDescriptors.items,
    (s.sems.descriptor.cell d).fd = (s.sems.descriptor.cell d').fd → d = d'
  lastFd : ∀ p, ∀ d ∈ (s.pcb p).semDescriptors.items,
    (s.sems.descriptor.cell d).fd < (s.pcb p).lastSemFd

/-- Every pointer in use is one of the two of a descriptor in use. -/
def PtrHeld (s : Kernel) : Prop :=
  ∀ e, s.sems.descriptorPtr.InUse e → ∃ d, s.sems.descriptor.InUse d ∧
    ((s.sems.descriptor.cell d).ptr = e ∨ (s.sems.descriptor.cell d).waitPtr = e)

theorem SemOpenRoom.whole {semnum : ℤ} (h : SemOpenRoom s p semnum) :
    SemOpenWhole s p semnum := by
  rcases h with h | ⟨-, h⟩
  · exact Or.inl h
  · exact Or.inr (Or.inr (Or.inr h))

theorem toInt_succ {n : ℤ} (h0 : 0 ≤ n) (h : n < 2 ^ 31 - 1) : toInt (n + 1) = n + 1 :=
  Int.bmod_eq_of_le (by omega) (by omega)

namespace FdInv

theorem same (h : FdInv s) (hs : SameSemaphores s s') : FdInv s' := by
  refine ⟨fun p => ?_, fun p => ?_, fun p => ?_⟩
  · rw [hs.lastSemFd]
    exact h.next p
  · rw [hs.semDescriptors, hs.sems]
    exact h.fds p
  · rw [hs.semDescriptors, hs.sems, hs.lastSemFd]
    exact h.lastFd p

/-- What is open in the new state was open in the old one, under the same number. -/
theorem of_subset (h : FdInv s) (hsub : ∀ p, ∀ d ∈ (s'.pcb p).semDescriptors.items,
      d ∈ (s.pcb p).semDescriptors.items ∧ (s'.pcb p).lastSemFd = (s.pcb p).lastSemFd)
    (hfd : ∀ d, (s'.sems.descriptor.cell d).fd = (s.sems.descriptor.cell d).fd)
    (hnext : ∀ p, 0 ≤ (s'.pcb p).lastSemFd) : FdInv s' := by
  refine ⟨hnext, fun p d hd d' hd' he => ?_, fun p d hd => ?_⟩
  · rw [hfd, hfd] at he
    exact h.fds p d (hsub p d hd).1 d' (hsub p d' hd').1 he
  · rw [hfd, (hsub p d hd).2]
    exact h.lastFd p d (hsub p d hd).1

theorem opened (h : FdInv s) (hsem : SemInv s) (ho : SemOpened s s' p x d e w)
    (hfit : (s.pcb p).lastSemFd < 2 ^ 31 - 1) : FdInv s' := by
  have hlast : (s'.pcb p).lastSemFd = (s.pcb p).lastSemFd + 1 := by
    rw [ho.lastSemFd, if_pos rfl, toInt_succ (h.next p) hfit]
  have hold : ∀ k, k ≠ p → (s'.pcb k).lastSemFd = (s.pcb k).lastSemFd := fun k hk => by
    rw [ho.lastSemFd, if_neg hk]
  have hnew : (s'.sems.descriptor.cell d).fd = (s.pcb p).lastSemFd := by rw [ho.cell_new]
  have hmem : ∀ k f, f ∈ (s'.pcb k).semDescriptors.items → f ∈ (s.pcb k).semDescriptors.items ∧
      (s'.sems.descriptor.cell f).fd = (s.sems.descriptor.cell f).fd ∨ k = p ∧ f = d := by
    intro k f hf
    rw [ho.semDescriptors] at hf
    have hcell : ∀ j, f ∈ (s.pcb j).semDescriptors.items →
        (s'.sems.descriptor.cell f).fd = (s.sems.descriptor.cell f).fd := fun j hj => by
      rw [(hsem.opened_old ho hj).2.1]
    split_ifs at hf with hk
    · rcases List.mem_append.mp hf with hf | hf
      · exact Or.inl ⟨hk ▸ hf, hcell p hf⟩
      · exact Or.inr ⟨hk, List.mem_singleton.mp hf⟩
    · exact Or.inl ⟨hf, hcell k hf⟩
  refine ⟨fun k => ?_, fun k f hf g hg he => ?_, fun k f hf => ?_⟩
  · by_cases hk : k = p
    · have := h.next p
      rw [hk, hlast]
      omega
    · rw [hold k hk]
      exact h.next k
  · rcases hmem k f hf with ⟨hf, hfd⟩ | ⟨rfl, rfl⟩ <;> rcases hmem k g hg with ⟨hg, hgd⟩ | ⟨hk, rfl⟩
    · rw [hfd, hgd] at he
      exact h.fds k f hf g hg he
    · subst hk
      rw [hfd, hnew] at he
      have := h.lastFd k f hf
      omega
    · rw [hgd, hnew] at he
      have := h.lastFd k g hg
      omega
    · rfl
  · rcases hmem k f hf with ⟨hf, hfd⟩ | ⟨rfl, rfl⟩
    · have hlt := h.lastFd k f hf
      rw [hfd]
      by_cases hk : k = p
      · subst hk
        omega
      · rw [hold k hk]
        exact hlt
    · omega

end FdInv

theorem PtrHeld.same (h : PtrHeld s) (hs : SameSemaphores s s') : PtrHeld s' := by
  rw [PtrHeld, hs.sems]
  exact h

theorem PtrHeld.opened (h : PtrHeld s) (ho : SemOpened s s' p x d e w) : PtrHeld s' := by
  intro g hg
  rcases (ho.inUsePtr g).mp hg with hg | rfl | rfl
  · obtain ⟨f, hf, hfg⟩ := h g hg
    refine ⟨f, (ho.inUse f).mpr (Or.inl hf), ?_⟩
    rwa [ho.cell_old hf]
  · exact ⟨d, (ho.inUse d).mpr (Or.inr rfl), Or.inl (by rw [ho.cell_new])⟩
  · exact ⟨d, (ho.inUse d).mpr (Or.inr rfl), Or.inr (by rw [ho.cell_new])⟩

theorem PtrHeld.closed (h : PtrHeld s) (hc : SemClosed s s' p x d e w)
    (he : (s.sems.descriptor.cell d).ptr = e) (hw : (s.sems.descriptor.cell d).waitPtr = w) :
    PtrHeld s' := by
  intro g hg
  rw [hc.descriptorPtr, Store.free_inUse, Store.free_inUse] at hg
  obtain ⟨f, hf, hfg⟩ := h g hg.1.1
  have hfd : f ≠ d := by
    rintro rfl
    rcases hfg with hfg | hfg
    · exact hg.1.2 (hfg.symm.trans he)
    · exact hg.2 (hfg.symm.trans hw)
  refine ⟨f, ?_, ?_⟩
  · rw [hc.descriptor, Store.free_inUse]
    exact ⟨hf, hfd⟩
  · rwa [hc.cell_descriptor]

/-! ### All together -/

structure RelationInv (s : Kernel) : Prop where
  owned : SemOwned s
  held : SemHeld s
  ptrs : PtrHeld s

theorem SemOpenRoom.quiet {semnum : ℤ} (h : SemOpenRoom s p semnum) (hq : Quiet s s') :
    SemOpenRoom s' p semnum := by
  unfold SemOpenRoom
  rw [hq.semaphores.sems, hq.semaphores.semDescriptors]
  exact h

/-- An open that has room makes a descriptor. -/
theorem SemOpenRoom.succeeds {args : List ℤ} (hr : SemOpenRoom s p (toInt (args.getD 0 0)))
    (hk : KernelInv s) (hp : s.running = some p)
    (hnone : mySearch s.sems (s.pcb p).semDescriptors (toInt (args.getD 0 0)) = none) :
    ∃ t u x d e w, kernel.step s (.syscall dsosCallSemopen args) = .ok t ∧
      OpensAt (enterSyscall s p dsosCallSemopen args) u p x ∧ SemOpened u t p x d e w := by
  obtain ⟨hsem, hdesc, hptr⟩ := hr.resolve_left fun hne => hne hnone
  have hsems := (enterSyscall_sems s p dsosCallSemopen args).1
  obtain ⟨t, ht, hret⟩ := step_semOpen hk hp hnone
  cases hret with
  | noSemaphore unknown full result =>
    rw [hsems] at unknown full
    exact absurd full (hsem.resolve_left fun hne => hne unknown)
  | noDescriptor x u opens full result => exact absurd (hsems ▸ full) hdesc
  | noPointer x d u opens full failed =>
    rw [hsems] at full
    omega
  | opened x d e w u opens opened => exact ⟨t, u, x, d, e, w, ht, opens, opened⟩

theorem SemFdFits.quiet {semnum : ℤ} (h : SemFdFits s p semnum) (hq : Quiet s s') :
    SemFdFits s' p semnum := by
  unfold SemFdFits
  rw [hq.semaphores.sems, hq.semaphores.semDescriptors, hq.semaphores.lastSemFd]
  exact h

theorem PtrHeld.move (h : PtrHeld s) (hs : SemMove s s')
    (hwhole : ∀ p, s.running = some p → (s.pcb p).syscallNum = dsosCallSemopen →
      SemOpenWhole s p (toInt ((s.pcb p).syscallArgs 0))) : PtrHeld s' := by
  cases hs with
  | same same => exact h.same same
  | newProcess b created =>
    rw [PtrHeld, created.sems]
    exact h
  | noDescriptor p x u running number notOpen opens empty result =>
    obtain ⟨t, rfl, hd, he⟩ := opens.shape
    subst result
    simpa only [PtrHeld, Kernel.setRetvalue, Kernel.emit_sems, Kernel.modPcb_sems,
      Kernel.setSems_sems, hd, he] using h
  | noPointer p x d u running number notOpen opens failed =>
    exact absurd failed (not_openFailed opens (hwhole p running number) notOpen)
  | opened p x d e w u running number notOpen opens opened =>
    obtain ⟨t, rfl, hd, he⟩ := opens.shape
    refine PtrHeld.opened ?_ opened
    simpa only [PtrHeld, Kernel.setSems_sems, hd, he] using h
  | closed p x d e w running number found semaphore ptr waitPtr closed =>
    exact h.closed closed ptr waitPtr
  | counted x v l counted =>
    rw [PtrHeld, counted.sems]
    exact h

theorem FdInv.move (h : FdInv s) (hk : KernelInv s) (hs : SemMove s s')
    (hroom : ∀ p, s.running = some p → (s.pcb p).syscallNum = dsosCallSemopen →
      SemOpenRoom s p (toInt ((s.pcb p).syscallArgs 0)))
    (hfit : ∀ p, s.running = some p → (s.pcb p).syscallNum = dsosCallSemopen →
      SemFdFits s p (toInt ((s.pcb p).syscallArgs 0))) : FdInv s' := by
  cases hs with
  | same same => exact h.same same
  | newProcess b created =>
    refine h.of_subset (fun k d hd => ?_) (fun d => by rw [created.sems]) fun k => ?_
    · rw [created.semDescriptors] at hd
      split_ifs at hd with hk
      · cases hd
      · exact ⟨hd, by rw [created.lastSemFd, if_neg hk]⟩
    · rw [created.lastSemFd]
      split_ifs
      · exact le_rfl
      · exact h.next k
  | noDescriptor p x u running number notOpen opens empty result =>
    obtain ⟨t, rfl, hd, -⟩ := opens.shape
    subst result
    refine h.of_subset (fun k f hf => ⟨?_, ?_⟩) (fun f => ?_) fun k => ?_
    · simpa using hf
    · simp
    · simp [hd]
    · simpa using h.next k
  | noPointer p x d u running number notOpen opens failed =>
    exact absurd failed (not_openFailed opens (hroom p running number).whole notOpen)
  | opened p x d e w u running number notOpen opens opened =>
    have hsem := (opens.invariant hk).sem
    obtain ⟨t, rfl, hd, -⟩ := opens.shape
    have hu : FdInv (s.setSems t) :=
      h.of_subset (fun k f hf => ⟨hf, rfl⟩) (fun f => by rw [Kernel.setSems_sems, hd]) h.next
    exact hu.opened hsem opened ((hfit p running number).resolve_left fun hne => hne notOpen)
  | closed p x d e w running number found semaphore ptr waitPtr closed =>
    refine h.of_subset (fun k f hf => ⟨?_, closed.lastSemFd k⟩) (fun f => ?_) fun k => ?_
    · rw [closed.semDescriptors] at hf
      split_ifs at hf with hk
      · exact hk ▸ List.mem_of_mem_erase hf
      · exact hf
    · rw [closed.cell_descriptor]
    · rw [closed.lastSemFd]
      exact h.next k
  | counted x v l counted =>
    refine h.of_subset (fun k f hf => ⟨?_, counted.lastSemFd k⟩) (fun f => ?_) fun k => ?_
    · rwa [counted.semDescriptors] at hf
    · rw [counted.sems]
      rfl
    · rw [counted.lastSemFd]
      exact h.next k

/-- What the guard says about the state in which the handler starts. -/
theorem RoomAndClosed.entered {act : Action} (hG : RoomAndClosed s act) (he : Entered s u act p)
    (k : ℕ) (hk : u.running = some k) (hn : (u.pcb k).syscallNum = dsosCallSemopen) :
    SemOpenRoom u k (toInt ((u.pcb k).syscallArgs 0)) := by
  refine he.onOpen (fun n h => h.quiet he.quiet) ?_ k hk hn
  rintro args rfl
  exact (hG p he.running).2 rfl

theorem RelationInv.start : RelationInv disastrOSStart := by
  obtain ⟨t, -, hc, hs⟩ := disastrOSStart_eq
  rw [hs]
  have hnil : ∀ k, (t.cell k).semDescriptors.items = [] := by
    intro k
    rw [hc]
    split_ifs <;> rfl
  exact ⟨⟨fun d hd => absurd hd (Store.not_inUse_init _ _ d), fun b => Or.inr (hnil b)⟩,
    fun _ hx => absurd hx List.not_mem_nil, fun e he => absurd he (Store.not_inUse_init _ _ e)⟩

/-- A step keeps the relation unless a process exits with a semaphore open or an open takes some
of its blocks only. -/
theorem RelationInv.step {act : Action} {t : Kernel} (h : RelationInv s) (hk : KernelInv s)
    (hs : step s act = .ok t)
    (hexit : ∀ p ∈ s.running, ∀ args, act = .syscall dsosCallExit args →
      (s.pcb p).semDescriptors.items = [])
    (hwhole : ∀ p ∈ s.running, ∀ args, act = .syscall dsosCallSemopen args →
      SemOpenWhole s p (toInt (args.getD 0 0))) : RelationInv t := by
  rcases step_sem hk hs with hq | ⟨u, p, he, hfamily, hmove⟩ | ⟨b, -, hidle, hc⟩
  · exact ⟨h.owned.quiet hq, h.held.same hq.semaphores, h.ptrs.same hq.semaphores⟩
  · have hexit' := he.onExit (hexit p he.running)
    have hwhole' := he.onOpen (fun n h => h.quiet he.quiet) (hwhole p he.running)
    exact ⟨(h.owned.quiet he.quiet).move he.invariant hfamily hmove hexit' hwhole',
      (h.held.same he.quiet.semaphores).move he.invariant hmove hwhole',
      (h.ptrs.same he.quiet.semaphores).move hmove hwhole'⟩
  · have hmove : SemMove s t := .newProcess b hc.newProcess
    have hnone : ∀ p, s.running ≠ some p := fun p hp => by simp [hidle] at hp
    have hexit' : ∀ p, s.running = some p → (s.pcb p).syscallNum = dsosCallExit →
        (s.pcb p).semDescriptors.items = [] := fun p hp => absurd hp (hnone p)
    have hwhole' : ∀ p, s.running = some p → (s.pcb p).syscallNum = dsosCallSemopen →
        SemOpenWhole s p (toInt ((s.pcb p).syscallArgs 0)) := fun p hp => absurd hp (hnone p)
    exact ⟨h.owned.move hk (.start b hidle hc) hmove hexit' hwhole', h.held.move hk hmove hwhole',
      h.ptrs.move hmove hwhole'⟩

theorem RelationInv.reachableBy (h : kernel.ReachableBy RoomAndClosed s) : RelationInv s := by
  refine h.invariant (P := RelationInv) RelationInv.start fun s act t hr hi hG hm => ?_
  refine hi.step (KernelInv.reachable hr.reachable) hm ?_ ?_
  · rintro p hp args rfl
    exact (hG p hp).1 rfl
  · rintro p hp args rfl
    exact ((hG p hp).2 rfl).whole

theorem RoomAndFds.closed {act : Action} (hG : RoomAndFds s act) : RoomAndClosed s act := by
  cases act with
  | syscall n args => exact hG.1
  | tick => trivial
  | returnToProcess => trivial

theorem FdInv.reachableBy (h : kernel.ReachableBy RoomAndFds s) : FdInv s := by
  refine h.invariant (P := FdInv) ?_ fun s act t hr hp hG hm => ?_
  · obtain ⟨t, -, hc, hs⟩ := disastrOSStart_eq
    change FdInv disastrOSStart
    rw [hs]
    have hcell : ∀ k, (t.cell k).semDescriptors.items = [] ∧ (t.cell k).lastSemFd = 0 := by
      intro k
      rw [hc]
      split_ifs <;> exact ⟨rfl, rfl⟩
    refine ⟨fun k => ?_, fun k d hd => ?_, fun k d hd => ?_⟩
    · simp [Kernel.pcb, (hcell k).2]
    · simp [Kernel.pcb, (hcell k).1] at hd
    · simp [Kernel.pcb, (hcell k).1] at hd
  have hk := KernelInv.reachable hr.reachable
  rcases step_sem hk hm with hq | ⟨u, p, he, -, hmove⟩ | ⟨b, rfl, hidle, hc⟩
  · exact hp.same hq.semaphores
  · refine (hp.same he.quiet.semaphores).move he.invariant hmove (hG.closed.entered he) ?_
    refine he.onOpen (fun n h => h.quiet he.quiet) ?_
    rintro args rfl
    exact hG.2 p he.running rfl
  · refine hp.move hk (.newProcess b hc.newProcess) (fun p hr => ?_) fun p hr => ?_
    · simp [hidle] at hr
    · simp [hidle] at hr

/-! ### Counting -/

theorem mem_openers (h : RelationInv s) : b ∈ openers s x ↔ HasOpen s b x := by
  rw [openers, Finset.mem_filter, Pool.mem_used]
  refine ⟨fun hb => hb.2, fun hb => ⟨?_, hb⟩⟩
  obtain ⟨d, hd, -⟩ := hb
  refine ((h.owned.none b).resolve_right fun hnil => ?_).1
  rw [hnil] at hd
  cases hd

/-- The entries of a semaphore belong to different processes, all that have it open. -/
theorem image_waiter (h : RelationInv s) (hk : SemInv s) (x : ℕ) :
    (s.sems.semaphore.cell x).descriptors.items.toFinset.image (waiter s) = openers s x := by
  ext b
  rw [Finset.mem_image, mem_openers h]
  constructor
  · rintro ⟨e, he, rfl⟩
    have hen := hk.entry x e (List.mem_toFinset.mp he)
    exact ⟨_, h.owned.mem _ hen.descInUse, hen.semaphore⟩
  · rintro ⟨d, hd, rfl⟩
    have hl := hk.linked b d hd
    exact ⟨_, List.mem_toFinset.mpr hl.entry, by rw [waiter, hl.ptr, hl.owner]⟩

theorem size_eq_card (h : RelationInv s) (hk : SemInv s) (x : ℕ) :
    (s.sems.semaphore.cell x).descriptors.size = (openers s x).card := by
  rw [hk.size, ← image_waiter h hk, Finset.card_image_of_injOn,
    List.toFinset_card_of_nodup (hk.entriesNodup x)]
  intro e he f hf hef
  have hen := hk.entry x e (List.mem_toFinset.mp he)
  have hfn := hk.entry x f (List.mem_toFinset.mp hf)
  have hmf := h.owned.mem _ hfn.descInUse
  have hef' : (s.sems.descriptor.cell (s.sems.descriptorPtr.cell f).descriptor).pcb =
      (s.sems.descriptor.cell (s.sems.descriptorPtr.cell e).descriptor).pcb := hef.symm
  simp only [hef'] at hmf
  have hsame := hen.semaphore.trans hfn.semaphore.symm
  have hd := hk.unique _ _ (h.owned.mem _ hen.descInUse) _ hmf hsame
  rw [← hen.ptr, ← hfn.ptr, hd]

theorem card_descriptors (h : RelationInv s) (hk : SemInv s) :
    s.sems.descriptor.pool.used.card =
      ∑ p ∈ s.pcbs.pool.used, (s.pcb p).semDescriptors.items.length := by
  refine card_eq_sum_length (fun d => ?_) hk.ownNodup fun b c d hb hc => ?_
  · simp only [Pool.mem_used]
    constructor
    · intro hd
      exact ⟨_, (h.owned.alive_owner hd).1, h.owned.mem d hd⟩
    · rintro ⟨b, -, hd⟩
      exact (hk.linked b d hd).inUse
  · exact (hk.linked b d hb).owner.symm.trans (hk.linked c d hc).owner

/-- The links of a descriptor in use. -/
theorem RelationInv.linked (h : RelationInv s) (hk : SemInv s) (hd : s.sems.descriptor.InUse d) :
    SemLinked s (s.sems.descriptor.cell d).pcb d := hk.linked _ d (h.owned.mem d hd)

theorem card_pointers (h : RelationInv s) (hk : SemInv s) :
    s.sems.descriptorPtr.pool.used.card = 2 * s.sems.descriptor.pool.used.card := by
  let ptr d := (s.sems.descriptor.cell d).ptr
  let waitPtr d := (s.sems.descriptor.cell d).waitPtr
  have hlinked : ∀ d ∈ s.sems.descriptor.pool.used, SemLinked s (s.sems.descriptor.cell d).pcb d :=
    fun d hd => h.linked hk (Pool.mem_used.mp hd)
  have hunion : s.sems.descriptorPtr.pool.used =
      s.sems.descriptor.pool.used.image ptr ∪ s.sems.descriptor.pool.used.image waitPtr := by
    ext e
    simp only [Finset.mem_union, Finset.mem_image, Pool.mem_used]
    constructor
    · intro he
      obtain ⟨d, hd, hde | hde⟩ := h.ptrs e he
      · exact Or.inl ⟨d, hd, hde⟩
      · exact Or.inr ⟨d, hd, hde⟩
    · rintro (⟨d, hd, rfl⟩ | ⟨d, hd, rfl⟩)
      · exact (h.linked hk hd).ptrInUse
      · exact (h.linked hk hd).waitPtrInUse
  have hinjPtr : Set.InjOn ptr s.sems.descriptor.pool.used := fun d hd f hf hdf => by
    rw [← (hlinked d hd).ptr, ← (hlinked f hf).ptr]
    exact congrArg (fun e => (s.sems.descriptorPtr.cell e).descriptor) hdf
  have hinjWait : Set.InjOn waitPtr s.sems.descriptor.pool.used := fun d hd f hf hdf => by
    rw [← (hlinked d hd).waitPtr, ← (hlinked f hf).waitPtr]
    exact congrArg (fun e => (s.sems.descriptorPtr.cell e).descriptor) hdf
  have hdisjoint : Disjoint (s.sems.descriptor.pool.used.image ptr)
      (s.sems.descriptor.pool.used.image waitPtr) := by
    refine Finset.disjoint_left.mpr fun e he hw => ?_
    obtain ⟨d, hd, rfl⟩ := Finset.mem_image.mp he
    obtain ⟨f, hf, hfd⟩ := Finset.mem_image.mp hw
    have hfd' : (s.sems.descriptor.cell f).waitPtr = (s.sems.descriptor.cell d).ptr := hfd
    obtain rfl : f = d := by rw [← (hlinked f hf).waitPtr, hfd', (hlinked d hd).ptr]
    exact (hlinked f hf).differ hfd'
  rw [hunion, Finset.card_union_of_disjoint hdisjoint, Finset.card_image_of_injOn hinjPtr,
    Finset.card_image_of_injOn hinjWait]
  omega

theorem card_semaphores (hk : SemInv s) :
    s.sems.semaphore.pool.used.card = s.sems.list.items.length := by
  rw [← List.toFinset_card_of_nodup hk.nodup]
  congr 1
  ext x
  rw [Pool.mem_used, List.mem_toFinset, hk.inUse]

theorem closes_with_last {args : List ℤ} (hk : KernelInv s) (h : RelationInv s)
    (hp : s.running = some p)
    (hd : semDescriptorListByFd s.sems (s.pcb p).semDescriptors (toInt (args.getD 0 0)) = some d) :
    ClosesWithLast s p d args := by
  obtain ⟨t, ht, hc⟩ := step_semClose hk hp hd
  refine ⟨t, ht, ?_⟩
  have hsems : (enterSyscall s p dsosCallSemclose args).sems = s.sems := by simp [enterSyscall]
  have hxl := (hk.sem.linked p d (SemInv.byFd_mem hd)).listed
  generalize hx : (s.sems.descriptor.cell d).semaphore = x at *
  obtain ⟨hunlinked, hkept⟩ := And.intro hc.unlinked hc.kept
  rw [hsems] at hunlinked hkept
  have hpopen : p ∈ openers s x := (mem_openers h).mpr ⟨d, SemInv.byFd_mem hd, hx⟩
  have hone : (s.sems.semaphore.cell x).descriptors.size = 1 ↔ openers s x = {p} := by
    have hcast : ((openers s x).card : ℤ) = 1 ↔ (openers s x).card = 1 := by omega
    rw [size_eq_card h hk.sem, hcast, Finset.card_eq_one]
    constructor
    · rintro ⟨b, hb⟩
      rw [hb, Finset.mem_singleton] at hpopen
      rw [hb, hpopen]
    · exact fun hb => ⟨p, hb⟩
  by_cases h1 : (s.sems.semaphore.cell x).descriptors.size = 1
  · obtain ⟨-, hlist, hinUse⟩ := hunlinked h1
    rw [hlist]
    refine ⟨iff_of_true ⟨fun hm => ?_, fun hu => ?_⟩ (hone.mp h1), fun y hy => ⟨?_, ?_⟩⟩
    · exact (hk.sem.nodup.mem_erase_iff.mp hm).1 rfl
    · exact ((hinUse x).mp hu).2 rfl
    · rw [hk.sem.nodup.mem_erase_iff, and_iff_right hy]
    · rw [hinUse, and_iff_left hy]
  · obtain ⟨hlist, hpool⟩ := hkept h1
    rw [hlist]
    refine ⟨iff_of_false (fun hm => hm.1 hxl) (fun ho => h1 (hone.mpr ho)), fun y _ => ?_⟩
    refine ⟨Iff.rfl, ?_⟩
    rw [Store.InUse, hpool]

/-- As long as no allocation for a semaphore fails, no number of a descriptor overflows and every
process closes its semaphores before it exits, both sides agree. -/
theorem two_sided (h : kernel.ReachableBy RoomAndFds s) : TwoSided s := by
  have hk := KernelInv.reachable h.reachable
  have hfd := FdInv.reachableBy h
  have hr : RelationInv s := RelationInv.reachableBy <| h.mono fun s act hG => hG.closed
  constructor
  case ids => exact hk.sem.ids
  case owner => exact fun p d hd => (hk.sem.linked p d hd).owner
  case linked =>
    intro d
    constructor
    · intro hd
      have hl := hk.sem.linked _ d hd
      exact ⟨hl.ptr, hl.entry, hl.listed⟩
    · rintro ⟨hptr, hentry, -⟩
      have hen := (hk.sem.entry _ _ hentry).descInUse
      rw [hptr] at hen
      exact hr.owned.mem d hen
  case unique => exact hk.sem.unique
  case fds => exact hfd.fds
  case lastFd => exact hfd.lastFd
  case size =>
    intro x hx
    have hsize := size_eq_card hr hk.sem x
    refine ⟨hsize, ?_⟩
    have hpos := List.length_pos_of_ne_nil (hr.held x hx)
    rw [hk.sem.size] at hsize
    omega
  case queued =>
    intro x w hw
    have hq := hk.sem.queued x w hw
    exact ⟨_, _, hq.isOpen, hq.waitPtr, hq.semaphore⟩
  case descriptors => exact card_descriptors hr hk.sem
  case pointers => exact card_pointers hr hk.sem
  case semaphores => exact card_semaphores hk.sem
  case closes => exact fun p args d hp hd => closes_with_last hk hr hp hd

theorem two_sided_shared :
    let s := kernel.replayBy RoomAndFds [.syscall dsosCallSemopen [7, 0],
      .syscall dsosCallSpawn [0, 0], .syscall dsosCallPreempt [], .syscall dsosCallSemopen [7, 5],
      .syscall dsosCallSemopen [8, 1], .syscall dsosCallSemclose [0], .syscall dsosCallSemopen [7, 0]]
    ((s.pcb 1).semDescriptors.items.map fun d => (s.sems.descriptor.cell d).fd) = [1, 2] ∧
      TwoSided s := by
  exact ⟨by decide +kernel, two_sided (System.reachableBy_replayBy _)⟩

/-! ### The number of the next descriptor overflows -/

/-- Init has the semaphore with the id 1 open under the number 0, no other semaphore exists, and
the next number is `n`. -/
structure NextFd (n : ℤ) (s : Kernel) : Prop where
  reachable : kernel.ReachableBy RoomAndClosed s
  running : s.running = some 0
  next : (s.pcb 0).lastSemFd = n
  opened : ∃ d, (s.pcb 0).semDescriptors.items = [d] ∧ (s.sems.descriptor.cell d).fd = 0 ∧
    s.sems.list.items = [(s.sems.descriptor.cell d).semaphore] ∧
    (s.sems.semaphore.cell (s.sems.descriptor.cell d).semaphore).id = 1
  room : s.sems.semaphore.pool.free ≠ [] ∧ s.sems.descriptor.pool.free ≠ [] ∧
    2 ≤ s.sems.descriptorPtr.pool.free.length

theorem NextFd.start : ∃ s, NextFd 1 s := by
  refine ⟨_, System.reachableBy_replayBy [.syscall dsosCallSemopen [1, 1]], ?_, ?_, ⟨0, ?_⟩, ?_⟩ <;>
    decide +kernel

/-- Init opens a semaphore that does not exist yet. -/
theorem NextFd.open {n : ℤ} (h : NextFd n s) : ∃ t u x d e w,
    kernel.step s (.syscall dsosCallSemopen [2, 1]) = .ok t ∧
    RoomAndClosed s (.syscall dsosCallSemopen [2, 1]) ∧
    OpensAt (enterSyscall s 0 dsosCallSemopen [2, 1]) u 0 x ∧ SemOpened u t 0 x d e w := by
  obtain ⟨d0, hd0, -, -, hid⟩ := h.opened
  obtain ⟨hsem, hdesc, hptr⟩ := h.room
  have hnone : mySearch s.sems (s.pcb 0).semDescriptors (toInt ([2, 1].getD 0 0)) = none := by
    simp [mySearch, hd0, hid, toInt]
  have hroom : SemOpenRoom s 0 (toInt ([2, 1].getD 0 0)) := Or.inr ⟨Or.inr hsem, hdesc, hptr⟩
  have hG : RoomAndClosed s (.syscall dsosCallSemopen [2, 1]) := by
    intro p hp
    obtain rfl : 0 = p := Option.some.inj (h.running ▸ hp)
    exact ⟨fun h => absurd h (by decide), fun _ => hroom⟩
  obtain ⟨t, u, x, d, e, w, ht, ho⟩ :=
    hroom.succeeds (.reachable h.reachable.reachable) h.running hnone
  exact ⟨t, u, x, d, e, w, ht, hG, ho⟩

/-- Opening and closing another semaphore moves the number on. -/
theorem NextFd.advance {n : ℤ} (h : NextFd n s) (h0 : n ≠ 0) (hn : toInt n = n) :
    ∃ t, NextFd (toInt (n + 1)) t := by
  have hk := KernelInv.reachable h.reachable.reachable
  obtain ⟨u, v, x, d, e, w, hstep, hG, opens, opened⟩ := h.open
  have hafter := AfterOpen.of_opened opens opened
  have hu := h.reachable.step hG hstep
  obtain ⟨d0, hd0, hfd0, hlist, hid⟩ := h.opened
  -- the descriptor that has just been made is the one that is found
  obtain ⟨f, hf, hiff⟩ := hafter.byFd
  obtain rfl : f = d := hiff.mpr fun b hb => by
    rw [hd0, List.mem_singleton] at hb
    rw [hb, hfd0, h.next]
    exact h0.symm
  have harg : toInt ([n].getD 0 0) = (s.pcb 0).lastSemFd := hn.trans h.next.symm
  rw [← harg] at hf
  obtain ⟨t, ht, hc⟩ :=
    step_semClose (.reachable hu.reachable) (hafter.running.trans h.running) hf
  rw [hafter.new] at hc
  have hheld : SemHeld s := (RelationInv.reachableBy h.reachable).held
  have hs := opened.restored hk hheld h.running opens hc
  have hl := hk.sem.linked 0 d0 (by simp [hd0])
  have hcell := hs.descriptor d0 hl.inUse
  obtain ⟨hsem, hdesc, hptr⟩ := h.room
  refine ⟨t, hu.step ?_ ht, ?_, ?_, ⟨d0, ?_, ?_, ?_, ?_⟩, ?_, ?_, ?_⟩
  · intro p hp
    exact ⟨fun h => absurd h (by decide), fun h => absurd h (by decide)⟩
  · exact hc.processes.running.trans (hafter.running.trans h.running)
  · rw [hc.lastSemFd, (enterSyscall_quiet u 0 dsosCallSemclose [n]).semaphores.lastSemFd,
      hafter.lastSemFd, h.next]
  · rw [hs.semDescriptors, hd0]
  · rw [hcell, hfd0]
  · rw [hcell, hs.list, hlist]
  · rw [hcell, hs.semaphore _ hl.listed, hid]
  · exact fun hnil => hsem (hnil ▸ hs.freeSem.symm).eq_nil
  · exact fun hnil => hdesc (hnil ▸ hs.free.symm).eq_nil
  · rw [hs.freePtr.length_eq]
    exact hptr

/-- The number goes through all the values of an `int`. -/
theorem NextFd.reaches (k : ℕ) (hk : k < 2 ^ 32) : ∃ s, NextFd (toInt (k + 1)) s := by
  induction k with
  | zero => exact NextFd.start
  | succ k ih =>
    obtain ⟨s, hs⟩ := ih (by omega)
    have h0 : toInt ((k : ℤ) + 1) ≠ 0 := by
      rw [toInt, Int.bmod_def]
      omega
    obtain ⟨t, ht⟩ := hs.advance h0 (by simp [toInt])
    rw [toInt_toInt_add] at ht
    exact ⟨t, by exact_mod_cast ht⟩

/-- After `2 ^ 31` opens the next number of init is negative, and init has the number 0 open. -/
theorem lastSemFd_wraps : ∃ s, kernel.ReachableBy RoomAndClosed s ∧ ¬ TwoSided s := by
  obtain ⟨t, ht⟩ := NextFd.reaches (2 ^ 31 - 1) (by decide)
  refine ⟨t, ht.reachable, fun h => ?_⟩
  obtain ⟨d, hd, hfd, -⟩ := ht.opened
  have hlt := h.lastFd 0 d (by simp [hd])
  rw [hfd, ht.next] at hlt
  have hneg : toInt (((2 ^ 31 - 1 : ℕ) : ℤ) + 1) < 0 := by decide
  omega

end DisastrOS
