import DisastrOS.Handover
import DisastrOS.ResourceInvariant
import DisastrOS.SemaphoreMoves

/-! What a process leaves behind when its PCB is freed: nothing, as long as it has closed what
its exit does not close for it. -/
namespace DisastrOS
open BlockPool TransitionSystem Ownership

variable {s s' t u : Kernel} {p q a b d e r x : ℕ} {alive : ℕ → Prop}

/-- Nothing in the kernel belongs to a process in the block `b`. -/
structure NothingLeft (s : Kernel) (b : ℕ) : Prop where
  descriptor : ∀ d, s.resources.descriptor.InUse d → (s.resources.descriptor.cell d).pcb ≠ b
  semDescriptor : ∀ d, s.sems.descriptor.InUse d → (s.sems.descriptor.cell d).pcb ≠ b
  timer : ∀ i, s.timers.item.InUse i → sleeper s i ≠ b
  resources : ∀ r, ∀ e ∈ (s.resources.resource.cell r).descriptors.items,
    (s.resources.descriptor.cell (s.resources.descriptorPtr.cell e).descriptor).pcb ≠ b
  semaphores : ∀ x, ∀ e ∈ (s.sems.semaphore.cell x).descriptors.items, waiter s e ≠ b
  queues : ∀ x, ∀ w ∈ queue s x, waiter s w ≠ b

/-- What is in use belongs to a process that is there and has it open. -/
structure BelongsToLiving (s : Kernel) : Prop where
  descriptor : ∀ d, s.resources.descriptor.InUse d →
    s.pcbs.InUse (s.resources.descriptor.cell d).pcb ∧
      d ∈ (s.pcb (s.resources.descriptor.cell d).pcb).descriptors.items
  semDescriptor : ∀ d, s.sems.descriptor.InUse d →
    s.pcbs.InUse (s.sems.descriptor.cell d).pcb ∧
      d ∈ (s.pcb (s.sems.descriptor.cell d).pcb).semDescriptors.items
  semaphore : ∀ x ∈ s.sems.list.items, ∃ b, s.pcbs.InUse b ∧ HasOpen s b x

/-- The exit of `p` has nothing to leave behind: `p` has closed its semaphores, and also its
resources if it stays as a zombie. -/
def ExitsClean (s : Kernel) (p : ℕ) : Prop :=
  (s.pcb p).semDescriptors.items = [] ∧
    ((s.pcb p).descriptors.items = [] ∨ ∀ a ∈ (s.pcb p).parent, WaitsFor s a p)

instance (s : Kernel) (p : ℕ) : Decidable (ExitsClean s p) := inferInstanceAs (Decidable (_ ∧ _))

/-- The step leaves no object without an owner. -/
def LeavesNothing (s : Kernel) : Action → Prop
  | .syscall n args => ∀ p ∈ s.running, (n = dsosCallExit → ExitsClean s p) ∧
      (n = dsosCallSemopen → SemOpenWhole s p (toInt (args.getD 0 0)))
  | .tick | .returnToProcess => True

instance (s : Kernel) (act : Action) : Decidable (LeavesNothing s act) :=
  match act with
  | .syscall n _ => inferInstanceAs (Decidable (∀ p ∈ s.running, (n = dsosCallExit → _) ∧ _))
  | .tick | .returnToProcess => inferInstanceAs (Decidable True)

/-! ### The resources -/

/-- Every descriptor in use is open in its process, and only the processes in `alive` have any. -/
def ResHeld (alive : ℕ → Prop) (s : Kernel) : Prop :=
  Held alive s.resources.descriptor.InUse (fun d => (s.resources.descriptor.cell d).pcb)
    fun b => (s.pcb b).descriptors.items

namespace ResHeld

theorem same (h : ResHeld alive s) (hs : SameResources s s') : ResHeld alive s' := by
  refine Held.congr h (fun _ => Or.inl) (fun d hd => ?_) (fun d _ => ?_) fun b => ?_
  · rwa [hs.resources] at hd
  · rw [hs.resources]
  · rw [hs.descriptors]

theorem opened (h : ResHeld alive s) (hp : alive p) (ho : ResourceOpened s s' p r d e) :
    ResHeld alive s' := by
  refine Held.take (d := d) h hp (fun k hk => (ho.inUse k).mp hk) (fun k => ?_) fun k => ?_
  · rw [ho.cell]
    split_ifs <;> rfl
  · rw [ho.descriptors]
    split_ifs <;> rfl

theorem closed (h : ResHeld alive s) (hc : ResourceClosed s s' p r d e) : ResHeld alive s' := by
  refine Held.giveBack (p := p) (d := d) h (fun k hk => ?_) (fun k => ?_) fun k => ?_
  · exact hc.inUse.mp hk
  · rw [hc.cell_descriptor]
  · rw [hc.descriptors]
    split_ifs <;> rfl

theorem begins {u : Kernel} {id type : ℤ} {openMode : BitVec 32} (h : ResHeld alive s)
    (hu : OpenBegins s u id type openMode r) : ResHeld alive u := by
  cases hu with
  | known mode found same => exact same ▸ h
  | new st mode unknown alloc notListed result => exact result ▸ h

theorem internalOpenResource (h : ResHeld alive s) (hp : s.running = some p) (ha : alive p)
    (hs : internalOpenResource s = .ok s') : ResHeld alive s' := by
  obtain ⟨p', hp', ⟨v, rfl⟩ | ⟨u, r, hu, hs⟩⟩ := internalOpenResource_ok hs
  · exact h.same (.setRetvalue s p' v)
  obtain rfl : p = p' := Option.some.inj (hp ▸ hp')
  have hheld := h.begins hu
  rcases hs with ⟨v, rfl⟩ | ⟨d, e, -, ho⟩
  · exact hheld.same (.setRetvalue u p v)
  · exact hheld.opened ha ho

theorem internalCloseResource (h : ResHeld alive s) (hs : internalCloseResource s = .ok s') :
    ResHeld alive s' := by
  obtain ⟨p, -, rfl | ⟨d, u, -, hu, rfl⟩⟩ := internalCloseResource_ok hs
  · exact h.same (.setRetvalue s p _)
  · obtain ⟨r, e, hc⟩ := releaseDescriptor_closed hu
    exact (h.closed hc).same (.setRetvalue u p 0)

theorem internalDestroyResource (h : ResHeld alive s) (hs : internalDestroyResource s = .ok s') :
    ResHeld alive s' := by
  obtain ⟨p, -, ⟨v, rfl⟩ | ⟨r, -, -, rfl⟩⟩ := internalDestroyResource_ok hs
  · exact h.same (.setRetvalue s p v)
  · exact ResHeld.same (s := resourceDestroyed s r) h (.setRetvalue _ p 0)

theorem newProcess (h : ResHeld alive s) (hb : ¬ alive b) (hc : NewProcess s s' b) :
    ResHeld alive s' := by
  have hnil := h.eq_nil hb
  refine Held.congr h (fun _ => Or.inl) (fun d hd => ?_) (fun d _ => ?_) fun k => ?_
  · rwa [hc.resources] at hd
  · rw [hc.resources]
  · rw [hc.descriptors]
    by_cases hk : k = b
    · simp [hk, hnil, ListHead.init]
    · simp [hk]

/-- A parent that waits takes over a process with nothing open, as its resources are closed; a
zombie keeps what it has. -/
theorem internalExit (h : ResHeld alive s) (hk : KernelInv s) (hp : s.running = some p)
    (hclean : (s.pcb p).descriptors.items = [] ∨ ∀ a ∈ (s.pcb p).parent, WaitsFor s a p)
    (hs : internalExit s = .ok s') : ResHeld alive s' ∧ (s'.pcb p).descriptors.items = [] := by
  obtain ⟨p', a, i, sig, hp', ha, -, -, he⟩ := internalExit_returns hk.proc hk.wake hs
  obtain rfl : p = p' := Option.some.inj (hp ▸ hp')
  cases he with
  | toParent q u _ _ _ released result =>
    subst result
    have hu := releaseDescriptors_induct (P := ResHeld alive) (fun _ _ _ hi hr => by
      obtain ⟨r, e, hc⟩ := releaseDescriptor_closed hr
      exact hi.closed hc) released (h.same ResInv.handedToParent_frame)
    refine ⟨hu.same (by constructor <;> intros <;> simp [reclaimed]), ?_⟩
    obtain ⟨l, t, rfl⟩ := releaseDescriptors_ok released
    simp [reclaimed]
  | toNext q rest noWaiter _ result =>
    subst result
    have hsame : SameResources s (resumed (zombified s p i sig) q rest) :=
      (zombified_frame s p i sig).2.trans (by constructor <;> intros <;> simp [resumed])
    refine ⟨h.same hsame, ?_⟩
    rw [hsame.descriptors]
    exact hclean.resolve_right fun hw => noWaiter (hw a ha)

theorem runHandler {hd : Handler} (h : ResHeld (Alive s) s) (hk : KernelInv s)
    (hp : s.running = some p) (hn : (s.pcb p).syscallNum = hd.number)
    (hclean : hd = .exit → (s.pcb p).descriptors.items = [] ∨
      ∀ a ∈ (s.pcb p).parent, WaitsFor s a p)
    (hs : runHandler hd s = .ok s') : ResHeld (Alive s') s' := by
  have hfamily := runHandler_family hk hp hn hs
  have hkeep : hd ≠ .exit → ResHeld (Alive s) s' → ResHeld (Alive s') s' := by
    intro hne hs'
    refine Held.congr hs' (fun b hb => Or.inl ?_) (fun _ => id) (fun _ _ => rfl) fun _ => rfl
    refine (hfamily.alive hk.proc hb).resolve_right fun ⟨hb, hnum⟩ => hne ?_
    obtain rfl : p = b := Option.some.inj (hp ▸ hb)
    have he : syscallVector hd.number = syscallVector dsosCallExit := by rw [← hn, hnum]
    rw [syscallVector_number] at he
    exact Option.some.inj (he.trans (syscallVector_number .exit))
  have ha : Alive s p := alive_of_running hk.proc hp
  cases hd with
  | preempt => exact hkeep nofun (h.same (internalSchedule_frame hs).2)
  | fork =>
    obtain ⟨b, q, hc⟩ := internalFork_ok hp (hk.proc.inUse_of_running hp) hs
    exact hkeep nofun (h.newProcess (fun hb => hc.fresh hb.1) hc.newProcess)
  | wait => exact hkeep nofun (h.same (internalWait_frame hs).2)
  | exit =>
    obtain ⟨hheld, hnil⟩ := h.internalExit hk hp (hclean rfl) hs
    refine Held.congr hheld (fun b hb => ?_) (fun _ => id) (fun _ _ => rfl) fun _ => rfl
    refine (hfamily.alive hk.proc hb).imp_right fun hexit => ?_
    obtain rfl : p = b := Option.some.inj (hp ▸ hexit.1)
    exact hnil
  | spawn =>
    obtain ⟨b, q, hc⟩ := internalSpawn_ok hp (hk.proc.inUse_of_running hp) hs
    exact hkeep nofun (h.newProcess (fun hb => hc.fresh hb.1) hc.newProcess)
  | sleep => exact hkeep nofun (h.same (internalSleep_frame hs).2)
  | openResource => exact hkeep nofun (h.internalOpenResource hp ha hs)
  | closeResource => exact hkeep nofun (h.internalCloseResource hs)
  | destroyResource => exact hkeep nofun (h.internalDestroyResource hs)
  | shutdown => cases hs
  | semOpen => exact hkeep nofun (h.same (internalSemOpen_frame hs).2)
  | semClose => exact hkeep nofun (h.same (internalSemClose_frame hs).2)
  | semWait => exact hkeep nofun (h.same (ResInv.internalSemWait_resources hs))
  | semPost => exact hkeep nofun (h.same (ResInv.internalSemPost_resources hs))

end ResHeld

/-! ### All objects -/

structure OwnersInv (s : Kernel) : Prop where
  resources : ResHeld (Alive s) s
  semaphores : SemOwned s
  held : SemHeld s

namespace OwnersInv

theorem quiet (h : OwnersInv s) (hq : Quiet s s') : OwnersInv s' := by
  refine ⟨?_, h.semaphores.quiet hq, h.held.same hq.semaphores⟩
  refine Held.congr (h.resources.same hq.resources) (fun b hb => Or.inl ?_) (fun _ => id)
    (fun _ _ => rfl) fun _ => rfl
  exact (hq.family.alive b).mpr hb

theorem start : OwnersInv disastrOSStart := by
  obtain ⟨t, hu, hc, hs⟩ := disastrOSStart_eq
  rw [hs]
  have hnil : ∀ k, (t.cell k).descriptors.items = [] ∧ (t.cell k).semDescriptors.items = [] := by
    intro k
    rw [hc]
    split_ifs <;> exact ⟨rfl, rfl⟩
  refine ⟨⟨fun d hd => ?_, fun b => Or.inr (hnil b).1⟩, ⟨fun d hd => ?_, fun b => Or.inr (hnil b).2⟩,
    fun _ hx => absurd hx List.not_mem_nil⟩
  · exact absurd hd (Store.not_inUse_init _ _ d)
  · exact absurd hd (Store.not_inUse_init _ _ d)

/-- Another first process has nothing open, and nobody exits. -/
theorem started (h : OwnersInv s) (hk : KernelInv s) (hidle : s.running = none)
    (hst : Started s s' b) : OwnersInv s' := by
  have hfamily : FamilyMove s s' := .start b hidle hst
  have hmove : SemMove s s' := .newProcess b hst.newProcess
  have hnone : ∀ k, s.running ≠ some k := by simp [hidle]
  refine ⟨?_, h.semaphores.move hk hfamily hmove (fun k hk => absurd hk (hnone k))
    fun k hk => absurd hk (hnone k), h.held.move hk hmove fun k hk => absurd hk (hnone k)⟩
  have hheld : ResHeld (Alive s) s' :=
    h.resources.newProcess (fun hb => hst.fresh hb.1) hst.newProcess
  refine Held.congr hheld (fun k hk' => Or.inl ?_) (fun _ => id) (fun _ _ => rfl) fun _ => rfl
  exact (hfamily.alive hk.proc hk').resolve_right fun hr => hnone k hr.1

theorem step {act : Action} (h : OwnersInv s) (hk : KernelInv s) (hG : LeavesNothing s act)
    (hs : step s act = .ok s') : OwnersInv s' := by
  rcases step_call hk hs with hq | ⟨p, hd, args, hp, rfl, hke, hnum, hrun⟩ | ⟨b, -, hidle, hst⟩
  · exact h.quiet hq
  · have he : OwnersInv (enterSyscall s p hd.number args) := h.quiet (enterSyscall_quiet s p _ args)
    obtain ⟨hexit, hopen⟩ := hG p hp
    have hent : Entered s (enterSyscall s p hd.number args) (.syscall hd.number args) p :=
      enterSyscall_entered hp hke
    have hclosed := hent.onExit fun args' hact => (hexit (Action.syscall.inj hact).1).1
    have hwhole := hent.onOpen (P := SemOpenWhole) (fun n h => h.quiet hent.quiet)
        fun args' hact => by
      obtain ⟨hn, rfl⟩ := Action.syscall.inj hact
      exact hopen hn
    have hclean : hd = .exit →
        ((enterSyscall s p hd.number args).pcb p).descriptors.items = [] ∨
          ∀ a ∈ ((enterSyscall s p hd.number args).pcb p).parent,
            WaitsFor (enterSyscall s p hd.number args) a p := by
      rintro rfl
      simp only [enterSyscall, Kernel.pcb_modPcb, if_true]
      refine (hexit rfl).2.imp_right fun hw a ha => ?_
      refine (waitsFor_enterSyscall ?_).mpr (hw a ha)
      exact hk.proc.running_ne hp ((hk.proc.waiting a).mp (hw a ha).1)
    have hfamily := runHandler_family hke hp hnum hrun
    have hmove := runHandler_sem hke hp hnum hrun
    exact ⟨he.resources.runHandler hke hp hnum hclean hrun,
      he.semaphores.move hke hfamily hmove hclosed hwhole, he.held.move hke hmove hwhole⟩
  · exact h.started hk hidle hst

theorem reachableBy (h : kernel.ReachableBy LeavesNothing s) : OwnersInv s :=
  h.invariant start fun _ _ _ hr hi hG hs => hi.step (KernelInv.reachable hr.reachable) hG hs

theorem belongs (h : OwnersInv s) (hk : KernelInv s) : BelongsToLiving s where
  descriptor d hd := ⟨(h.resources.alive_owner hd).1, h.resources.mem d hd⟩
  semDescriptor d hd := ⟨(Held.alive_owner h.semaphores hd).1, h.semaphores.mem d hd⟩
  semaphore x hx := by
    obtain ⟨e, he⟩ := List.exists_mem_of_ne_nil _ (h.held x hx)
    have hen := hk.sem.entry x e he
    exact ⟨_, (Held.alive_owner h.semaphores hen.descInUse).1, _, h.semaphores.mem _ hen.descInUse,
      hen.semaphore⟩

theorem nothingLeft (h : OwnersInv s) (hk : KernelInv s) (hres : ResInv s)
    (hb : ¬ s.pcbs.InUse b) : NothingLeft s b where
  descriptor d hd he := hb (he ▸ (h.resources.alive_owner hd).1)
  semDescriptor d hd he := hb (he ▸ (Held.alive_owner h.semaphores hd).1)
  timer i hi he := by
    have hw := (hk.wake.sleeping i ((hk.wake.timerInUse i).mpr hi)).1
    exact hb (he ▸ hk.proc.inUse_of_mem hw)
  resources r e hr he :=
    hb (he ▸ (h.resources.alive_owner (hres.entry r e hr).descInUse).1)
  semaphores x e hx he :=
    hb (he ▸ (Held.alive_owner h.semaphores (hk.sem.entry x e hx).descInUse).1)
  queues x w hw he := hb (he ▸ hk.proc.inUse_of_mem (hk.wake.queued x w hw).1)

end OwnersInv

/-- As long as every process has closed what its exit does not close, nothing is left of a
process whose PCB is free, every object in use is open in the process that it names, and every
semaphore in the list is open in some process. -/
theorem terminated_leaves_nothing (h : kernel.ReachableBy LeavesNothing s) :
    (∀ b, ¬ s.pcbs.InUse b → NothingLeft s b) ∧ BelongsToLiving s := by
  have hk := KernelInv.reachable h.reachable
  have ho := OwnersInv.reachableBy h
  exact ⟨fun b hb => ho.nothingLeft hk (ResInv.reachable h.reachable) hb, ho.belongs hk⟩

theorem terminated_leaves_nothing_reaped :
    let s := kernel.replayBy LeavesNothing [.syscall dsosCallSpawn [0, 0],
      .syscall dsosCallPreempt [], .syscall dsosCallSemopen [7, 1],
      .syscall dsosCallOpenResource [3, 0, 1], .syscall dsosCallSemclose [0],
      .syscall dsosCallCloseResource [0], .syscall dsosCallExit [5], .syscall dsosCallWait [0, 0]]
    collectedPids s.trace = [1] ∧ (∀ b, ¬ s.pcbs.InUse b → NothingLeft s b) ∧
      BelongsToLiving s := by
  exact ⟨by decide +kernel, terminated_leaves_nothing (System.reachableBy_replayBy _)⟩

/-- The descriptor of a semaphore that is open at the exit stays in use when the process has been
reaped. -/
theorem exit_keeps_semaphore : ∃ s, kernel.Reachable s ∧
    ∃ b, ¬ s.pcbs.InUse b ∧ ¬ NothingLeft s b ∧ 1 ∈ collectedPids s.trace := by
  refine ⟨_, System.reachable_replay [.syscall dsosCallSpawn [0, 0], .syscall dsosCallPreempt [],
    .syscall dsosCallSemopen [7, 1], .syscall dsosCallExit [5], .syscall dsosCallWait [0, 0]],
    1, by decide +kernel, fun h => ?_, by decide +kernel⟩
  exact h.semDescriptor 0 (by decide +kernel) (by decide +kernel)

end DisastrOS
