import Mathlib.Data.List.Find
import DisastrOS.SemaphoreCounts

/-! What a process has open: it stays while others run, and grows with an open of a semaphore
that exists. -/
namespace DisastrOS
open BlockPool TransitionSystem

variable {s t u : Kernel} {p q b d e k w x y : ℕ} {act : Action} {args : List ℤ} {fd : ℤ}

/-- The process `k` has the same descriptors, with the same contents. -/
structure SameOpens (s t : Kernel) (k : ℕ) : Prop where
  descriptors : (t.pcb k).semDescriptors = (s.pcb k).semDescriptors
  lastSemFd : (t.pcb k).lastSemFd = (s.pcb k).lastSemFd
  cell : ∀ d ∈ (s.pcb k).semDescriptors.items, t.sems.descriptor.cell d = s.sems.descriptor.cell d

/-- What a number means depends on nothing but the descriptors. -/
theorem calledSemaphore_congr (hdesc : (t.pcb k).semDescriptors = (s.pcb k).semDescriptors)
    (hcell : ∀ d ∈ (s.pcb k).semDescriptors.items,
      t.sems.descriptor.cell d = s.sems.descriptor.cell d) (fd : ℤ) :
    calledSemaphore t k fd = calledSemaphore s k fd := by
  have hfind : semDescriptorListByFd t.sems (t.pcb k).semDescriptors fd =
      semDescriptorListByFd s.sems (s.pcb k).semDescriptors fd := by
    unfold semDescriptorListByFd
    rw [hdesc]
    refine List.find?_congr fun d hd => ?_
    rw [hcell d hd]
  unfold calledSemaphore
  rw [hfind]
  cases hd : semDescriptorListByFd s.sems (s.pcb k).semDescriptors fd with
  | none => rfl
  | some d => rw [Option.map_some, Option.map_some, hcell d (SemInv.byFd_mem hd)]

namespace SameOpens

theorem trans (h : SameOpens s t k) (h' : SameOpens t u k) : SameOpens s u k := by
  refine ⟨h'.descriptors.trans h.descriptors, h'.lastSemFd.trans h.lastSemFd, fun d hd => ?_⟩
  rw [h'.cell d (h.descriptors ▸ hd), h.cell d hd]

theorem same (h : SameSemaphores s t) (k : ℕ) : SameOpens s t k :=
  ⟨h.semDescriptors k, h.lastSemFd k, fun d _ => by rw [h.sems]⟩

theorem called (h : SameOpens s t k) (fd : ℤ) :
    calledSemaphore t k fd = calledSemaphore s k fd := calledSemaphore_congr h.descriptors h.cell fd

theorem hasOpen (h : SameOpens s t k) (hx : HasOpen s k x) : HasOpen t k x := by
  obtain ⟨d, hd, rfl⟩ := hx
  exact ⟨d, h.descriptors ▸ hd, by rw [h.cell d hd]⟩

end SameOpens

/-- A move of another process, or one that neither opens nor closes, leaves what `k` has open. -/
theorem SemMove.sameOpens (hm : SemMove s t) (hk : KernelInv s) (hu : s.pcbs.InUse k)
    (hne : s.running = some k → (s.pcb k).syscallNum ≠ dsosCallSemopen ∧
      (s.pcb k).syscallNum ≠ dsosCallSemclose) : SameOpens s t k := by
  have hother : ∀ {p}, s.running = some p → ((s.pcb p).syscallNum = dsosCallSemopen ∨
      (s.pcb p).syscallNum = dsosCallSemclose) → k ≠ p := fun hp hn hkp => by
    subst hkp
    rcases hn with hn | hn
    · exact (hne hp).1 hn
    · exact (hne hp).2 hn
  have hinUse : ∀ d ∈ (s.pcb k).semDescriptors.items, s.sems.descriptor.InUse d := fun d hd =>
    (hk.sem.linked k d hd).inUse
  cases hm with
  | same same => exact .same same k
  | newProcess b created =>
    have hkb : k ≠ b := fun he => created.fresh (he ▸ hu)
    refine ⟨?_, ?_, fun d _ => by rw [created.sems]⟩
    · rw [created.semDescriptors, if_neg hkb]
    · rw [created.lastSemFd, if_neg hkb]
  | noDescriptor p x u running number notOpen opens empty result =>
    obtain ⟨m, rfl, hd, -⟩ := opens.shape
    subst result
    exact ⟨by simp, by simp, fun d _ => by simp [hd]⟩
  | noPointer p x d u running number notOpen opens failed =>
    obtain ⟨m, rfl, hd, -⟩ := opens.shape
    have hkp := hother running (Or.inl number)
    refine ⟨failed.semDescriptors k, ?_, fun f hf => ?_⟩
    · rw [failed.lastSemFd, if_neg hkp]
      rfl
    · have hfd : f ≠ d := fun he => failed.fresh (by
        rw [← he]
        exact hd ▸ hinUse f hf)
      exact (failed.cell f hfd).trans (by simp [hd])
  | opened p x d e w u running number notOpen opens opened =>
    obtain ⟨m, rfl, hd, -⟩ := opens.shape
    have hkp := hother running (Or.inl number)
    refine ⟨?_, ?_, fun f hf => ?_⟩
    · rw [opened.semDescriptors, if_neg hkp]
      rfl
    · rw [opened.lastSemFd, if_neg hkp]
      rfl
    · have hfd : f ≠ d := fun he => opened.fresh (by
        rw [← he]
        exact hd ▸ hinUse f hf)
      rw [opened.cell, if_neg hfd]
      simp [hd]
  | closed p x d e w running number found semaphore ptr waitPtr closed =>
    have hkp := hother running (Or.inr number)
    refine ⟨?_, closed.lastSemFd k, fun f _ => ?_⟩
    · rw [closed.semDescriptors, if_neg hkp]
    · rw [closed.cell_descriptor]
  | counted x v l counted =>
    exact ⟨counted.semDescriptors k, counted.lastSemFd k, fun d _ => by rw [counted.sems]; rfl⟩

/-- A step leaves what `k` has open unless it is an open or a close of `k` itself. -/
theorem step_sameOpens (hk : KernelInv s) (hs : kernel.step s act = .ok t)
    (hu : s.pcbs.InUse k) (hne : s.running = some k → ∀ args,
      act ≠ .syscall dsosCallSemopen args ∧ act ≠ .syscall dsosCallSemclose args) :
    SameOpens s t k := by
  rcases step_call hk hs with hq | ⟨p, hd, args, hp, rfl, hke, hnum, hrun⟩ | ⟨b, -, hidle, hc⟩
  · exact .same hq.semaphores k
  · have he := enterSyscall_quiet s p hd.number args
    refine SameOpens.trans (.same he.semaphores k) ?_
    refine (runHandler_sem hke hp hnum hrun).sameOpens hke ((he.family.inUse k).mpr hu) ?_
    intro hpk
    obtain rfl : p = k := Option.some.inj (hp.symm.trans hpk)
    have h := hne hp args
    rw [hnum]
    exact ⟨fun hn => h.1 (by rw [hn]), fun hn => h.2 (by rw [hn])⟩
  · have hmove : SemMove s t := .newProcess b hc.newProcess
    exact hmove.sameOpens hk hu fun hrun => by simp [hidle] at hrun

/-! ### Semaphores that somebody keeps open -/

theorem HasOpen.listed (hk : KernelInv s) (h : HasOpen s k x) : x ∈ s.sems.list.items := by
  obtain ⟨d, hd, rfl⟩ := h
  exact (hk.sem.linked k d hd).listed

/-- A semaphore that stays keeps its number. -/
theorem SemStep.id_eq {ev : SemEvent} (h : SemStep s t ev) (hx : x ∈ s.sems.list.items) :
    (t.sems.semaphore.cell x).id = (s.sems.semaphore.cell x).id := by
  cases h with
  | none _ same => exact (same x hx).id
  | create _ _ _ _ _ _ _ _ _ _ same => exact (same x hx).id
  | remove _ _ _ same => exact (same x hx).id
  | wait y _ _ _ _ id _ _ _ same | post y _ _ id _ _ _ same =>
    by_cases hxy : x = y
    · exact hxy ▸ id
    · exact (same x hx hxy).id

/-- Nobody waits for or posts the semaphore. -/
theorem SemStep.sameSem {ev : SemEvent} (h : SemStep s t ev) (hx : x ∈ s.sems.list.items)
    (hw : ∀ p, ev ≠ .wait x p) (hp : ev ≠ .post x) : SameSem s t x := by
  cases h with
  | none _ same => exact same x hx
  | create _ _ _ _ _ _ _ _ _ _ same => exact same x hx
  | remove _ _ _ same => exact same x hx
  | wait y q _ _ _ _ _ _ _ same => exact same x hx fun he => hw q (by rw [he])
  | post y _ _ _ _ _ _ same => exact same x hx fun he => hp (by rw [he])

/-! ### Opens of a semaphore that exists -/

/-- The numbers of what `p` has open differ, and the next number is larger. -/
structure FdsBelow (s : Kernel) (p : ℕ) : Prop where
  next : 0 ≤ (s.pcb p).lastSemFd
  range : ∀ d ∈ (s.pcb p).semDescriptors.items, 0 ≤ (s.sems.descriptor.cell d).fd ∧
    (s.sems.descriptor.cell d).fd < (s.pcb p).lastSemFd
  distinct : ∀ d ∈ (s.pcb p).semDescriptors.items, ∀ d' ∈ (s.pcb p).semDescriptors.items,
    (s.sems.descriptor.cell d).fd = (s.sems.descriptor.cell d').fd → d = d'

namespace FdsBelow

theorem congr (h : FdsBelow s p) (hdesc : (t.pcb p).semDescriptors = (s.pcb p).semDescriptors)
    (hcell : ∀ d ∈ (s.pcb p).semDescriptors.items,
      t.sems.descriptor.cell d = s.sems.descriptor.cell d)
    (hle : (s.pcb p).lastSemFd ≤ (t.pcb p).lastSemFd) : FdsBelow t p := by
  refine ⟨h.next.trans hle, ?_, ?_⟩
  · intro d hd
    rw [hdesc] at hd
    have hr := h.range d hd
    rw [hcell d hd]
    omega
  · intro d hd d' hd' he
    rw [hdesc] at hd hd'
    rw [hcell d hd, hcell d' hd'] at he
    exact h.distinct d hd d' hd' he

theorem same (h : FdsBelow s p) (hs : SameOpens s t p) : FdsBelow t p :=
  h.congr hs.descriptors hs.cell hs.lastSemFd.ge

theorem called_of_mem (h : FdsBelow s p) (hd : d ∈ (s.pcb p).semDescriptors.items) :
    calledSemaphore s p (s.sems.descriptor.cell d).fd =
      some (s.sems.descriptor.cell d).semaphore := by
  unfold calledSemaphore semDescriptorListByFd
  cases hf : (s.pcb p).semDescriptors.items.find? fun d' =>
      (s.sems.descriptor.cell d').fd = (s.sems.descriptor.cell d).fd with
  | none =>
    have hnone := List.find?_eq_none.mp hf d hd
    simp at hnone
  | some d' =>
    have hfd := List.find?_some hf
    simp only [decide_eq_true_eq] at hfd
    obtain rfl := h.distinct d' (List.mem_of_find?_eq_some hf) d hd hfd
    rfl

theorem called_of_neg (h : FdsBelow s p) (hfd : fd < 0) : calledSemaphore s p fd = none := by
  unfold calledSemaphore semDescriptorListByFd
  rw [Option.map_eq_none_iff, List.find?_eq_none]
  intro d hd he
  simp only [decide_eq_true_eq] at he
  have hr := (h.range d hd).1
  omega

theorem opened (h : FdsBelow s p) (hk : KernelInv s) (ho : SemOpened s t p x d e w)
    (hfit : (s.pcb p).lastSemFd < 2 ^ 31 - 1) : FdsBelow t p := by
  have hlast : (t.pcb p).lastSemFd = (s.pcb p).lastSemFd + 1 := by
    rw [ho.lastSemFd, if_pos rfl]
    exact toInt_succ h.next hfit
  have hold : ∀ f ∈ (s.pcb p).semDescriptors.items,
      t.sems.descriptor.cell f = s.sems.descriptor.cell f := fun f hf =>
    ho.cell_old (hk.sem.linked p f hf).inUse
  have hnew : (t.sems.descriptor.cell d).fd = (s.pcb p).lastSemFd := by rw [ho.cell_new]
  have hnext := h.next
  refine ⟨by omega, ?_, ?_⟩
  · intro f hf
    rw [ho.items, List.mem_append, List.mem_singleton] at hf
    rcases hf with hf | rfl
    · have hr := h.range f hf
      rw [hold f hf]
      omega
    · omega
  · intro f hf f' hf' he
    rw [ho.items, List.mem_append, List.mem_singleton] at hf hf'
    rcases hf with hf | rfl <;> rcases hf' with hf' | rfl
    · rw [hold f hf, hold f' hf'] at he
      exact h.distinct f hf f' hf' he
    · have hr := h.range f hf
      rw [hold f hf] at he
      omega
    · have hr := h.range f' hf'
      rw [hold f' hf'] at he
      omega
    · rfl

/-- What was open in the old state is open under the same number in the new one. -/
theorem called_append (hitems : (t.pcb p).semDescriptors.items =
      (s.pcb p).semDescriptors.items ++ [d])
    (hold : ∀ f ∈ (s.pcb p).semDescriptors.items,
      t.sems.descriptor.cell f = s.sems.descriptor.cell f)
    (hx : calledSemaphore s p fd = some x) : calledSemaphore t p fd = some x := by
  obtain ⟨f, hf, rfl⟩ := calledSemaphore_eq hx
  have hmem := SemInv.byFd_mem hf
  have hfind : semDescriptorListByFd t.sems (t.pcb p).semDescriptors fd = some f := by
    unfold semDescriptorListByFd at hf ⊢
    rw [hitems, List.find?_append, List.find?_congr fun g hg => by rw [hold g hg], hf,
      Option.some_or]
  simp [calledSemaphore, hfind, hold f hmem]

end FdsBelow

/-- What the open of an existing semaphore gives the running process `p`. -/
structure OpensKnown (s t : Kernel) (p x : ℕ) : Prop where
  running : t.running = some p
  fds : FdsBelow t p
  next : (t.pcb p).lastSemFd ≤ (s.pcb p).lastSemFd + 1
  kept : ∀ fd y, calledSemaphore s p fd = some y → calledSemaphore t p fd = some y
  result : calledSemaphore t p (toInt (t.pcb p).syscallRetvalue) = some x ∨
    toInt (t.pcb p).syscallRetvalue < 0

/-- The open of `p` changes nothing that is open. -/
theorem OpensKnown.same (hp : t.running = some p) (h : FdsBelow s p) (hs : SameOpens s t p)
    (hresult : calledSemaphore s p (toInt (t.pcb p).syscallRetvalue) = some x ∨
      toInt (t.pcb p).syscallRetvalue < 0) : OpensKnown s t p x := by
  refine ⟨hp, h.same hs, by rw [hs.lastSemFd]; omega, fun fd y hy => (hs.called fd).trans hy, ?_⟩
  rwa [hs.called]

theorem internalSemOpen_known (hk : KernelInv s) (hp : s.running = some p)
    (hx : semaphoreListById s.sems (toInt ((s.pcb p).syscallArgs 0)) = some x) (h : FdsBelow s p)
    (hfit : (s.pcb p).lastSemFd < 2 ^ 31 - 1) (hs : internalSemOpen s = .ok t) :
    OpensKnown s t p x := by
  have hnext := h.next
  obtain ⟨p', hp', hcase⟩ := internalSemOpen_ok hs
  obtain rfl : p = p' := Option.some.inj (hp.symm.trans hp')
  rcases hcase with ⟨d, hd, rfl⟩ | ⟨-, ⟨y, hy, hs⟩ | ⟨hunknown, -⟩⟩
  · refine .same hp h (.same (.setRetvalue s p _) p) (Or.inl ?_)
    have hmem : d ∈ (s.pcb p).semDescriptors.items := List.mem_of_find?_eq_some hd
    have hid := List.find?_some hd
    simp only [decide_eq_true_eq] at hid
    have hr := h.range d hmem
    have hfd : toInt (s.sems.descriptor.cell d).fd = (s.sems.descriptor.cell d).fd :=
      Int.bmod_eq_of_le (by omega) (by omega)
    have hxid := List.find?_some hx
    simp only [decide_eq_true_eq] at hxid
    have hsem : (s.sems.descriptor.cell d).semaphore = x :=
      hk.sem.ids _ (hk.sem.linked p d hmem).listed x (List.mem_of_find?_eq_some hx)
        (hid.symm.trans hxid.symm)
    simp only [Kernel.setRetvalue, Kernel.pcb_emit, Kernel.pcb_modPcb, if_true]
    rw [hfd, h.called_of_mem hmem, hsem]
  · obtain rfl : x = y := Option.some.inj (hx.symm.trans hy)
    rcases semOpenDescriptor_ok hs with ⟨-, rfl⟩ | ⟨d, hf⟩ | ⟨d, e, w, ho⟩
    · exact .same hp h (.same (.setRetvalue s p _) p) (Or.inr (by simp; decide))
    · have hlast : (t.pcb p).lastSemFd = (s.pcb p).lastSemFd + 1 := by
        rw [hf.lastSemFd, if_pos rfl]
        exact toInt_succ h.next hfit
      have hold : ∀ f ∈ (s.pcb p).semDescriptors.items,
          t.sems.descriptor.cell f = s.sems.descriptor.cell f := fun f hmem =>
        hf.cell f fun he => hf.fresh (he ▸ (hk.sem.linked p f hmem).inUse)
      have hsame : ∀ fd, calledSemaphore t p fd = calledSemaphore s p fd :=
        calledSemaphore_congr (hf.semDescriptors p) hold
      refine ⟨hf.processes.running.trans hp, h.congr (hf.semDescriptors p) hold (by omega),
        by omega, fun fd y hy => (hsame fd).trans hy, Or.inr ?_⟩
      rw [hf.retvalue, if_pos rfl]
      decide
    · have hlast : (t.pcb p).lastSemFd = (s.pcb p).lastSemFd + 1 := by
        rw [ho.lastSemFd, if_pos rfl]
        exact toInt_succ h.next hfit
      have hfds := h.opened hk ho hfit
      have hold : ∀ f ∈ (s.pcb p).semDescriptors.items,
          t.sems.descriptor.cell f = s.sems.descriptor.cell f := fun f hmem =>
        ho.cell_old (hk.sem.linked p f hmem).inUse
      refine ⟨ho.processes.running.trans hp, hfds, by omega,
        fun fd y hy => FdsBelow.called_append ho.items hold hy, Or.inl ?_⟩
      have hint : toInt (s.pcb p).lastSemFd = (s.pcb p).lastSemFd :=
        Int.bmod_eq_of_le (by omega) (by omega)
      have hcalled := hfds.called_of_mem (d := d) (by simp [ho.items])
      rw [ho.cell_new] at hcalled
      rw [ho.retvalue, if_pos rfl, hint]
      exact hcalled
  · rw [hx] at hunknown
    cases hunknown

/-- The open of a semaphore that exists. -/
theorem step_semOpen_known (hk : KernelInv s) (hp : s.running = some p)
    (hx : semaphoreListById s.sems (toInt (args.getD 0 0)) = some x) (h : FdsBelow s p)
    (hfit : (s.pcb p).lastSemFd < 2 ^ 31 - 1)
    (hs : kernel.step s (.syscall dsosCallSemopen args) = .ok t) : OpensKnown s t p x := by
  have hrun : runHandler .semOpen (enterSyscall s p dsosCallSemopen args) = .ok t :=
    (step_handler hp).symm.trans hs
  have hquiet := (enterSyscall_quiet s p dsosCallSemopen args).semaphores
  have harg : ((enterSyscall s p dsosCallSemopen args).pcb p).syscallArgs 0 = args.getD 0 0 :=
    enterSyscall_arg (by decide)
  have hlast := hquiet.lastSemFd p
  have hopens := internalSemOpen_known (hk.enter hp) hp (by rw [harg]; exact hx)
    (h.same (.same hquiet p)) (by rw [hlast]; exact hfit) hrun
  refine ⟨hopens.running, hopens.fds, hlast ▸ hopens.next, fun fd y hy => ?_, hopens.result⟩
  exact hopens.kept fd y (calledSemaphore_enter.trans hy)

/-- A wait with a number that means nothing returns an error at once. -/
theorem step_semWait_unknown (hp : s.running = some p)
    (hx : calledSemaphore s p (toInt (args.getD 0 0)) = none)
    (hs : kernel.step s (.syscall dsosCallSemwait args) = .ok t) :
    t.running = some p ∧ (t.pcb p).syscallRetvalue = dsosEnotmysem := by
  have hrun : runHandler .semWait (enterSyscall s p dsosCallSemwait args) = .ok t :=
    (step_handler hp).symm.trans hs
  have hp' : (enterSyscall s p dsosCallSemwait args).running = some p := hp
  obtain ⟨p', hq, hcase⟩ := internalSemWait_ok hrun
  obtain rfl : p = p' := Option.some.inj (hp'.symm.trans hq)
  rcases hcase with ⟨-, rfl⟩ | ⟨d, y, w, hd, -⟩
  · exact ⟨hp, by simp⟩
  · have hcall : calledSemaphore (enterSyscall s p dsosCallSemwait args) p
        (toInt (args.getD 0 0)) = some (s.sems.descriptor.cell d).semaphore := by
      rw [enterSyscall_arg (by decide)] at hd
      rw [calledSemaphore, hd]
      rfl
    rw [calledSemaphore_enter, hx] at hcall
    cases hcall

/-! ### Who lives on -/

/-- Only a process that exits is not alive any more. -/
theorem step_alive (hk : KernelInv s) (hs : kernel.step s act = .ok t) (hb : Alive s b) :
    Alive t b ∨ s.running = some b ∧ ∃ args, act = .syscall dsosCallExit args := by
  rcases step_call hk hs with hq | ⟨p, hd, args, hp, rfl, hke, hnum, hrun⟩ | ⟨c, -, hidle, hc⟩
  · exact Or.inl ((hq.family.alive b).mpr hb)
  · have he := enterSyscall_quiet s p hd.number args
    have hm := runHandler_family hke hp hnum hrun
    rcases hm.alive hke.proc ((he.family.alive b).mpr hb) with ha | ⟨hpb, hn⟩
    · exact Or.inl ha
    · obtain rfl : p = b := Option.some.inj (hp.symm.trans hpb)
      exact Or.inr ⟨hp, args, by rw [← hn, hnum]⟩
  · have hm : FamilyMove s t := .start c hidle hc
    refine (hm.alive hk.proc hb).imp_right fun ⟨hrun, _⟩ => ?_
    simp [hidle] at hrun

theorem FamilyMove.size (hm : FamilyMove s t) :
    t.pcbs.pool.sizeMax = s.pcbs.pool.sizeMax := by
  cases hm with
  | same same => exact same.size
  | create p b q cpu _ created => exact created.size
  | zombie p a i _ _ _ _ _ _ zombied => exact zombied.size
  | deliver p a i q _ _ _ _ _ _ _ _ delivered => exact delivered.size
  | collect p q _ _ _ _ result =>
    subst result
    simp [reaped]
  | start b _ started => exact started.size

theorem inUse_lt (h : kernel.Reachable s) (hb : s.pcbs.InUse b) : b < maxNumProcesses := by
  have hsize : s.pcbs.pool.sizeMax = maxNumProcesses := by
    refine h.invariant (P := fun s => s.pcbs.pool.sizeMax = maxNumProcesses) ?_
      fun s act t hr hp hm => ?_
    · decide +kernel
    · obtain ⟨u, hu, -, hmove⟩ := step_move (KernelInv.reachable hr) hm
      rw [hmove.size, hu.size, hp]
  exact hsize ▸ hb.lt

end DisastrOS
