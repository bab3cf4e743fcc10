import DisastrOS.SemaphoreRoom

/-! A close of a semaphore undoes its open. -/
namespace DisastrOS
open BlockPool TransitionSystem

variable {s t : Kernel} {p d : ℕ} {args : List ℤ}

/-- Every open of the step has a block for everything that it makes. -/
def OpensHaveRoom (s : Kernel) : Action → Prop
  | .syscall n args => ∀ p ∈ s.running,
      n = dsosCallSemopen → SemOpenRoom s p (toInt (args.getD 0 0))
  | .tick | .returnToProcess => True

instance (s : Kernel) (act : Action) : Decidable (OpensHaveRoom s act) :=
  match act with
  | .syscall n _ => inferInstanceAs (Decidable (∀ p ∈ s.running, n = dsosCallSemopen → _))
  | .tick | .returnToProcess => inferInstanceAs (Decidable True)

/-- The open of `p` and the close of the number that it returns leave the semaphores as they
were. -/
def CloseUndoesOpen (s : Kernel) (p : ℕ) (args : List ℤ) : Prop :=
  ∃ t r, kernel.step s (.syscall dsosCallSemopen args) = .ok t ∧ t.running = some p ∧
    kernel.step t (.syscall dsosCallSemclose [(t.pcb p).syscallRetvalue]) = .ok r ∧
    SemsRestored s r

/-! ### What holds in such runs -/

theorem SemHeld.reachableBy (h : kernel.ReachableBy OpensHaveRoom s) : SemHeld s := by
  refine h.invariant (P := SemHeld) RelationInv.start.held fun s act t hr hi hG hm => ?_
  rcases step_sem (KernelInv.reachable hr.reachable) hm with
    hq | ⟨u, p, he, -, hmove⟩ | ⟨b, -, -, hst⟩
  · exact hi.same hq.semaphores
  · refine (hi.same he.quiet.semaphores).move he.invariant hmove ?_
    refine he.onOpen (fun n h => h.quiet he.quiet) ?_
    rintro args rfl
    exact (hG p he.running rfl).whole
  · rw [SemHeld, hst.sems]
    exact hi

/-- The next number of every process is an `int`. -/
def IntFds (s : Kernel) : Prop := ∀ b, toInt (s.pcb b).lastSemFd = (s.pcb b).lastSemFd

namespace IntFds

theorem of_eq (h : IntFds s) (heq : ∀ b, (t.pcb b).lastSemFd = (s.pcb b).lastSemFd) :
    IntFds t := fun b => by
  rw [heq]
  exact h b

theorem advance (h : IntFds s) (heq : ∀ b, (t.pcb b).lastSemFd =
      if b = p then toInt ((s.pcb p).lastSemFd + 1) else (s.pcb b).lastSemFd) :
    IntFds t := fun b => by
  rw [heq]
  split_ifs
  · simp [toInt]
  · exact h b

theorem newProcess {b : ℕ} (h : IntFds s) (hc : NewProcess s t b) : IntFds t := fun k => by
  rw [hc.lastSemFd]
  split_ifs
  · rfl
  · exact h k

theorem move (h : IntFds s) (hs : SemMove s t) : IntFds t := by
  have hopens : ∀ {u p x}, OpensAt s u p x → IntFds u := fun ho => by
    obtain ⟨m, rfl, -⟩ := ho.shape
    exact h
  cases hs with
  | same same => exact h.of_eq same.lastSemFd
  | newProcess b created => exact h.newProcess created
  | noDescriptor p x u running number notOpen opens empty result =>
    subst result
    exact (hopens opens).of_eq fun b => by simp
  | noPointer p x d u running number notOpen opens failed =>
    exact (hopens opens).advance failed.lastSemFd
  | opened p x d e w u running number notOpen opens opened =>
    exact (hopens opens).advance opened.lastSemFd
  | closed p x d e w running number found semaphore ptr waitPtr closed =>
    exact h.of_eq closed.lastSemFd
  | counted x v l counted => exact h.of_eq counted.lastSemFd

theorem reachable (h : kernel.Reachable s) : IntFds s := by
  refine h.invariant (P := IntFds) ?_ fun s act t hr hi hs => ?_
  · obtain ⟨t, -, hc, hs⟩ := disastrOSStart_eq
    change IntFds disastrOSStart
    rw [hs]
    intro b
    simp only [Kernel.pcb, hc]
    split_ifs <;> rfl
  · rcases step_sem (.reachable hr) hs with hq | ⟨u, p, he, -, hmove⟩ | ⟨b, -, -, hst⟩
    · exact hi.of_eq hq.semaphores.lastSemFd
    · exact (hi.of_eq he.quiet.semaphores.lastSemFd).move hmove
    · exact hi.newProcess hst.newProcess

end IntFds

/-! ### The close of an open -/

/-- The close undoes the open exactly when the number that the open returns is that of none of the
descriptors that `p` had open before. -/
theorem closeUndoesOpen_iff (h : kernel.ReachableBy OpensHaveRoom s) (hp : s.running = some p)
    (hnone : mySearch s.sems (s.pcb p).semDescriptors (toInt (args.getD 0 0)) = none)
    (hroom : SemOpenRoom s p (toInt (args.getD 0 0))) :
    CloseUndoesOpen s p args ↔ ∀ d ∈ (s.pcb p).semDescriptors.items,
      (s.sems.descriptor.cell d).fd ≠ (s.pcb p).lastSemFd := by
  have hk := KernelInv.reachable h.reachable
  obtain ⟨t, u, x, d, e, w, ht, opens, opened⟩ := hroom.succeeds hk hp hnone
  have hafter := AfterOpen.of_opened opens opened
  have hrunning : t.running = some p := hafter.running.trans hp
  obtain ⟨f, hf, hiff⟩ := hafter.byFd
  have harg : toInt (List.getD [(t.pcb p).syscallRetvalue] 0 0) = (s.pcb p).lastSemFd := by
    change toInt (t.pcb p).syscallRetvalue = _
    rw [hafter.retvalue, IntFds.reachable h.reachable]
  rw [← harg] at hf
  obtain ⟨r, hr, hc⟩ := step_semClose (KernelInv.reachable (h.reachable.next ht)) hrunning hf
  rw [← hiff]
  constructor
  · rintro ⟨t', r', ht', -, hr', hs⟩
    obtain rfl := Except.ok.inj (ht.symm.trans ht')
    obtain rfl := Except.ok.inj (hr.symm.trans hr')
    -- the new descriptor stays open if another one is found
    by_contra hfd
    refine hafter.notOpen ?_
    have hreentered :=
      (enterSyscall_quiet t p dsosCallSemclose [(t.pcb p).syscallRetvalue]).semaphores
    rw [← hs.semDescriptors, hc.semDescriptors, if_pos rfl, hreentered.semDescriptors, hafter.items]
    exact (List.mem_erase_of_ne (Ne.symm hfd)).mpr (by simp)
  · rintro rfl
    rw [hafter.new] at hc
    exact ⟨t, r, ht, hrunning, hr, opened.restored hk (SemHeld.reachableBy h) hp opens hc⟩

/-- The open of a semaphore that `p` has open returns the number that `p` has for it. -/
theorem step_semOpen_again (hk : KernelInv s) (hp : s.running = some p)
    (hd : d ∈ (s.pcb p).semDescriptors.items) (hid :
      (s.sems.semaphore.cell (s.sems.descriptor.cell d).semaphore).id = toInt (args.getD 0 0)) :
    ∃ t, kernel.step s (.syscall dsosCallSemopen args) = .ok t ∧
      (t.pcb p).syscallRetvalue = (s.sems.descriptor.cell d).fd ∧ OnlyReturns s t p args := by
  have hpv : (enterSyscall s p dsosCallSemopen args).running = some p := hp
  obtain ⟨t, ht⟩ := internalSemOpen_isOk (hk.enter hp) hpv
  refine ⟨t, (@step_handler s p .semOpen args hp).trans ht, ?_⟩
  have harg : ((enterSyscall s p dsosCallSemopen args).pcb p).syscallArgs 0 = args.getD 0 0 :=
    enterSyscall_arg (by decide)
  obtain ⟨hsems, hown⟩ := enterSyscall_sems s p dsosCallSemopen args
  have hsearch : mySearch s.sems (s.pcb p).semDescriptors (toInt (args.getD 0 0)) = some d := by
    cases hf : mySearch s.sems (s.pcb p).semDescriptors (toInt (args.getD 0 0)) with
    | none => simpa [hid] using List.find?_eq_none.mp hf d hd
    | some f =>
      have hmem := List.mem_of_find?_eq_some hf
      have hfid := List.find?_some hf
      simp only [decide_eq_true_eq, ← hid] at hfid
      have hl := hk.sem.linked p d hd
      have hlf := hk.sem.linked p f hmem
      rw [hk.sem.unique p d hd f hmem (hk.sem.ids _ hl.listed _ hlf.listed hfid)]
  obtain ⟨p', hp', hcase⟩ := internalSemOpen_ok ht
  obtain rfl : p = p' := Option.some.inj (hpv.symm.trans hp')
  rw [hsems, hown, harg, hsearch] at hcase
  rcases hcase with ⟨f, hf, rfl⟩ | ⟨hnone, -⟩
  · obtain rfl := Option.some.inj hf
    exact ⟨by simp, _, rfl⟩
  · cases hnone

/-- In a run in which every open has room, the close undoes an open that has room unless the number
that comes next is that of a descriptor which the process has open, and the open of a semaphore
that the process has open only returns its number. -/
theorem semClose_undoes_iff (h : kernel.ReachableBy OpensHaveRoom s) (hp : s.running = some p) :
    (mySearch s.sems (s.pcb p).semDescriptors (toInt (args.getD 0 0)) = none →
      SemOpenRoom s p (toInt (args.getD 0 0)) →
        (CloseUndoesOpen s p args ↔ ∀ d ∈ (s.pcb p).semDescriptors.items,
          (s.sems.descriptor.cell d).fd ≠ (s.pcb p).lastSemFd)) ∧
      ∀ d ∈ (s.pcb p).semDescriptors.items,
        (s.sems.semaphore.cell (s.sems.descriptor.cell d).semaphore).id = toInt (args.getD 0 0) →
        ∃ t, kernel.step s (.syscall dsosCallSemopen args) = .ok t ∧
          (t.pcb p).syscallRetvalue = (s.sems.descriptor.cell d).fd ∧ OnlyReturns s t p args :=
  ⟨closeUndoesOpen_iff h hp, fun _ hd hid => step_semOpen_again (.reachable h.reachable) hp hd hid⟩

/-- Init waits for the semaphore 7; its child opens it as well and closes it again. -/
theorem semClose_undoes_attached :
    let s := kernel.replayBy OpensHaveRoom [.syscall dsosCallSemopen [7, 0],
      .syscall dsosCallSpawn [0, 0], .syscall dsosCallSemwait [0], .syscall dsosCallSemopen [8, 1]]
    s.running = some 1 ∧ queue s 0 = [1] ∧ CloseUndoesOpen s 1 [7, 1] ∧
      ∃ t, kernel.step s (.syscall dsosCallSemopen [8, 5]) = .ok t ∧
        (t.pcb 1).syscallRetvalue = (s.sems.descriptor.cell 1).fd ∧ OnlyReturns s t 1 [8, 5] := by
  have hrun : ∀ as, kernel.ReachableBy OpensHaveRoom (kernel.replayBy OpensHaveRoom as) := fun _ =>
    System.reachableBy_replayBy _
  refine ⟨by decide +kernel, by decide +kernel, ?_, ?_⟩
  · exact ((semClose_undoes_iff (hrun _) (by decide +kernel)).1 (by decide +kernel)
      (by decide +kernel)).mpr (by decide +kernel)
  · exact (semClose_undoes_iff (hrun _) (by decide +kernel)).2 1 (by decide +kernel)
      (by decide +kernel)

/-- After `2 ^ 32` opens init gets the number 0 again, which it has open for another semaphore. -/
theorem semClose_closes_other : ∃ s p, kernel.ReachableBy OpensHaveRoom s ∧ s.running = some p ∧
    mySearch s.sems (s.pcb p).semDescriptors 2 = none ∧ SemOpenRoom s p 2 ∧
    ¬ CloseUndoesOpen s p [2, 1] := by
  obtain ⟨s, hs⟩ := NextFd.reaches (2 ^ 32 - 1) (by decide)
  obtain ⟨d, hd, hfd, -, hid⟩ := hs.opened
  obtain ⟨hsem, hdesc, hptr⟩ := hs.room
  have hrun : kernel.ReachableBy OpensHaveRoom s := hs.reachable.mono fun s act hG => by
    cases act with
    | syscall n args => exact fun p hp => (hG p hp).2
    | tick | returnToProcess => trivial
  have hnone : mySearch s.sems (s.pcb 0).semDescriptors 2 = none := by
    simp [mySearch, hd, hid]
  have hroom : SemOpenRoom s 0 2 := Or.inr ⟨Or.inr hsem, hdesc, hptr⟩
  have hlast : (s.pcb 0).lastSemFd = 0 := hs.next.trans (by decide)
  refine ⟨s, 0, hrun, hs.running, hnone, hroom, fun hc => ?_⟩
  refine (@closeUndoesOpen_iff s 0 [2, 1] hrun hs.running hnone hroom).mp hc d (by simp [hd]) ?_
  rw [hfd, hlast]

end DisastrOS
