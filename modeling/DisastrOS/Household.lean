import DisastrOS.BufferTokens
import DisastrOS.LifeCycle
import DisastrOS.QueueOrder

/-! The father and the processes that he has spawned: who is alive, and who waits for what. -/
namespace DisastrOS
open BlockPool TransitionSystem

variable {s t k : Kernel} {w w' : World} {p q b x : ℕ} {th th' : Thread} {r : Role} {g : Gate}
  {act : Action} {args : List ℤ} {move : World.Move}

/-! ### Steps of the kernel -/

/-- The action makes no new process. -/
def Action.Childless (act : Action) : Prop :=
  ∀ args, act ≠ .syscall dsosCallSpawn args ∧ act ≠ .syscall dsosCallFork args

theorem place_eq_waiting (h : ProcInv s) : place s b = .waiting ↔ b ∈ (s.procs .waiting).items := by
  refine ⟨fun hpl => ?_, fun hb => h.place_of_mem (l := .waiting) hb⟩
  unfold place at hpl
  split_ifs at hpl with hrun hready hwaiting
  exact hwaiting

theorem alive_iff_place (h : ProcInv s) : Alive s b ↔ place s b ≠ .free ∧ place s b ≠ .zombie := by
  constructor
  · rintro ⟨hu, hz⟩
    have honce := h.once b
    rw [if_pos hu, occurrences] at honce
    unfold place
    split_ifs with hrun hready hwaiting
    · decide
    · decide
    · decide
    · rw [if_neg hrun, List.count_eq_zero.mpr hready, List.count_eq_zero.mpr hwaiting,
        List.count_eq_zero.mpr hz] at honce
      cases honce
  · rintro ⟨hfree, hzombie⟩
    refine ⟨?_, fun hz => hzombie (h.place_of_mem (l := .zombie) hz)⟩
    by_contra hu
    exact hfree (h.place_free hu)

/-- Who is alive and does not run is ready or waits. -/
theorem Alive.placed (h : ProcInv s) (hb : Alive s b) (hrun : s.running ≠ some b) :
    b ∈ (s.procs .ready).items ∨ b ∈ (s.procs .waiting).items := by
  by_contra hnot
  obtain ⟨hready, hwaiting⟩ := not_or.mp hnot
  obtain ⟨hfree, hzombie⟩ := (alive_iff_place h).mp hb
  unfold place at hfree hzombie
  rw [if_neg hrun, if_neg hready, if_neg hwaiting] at hfree hzombie
  split_ifs at hfree hzombie
  · exact hzombie rfl
  · exact hfree rfl

theorem step_born (hk : KernelInv s) (hs : kernel.step s act = .ok t) (hr : s.running ≠ none)
    (hact : act.Childless) (hb : Alive t b) : Alive s b := by
  have hedge := step_edge hk hs b
  rw [alive_iff_place (hk.step hs).proc] at hb
  rw [alive_iff_place hk.proc]
  generalize place s b = pl at hedge ⊢
  generalize place t b = pl' at hedge hb
  cases hedge with
  | stays => exact hb
  | born hd args handler =>
    rcases handler with rfl | rfl
    · exact absurd rfl (hact args).1
    · exact absurd rfl (hact args).2
  | started idle _ => exact absurd idle hr
  | exits | handed | collected => simp at hb
  | _ => simp

theorem place_eq_running : place s b = .running ↔ s.running = some b := by
  refine ⟨fun hpl => ?_, place_running⟩
  unfold place at hpl
  split_ifs at hpl with hrun
  exact hrun

/-- Who comes to wait has called sleep, wait or semWait. -/
theorem step_waits (hk : KernelInv s) (hs : kernel.step s act = .ok t)
    (hb : b ∈ (t.procs .waiting).items) : b ∈ (s.procs .waiting).items ∨
      s.running = some b ∧ ∃ hd args, act = .syscall (Handler.number hd) args ∧
        (hd = .sleep ∨ hd = .wait ∨ hd = .semWait) := by
  have hedge := step_edge hk hs b
  rw [(place_eq_waiting (hk.step hs).proc).mpr hb] at hedge
  generalize hpl : place s b = pl at hedge
  cases hedge with
  | stays => exact Or.inl ((place_eq_waiting hk.proc).mp hpl)
  | wakes _ _ _ _ _ _ _ woken => simp at woken
  | blocks hd args handler => exact Or.inr ⟨place_eq_running.mp hpl, hd, args, rfl, handler⟩

theorem HandlerMove.runs {hd : Handler} (h : KernelInv s) (hp : s.running = some p)
    (hm : HandlerMove s t p hd) (hne : hd ≠ .sleep) : t.running ≠ none := by
  cases hm with
  | same same => simp [same.running, hp]
  | fork b q created | spawn b q created => simp [created.running, hp]
  | preempt scheduled =>
    obtain ⟨u, hel, ⟨-, rfl⟩ | ⟨_, q, rest, -, -, rfl⟩⟩ := internalSchedule_elapsed h scheduled
    · simp [hel.running, hp]
    · simp [rotated]
  | sleep | idle => exact absurd rfl hne
  | collect q asked zombie result =>
    subst result
    simp [reaped, hp]
  | wait q rest c asked alive ready result =>
    subst result
    simp [dispatched]
  | exitNext a i q sig rest parent init differ noWaiter ready result =>
    subst result
    simp [resumed]
  | exitParent a i q sig l r parent init differ waits waiting result =>
    subst result
    simp [reclaimed]
  | semWait d x w q rest found semaphore waitPtr count ready result =>
    subst result
    simp [dispatched]
  | semPost d x w b rest found semaphore count queued process waiting result =>
    subst result
    simp [semWoken, semSet, hp]

theorem step_runs (hk : KernelInv s) (hs : kernel.step s act = .ok t)
    (hsleep : ∀ args, act ≠ .syscall dsosCallSleep args) : t.running ≠ none := by
  rcases step_ok hs with ⟨p, n, args, hp, rfl, hr⟩ | ⟨p, hp, -, ht⟩ | ⟨-, hr⟩
  · cases hr with
    | outOfRange _ same => simp [same, hp]
    | notImplemented _ result =>
      subst result
      simp [enterSyscall, hp]
    | handled hd number run =>
      subst number
      have hke : KernelInv (enterSyscall s p hd.number args) := hk.enter hp
      have hpe : (enterSyscall s p hd.number args).running = some p := hp
      refine (runHandler_move hke hpe run).runs hke hpe ?_
      rintro rfl
      exact hsleep args rfl
  · exact (HandlerMove.preempt ht).runs (hk.ticked (p := p)) (p := p) hp (by decide)
  · cases hr with
    | resumed running same => exact same ▸ running
    | restarted b _ started => simp [started.running]

/-- Nobody but init has children. -/
def OnlyInitHasChildren (s : Kernel) : Prop := ∀ b, s.initPcb ≠ some b → children s b = []

theorem FamilyMove.onlyInit (h : OnlyInitHasChildren s) (hm : FamilyMove s t)
    (hr : s.running ≠ none)
    (hcreate : ∀ p b q cpu, s.running = some p → NewChild s t p b q cpu → s.initPcb = some p) :
    OnlyInitHasChildren t := by
  intro b hb
  rw [hm.initPcb hr] at hb
  have hnil : children s b = [] := h b hb
  cases hm with
  | same same => rwa [children, same.children]
  | create p c q cpu running created =>
    have hbp : b ≠ p := fun he => hb (he ▸ hcreate p c q cpu running created)
    rw [PtrInv.newChild_children created, if_neg hbp, hnil, ite_self]
  | zombie p a i _ _ _ init _ _ zombied =>
    have hbi : b ≠ i := fun he => hb (he ▸ init)
    rw [children, zombied.children, reparented, if_neg hbi]
    split_ifs
    · rfl
    · exact hnil
  | deliver p a i q _ _ _ init _ _ _ _ delivered =>
    have hbi : b ≠ i := fun he => hb (he ▸ init)
    have hgone : ∀ k, k ≠ i → children s k = [] → (reparented s p i k).items = [] := by
      intro k hki hk
      rw [reparented, if_neg hki]
      split_ifs
      · rfl
      · exact hk
    rw [children, delivered.children]
    split_ifs with hba
    · rw [← hba, hgone b hbi hnil, List.erase_nil]
    · exact hgone b hbi hnil
  | collect p q _ _ _ _ result =>
    subst result
    rw [PtrInv.reaped_children]
    split_ifs with hbp
    · rw [← hbp, hnil, List.erase_nil]
    · exact hnil
  | start c idle _ => exact absurd idle hr

theorem step_onlyInit (hk : KernelInv s) (hs : kernel.step s act = .ok t) (hr : s.running ≠ none)
    (h : OnlyInitHasChildren s) (hact : act.Childless ∨ s.running = s.initPcb) :
    OnlyInitHasChildren t := by
  rcases step_family hk hs with hsame | ⟨p, n, args, hp, rfl, hke, hm⟩ | ⟨b, -, hidle, -⟩
  · intro b hb
    rw [hsame.initPcb] at hb
    rw [children, hsame.children]
    exact h b hb
  · refine FamilyMove.onlyInit (s := enterSyscall s p n args) (fun b hb => ?_) hm
      (by simp [enterSyscall, hp]) fun p' b q cpu hp' hc => ?_
    · rw [children, enterSyscall_family.children]
      exact h b hb
    · obtain rfl : p = p' := Option.some.inj (hp.symm.trans hp')
      rcases hact with hact | hinit
      · have hb : Alive t b := by
          refine ⟨(hc.inUse b).mpr (Or.inr rfl), fun hz => hc.notLinked (Or.inr (Or.inr ?_))⟩
          rwa [hc.procs, if_neg (by decide)] at hz
        exact absurd (step_born hk hs hr hact hb).1 hc.fresh
      · exact hinit.symm.trans hp
  · exact absurd hidle hr

/-- Who has called exit is not alive any more. -/
theorem step_exit_gone (hk : KernelInv s) (hp : s.running = some p)
    (hs : kernel.step s (.syscall dsosCallExit args) = .ok t) : ¬ Alive t p := by
  have hrun : internalExit (enterSyscall s p dsosCallExit args) = .ok t :=
    ((@step_handler s p .exit args hp).symm.trans hs)
  have hke : KernelInv (enterSyscall s p dsosCallExit args) := hk.enter hp
  have hpe : (enterSyscall s p dsosCallExit args).running = some p := hp
  obtain ⟨p', a, i, sig, hp', -, -, hpi, he⟩ := internalExit_returns hke.proc hke.wake hrun
  obtain rfl : p = p' := Option.some.inj (hpe.symm.trans hp')
  rintro ⟨hu, hz⟩
  cases he with
  | toParent q u waits waiting found released result =>
    have hl := hke.proc.not_linked hpe
    have hd := reclaimed_delivered (fun hm => hl (Or.inr (Or.inr hm)))
      (hke.proc.running_ne hpe waiting) released
    rw [result, hd.inUse] at hu
    exact hu.2 rfl
  | toNext q rest noWaiter ready result =>
    subst result
    exact hz (by simp [resumed, zombified])

/-- A process that comes to wait in `disastrOS_wait` does so with the arguments of its call. -/
theorem step_wait_args (hk : KernelInv s) (hp : s.running = some p)
    (hs : kernel.step s (.syscall dsosCallWait args) = .ok t)
    (hw : p ∈ (t.procs .waiting).items) :
    (t.pcb p).syscallNum = dsosCallWait ∧ (t.pcb p).syscallArgs 0 = args.getD 0 0 := by
  have hke : KernelInv (enterSyscall s p dsosCallWait args) := hk.enter hp
  have hpe : (enterSyscall s p dsosCallWait args).running = some p := hp
  have hnot : p ∉ ((enterSyscall s p dsosCallWait args).procs .waiting).items := hke.not_waiting hpe
  have hrun : internalWait (enterSyscall s p dsosCallWait args) = .ok t :=
    ((@step_handler s p .wait args hp).symm.trans hs)
  cases internalWait_move hpe hrun with
  | same same =>
    rw [same.procs] at hw
    exact absurd hw hnot
  | collect q asked zombie result =>
    subst result
    exact absurd (by simpa [reaped] using hw) hnot
  | wait q rest c asked alive ready result =>
    subst result
    refine ⟨by simp [dispatched, suspended, enterSyscall], ?_⟩
    have harg : ((enterSyscall s p dsosCallWait args).pcb p).syscallArgs 0 = args.getD 0 0 :=
      enterSyscall_arg (by decide)
    simpa [dispatched, suspended] using harg

/-! ### The processes of the test -/

/-- Everybody but the father runs a thread of its own and is a child of his. He waits in
`disastrOS_wait` for any of them, and they wait for the semaphores of the buffer. -/
structure Household (w : World) : Prop where
  runs : w.kernel.running ≠ none
  alive : ∀ b, Alive w.kernel b → w.kernel.initPcb = some b ∨ w.thread b ≠ none
  parent : ∀ b th, w.thread b = some th → (w.kernel.pcb b).parent = w.kernel.initPcb
  children : OnlyInitHasChildren w.kernel
  father : ∀ b ∈ (w.kernel.procs .waiting).items, w.kernel.initPcb = some b →
    (w.kernel.pcb b).syscallNum = dsosCallWait ∧ (w.kernel.pcb b).syscallArgs 0 = 0
  queued : ∀ b ∈ (w.kernel.procs .waiting).items, w.kernel.initPcb ≠ some b →
    ∃ r g, b ∈ waiters w.kernel (Role.sem r g)

namespace Household
open World

/-- A line that is not a call. -/
theorem same (h : Household w) (hkernel : w'.kernel = w.kernel)
    (hthread : ∀ b, w'.thread b = none ↔ w.thread b = none) : Household w' := by
  refine ⟨hkernel ▸ h.runs, fun b hb => ?_, fun b th hb => ?_, hkernel ▸ h.children,
    hkernel ▸ h.father, hkernel ▸ h.queued⟩
  · rw [hkernel] at hb ⊢
    exact (h.alive b hb).imp_right (mt (hthread b).mp)
  · rw [hkernel]
    obtain ⟨th', hth'⟩ := Option.ne_none_iff_exists'.mp
      fun hnone => by cases ((hthread b).mpr hnone).symm.trans hb
    exact h.parent b th' hth'

/-- A process that does not run goes on waiting for its semaphore until it is made ready. -/
theorem stays_queued (h : Household w) (hw : WorldInv w) (hs : kernel.step w.kernel act = .ok k)
    (hb : b ∈ (w.kernel.procs .waiting).items) (hb' : b ∈ (k.procs .waiting).items)
    (hinit : w.kernel.initPcb ≠ some b) : ∃ r g, b ∈ waiters k (Role.sem r g) := by
  obtain ⟨r, g, hmem⟩ := h.queued b hb hinit
  refine ⟨r, g, ?_⟩
  have hcount : CountInv w.kernel := .reachableBy hw.kernelReachable
  rcases step_place hw.kernelInv hcount.le_zero hmem hs with hready | ⟨hstill, -⟩
  · have := (hw.kernelInv.step hs).proc.disjoint hready hb'
    cases this
  · exact hstill

/-- A call, a tick or a spawn. What it does to the threads is left open, and so is what is known
of a process that comes to wait. -/
theorem goes (h : Household w) (hw : WorldInv w) (hs : kernel.step w.kernel act = .ok w'.kernel)
    (hsleep : ∀ args, act ≠ .syscall dsosCallSleep args)
    (hact : act.Childless ∨ w.kernel.running = w.kernel.initPcb)
    (halive : ∀ b, Alive w'.kernel b → w'.thread b = none →
      w.thread b = none ∧ Alive w.kernel b)
    (hparent : ∀ b th, w'.thread b = some th → w.thread b ≠ none ∨
      (w'.kernel.pcb b).parent = w.kernel.initPcb)
    (hblocks : ∀ b, w.kernel.running = some b → b ∈ (w'.kernel.procs .waiting).items →
      (w.kernel.initPcb = some b ∧ (w'.kernel.pcb b).syscallNum = dsosCallWait ∧
        (w'.kernel.pcb b).syscallArgs 0 = 0) ∨
      w.kernel.initPcb ≠ some b ∧ ∃ r g, b ∈ waiters w'.kernel (Role.sem r g)) :
    Household w' := by
  have hk := hw.kernelInv
  have hinit : w'.kernel.initPcb = w.kernel.initPcb := step_initPcb hk hs h.runs
  refine ⟨step_runs hk hs hsleep, fun b hb => ?_, fun b th hb => ?_,
    step_onlyInit hk hs h.runs h.children hact, fun b hb hf => ?_, fun b hb hf => ?_⟩
  · rw [hinit]
    by_cases hnone : w'.thread b = none
    · obtain ⟨hold, hlive⟩ := halive b hb hnone
      exact (h.alive b hlive).imp_right fun hne => absurd hold hne
    · exact Or.inr hnone
  · rw [hinit]
    rcases hparent b th hb with hne | hpar
    · obtain ⟨th', hth'⟩ := Option.ne_none_iff_exists'.mp hne
      rw [step_parent hk hs (hw.threads b th' hth').alive.1]
      exact h.parent b th' hth'
    · exact hpar
  · rw [hinit] at hf
    rcases step_waits hk hs hb with hold | ⟨hrun, -⟩
    · cases step_blocked hk hs hold with
      | stays waiting syscallNum syscallArgs =>
        rw [syscallNum, syscallArgs]
        exact h.father b hold hf
      | collects _ _ _ woken | elapsed _ _ _ _ woken | posted _ _ _ _ _ woken =>
        exact absurd hb woken.notWaiting
    · exact ((hblocks b hrun hb).resolve_right fun hnot => hnot.1 hf).2
  · rw [hinit] at hf
    rcases step_waits hk hs hb with hold | ⟨hrun, -⟩
    · exact h.stays_queued hw hs hold hb hf
    · exact ((hblocks b hrun hb).resolve_left fun hnot => hf hnot.1).2

/-- No other call puts the process that runs among those that wait. -/
theorem no_blocks (hw : WorldInv w) (hs : kernel.step w.kernel act = .ok k)
    (hact : ∀ args, act ≠ .syscall dsosCallSleep args ∧ act ≠ .syscall dsosCallWait args ∧
      act ≠ .syscall dsosCallSemwait args) (hrun : w.kernel.running = some b) :
    b ∉ (k.procs .waiting).items := by
  intro hb
  rcases step_waits hw.kernelInv hs hb with hold | ⟨-, hd, args, he, rfl | rfl | rfl⟩
  · exact hw.kernelInv.not_waiting hrun hold
  · exact (hact args).1 he
  · exact (hact args).2.1 he
  · exact (hact args).2.2 he

/-- A call of the process `p` that does not end it. -/
theorem calls (h : Household w) (hw : WorldInv w) (hth : w.thread p = some th)
    (hs : kernel.step w.kernel act = .ok k)
    (hsleep : ∀ args, act ≠ .syscall dsosCallSleep args) (hact : act.Childless)
    (hp : w.kernel.running = some p)
    (hblocks : p ∈ (k.procs .waiting).items → ∃ r g, p ∈ waiters k (Role.sem r g)) :
    Household ((w.entered k).setThread p (some th')) := by
  refine h.goes hw hs hsleep (Or.inl hact) (fun b hb hnone => ?_) (fun b tb hb => ?_)
    fun b hrun hb => Or.inr ?_
  · by_cases hbp : b = p
    · subst hbp
      rw [setThread_self] at hnone
      cases hnone
    · rw [setThread_of_ne _ _ hbp] at hnone
      exact ⟨hnone, step_born hw.kernelInv hs h.runs hact hb⟩
  · by_cases hbp : b = p
    · subst hbp
      simp [hth]
    · rw [setThread_of_ne _ _ hbp] at hb
      left
      change w.thread b = _ at hb
      simp [hb]
  · obtain rfl : p = b := Option.some.inj (hp.symm.trans hrun)
    exact ⟨(hw.threads p th hth).child, hblocks hb⟩

/-- A process that a wait blocks stands in the queue of the semaphore. -/
theorem wait_queued (hw : WorldInv w) (hp : w.kernel.running = some p) (hth : w.thread p = some th)
    (hline : th.line = .wait g) (hs : kernel.step w.kernel
      (.syscall dsosCallSemwait [th.fd (th.role.function.waitFd g)]) = .ok k)
    (hb : p ∈ (k.procs .waiting).items) : p ∈ waiters k (th.role.sem g) := by
  have hmade : th.role.function.waitFd g ∈ th.line.made := by
    rw [hline]
    cases g <;> cases th.role <;> decide
  rcases (hw.threads p th hth).called (by rw [hline]; rfl) hmade with hx | hnone
  · have hev : semEvent w.kernel (.syscall dsosCallSemwait [th.fd (th.role.function.waitFd g)]) =
      .wait (th.role.sem g) p := semEvent_semWait hp hx
    rcases (wait_moves hev hs).2 with ⟨-, hm⟩ | ⟨hle, -⟩
    · rw [hm.procs] at hb
      exact absurd hb (hw.kernelInv.not_waiting hp)
    · have hstep : SemStep w.kernel k (semEvent w.kernel
        (.syscall dsosCallSemwait [th.fd (th.role.function.waitFd g)])) :=
          step_semEvent hw.kernelInv hs
      rw [hev] at hstep
      cases hstep with
      | wait _ _ v listed list id hcount queue hwaiters same =>
        have hcase : waiters k (th.role.sem g) = if 0 < count w.kernel (th.role.sem g) then
          waiters w.kernel (th.role.sem g) else waiters w.kernel (th.role.sem g) ++ [p] := hwaiters
        rw [hcase, if_neg (not_lt.mpr hle)]
        simp
  · obtain ⟨hrun, -⟩ := @step_semWait_unknown _ _ p
      [th.fd (th.role.function.waitFd g)] hp hnone hs
    have hk : KernelInv k := .reachable (hw.kernelReachable.reachable.next hs)
    exact absurd hb (hk.not_waiting hrun)

theorem exits (h : Household w) (hw : WorldInv w) (hp : w.kernel.running = some p)
    (hs : kernel.step w.kernel (.syscall dsosCallExit args) = .ok k) :
    Household ((w.entered k).setThread p none) := by
  have hact : Action.Childless (.syscall dsosCallExit args) := fun _ =>
    ⟨syscall_ne (by decide), syscall_ne (by decide)⟩
  refine h.goes hw hs (fun _ => syscall_ne (by decide)) (Or.inl hact) (fun b hb hnone => ?_)
    (fun b tb hb => ?_) fun b hrun hb => ?_
  · by_cases hbp : b = p
    · subst hbp
      exact absurd hb (step_exit_gone hw.kernelInv hp hs)
    · rw [setThread_of_ne _ _ hbp] at hnone
      exact ⟨hnone, step_born hw.kernelInv hs h.runs hact hb⟩
  · by_cases hbp : b = p
    · subst hbp
      rw [setThread_self] at hb
      cases hb
    · rw [setThread_of_ne _ _ hbp] at hb
      left
      change w.thread b = _ at hb
      simp [hb]
  · exact absurd hb (no_blocks hw hs (fun _ => ⟨syscall_ne (by decide), syscall_ne (by decide),
      syscall_ne (by decide)⟩) hrun)

theorem ran (h : Household w) (hw : WorldInv w) (hp : w.kernel.running = some p)
    (hth : w.thread p = some th) (hran : Ran w w' p th) : Household w' := by
  have hline : ∀ u : World, u.thread = w.thread → ∀ th' b,
      (u.setThread p (some th')).thread b = none ↔ w.thread b = none := by
    intro u hu th' b
    by_cases hbp : b = p
    · subst hbp
      simp [hth]
    · rw [setThread_of_ne _ _ hbp, hu]
  have hidle : ∀ {act}, kernel.step w.kernel act = .ok w'.kernel →
      (∀ args, act ≠ .syscall dsosCallSleep args ∧ act ≠ .syscall dsosCallWait args ∧
        act ≠ .syscall dsosCallSemwait args) → p ∈ (w'.kernel.procs .waiting).items →
      ∃ r g, p ∈ waiters w'.kernel (Role.sem r g) := fun hs hact hb =>
    absurd hb (no_blocks hw hs hact hp)
  have hnot : ∀ {n : ℤ} {args}, n ≠ dsosCallSleep → n ≠ dsosCallWait → n ≠ dsosCallSemwait →
      ∀ args', Action.syscall n args ≠ .syscall dsosCallSleep args' ∧
        Action.syscall n args ≠ .syscall dsosCallWait args' ∧
        Action.syscall n args ≠ .syscall dsosCallSemwait args' := fun h1 h2 h3 _ =>
    ⟨syscall_ne h1, syscall_ne h2, syscall_ne h3⟩
  cases hran with
  | goesOn th' goes result => exact h.same (result ▸ rfl) fun b => result ▸ hline _ rfl th' b
  | stores line result => exact h.same (result ▸ rfl) fun b => result ▸ hline _ rfl _ b
  | writes line result => exact h.same (result ▸ rfl) fun b => result ▸ hline _ rfl _ b
  | exits k line step result => exact result ▸ h.exits hw hp step
  | opens v k th' line step thread result =>
    subst result
    exact h.calls hw hth step (fun _ => syscall_ne (by decide))
      (fun _ => ⟨syscall_ne (by decide), syscall_ne (by decide)⟩) hp
      (hidle step (hnot (by decide) (by decide) (by decide)))
  | waits g k th' line step thread result =>
    subst result
    exact h.calls hw hth step (fun _ => syscall_ne (by decide))
      (fun _ => ⟨syscall_ne (by decide), syscall_ne (by decide)⟩) hp
      fun hb => ⟨th.role, g, wait_queued hw hp hth line step hb⟩
  | posts g k ret line step result =>
    subst result
    exact h.calls hw hth step (fun _ => syscall_ne (by decide))
      (fun _ => ⟨syscall_ne (by decide), syscall_ne (by decide)⟩) hp
      (hidle step (hnot (by decide) (by decide) (by decide)))
  | closes v k ret line step result =>
    subst result
    exact h.calls hw hth step (fun _ => syscall_ne (by decide))
      (fun _ => ⟨syscall_ne (by decide), syscall_ne (by decide)⟩) hp
      (hidle step (hnot (by decide) (by decide) (by decide)))

/-- A timer signal, or a wait of the father. -/
theorem acts (h : Household w) (hw : WorldInv w) (hs : kernel.step w.kernel act = .ok k)
    (hact : act = .tick ∨ act = .syscall dsosCallWait [0, 0] ∧ w.fatherRuns) :
    Household (w.entered k) := by
  have hchildless : act.Childless := by
    intro args
    rcases hact with rfl | ⟨rfl, -⟩
    · simp
    · exact ⟨syscall_ne (by decide), syscall_ne (by decide)⟩
  have hsleep : ∀ args, act ≠ .syscall dsosCallSleep args := by
    intro args
    rcases hact with rfl | ⟨rfl, -⟩
    · simp
    · exact syscall_ne (by decide)
  refine h.goes hw hs hsleep (Or.inl hchildless)
    (fun b hb hnone => ⟨hnone, step_born hw.kernelInv hs h.runs hchildless hb⟩)
    (fun b tb hb => ?_) fun b hrun hb => ?_
  · left
    change w.thread b = _ at hb
    simp [hb]
  · rcases hact with rfl | ⟨rfl, hf⟩
    · exact absurd hb (no_blocks hw hs (fun _ => by simp) hrun)
    · obtain ⟨hnum, harg⟩ := step_wait_args hw.kernelInv hrun hs hb
      exact Or.inl ⟨hf.2.symm.trans hrun, hnum, harg⟩

/-- The new process is in the block `b`. -/
theorem spawns (h : Household w) (hw : WorldInv w) (hf : w.fatherRuns)
    (hs : kernel.step w.kernel (.syscall dsosCallSpawn args) = .ok k)
    (hlast : (k.procs .ready).items.getLast? = some b) (r : Role) :
    Household ((w.entered k).setThread b (some (newThread r))) := by
  obtain ⟨p, hp⟩ := Option.ne_none_iff_exists'.mp hf.1
  obtain ⟨hnone, q, cpu, hc⟩ := hw.spawn_creates hp hs hlast
  refine h.goes hw hs (fun _ => syscall_ne (by decide)) (Or.inr hf.2) (fun c ⟨hu, hz⟩ hnew => ?_)
    (fun c tc hc' => ?_) fun c hrun hmem => ?_
  · have hcb : c ≠ b := by
      rintro rfl
      rw [setThread_self] at hnew
      cases hnew
    rw [setThread_of_ne _ _ hcb] at hnew
    refine ⟨hnew, ?_, fun hzombie => hz ?_⟩
    · have hu' := ((hc.inUse c).mp hu).resolve_right hcb
      rwa [enterSyscall_family.inUse] at hu'
    · change c ∈ (k.procs .zombie).items
      rw [hc.procs, if_neg (by decide)]
      exact hzombie
  · by_cases hcb : c = b
    · subst hcb
      right
      change (k.pcb c).parent = _
      rw [hc.pcb, if_pos rfl, ← hf.2, hp]
      rfl
    · rw [setThread_of_ne _ _ hcb] at hc'
      left
      change w.thread c = _ at hc'
      simp [hc']
  · exact absurd hmem (no_blocks hw hs (fun _ => ⟨syscall_ne (by decide), syscall_ne (by decide),
      syscall_ne (by decide)⟩) hrun)

theorem step (h : Household w) (hw : WorldInv w) (hs : w.step move = .ok w') : Household w' := by
  cases step_moved hs with
  | tick k step result => exact result ▸ h.acts hw step (Or.inl rfl)
  | spawns r b k father step last result => exact result ▸ h.spawns hw father step last r
  | waits k father step result => exact result ▸ h.acts hw step (Or.inr ⟨rfl, father⟩)
  | ran p th running thread ran => exact h.ran hw running thread ran

/-- Only init is there. -/
theorem alone (hw : WorldInv w) (hfew : createdCount w.kernel.trace < 2 ^ 31)
    (hthread : ∀ b, w.thread b = none) (hrun : w.kernel.running ≠ none)
    (hwaiting : (w.kernel.procs .waiting).items = [])
    (honly : ∀ b < maxNumProcesses, w.kernel.pcbs.InUse b → w.kernel.initPcb = some b) :
    Household w := by
  obtain ⟨hc, -⟩ := child_pid_reachable hw.kernelReachable.reachable hfew
  have hall : ∀ b, w.kernel.pcbs.InUse b → w.kernel.initPcb = some b := fun b hb =>
    honly b (inUse_lt hw.kernelReachable.reachable hb) hb
  refine ⟨hrun, fun b hb => Or.inl (hall b hb.1), fun b th hb => ?_, fun b hb => ?_,
    fun b hb => ?_, fun b hb => ?_⟩
  · cases (hthread b).symm.trans hb
  · by_contra hne
    obtain ⟨q, hq⟩ := List.exists_mem_of_ne_nil _ hne
    exact hb (hall b (hc.owner b q hq).1)
  · simp [hwaiting] at hb
  · simp [hwaiting] at hb

/-- Of the process blocks only the first one is handed out. -/
theorem start_free : World.start.kernel.pcbs.pool.free = upFrom 1 (maxNumProcesses - 1) := by
  decide +kernel

theorem start : Household World.start := by
  refine alone .start (by decide +kernel) (fun _ => rfl) (by decide +kernel) (by decide +kernel)
    fun b hlt hb => ?_
  have hfree : b ∉ upFrom 1 (maxNumProcesses - 1) := fun hmem => hb.2 (start_free ▸ hmem)
  rw [mem_upFrom] at hfree
  obtain rfl : b = 0 := by
    unfold maxNumProcesses at hfree hlt
    omega
  exact WorldInv.start_father.init

end Household

end DisastrOS
