import DisastrOS.Faults
import DisastrOS.Household

/-! As many producers as consumers do not block each other for good. -/
namespace DisastrOS
open BlockPool TransitionSystem

variable {s : Kernel} {w w' : World} {p b f : ℕ} {th : Thread} {r : Role} {g : Gate}
  {n : Work} {act : Action} {args : List ℤ}

/-- What holds in the runs in which no call fails. As in `World.runLine`, no timer signal comes
between the return of a call and the read of its result. -/
structure WorkInv (w : World) (n : Work) : Prop where
  world : WorldInv w
  progress : ProgressInv w n
  ledger : TokensInv w
  household : Household w

theorem WorkInv.reachableBy {y : World × Work} (h : countedWorld.ReachableBy NoCallFails y) :
    WorkInv y.1 y.2 := by
  refine h.invariant (P := fun y => WorkInv y.1 y.2) ⟨.start, .start, .start, .start⟩ ?_
  rintro ⟨w, n⟩ move ⟨w', n'⟩ - hi hG hm
  obtain ⟨hs, hn⟩ := System.withRecord_step.mp hm
  obtain rfl : n' = recordWork w move w' n := hn
  exact ⟨hi.world.step hs, hi.progress.step hi.world hG hs,
    hi.ledger.step hi.world hi.progress hG hs, hi.household.step hi.world hs⟩

/-! ### A deadlock -/

/-- The process has come to a gate whose semaphore has no token for it. -/
def World.Stuck (w : World) (b : ℕ) (th : Thread) : Prop :=
  ∃ g, (th.line = .wait g ∨ th.line = .waited g ∧ b ∈ waiters w.kernel (th.role.sem g)) ∧
    w.value th.role g = 0

namespace World

/-- Who is stuck holds nothing but an item, and that only if it is stuck at the mutex. -/
theorem stuck_tokens (hg : th.line = .wait g ∨
    th.line = .waited g ∧ b ∈ waiters w.kernel (th.role.sem g)) {g' : Gate}
    (hne : g' = .me ∨ g = .item) : tokens w.kernel r g' b (some th) = 0 := by
  have hholds : ¬ Holds w.kernel b th g' := by
    rcases hg with hl | ⟨hl, hmem⟩
    · rintro (hh | ⟨hh, -⟩)
      · rw [hl] at hh
        cases g <;> cases g' <;> simp [Line.holds] at hh hne
      · rw [hl] at hh
        cases hh
    · rintro (hh | ⟨hh, hnot, -⟩)
      · rw [hl] at hh
        cases g <;> cases g' <;> simp [Line.holds] at hh hne
      · obtain rfl : g = g' := by
          rw [hl] at hh
          exact Line.waited.inj hh
        exact hnot hmem
  have howes : th.line.owes = false := by
    rcases hg with hl | ⟨hl, -⟩
    · rw [hl]
      rfl
    · rw [hl]
      rfl
  by_cases hr : th.role = r
  · rw [tokens_own hr, if_neg hholds]
  · rw [tokens_other hr, howes]
    simp

theorem leftOf_nonneg (h : ProgressInv w n) (r : Role) (b : ℕ) : 0 ≤ leftOf r (w.thread b) := by
  cases hth : w.thread b with
  | none => exact le_rfl
  | some th =>
    simp only [leftOf]
    split_ifs
    · exact (h.fine b th hth).left_nonneg
    · exact le_rfl

theorem todoOf_nonneg (h : ProgressInv w n) (b : ℕ) : 0 ≤ todoOf (w.thread b) := by
  cases hth : w.thread b with
  | none => exact le_rfl
  | some th => exact (h.fine b th hth).todo_pos.le

theorem left_eq_zero (h : ∀ b th, w.thread b = some th → th.role ≠ r) : w.left r = 0 := by
  refine sum_eq_zero fun b => ?_
  cases hth : w.thread b with
  | none => rfl
  | some th => exact if_neg (h b th hth)

end World

namespace WorkInv

/-- Every token is where it can be used. -/
theorem value_eq (h : WorkInv w n) (hzero : ∀ b, tokens w.kernel r g b (w.thread b) = 0) :
    w.value r g + w.used r g = w.given r g := by
  have hhands : w.inHands r g = 0 := Finset.sum_eq_zero fun b _ => hzero b
  have hle := h.world.balanced r g
  have hge := h.ledger.conserved r g
  rw [hhands] at hle hge
  omega

/-- The mutexes are free, so that it is an item that everybody waits for. -/
theorem stuck_item (h : WorkInv w n) (hstuck : ∀ b th, w.thread b = some th → w.Stuck b th)
    (hth : w.thread b = some th) : (th.line = .wait .item ∨
      th.line = .waited .item ∧ b ∈ waiters w.kernel (th.role.sem .item)) ∧
      w.value th.role .item = 0 := by
  obtain ⟨g, hg, hzero⟩ := hstuck b th hth
  cases g with
  | item => exact ⟨hg, hzero⟩
  | me =>
    have hvalue := h.value_eq (r := th.role) (g := .me) fun c => by
      cases hc : w.thread c with
      | none => rfl
      | some tc =>
        obtain ⟨g', hg', -⟩ := hstuck c tc hc
        exact World.stuck_tokens hg' (Or.inl rfl)
    rw [hzero] at hvalue
    simp [World.used, World.given] at hvalue

/-- Whoever waits for an item has an iteration left. -/
theorem left_pos (h : WorkInv w n) (hth : w.thread b = some th)
    (hline : th.line = .wait .item ∨ th.line = .waited .item) : 1 ≤ w.left th.role := by
  have hle : leftOf th.role (w.thread b) ≤ w.left th.role :=
    World.le_sum (World.leftOf_nonneg h.progress th.role) (h.world.thread_lt hth)
  have hin : th.line.inLoop = true := by
    rcases hline with hl | hl
    · rw [hl]
      rfl
    · rw [hl]
      rfl
  have hlt := ((h.progress.fine b th hth).inLoop hin).2
  have hone : leftOf th.role (w.thread b) = iterations - th.i := by
    rw [hth]
    simp only [leftOf, if_true, Thread.left]
    rcases hline with hl | hl
    · rw [hl]
      rfl
    · rw [hl]
      rfl
  omega

/-- If all processes are stuck, and there have been as many producers as consumers, there are
none. -/
theorem nobody_stuck (h : WorkInv w n) (hn : n.spawned .prod = n.spawned .cons)
    (hstuck : ∀ b th, w.thread b = some th → w.Stuck b th) : w.thread b = none := by
  have hvalue : ∀ r, w.value r .item + w.used r .item = w.given r .item := fun r =>
    h.value_eq fun b => by
      cases hth : w.thread b with
      | none => rfl
      | some th => exact World.stuck_tokens (h.stuck_item hstuck hth).1 (Or.inr rfl)
  have hprod := hvalue .prod
  have hcons := hvalue .cons
  simp only [World.used, World.given, Role.other, bufferLength] at hprod hcons
  have htp := h.progress.slots .prod
  have htc := h.progress.slots .cons
  rw [hn] at htp
  cases hth : w.thread b with
  | none => rfl
  | some th =>
    -- the role of `b` is behind, and all of the other role are at their end
    exfalso
    obtain ⟨hline, hzero⟩ := h.stuck_item hstuck hth
    have hleft := h.left_pos hth (hline.imp_right And.left)
    have hnone : w.value th.role.other .item ≠ 0 → w.left th.role.other = 0 := fun hne =>
      World.left_eq_zero fun c tc hc hrole => hne (hrole ▸ (h.stuck_item hstuck hc).2)
    cases hr : th.role with
    | prod =>
      simp only [hr, Role.other] at hzero hleft hnone
      have hcons0 : w.left .cons = 0 := hnone (by omega)
      omega
    | cons =>
      simp only [hr, Role.other] at hzero hleft hnone
      have hprod0 : w.left .prod = 0 := hnone (by omega)
      omega

/-- Whoever waits for a semaphore is stuck. -/
theorem stuck_of_waiting (h : WorkInv w n) (hth : w.thread b = some th)
    (hb : b ∈ (w.kernel.procs .waiting).items) : w.Stuck b th := by
  have hk := h.world.kernelInv
  obtain ⟨r, g, hmem⟩ := h.household.queued b hb (h.world.threads b th hth).child
  obtain ⟨th', hth', rfl, hline, -⟩ := h.ledger.queued r g b hmem
  obtain rfl : th' = th := Option.some.inj (hth'.symm.trans hth)
  refine ⟨g, Or.inr ⟨hline, hmem⟩, ?_⟩
  obtain ⟨f, hf⟩ := h.world.father
  have hne : queue w.kernel (th'.role.sem g) ≠ [] := fun hnil => by simp [waiters, hnil] at hmem
  have hneg : count w.kernel (th'.role.sem g) < 0 :=
    (CountInv.reachableBy h.world.kernelReachable).le_zero (hf.listed hk (fdName_sem_lt _ _)) hne
  unfold World.value
  omega

/-- With nobody ready, everybody who does not run is stuck. -/
theorem stuck_of_not_ready (h : WorkInv w n) (hready : (w.kernel.procs .ready).items = [])
    (hth : w.thread b = some th) (hrun : w.kernel.running ≠ some b) : w.Stuck b th := by
  refine h.stuck_of_waiting hth ?_
  refine ((h.world.threads b th hth).alive.placed h.world.kernelInv.proc hrun).resolve_left ?_
  simp [hready]

end WorkInv

/-! ### The process that runs -/

/-- The father has spawned as many producers as consumers, or is still ready to spawn. -/
def World.Paired (w : World) (n : Work) : Prop :=
  n.spawned .prod = n.spawned .cons ∨ ∃ f ∈ w.kernel.initPcb, f ∈ (w.kernel.procs .ready).items

theorem isOk_of_faultOf {r : Except Fault Kernel} (h : faultOf r = none) : ∃ t, r = .ok t := by
  cases r with
  | ok t => exact ⟨t, rfl⟩
  | error e => cases h

theorem enterKernel_isOk (h : ∃ t, kernel.step s act = .ok t) : ∃ t, enterKernel s act = .ok t := by
  obtain ⟨t, ht⟩ := h
  exact ⟨t, by rw [enterKernel, ht]⟩

theorem bind_halt_isOk {α β : Type} {x : Except Halt α} {f : α → Except Halt β}
    (hx : ∃ a, x = .ok a) (hf : ∀ a, ∃ b, f a = .ok b) : ∃ b, (x >>= f) = .ok b := by
  obtain ⟨a, rfl⟩ := hx
  exact hf a

namespace WorkInv

/-- If a process waits when nobody is ready, there is a token for it. -/
theorem semWait_isOk (h : WorkInv w n) (hn : w.Paired n) (hp : w.kernel.running = some p)
    (hth : w.thread p = some th) (hline : th.line = .wait g) : ∃ t, kernel.step w.kernel
      (.syscall dsosCallSemwait [th.fd (th.role.function.waitFd g)]) = .ok t := by
  have hr := h.world.kernelReachable.reachable
  have hfault : faultOf (kernel.step w.kernel
      (.syscall dsosCallSemwait [th.fd (th.role.function.waitFd g)])) =
      handlerFault w.kernel p [th.fd (th.role.function.waitFd g)] .semWait :=
    handler_fault hr hp .semWait
  refine isOk_of_faultOf (hfault.trans (if_neg ?_))
  rintro ⟨hblocks, hready⟩
  have heven : n.spawned .prod = n.spawned .cons := by
    refine hn.resolve_right ?_
    simp [hready]
  obtain ⟨d, hd, hcount⟩ := hblocks
  have hmade : th.role.function.waitFd g ∈ th.line.made := by
    rw [hline]
    cases g <;> cases th.role <;> decide
  have hcalled : calledSemaphore w.kernel p (toInt (th.fd (th.role.function.waitFd g))) =
      some (w.kernel.sems.descriptor.cell d).semaphore := by
    have hfind : semDescriptorListByFd w.kernel.sems (w.kernel.pcb p).semDescriptors
        (toInt (th.fd (th.role.function.waitFd g))) = some d := hd
    rw [calledSemaphore, hfind]
    rfl
  have hsem : (w.kernel.sems.descriptor.cell d).semaphore = th.role.sem g := by
    rcases (h.world.threads p th hth).called (by rw [hline]; rfl) hmade with hx | hnone
    · exact Option.some.inj (hcalled.symm.trans hx)
    · cases hcalled.symm.trans hnone
  rw [hsem] at hcount
  have hstuck : ∀ b tb, w.thread b = some tb → w.Stuck b tb := by
    intro b tb hb
    by_cases hbp : b = p
    · subst hbp
      obtain rfl : th = tb := Option.some.inj (hth.symm.trans hb)
      exact ⟨g, Or.inl hline, max_eq_right hcount⟩
    · exact h.stuck_of_not_ready hready hb fun hrun => hbp (Option.some.inj (hrun.symm.trans hp))
  cases (h.nobody_stuck heven hstuck).symm.trans hth

/-- Whoever exits leaves somebody to run: its father, if nobody is ready. -/
theorem exit_isOk (h : WorkInv w n) (hfew : createdCount w.kernel.trace < 2 ^ 31)
    (hp : w.kernel.running = some p) (hth : w.thread p = some th) (args : List ℤ) :
    ∃ t, kernel.step w.kernel (.syscall dsosCallExit args) = .ok t := by
  have hr := h.world.kernelReachable.reachable
  have hk := h.world.kernelInv
  obtain ⟨f, hf⟩ := h.world.father
  have hne : w.kernel.initPcb ≠ some p := (h.world.threads p th hth).child
  have hfp : f ≠ p := fun he => hne (he ▸ hf.init)
  have hparent : (w.kernel.pcb p).parent = some f := (h.household.parent p th hth).trans hf.init
  have hfault := @exit_fault w.kernel p args hr hp
  rw [if_neg hne] at hfault
  refine isOk_of_faultOf (hfault.trans (if_pos ?_))
  intro i hi
  obtain rfl : f = i := Option.some.inj (hf.init.symm.trans hi)
  refine ⟨f, hparent, ?_⟩
  split_ifs with hwaits
  · -- he finds it among his children
    obtain ⟨hc, -⟩ := child_pid_reachable hr hfew
    obtain ⟨c, q, hq, hqp⟩ := hc.complete p (hk.proc.inUse_of_running hp) (by simp [hparent])
    obtain rfl : c = f := by
      by_contra hcf
      have hnil := h.household.children c fun hi => hcf (Option.some.inj (hi.symm.trans hf.init))
      rw [hnil] at hq
      cases hq
    rw [Ne, pcbPtrByPid, List.find?_eq_none]
    intro hall
    have hmem : q ∈ (reparented w.kernel p c c).items := by
      rw [reparented, if_neg hfp, if_pos rfl]
      exact List.mem_append_left _ hq
    have hpid := hall q hmem
    rw [show (w.kernel.pcbPtrs.cell q).pcb = p from hqp] at hpid
    simp at hpid
  · intro hready
    refine hwaits ?_
    have hmem : f ∈ (w.kernel.procs .waiting).items := by
      refine (hf.alive.placed hk.proc fun hrun => hfp ?_).resolve_left (by simp [hready])
      exact Option.some.inj (hrun.symm.trans hp)
    obtain ⟨hnum, harg⟩ := h.household.father f hmem hf.init
    exact ⟨(hk.proc.waiting f).mpr hmem, hnum, Or.inl harg⟩

/-- A father who waits for his children finds one that has exited, or somebody ready, or has
none. -/
theorem wait_isOk (h : WorkInv w n) (hfew : createdCount w.kernel.trace < 2 ^ 31)
    (hn : n.spawned .prod = n.spawned .cons) (hp : w.kernel.running = some p)
    (hinit : w.kernel.initPcb = some p) :
    ∃ t, kernel.step w.kernel (.syscall dsosCallWait [0, 0]) = .ok t := by
  have hr := h.world.kernelReachable.reachable
  have hk := h.world.kernelInv
  have hfault : faultOf (kernel.step w.kernel (.syscall dsosCallWait [0, 0])) =
      handlerFault w.kernel p [0, 0] .wait := handler_fault hr hp .wait
  refine isOk_of_faultOf (hfault.trans ?_)
  rw [handlerFault]
  split
  · rfl
  rename_i q hq
  refine if_neg ?_
  rintro ⟨hlive, hready⟩
  obtain ⟨hc, -⟩ := child_pid_reachable hr hfew
  have hchild := awaitedPtr_mem hq
  have halive : Alive w.kernel (child w.kernel q) := by
    have hu := hc.childInUse p q hchild
    exact ⟨hu, fun hz => hlive ((hk.proc.zombie _ hu).mpr hz)⟩
  have hthread := (h.household.alive _ halive).resolve_left fun hi =>
    hc.irrefl p q hchild (Option.some.inj (hi.symm.trans hinit))
  refine hthread (h.nobody_stuck hn fun b tb hb => h.stuck_of_not_ready hready hb fun hrun => ?_)
  obtain rfl : p = b := Option.some.inj (hp.symm.trans hrun)
  exact (h.world.threads p tb hb).child hinit

/-- A process that has seen no error can carry out its next line. -/
theorem runLine_isOk (h : WorkInv w n) (hfew : createdCount w.kernel.trace < 2 ^ 31)
    (hn : w.Paired n) (hp : w.kernel.running = some p) (hth : w.thread p = some th) :
    ∃ w', w.runLine p th false = .ok w' := by
  have hr := h.world.kernelReachable.reachable
  have hexit : ∃ w', w.exit p = .ok w' :=
    bind_halt_isOk (enterKernel_isOk (h.exit_isOk hfew hp hth _)) fun _ => ⟨_, rfl⟩
  have hcheck : ∀ th' l, ∃ w', w.checkRet p th' false l = .ok w' := by
    intro th' l
    unfold World.checkRet
    split_ifs
    · exact hexit
    · exact ⟨_, rfl⟩
  have hcall : ∀ {n : ℤ} {v l}, (∃ t, kernel.step w.kernel (.syscall n [th.fd v]) = .ok t) →
      ∃ w', w.call p th n v l = .ok w' := fun hs =>
    bind_halt_isOk (enterKernel_isOk hs) fun _ => ⟨_, rfl⟩
  unfold World.runLine
  cases hl : th.line with
  | opening v =>
    refine bind_halt_isOk (enterKernel_isOk (isOk_of_faultOf ?_)) fun _ => ⟨_, rfl⟩
    exact handler_fault hr hp .semOpen
  | opened v =>
    simp only
    split_ifs
    · exact hexit
    · exact ⟨_, rfl⟩
  | loop | readIndex | store | advance | writeIndex => exact ⟨_, rfl⟩
  | wait g => exact hcall (h.semWait_isOk hn hp hth hl)
  | waited g => cases g <;> exact hcheck _ _
  | post g => exact hcall (isOk_of_faultOf (handler_fault hr hp .semPost))
  | posted g => cases g <;> exact hcheck _ _
  | close v => exact hcall (isOk_of_faultOf (handler_fault hr hp .semClose))
  | closed v => cases v <;> exact hcheck _ _
  | exit => exact hexit

end WorkInv

/-! ### No deadlock -/

/-- The process that runs can go on: the father with a wait, and every other process with its next
line. -/
def World.CanGoOn (w : World) : Prop := ∃ p, w.kernel.running = some p ∧
  ((w.kernel.initPcb = some p ∧ ∃ w', w.step .wait = .ok w') ∨
    w.kernel.initPcb ≠ some p ∧ ∃ w', w.step (.run false) = .ok w')

/-- As long as no call fails, producers and consumers in equal numbers never come to a deadlock,
in whatever order they have been spawned and are scheduled, nor do they before the father has
spawned them all. Results are read before the next timer signal (`World.runLine`). -/
theorem no_deadlock {y : World × Work} (h : countedWorld.ReachableBy NoCallFails y)
    (hfew : createdCount y.1.kernel.trace < 2 ^ 31) (hn : y.1.Paired y.2) : y.1.CanGoOn := by
  have hi := WorkInv.reachableBy h
  obtain ⟨w, n⟩ := y
  simp only at hfew hn hi ⊢
  obtain ⟨p, hp⟩ := Option.ne_none_iff_exists'.mp hi.household.runs
  refine ⟨p, hp, ?_⟩
  by_cases hinit : w.kernel.initPcb = some p
  · have heven : n.spawned .prod = n.spawned .cons := by
      refine hn.resolve_right ?_
      rintro ⟨f, hf, hmem⟩
      obtain rfl : p = f := Option.some.inj (hinit.symm.trans hf)
      exact hi.world.kernelInv.proc.running_ne hp hmem rfl
    have hfather : w.fatherRuns := ⟨by simp [hp], hp.trans hinit.symm⟩
    refine Or.inl ⟨hinit, ?_⟩
    simp only [World.step, if_pos hfather]
    exact bind_halt_isOk (enterKernel_isOk (hi.wait_isOk hfew heven hp hinit)) fun _ => ⟨_, rfl⟩
  · have halive : Alive w.kernel p := alive_of_running hi.world.kernelInv.proc hp
    have hthread := (hi.household.alive p halive).resolve_left hinit
    obtain ⟨th, hth⟩ := Option.ne_none_iff_exists'.mp hthread
    refine Or.inr ⟨hinit, ?_⟩
    simp only [World.step, hp, hth]
    exact hi.runLine_isOk hfew hn hp hth

/-- The father and the consumer wait, nobody is ready, and the producer that runs can go on. -/
theorem no_deadlock_waiting :
    let y := countedWorld.replayBy NoCallFails ([.spawn .prod, .spawn .cons, .wait, .tick] ++
      List.replicate 8 (.run false))
    y.1.kernel.running = some 1 ∧ (y.1.kernel.procs .ready).items = [] ∧
      (y.1.kernel.procs .waiting).items = [0, 2] ∧ y.1.CanGoOn := by
  refine ⟨by decide +kernel, by decide +kernel, by decide +kernel, ?_⟩
  refine no_deadlock (System.reachableBy_replayBy _) (by decide +kernel) (Or.inl ?_)
  decide +kernel

/-- A producer alone blocks, and then the father who waits for it has nobody to give way to. -/
example : (producersConsumers.failure (countedWorld.replayBy NoCallFails ([.spawn .prod, .tick] ++
    List.replicate 73 (.run false))).1 .wait).isSome = true := by decide +kernel

/-! ### The end -/

namespace WorkInv

/-- All lines have been carried out when all processes have ended. -/
theorem lines_eq_iff (h : WorkInv w n) :
    n.lines = linesOfProcess * (n.spawned .prod + n.spawned .cons) ↔ ∀ b, w.thread b = none := by
  have hlines := h.progress.lines
  constructor
  · intro heq b
    cases hth : w.thread b with
    | none => rfl
    | some th =>
      have hle : todoOf (w.thread b) ≤ w.todo :=
        World.le_sum (World.todoOf_nonneg h.progress) (h.world.thread_lt hth)
      have hpos := (h.progress.fine b th hth).todo_pos
      rw [hth, todoOf] at hle
      unfold linesOfProcess at heq hlines
      omega
  · intro hnone
    have hzero : w.todo = 0 := World.sum_eq_zero fun b => by rw [hnone b, todoOf]
    unfold linesOfProcess at hlines ⊢
    omega

end WorkInv

/-- In a run in which no call fails, no process carries out more than 144 lines, whatever the others
do, and all have ended when as many have been carried out for each. Results are read before the
next timer signal (`World.runLine`). -/
theorem lines_bounded {y : World × Work} (h : countedWorld.ReachableBy NoCallFails y) :
    (∀ b, y.2.own b ≤ linesOfProcess) ∧
      y.2.lines ≤ linesOfProcess * (y.2.spawned .prod + y.2.spawned .cons) ∧
      (y.2.lines = linesOfProcess * (y.2.spawned .prod + y.2.spawned .cons) ↔
        ∀ b, y.1.thread b = none) := by
  have hi := WorkInv.reachableBy h
  refine ⟨fun b => ?_, ?_, hi.lines_eq_iff⟩
  · have htodo := World.todoOf_nonneg hi.progress b
    rcases hi.progress.own b with hown | ⟨-, hown⟩
    · omega
    · rw [hown]
      exact Nat.zero_le _
  have hlines := hi.progress.lines
  have htodo : 0 ≤ y.1.todo := World.sum_nonneg (World.todoOf_nonneg hi.progress)
  unfold linesOfProcess at hlines ⊢
  omega

/-- A producer alone has filled the buffer, and is blocked in the middle of its lines. -/
theorem lines_bounded_alone :
    let y := countedWorld.replayBy NoCallFails ([.spawn .prod, .tick] ++
      List.replicate 73 (.run false))
    (y.1.thread 1).map Thread.line = some (.waited .item) ∧ y.1.kernel.running = some 0 ∧
      y.2.own 1 = 73 ∧ (∀ b, y.2.own b ≤ linesOfProcess) ∧
      y.2.lines ≤ linesOfProcess * (y.2.spawned .prod + y.2.spawned .cons) ∧
        (y.2.lines = linesOfProcess * (y.2.spawned .prod + y.2.spawned .cons) ↔
          ∀ b, y.1.thread b = none) :=
  ⟨by decide +kernel, by decide +kernel, by decide +kernel,
    lines_bounded (System.reachableBy_replayBy _)⟩

/-- The buffer is as the father has made it. -/
structure World.AsMade (w : World) : Prop where
  full : ∀ i, w.full i = false
  index : ∀ r : Role, r.function.index w.data = r.function.index World.start.data
  count : ∀ r g, count w.kernel (Role.sem r g) = count World.start.kernel (Role.sem r g)
  waiters : ∀ r g, waiters w.kernel (Role.sem r g) = []

namespace WorkInv

theorem slots_length (h : WorkInv w n) (hend : ∀ b, w.thread b = none) (r : Role) :
    (w.slots r).length = 10 * n.spawned r := by
  have htotal := h.progress.slots r
  rw [World.left_eq_zero fun b th hth => by cases (hend b).symm.trans hth] at htotal
  unfold iterations at htotal
  omega

theorem waiters_nil (h : WorkInv w n) (hend : ∀ b, w.thread b = none) (r : Role) (g : Gate) :
    waiters w.kernel (r.sem g) = [] := by
  rw [List.eq_nil_iff_forall_not_mem]
  intro b hb
  obtain ⟨th, hth, -⟩ := h.ledger.queued r g b hb
  cases (hend b).symm.trans hth

/-- Every token is back, and nobody waits, so that the count is the number of tokens. -/
theorem count_add_used (h : WorkInv w n) (hend : ∀ b, w.thread b = none) (r : Role) (g : Gate) :
    0 ≤ count w.kernel (r.sem g) ∧
      count w.kernel (r.sem g) + w.used r g = w.given r g := by
  obtain ⟨f, hf⟩ := h.world.father
  have hlisted : r.sem g ∈ w.kernel.sems.list.items :=
    hf.listed h.world.kernelInv (fdName_sem_lt _ r)
  have hlen := (CountInv.reachableBy h.world.kernelReachable _ hlisted).1
  rw [List.map_eq_nil_iff.mp (h.waiters_nil hend r g), List.length_nil] at hlen
  have hcount : 0 ≤ count w.kernel (r.sem g) := by omega
  have hvalue := h.value_eq (r := r) (g := g) fun b => by
    rw [hend b]
    rfl
  rw [World.value, max_eq_left hcount] at hvalue
  exact ⟨hcount, hvalue⟩

theorem spawned_eq (h : WorkInv w n) (hend : ∀ b, w.thread b = none) :
    n.spawned .prod = n.spawned .cons := by
  obtain ⟨hp0, hprod⟩ := h.count_add_used hend .prod .item
  obtain ⟨hc0, hcons⟩ := h.count_add_used hend .cons .item
  simp only [World.used, World.given, Role.other, h.slots_length hend, bufferLength] at hprod hcons
  push_cast at hprod hcons
  omega

theorem spawned_other (h : WorkInv w n) (hend : ∀ b, w.thread b = none) (r : Role) :
    n.spawned r.other = n.spawned r := by
  cases r with
  | prod => exact (h.spawned_eq hend).symm
  | cons => exact h.spawned_eq hend

theorem asMade (h : WorkInv w n) (hend : ∀ b, w.thread b = none) : w.AsMade where
  full i := by
    have htracked := h.world.tracked i
    rw [(h.world.indexed .prod).slots, (h.world.indexed .cons).slots, h.slots_length hend,
      h.slots_length hend, h.spawned_eq hend] at htracked
    cases hfull : w.full i with
    | false => rfl
    | true =>
      rw [hfull, Bool.toNat_true] at htracked
      omega
  index r := by
    have hindex := (h.world.indexed r).index fun b th hth => by cases (hend b).symm.trans hth
    have hstart : r.function.index World.start.data = 0 := by cases r <;> rfl
    rw [hindex, h.slots_length hend, hstart]
    unfold bufferLength
    omega
  count r g := by
    obtain ⟨-, hcount⟩ := h.count_add_used hend r g
    rw [WorldInv.start_counts]
    cases g with
    | item =>
      have hstart : (World.start.slots r.other).length = 0 := rfl
      simp only [World.used, World.given, h.slots_length hend, h.spawned_other hend] at hcount
      simp only [World.given, hstart]
      push_cast
      omega
    | me =>
      simp only [World.used, World.given] at hcount
      simp only [World.given]
      omega
  waiters := h.waiters_nil hend

end WorkInv

/-- When all processes have ended without a failed call, there have been as many producers as
consumers, they have gone around the buffer twice each, and it is as at the start. Results are read
before the next timer signal (`World.runLine`). -/
theorem ends_as_made {y : World × Work} (h : countedWorld.ReachableBy NoCallFails y)
    (hend : ∀ b, y.1.thread b = none) : y.2.spawned .prod = y.2.spawned .cons ∧
      (∀ r, y.1.slots r = circular (10 * y.2.spawned r)) ∧ y.1.AsMade := by
  have hi := WorkInv.reachableBy h
  refine ⟨hi.spawned_eq hend, fun r => ?_, hi.asMade hend⟩
  rw [(hi.world.indexed r).slots, hi.slots_length hend]

/-- The father has waited for both, who have carried out all of their lines. -/
theorem ends_as_made_pair :
    let y := countedWorld.replayBy NoCallFails ([.spawn .prod, .spawn .cons, .wait] ++
      List.replicate 217 (.run false) ++ [.wait] ++ List.replicate 71 (.run false))
    y.2.spawned .prod = 1 ∧ y.2.spawned .prod = y.2.spawned .cons ∧
      (∀ r, y.1.slots r = circular (10 * y.2.spawned r)) ∧ y.1.AsMade := by
  have h := System.reachableBy_replayBy (M := countedWorld) (G := NoCallFails)
    ([.spawn .prod, .spawn .cons, .wait] ++ List.replicate 217 (.run false) ++ [.wait] ++
      List.replicate 71 (.run false))
  exact ⟨by decide +kernel, ends_as_made h
    ((WorkInv.reachableBy h).lines_eq_iff.mp (by decide +kernel))⟩

end DisastrOS
