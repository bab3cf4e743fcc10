import DisastrOS.Blocking

/-! When a semWait shuts the system down, and how processes that sleep are woken. -/
namespace DisastrOS
open BlockPool TransitionSystem

variable {s t u : Kernel} {p q b a i d x w : ℕ} {act : Action} {args : List ℤ}

/-! ### Timers -/

theorem internalSchedule_timer (h : KernelInv s) (hs : internalSchedule s = .ok t)
    (hi : i ∈ s.timers.list.items) :
    i ∈ elapsed s ∧ Woken t (sleeper s i) ∨
      i ∈ t.timers.list.items ∧ t.timers.item.cell i = s.timers.item.cell i := by
  obtain ⟨u, hel, hcase⟩ := internalSchedule_elapsed h hs
  have hu : i ∈ elapsed s ∧ Woken u (sleeper s i) ∨
      i ∈ u.timers.list.items ∧ u.timers.item.cell i = s.timers.item.cell i := by
    rw [hel.timers, List.mem_append] at hi
    exact hi.imp (fun hE => ⟨hE, hel.woken hE⟩) fun hr => ⟨hr, by rw [hel.cell]⟩
  rcases hcase with ⟨-, rfl⟩ | ⟨p, q, rest, hp, hr, rfl⟩
  · exact hu
  · have hne : sleeper s i ≠ p := fun he => h.not_waiting hp (he ▸ (h.wake.sleeping i hi).1)
    exact hu.imp (fun ⟨hE, hw⟩ => ⟨hE, hw.rotated (hel.running.trans hp) hne hr⟩) id

theorem internalSchedule_time (h : KernelInv s) (hs : internalSchedule s = .ok t) :
    t.time = s.time := by
  obtain ⟨u, hel, ⟨-, rfl⟩ | ⟨p, q, rest, -, -, rfl⟩⟩ := internalSchedule_elapsed h hs
  · exact hel.time
  · exact hel.time

/-- A timer stays as it is until its time has come and its process is woken. -/
theorem step_timer (h : KernelInv s) (hs : step s act = .ok t) (hi : i ∈ s.timers.list.items) :
    awakeningTime s i ≤ t.time ∧ Woken t (sleeper s i) ∨
      i ∈ t.timers.list.items ∧ t.timers.item.cell i = s.timers.item.cell i := by
  rcases step_ok hs with ⟨p, n, args, hp, -, hr⟩ | ⟨p, hp, -, ht⟩ | ⟨-, hr⟩
  · cases hr with
    | outOfRange _ same =>
      subst same
      exact Or.inr ⟨hi, rfl⟩
    | notImplemented _ result =>
      subst result
      exact Or.inr ⟨hi, rfl⟩
    | handled hd _ run =>
      have hke : KernelInv (enterSyscall s p n args) := h.enter hp
      rcases (runHandler_move hke hp run).timers with ht | ⟨-, ha⟩ | ht
      · rw [ht]
        exact Or.inr ⟨hi, rfl⟩
      · rcases timerListAdd_ok ha with ⟨hn, -⟩ | ⟨j, st, l, hst, hj, hl, ho⟩
        · cases hn
        rw [Option.some.inj ho]
        refine Or.inr ⟨(listInsert_ok hl).2.1.mem_iff.mpr (List.mem_cons_of_mem j hi), ?_⟩
        have hij : i ≠ j := fun he => hj (he ▸ hi)
        rw [hst.cell, if_neg hij]
        rfl
      · rcases internalSchedule_timer hke ht hi with ⟨hE, hw⟩ | hr
        · exact Or.inl ⟨internalSchedule_time hke ht ▸ elapsed_due hE, hw⟩
        · exact Or.inr hr
  · rcases internalSchedule_timer h.ticked ht hi with ⟨hE, hw⟩ | hr
    · exact Or.inl ⟨internalSchedule_time h.ticked ht ▸ elapsed_due hE, hw⟩
    · exact Or.inr hr
  · rw [hr.timers]
    exact Or.inr ⟨hi, rfl⟩

/-- A call of the scheduler wakes the process of every timer whose time has come. -/
theorem internalSchedule_wakes (h : KernelInv s) (hsort : TimersSorted s)
    (hs : internalSchedule s = .ok t) (hi : i ∈ s.timers.list.items)
    (hdue : awakeningTime s i ≤ s.time) : Woken t (sleeper s i) := by
  obtain ⟨u, hel, hcase⟩ := internalSchedule_elapsed h hs
  have hu : Woken u (sleeper s i) := hel.woken ((mem_elapsed hsort).mpr ⟨hi, hdue⟩)
  rcases hcase with ⟨-, rfl⟩ | ⟨r, q, rest, hr, hready, rfl⟩
  · exact hu
  · have hne : sleeper s i ≠ r := fun he => h.not_waiting hr (he ▸ (h.wake.sleeping i hi).1)
    exact hu.rotated (hel.running.trans hr) hne hready

/-- A tick wakes the process of every timer whose time has come. -/
theorem tick_timer (h : KernelInv s) (hsort : TimersSorted s) (hs : step s .tick = .ok t)
    (hi : i ∈ s.timers.list.items) (hdue : awakeningTime s i ≤ t.time) :
    Woken t (sleeper s i) := by
  obtain ⟨p, -, ht⟩ := timerInterrupt_ok hs
  rw [internalSchedule_time h.ticked ht] at hdue
  have hsorted : TimersSorted (ticked s p) := hsort.congr rfl
  have hw : Woken t (sleeper (ticked s p) i) :=
    internalSchedule_wakes h.ticked hsorted ht hi hdue
  exact hw

theorem HandlerMove.time {hd : Handler} (h : KernelInv s) (hm : HandlerMove s t p hd) :
    t.time = s.time := by
  cases hm with
  | same same => exact same.time
  | fork b q created => exact created.time
  | spawn b q created => exact created.time
  | preempt scheduled => exact internalSchedule_time h scheduled
  | sleep _ _ _ _ _ _ result | idle _ _ _ _ result | collect _ _ _ result
  | wait _ _ _ _ _ _ result | exitNext _ _ _ _ _ _ _ _ _ _ result
  | exitParent _ _ _ _ _ _ _ _ _ _ _ result | semWait _ _ _ _ _ _ _ _ _ _ result
  | semPost _ _ _ _ _ _ _ _ _ _ _ result =>
    subst result
    simp [reaped, dispatched, suspended, resumed, reclaimed, handedToParent, zombified, semWoken,
      semSet]

/-- Only ticks move the clock. -/
theorem step_time (h : KernelInv s) (hs : step s act = .ok t) :
    t.time = if act = .tick then toInt (s.time + 1) else s.time := by
  rcases step_ok hs with ⟨p, n, args, hp, rfl, hr⟩ | ⟨p, hp, rfl, ht⟩ | ⟨rfl, hr⟩
  · rw [if_neg (by simp)]
    cases hr with
    | outOfRange _ same => rw [same]
    | notImplemented _ result =>
      rw [result]
      rfl
    | handled hd _ run =>
      have hke : KernelInv (enterSyscall s p n args) := h.enter hp
      have htime : t.time = (enterSyscall s p n args).time := (runHandler_move hke hp run).time hke
      exact htime
  · rw [if_pos rfl, internalSchedule_time h.ticked ht]
    rfl
  · rw [if_neg (by simp), hr.time]

/-- The timer `i` wakes its process: every step keeps the timer until its time has come, and the
first tick from then on at the latest wakes the process. -/
structure WakesInTime (s : Kernel) (i : ℕ) : Prop where
  keeps : ∀ act t, kernel.step s act = .ok t →
    awakeningTime s i ≤ t.time ∧ Woken t (sleeper s i) ∨
      i ∈ t.timers.list.items ∧ t.timers.item.cell i = s.timers.item.cell i
  ticks : s.running ≠ none → ∃ t, kernel.step s .tick = .ok t
  wakes : ∀ t, kernel.step s .tick = .ok t → awakeningTime s i ≤ t.time → Woken t (sleeper s i)

theorem wakesInTime (h : kernel.Reachable s) (hi : i ∈ s.timers.list.items) : WakesInTime s i where
  keeps _ _ hs := step_timer (.reachable h) hs hi
  ticks hr := by
    obtain ⟨p, hp⟩ := Option.ne_none_iff_exists'.mp hr
    exact timerInterrupt_isOk (.reachable h) hp
  wakes _ hs hdue := tick_timer (.reachable h) (.reachable h) hs hi hdue

/-! ### Deadlocks -/

/-- The semWait shuts the system down only if nobody is ready and nobody sleeps; whoever sleeps
is woken in every run that goes on from it. -/
structure DeadlockIsReal (s : Kernel) (args : List ℤ) : Prop where
  shutdown : kernel.step s (.syscall dsosCallSemwait args) = .error .shutdown →
    (s.procs .ready).items = [] ∧ s.timers.list.items = []
  sleepers : ∀ i ∈ s.timers.list.items,
    ∃ t, kernel.step s (.syscall dsosCallSemwait args) = .ok t ∧
      i ∈ t.timers.list.items ∧ t.timers.item.cell i = s.timers.item.cell i ∧
      ∀ u, (kernel.startingAt t).Reachable u → i ∈ u.timers.list.items →
        u.timers.item.cell i = s.timers.item.cell i → WakesInTime u i

theorem internalSemWait_enter (hp : s.running = some p) :
    kernel.step s (.syscall dsosCallSemwait args) =
      internalSemWait (enterSyscall s p dsosCallSemwait args) :=
  @step_handler s p .semWait args hp

theorem semWaitBlocks_enter : SemWaitBlocks (enterSyscall s p dsosCallSemwait args) p
      (toInt (((enterSyscall s p dsosCallSemwait args).pcb p).syscallArgs 0)) ↔
    SemWaitBlocks s p (toInt (args.getD 0 0)) := by
  have hnum : syscallNumarg dsosCallSemwait = 1 := rfl
  simp [SemWaitBlocks, enterSyscall, hnum]

theorem internalSemWait_timers (hs : internalSemWait s = .ok t) : t.timers = s.timers := by
  obtain ⟨p, -, ⟨-, rfl⟩ | ⟨d, x, w, -, -, -, ⟨-, rfl⟩ | ⟨-, -, -, q, rest, -, rfl⟩⟩⟩ :=
    internalSemWait_ok hs
  all_goals simp [semSet, dispatched, suspended]

/-- A semWait that blocks declares a deadlock that is one exactly when somebody is ready or
nobody sleeps. -/
theorem deadlockIsReal_iff (h : kernel.Reachable s) (hp : s.running = some p)
    (hb : SemWaitBlocks s p (toInt (args.getD 0 0))) :
    DeadlockIsReal s args ↔ (s.procs .ready).items ≠ [] ∨ s.timers.list.items = [] := by
  have hk : KernelInv s := .reachable h
  have hke : KernelInv (enterSyscall s p dsosCallSemwait args) := hk.enter hp
  have hbe := semWaitBlocks_enter.mpr hb
  have hready : (enterSyscall s p dsosCallSemwait args).procs = s.procs := rfl
  rcases internalSemWait_returns hke hp with ⟨-, hr, hs⟩ | ⟨hne, t, ht⟩
  · rw [← internalSemWait_enter hp] at hs
    rw [hready] at hr
    constructor
    · exact fun hd => Or.inr (hd.shutdown hs).2
    · rintro (hne | hnil)
      · exact absurd hr hne
      · exact ⟨fun _ => ⟨hr, hnil⟩, fun i hi => absurd hi (by simp [hnil])⟩
  · rw [← internalSemWait_enter hp] at ht
    rw [hready] at hne
    refine ⟨fun _ => Or.inl (hne hbe), fun _ => ⟨fun hs => ?_, fun i hi => ?_⟩⟩
    · rw [ht] at hs
      cases hs
    · have hrt : kernel.Reachable t := h.next ht
      have hkeep : i ∈ t.timers.list.items ∧ t.timers.item.cell i = s.timers.item.cell i := by
        rw [internalSemWait_timers (internalSemWait_enter hp ▸ ht)]
        exact ⟨hi, rfl⟩
      refine ⟨t, ht, hkeep.1, hkeep.2, fun u hu hiu _ => wakesInTime (hu.goesOn hrt) hiu⟩

theorem deadlockIsReal_ready :
    let s := kernel.replay [.syscall dsosCallSpawn [0, 0], .syscall dsosCallSemopen [7, 0]]
    s.running = some 0 ∧ SemWaitBlocks s 0 0 ∧ DeadlockIsReal s [0] := by
  have hb : SemWaitBlocks (kernel.replay [.syscall dsosCallSpawn [0, 0],
      .syscall dsosCallSemopen [7, 0]]) 0 0 := by decide +kernel
  exact ⟨by decide +kernel, hb, (deadlockIsReal_iff (System.reachable_replay _)
    (by decide +kernel) hb).mpr (by decide +kernel)⟩

/-- A process that blocks while init sleeps and nobody is ready shuts the system down. -/
theorem deadlock_not_real : ∃ s, kernel.Reachable s ∧ s.running = some 1 ∧
    SemWaitBlocks s 1 0 ∧ (s.procs .waiting).items = [0] ∧ s.timers.list.items ≠ [] ∧
    kernel.failure s (.syscall dsosCallSemwait [0]) = some .shutdown ∧ ¬ DeadlockIsReal s [0] := by
  have hfail : kernel.failure (kernel.replay [.syscall dsosCallSpawn [0, 0],
      .syscall dsosCallSleep [10], .syscall dsosCallSemopen [7, 0]])
      (.syscall dsosCallSemwait [0]) = some .shutdown := by decide +kernel
  refine ⟨_, System.reachable_replay _, by decide +kernel, by decide +kernel, by decide +kernel,
    by decide +kernel, hfail, fun h => ?_⟩
  have htimers := (h.shutdown (System.step_of_failure hfail)).2
  exact absurd htimers (by decide +kernel)

end DisastrOS
