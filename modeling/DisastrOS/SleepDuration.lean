import DisastrOS.Deadlock

/-! How long a process sleeps. -/
namespace DisastrOS
open BlockPool TransitionSystem

/-- The runs that go on from `s`, with the number of ticks so far. -/
def tickKernel (s : Kernel) : System (Kernel × ℕ) Action Fault :=
  (kernel.startingAt s).withRecord 0 fun _ act _ c => if act = .tick then c + 1 else c

/-- From `s` on, no call of the scheduler wakes the process `p` before `n` ticks. -/
def SleepsFor (s : Kernel) (p : ℕ) (n : ℤ) : Prop :=
  ∀ u (c : ℕ), (tickKernel s).Reachable (u, c) → c < n → p ∈ (u.procs .waiting).items

variable {s t u : Kernel} {p c : ℕ} {n : ℤ} {act : Action}

theorem time_lt (h : kernel.Reachable s) : s.time < 2 ^ 31 := by
  refine (h.invariant (P := fun s => KernelInv s ∧ s.time < 2 ^ 31) ⟨.start, ?_⟩
    fun s act t _ hs hm => ⟨hs.1.step hm, ?_⟩).2
  · obtain ⟨st, -, -, hstart⟩ := disastrOSStart_eq
    simp [kernel, hstart, emptyKernel]
  · rw [step_time hs.1 hm]
    split_ifs
    · exact toInt_lt _
    · exact hs.2

theorem tickKernel_step {c' : ℕ} (hm : (tickKernel s).step (u, c) act = .ok (t, c')) :
    step u act = .ok t ∧ c' = if act = .tick then c + 1 else c :=
  System.withRecord_step.mp hm

/-- The process `p` has a timer for the time `v`. -/
def HasTimer (s : Kernel) (p : ℕ) (v : ℤ) : Prop :=
  ∃ i ∈ s.timers.list.items, sleeper s i = p ∧ awakeningTime s i = v

theorem HasTimer.waiting {v : ℤ} (h : HasTimer s p v) (hk : KernelInv s) :
    p ∈ (s.procs .waiting).items := by
  obtain ⟨i, hi, rfl, -⟩ := h
  exact (hk.wake.sleeping i hi).1

theorem HasTimer.congr {v : ℤ} (h : HasTimer s p v) (ht : t.timers = s.timers) :
    HasTimer t p v := by
  simp only [HasTimer, sleeper, awakeningTime, ht]
  exact h

theorem HasTimer.step {v : ℤ} (h : HasTimer s p v) (hk : KernelInv s) (hs : step s act = .ok t)
    (hv : t.time < v) : HasTimer t p v := by
  obtain ⟨i, hi, hp, hv'⟩ := h
  rcases step_timer hk hs hi with ⟨hdue, -⟩ | ⟨hi', hcell⟩
  · omega
  · exact ⟨i, hi', by rw [sleeper, hcell]; exact hp, by rw [awakeningTime, hcell]; exact hv'⟩

theorem timerListAdd_hasTimer {timers : TimerTable} {v : ℤ}
    (ha : timerListAdd s.timers v p = .ok (some timers)) : HasTimer (s.setTimers timers) p v := by
  rcases timerListAdd_ok ha with ⟨hno, -⟩ | ⟨i, st, l, hst, hi, hl, ho⟩
  · cases hno
  rw [Option.some.inj ho]
  refine ⟨i, (listInsert_ok hl).2.1.mem_iff.mpr List.mem_cons_self, ?_, ?_⟩
  · simp [sleeper, hst.cell]
  · simp [awakeningTime, hst.cell]

/-- What a successful sleep leaves behind. -/
theorem sleep_hasTimer (hk : KernelInv s) (hn0 : 0 ≤ n) (hn : n < 2 ^ 31)
    (hp : s.running = some p) (hs : step s (.syscall dsosCallSleep [n]) = .ok t)
    (hw : p ∈ (t.procs .waiting).items) :
    HasTimer t p (toInt (s.time + n)) ∧ t.time = s.time ∧
      t.running = (s.procs .ready).items.head? ∧ t.pcbs.pool = s.pcbs.pool := by
  have hke : KernelInv (enterSyscall s p dsosCallSleep [n]) := hk.enter hp
  have hrun := (@step_handler s p .sleep [n] hp).symm.trans hs
  have hwake : wakeTime (enterSyscall s p dsosCallSleep [n]) p = toInt (s.time + n) := by
    have harg : ((enterSyscall s p dsosCallSleep [n]).pcb p).syscallArgs 0 = n :=
      enterSyscall_arg (by decide)
    rw [wakeTime, harg, toInt_of_mem (by omega) hn]
    rfl
  have hmove : HandlerMove (enterSyscall s p dsosCallSleep [n]) t p .sleep :=
    runHandler_move hke hp hrun
  cases hmove with
  | same same =>
    rw [same.procs] at hw
    exact absurd hw (hke.not_waiting hp)
  | sleep timers q rest _ added ready result =>
    rw [hwake] at added
    have hready : (s.procs .ready).items = q :: rest := ready
    subst result
    exact ⟨(timerListAdd_hasTimer added).congr rfl, rfl, by rw [hready]; rfl, rfl⟩
  | idle timers _ added ready result =>
    rw [hwake] at added
    have hready : (s.procs .ready).items = [] := ready
    subst result
    exact ⟨(timerListAdd_hasTimer added).congr rfl, rfl, by rw [hready]; rfl, rfl⟩

/-- Without an overflow the timer outlasts the ticks. -/
theorem sleepsFor_of_lt (hk : KernelInv t) (h0 : 0 ≤ t.time) (hlt : t.time + n < 2 ^ 31)
    (ht : HasTimer t p (t.time + n)) : SleepsFor t p n := by
  intro u c hr hc
  have hinv := hr.invariant
    (P := fun y => KernelInv y.1 ∧ (y.2 < n → y.1.time = t.time + y.2 ∧ HasTimer y.1 p (t.time + n)))
    ⟨hk, fun _ => ⟨by simp [tickKernel, System.withRecord, System.startingAt], ht⟩⟩ ?_
  · exact (hinv.2 hc).2.waiting hinv.1
  · rintro ⟨v, c⟩ act ⟨w, c'⟩ - ⟨hkv, hv⟩ hm
    obtain ⟨hs, hc'⟩ := tickKernel_step hm
    refine ⟨KernelInv.step hkv hs, fun (hlt' : (c' : ℤ) < n) => ?_⟩
    have hle : (c : ℤ) ≤ c' := by
      rw [hc']
      split_ifs <;> omega
    obtain ⟨htime, htimer⟩ := hv (hle.trans_lt hlt')
    have hw : w.time = t.time + c' := by
      have htime : v.time = t.time + c := htime
      rw [step_time hkv hs, hc']
      split_ifs with hact
      · rw [hc', if_pos hact] at hlt'
        push_cast at hlt' ⊢
        rw [toInt_of_mem (by omega) (by omega), htime]
        omega
      · exact htime
    exact ⟨hw, htimer.step hkv hs (hw ▸ by omega)⟩

/-- Nothing happens any more when no process runs and none can be made. -/
theorem sleepsFor_of_idle (hr : t.running = none) (hf : t.pcbs.pool.free = [])
    (hw : p ∈ (t.procs .waiting).items) : SleepsFor t p n := by
  intro u c hu _
  have hinv : u = t := by
    refine hu.invariant (P := fun y => y.1 = t) rfl ?_
    rintro ⟨v, c⟩ act ⟨w, c'⟩ - rfl hm
    rcases step_ok (tickKernel_step hm).1 with ⟨r, _, _, hrun, -⟩ | ⟨r, hrun, -⟩ | ⟨-, hret⟩
    · rw [show v.running = none from hr] at hrun
      cases hrun
    · rw [show v.running = none from hr] at hrun
      cases hrun
    · cases hret with
      | resumed running _ => exact absurd hr running
      | restarted b _ started =>
        obtain ⟨l, hl⟩ := started.free
        rw [show v.pcbs.pool.free = [] from hf] at hl
        cases hl
  exact hinv ▸ hw

/-- A preempt wakes a process whose timer is already due. -/
theorem not_sleepsFor {q : ℕ} {v : ℤ} (h : kernel.Reachable u)
    (hu : (tickKernel t).Reachable (u, 0)) (hq : u.running = some q) (ht : HasTimer u p v)
    (hv : v ≤ u.time) (hn : 0 < n) : ¬ SleepsFor t p n := by
  intro hs
  have hk : KernelInv u := .reachable h
  have hke : KernelInv (enterSyscall u q dsosCallPreempt []) := hk.enter hq
  obtain ⟨i, hi, rfl, hdue⟩ := ht
  obtain ⟨w, hw⟩ := internalSchedule_isOk hke hq
  have hstep : step u (.syscall dsosCallPreempt []) = .ok w :=
    (@step_handler u q .preempt [] hq).trans hw
  have hsort : TimersSorted (enterSyscall u q dsosCallPreempt []) :=
    (TimersSorted.reachable h).congr rfl
  have hwoken : Woken w (sleeper (enterSyscall u q dsosCallPreempt []) i) :=
    internalSchedule_wakes hke hsort hw hi (hdue.trans_le hv)
  have hnext : (tickKernel t).step (u, 0) (.syscall dsosCallPreempt []) = .ok (w, 0) :=
    System.withRecord_step.mpr ⟨hstep, rfl⟩
  exact hwoken.notWaiting (hs w 0 (hu.next hnext) hn)

/-- If nobody runs, another first process can be made, whose preempt wakes the sleeper. -/
theorem not_sleepsFor_idle {v : ℤ} (h : kernel.Reachable t) (hr : t.running = none)
    (hf : t.pcbs.pool.free ≠ []) (ht : HasTimer t p v) (hv : v ≤ t.time) (hn : 0 < n) :
    ¬ SleepsFor t p n := by
  obtain ⟨u, hu⟩ := startFirst_isOk hf
  obtain ⟨b, hb⟩ := startFirst_ok hu
  have hstep : kernel.step t .returnToProcess = .ok u := by
    simp only [kernel, step, DisastrOS.returnToProcess, hr, hu]
  have hnext : (tickKernel t).step (t, 0) .returnToProcess = .ok (u, 0) :=
    System.withRecord_step.mpr ⟨hstep, rfl⟩
  exact not_sleepsFor (h.next hstep) (System.Reachable.next System.Reachable.start hnext)
    hb.running (ht.congr hb.timers) (hb.time ▸ hv) hn

/-- A process that has gone to sleep for `n` ticks sleeps so long exactly if the time at which it
is due is an `int`, or nobody is left to run and no other first process can be made. -/
theorem sleepsFor_iff (h : kernel.Reachable s) (h0 : 0 ≤ s.time) (hn0 : 0 ≤ n) (hn : n < 2 ^ 31)
    (hp : s.running = some p) (hs : kernel.step s (.syscall dsosCallSleep [n]) = .ok t)
    (hw : p ∈ (t.procs .waiting).items) :
    SleepsFor t p n ↔
      s.time + n < 2 ^ 31 ∨ (s.procs .ready).items = [] ∧ s.pcbs.pool.free = [] := by
  have hk : KernelInv s := .reachable h
  have ht : kernel.Reachable t := h.next hs
  obtain ⟨htimer, htime, hrun, hpool⟩ := sleep_hasTimer hk hn0 hn hp hs hw
  constructor
  · intro hsf
    by_contra hno
    simp only [not_or, not_lt, not_and] at hno
    obtain ⟨hle, hidle⟩ := hno
    have hlt := time_lt h
    have hdue : toInt (s.time + n) ≤ t.time := by
      rw [htime, toInt, Int.bmod_def]
      omega
    cases hready : (s.procs .ready).items with
    | nil =>
      rw [hready] at hrun
      have hfree : t.pcbs.pool.free ≠ [] := hpool ▸ hidle hready
      exact not_sleepsFor_idle ht hrun hfree htimer hdue (by omega) hsf
    | cons q rest =>
      rw [hready] at hrun
      exact not_sleepsFor ht .start hrun htimer hdue (by omega) hsf
  · rintro (hlt | ⟨hready, hfree⟩)
    · rw [toInt_of_mem (by omega) hlt, ← htime] at htimer
      exact sleepsFor_of_lt (.reachable ht) (htime ▸ h0) (htime ▸ hlt) htimer
    · rw [hready] at hrun
      exact sleepsFor_of_idle hrun (hpool ▸ hfree) hw

theorem sleepsFor_five :
    let s := kernel.replay [.syscall dsosCallSpawn [0, 0], .tick]
    let t := kernel.replay [.syscall dsosCallSpawn [0, 0], .tick, .syscall dsosCallSleep [5]]
    s.running = some 1 ∧ t.running = some 0 ∧ SleepsFor t 1 5 := by
  have hs : kernel.failure (kernel.replay [.syscall dsosCallSpawn [0, 0], .tick])
      (.syscall dsosCallSleep [5]) = none := by decide +kernel
  exact ⟨by decide +kernel, by decide +kernel, (sleepsFor_iff (System.reachable_replay _)
    (by decide +kernel) (by decide) (by decide) (by decide +kernel) (System.step_replayFrom hs)
    (by decide +kernel)).mpr (by decide +kernel)⟩

/-- The time at which a process is due overflows, and the next preempt wakes it. If it has slept
alone, the preempt is that of another first process. -/
theorem sleep_overflows :
    (∃ s t, kernel.Reachable s ∧ s.time = 1 ∧ s.running = some 1 ∧
      kernel.step s (.syscall dsosCallSleep [2 ^ 31 - 1]) = .ok t ∧
      (t.procs .waiting).items = [1] ∧ ¬ SleepsFor t 1 (2 ^ 31 - 1)) ∧
    ∃ s t, kernel.Reachable s ∧ s.time = 1 ∧ s.running = some 0 ∧
      kernel.step s (.syscall dsosCallSleep [2 ^ 31 - 1]) = .ok t ∧
      (t.procs .waiting).items = [0] ∧ ¬ SleepsFor t 0 (2 ^ 31 - 1) := by
  constructor
  · have hs : kernel.failure (kernel.replay [.syscall dsosCallSpawn [0, 0], .tick])
        (.syscall dsosCallSleep [2 ^ 31 - 1]) = none := by decide +kernel
    refine ⟨_, _, System.reachable_replay _, by decide +kernel, by decide +kernel,
      System.step_replayFrom hs, by decide +kernel, fun hsf => ?_⟩
    have hu := System.reachable_replay (M := tickKernel (kernel.replay
      [.syscall dsosCallSpawn [0, 0], .tick, .syscall dsosCallSleep [2 ^ 31 - 1]]))
      [.syscall dsosCallPreempt []]
    exact absurd (hsf _ _ hu (by decide +kernel)) (by decide +kernel)
  · have hs : kernel.failure (kernel.replay [.tick])
        (.syscall dsosCallSleep [2 ^ 31 - 1]) = none := by decide +kernel
    refine ⟨_, _, System.reachable_replay _, by decide +kernel, by decide +kernel,
      System.step_replayFrom hs, by decide +kernel, fun hsf => ?_⟩
    have hu := System.reachable_replay (M := tickKernel (kernel.replay
      [.tick, .syscall dsosCallSleep [2 ^ 31 - 1]])) [.returnToProcess, .syscall dsosCallPreempt []]
    exact absurd (hsf _ _ hu (by decide +kernel)) (by decide +kernel)

end DisastrOS
