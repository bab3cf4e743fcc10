import DisastrOS.Runs
import DisastrOS.TimerRoom
import DisastrOS.SleepDuration

/-! A ready process does not starve, and a process that sleeps runs again in time, whatever the
other processes do. -/
namespace DisastrOS
open BlockPool TransitionSystem

/-- The processes that can come to run before the ready process `p`: those that are ready before
it, and those that sleep, which the scheduler puts before the ready ones. -/
def rank (s : Kernel) (p : ℕ) : ℕ :=
  (s.procs .ready).items.idxOf p + s.timers.list.items.length

/-- The actions that call the scheduler. -/
def callsScheduler : Action → Bool
  | .syscall n _ => decide (n = dsosCallPreempt)
  | .tick => true
  | .returnToProcess => false

/-- What a step that does not call the scheduler does to the ready list and the timers. -/
inductive ReadyMove (s t : Kernel) : Prop
  | joins (new : List ℕ) (ready : (t.procs .ready).items = (s.procs .ready).items ++ new)
      (timers : t.timers.list.items.length = s.timers.list.items.length)
  | leaves (q : ℕ) (ready : (s.procs .ready).items = q :: (t.procs .ready).items)
      (running : t.running = some q)
      (timers : t.timers.list.items.length ≤ s.timers.list.items.length + 1)
  | idle (ready : (s.procs .ready).items = [])

variable {s t u : Kernel} {p q i : ℕ} {act : Action} {acts : List Action}

theorem timerListAdd_length {tb timers : TimerTable} {time : ℤ}
    (ha : timerListAdd tb time p = .ok (some timers)) :
    timers.list.items.length = tb.list.items.length + 1 := by
  rcases timerListAdd_ok ha with ⟨hn, -⟩ | ⟨i, st, l, -, -, hl, ho⟩
  · cases hn
  · obtain rfl := Option.some.inj ho
    exact (listInsert_ok hl).2.1.length_eq

theorem HandlerMove.ready {hd : Handler} (hm : HandlerMove s t p hd) :
    internalSchedule s = .ok t ∧ hd = .preempt ∨ ReadyMove s t := by
  cases hm with
  | preempt scheduled => exact Or.inl ⟨scheduled, rfl⟩
  | same same =>
    refine Or.inr (.joins [] ?_ ?_)
    · rw [same.procs, List.append_nil]
    · rw [same.timers]
  | fork b q created | spawn b q created =>
    refine Or.inr (.joins [b] ?_ ?_)
    · rw [created.procs, if_pos rfl]
    · rw [created.timers]
  | sleep timers q rest noTimer added ready result =>
    subst result
    refine Or.inr (.leaves q ?_ rfl ?_)
    · simpa [dispatched, suspended] using ready
    · exact (timerListAdd_length added).le
  | idle timers noTimer added ready result => exact Or.inr (.idle ready)
  | collect q asked zombie result =>
    subst result
    exact Or.inr (.joins [] (by simp [reaped]) (by simp [reaped]))
  | wait q rest c asked alive ready result =>
    subst result
    refine Or.inr (.leaves q ?_ rfl ?_)
    · simpa [dispatched, suspended] using ready
    · simp [dispatched, suspended]
  | exitNext a i q sig rest parent init differ noWaiter ready result =>
    subst result
    refine Or.inr (.leaves q ?_ rfl ?_)
    · simpa [resumed, zombified] using ready
    · simp [resumed, zombified]
  | exitParent a i q sig l r parent init differ waits waiting result =>
    subst result
    refine Or.inr (.joins [] ?_ ?_)
    · simp [reclaimed, handedToParent, zombified]
    · simp [reclaimed, handedToParent, zombified]
  | semWait d x w q rest found semaphore waitPtr count ready result =>
    subst result
    refine Or.inr (.leaves q ?_ rfl ?_)
    · simpa [dispatched, suspended, semSet] using ready
    · simp [dispatched, suspended, semSet]
  | semPost d x w b rest found semaphore count queued process waiting result =>
    subst result
    exact Or.inr (.joins [b] (by simp [semWoken, semSet]) (by simp [semWoken, semSet]))

theorem ReadyMove.rank (hm : ReadyMove s t) (hp : p ∈ (s.procs .ready).items) :
    t.running = some p ∨ p ∈ (t.procs .ready).items ∧ rank t p ≤ rank s p := by
  unfold DisastrOS.rank
  cases hm with
  | joins new ready timers =>
    rw [ready, List.idxOf_append_of_mem hp, timers]
    exact Or.inr ⟨List.mem_append_left _ hp, le_rfl⟩
  | leaves q ready running timers =>
    rw [ready] at hp ⊢
    by_cases hq : q = p
    · exact Or.inl (hq ▸ running)
    · rw [List.idxOf_cons_ne _ hq]
      refine Or.inr ⟨(List.mem_cons.mp hp).resolve_left (Ne.symm hq), ?_⟩
      omega
  | idle ready =>
    rw [ready] at hp
    cases hp

/-- The processes that a call of the scheduler wakes come before `p`, but no longer sleep, and
one of them or of those before `p` runs. -/
theorem internalSchedule_rank (h : KernelInv s) (hs : internalSchedule s = .ok t)
    (hp : p ∈ (s.procs .ready).items) :
    t.running = some p ∨ p ∈ (t.procs .ready).items ∧ rank t p + 1 ≤ rank s p := by
  obtain ⟨u, hel, hcase⟩ := internalSchedule_elapsed h hs
  have hready : (u.procs .ready).items = (elapsed s).map (sleeper s) ++ (s.procs .ready).items := by
    rw [hel.ready]
    rfl
  have hnot : p ∉ (elapsed s).map (sleeper s) := fun hm => by
    obtain ⟨i, hi, rfl⟩ := List.mem_map.mp hm
    have hmem : i ∈ s.timers.list.items := hel.timers ▸ List.mem_append_left _ hi
    have := h.proc.disjoint hp (h.wake.sleeping i hmem).1
    cases this
  have htimers : s.timers.list.items.length = (elapsed s).length + u.timers.list.items.length := by
    rw [hel.timers, List.length_append]
  have hidx : (u.procs .ready).items.idxOf p =
      (elapsed s).length + (s.procs .ready).items.idxOf p := by
    rw [hready, List.idxOf_append_of_notMem hnot, List.length_map]
  rcases hcase with ⟨hr, -⟩ | ⟨p', q, rest, -, hr, rfl⟩
  · rw [hready] at hr
    rw [(List.append_eq_nil_iff.mp hr).2] at hp
    cases hp
  · have hmem : p ∈ (u.procs .ready).items := hready ▸ List.mem_append_right _ hp
    rw [hr] at hidx hmem
    by_cases hq : q = p
    · exact Or.inl (hq ▸ rfl)
    · have hrest : p ∈ rest := (List.mem_cons.mp hmem).resolve_left (Ne.symm hq)
      rw [List.idxOf_cons_ne _ hq] at hidx
      have hreadyT : ((rotated u p' q rest).procs .ready).items = rest ++ [p'] := by
        simp [rotated]
      have htimersT : (rotated u p' q rest).timers = u.timers := rfl
      rw [rank, rank, hreadyT, htimersT, List.idxOf_append_of_mem hrest]
      refine Or.inr ⟨List.mem_append_left _ hrest, ?_⟩
      omega

theorem Handler.number_inj {g h : Handler} (he : g.number = h.number) : g = h := by
  have hg := syscallVector_number g
  rw [he, syscallVector_number] at hg
  exact (Option.some.inj hg).symm

/-- No step puts more processes before a ready one, and a call of the scheduler takes one
away. -/
theorem step_rank (h : KernelInv s) (hs : step s act = .ok t) (hp : p ∈ (s.procs .ready).items) :
    t.running = some p ∨ p ∈ (t.procs .ready).items ∧
      rank t p + (if callsScheduler act then 1 else 0) ≤ rank s p := by
  rcases step_ok hs with ⟨r, n, args, hr, rfl, hret⟩ | ⟨r, hr, rfl, ht⟩ | ⟨rfl, hret⟩
  · cases hret with
    | outOfRange range same =>
      subst same
      have hn : n ≠ dsosCallPreempt := by
        rintro rfl
        exact absurd range (by decide)
      exact Or.inr ⟨hp, by simp [callsScheduler, hn]⟩
    | notImplemented none result =>
      subst result
      have hn : n ≠ dsosCallPreempt := by
        rintro rfl
        exact absurd none (by decide)
      exact Or.inr ⟨hp, by simp [callsScheduler, hn, rank, enterSyscall]⟩
    | handled hd number run =>
      have hke : KernelInv (enterSyscall s r n args) := h.enter hr
      have hsame : rank (enterSyscall s r n args) p = rank s p := rfl
      rw [← hsame]
      by_cases hpre : hd = .preempt
      · subst hpre number
        exact internalSchedule_rank hke run hp
      · have hn : n ≠ dsosCallPreempt := fun he =>
          hpre (Handler.number_inj (number.symm.trans he))
        have hm := (runHandler_move hke hr run).ready.resolve_left fun hsch => hpre hsch.2
        rw [callsScheduler, decide_eq_false hn]
        exact hm.rank hp
  · have hsame : rank (ticked s r) p = rank s p := rfl
    rw [← hsame]
    exact internalSchedule_rank h.ticked ht hp
  · have hready : t.procs .ready = s.procs .ready := by
      cases hret with
      | resumed _ same => rw [same]
      | restarted b _ started => exact started.procs .ready
    have hsame : rank t p = rank s p := by rw [rank, rank, hready, hret.timers]
    exact Or.inr ⟨hready ▸ hp, by simp [callsScheduler, hsame]⟩

/-- While `p` is ready, it comes to run before the scheduler has been called as often as there are
processes that can run before it, and once more. -/
theorem no_starvation (h : kernel.Reachable s) (hp : p ∈ (s.procs .ready).items)
    (hrun : kernel.runFrom s acts = .ok u) (hlong : rank s p < acts.countP callsScheduler) :
    kernel.Passes s acts fun t => t.running = some p := by
  refine System.passes_of_count (P := fun t => KernelInv t ∧ p ∈ (t.procs .ready).items)
    (μ := fun t => rank t p) (fun t act v ⟨hk, hmem⟩ hs => ?_) hrun ⟨.reachable h, hp⟩ hlong
  exact (step_rank hk hs hmem).imp id fun ⟨hmem', hle⟩ => ⟨⟨hk.step hs, hmem'⟩, hle⟩

/-- The last of three processes is overtaken by one that wakes, and runs after that. -/
theorem no_starvation_overtaken :
    let s := kernel.replay [.syscall dsosCallSpawn [0, 0], .syscall dsosCallSpawn [0, 0],
      .syscall dsosCallPreempt [], .syscall dsosCallSleep [1]]
    (s.procs .ready).items = [0] ∧ rank s 0 = 1 ∧
      kernel.Passes s [.tick, .tick] fun t => t.running = some 0 := by
  exact ⟨by decide +kernel, by decide +kernel, no_starvation (System.reachable_replay _)
    (by decide +kernel) (System.runFrom_replayFrom (by decide +kernel)) (by decide +kernel)⟩

/-! ### Sleep -/

/-- The processes that can come before a ready one are fewer than there can be processes. -/
theorem rank_lt (h : kernel.Reachable s) (hp : p ∈ (s.procs .ready).items) :
    rank s p < maxNumProcesses := by
  have hk := KernelInv.reachable h
  have hnd : ((s.procs .ready).items ++ (s.procs .waiting).items).Nodup :=
    List.nodup_append.mpr ⟨hk.proc.nodup .ready, hk.proc.nodup .waiting, fun b hb c hc he => by
      have := hk.proc.disjoint hb (he ▸ hc)
      cases this⟩
  have hsub : ((s.procs .ready).items ++ (s.procs .waiting).items).toFinset ⊆
      Finset.range maxNumProcesses := by
    intro b hb
    rw [Finset.mem_range]
    rcases List.mem_append.mp (List.mem_toFinset.mp hb) with hb | hb
    · exact inUse_lt h (hk.proc.inUse_of_mem hb)
    · exact inUse_lt h (hk.proc.inUse_of_mem hb)
  have hcard := Finset.card_le_card hsub
  rw [List.toFinset_card_of_nodup hnd, Finset.card_range, List.length_append] at hcard
  have hidx := List.idxOf_lt_length_of_mem hp
  have htimers := hk.wake.timers_le_waiting
  unfold rank
  omega

theorem le_time (h : kernel.Reachable s) : -(2 ^ 31) ≤ s.time := by
  refine (h.invariant (P := fun s => KernelInv s ∧ -(2 ^ 31) ≤ s.time) ⟨.start, ?_⟩
    fun s act t _ hs hm => ⟨hs.1.step hm, ?_⟩).2
  · obtain ⟨st, -, -, hstart⟩ := disastrOSStart_eq
    simp [kernel, hstart, emptyKernel]
  · rw [step_time hs.1 hm]
    split_ifs
    · have := Int.le_bmod (x := s.time + 1) (m := 2 ^ 32) (by decide)
      unfold toInt
      omega
    · exact hs.2

/-- A timer that is there after a step was there before, unless its time has just been stored into
an `int`. -/
theorem step_awakeningTime (h : KernelInv s) (hs : kernel.step s act = .ok t)
    (hi : i ∈ t.timers.list.items) : awakeningTime t i < 2 ^ 31 ∨
      i ∈ s.timers.list.items ∧ awakeningTime t i = awakeningTime s i := by
  have hsch : ∀ v w, KernelInv v → v.timers = s.timers → internalSchedule v = .ok w →
      i ∈ w.timers.list.items → i ∈ s.timers.list.items ∧ awakeningTime w i = awakeningTime s i := by
    intro v w hv htimers hw hi
    have hsub : w.timers.item.cell = v.timers.item.cell ∧
        w.timers.list.items ⊆ v.timers.list.items := by
      obtain ⟨x, hel, ⟨-, rfl⟩ | ⟨p, q, rest, -, -, rfl⟩⟩ := internalSchedule_elapsed hv hw
      · exact ⟨hel.cell, hel.timers ▸ List.subset_append_right _ _⟩
      · exact ⟨hel.cell, hel.timers ▸ List.subset_append_right _ _⟩
    rw [htimers] at hsub
    exact ⟨hsub.2 hi, by rw [awakeningTime, hsub.1, awakeningTime]⟩
  rcases step_ok hs with ⟨p, n, args, hp, -, hr⟩ | ⟨p, hp, -, ht⟩ | ⟨-, hr⟩
  · cases hr with
    | outOfRange _ same =>
      subst same
      exact Or.inr ⟨hi, rfl⟩
    | notImplemented _ result =>
      subst result
      exact Or.inr ⟨hi, rfl⟩
    | handled hd _ run =>
      have hke : KernelInv (enterSyscall s p n args) := h.enter hp
      rcases (runHandler_move hke hp run).timers with ht | ⟨-, ha⟩ | ht
      · rw [ht] at hi
        exact Or.inr ⟨hi, by rw [awakeningTime, ht]; rfl⟩
      · rcases timerListAdd_ok ha with ⟨hn, -⟩ | ⟨j, st, l, hst, -, hl, ho⟩
        · cases hn
        rw [Option.some.inj ho] at hi
        rw [awakeningTime, Option.some.inj ho, hst.cell]
        split_ifs with hij
        · exact Or.inl (toInt_lt _)
        · exact Or.inr ⟨(List.mem_cons.mp ((listInsert_ok hl).2.1.subset hi)).resolve_left hij, rfl⟩
      · exact Or.inr (hsch _ _ hke rfl ht hi)
  · exact Or.inr (hsch _ _ h.ticked rfl ht hi)
  · rw [hr.timers] at hi
    exact Or.inr ⟨hi, by rw [awakeningTime, hr.timers, awakeningTime]⟩

/-- The time of every timer is an `int`. -/
theorem HasTimer.lt {v : ℤ} (h : kernel.Reachable s) (ht : HasTimer s p v) : v < 2 ^ 31 := by
  obtain ⟨i, hi, -, rfl⟩ := ht
  refine h.invariant (P := fun s => ∀ i ∈ s.timers.list.items, awakeningTime s i < 2 ^ 31) ?_
    (fun s act t hr hlt hs i hi => ?_) i hi
  · obtain ⟨st, -, -, hstart⟩ := disastrOSStart_eq
    simp [kernel, hstart, emptyKernel]
  · rcases step_awakeningTime (.reachable hr) hs hi with hnew | ⟨hold, he⟩
    · exact hnew
    · exact he ▸ hlt i hold

/-- A step leaves the timer of `p` where it is or wakes `p`, and a tick brings the time nearer. -/
theorem HasTimer.nearer {v : ℤ} (h : kernel.Reachable s) (ht : HasTimer s p v)
    (htime : s.time + 1 < 2 ^ 31) (hs : kernel.step s act = .ok t) :
    Woken t p ∨ (HasTimer t p v ∧ t.time + 1 < 2 ^ 31) ∧
      (v - t.time - 1).toNat + (if act = .tick then 1 else 0) ≤ (v - s.time - 1).toNat := by
  have hk := KernelInv.reachable h
  have hv := ht.lt h
  have hlow := le_time h
  obtain ⟨i, hi, rfl, rfl⟩ := ht
  have hnext := step_time hk hs
  rcases step_timer hk hs hi with ⟨-, hw⟩ | ⟨hi', hcell⟩
  · exact Or.inl hw
  have ht : HasTimer t (sleeper s i) (awakeningTime s i) :=
    ⟨i, hi', by rw [sleeper, hcell]; rfl, by rw [awakeningTime, hcell]; rfl⟩
  by_cases hact : act = .tick
  · subst hact
    rw [if_pos rfl, toInt_of_mem (by omega) htime] at hnext
    by_cases hdue : awakeningTime s i ≤ t.time
    · exact Or.inl (tick_timer hk (.reachable h) hs hi hdue)
    · refine Or.inr ⟨⟨ht, by omega⟩, ?_⟩
      rw [if_pos rfl]
      omega
  · rw [if_neg hact] at hnext ⊢
    exact Or.inr ⟨⟨ht, by omega⟩, by rw [hnext, Nat.add_zero]⟩

/-- The ticks after which `p`, which is ready or has a timer for `v`, comes to run at the latest. -/
def latest (s : Kernel) (p : ℕ) (v : ℤ) : ℕ :=
  if p ∈ (s.procs .ready).items then rank s p else (v - s.time - 1).toNat + maxNumProcesses

theorem HasTimer.notReady {v : ℤ} (ht : HasTimer s p v) (hk : KernelInv s) :
    p ∉ (s.procs .ready).items := fun hr => by
  have := hk.proc.disjoint hr (ht.waiting hk)
  cases this

theorem step_latest {v : ℤ} (h : kernel.Reachable s)
    (hp : p ∈ (s.procs .ready).items ∨ HasTimer s p v ∧ s.time + 1 < 2 ^ 31)
    (hs : kernel.step s act = .ok t) : t.running = some p ∨
      (p ∈ (t.procs .ready).items ∨ HasTimer t p v ∧ t.time + 1 < 2 ^ 31) ∧
        latest t p v + (if act = .tick then 1 else 0) ≤ latest s p v := by
  have hk := KernelInv.reachable h
  have hkt : KernelInv t := hk.step hs
  rcases hp with hready | ⟨ht, htime⟩
  · rcases step_rank hk hs hready with hrun | ⟨hready', hle⟩
    · exact Or.inl hrun
    · have htick : (if act = .tick then 1 else 0) ≤ if callsScheduler act then 1 else 0 := by
        cases act <;> simp [callsScheduler]
      rw [latest, latest, if_pos hready, if_pos hready']
      exact Or.inr ⟨Or.inl hready', by omega⟩
  · rcases ht.nearer h htime hs with hw | ⟨⟨ht', htime'⟩, hle⟩
    · rcases hw.placed with hready' | hrun
      · have hlt := rank_lt (h.next hs) hready'
        rw [latest, latest, if_pos hready', if_neg (ht.notReady hk)]
        refine Or.inr ⟨Or.inl hready', ?_⟩
        split_ifs <;> omega
      · exact Or.inl hrun
    · rw [latest, latest, if_neg (ht.notReady hk), if_neg (ht'.notReady hkt)]
      exact Or.inr ⟨Or.inr ⟨ht', htime'⟩, by omega⟩

/-- A process that has a timer comes to run again: the timer wakes it when its time comes, and
then no more ticks pass than there can be processes. -/
theorem sleeper_runs {v : ℤ} (h : kernel.Reachable s) (ht : HasTimer s p v)
    (htime : s.time + 1 < 2 ^ 31) (hrun : kernel.runFrom s acts = .ok u)
    (hlong : (v - s.time - 1).toNat + maxNumProcesses < acts.count .tick) :
    kernel.Passes s acts fun t => t.running = some p := by
  refine System.passes_of_count (P := fun t => kernel.Reachable t ∧
      (p ∈ (t.procs .ready).items ∨ HasTimer t p v ∧ t.time + 1 < 2 ^ 31))
    (μ := fun t => latest t p v) (Q := (· == .tick)) (fun t act w ⟨hr, hp⟩ hs => ?_) hrun
    ⟨h, Or.inr ⟨ht, htime⟩⟩ ?_
  · refine (step_latest hr hp hs).imp id fun ⟨hp', hle⟩ => ⟨⟨hr.next hs, hp'⟩, ?_⟩
    simpa using hle
  · rw [latest, if_neg (ht.notReady (.reachable h))]
    exact hlong

/-- A process that goes to sleep for `n` ticks runs again before `n` ticks, one for each process
that there can be and one more have passed, whatever the other processes do. -/
theorem sleep_ends {n : ℤ} (h : kernel.Reachable s) (h0 : 0 ≤ s.time) (htime : s.time + 1 < 2 ^ 31)
    (hn0 : 0 ≤ n) (hn : n < 2 ^ 31) (hp : s.running = some p)
    (hs : kernel.step s (.syscall dsosCallSleep [n]) = .ok t)
    (hrun : kernel.runFrom t acts = .ok u) (hlong : n + maxNumProcesses < acts.count .tick) :
    kernel.Passes t acts fun t => t.running = some p := by
  have hk := KernelInv.reachable h
  by_cases hw : p ∈ (t.procs .waiting).items
  · obtain ⟨ht, hsame, -⟩ := sleep_hasTimer hk hn0 hn hp hs hw
    refine sleeper_runs (h.next hs) ht (hsame ▸ htime) hrun ?_
    have hle : toInt (s.time + n) ≤ s.time + n := by
      rw [toInt, Int.bmod_def]
      omega
    omega
  · have hmove : HandlerMove (enterSyscall s p dsosCallSleep [n]) t p .sleep :=
      runHandler_move (hk.enter hp) hp ((@step_handler s p .sleep [n] hp).symm.trans hs)
    refine .now ?_
    cases hmove with
    | same same => exact same.running.trans hp
    | sleep timers q rest noTimer added ready result | idle timers noTimer added ready result =>
      exact absurd (by simp [result, dispatched, suspended]) hw

/-- Ticks do not come to an end while a process runs. -/
theorem ticks_isOk (h : kernel.Reachable s) (hp : s.running = some p) (n : ℕ) :
    ∃ u, kernel.runFrom s (List.replicate n .tick) = .ok u := by
  induction n generalizing s p with
  | zero => exact ⟨s, rfl⟩
  | succ n ih =>
    have hk := KernelInv.reachable h
    obtain ⟨t, ht⟩ : ∃ t, kernel.step s .tick = .ok t := timerInterrupt_isOk hk hp
    obtain ⟨q, hq⟩ : ∃ q, t.running = some q := by
      obtain ⟨r, hr, hs⟩ := timerInterrupt_ok ht
      obtain ⟨v, hel, ⟨-, rfl⟩ | ⟨_, q, rest, -, -, rfl⟩⟩ := internalSchedule_elapsed hk.ticked hs
      · exact ⟨r, hel.running.trans hr⟩
      · exact ⟨q, rfl⟩
    obtain ⟨u, hu⟩ := ih (h.next ht) hq
    exact ⟨u, System.runFrom_cons.mpr ⟨t, ht, hu⟩⟩

theorem sleep_ends_five : ∃ s t, s.running = some 1 ∧
    kernel.step s (.syscall dsosCallSleep [5]) = .ok t ∧
    (t.procs .waiting).items = [1] ∧
    kernel.Passes t (List.replicate 1030 .tick) fun t => t.running = some 1 := by
  have hs : kernel.failure (kernel.replay [.syscall dsosCallSpawn [0, 0], .tick])
      (.syscall dsosCallSleep [5]) = none := by decide +kernel
  have ht : kernel.Reachable (kernel.replay [.syscall dsosCallSpawn [0, 0], .tick,
    .syscall dsosCallSleep [5]]) := System.reachable_replay _
  obtain ⟨u, hu⟩ := ticks_isOk (p := 0) ht (by decide +kernel) 1030
  refine ⟨_, _, by decide +kernel, System.step_replayFrom hs, by decide +kernel, ?_⟩
  exact sleep_ends (System.reachable_replay _) (by decide +kernel) (by decide +kernel) (by decide)
    (by decide) (by decide +kernel) (System.step_replayFrom hs) hu
    (by rw [List.count_replicate_self]; decide)

end DisastrOS
