import DisastrOS.GivingUp
import DisastrOS.OpenDescriptors
import DisastrOS.Timers

/-! The room for timers: each one is the timer of another waiting process, so that a process
which calls sleep always gets one. -/
namespace DisastrOS
open BlockPool TransitionSystem

/-! ### The results of `TimerItem_free` -/

/-- The wake loop of `internal_schedule`, with the results of its calls of `TimerItem_free`. -/
def wakeElapsedFrees : ℕ → Kernel → Option ℕ → Except Fault (Kernel × List Pool.Release)
  | 0, _, _ => .error .endless
  | fuel + 1, s, prev =>
    match timerListCurrent s.timers s.time with
    | none => .ok (s, [])
    | some i => do
      let b := (s.timers.item.cell i).pcb
      let u ← wakeTimer s prev b
      let r ← wakeElapsedFrees fuel u (some b)
      .ok (r.1, (s.timers.item.free i).1 :: r.2)

/-- The sweep of `internal_exit`, with the results of its calls of `TimerItem_free`. -/
def releaseTimersFrees (t : TimerTable) (p : ℕ) :
    List ℕ → Except Fault (TimerTable × List Pool.Release)
  | [] => .ok (t, [])
  | i :: is =>
    if (t.item.cell i).pcb = p then do
      let h ← listDetach t.list i
      let r ← releaseTimersFrees (timerItemFree { t with list := h } i) p is
      .ok (r.1, (t.item.free i).1 :: r.2)
    else releaseTimersFrees t p is

variable {s t : Kernel} {p q b i : ℕ} {act : Action} {args : List ℤ}

theorem map_bind_fst {α β γ ε : Type} (x : Except ε α) (f : α → Except ε (β × γ))
    (g : α → Except ε β) (h : ∀ a, (f a).map Prod.fst = g a) :
    (x >>= f).map Prod.fst = x >>= g := by
  cases x with
  | error e => rfl
  | ok a => exact h a

theorem map_fst_cons {β γ ε : Type} (x : Except ε (β × List γ)) (c : γ) :
    (do let r ← x; .ok (r.1, c :: r.2) : Except ε (β × List γ)).map Prod.fst =
      x.map Prod.fst := by
  cases x <;> rfl

theorem wakeElapsedFrees_fst (fuel : ℕ) (s : Kernel) (prev : Option ℕ) :
    (wakeElapsedFrees fuel s prev).map Prod.fst = wakeElapsed fuel s prev := by
  induction fuel generalizing s prev with
  | zero => rfl
  | succ fuel ih =>
    rw [wakeElapsedFrees, wakeElapsed]
    cases timerListCurrent s.timers s.time with
    | none => rfl
    | some i => exact map_bind_fst _ _ _ fun u => (map_fst_cons _ _).trans (ih u _)

theorem releaseTimersFrees_fst (t : TimerTable) (p : ℕ) (l : List ℕ) :
    (releaseTimersFrees t p l).map Prod.fst = releaseTimers t p l := by
  induction l generalizing t with
  | nil => rfl
  | cons i is ih =>
    rw [releaseTimersFrees, releaseTimers]
    split_ifs
    · exact map_bind_fst _ _ _ fun h => (map_fst_cons _ _).trans (ih _)
    · exact ih t

/-- The loop comes to an end, and all its calls of `TimerItem_free` succeed. -/
def FreesSucceed {α : Type} (loop : Except Fault α)
    (frees : Except Fault (α × List Pool.Release)) : Prop :=
  ∃ a l, loop = .ok a ∧ frees = .ok (a, l) ∧ ∀ x ∈ l, x = .success

theorem FreesSucceed.of_ok {α : Type} {loop : Except Fault α}
    {frees : Except Fault (α × List Pool.Release)} {a : α} {l : List Pool.Release}
    (hloop : frees.map Prod.fst = loop) (hfrees : frees = .ok (a, l))
    (hl : ∀ x ∈ l, x = .success) : FreesSucceed loop frees := by
  refine ⟨a, l, ?_, hfrees, hl⟩
  rw [← hloop, hfrees]
  rfl

theorem wakeElapsedFrees_success {fuel : ℕ} {done ready : List ℕ} (hp : ProcInv s)
    (hw : WakeInv s) (hr : (s.procs .ready).items = done ++ ready)
    (hf : s.timers.list.items.length < fuel) :
    ∃ t l, wakeElapsedFrees fuel s done.getLast? = .ok (t, l) ∧ ∀ x ∈ l, x = .success := by
  induction fuel generalizing s done with
  | zero => omega
  | succ fuel ih =>
    rw [wakeElapsedFrees]
    cases hc : timerListCurrent s.timers s.time with
    | none => exact ⟨s, [], rfl, fun x hx => absurd hx List.not_mem_nil⟩
    | some i =>
      obtain ⟨rest, hi⟩ := timerListCurrent_ok hc
      obtain ⟨u, hu, -, hready, hrest, hpu, hwu⟩ := wakeTimer_elapsed hp hw hr hi
      have hlen : u.timers.list.items.length < fuel := by
        rw [hi, List.length_cons] at hf
        rw [hrest]
        omega
      obtain ⟨v, l, hv, hl⟩ := ih hpu hwu hready hlen
      rw [List.getLast?_append] at hv
      have hfree : (s.timers.item.free i).1 = .success :=
        (Pool.releaseBlock_success ((hw.timerInUse i).mp (by simp [hi]))).1
      refine ⟨v, (s.timers.item.free i).1 :: l, ?_, ?_⟩
      · exact bind_ok.mpr ⟨u, hu, bind_ok.mpr ⟨(v, l), by simpa [sleeper] using hv, rfl⟩⟩
      · intro x hx
        rcases List.mem_cons.mp hx with rfl | hx
        · exact hfree
        · exact hl x hx

/-- The exiting process has no timer. -/
theorem releaseTimersFrees_eq {t : TimerTable} {l : List ℕ}
    (h : ∀ i ∈ l, (t.item.cell i).pcb ≠ p) : releaseTimersFrees t p l = .ok (t, []) := by
  induction l with
  | nil => rfl
  | cons i is ih =>
    rw [releaseTimersFrees, if_neg (h i List.mem_cons_self)]
    exact ih fun j hj => h j (List.mem_cons_of_mem i hj)

/-! ### The invariant -/

/-- No process refers to a timer, and there are as many blocks for timers as for processes. -/
structure TimerInv (s : Kernel) : Prop where
  noTimer : ∀ b, (s.pcb b).timer = none
  size : s.timers.list.size = s.timers.list.items.length
  blocks : s.timers.item.pool.sizeMax = maxNumProcesses

namespace TimerInv

theorem congr (h : TimerInv s) (htimers : t.timers = s.timers)
    (hpcb : ∀ b, (t.pcb b).timer = (s.pcb b).timer) : TimerInv t :=
  ⟨fun b => (hpcb b).trans (h.noTimer b), by rw [htimers]; exact h.size,
    by rw [htimers]; exact h.blocks⟩

theorem wakeTimer {prev : Option ℕ} (h : TimerInv s) (hs : wakeTimer s prev b = .ok t) :
    TimerInv t := by
  obtain ⟨-, -, -, -, ready, i, rest, -, hi, rfl⟩ := wakeTimer_ok hs
  have hsize := h.size
  rw [hi, List.length_cons] at hsize
  refine ⟨fun k => ?_, ?_, ?_⟩
  · simp only [wokenState, Kernel.pcb_setTimers, Kernel.pcb_setProcs, Kernel.pcb_modPcb]
    split_ifs
    · rfl
    · simpa [Kernel.setStatus, *] using h.noTimer k
  · simp only [wokenState, timerItemFree, Kernel.setTimers_timers]
    omega
  · simpa [wokenState, timerItemFree] using h.blocks

theorem internalSchedule (h : TimerInv s) (hs : internalSchedule s = .ok t) : TimerInv t := by
  obtain ⟨u, hu, hcase⟩ := internalSchedule_ok hs
  have hinv : TimerInv u :=
    wakeElapsed_induct (fun _ _ _ _ _ hp hr => hp.wakeTimer hr) hu h
  rcases hcase with ⟨-, rfl⟩ | ⟨p, q, rest, -, -, -, -, -, rfl⟩
  · exact hinv
  · exact hinv.congr rfl fun b => by simp [rotated]

theorem add {timers : TimerTable} {time : ℤ} (h : TimerInv s)
    (ha : timerListAdd s.timers time p = .ok (some timers)) : TimerInv (s.setTimers timers) := by
  rcases timerListAdd_ok ha with ⟨hno, -⟩ | ⟨i, st, l, hst, -, hl, ho⟩
  · cases hno
  obtain ⟨-, hperm, hsize⟩ := listInsert_ok hl
  obtain rfl := Option.some.inj ho
  refine ⟨h.noTimer, ?_, ?_⟩
  · simp only [Kernel.setTimers_timers]
    rw [hsize, hperm.length_eq, h.size, List.length_cons]
    push_cast
    rfl
  · exact hst.sizeMax.trans h.blocks

theorem newProcess (h : TimerInv s) (hc : NewProcess s t b) : TimerInv t := by
  refine ⟨fun k => ?_, hc.timers ▸ h.size, hc.timers ▸ h.blocks⟩
  rw [hc.timer]
  split_ifs
  · rfl
  · exact h.noTimer k

theorem move {hd : Handler} (h : TimerInv s) (hm : HandlerMove s t p hd) : TimerInv t := by
  cases hm with
  | same same => exact h.congr same.timers same.timer
  | fork b q created => exact h.newProcess created.newProcess
  | spawn b q created => exact h.newProcess created.newProcess
  | preempt scheduled => exact h.internalSchedule scheduled
  | sleep timers q rest _ added _ result =>
    subst result
    exact (h.add added).congr rfl fun b => by simp [dispatched, suspended]
  | idle timers _ added _ result =>
    subst result
    exact (h.add added).congr rfl fun b => by simp [suspended]
  | collect _ _ _ result | wait _ _ _ _ _ _ result | exitNext _ _ _ _ _ _ _ _ _ _ result
  | exitParent _ _ _ _ _ _ _ _ _ _ _ result | semWait _ _ _ _ _ _ _ _ _ _ result
  | semPost _ _ _ _ _ _ _ _ _ _ _ result =>
    subst result
    refine h.congr ?_ fun b => ?_
    · simp [reaped, dispatched, suspended, resumed, reclaimed, handedToParent, zombified, semWoken,
        semSet]
    · simp [reaped, dispatched, suspended, resumed, reclaimed, handedToParent, zombified, semWoken,
        semSet]

theorem enter {n : ℤ} (h : TimerInv s) : TimerInv (enterSyscall s p n args) :=
  h.congr rfl fun b => by simp [enterSyscall]

theorem step (h : TimerInv s) (hk : KernelInv s) (hs : step s act = .ok t) : TimerInv t := by
  rcases step_ok hs with ⟨p, n, args, hp, -, hr⟩ | ⟨p, hp, -, ht⟩ | ⟨-, hr⟩
  · have he : TimerInv (enterSyscall s p n args) := h.enter
    cases hr with
    | outOfRange _ same => exact same ▸ h
    | notImplemented _ result =>
      subst result
      exact he.congr rfl fun b => by simp
    | handled hd _ run => exact he.move (runHandler_move (hk.enter hp) hp run)
  · have hticked : TimerInv (ticked s p) := h.congr rfl fun b => by simp
    exact hticked.internalSchedule ht
  · cases hr with
    | resumed _ same => exact same ▸ h
    | restarted b _ started => exact h.newProcess started.newProcess

theorem reachable (h : kernel.Reachable s) : TimerInv s := by
  refine h.invariant (P := TimerInv) ?_ fun s act t hr hs hm =>
    hs.step (KernelInv.reachable hr) hm
  obtain ⟨st, -, hcell, hstart⟩ := disastrOSStart_eq
  simp only [kernel, hstart]
  refine ⟨fun b => ?_, rfl, rfl⟩
  simp only [Kernel.pcb, hcell]
  split_ifs <;> rfl

end TimerInv

/-! ### How many timers there are -/

theorem KernelInv.card_timers (h : KernelInv s) :
    s.timers.item.pool.used.card = s.timers.list.items.length := by
  have hused : s.timers.item.pool.used = s.timers.list.items.toFinset := by
    ext i
    rw [Pool.mem_used, List.mem_toFinset, h.wake.timerInUse]
  rw [hused, List.toFinset_card_of_nodup h.wake.timers]

/-- Different timers belong to different waiting processes. -/
theorem WakeInv.timers_le_waiting (h : WakeInv s) :
    s.timers.list.items.length ≤ (s.procs .waiting).items.length := by
  have hnd : (s.timers.list.items.map (sleeper s)).Nodup :=
    List.Nodup.map_on (fun i hi j hj => h.oneTimer i hi j hj) h.timers
  have hsub : s.timers.list.items.map (sleeper s) ⊆ (s.procs .waiting).items := by
    intro b hb
    obtain ⟨i, hi, rfl⟩ := List.mem_map.mp hb
    exact (h.sleeping i hi).1
  have hle := (List.subperm_of_subset hnd hsub).length_le
  rwa [List.length_map] at hle

/-- The running process is not among those that wait. -/
theorem waiting_lt (h : kernel.Reachable s) (hp : s.running = some p) :
    (s.procs .waiting).items.length < maxNumProcesses := by
  have hk := KernelInv.reachable h
  have hnd : (p :: (s.procs .waiting).items).Nodup :=
    List.nodup_cons.mpr ⟨hk.not_waiting hp, hk.proc.nodup .waiting⟩
  have hsub : (p :: (s.procs .waiting).items).toFinset ⊆ Finset.range maxNumProcesses := by
    intro b hb
    rcases List.mem_cons.mp (List.mem_toFinset.mp hb) with rfl | hb
    · exact Finset.mem_range.mpr (inUse_lt h (hk.proc.inUse_of_running hp))
    · exact Finset.mem_range.mpr (inUse_lt h (hk.proc.inUse_of_mem hb))
  have hcard := Finset.card_le_card hsub
  rwa [List.toFinset_card_of_nodup hnd, Finset.card_range, List.length_cons] at hcard

theorem timers_lt (h : kernel.Reachable s) (hp : s.running = some p) :
    s.timers.item.pool.used.card < maxNumProcesses := by
  have hk := KernelInv.reachable h
  rw [hk.card_timers]
  exact hk.wake.timers_le_waiting.trans_lt (waiting_lt h hp)

theorem timers_free (h : kernel.Reachable s) (hp : s.running = some p) :
    s.timers.item.pool.free ≠ [] := by
  have hlt := timers_lt h hp
  have hsize := (TimerInv.reachable h).blocks
  have hcard := s.timers.item.pool.card_used_add_free
  rw [← List.length_pos_iff_ne_nil]
  omega

/-! ### The calls of sleep -/

/-- The sleep that `p` calls adds one timer, and no return value is stored. -/
structure SleepAdds (s t : Kernel) (p i : ℕ) : Prop where
  fresh : ¬ s.timers.item.InUse i
  inUse : ∀ k, t.timers.item.InUse k ↔ s.timers.item.InUse k ∨ k = i
  items : t.timers.list.items.Perm (i :: s.timers.list.items)
  size : t.timers.list.size = s.timers.list.size + 1
  sleeper : sleeper t i = p
  trace : t.trace = s.trace
  retvalue : ∀ b, (t.pcb b).syscallRetvalue = (s.pcb b).syscallRetvalue

theorem internalSleep_adds (ht : (s.pcb p).timer = none) (hf : s.timers.item.pool.free ≠ [])
    (hp : s.running = some p) (hs : internalSleep s = .ok t) : ∃ i, SleepAdds s t p i := by
  obtain ⟨p', hp', hcase⟩ := internalSleep_ok hs
  obtain rfl : p = p' := Option.some.inj (hp.symm.trans hp')
  rcases hcase with ⟨hno, -⟩ | ⟨i, st, l, hst, hl, -, hcase⟩
  · rcases hno with hno | hno
    · rw [ht] at hno
      cases hno
    · exact absurd hno hf
  obtain ⟨-, hperm, hsize⟩ := listInsert_ok hl
  refine ⟨i, ?_⟩
  rcases hcase with ⟨q, rest, -, rfl⟩ | ⟨-, rfl⟩
  · refine ⟨hst.fresh, hst.inUse, hperm, hsize, ?_, rfl, fun b => by simp [dispatched, suspended]⟩
    simp [DisastrOS.sleeper, dispatched, suspended, hst.cell]
  · refine ⟨hst.fresh, hst.inUse, hperm, hsize, ?_, rfl, fun b => by simp [suspended]⟩
    simp [DisastrOS.sleeper, suspended, hst.cell]

/-- The states in which a step that begins in `s` calls the scheduler. -/
inductive Schedules (s : Kernel) : Kernel → Prop
  | tick (p : ℕ) (running : s.running = some p) : Schedules s (ticked s p)
  | preempt (p : ℕ) (args : List ℤ) (running : s.running = some p) :
    Schedules s (enterSyscall s p dsosCallPreempt args)

/-- There is room for the timers, and all of them are freed in the end. -/
structure TimersFit (s : Kernel) : Prop where
  inUse : (s.timers.item.pool.used.card : ℤ) = s.timers.list.size
  waiting : s.timers.item.pool.used.card ≤ (s.procs .waiting).items.length
  room : s.running ≠ none → s.timers.item.pool.used.card < maxNumProcesses
  sleeps : ∀ p args, s.running = some p →
    ((enterSyscall s p dsosCallSleep args).pcb p).timer = none ∧
      s.timers.item.pool.free ≠ [] ∧
      ∃ t i, kernel.step s (.syscall dsosCallSleep args) = .ok t ∧ SleepAdds s t p i
  scheduled : ∀ u, Schedules s u →
    FreesSucceed (wakeElapsed (u.timers.list.items.length + 1) u none)
      (wakeElapsedFrees (u.timers.list.items.length + 1) u none)
  exits : ∀ p, s.running = some p →
    FreesSucceed (releaseTimers s.timers p s.timers.list.items)
      (releaseTimersFrees s.timers p s.timers.list.items)

theorem SleepAdds.entered {n : ℤ} (h : SleepAdds (enterSyscall s p n args) t p i) :
    SleepAdds s t p i :=
  ⟨h.fresh, h.inUse, h.items, h.size, h.sleeper, h.trace, fun b => by
    rw [h.retvalue]
    simp [enterSyscall]⟩

/-- No sleep fails, and every timer that is freed was in use. -/
theorem timers_fit (h : kernel.Reachable s) : TimersFit s := by
  have hk := KernelInv.reachable h
  have hinv := TimerInv.reachable h
  constructor
  case inUse => rw [hk.card_timers, hinv.size]
  case waiting => exact hk.card_timers ▸ hk.wake.timers_le_waiting
  case room =>
    intro hrun
    obtain ⟨p, hp⟩ := Option.ne_none_iff_exists'.mp hrun
    exact timers_lt h hp
  case sleeps =>
    intro p args hp
    have he : TimerInv (enterSyscall s p dsosCallSleep args) := hinv.enter
    have hke : KernelInv (enterSyscall s p dsosCallSleep args) := hk.enter hp
    have hnone := he.noTimer p
    have hfree := timers_free h hp
    obtain ⟨t, ht⟩ := internalSleep_isOk hke hp
    obtain ⟨i, hi⟩ := internalSleep_adds hnone hfree hp ht
    exact ⟨hnone, hfree, t, i, (@step_handler s p .sleep args hp).trans ht, hi.entered⟩
  case scheduled =>
    intro u hu
    have hku : KernelInv u := by
      cases hu with
      | tick p _ => exact hk.ticked
      | preempt p args running => exact hk.enter running
    obtain ⟨v, l, hv, hl⟩ :=
      @wakeElapsedFrees_success u _ [] _ hku.proc hku.wake rfl (Nat.lt_succ_self _)
    exact .of_ok (wakeElapsedFrees_fst _ _ _) hv hl
  case exits =>
    intro p hp
    have hnone : ∀ i ∈ s.timers.list.items, (s.timers.item.cell i).pcb ≠ p := fun i hi he =>
      hk.not_waiting hp (he ▸ (hk.wake.sleeping i hi).1)
    exact .of_ok (releaseTimersFrees_fst _ _ _) (releaseTimersFrees_eq hnone)
      fun x hx => absurd hx List.not_mem_nil

/-- The first process sleeps while its child runs, and wakes again. -/
theorem timers_fit_sleeping :
    let s := kernel.replay [.syscall dsosCallSpawn [0, 0], .syscall dsosCallSleep [1]]
    s.running = some 1 ∧ s.timers.list.size = 1 ∧ TimersFit s :=
  ⟨by decide +kernel, by decide +kernel, timers_fit (System.reachable_replay _)⟩

end DisastrOS
