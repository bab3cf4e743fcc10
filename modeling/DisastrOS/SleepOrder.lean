import DisastrOS.Timers

/-! The order in which sleeping processes wake, and what the scheduler does in every reachable
state. -/
namespace DisastrOS
open BlockPool TransitionSystem

/-- The number of calls of sleep so far, and the number of the last one of each process. -/
structure SleepCalls where
  count : ℕ
  last : ℕ → ℕ

def IsSleep : Action → Prop
  | .syscall n _ => n = dsosCallSleep
  | .tick | .returnToProcess => False

instance (act : Action) : Decidable (IsSleep act) :=
  match act with
  | .syscall _ _ => inferInstanceAs (Decidable (_ = _))
  | .tick | .returnToProcess => inferInstanceAs (Decidable False)

def recordSleep (s : Kernel) (act : Action) (_ : Kernel) (L : SleepCalls) : SleepCalls :=
  if IsSleep act then
    ⟨L.count + 1, fun b => if s.running = some b then L.count else L.last b⟩
  else L

def sleepKernel : System (Kernel × SleepCalls) Action Fault :=
  kernel.withRecord ⟨0, fun _ => 0⟩ recordSleep

/-- The timer `i` comes before the timer `j`: it is due earlier, or at the same time and its
process has called sleep before. -/
def WakesBefore (s : Kernel) (L : SleepCalls) (i j : ℕ) : Prop :=
  awakeningTime s i < awakeningTime s j ∨
    awakeningTime s i = awakeningTime s j ∧ L.last (sleeper s i) < L.last (sleeper s j)

structure TimersOrdered (s : Kernel) (L : SleepCalls) : Prop where
  sorted : s.timers.list.items.Pairwise (WakesBefore s L)
  called : ∀ i ∈ s.timers.list.items, L.last (sleeper s i) < L.count

variable {s t : Kernel} {L : SleepCalls} {p : ℕ} {act : Action}

/-- A process that sleeps is not the one that calls. -/
theorem recordSleep_last {i : ℕ} (hk : KernelInv s) (hp : s.running = some p)
    (hi : i ∈ s.timers.list.items) :
    (recordSleep s act t L).last (sleeper s i) = L.last (sleeper s i) := by
  have hne : ¬ p = sleeper s i := fun he => hk.not_waiting hp (he ▸ (hk.wake.sleeping i hi).1)
  by_cases hact : IsSleep act
  · simp [recordSleep, hact, hp, hne]
  · simp [recordSleep, hact]

theorem wakesBefore_congr {L' : SleepCalls} {i j : ℕ}
    (htime : ∀ k, k = i ∨ k = j → awakeningTime t k = awakeningTime s k)
    (hlast : ∀ k, k = i ∨ k = j → L'.last (sleeper t k) = L.last (sleeper s k)) :
    WakesBefore t L' i j ↔ WakesBefore s L i j := by
  rw [WakesBefore, WakesBefore, htime i (Or.inl rfl), htime j (Or.inr rfl), hlast i (Or.inl rfl),
    hlast j (Or.inr rfl)]

namespace TimersOrdered

theorem timersSorted (h : TimersOrdered s L) : TimersSorted s :=
  h.sorted.imp fun hij => by
    rcases hij with hlt | ⟨heq, -⟩
    · exact hlt.le
    · exact heq.le

/-- Some of the timers are left. -/
theorem sublist (h : TimersOrdered s L) (ht : t.timers.list.items.Sublist s.timers.list.items)
    (hcell : t.timers.item.cell = s.timers.item.cell) : TimersOrdered t L := by
  have htime : ∀ k, awakeningTime t k = awakeningTime s k := fun k => by
    rw [awakeningTime, hcell, awakeningTime]
  have hlast : ∀ k, L.last (sleeper t k) = L.last (sleeper s k) := fun k => by
    rw [sleeper, hcell, sleeper]
  constructor
  case sorted =>
    exact (h.sorted.sublist ht).imp
      (wakesBefore_congr (fun k _ => htime k) fun k _ => hlast k).mpr
  case called => exact fun i hi => hlast i ▸ h.called i (ht.subset hi)

theorem congr (h : TimersOrdered s L) (ht : t.timers = s.timers) : TimersOrdered t L :=
  h.sublist (by rw [ht]) (by rw [ht])

theorem record (h : TimersOrdered s L) (hk : KernelInv s) (hp : s.running = some p) :
    TimersOrdered s (recordSleep s act t L) := by
  have hcount : L.count ≤ (recordSleep s act t L).count := by
    unfold recordSleep
    split_ifs
    · exact Nat.le_succ _
    · exact le_rfl
  constructor
  case sorted =>
    refine h.sorted.imp_of_mem fun {i j} hi hj => (wakesBefore_congr (fun _ _ => rfl) ?_).mpr
    rintro k (rfl | rfl)
    · exact recordSleep_last hk hp hi
    · exact recordSleep_last hk hp hj
  case called =>
    intro i hi
    rw [recordSleep_last hk hp hi]
    exact (h.called i hi).trans_le hcount

theorem internalSchedule (h : TimersOrdered s L) (hk : KernelInv s)
    (hs : internalSchedule s = .ok t) : TimersOrdered t L := by
  obtain ⟨u, hel, hcase⟩ := internalSchedule_elapsed hk hs
  have hu : TimersOrdered u L := by
    refine h.sublist ?_ hel.cell
    rw [hel.timers]
    exact List.sublist_append_right _ _
  rcases hcase with ⟨-, rfl⟩ | ⟨p, q, rest, -, -, rfl⟩
  · exact hu
  · exact hu.congr rfl

/-- The new timer comes behind those that are due at the same time, whose processes have called
sleep before. -/
theorem add {timers : TimerTable} {time : ℤ} (h : TimersOrdered s L) (hk : KernelInv s)
    (hp : s.running = some p) (ha : timerListAdd s.timers time p = .ok (some timers))
    (hact : IsSleep act) : TimersOrdered (s.setTimers timers) (recordSleep s act t L) := by
  have hr : TimersOrdered s (recordSleep s act t L) := h.record hk hp
  have hp' : (recordSleep s act t L).last p = L.count := by simp [recordSleep, hact, hp]
  have hcount : (recordSleep s act t L).count = L.count + 1 := by simp [recordSleep, hact]
  have hearlier : ∀ j ∈ s.timers.list.items,
      (recordSleep s act t L).last (sleeper s j) < L.count := fun j hj => by
    rw [recordSleep_last hk hp hj]
    exact h.called j hj
  obtain ⟨st, i, l1, l2, hst, hi, hsplit, rfl, hle, hgt⟩ := h.timersSorted.split hk.wake ha
  generalize recordSleep s act t L = L' at *
  have hsleeper : ∀ j, sleeper (s.setTimers ⟨⟨l1 ++ i :: l2, s.timers.list.size + 1⟩, st⟩) j =
      if j = i then p else sleeper s j := fun j => by
    by_cases hj : j = i <;> simp [sleeper, hst.cell, hj]
  have hne : ∀ j ∈ s.timers.list.items, j ≠ i := fun j hj he => hi (he ▸ hj)
  have hmem : ∀ j, j ∈ s.timers.list.items ↔ j ∈ l1 ∨ j ∈ l2 := fun j => by
    rw [hsplit, List.mem_append]
  constructor
  case sorted =>
    have hsorted := hr.sorted
    rw [hsplit] at hsorted
    refine pairwise_insert (hsorted.imp_of_mem fun {j k} hj hk' hjk => ?_) (fun j hj => ?_)
      fun j hj => ?_
    · rw [List.mem_append, ← hmem] at hj hk'
      refine (wakesBefore_congr ?_ ?_).mpr hjk
      · rintro m (rfl | rfl)
        · rw [awakeningTime_added hst, if_neg (hne m hj)]
        · rw [awakeningTime_added hst, if_neg (hne m hk')]
      · rintro m (rfl | rfl)
        · rw [hsleeper, if_neg (hne m hj)]
        · rw [hsleeper, if_neg (hne m hk')]
    · have hj' := (hmem j).mpr (Or.inl hj)
      rw [WakesBefore, awakeningTime_added hst, awakeningTime_added hst, hsleeper, hsleeper,
        if_neg (hne j hj'), if_neg (hne j hj'), if_pos rfl, if_pos rfl, hp']
      have h1 := hle j hj
      have h2 := hearlier j hj'
      omega
    · have hj' := (hmem j).mpr (Or.inr hj)
      rw [WakesBefore, awakeningTime_added hst, awakeningTime_added hst, if_pos rfl,
        if_neg (hne j hj')]
      exact Or.inl (hgt j hj)
  case called =>
    intro j hj
    rw [hcount, hsleeper]
    split_ifs with hji
    · omega
    · have hj' : j ∈ s.timers.list.items := by
        rw [hmem]
        have hj : j ∈ l1 ++ i :: l2 := hj
        simpa [hji] using hj
      have := hearlier j hj'
      omega

theorem step (h : TimersOrdered s L) (hk : KernelInv s) (hs : step s act = .ok t) :
    TimersOrdered t (recordSleep s act t L) := by
  rcases step_ok hs with ⟨p, n, args, hp, rfl, hr⟩ | ⟨p, hp, rfl, ht⟩ | ⟨rfl, hr⟩
  · have hrec : TimersOrdered s (recordSleep s (.syscall n args) t L) := h.record hk hp
    cases hr with
    | outOfRange _ same => exact hrec.congr (by rw [same])
    | notImplemented _ result => exact hrec.congr (by rw [result]; rfl)
    | handled hd number run =>
      have hke : KernelInv (enterSyscall s p n args) := hk.enter hp
      rcases (runHandler_move hke hp run).timers with ht | ⟨rfl, ha⟩ | ht
      · exact hrec.congr ht
      · have he : TimersOrdered (enterSyscall s p n args) L := h.congr rfl
        have hsleep : IsSleep (.syscall n args) := number
        have hadd : TimersOrdered _ (recordSleep _ _ t L) := he.add hke hp ha hsleep
        exact hadd.congr rfl
      · have he : TimersOrdered (enterSyscall s p n args) _ := hrec.congr rfl
        exact he.internalSchedule hke ht
  · have hrec : TimersOrdered s (recordSleep s .tick t L) := h.record hk hp
    have he : TimersOrdered (ticked s p) _ := hrec.congr rfl
    exact he.internalSchedule hk.ticked ht
  · have hrec : recordSleep s .returnToProcess t L = L := if_neg nofun
    exact hrec ▸ h.congr hr.timers

/-- The timers of a reachable state are in the order in which their processes will wake. -/
theorem reachable (h : sleepKernel.Reachable (s, L)) : TimersOrdered s L := by
  refine (h.invariant (P := fun y => KernelInv y.1 ∧ TimersOrdered y.1 y.2) ⟨.start, ?_⟩ ?_).2
  · obtain ⟨st, -, -, hstart⟩ := disastrOSStart_eq
    constructor <;> simp [sleepKernel, System.withRecord, kernel, hstart, emptyKernel]
  · rintro ⟨s, L⟩ act ⟨t, L'⟩ - ⟨hk, hi⟩ hm
    obtain ⟨hs, hL⟩ := System.withRecord_step.mp hm
    refine ⟨hk.step hs, ?_⟩
    change TimersOrdered t L'
    rw [show L' = recordSleep s act t L from hL]
    exact hi.step hk hs

end TimersOrdered

/-! ### The scheduler at any time -/

def atTime (s : Kernel) (time : ℤ) : Kernel := { s with time := time }

/-- The timers that are due. -/
def due (s : Kernel) : List ℕ :=
  s.timers.list.items.filter fun i => decide (awakeningTime s i ≤ s.time)

/-- The processes that a call of the scheduler finds ready or makes so, in order. -/
def readyOnes (s : Kernel) : List ℕ := (due s).map (sleeper s) ++ (s.procs .ready).items

/-- What a call of the scheduler does while the process `p` runs. -/
structure Scheduled (s t : Kernel) (p : ℕ) : Prop where
  freed : ∀ i, t.timers.item.InUse i ↔ s.timers.item.InUse i ∧ i ∉ due s
  timers : t.timers.list.items = s.timers.list.items.filter (· ∉ due s)
  cell : t.timers.item.cell = s.timers.item.cell
  slept : ∀ i ∈ due s, sleeper s i ∈ (s.procs .waiting).items
  waiting : (t.procs .waiting).items =
    (s.procs .waiting).items.filter (· ∉ (due s).map (sleeper s))
  zombie : t.procs .zombie = s.procs .zombie
  none : readyOnes s = [] → t.running = some p ∧ (t.procs .ready).items = []
  next : ∀ q rest, readyOnes s = q :: rest →
    t.running = some q ∧ (t.procs .ready).items = rest ++ [p]

theorem KernelInv.atTime (h : KernelInv s) (time : ℤ) : KernelInv (atTime s time) := by
  refine ⟨h.proc.congr rfl rfl (fun _ => rfl) rfl (fun _ => rfl) fun _ => rfl,
    h.wake.congr rfl rfl (fun _ _ => rfl) (fun _ => rfl) fun _ _ _ => rfl, h.sem.frame ?_⟩
  constructor <;> intros <;> rfl

theorem internalSchedule_scheduled (hk : KernelInv s) (hsort : TimersSorted s)
    (hp : s.running = some p) : ∃ t, internalSchedule s = .ok t ∧ Scheduled s t p := by
  obtain ⟨t, ht⟩ := internalSchedule_isOk hk hp
  obtain ⟨u, hel, hcase⟩ := internalSchedule_elapsed hk ht
  have hE : elapsed s = due s := elapsed_eq_filter hsort
  rw [hE] at hel
  have hready : (u.procs .ready).items = readyOnes s := by
    rw [hel.ready]
    rfl
  have htimers : u.timers.list.items = s.timers.list.items.filter (· ∉ due s) := by
    have hnd := hk.wake.timers
    rw [hel.timers] at hnd ⊢
    have hrest : ∀ i ∈ u.timers.list.items, i ∉ due s := fun i hi hd =>
      (List.nodup_append.mp hnd).2.2 i hd i hi rfl
    rw [List.filter_append, List.filter_eq_nil_iff.mpr (by simp), List.nil_append,
      List.filter_eq_self.mpr (by simpa using hrest)]
  have hslept : ∀ i ∈ due s, sleeper s i ∈ (s.procs .waiting).items := fun i hi =>
    (hk.wake.sleeping i (List.mem_of_mem_filter hi)).1
  have hwaiting : (u.procs .waiting).items =
      (s.procs .waiting).items.filter (· ∉ (due s).map (sleeper s)) := by rw [hel.waiting]
  refine ⟨t, ht, ?_⟩
  rcases hcase with ⟨hr, rfl⟩ | ⟨p', q, rest, hp', hr, rfl⟩
  · rw [hready] at hr
    refine ⟨hel.inUse, htimers, hel.cell, hslept, hwaiting, hel.zombie, fun _ => ?_, ?_⟩
    · exact ⟨hel.running.trans hp, hready.trans hr⟩
    · simp [hr]
  · obtain rfl : p = p' := Option.some.inj (hp.symm.trans hp')
    rw [hready] at hr
    refine ⟨hel.inUse, htimers, hel.cell, hslept, ?_, ?_, ?_, ?_⟩
    · simpa [rotated] using hwaiting
    · simpa [rotated] using hel.zombie
    · simp [hr]
    · intro q' rest' hq
      obtain ⟨rfl, rfl⟩ := List.cons.inj (hr.symm.trans hq)
      exact ⟨rfl, by simp [rotated]⟩

/-- In every reachable state the timers are in the order of their times, and at equal times in
the order of the calls of sleep; at any time the scheduler wakes exactly the processes whose
timers are due, in that order and before the ready ones, and the first ready process runs. -/
theorem schedule_wakes_due (h : sleepKernel.Reachable (s, L)) :
    TimersOrdered s L ∧ ∀ p, s.running = some p → ∀ time, ∃ t,
      internalSchedule (atTime s time) = .ok t ∧ Scheduled (atTime s time) t p := by
  have ho := TimersOrdered.reachable h
  have hk := KernelInv.reachable (System.withRecord_reachable h)
  refine ⟨ho, fun p hp time => ?_⟩
  exact internalSchedule_scheduled (hk.atTime time) (ho.timersSorted.congr rfl) hp

/-- The first process and the last of its children sleep, and wake at the same time. -/
theorem schedule_wakes_due_ties :
    ∃ s L, s.timers.list.items.length = 2 ∧ s.running = some 1 ∧ TimersOrdered s L ∧
      ∀ time, ∃ t, internalSchedule (atTime s time) = .ok t ∧ Scheduled (atTime s time) t 1 := by
  have h := System.reachable_replay (M := sleepKernel) [.syscall dsosCallSpawn [0, 0],
    .syscall dsosCallSpawn [0, 0], .syscall dsosCallPreempt [], .syscall dsosCallPreempt [],
    .syscall dsosCallSleep [5], .syscall dsosCallSleep [5]]
  obtain ⟨ho, hs⟩ := schedule_wakes_due h
  exact ⟨_, _, by decide +kernel, by decide +kernel, ho, hs 1 (by decide +kernel)⟩

end DisastrOS
