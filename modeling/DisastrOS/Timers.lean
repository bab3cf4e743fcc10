import Mathlib.Data.List.TakeWhile
import DisastrOS.HandlerMoves

/-! The timers: their order, and what the scheduler does with those that have elapsed. -/
namespace DisastrOS
open BlockPool TransitionSystem

/-! ### Inserting into a list -/

theorem insertAfter_append {l1 l2 : List ℕ} {q b : ℕ} (hq : l1.getLast? = some q) (hn : q ∉ l2) :
    insertAfter q b (l1 ++ l2) = l1 ++ b :: l2 := by
  induction l1 with
  | nil => cases hq
  | cons k ks ih =>
    cases ks with
    | nil =>
      obtain rfl : k = q := by simpa using hq
      simp [insertAfter, hn]
    | cons k' ks =>
      rw [List.getLast?_cons_cons] at hq
      have hmem : q ∈ (k' :: ks) ++ l2 := List.mem_append_left _ (List.mem_of_getLast? hq)
      rw [List.cons_append, insertAfter, if_pos hmem, ih hq]
      rfl

/-- The new item comes right behind the items `l1`. -/
theorem listInsert_behind {h : ListHead} {l1 l2 : List ℕ} {b : ℕ} (hi : h.items = l1 ++ l2)
    (hnd : h.items.Nodup) (hb : b ∉ h.items) :
    listInsert h l1.getLast? b = .ok ⟨l1 ++ b :: l2, h.size + 1⟩ := by
  unfold listInsert
  rw [if_neg hb]
  cases hq : l1.getLast? with
  | none =>
    rw [List.getLast?_eq_none_iff] at hq
    simp [hi, hq]
  | some q =>
    have hmem : q ∈ l1 := List.mem_of_getLast? hq
    have hn : q ∉ l2 := fun h2 => by
      rw [hi] at hnd
      exact (List.nodup_append.mp hnd).2.2 q hmem q h2 rfl
    simp only [hi, List.mem_append, hmem, true_or, if_true]
    rw [insertAfter_append hq hn]

/-- The items before the place that `TimerList_add` finds are due no later than the new timer,
and the next one is due later. -/
theorem timerPrevious_split (t : TimerTable) (time : ℤ) (prev : Option ℕ) (l : List ℕ) :
    ∃ l1 l2, l = l1 ++ l2 ∧ timerPrevious t time prev l = l1.getLast?.or prev ∧
      (∀ i ∈ l1, (t.item.cell i).awakeningTime ≤ time) ∧
      ∀ j ∈ l2.head?, time < (t.item.cell j).awakeningTime := by
  induction l generalizing prev with
  | nil => exact ⟨[], [], rfl, rfl, by simp, by simp⟩
  | cons i is ih =>
    rw [timerPrevious]
    split_ifs with hlt
    · exact ⟨[], i :: is, rfl, rfl, by simp, by simpa using hlt⟩
    · obtain ⟨l1, l2, rfl, hprev, hle, hgt⟩ := ih (some i)
      refine ⟨i :: l1, l2, rfl, ?_, ?_, hgt⟩
      · rw [hprev]
        cases l1 with
        | nil => rfl
        | cons k ks =>
          rw [List.getLast?_cons_cons]
          cases hk : (k :: ks).getLast? with
          | none => simp at hk
          | some j => rfl
      · rintro j hj
        rcases List.mem_cons.mp hj with rfl | hj
        · omega
        · exact hle j hj

/-! ### The order of the timers -/

def awakeningTime (s : Kernel) (i : ℕ) : ℤ := (s.timers.item.cell i).awakeningTime

def TimersSorted (s : Kernel) : Prop :=
  s.timers.list.items.Pairwise fun i j => awakeningTime s i ≤ awakeningTime s j

/-- The timers that have elapsed, up to the first that has not. -/
def elapsed (s : Kernel) : List ℕ :=
  s.timers.list.items.takeWhile fun i => decide (awakeningTime s i ≤ s.time)

variable {s t u : Kernel} {p q b a i d x w : ℕ} {rest : List ℕ}

theorem takeWhile_eq_filter_of_sorted {f : ℕ → ℤ} {v : ℤ} {l : List ℕ}
    (h : l.Pairwise fun i j => f i ≤ f j) :
    l.takeWhile (fun i => decide (f i ≤ v)) = l.filter fun i => decide (f i ≤ v) := by
  induction l with
  | nil => rfl
  | cons k ks ih =>
    obtain ⟨hk, hks⟩ := List.pairwise_cons.mp h
    by_cases hv : f k ≤ v
    · rw [List.takeWhile_cons_of_pos (by simpa using hv),
        List.filter_cons_of_pos (by simpa using hv), ih hks]
    · rw [List.takeWhile_cons_of_neg (by simpa using hv), eq_comm, List.filter_eq_nil_iff]
      intro j hj
      simp only [decide_eq_true_eq, not_le]
      rcases List.mem_cons.mp hj with rfl | hj
      · omega
      · have := hk j hj
        omega

theorem elapsed_eq_filter (h : TimersSorted s) :
    elapsed s = s.timers.list.items.filter fun i => decide (awakeningTime s i ≤ s.time) :=
  takeWhile_eq_filter_of_sorted h

theorem mem_elapsed (h : TimersSorted s) :
    i ∈ elapsed s ↔ i ∈ s.timers.list.items ∧ awakeningTime s i ≤ s.time := by
  simp [elapsed_eq_filter h]

theorem elapsed_due (hi : i ∈ elapsed s) : awakeningTime s i ≤ s.time := by
  simpa using List.mem_takeWhile_imp hi

theorem timerListAdd_room {tb timers : TimerTable} {time : ℤ}
    (ha : timerListAdd tb time p = .ok (some timers)) : tb.item.pool.free ≠ [] := by
  rcases timerListAdd_ok ha with ⟨hn, -⟩ | ⟨i, st, l, hst, -⟩
  · cases hn
  · simp [hst.free]

/-- The new timer of a sleep comes right behind those that are due no later. -/
theorem TimersSorted.split {timers : TimerTable} {time : ℤ} (h : TimersSorted s) (hw : WakeInv s)
    (ha : timerListAdd s.timers time p = .ok (some timers)) :
    ∃ st i l1 l2, Store.Allocated s.timers.item st i (fun _ => ⟨time, p⟩) ∧
      i ∉ s.timers.list.items ∧ s.timers.list.items = l1 ++ l2 ∧
      timers = ⟨⟨l1 ++ i :: l2, s.timers.list.size + 1⟩, st⟩ ∧
      (∀ j ∈ l1, awakeningTime s j ≤ time) ∧ ∀ j ∈ l2, time < awakeningTime s j := by
  rcases timerListAdd_ok ha with ⟨hn, -⟩ | ⟨i, st, l, hst, hi, hl, ho⟩
  · cases hn
  obtain ⟨l1, l2, hsplit, hprev, hle, hgt⟩ :=
    timerPrevious_split s.timers time none s.timers.list.items
  rw [hprev, Option.or_none, listInsert_behind hsplit hw.timers hi] at hl
  obtain rfl := Except.ok.inj hl
  obtain rfl := Option.some.inj ho
  refine ⟨st, i, l1, l2, hst, hi, hsplit, rfl, hle, fun j hj => ?_⟩
  rw [TimersSorted, hsplit] at h
  cases l2 with
  | nil => cases hj
  | cons k ks =>
    have hk : time < awakeningTime s k := hgt k rfl
    rcases List.mem_cons.mp hj with rfl | hj
    · exact hk
    · have := (List.pairwise_cons.mp (List.pairwise_append.mp h).2.1).1 j hj
      omega

theorem pairwise_insert {R : ℕ → ℕ → Prop} {l1 l2 : List ℕ} (h : (l1 ++ l2).Pairwise R)
    (h1 : ∀ j ∈ l1, R j i) (h2 : ∀ j ∈ l2, R i j) : (l1 ++ i :: l2).Pairwise R := by
  obtain ⟨hl1, hl2, h12⟩ := List.pairwise_append.mp h
  refine List.pairwise_append.mpr ⟨hl1, List.pairwise_cons.mpr ⟨h2, hl2⟩, fun j hj k hk => ?_⟩
  rcases List.mem_cons.mp hk with rfl | hk
  · exact h1 j hj
  · exact h12 j hj k hk

/-- The times of the timers when a new one has been added. -/
theorem awakeningTime_added {st : Store TimerItem} {time : ℤ} {l : ListHead}
    (hst : Store.Allocated s.timers.item st i (fun _ => ⟨time, p⟩)) (j : ℕ) :
    awakeningTime (s.setTimers ⟨l, st⟩) j = if j = i then time else awakeningTime s j := by
  by_cases hj : j = i <;> simp [awakeningTime, hst.cell, hj]

/-- The new timer of a sleep keeps the order. -/
theorem TimersSorted.add {timers : TimerTable} {time : ℤ} (h : TimersSorted s) (hw : WakeInv s)
    (ha : timerListAdd s.timers time p = .ok (some timers)) :
    TimersSorted (s.setTimers timers) := by
  obtain ⟨st, i, l1, l2, hst, hi, hsplit, rfl, hle, hgt⟩ := h.split hw ha
  rw [TimersSorted, hsplit] at h
  rw [hsplit] at hi
  have hold : ∀ j ∈ l1 ++ l2, j ≠ i := fun j hj he => hi (he ▸ hj)
  refine pairwise_insert (h.imp_of_mem fun {j k} hj hk hjk => ?_) (fun j hj => ?_) fun j hj => ?_
  · rwa [awakeningTime_added hst, awakeningTime_added hst, if_neg (hold j hj),
      if_neg (hold k hk)]
  · rw [awakeningTime_added hst, awakeningTime_added hst, if_pos rfl,
      if_neg (hold j (List.mem_append_left _ hj))]
    exact hle j hj
  · rw [awakeningTime_added hst, awakeningTime_added hst, if_pos rfl,
      if_neg (hold j (List.mem_append_right _ hj))]
    exact (hgt j hj).le

/-! ### The wake loop -/

/-- From `s` to `t` the processes of the timers `E`, the first ones, have become ready: behind
those in `done`, which were woken before them, and before the others. -/
structure Elapsed (s t : Kernel) (done E : List ℕ) (ready : List ℕ) : Prop where
  time : t.time = s.time
  running : t.running = s.running
  initPcb : t.initPcb = s.initPcb
  lastPid : t.lastPid = s.lastPid
  pool : t.pcbs.pool = s.pcbs.pool
  pcbPtrs : t.pcbPtrs = s.pcbPtrs
  resources : t.resources = s.resources
  sems : t.sems = s.sems
  memory : ∀ k, t.memory k = s.memory k
  trace : t.trace = s.trace
  timers : s.timers.list.items = E ++ t.timers.list.items
  timersSize : t.timers.list.size = s.timers.list.size - E.length
  cell : t.timers.item.cell = s.timers.item.cell
  inUse : ∀ i, t.timers.item.InUse i ↔ s.timers.item.InUse i ∧ i ∉ E
  ready : t.procs .ready =
    ⟨done ++ E.map (sleeper s) ++ ready, (s.procs .ready).size + E.length⟩
  waiting : t.procs .waiting = ⟨(s.procs .waiting).items.filter (· ∉ E.map (sleeper s)),
    (s.procs .waiting).size - E.length⟩
  zombie : t.procs .zombie = s.procs .zombie
  pcb : ∀ k, t.pcb k =
    if k ∈ E.map (sleeper s) then { s.pcb k with status := .ready, timer := none } else s.pcb k

theorem Elapsed.refl {done ready : List ℕ} (h : (s.procs .ready).items = done ++ ready) :
    Elapsed s s done [] ready := by
  constructor
  case ready => simp [← h]
  case waiting => simp
  all_goals simp

/-- A round of the wake loop for the first timer `i`. -/
theorem wakeTimer_elapsed {done ready : List ℕ} (hp : ProcInv s) (hw : WakeInv s)
    (hr : (s.procs .ready).items = done ++ ready) (hi : s.timers.list.items = i :: rest) :
    ∃ u, wakeTimer s done.getLast? (sleeper s i) = .ok u ∧ Elapsed s u done [i] ready ∧
      (u.procs .ready).items = (done ++ [sleeper s i]) ++ ready ∧
      u.timers.list.items = rest ∧ ProcInv u ∧ WakeInv u := by
  have hmem : i ∈ s.timers.list.items := by simp [hi]
  obtain ⟨hwait, -⟩ := hw.sleeping i hmem
  have hnready : sleeper s i ∉ (s.procs .ready).items := fun hb => by
    have := hp.disjoint hb hwait
    cases this
  have hnzombie : sleeper s i ∉ (s.procs .zombie).items := fun hb => by
    have := hp.disjoint hb hwait
    cases this
  have hndw := hp.nodup .waiting
  have hndr := hp.nodup .ready
  generalize hb : sleeper s i = b at *
  have hinsert : listInsert (s.procs .ready) done.getLast? b =
      .ok ⟨done ++ b :: ready, (s.procs .ready).size + 1⟩ := listInsert_behind hr hndr hnready
  have hwoken : wakeTimer s done.getLast? b =
      .ok (wokenState s b i ⟨done ++ b :: ready, (s.procs .ready).size + 1⟩ rest) := by
    unfold wakeTimer
    rw [bind_ok]
    refine ⟨_, Kernel.detachProc_ok.mpr ⟨hwait, rfl⟩, ?_⟩
    rw [bind_ok]
    refine ⟨_, Kernel.insertProc_ok.mpr
      ⟨?_, ⟨done ++ b :: ready, (s.procs .ready).size + 1⟩, ?_, rfl⟩, ?_⟩
    · simp [Kernel.Linked, hndw.mem_erase_iff, hnready, hnzombie]
    · simpa using hinsert
    · rw [bind_ok]
      exact ⟨_, timerListRemoveCurrent_ok.mpr ⟨i, rest, by simpa using hi, rfl⟩, rfl⟩
  refine ⟨_, hwoken, ?_, ?_, rfl, hp.wakeTimer hwoken, ?_⟩
  · constructor
    case inUse =>
      intro k
      simp [wokenState, timerItemFree]
    case ready => simp [wokenState, hb]
    case waiting =>
      have hfilter : (s.procs .waiting).items.erase b =
          (s.procs .waiting).items.filter (· ∉ [i].map (sleeper s)) := by
        rw [hndw.erase_eq_filter]
        refine List.filter_congr fun k _ => ?_
        by_cases hk : k = b <;> simp [hk, hb]
      rw [← hfilter]
      simp [wokenState]
    case pcb =>
      intro k
      by_cases hk : k = b
      · simp [wokenState, hk, hb]
      · simp [wokenState, hk, hb]
    all_goals simp [wokenState, timerItemFree, hi]
  · simp [wokenState]
  · apply hw.leaveSleep hndw hi
    all_goals simp [wokenState, timerItemFree, sleeper, ← hb]

theorem Elapsed.cons {done E ready : List ℕ} (h : Elapsed s u done [i] ready)
    (h' : Elapsed u t (done ++ [sleeper s i]) E ready) : Elapsed s t done (i :: E) ready := by
  have hsleeper : sleeper u = sleeper s := by
    funext k
    rw [sleeper, sleeper, h.cell]
  constructor
  case time => rw [h'.time, h.time]
  case running => rw [h'.running, h.running]
  case initPcb => rw [h'.initPcb, h.initPcb]
  case lastPid => rw [h'.lastPid, h.lastPid]
  case pool => rw [h'.pool, h.pool]
  case pcbPtrs => rw [h'.pcbPtrs, h.pcbPtrs]
  case resources => rw [h'.resources, h.resources]
  case sems => rw [h'.sems, h.sems]
  case memory => exact fun k => (h'.memory k).trans (h.memory k)
  case trace => rw [h'.trace, h.trace]
  case timers =>
    rw [h.timers, h'.timers]
    rfl
  case timersSize =>
    rw [h'.timersSize, h.timersSize]
    simp only [List.length_cons, List.length_nil]
    omega
  case cell => rw [h'.cell, h.cell]
  case inUse =>
    intro k
    simp only [h'.inUse, h.inUse, List.mem_cons, List.not_mem_nil, or_false, not_or]
    tauto
  case ready =>
    rw [h'.ready, h.ready, hsleeper]
    simp only [List.map_cons, List.append_assoc, List.cons_append, List.nil_append,
      List.length_cons, List.length_nil, ListHead.mk.injEq, true_and]
    omega
  case waiting =>
    rw [h'.waiting, h.waiting, hsleeper]
    simp only [List.filter_filter, List.map_cons, List.map_nil, List.mem_cons, List.length_cons,
      List.length_nil, ListHead.mk.injEq]
    constructor
    · refine List.filter_congr fun k _ => ?_
      by_cases hk : k = sleeper s i <;> simp [hk]
    · omega
  case zombie => rw [h'.zombie, h.zombie]
  case pcb =>
    intro k
    rw [h'.pcb, h.pcb, hsleeper]
    simp only [List.map_cons, List.map_nil, List.mem_cons, List.not_mem_nil, or_false]
    by_cases hk : k = sleeper s i
    · simp [hk]
    · simp [hk]

theorem elapsed_eq_nil (h : timerListCurrent s.timers s.time = none) : elapsed s = [] := by
  unfold timerListCurrent at h
  split at h
  · rename_i hf
    rw [elapsed, ListHead.first_eq_none hf]
    rfl
  · rename_i i hf
    obtain ⟨rest, hi⟩ := ListHead.first_eq_some hf
    have hlt : ¬ awakeningTime s i ≤ s.time := by
      split_ifs at h with hle
      exact hle
    rw [elapsed, hi, List.takeWhile_cons, if_neg (by simpa using hlt)]

theorem elapsed_eq_cons (h : timerListCurrent s.timers s.time = some i) :
    ∃ rest, s.timers.list.items = i :: rest ∧ ∀ u : Kernel, u.timers.list.items = rest →
      u.timers.item.cell = s.timers.item.cell → u.time = s.time → elapsed s = i :: elapsed u := by
  obtain ⟨rest, hi⟩ := timerListCurrent_ok h
  refine ⟨rest, hi, fun u hu hcell htime => ?_⟩
  have hle : awakeningTime s i ≤ s.time := by
    unfold timerListCurrent at h
    split at h
    · cases h
    · split_ifs at h with hle
      exact Option.some.inj h ▸ hle
  rw [elapsed, hi, List.takeWhile_cons, if_pos (by simpa using hle), elapsed, hu]
  simp only [awakeningTime, hcell, htime]
  rfl

/-- The wake loop ends, having woken the processes of the timers that have elapsed. -/
theorem wakeElapsed_loop {fuel : ℕ} {done ready : List ℕ} (hp : ProcInv s) (hw : WakeInv s)
    (hr : (s.procs .ready).items = done ++ ready) (hf : s.timers.list.items.length < fuel) :
    ∃ t, wakeElapsed fuel s done.getLast? = .ok t ∧ Elapsed s t done (elapsed s) ready := by
  induction fuel generalizing s done with
  | zero => omega
  | succ fuel ih =>
    rw [wakeElapsed]
    cases hc : timerListCurrent s.timers s.time with
    | none => exact ⟨s, rfl, elapsed_eq_nil hc ▸ .refl hr⟩
    | some i =>
      obtain ⟨rest, hi, hcons⟩ := elapsed_eq_cons hc
      obtain ⟨u, hu, hel, hready, hrest, hpu, hwu⟩ := wakeTimer_elapsed hp hw hr hi
      have hlen : u.timers.list.items.length < fuel := by
        rw [hi, List.length_cons] at hf
        rw [hrest]
        omega
      obtain ⟨t, ht, hel'⟩ := ih hpu hwu hready hlen
      refine ⟨t, ?_, hcons u hrest hel.cell hel.time ▸ hel.cons hel'⟩
      rw [List.getLast?_append] at ht
      exact bind_ok.mpr ⟨u, hu, by simpa [sleeper] using ht⟩

theorem wakeElapsed_elapsed (h : KernelInv s)
    (hs : wakeElapsed (s.timers.list.items.length + 1) s none = .ok u) :
    Elapsed s u [] (elapsed s) (s.procs .ready).items := by
  obtain ⟨t, ht, hel⟩ := @wakeElapsed_loop s _ [] _ h.proc h.wake rfl (Nat.lt_succ_self _)
  obtain rfl := Except.ok.inj (hs.symm.trans ht)
  exact hel

/-! ### The scheduler -/

theorem internalSchedule_elapsed (h : KernelInv s) (hs : internalSchedule s = .ok t) :
    ∃ u, Elapsed s u [] (elapsed s) (s.procs .ready).items ∧
      ((u.procs .ready).items = [] ∧ t = u ∨ ∃ p q rest, s.running = some p ∧
        (u.procs .ready).items = q :: rest ∧ t = rotated u p q rest) := by
  obtain ⟨u, hu, hcase⟩ := internalSchedule_ok hs
  have hel := wakeElapsed_elapsed h hu
  refine ⟨u, hel, hcase.imp id ?_⟩
  rintro ⟨p, q, rest, hp, hr, -, -, -, ht⟩
  exact ⟨p, q, rest, hel.running ▸ hp, hr, ht⟩

/-- While a process runs the scheduler comes to an end. -/
theorem internalSchedule_isOk (h : KernelInv s) (hp : s.running = some p) :
    ∃ t, internalSchedule s = .ok t := by
  obtain ⟨u, hu, hel⟩ := @wakeElapsed_loop s _ [] _ h.proc h.wake rfl (Nat.lt_succ_self _)
  have hproc : ProcInv u := h.proc.wakeElapsed hu
  have hrun : u.running = some p := hel.running.trans hp
  have hnl := hproc.not_linked hrun
  refine bind_isOk hu ?_
  cases hf : (u.procs .ready).first with
  | none => exact ⟨u, rfl⟩
  | some q =>
    obtain ⟨rest, hr⟩ := ListHead.first_eq_some hf
    refine bind_isOk ((Kernel.detachProc_first_ok hr).mpr rfl) ?_
    refine bind_isOk (deref_ok.mpr hrun) ?_
    refine bind_isOk (Kernel.insertProc_last_ok.mpr ⟨?_, rfl⟩) ⟨_, rfl⟩
    simp only [Kernel.Linked, hr, List.mem_cons, not_or] at hnl
    simp [Kernel.Linked, hnl]

theorem timerInterrupt_isOk (h : KernelInv s) (hp : s.running = some p) :
    ∃ t, step s .tick = .ok t := by
  obtain ⟨t, ht⟩ := internalSchedule_isOk (p := p) (h.ticked (p := p)) hp
  obtain ⟨r, hr⟩ : ∃ r, t.running = some r := by
    obtain ⟨u, hel, ⟨-, rfl⟩ | ⟨_, q, rest, -, -, rfl⟩⟩ := internalSchedule_elapsed h.ticked ht
    · exact ⟨p, hel.running.trans hp⟩
    · exact ⟨q, rfl⟩
  exact bind_isOk (deref_ok.mpr hp) (bind_isOk ht (bind_isOk (deref_ok.mpr hr) ⟨t, rfl⟩))

theorem HandlerMove.timers {hd : Handler} (hm : HandlerMove s t p hd) : t.timers = s.timers ∨
    (hd = .sleep ∧ timerListAdd s.timers (wakeTime s p) p = .ok (some t.timers)) ∨
    internalSchedule s = .ok t := by
  cases hm with
  | same same => exact Or.inl same.timers
  | fork b q created => exact Or.inl created.timers
  | spawn b q created => exact Or.inl created.timers
  | preempt scheduled => exact Or.inr (Or.inr scheduled)
  | sleep timers q rest noTimer added ready result =>
    subst result
    exact Or.inr (Or.inl ⟨rfl, added⟩)
  | idle timers noTimer added ready result =>
    subst result
    exact Or.inr (Or.inl ⟨rfl, added⟩)
  | collect _ _ _ result | wait _ _ _ _ _ _ result | exitNext _ _ _ _ _ _ _ _ _ _ result
  | exitParent _ _ _ _ _ _ _ _ _ _ _ result | semWait _ _ _ _ _ _ _ _ _ _ result
  | semPost _ _ _ _ _ _ _ _ _ _ _ result =>
    subst result
    exact Or.inl (by simp [reaped, dispatched, suspended, resumed, reclaimed, handedToParent,
      zombified, semWoken, semSet])

namespace TimersSorted

theorem congr (h : TimersSorted s) (ht : t.timers = s.timers) : TimersSorted t := by
  simp only [TimersSorted, awakeningTime, ht]
  exact h

theorem elapsed {done E ready : List ℕ} (h : TimersSorted s) (hel : Elapsed s t done E ready) :
    TimersSorted t := by
  rw [TimersSorted, hel.timers] at h
  simp only [TimersSorted, awakeningTime, hel.cell]
  exact (List.pairwise_append.mp h).2.1

theorem internalSchedule (h : TimersSorted s) (hk : KernelInv s)
    (hs : internalSchedule s = .ok t) : TimersSorted t := by
  obtain ⟨u, hel, ⟨-, rfl⟩ | ⟨p, q, rest, -, -, rfl⟩⟩ := internalSchedule_elapsed hk hs
  · exact h.elapsed hel
  · exact (h.elapsed hel).congr rfl

theorem reachable (h : kernel.Reachable s) : TimersSorted s := by
  refine (h.invariant (P := fun s => KernelInv s ∧ TimersSorted s)
    ⟨.start, ?_⟩ fun s act t _ hs hm => ⟨hs.1.step hm, ?_⟩).2
  · obtain ⟨st, -, -, hstart⟩ := disastrOSStart_eq
    simp [kernel, hstart, TimersSorted, emptyKernel]
  · obtain ⟨hk, hs⟩ := hs
    rcases step_ok hm with ⟨p, n, args, hp, -, hr⟩ | ⟨p, hp, -, ht⟩ | ⟨-, hr⟩
    · have he : TimersSorted (enterSyscall s p n args) := hs.congr rfl
      cases hr with
      | outOfRange _ same => exact same ▸ hs
      | notImplemented _ result => exact result ▸ he.congr rfl
      | handled hd _ run =>
        have hke : KernelInv (enterSyscall s p n args) := hk.enter hp
        rcases (runHandler_move hke hp run).timers with ht | ⟨-, ha⟩ | ht
        · exact he.congr ht
        · exact (he.add hke.wake ha).congr rfl
        · exact he.internalSchedule hke ht
    · exact (hs.congr rfl : TimersSorted (ticked s p)).internalSchedule hk.ticked ht
    · cases hr with
      | resumed _ same => exact same ▸ hs
      | restarted b _ started => exact hs.congr started.timers

end TimersSorted

end DisastrOS
