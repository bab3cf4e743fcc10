import DisastrOS.Frame

/-! What each part of a handler that returns has done: the conditions it has met and the
state it leaves. The invariants are proved from these lemmas alone. -/
namespace DisastrOS
open BlockPool

namespace Kernel
variable {s s' : Kernel} {l : ProcList} {b : ℕ} {prev : Option ℕ}

theorem insertProc_ok : s.insertProc l prev b = .ok s' ↔ ¬ s.Linked b ∧
    ∃ h, listInsert (s.procs l) prev b = .ok h ∧ s' = s.setProcs l h := by
  unfold insertProc
  split_ifs with hl
  · simp [hl]
  · simp only [bind_ok, hl, not_false_eq_true, true_and, Except.ok.injEq]
    exact exists_congr fun h => and_congr_right fun _ => eq_comm

theorem insertProc_last_ok : s.insertProc l (s.procs l).last b = .ok s' ↔ ¬ s.Linked b ∧
    s' = s.setProcs l ⟨(s.procs l).items ++ [b], (s.procs l).size + 1⟩ := by
  simp only [insertProc_ok, listInsert_last_ok]
  constructor
  · rintro ⟨hl, h, ⟨-, rfl⟩, rfl⟩
    exact ⟨hl, rfl⟩
  · rintro ⟨hl, rfl⟩
    refine ⟨hl, _, ⟨?_, rfl⟩, rfl⟩
    simp only [Linked, not_or] at hl
    cases l <;> tauto

theorem detachProc_ok : s.detachProc l b = .ok s' ↔ b ∈ (s.procs l).items ∧
    s' = s.setProcs l ⟨(s.procs l).items.erase b, (s.procs l).size - 1⟩ := by
  unfold detachProc
  simp only [bind_ok, listDetach_ok, Except.ok.injEq]
  constructor
  · rintro ⟨h, ⟨hb, rfl⟩, rfl⟩
    exact ⟨hb, rfl⟩
  · rintro ⟨hb, rfl⟩
    exact ⟨_, ⟨hb, rfl⟩, rfl⟩

/-- Detaching the first item of a list of PCBs. -/
theorem detachProc_first_ok {rest : List ℕ} (hi : (s.procs l).items = b :: rest) :
    s.detachProc l b = .ok s' ↔ s' = s.setProcs l ⟨rest, (s.procs l).size - 1⟩ := by
  simp [detachProc_ok, hi]

end Kernel

variable {s s' : Kernel} {p q b a i d x : ℕ}

theorem deref_first_ok {h : ListHead} : deref h.first = .ok q ↔ ∃ rest, h.items = q :: rest := by
  rw [deref_ok]
  constructor
  · exact ListHead.first_eq_some
  · rintro ⟨rest, hr⟩
    simp [ListHead.first, hr]

/-! ### The scheduler -/

theorem timerListRemoveCurrent_ok {t t' : TimerTable} :
    timerListRemoveCurrent t = .ok t' ↔ ∃ i rest, t.list.items = i :: rest ∧
      t' = timerItemFree { t with list := ⟨rest, t.list.size - 1⟩ } i := by
  unfold timerListRemoveCurrent
  simp only [bind_ok, deref_first_ok, listDetach_ok, Except.ok.injEq]
  constructor
  · rintro ⟨i, ⟨rest, hr⟩, h, ⟨-, rfl⟩, rfl⟩
    exact ⟨i, rest, hr, by simp [hr]⟩
  · rintro ⟨i, rest, hr, rfl⟩
    exact ⟨i, ⟨rest, hr⟩, _, ⟨by simp [hr], rfl⟩, by simp [hr]⟩

/-- The state after a round of the wake loop. -/
def wokenState (s : Kernel) (b i : ℕ) (ready : ListHead) (rest : List ℕ) : Kernel :=
  ((((s.setProcs .waiting ⟨(s.procs .waiting).items.erase b, (s.procs .waiting).size - 1⟩).setStatus
    b .ready).modPcb b fun c => { c with timer := none }).setProcs .ready ready).setTimers
      (timerItemFree { s.timers with list := ⟨rest, s.timers.list.size - 1⟩ } i)

theorem wakeTimer_ok {prev : Option ℕ} (h : wakeTimer s prev b = .ok s') :
    b ∈ (s.procs .waiting).items ∧ b ∉ (s.procs .ready).items ∧
      b ∉ (s.procs .waiting).items.erase b ∧ b ∉ (s.procs .zombie).items ∧
      ∃ ready i rest, listInsert (s.procs .ready) prev b = .ok ready ∧
        s.timers.list.items = i :: rest ∧ s' = wokenState s b i ready rest := by
  simp only [wakeTimer, bind_ok, Kernel.detachProc_ok, Kernel.insertProc_ok,
    timerListRemoveCurrent_ok, Except.ok.injEq] at h
  obtain ⟨_, ⟨hb, rfl⟩, _, ⟨hl, ready, hr, rfl⟩, _, ⟨i, rest, hi, rfl⟩, rfl⟩ := h
  simp only [Kernel.Linked, not_or, Kernel.setStatus, Kernel.modPcb_procs,
    Kernel.setProcs_procs, reduceCtorEq, if_false, if_true] at hl hr
  exact ⟨hb, hl.1, hl.2.1, hl.2.2, ready, i, rest, hr, hi, rfl⟩

/-- What holds of a state and is kept by every round of the wake loop holds at its end. -/
theorem wakeElapsed_induct {P : Kernel → Prop}
    (hround : ∀ s s' i prev, timerListCurrent s.timers s.time = some i → P s →
      wakeTimer s prev (s.timers.item.cell i).pcb = .ok s' → P s')
    {fuel : ℕ} {prev : Option ℕ} (h : wakeElapsed fuel s prev = .ok s') (h0 : P s) : P s' := by
  induction fuel generalizing s prev with
  | zero => cases h
  | succ fuel ih =>
    simp only [wakeElapsed] at h
    split at h
    · exact Except.ok.inj h ▸ h0
    · rename_i i hi
      obtain ⟨s1, h1, h2⟩ := bind_ok.mp h
      exact ih h2 (hround _ _ _ _ hi h0 h1)

/-- The running process `p` goes to the end of the ready list and its first process `q`,
followed by `rest`, runs. -/
def rotated (s : Kernel) (p q : ℕ) (rest : List ℕ) : Kernel :=
  ((((s.setProcs .ready ⟨rest, (s.procs .ready).size - 1⟩).setStatus p .ready).setProcs .ready
    ⟨rest ++ [p], (s.procs .ready).size - 1 + 1⟩).setStatus q .running).setRunning (some q)

theorem internalSchedule_ok (h : internalSchedule s = .ok s') :
    ∃ s1, wakeElapsed (s.timers.list.items.length + 1) s none = .ok s1 ∧
      ((s1.procs .ready).items = [] ∧ s' = s1 ∨
        ∃ p q rest, s1.running = some p ∧ (s1.procs .ready).items = q :: rest ∧ p ∉ rest ∧
          p ∉ (s1.procs .waiting).items ∧ p ∉ (s1.procs .zombie).items ∧
          s' = rotated s1 p q rest) := by
  obtain ⟨s1, h1, h⟩ := bind_ok.mp h
  refine ⟨s1, h1, ?_⟩
  split at h
  · rename_i hf
    exact Or.inl ⟨ListHead.first_eq_none hf, (Except.ok.inj h).symm⟩
  · rename_i q hf
    obtain ⟨rest, hr⟩ := ListHead.first_eq_some hf
    simp only [bind_ok, Kernel.detachProc_first_ok hr, deref_ok, Kernel.insertProc_last_ok,
      Except.ok.injEq] at h
    obtain ⟨_, rfl, p, hp, _, ⟨hl, rfl⟩, rfl⟩ := h
    simp only [Kernel.Linked, not_or, Kernel.setStatus, Kernel.modPcb_procs,
      Kernel.setProcs_procs, reduceCtorEq, if_false, if_true] at hl
    exact Or.inr ⟨p, q, rest, hp, hr, hl.1, hl.2.1, hl.2.2, by simp [rotated]⟩

/-- The running process `p` goes to the end of the waiting list. -/
def suspended (s : Kernel) (p : ℕ) : Kernel :=
  (s.setStatus p .waiting).setProcs .waiting
    ⟨(s.procs .waiting).items ++ [p], (s.procs .waiting).size + 1⟩

/-- The first ready process `q`, followed by `rest`, runs; its status is left as it is. -/
def dispatched (s : Kernel) (q : ℕ) (rest : List ℕ) : Kernel :=
  (s.setProcs .ready ⟨rest, (s.procs .ready).size - 1⟩).setRunning (some q)

theorem suspend_ok : suspend s p = .ok s' ↔ ¬ s.Linked p ∧ s' = suspended s p := by
  unfold suspend
  have h := @Kernel.insertProc_last_ok (s.setStatus p .waiting) s' .waiting p
  simpa [Kernel.Linked, suspended] using h

theorem suspended_ready : (suspended s p).procs .ready = s.procs .ready := by
  simp [suspended]

theorem waitBlock_ok : waitBlock s p = .ok s' ↔ ¬ s.Linked p ∧
    ∃ q rest, (s.procs .ready).items = q :: rest ∧ s' = dispatched (suspended s p) q rest := by
  simp only [waitBlock, bind_ok, suspend_ok, deref_first_ok, Except.ok.injEq]
  constructor
  · rintro ⟨_, ⟨hl, rfl⟩, q, ⟨rest, hr⟩, _, hd, rfl⟩
    obtain rfl := (Kernel.detachProc_first_ok hr).mp hd
    rw [suspended_ready] at hr
    exact ⟨hl, q, rest, hr, rfl⟩
  · rintro ⟨hl, q, rest, hr, rfl⟩
    rw [← suspended_ready (p := p)] at hr
    exact ⟨_, ⟨hl, rfl⟩, q, ⟨rest, hr⟩, _, (Kernel.detachProc_first_ok hr).mpr rfl, rfl⟩

/-! ### Sleep -/

theorem timerListAdd_ok {t : TimerTable} {time : ℤ} {o : Option TimerTable}
    (h : timerListAdd t time p = .ok o) :
    (o = none ∧ t.item.pool.free = []) ∨
      ∃ i st l, Store.Allocated t.item st i (fun _ => ⟨time, p⟩) ∧ i ∉ t.list.items ∧
        listInsert t.list (timerPrevious t time none t.list.items) i = .ok l ∧
        o = some ⟨l, st⟩ := by
  unfold timerListAdd timerItemAlloc at h
  split at h
  · rename_i hn
    split at hn
    · rename_i ha
      exact Or.inl ⟨(Except.ok.inj h).symm, Store.alloc_eq_none.mp ha⟩
    · cases hn
  · rename_i i t' hs
    split at hs
    · cases hs
    · rename_i j st ha
      obtain ⟨rfl, rfl⟩ := Prod.mk.inj (Option.some.inj hs)
      obtain ⟨l, hl, h⟩ := bind_ok.mp h
      exact Or.inr ⟨j, st, l, Store.alloc_eq_some ha, (listInsert_ok hl).1, hl,
        (Except.ok.inj h).symm⟩

/-- The time at which the sleep that `p` has called ends. -/
def wakeTime (s : Kernel) (p : ℕ) : ℤ := toInt (s.time + toInt ((s.pcb p).syscallArgs 0))

theorem internalSleep_ok (h : internalSleep s = .ok s') :
    ∃ p, s.running = some p ∧
      (((s.pcb p).timer.isSome ∨ s.timers.item.pool.free = []) ∧ s' = s.setRetvalue p dsosEsleep ∨
      ∃ i st l, Store.Allocated s.timers.item st i (fun _ => ⟨wakeTime s p, p⟩) ∧
        listInsert s.timers.list
          (timerPrevious s.timers (wakeTime s p) none s.timers.list.items) i = .ok l ∧
        ¬ s.Linked p ∧
        ((∃ q rest, (s.procs .ready).items = q :: rest ∧
          s' = dispatched (suspended (s.setTimers ⟨l, st⟩) p) q rest) ∨
        (s.procs .ready).items = [] ∧
          s' = (suspended (s.setTimers ⟨l, st⟩) p).setRunning none)) := by
  obtain ⟨p, hp, h⟩ := bind_ok.mp h
  refine ⟨p, deref_ok.mp hp, ?_⟩
  split_ifs at h with ht
  · exact Or.inl ⟨Or.inl ht, (Except.ok.inj h).symm⟩
  obtain ⟨o, ho, h⟩ := bind_ok.mp h
  rcases timerListAdd_ok ho with ⟨rfl, hf⟩ | ⟨i, st, l, ha, -, hl, rfl⟩
  · exact Or.inl ⟨Or.inr hf, (Except.ok.inj h).symm⟩
  right
  obtain ⟨s1, h1, h⟩ := bind_ok.mp h
  obtain ⟨hlk, rfl⟩ := suspend_ok.mp h1
  refine ⟨i, st, l, ha, hl, hlk, ?_⟩
  split at h
  · rename_i q hq
    obtain ⟨rest, hr⟩ := ListHead.first_eq_some hq
    obtain ⟨s2, h2, h⟩ := bind_ok.mp h
    obtain rfl := (Kernel.detachProc_first_ok hr).mp h2
    rw [suspended_ready] at hr
    exact Or.inl ⟨q, rest, hr, (Except.ok.inj h).symm⟩
  · rename_i hq
    have hr := ListHead.first_eq_none hq
    rw [suspended_ready] at hr
    exact Or.inr ⟨hr, (Except.ok.inj h).symm⟩

/-! ### New processes -/

/-- The PCB that spawn and fork give to a child of `p`, with the context `cpu`. -/
def childPCB (c : PCB) (pid : ℤ) (p : ℕ) (cpu : Option ℤ) : PCB :=
  { c with
    pid := pid, returnValue := 0, status := .ready, lastFd := 0, signals := 0
    signalsMask := 0xFFFFFFFF, descriptors := .init, parent := some p, timer := none
    children := .init, lastSemFd := 0, semDescriptors := .init, cpuState := cpu }

/-- What spawn and fork do for the running process `p`: its child is in block `b`, and `q` is
the pointer to it in its children. -/
structure NewChild (s s' : Kernel) (p b q : ℕ) (cpu : Option ℤ) : Prop where
  notLinked : ¬ s.Linked b
  notChild : q ∉ (s.pcb p).children.items
  differ : p ≠ b
  fresh : ¬ s.pcbs.InUse b
  inUse : ∀ k, s'.pcbs.InUse k ↔ s.pcbs.InUse k ∨ k = b
  size : s'.pcbs.pool.sizeMax = s.pcbs.pool.sizeMax
  freshPtr : ¬ s.pcbPtrs.InUse q
  inUsePtr : ∀ k, s'.pcbPtrs.InUse k ↔ s.pcbPtrs.InUse k ∨ k = q
  sizePtr : s'.pcbPtrs.pool.sizeMax = s.pcbPtrs.pool.sizeMax
  cellPtr : ∀ k, s'.pcbPtrs.cell k = if k = q then ⟨b⟩ else s.pcbPtrs.cell k
  pcb : ∀ k, s'.pcb k =
    if k = b then childPCB (s.pcb k) s.lastPid p cpu
    else if k = p then { s.pcb k with
      children := ⟨(s.pcb p).children.items ++ [q], (s.pcb p).children.size + 1⟩
      syscallRetvalue := s.lastPid }
    else s.pcb k
  procs : ∀ l, s'.procs l = if l = .ready then
    ⟨(s.procs .ready).items ++ [b], (s.procs .ready).size + 1⟩ else s.procs l
  lastPid : s'.lastPid = toInt (s.lastPid + 1)
  running : s'.running = s.running
  initPcb : s'.initPcb = s.initPcb
  time : s'.time = s.time
  timers : s'.timers = s.timers
  resources : s'.resources = s.resources
  sems : s'.sems = s.sems
  memory : s'.memory = s.memory
  trace : s'.trace = .assigned p s.lastPid :: .created s.lastPid :: s.trace

theorem pcbAlloc_ok {o : Option ℕ} (h : pcbAlloc s = .ok (o, s')) :
    ∃ b t, o = some b ∧ Store.Allocated s.pcbs t b (fun c => { c with
        pid := s.lastPid, returnValue := 0, status := .invalid, lastFd := 0, signals := 0
        signalsMask := 0xFFFFFFFF, descriptors := .init, parent := none, timer := none
        children := .init, lastSemFd := 0, semDescriptors := .init }) ∧
      s' = { s with pcbs := t, lastPid := toInt (s.lastPid + 1),
                    trace := .created s.lastPid :: s.trace } := by
  unfold pcbAlloc at h
  split at h
  · cases h
  · rename_i b t ha
    obtain ⟨rfl, rfl⟩ := Prod.mk.inj (Except.ok.inj h)
    exact ⟨b, t, rfl, Store.alloc_eq_some ha, rfl⟩

theorem pcbPtrAlloc_ok {o : Option ℕ} (h : pcbPtrAlloc s b = .ok (o, s')) :
    ∃ q t, o = some q ∧ Store.Allocated s.pcbPtrs t q (fun _ => ⟨b⟩) ∧
      s' = { s with pcbPtrs := t } := by
  unfold pcbPtrAlloc at h
  split at h
  · cases h
  · rename_i q t ha
    obtain ⟨rfl, rfl⟩ := Prod.mk.inj (Except.ok.inj h)
    exact ⟨q, t, rfl, Store.alloc_eq_some ha, rfl⟩

theorem newChild_ok {o : Option ℕ} (hp : s.running = some p) (hu : s.pcbs.InUse p)
    (h : newChild s = .ok (o, s')) :
    ∃ b q, o = some b ∧ NewChild s s' p b q (s.pcb b).cpuState := by
  obtain ⟨p', hp', h⟩ := bind_ok.mp h
  rw [deref_ok, hp] at hp'
  obtain rfl := Option.some.inj hp'
  obtain ⟨⟨o1, s1⟩, h1, h⟩ := bind_ok.mp h
  obtain ⟨b, t, rfl, hb, rfl⟩ := pcbAlloc_ok h1
  obtain ⟨⟨o2, s2⟩, h2, h⟩ := bind_ok.mp h
  obtain ⟨q, u, rfl, hq, rfl⟩ := pcbPtrAlloc_ok h2
  obtain ⟨l, hl, h⟩ := bind_ok.mp h
  obtain ⟨s3, h3, h⟩ := bind_ok.mp h
  obtain ⟨rfl, rfl⟩ := Prod.mk.inj (Except.ok.inj h)
  obtain ⟨hn, rfl⟩ := listInsert_last_ok.mp hl
  obtain ⟨hlk, rfl⟩ := Kernel.insertProc_last_ok.mp h3
  have hpb : p ≠ b := fun he => hb.fresh (he ▸ hu)
  have hcell : ∀ k, t.cell k = _ := hb.cell
  simp only [Kernel.pcb, hcell, hpb, if_false, Kernel.setStatus, Kernel.modPcb_pcbs,
    Store.modify_cell] at hn
  refine ⟨b, q, rfl, ?_⟩
  constructor
  case pcb =>
    intro k
    by_cases hk : k = b
    · subst hk
      simp [Kernel.pcb, hcell, hpb.symm, childPCB]
    · by_cases hkp : k = p
      · subst hkp
        simp [Kernel.pcb, hcell, hpb]
      · simp [Kernel.pcb, hcell, hk, hkp]
  case notLinked => simpa [Kernel.Linked] using hlk
  case notChild => exact hn
  case differ => exact hpb
  case fresh => exact hb.fresh
  case inUse => exact hb.inUse
  case size => exact hb.sizeMax
  case freshPtr => exact hq.fresh
  case inUsePtr => exact hq.inUse
  case sizePtr => exact hq.sizeMax
  case cellPtr => exact hq.cell
  case procs => simp
  case trace => simp [Kernel.pcb, hcell, hpb.symm]
  all_goals rfl

theorem NewChild.setContext {cpu : Option ℤ} (c : NewChild s s' p b q cpu) :
    NewChild s (s'.modPcb b fun c => { c with cpuState := some c.pid }) p b q (some s.lastPid) :=
  { c with
    pcb := by
      intro k
      by_cases hk : k = b
      · subst hk
        simp [c.pcb, childPCB]
      · simp [c.pcb, hk]
    }

theorem internalFork_ok (hp : s.running = some p) (hu : s.pcbs.InUse p)
    (h : internalFork s = .ok s') : ∃ b q, NewChild s s' p b q (s.pcb b).cpuState := by
  obtain ⟨⟨o, s1⟩, h1, h⟩ := bind_ok.mp h
  obtain ⟨b, q, -, hc⟩ := newChild_ok hp hu h1
  exact ⟨b, q, Except.ok.inj h ▸ hc⟩

theorem internalSpawn_ok (hp : s.running = some p) (hu : s.pcbs.InUse p)
    (h : internalSpawn s = .ok s') : ∃ b q, NewChild s s' p b q (some s.lastPid) := by
  obtain ⟨⟨o, s1⟩, h1, h⟩ := bind_ok.mp h
  obtain ⟨b, q, rfl, hc⟩ := newChild_ok hp hu h1
  exact ⟨b, q, Except.ok.inj h ▸ hc.setContext⟩

/-- The PCB that `disastrOS_start` gives to the first process. -/
def firstPCB (c : PCB) (pid : ℤ) : PCB :=
  { c with
    pid := pid, returnValue := 0, status := .running, lastFd := 0, signals := 0
    signalsMask := 0xFFFFFFFF, descriptors := .init, parent := none, timer := none
    children := .init, lastSemFd := 0, semDescriptors := .init, cpuState := some pid }

/-- What `disastrOS_start` does behind the `getcontext` of `main_context`: init, in block `b`,
runs. -/
structure Started (s s' : Kernel) (b : ℕ) : Prop where
  free : ∃ l, s.pcbs.pool.free = b :: l
  fresh : ¬ s.pcbs.InUse b
  inUse : ∀ k, s'.pcbs.InUse k ↔ s.pcbs.InUse k ∨ k = b
  size : s'.pcbs.pool.sizeMax = s.pcbs.pool.sizeMax
  pcb : ∀ k, s'.pcb k = if k = b then firstPCB (s.pcb k) s.lastPid else s.pcb k
  running : s'.running = some b
  initPcb : s'.initPcb = some b
  lastPid : s'.lastPid = toInt (s.lastPid + 1)
  procs : ∀ l, s'.procs l = s.procs l
  time : s'.time = s.time
  pcbPtrs : s'.pcbPtrs = s.pcbPtrs
  timers : s'.timers = s.timers
  resources : s'.resources = s.resources
  sems : s'.sems = s.sems
  memory : s'.memory = s.memory
  trace : s'.trace = .created s.lastPid :: s.trace

theorem startFirst_ok (h : startFirst s = .ok s') : ∃ b, Started s s' b := by
  obtain ⟨⟨o, s1⟩, h1, h⟩ := bind_ok.mp h
  obtain ⟨b, t, rfl, hb, rfl⟩ := pcbAlloc_ok h1
  obtain ⟨b', hb', h⟩ := bind_ok.mp h
  obtain rfl : b = b' := Option.some.inj (deref_ok.mp hb')
  obtain rfl := Except.ok.inj h
  refine ⟨b, ?_⟩
  constructor
  case free => exact ⟨_, hb.free⟩
  case fresh => exact hb.fresh
  case inUse => exact hb.inUse
  case size => exact hb.sizeMax
  case pcb =>
    intro k
    by_cases hk : k = b
    · subst hk
      simp [Kernel.pcb, hb.cell, firstPCB]
    · simp [Kernel.pcb, hb.cell, hk]
  all_goals intros
  all_goals rfl

/-- A process that has nothing open has come up in block `b`. -/
structure NewProcess (s s' : Kernel) (b : ℕ) : Prop where
  fresh : ¬ s.pcbs.InUse b
  inUse : ∀ k, s'.pcbs.InUse k ↔ s.pcbs.InUse k ∨ k = b
  size : s'.pcbs.pool.sizeMax = s.pcbs.pool.sizeMax
  lastPid : s'.lastPid = toInt (s.lastPid + 1)
  pid : ∀ k, (s'.pcb k).pid = if k = b then s.lastPid else (s.pcb k).pid
  returnValue : ∀ k, (s'.pcb k).returnValue = if k = b then 0 else (s.pcb k).returnValue
  timer : ∀ k, (s'.pcb k).timer = if k = b then none else (s.pcb k).timer
  lastFd : ∀ k, (s'.pcb k).lastFd = if k = b then 0 else (s.pcb k).lastFd
  descriptors : ∀ k, (s'.pcb k).descriptors = if k = b then .init else (s.pcb k).descriptors
  lastSemFd : ∀ k, (s'.pcb k).lastSemFd = if k = b then 0 else (s.pcb k).lastSemFd
  semDescriptors : ∀ k, (s'.pcb k).semDescriptors =
    if k = b then .init else (s.pcb k).semDescriptors
  time : s'.time = s.time
  timers : s'.timers = s.timers
  resources : s'.resources = s.resources
  sems : s'.sems = s.sems
  memory : s'.memory = s.memory
  zombies : s'.procs .zombie = s.procs .zombie
  waiting : s'.procs .waiting = s.procs .waiting
  history : history s'.trace = .created s.lastPid :: history s.trace

theorem NewChild.newProcess {cpu : Option ℤ} (c : NewChild s s' p b q cpu) :
    NewProcess s s' b := by
  constructor
  case fresh => exact c.fresh
  case inUse => exact c.inUse
  case size => exact c.size
  case lastPid => exact c.lastPid
  case time => exact c.time
  case timers => exact c.timers
  case resources => exact c.resources
  case sems => exact c.sems
  case memory => exact c.memory
  case zombies => simp [c.procs]
  case waiting => simp [c.procs]
  case history =>
    rw [c.trace]
    rfl
  all_goals
    intro k
    rw [c.pcb]
    by_cases hk : k = b <;> simp [hk, childPCB]

theorem Started.newProcess (c : Started s s' b) : NewProcess s s' b := by
  constructor
  case fresh => exact c.fresh
  case inUse => exact c.inUse
  case size => exact c.size
  case lastPid => exact c.lastPid
  case time => exact c.time
  case timers => exact c.timers
  case resources => exact c.resources
  case sems => exact c.sems
  case memory => exact c.memory
  case zombies => exact c.procs .zombie
  case waiting => exact c.procs .waiting
  case history =>
    rw [c.trace]
    rfl
  all_goals
    intro k
    rw [c.pcb]
    by_cases hk : k = b <;> simp [hk, firstPCB]

end DisastrOS
