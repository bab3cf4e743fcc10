import DisastrOS.Fairness
import DisastrOS.Blocking

/-! The life of a process: where its block is, and every way in which that changes. -/
namespace DisastrOS
open BlockPool TransitionSystem

inductive Place
  | free
  | running
  | ready
  | waiting
  | zombie
  deriving DecidableEq, Repr

def place (s : Kernel) (b : ℕ) : Place :=
  if s.running = some b then .running
  else if b ∈ (s.procs .ready).items then .ready
  else if b ∈ (s.procs .waiting).items then .waiting
  else if b ∈ (s.procs .zombie).items then .zombie
  else .free

variable {s t u : Kernel} {p q a b c i x w : ℕ} {rest : List ℕ} {act : Action} {args : List ℤ}

theorem place_congr (hrun : t.running = some b ↔ s.running = some b)
    (hprocs : ∀ l, b ∈ (t.procs l).items ↔ b ∈ (s.procs l).items) : place t b = place s b := by
  simp only [place, hrun, hprocs]

theorem place_running (hp : s.running = some p) : place s p = .running := by
  simp [place, hp]

def ProcList.place : ProcList → Place
  | .ready => .ready
  | .waiting => .waiting
  | .zombie => .zombie

namespace ProcInv

theorem place_of_mem (h : ProcInv s) {l : ProcList} (hb : b ∈ (s.procs l).items) :
    place s b = l.place := by
  have hrun : s.running ≠ some b := fun hr => h.running_ne hr hb rfl
  have hother : ∀ l', l' ≠ l → b ∉ (s.procs l').items := fun l' hl hm => hl (h.disjoint hm hb)
  cases l with
  | ready => simp [DisastrOS.place, ProcList.place, hrun, hb]
  | waiting => simp [DisastrOS.place, ProcList.place, hrun, hb, hother .ready (by decide)]
  | zombie =>
    simp [DisastrOS.place, ProcList.place, hrun, hb, hother .ready (by decide),
      hother .waiting (by decide)]

theorem place_free (h : ProcInv s) (hb : ¬ s.pcbs.InUse b) : place s b = .free := by
  have hrun : s.running ≠ some b := fun hr => hb (h.inUse_of_running hr)
  have hnot : ∀ l, b ∉ (s.procs l).items := fun l hm => hb (h.inUse_of_mem hm)
  simp [DisastrOS.place, hrun, hnot]

/-! ### Where the moves put the processes -/

theorem place_frame (hs : SameProcesses s t) (b : ℕ) : place t b = place s b :=
  place_congr (by rw [hs.running]) fun l => by rw [hs.procs]

theorem place_newChild {cpu : Option ℤ} (ht : ProcInv t) (hc : NewChild s t p b q cpu) (k : ℕ) :
    place t k = if k = b then .ready else place s k := by
  split_ifs with hk
  · subst hk
    exact ht.place_of_mem (l := .ready) (by simp [hc.procs])
  · refine place_congr (by rw [hc.running]) fun l => ?_
    rw [hc.procs]
    split_ifs with hl
    · subst hl
      simp [hk]
    · rfl

theorem place_started (hidle : s.running = none) (hc : Started s t b) (k : ℕ) :
    place t k = if k = b then .running else place s k := by
  split_ifs with hk
  · exact place_running (hk ▸ hc.running)
  · refine place_congr ?_ fun l => by rw [hc.procs]
    simp [hc.running, hidle, Ne.symm hk]

/-- The process `p` that ran waits, and the first ready process runs. -/
theorem place_dispatched (ht : ProcInv t) (hp : s.running = some p)
    (hr : (s.procs .ready).items = q :: rest) (hrun : t.running = some q)
    (hready : (t.procs .ready).items = rest)
    (hwaiting : (t.procs .waiting).items = (s.procs .waiting).items ++ [p])
    (hzombie : (t.procs .zombie).items = (s.procs .zombie).items) (k : ℕ) :
    place t k = if k = p then .waiting else if k = q then .running else place s k := by
  split_ifs with hkp hkq
  · exact ht.place_of_mem (l := .waiting) (by simp [hwaiting, hkp])
  · exact place_running (hkq ▸ hrun)
  · refine place_congr ?_ fun l => ?_
    · simp [hrun, hp, Ne.symm hkp, Ne.symm hkq]
    · cases l <;> simp [hready, hwaiting, hzombie, hr, hkp, hkq]

theorem place_idle (ht : ProcInv t) (hp : s.running = some p) (hrun : t.running = none)
    (hready : (t.procs .ready).items = (s.procs .ready).items)
    (hwaiting : (t.procs .waiting).items = (s.procs .waiting).items ++ [p])
    (hzombie : (t.procs .zombie).items = (s.procs .zombie).items) (k : ℕ) :
    place t k = if k = p then .waiting else place s k := by
  split_ifs with hkp
  · exact ht.place_of_mem (l := .waiting) (by simp [hwaiting, hkp])
  · refine place_congr ?_ fun l => ?_
    · simp [hrun, hp, Ne.symm hkp]
    · cases l <;> simp [hready, hwaiting, hzombie, hkp]

theorem place_rotated (h : ProcInv s) (hp : s.running = some p)
    (hr : (s.procs .ready).items = q :: rest) (k : ℕ) :
    place (DisastrOS.rotated s p q rest) k =
      if k = p then .ready else if k = q then .running else place s k := by
  have ht := h.rotated hp hr
  split_ifs with hkp hkq
  · exact ht.place_of_mem (l := .ready) (by simp [hkp, DisastrOS.rotated])
  · exact place_running (by simp [hkq, DisastrOS.rotated])
  · refine place_congr ?_ fun l => ?_
    · simp [DisastrOS.rotated, hp, Ne.symm hkp, Ne.symm hkq]
    · cases l <;> simp [DisastrOS.rotated, hr, hkp, hkq]

theorem place_resumed {sig : ℕ → BitVec 32}
    (ht : ProcInv (DisastrOS.resumed (zombified s p i sig) q rest)) (hp : s.running = some p)
    (hr : (s.procs .ready).items = q :: rest) (k : ℕ) :
    place (DisastrOS.resumed (zombified s p i sig) q rest) k =
      if k = p then .zombie else if k = q then .running else place s k := by
  split_ifs with hkp hkq
  · exact ht.place_of_mem (l := .zombie) (by simp [hkp, DisastrOS.resumed, zombified])
  · exact place_running (by simp [hkq, DisastrOS.resumed])
  · refine place_congr ?_ fun l => ?_
    · simp [DisastrOS.resumed, hp, Ne.symm hkp, Ne.symm hkq]
    · cases l <;> simp [DisastrOS.resumed, zombified, hr, hkp, hkq]

theorem place_reclaimed {sig : ℕ → BitVec 32} {l : ListHead} {r : ResourceTable}
    (ht : ProcInv t) (hp : s.running = some p)
    (result : t = reclaimed (((handedToParent (zombified s p i sig) p a q).modPcb p
      fun c => { c with descriptors := l }).setResources r) p a) (k : ℕ) :
    place t k = if k = p then .free else if k = a then .running else place s k := by
  split_ifs with hkp hka
  · refine ht.place_free ?_
    subst result
    simp [hkp, reclaimed]
  · subst result
    exact place_running (by simp [hka, reclaimed])
  · subst result
    refine place_congr ?_ fun l => ?_
    · simp [reclaimed, hp, Ne.symm hkp, Ne.symm hka]
    · have hz : k ∈ ((s.procs .zombie).items ++ [p]).erase p ↔ k ∈ (s.procs .zombie).items := by
        rw [List.mem_erase_of_ne hkp]
        simp [hkp]
      cases l <;> simp [reclaimed, handedToParent, zombified, hz, List.mem_erase_of_ne hka]

theorem place_reaped (ht : ProcInv (DisastrOS.reaped s p q b)) (k : ℕ) :
    place (DisastrOS.reaped s p q b) k = if k = b then .free else place s k := by
  split_ifs with hkb
  · exact ht.place_free (by simp [hkb, DisastrOS.reaped])
  · refine place_congr (by simp [DisastrOS.reaped]) fun l => ?_
    cases l <;> simp [DisastrOS.reaped, List.mem_erase_of_ne hkb]

theorem place_semWoken (ht : ProcInv ((semWoken s x w b).setRetvalue p 0)) (k : ℕ) :
    place ((semWoken s x w b).setRetvalue p 0) k = if k = b then .ready else place s k := by
  split_ifs with hkb
  · exact ht.place_of_mem (l := .ready) (by simp [hkb, semWoken])
  · refine place_congr (by simp [semWoken, semSet]) fun l => ?_
    cases l <;> simp [semWoken, hkb, List.mem_erase_of_ne hkb]

end ProcInv

theorem Elapsed.place {E : List ℕ} (h : Elapsed s t [] E (s.procs .ready).items) (ht : ProcInv t)
    (k : ℕ) : place t k = if k ∈ E.map (sleeper s) then .ready else place s k := by
  split_ifs with hk
  · refine ht.place_of_mem (l := .ready) ?_
    rw [h.ready]
    exact List.mem_append_left _ hk
  · refine place_congr (by rw [h.running]) fun l => ?_
    cases l with
    | ready =>
      rw [h.ready]
      simp only [List.nil_append, List.mem_append, hk, false_or]
    | waiting =>
      rw [h.waiting]
      simp only [List.mem_filter, hk, not_false_eq_true, decide_true, and_true]
    | zombie => rw [h.zombie]

/-! ### The transitions -/

/-- The ways in which the step `act` from `s` to `t` can change the place of the block `b`. -/
inductive LifeEdge (s t : Kernel) (b : ℕ) : Action → Place → Place → Prop
  | stays (act : Action) (pl : Place) : LifeEdge s t b act pl pl
  | born (hd : Handler) (args : List ℤ) (handler : hd = .spawn ∨ hd = .fork) :
      LifeEdge s t b (.syscall hd.number args) .free .ready
  /-- Nobody runs, and it becomes another first process. -/
  | started (idle : s.running = none) (init : t.initPcb = some b) :
      LifeEdge s t b .returnToProcess .free .running
  /-- Another process runs, the one that was first. -/
  | preempted (act : Action) (scheduler : callsScheduler act = true) :
      LifeEdge s t b act .running .ready
  | turn (act : Action) (scheduler : callsScheduler act = true)
      (first : (s.procs .ready).items.head? = some b) : LifeEdge s t b act .ready .running
  /-- Its timer has elapsed, and it runs if it is the first. -/
  | wakes (act : Action) (pl : Place) (scheduler : callsScheduler act = true) (i : ℕ)
      (timer : i ∈ s.timers.list.items) (sleeps : sleeper s i = b)
      (due : awakeningTime s i ≤ t.time) (woken : pl = .ready ∨ pl = .running) :
      LifeEdge s t b act .waiting pl
  | blocks (hd : Handler) (args : List ℤ) (handler : hd = .sleep ∨ hd = .wait ∨ hd = .semWait) :
      LifeEdge s t b (.syscall hd.number args) .running .waiting
  | next (hd : Handler) (args : List ℤ)
      (handler : hd = .sleep ∨ hd = .wait ∨ hd = .semWait ∨ hd = .exit)
      (first : (s.procs .ready).items.head? = some b) :
      LifeEdge s t b (.syscall hd.number args) .ready .running
  | posted (args : List ℤ) (x w : ℕ) (rest : List ℕ) (queued : queue s x = w :: rest)
      (waits : waiter s w = b) : LifeEdge s t b (.syscall dsosCallSempost args) .waiting .ready
  | exits (args : List ℤ) : LifeEdge s t b (.syscall dsosCallExit args) .running .zombie
  /-- The parent waits for it. -/
  | handed (args : List ℤ) (a : ℕ) (running : s.running = some b) (parent : (s.pcb b).parent = some a)
      (waits : WaitsFor s a b) :
      LifeEdge s t b (.syscall dsosCallExit args) .running .free
  | collects (args : List ℤ) (p : ℕ) (running : s.running = some p)
      (parent : (s.pcb p).parent = some b) (waits : WaitsFor s b p) :
      LifeEdge s t b (.syscall dsosCallExit args) .waiting .running
  | collected (args : List ℤ) (p q : ℕ) (running : s.running = some p) (entry : q ∈ children s p)
      (zombie : child s q = b) : LifeEdge s t b (.syscall dsosCallWait args) .zombie .free

/-- What a call of the scheduler does to the place of a block. -/
theorem internalSchedule_edge (h : KernelInv s) (hs : internalSchedule s = .ok t)
    (hact : callsScheduler act = true) (b : ℕ) : LifeEdge s t b act (place s b) (place t b) := by
  have htime : t.time = s.time := internalSchedule_time h hs
  obtain ⟨u, hu, hcase⟩ := internalSchedule_ok hs
  have hel := wakeElapsed_elapsed h hu
  have hpu : ProcInv u := h.proc.wakeElapsed hu
  have hplace := hel.place hpu b
  have hwakes : b ∈ (elapsed s).map (sleeper s) → ∀ pl, pl = .ready ∨ pl = .running →
      LifeEdge s t b act (place s b) pl := by
    intro hb pl hpl
    obtain ⟨i, hi, hib⟩ := List.mem_map.mp hb
    have hmem : i ∈ s.timers.list.items := hel.timers ▸ List.mem_append_left _ hi
    rw [h.proc.place_of_mem (l := .waiting) (hib ▸ (h.wake.sleeping i hmem).1)]
    exact .wakes act pl hact i hmem hib (htime ▸ elapsed_due hi) hpl
  have hu : ∀ pl, pl = place u b → LifeEdge s t b act (place s b) pl := by
    rintro pl rfl
    rw [hplace]
    split_ifs with hb
    · exact hwakes hb .ready (Or.inl rfl)
    · exact .stays act _
  rcases hcase with ⟨-, rfl⟩ | ⟨p, q, rest, hp, hr, -, -, -, rfl⟩
  · exact hu _ rfl
  rw [hpu.place_rotated hp hr]
  split_ifs with hbp hbq
  · rw [hbp, place_running (hel.running ▸ hp)]
    exact .preempted act hact
  · by_cases hb : b ∈ (elapsed s).map (sleeper s)
    · exact hwakes hb .running (Or.inr rfl)
    · -- nobody has been woken, otherwise the first would be one of these
      rw [hel.ready, List.nil_append] at hr
      cases hw : (elapsed s).map (sleeper s) with
      | nil =>
        have hr : (s.procs .ready).items = b :: rest := by rw [hbq, ← hr, hw, List.nil_append]
        rw [h.proc.place_of_mem (l := .ready) (by simp [hr])]
        exact .turn act hact (by simp [hr])
      | cons k ks =>
        rw [hw, List.cons_append] at hr
        rw [hw, hbq, (List.cons.inj hr).1] at hb
        exact absurd List.mem_cons_self hb
  · exact hu _ rfl

theorem HandlerMove.edge {hd : Handler} (h : KernelInv s) (ht : ProcInv t)
    (hp : s.running = some p) (hm : HandlerMove s t p hd) (b : ℕ) :
    LifeEdge s t b (.syscall hd.number args) (place s b) (place t b) := by
  have hrun := place_running hp
  have hfirst : ∀ {q rest}, (s.procs .ready).items = q :: rest → place s q = .ready ∧
      (s.procs .ready).items.head? = some q := fun hr =>
    ⟨h.proc.place_of_mem (l := .ready) (by simp [hr]), by simp [hr]⟩
  have hblocks : ∀ {q rest}, hd = .sleep ∨ hd = .wait ∨ hd = .semWait →
      (s.procs .ready).items = q :: rest → t.running = some q → (t.procs .ready).items = rest →
      (t.procs .waiting).items = (s.procs .waiting).items ++ [p] →
      (t.procs .zombie).items = (s.procs .zombie).items →
      LifeEdge s t b (.syscall hd.number args) (place s b) (place t b) := by
    intro q rest hhd hr hrunT hready hwaiting hzombie
    rw [ProcInv.place_dispatched ht hp hr hrunT hready hwaiting hzombie]
    split_ifs with hbp hbq
    · rw [hbp, hrun]
      exact .blocks hd args hhd
    · rw [hbq, (hfirst hr).1]
      exact .next hd args (by tauto) (hfirst hr).2
    · exact .stays _ _
  cases hm with
  | same same =>
    rw [ProcInv.place_frame same]
    exact .stays _ _
  | fork c q created | spawn c q created =>
    rw [ProcInv.place_newChild ht created]
    split_ifs with hb
    · rw [hb, h.proc.place_free created.fresh]
      exact .born _ args (by decide)
    · exact .stays _ _
  | preempt scheduled => exact internalSchedule_edge h scheduled rfl b
  | sleep timers q rest noTimer added ready result =>
    subst result
    exact hblocks (by decide) ready rfl (by simp [dispatched]) (by simp [dispatched, suspended])
      (by simp [dispatched, suspended])
  | idle timers noTimer added ready result =>
    subst result
    rw [ProcInv.place_idle ht hp rfl (by simp [suspended]) (by simp [suspended])
      (by simp [suspended])]
    split_ifs with hbp
    · rw [hbp, hrun]
      exact .blocks .sleep args (by decide)
    · exact .stays _ _
  | collect q asked zombie result =>
    subst result
    rw [ProcInv.place_reaped ht]
    split_ifs with hb
    · by_cases hu : s.pcbs.InUse b
      · have hz := (h.proc.zombie b hu).mp (hb ▸ zombie)
        rw [h.proc.place_of_mem (l := .zombie) hz]
        exact .collected args p q hp (awaitedPtr_mem asked) hb.symm
      · rw [h.proc.place_free hu]
        exact .stays _ _
    · exact .stays _ _
  | wait q rest c asked alive ready result =>
    subst result
    exact hblocks (by decide) ready rfl (by simp [dispatched]) (by simp [dispatched, suspended])
      (by simp [dispatched, suspended])
  | exitNext a i q sig rest parent init differ noWaiter ready result =>
    subst result
    rw [ProcInv.place_resumed ht hp ready]
    split_ifs with hbp hbq
    · rw [hbp, hrun]
      exact .exits args
    · rw [hbq, (hfirst ready).1]
      exact .next .exit args (by decide) (hfirst ready).2
    · exact .stays _ _
  | exitParent a i q sig l r parent init differ waits waiting result =>
    rw [ProcInv.place_reclaimed ht hp result]
    split_ifs with hbp hba
    · rw [hbp, hrun]
      exact .handed args a hp parent waits
    · rw [hba, h.proc.place_of_mem (l := .waiting) waiting]
      exact .collects args p hp parent waits
    · exact .stays _ _
  | semWait d x w q rest found semaphore waitPtr count ready result =>
    subst result
    exact hblocks (by decide) ready rfl (by simp [dispatched]) (by simp [dispatched, suspended])
      (by simp [dispatched, suspended])
  | semPost d x w c rest found semaphore count queued process waiting result =>
    subst result
    rw [ProcInv.place_semWoken ht]
    split_ifs with hb
    · rw [hb, h.proc.place_of_mem (l := .waiting) waiting]
      exact .posted args x w rest queued process
    · exact .stays _ _

/-- The edge is one of the state before the call was entered, or before the clock went on. -/
theorem LifeEdge.before {pl pl' : Place} (he : LifeEdge u t b act pl pl')
    (hrun : u.running = s.running) (hready : u.procs .ready = s.procs .ready)
    (htimers : u.timers = s.timers) (hsems : u.sems = s.sems) (hptrs : u.pcbPtrs = s.pcbPtrs)
    (hparent : ∀ k, (u.pcb k).parent = (s.pcb k).parent)
    (hchildren : ∀ k, (u.pcb k).children = (s.pcb k).children)
    (hwaits : ∀ a p, s.running = some p → WaitsFor u a p → WaitsFor s a p) :
    LifeEdge s t b act pl pl' := by
  cases he with
  | stays => exact .stays _ _
  | born hd args handler => exact .born hd args handler
  | started idle init => exact .started (hrun ▸ idle) init
  | preempted _ scheduler => exact .preempted _ scheduler
  | turn _ scheduler first => exact .turn _ scheduler (hready ▸ first)
  | wakes _ _ scheduler i timer sleeps due woken =>
    rw [sleeper, htimers] at sleeps
    rw [awakeningTime, htimers] at due
    exact .wakes _ _ scheduler i (htimers ▸ timer) sleeps due woken
  | blocks hd args handler => exact .blocks hd args handler
  | next hd args handler first => exact .next hd args handler (hready ▸ first)
  | posted args x w rest queued waits =>
    rw [queue, hsems] at queued
    rw [waiter, hsems] at waits
    exact .posted args x w rest queued waits
  | exits args => exact .exits args
  | handed args a running parent waits =>
    exact .handed args a (hrun ▸ running) (hparent b ▸ parent) (hwaits a b (hrun ▸ running) waits)
  | collects args p running parent waits =>
    exact .collects args p (hrun ▸ running) (hparent p ▸ parent)
      (hwaits b p (hrun ▸ running) waits)
  | collected args p q running entry zombie =>
    rw [children, hchildren] at entry
    rw [child, hptrs] at zombie
    exact .collected args p q (hrun ▸ running) entry zombie

theorem step_edge (hk : KernelInv s) (hs : kernel.step s act = .ok t) (b : ℕ) :
    LifeEdge s t b act (place s b) (place t b) := by
  have ht : ProcInv t := (hk.step hs).proc
  rcases step_ok hs with ⟨p, n, args, hp, rfl, hr⟩ | ⟨p, hp, rfl, hsched⟩ | ⟨rfl, hr⟩
  · have hplace : place (enterSyscall s p n args) b = place s b := rfl
    cases hr with
    | outOfRange range same =>
      subst same
      exact .stays _ _
    | notImplemented none result =>
      subst result
      rw [ProcInv.place_frame (.setRetvalue _ p _), hplace]
      exact .stays _ _
    | handled hd number run =>
      subst number
      have hke : KernelInv (enterSyscall s p hd.number args) := hk.enter hp
      have he : LifeEdge (enterSyscall s p hd.number args) t b (.syscall hd.number args)
          (place (enterSyscall s p hd.number args) b) (place t b) :=
        (runHandler_move hke hp run).edge hke ht hp b
      rw [hplace] at he
      refine he.before rfl rfl rfl rfl rfl (fun k => by simp [enterSyscall])
        (fun k => by simp [enterSyscall]) fun a q hq hw => ?_
      obtain rfl : p = q := Option.some.inj (hp.symm.trans hq)
      refine (waitsFor_enterSyscall fun hap => ?_).mp hw
      exact hke.not_waiting hp (hap ▸ (hke.proc.waiting a).mp hw.1)
  · have he : LifeEdge (ticked s p) t b .tick (place s b) (place t b) :=
      internalSchedule_edge hk.ticked hsched rfl b
    refine he.before rfl rfl rfl rfl rfl (fun k => ?_) (fun k => ?_) fun a q _ hw => ?_
    · rw [pcb_ticked]
      split_ifs <;> rfl
    · rw [pcb_ticked]
      split_ifs <;> rfl
    · simpa [WaitsFor, apply_ite] using hw
  · cases hr with
    | resumed _ same =>
      subst same
      exact .stays _ _
    | restarted c idle started =>
      rw [ProcInv.place_started idle started]
      split_ifs with hb
      · subst hb
        rw [hk.proc.place_free started.fresh]
        exact .started idle started.initPcb
      · exact .stays _ _

/-- In every step of every run a process changes its place only in one of these ways. -/
theorem life_cycle (h : kernel.Reachable s) (hs : kernel.step s act = .ok t) (b : ℕ) :
    LifeEdge s t b act (place s b) (place t b) := step_edge (.reachable h) hs b

/-- A child exits for which its parent waits. -/
theorem life_cycle_handed :
    let s := kernel.replay [.syscall dsosCallSpawn [0, 0], .syscall dsosCallWait [0, 0]]
    place s 0 = .waiting ∧ place s 1 = .running ∧ ∃ t,
      kernel.step s (.syscall dsosCallExit [3]) = .ok t ∧ place t 0 = .running ∧
        place t 1 = .free ∧
          LifeEdge s t 0 (.syscall dsosCallExit [3]) (place s 0) (place t 0) := by
  have hs : kernel.failure (kernel.replay [.syscall dsosCallSpawn [0, 0],
      .syscall dsosCallWait [0, 0]]) (.syscall dsosCallExit [3]) = none := by
    decide +kernel
  refine ⟨by decide +kernel, by decide +kernel, _, System.step_replayFrom hs, by decide +kernel,
    by decide +kernel, ?_⟩
  exact life_cycle (System.reachable_replay _) (System.step_replayFrom hs) 0

end DisastrOS
