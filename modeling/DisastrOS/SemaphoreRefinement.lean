import DisastrOS.SemaphoreCounts
import DisastrOS.CountingSemaphore

/-! The semaphores of the kernel are counting semaphores whose waiters queue up. -/
namespace DisastrOS
open BlockPool TransitionSystem CountingSemaphore

variable {s t u : Kernel} {p q b w x y : ℕ} {act : Action} {args : List ℤ} {A : Table ℤ ℤ}

def semId (s : Kernel) (x : ℕ) : ℤ := (s.sems.semaphore.cell x).id

/-- The pids of the processes that wait for the semaphore `x`, in order. -/
def waiterPids (s : Kernel) (x : ℕ) : List ℤ := (waiters s x).map fun p => (s.pcb p).pid

/-- What an event means for the semaphores known by their numbers. -/
def semOp (s : Kernel) : SemEvent → Op ℤ ℤ
  | .none => .skip
  | .create _ semnum value => .create semnum value.toNat
  | .remove x => .remove (semId s x)
  | .wait x p => .wait (semId s x) (s.pcb p).pid
  | .post x => .post (semId s x)

/-- The kernel with the semaphores as they are meant. -/
def specifiedKernel : System (Kernel × Table ℤ ℤ) Action Fault :=
  kernel.withRecord (fun _ => none) fun s act _ A => (semOp s (semEvent s act)).run A

/-- The semaphore `x` is meant to be `a`. -/
structure RepresentsSem (s : Kernel) (x : ℕ) (a : Sem ℤ) : Prop where
  sameCount : a.count = count s x
  sameQueue : a.queue = waiterPids s x

structure TableMatches (s : Kernel) (A : Table ℤ ℤ) : Prop where
  found : ∀ x ∈ s.sems.list.items, ∃ a, A (semId s x) = some a ∧ RepresentsSem s x a
  only : ∀ id, A id ≠ none → ∃ x ∈ s.sems.list.items, semId s x = id

/-! ### Pids stay -/

theorem FamilyMove.pid (hm : FamilyMove s t) (hb : s.pcbs.InUse b) :
    (t.pcb b).pid = (s.pcb b).pid := by
  cases hm with
  | same same => exact same.pid b
  | create p c q cpu _ created =>
    have hbc : b ≠ c := fun he => created.fresh (he ▸ hb)
    rw [created.pcb, if_neg hbc]
    split_ifs
    · rfl
    · rfl
  | zombie p a i _ _ _ _ _ _ zombied => exact zombied.pid b
  | deliver p a i q _ _ _ _ _ _ _ _ delivered => exact delivered.pid b
  | collect p q _ _ _ _ result =>
    subst result
    simp [reaped]
  | start c _ started =>
    have hbc : b ≠ c := fun he => started.fresh (he ▸ hb)
    rw [started.pcb, if_neg hbc]

theorem step_pid (hk : KernelInv s) (hs : kernel.step s act = .ok t) (hb : s.pcbs.InUse b) :
    (t.pcb b).pid = (s.pcb b).pid := by
  obtain ⟨u, hsu, -, hm⟩ := step_move hk hs
  rw [hm.pid ((hsu.inUse b).mpr hb), hsu.pid]

theorem waiter_inUse (hk : KernelInv s) (hb : b ∈ waiters s x) : s.pcbs.InUse b := by
  obtain ⟨w, hw, rfl⟩ := List.mem_map.mp hb
  exact hk.proc.inUse_of_mem (hk.wake.queued x w hw).1

theorem map_pid (hk : KernelInv s) (hs : kernel.step s act = .ok t) :
    (waiters s x).map (fun p => (t.pcb p).pid) = waiterPids s x :=
  List.map_congr_left fun _ hb => step_pid hk hs (waiter_inUse hk hb)

/-! ### A step of the kernel is a step of the table -/

theorem RepresentsSem.same {a : Sem ℤ} (h : RepresentsSem s x a) (hk : KernelInv s)
    (hs : kernel.step s act = .ok t) (hsame : SameSem s t x) : RepresentsSem t x a := by
  refine ⟨h.sameCount.trans hsame.count.symm, ?_⟩
  rw [h.sameQueue, ← map_pid hk hs, waiterPids, hsame.waiters]

theorem RepresentsSem.wait {a : Sem ℤ} {n : ℤ} (h : RepresentsSem s x a)
    (hcount : count t x = count s x - 1) (hpids : waiterPids t x =
      if 0 < count s x then waiterPids s x else waiterPids s x ++ [n]) :
    RepresentsSem t x (a.wait n) := by
  refine ⟨by rw [Sem.count_wait, h.sameCount, hcount], ?_⟩
  rw [hpids]
  split_ifs with hpos
  · rw [Sem.queue_wait_of_pos _ (h.sameCount ▸ hpos), h.sameQueue]
  · rw [Sem.queue_wait_of_nonpos _ (h.sameCount ▸ not_lt.mp hpos), h.sameQueue]

theorem RepresentsSem.post {a : Sem ℤ} (h : RepresentsSem s x a)
    (hcount : count t x = count s x + 1)
    (hpids : waiterPids t x = if count s x < 0 then (waiterPids s x).tail else waiterPids s x) :
    RepresentsSem t x a.post := by
  refine ⟨by rw [Sem.count_post, h.sameCount, hcount], ?_⟩
  rw [hpids, Sem.queue_post, h.sameQueue]
  split_ifs with hneg
  · rfl
  · have hnil := Sem.queue_eq_nil_of_count (h.sameCount ▸ not_lt.mp hneg)
    rw [h.sameQueue] at hnil
    rw [hnil, List.tail_nil]

theorem wait_changes (hk : KernelInv s) (hc : CountInv s) (hsize : PoolSizes s.sems)
    (hev : semEvent s act = .wait x p) (hs : kernel.step s act = .ok t) :
    count t x = count s x - 1 ∧ waiterPids t x =
      if 0 < count s x then waiterPids s x else waiterPids s x ++ [(s.pcb p).pid] := by
  have hstep := step_semEvent hk hs
  rw [hev] at hstep
  cases hstep with
  | wait _ _ w listed _ _ hcount _ hwaiters _ =>
    refine ⟨hcount.trans (hc.wait_count hk.sem hsize listed), ?_⟩
    have hp := (wait_moves hev hs).1
    have hpid := step_pid hk hs (hk.proc.inUse_of_running hp)
    have hcase : waiters t x = if 0 < count s x then waiters s x else waiters s x ++ [p] := hwaiters
    rw [waiterPids, hcase]
    split_ifs
    · exact map_pid hk hs
    · rw [List.map_append, map_pid hk hs, List.map_singleton, hpid]

theorem post_changes (hk : KernelInv s) (hc : CountInv s) (hsize : PoolSizes s.sems)
    (hfit : count s x < 2 ^ 31 - 1) (hev : semEvent s act = .post x)
    (hs : kernel.step s act = .ok t) : x ∈ s.sems.list.items ∧ count t x = count s x + 1 ∧
      waiterPids t x = if count s x < 0 then (waiterPids s x).tail else waiterPids s x := by
  have hstep := step_semEvent hk hs
  rw [hev] at hstep
  cases hstep with
  | post _ listed _ _ hcount _ hwaiters _ =>
    refine ⟨listed, hcount.trans (hc.post_count hk.sem hsize listed hfit), ?_⟩
    have hcase : waiters t x = if count s x < 0 then (waiters s x).tail else waiters s x := hwaiters
    rw [waiterPids, hcase]
    split_ifs
    · rw [List.map_tail, map_pid hk hs]
    · exact map_pid hk hs

namespace TableMatches

/-- A semaphore that an event leaves alone is found as before. -/
theorem kept {B : Table ℤ ℤ} (h : TableMatches s A) (hk : KernelInv s)
    (hs : kernel.step s act = .ok t) (hy : y ∈ s.sems.list.items)
    (hsame : SameSem s t y) (hB : B (semId s y) = A (semId s y)) :
    ∃ a, B (semId t y) = some a ∧ RepresentsSem t y a := by
  obtain ⟨a, ha, hr⟩ := h.found y hy
  have hid : semId t y = semId s y := hsame.id
  exact ⟨a, by rw [hid, hB, ha], hr.same hk hs hsame⟩

theorem created {semnum value : ℤ} (h : TableMatches s A) (hk : KernelInv s)
    (hs : kernel.step s act = .ok t) (h0 : 0 ≤ value)
    (unknown : semaphoreListById s.sems semnum = none)
    (list : t.sems.list.items = s.sems.list.items ++ [x]) (id : semId t x = semnum)
    (hcount : count t x = value) (hqueue : queue t x = [])
    (same : ∀ y ∈ s.sems.list.items, SameSem s t y) :
    TableMatches t (Function.update A semnum (some (.create value.toNat))) := by
  have hne : ∀ y ∈ s.sems.list.items, semId s y ≠ semnum := fun y hy he => by
    have := List.find?_eq_none.mp unknown y hy
    simp only [decide_eq_true_eq] at this
    exact this he
  refine ⟨fun y hy => ?_, fun i hi => ?_⟩
  · rw [list, List.mem_append, List.mem_singleton] at hy
    rcases hy with hy | rfl
    · exact h.kept hk hs hy (same y hy) (Function.update_of_ne (hne y hy) _ _)
    · refine ⟨.create value.toNat, by rw [id, Function.update_self], ?_, ?_⟩
      · rw [Sem.count_create, hcount, Int.toNat_of_nonneg h0]
      · rw [Sem.queue_create, waiterPids, waiters, hqueue]
        rfl
  · by_cases his : i = semnum
    · exact ⟨x, by simp [list], id.trans his.symm⟩
    · rw [Function.update_of_ne his] at hi
      obtain ⟨y, hy, rfl⟩ := h.only i hi
      exact ⟨y, by simp [list, hy], (same y hy).id⟩

theorem removed (h : TableMatches s A) (hk : KernelInv s) (hs : kernel.step s act = .ok t)
    (listed : x ∈ s.sems.list.items) (list : t.sems.list.items = s.sems.list.items.erase x)
    (same : ∀ y ∈ s.sems.list.items, SameSem s t y) :
    TableMatches t (Function.update A (semId s x) none) := by
  have hmem : ∀ y, y ∈ t.sems.list.items ↔ y ≠ x ∧ y ∈ s.sems.list.items := fun y => by
    rw [list, hk.sem.nodup.mem_erase_iff]
  refine ⟨fun y hy => ?_, fun i hi => ?_⟩
  · obtain ⟨hyx, hy⟩ := (hmem y).mp hy
    have hid : semId s y ≠ semId s x := fun he => hyx (hk.sem.ids y hy x listed he)
    exact h.kept hk hs hy (same y hy) (Function.update_of_ne hid _ _)
  · by_cases hix : i = semId s x
    · simp [hix] at hi
    · rw [Function.update_of_ne hix] at hi
      obtain ⟨y, hy, rfl⟩ := h.only i hi
      exact ⟨y, (hmem y).mpr ⟨fun he => hix (he ▸ rfl), hy⟩, (same y hy).id⟩

/-- One semaphore changes as it is meant to, and the others are left alone. -/
theorem changed {f : Sem ℤ → Sem ℤ} (h : TableMatches s A) (hk : KernelInv s)
    (hs : kernel.step s act = .ok t) (listed : x ∈ s.sems.list.items)
    (list : t.sems.list.items = s.sems.list.items) (id : semId t x = semId s x)
    (hx : ∀ a, RepresentsSem s x a → RepresentsSem t x (f a))
    (same : ∀ y ∈ s.sems.list.items, y ≠ x → SameSem s t y) :
    TableMatches t (Function.update A (semId s x) ((A (semId s x)).map f)) := by
  refine ⟨fun y hy => ?_, fun i hi => ?_⟩
  · rw [list] at hy
    by_cases hyx : y = x
    · subst hyx
      obtain ⟨a, ha, hr⟩ := h.found y hy
      exact ⟨f a, by rw [id, Function.update_self, ha, Option.map_some], hx a hr⟩
    · have hid : semId s y ≠ semId s x := fun he => hyx (hk.sem.ids y hy x listed he)
      exact h.kept hk hs hy (same y hy hyx) (Function.update_of_ne hid _ _)
  · by_cases hix : i = semId s x
    · exact ⟨x, list ▸ listed, id.trans hix.symm⟩
    · rw [Function.update_of_ne hix] at hi
      obtain ⟨y, hy, rfl⟩ := h.only i hi
      have hyx : y ≠ x := fun he => hix (he ▸ rfl)
      exact ⟨y, list ▸ hy, (same y hy hyx).id⟩

/-- A step of the kernel is the operation of the table that its event means. -/
theorem step (h : TableMatches s A) (hk : KernelInv s) (hc : CountInv s)
    (hsize : PoolSizes s.sems) (hs : kernel.step s act = .ok t) (hfit : CountsFit s act) :
    TableMatches t ((semOp s (semEvent s act)).run A) := by
  have hstep := step_semEvent hk hs
  unfold CountsFit at hfit
  generalize hev : semEvent s act = ev at hstep hfit ⊢
  cases hstep with
  | none list same =>
    refine ⟨fun y hy => ?_, fun id hid => ?_⟩
    · rw [list] at hy
      exact h.kept hk hs hy (same y hy) rfl
    · obtain ⟨y, hy, rfl⟩ := h.only id hid
      exact ⟨y, list ▸ hy, (same y hy).id⟩
  | create x semnum value isInt unknown new list id hcount hqueue same =>
    exact h.created hk hs hfit unknown list id hcount hqueue same
  | remove x listed list same => exact h.removed hk hs listed list same
  | wait x p w listed list id hcount hqueue hwaiters same =>
    obtain ⟨hcount, hpids⟩ := wait_changes hk hc hsize hev hs
    exact h.changed hk hs listed list id (fun a ha => ha.wait hcount hpids) same
  | post x listed list id hcount hqueue hwaiters same =>
    obtain ⟨-, hcount, hpids⟩ := post_changes hk hc hsize hfit hev hs
    exact h.changed hk hs listed list id (fun a ha => ha.post hcount hpids) same

theorem start : TableMatches disastrOSStart fun _ => none := by
  obtain ⟨t, -, -, hs⟩ := disastrOSStart_eq
  rw [hs]
  exact ⟨fun x hx => absurd hx List.not_mem_nil, fun id hid => absurd rfl hid⟩

theorem reachableBy (h : specifiedKernel.ReachableBy (fun y act => CountsFit y.1 act) (s, A)) :
    kernel.ReachableBy CountsFit s ∧ TableMatches s A := by
  refine h.invariant (P := fun y => kernel.ReachableBy CountsFit y.1 ∧ TableMatches y.1 y.2) ?_ ?_
  · exact ⟨.start, start⟩
  · rintro ⟨s, A⟩ act ⟨t, B⟩ - ⟨hr, hi⟩ hG hm
    obtain ⟨hs, hB⟩ := System.withRecord_step.mp hm
    have hk := KernelInv.reachable hr.reachable
    refine ⟨hr.step hG hs, ?_⟩
    change TableMatches t B
    rw [show B = (semOp s (semEvent s act)).run A from hB]
    exact hi.step hk (.reachableBy hr) (.reachable hr.reachable) hs hG

end TableMatches

/-! ### Calls -/

theorem semEvent_reopen (hp : s.running = some p)
    (hx : semaphoreListById s.sems (toInt (args.getD 0 0)) = some x) :
    semEvent s (.syscall Handler.semOpen.number args) = .none := by
  have hlist : semaphoreListById (enterSyscall s p Handler.semOpen.number args).sems
      (toInt (args.getD 0 0)) = some x := hx
  rw [semEvent_number hp, handlerEvent, enterSyscall_arg (by decide), semOpenEvent, hlist]
  split
  · contradiction
  · rfl

/-- The semaphores of the state are those of the table, and the calls do to them, and to the
processes, what they are meant to do. -/
structure SemaphoresRefine (s : Kernel) (A : Table ℤ ℤ) : Prop where
  found : ∀ x ∈ s.sems.list.items, ∃ a, A (semId s x) = some a ∧
    (a.value : ℤ) = max (count s x) 0 ∧ a.queue = waiterPids s x
  only : ∀ id, A id ≠ none → ∃ x ∈ s.sems.list.items, semId s x = id
  idle : ∀ x ∈ s.sems.list.items, 0 ≤ count s x → waiterPids s x = []
  waiting : ∀ x ∈ s.sems.list.items, count s x < 0 →
    ((waiterPids s x).length : ℤ) = -count s x ∧
      (s.sems.semaphore.cell x).waitingDescriptors.size = -count s x
  wait : ∀ p x args t, s.running = some p →
    calledSemaphore s p (toInt (args.getD 0 0)) = some x →
    kernel.step s (.syscall dsosCallSemwait args) = .ok t →
      0 < count s x ∧ count t x = count s x - 1 ∧ waiterPids t x = waiterPids s x ∧
          NobodyMoves s t ∨
        max (count s x) 0 = 0 ∧ max (count t x) 0 = 0 ∧
          waiterPids t x = waiterPids s x ++ [(s.pcb p).pid] ∧ Suspends s t p
  post : ∀ p x args t, s.running = some p →
    calledSemaphore s p (toInt (args.getD 0 0)) = some x → count s x < 2 ^ 31 - 1 →
    kernel.step s (.syscall dsosCallSempost args) = .ok t →
      (∃ b rest, waiters s x = b :: rest ∧ waiterPids t x = (waiterPids s x).tail ∧
          max (count s x) 0 = 0 ∧ max (count t x) 0 = 0 ∧ Grants s t b) ∨
        waiters s x = [] ∧ waiterPids t x = [] ∧ max (count s x) 0 = count s x ∧
          count t x = count s x + 1 ∧ NobodyMoves s t
  reopen : ∀ p x args t, s.running = some p →
    semaphoreListById s.sems (toInt (args.getD 0 0)) = some x →
    kernel.step s (.syscall dsosCallSemopen args) = .ok t →
      t.sems.list.items = s.sems.list.items ∧
        ∀ y ∈ s.sems.list.items, count t y = count s y ∧ waiterPids t y = waiterPids s y

theorem TableMatches.refines (h : TableMatches s A) (hr : kernel.ReachableBy CountsFit s) :
    SemaphoresRefine s A := by
  have hk := KernelInv.reachable hr.reachable
  have hc := CountInv.reachableBy hr
  have hsize := PoolSizes.reachable hr.reachable
  have hidle : ∀ x ∈ s.sems.list.items, 0 ≤ count s x → waiters s x = [] := fun x hx h0 => by
    rw [waiters, hc.eq_nil hx h0, List.map_nil]
  constructor
  case found =>
    intro x hx
    obtain ⟨a, ha, hcount, hqueue⟩ := h.found x hx
    refine ⟨a, ha, ?_, hqueue⟩
    rw [a.value_eq, hcount]
    omega
  case only => exact h.only
  case idle =>
    intro x hx h0
    rw [waiterPids, hidle x hx h0, List.map_nil]
  case waiting =>
    intro x hx hneg
    have hlen := (hc x hx).1
    rw [hk.sem.queueSize, waiterPids, waiters, List.length_map, List.length_map]
    omega
  case wait =>
    intro p x args t hp hx hs
    have hev := semEvent_semWait hp hx
    obtain ⟨hcount, hpids⟩ := wait_changes hk hc hsize hev hs
    rcases (wait_moves hev hs).2 with ⟨hpos, hm⟩ | ⟨hle, hm⟩
    · rw [if_pos hpos] at hpids
      exact Or.inl ⟨hpos, hcount, hpids, hm⟩
    · rw [if_neg (not_lt.mpr hle)] at hpids
      exact Or.inr ⟨by omega, by omega, hpids, hm⟩
  case post =>
    intro p x args t hp hx hfit hs
    have hev := semEvent_semPost hp hx
    obtain ⟨listed, hcount, hpids⟩ := post_changes hk hc hsize hfit hev hs
    rcases post_moves hev hs with ⟨hno, hm⟩ | ⟨hneg, b, rest, hb, hm⟩
    · have h0 : 0 ≤ count s x := by
        rcases hno with h0 | hnil
        · exact h0
        · have hlen := (hc x listed).1
          rw [hnil, List.length_nil] at hlen
          omega
      have hnil := hidle x listed h0
      have hempty : waiterPids s x = [] := by rw [waiterPids, hnil, List.map_nil]
      rw [if_neg (not_lt.mpr h0), hempty] at hpids
      exact Or.inr ⟨hnil, hpids, by omega, hcount, hm⟩
    · rw [if_pos hneg] at hpids
      exact Or.inl ⟨b, rest, hb, hpids, by omega, by omega, hm⟩
  case reopen =>
    intro p x args t hp hx hs
    have hstep := @step_semEvent s t (.syscall Handler.semOpen.number args) hk hs
    rw [semEvent_reopen hp hx] at hstep
    cases hstep with
    | none list same =>
      have hmap : ∀ y, (waiters s y).map (fun p => (t.pcb p).pid) = waiterPids s y := fun y =>
        map_pid hk hs
      refine ⟨list, fun y hy => ⟨(same y hy).count, ?_⟩⟩
      rw [waiterPids, (same y hy).waiters, hmap]

/-- In every run in which semaphores are made with values that are not negative, and no count
overflows, the semaphores are counting semaphores with a queue. -/
theorem semaphores_refine
    (h : specifiedKernel.ReachableBy (fun y act => CountsFit y.1 act) (s, A)) :
    SemaphoresRefine s A := by
  obtain ⟨hr, hi⟩ := TableMatches.reachableBy h
  exact hi.refines hr

/-- Two processes wait, one after the other. -/
theorem semaphores_refine_queued :
    ∃ s A, waiterPids s 0 = [0, 1] ∧ A 7 ≠ none ∧ SemaphoresRefine s A := by
  have h := System.reachableBy_replayBy (M := specifiedKernel)
    (G := fun y act => CountsFit y.1 act)
    [.syscall dsosCallSemopen [7, 0], .syscall dsosCallSpawn [0, 0],
      .syscall dsosCallSpawn [0, 0], .syscall dsosCallSemwait [0],
      .syscall dsosCallSemopen [7, 5], .syscall dsosCallSemwait [0]]
  exact ⟨_, _, by decide +kernel, by decide +kernel, semaphores_refine h⟩

end DisastrOS
