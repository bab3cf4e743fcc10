import DisastrOS.Runs
import DisastrOS.SemaphoreCounts

/-! The order in which the processes that wait for a semaphore get it, and how many have it at a
time. -/
namespace DisastrOS
open BlockPool TransitionSystem

/-- The process that the action suspends on the semaphore `x`. -/
def suspends (x : ℕ) (s : Kernel) (act : Action) (t : Kernel) : List ℕ :=
  match semEvent s act with
  | .wait y p => if y = x ∧ p ∈ (t.procs .waiting).items then [p] else []
  | _ => []

/-- The processes that the action, a post of the semaphore `x`, makes ready. -/
def grants (x : ℕ) (s : Kernel) (act : Action) (t : Kernel) : List ℕ :=
  match semEvent s act with
  | .post y => if y = x then (t.procs .ready).items.filter (· ∈ (s.procs .waiting).items) else []
  | _ => []

/-- The action posts the semaphore `x`. -/
def posts (x : ℕ) (s : Kernel) (act : Action) : Bool := decide (semEvent s act = .post x)

variable {s t u : Kernel} {p q b x y : ℕ} {act : Action} {acts : List Action}

theorem suspends_wait (h : semEvent s act = .wait y p) : suspends x s act t =
    if y = x ∧ p ∈ (t.procs .waiting).items then [p] else [] := by
  simp [suspends, h]

theorem grants_post (h : semEvent s act = .post y) : grants x s act t =
    if y = x then (t.procs .ready).items.filter (· ∈ (s.procs .waiting).items) else [] := by
  simp [grants, h]

theorem suspends_eq_nil (h : ∀ p, semEvent s act ≠ .wait x p) : suspends x s act t = [] := by
  unfold suspends
  split
  · rename_i y p hev
    refine if_neg fun hy => h p ?_
    rw [hev, hy.1]
  · rfl

theorem grants_eq_nil (h : semEvent s act ≠ .post x) : grants x s act t = [] := by
  unfold grants
  split
  · rename_i y hev
    refine if_neg fun hy => h ?_
    rw [hev, hy]
  · rfl

/-- What an action can do to the processes that wait for the semaphore `x`. -/
inductive QueueMove (x : ℕ) (s : Kernel) (act : Action) (t : Kernel) : Prop
  | stays (waiters : waiters t x = waiters s x) (suspended : suspends x s act t = [])
      (granted : grants x s act t = [])
      (idle : semEvent s act = .post x → 0 ≤ count s x ∨ queue s x = [])
  | joins (p : ℕ) (wait : semEvent s act = .wait x p) (waiters : waiters t x = waiters s x ++ [p])
      (suspended : suspends x s act t = [p]) (granted : grants x s act t = [])
  | leaves (b : ℕ) (post : semEvent s act = .post x) (waiters : waiters s x = b :: waiters t x)
      (suspended : suspends x s act t = []) (granted : grants x s act t = [b])
      (ready : b ∈ (t.procs .ready).items)

theorem waiters_eq_nil (h : SemInv s) (hx : x ∉ s.sems.list.items) : waiters s x = [] := by
  rw [waiters, h.queue_eq_nil hx, List.map_nil]

/-- An event that is about another semaphore leaves the queue of `x` as it is. -/
theorem SemStep.waiters_eq {ev : SemEvent} (h : SemInv s) (h' : SemInv t) (hs : SemStep s t ev)
    (hwait : ∀ p, ev ≠ .wait x p) (hpost : ev ≠ .post x) : waiters t x = waiters s x := by
  by_cases hx : x ∈ s.sems.list.items
  · cases hs with
    | none list same | create _ _ _ _ _ _ list _ _ _ same | remove _ _ list same =>
      exact (same x hx).waiters
    | wait y p w listed list id count queue waiters same =>
      exact (same x hx fun hxy => hwait p (hxy ▸ rfl)).waiters
    | post y listed list id count queue waiters same =>
      exact (same x hx fun hxy => hpost (hxy ▸ rfl)).waiters
  · rw [waiters_eq_nil h hx]
    cases hs with
    | none list same | wait _ _ _ _ list | post _ _ list =>
      exact waiters_eq_nil h' (list ▸ hx)
    | create y semnum value isInt unknown new list id count queue same =>
      by_cases hxy : x = y
      · rw [waiters, hxy, queue, List.map_nil]
      · refine waiters_eq_nil h' ?_
        rw [list, List.mem_append, List.mem_singleton]
        exact not_or.mpr ⟨hx, hxy⟩
    | remove y listed list same =>
      exact waiters_eq_nil h' fun hm => hx (List.mem_of_mem_erase (list ▸ hm))

/-- Nobody who waits is made ready when nobody changes places. -/
theorem NobodyMoves.ready_filter (h : ProcInv s) (hm : NobodyMoves s t) :
    (t.procs .ready).items.filter (· ∈ (s.procs .waiting).items) = [] := by
  rw [hm.procs, List.filter_eq_nil_iff]
  intro b hb hw
  have := h.disjoint hb (of_decide_eq_true hw)
  cases this

theorem Grants.ready_filter (h : ProcInv s) (hg : Grants s t b) :
    (t.procs .ready).items.filter (· ∈ (s.procs .waiting).items) = [b] := by
  have hnil : (s.procs .ready).items.filter (· ∈ (s.procs .waiting).items) = [] := by
    rw [List.filter_eq_nil_iff]
    intro c hc hw
    have := h.disjoint hc (of_decide_eq_true hw)
    cases this
  rw [hg.ready, List.filter_append, hnil, List.nil_append, List.filter_singleton,
    decide_eq_true hg.wasWaiting, cond_true]

/-- A wait puts the process that it suspends at the end of the queue, a post takes the process that
it makes ready from the front, and nothing else changes the queue. -/
theorem step_queue (h : KernelInv s) (hs : kernel.step s act = .ok t) : QueueMove x s act t := by
  have hsem : SemStep s t (semEvent s act) := step_semEvent h hs
  have ht : KernelInv t := h.step hs
  by_cases hwait : ∃ p, semEvent s act = .wait x p
  · obtain ⟨p, hev⟩ := hwait
    have hgrant : grants x s act t = [] := grants_eq_nil (by simp [hev])
    rw [hev] at hsem
    cases hsem with
    | wait _ _ w listed list id count queue waiters same =>
      obtain ⟨hp, ⟨hpos, hm⟩ | ⟨hle, hsus⟩⟩ := wait_moves hev hs
      · refine .stays (waiters.trans (if_pos hpos)) ?_ hgrant (by simp [hev])
        rw [suspends_wait hev, hm.procs]
        exact if_neg fun hin => h.proc.running_ne hp hin.2 rfl
      · refine .joins p hev (waiters.trans (if_neg (not_lt.mpr hle))) ?_ hgrant
        rw [suspends_wait hev, hsus.waiting]
        exact if_pos ⟨rfl, by simp⟩
  replace hwait := not_exists.mp hwait
  have hsus : suspends x s act t = [] := suspends_eq_nil hwait
  by_cases hpost : semEvent s act = .post x
  · rw [hpost] at hsem
    cases hsem with
    | post _ listed list id count queue waiters same =>
      rcases post_moves hpost hs with ⟨hidle, hm⟩ | ⟨hneg, b, rest, hb, hg⟩
      · refine .stays ?_ hsus ?_ fun _ => hidle
        · rw [waiters]
          split_ifs with hneg
          · have hnil : DisastrOS.queue s x = [] := hidle.resolve_left (not_le.mpr hneg)
            simp [DisastrOS.waiters, hnil]
          · rfl
        · rw [grants_post hpost, if_pos rfl, hm.ready_filter h.proc]
      · refine .leaves b hpost ?_ hsus ?_ ?_
        · rw [waiters, if_pos (show (s.sems.semaphore.cell x).count < 0 from hneg), hb,
            List.tail_cons]
        · rw [grants_post hpost, if_pos rfl, hg.ready_filter h.proc]
        · rw [hg.ready]
          simp
  · exact .stays (hsem.waiters_eq h.sem ht.sem hwait hpost) hsus (grants_eq_nil hpost)
      fun hev => absurd hev hpost

theorem length_waiters : (waiters s x).length = (queue s x).length := List.length_map _

/-- What a step takes from the front of the queue and puts at its end. -/
theorem step_ledger (h : KernelInv s) (hs : kernel.step s act = .ok t) :
    grants x s act t ++ waiters t x = waiters s x ++ suspends x s act t := by
  cases step_queue (x := x) h hs with
  | stays waiters suspended granted =>
    rw [waiters, suspended, granted, List.append_nil, List.nil_append]
  | joins p wait waiters suspended granted =>
    rw [waiters, suspended, granted, List.nil_append]
  | leaves b post waiters suspended granted =>
    rw [waiters, suspended, granted, List.append_nil, List.singleton_append]

/-- A semaphore is first come, first served: along a run, the processes that posts make ready,
followed by those that still wait, are those that waited at its begin, followed by those that
waits suspend. -/
theorem first_come_first_served (h : kernel.Reachable s) (hrun : kernel.runFrom s acts = .ok u) :
    kernel.yields (grants x) s acts ++ waiters u x =
      waiters s x ++ kernel.yields (suspends x) s acts := by
  have hstep : ∀ s act t, KernelInv s → kernel.step s act = .ok t → KernelInv t ∧
      grants x s act t ++ waiters t x = waiters s x ++ suspends x s act t :=
    fun _ _ _ hk hs => ⟨hk.step hs, step_ledger hk hs⟩
  exact System.yields_ledger hstep hrun (.reachable h)

/-- Two processes wait, two posts make them ready in that order, and then the third waits. -/
theorem first_come_first_served_three :
    let s := kernel.replay [.syscall dsosCallSemopen [7, 0], .syscall dsosCallSpawn [0, 0],
      .syscall dsosCallSpawn [0, 0], .syscall dsosCallPreempt [], .syscall dsosCallSemopen [7, 0],
      .syscall dsosCallSemwait [0], .syscall dsosCallSemopen [7, 0], .syscall dsosCallSemwait [0]]
    let acts := [.syscall dsosCallSempost [0], .syscall dsosCallSempost [0],
      .syscall dsosCallSemwait [0]]
    let u := kernel.replayFrom (fun _ _ => True) s acts
    waiters s 0 = [1, 2] ∧ waiters u 0 = [0] ∧
      kernel.yields (grants 0) s acts ++ waiters u 0 =
        waiters s 0 ++ kernel.yields (suspends 0) s acts := by
  exact ⟨by decide +kernel, by decide +kernel, first_come_first_served
    (System.reachable_replay _) (System.runFrom_replayFrom (by decide +kernel))⟩

/-! ### One semaphore -/

/-- The event makes the semaphore `x`, waits for it or posts it. -/
def SemEvent.About (x : ℕ) : SemEvent → Prop
  | .create y _ _ | .wait y _ | .post y => y = x
  | .remove _ | .none => False

/-- What an event has done to the semaphore `x`, which is there after it. -/
inductive SemChange (x : ℕ) (s t : Kernel) : SemEvent → Prop
  | same {ev : SemEvent} (other : ¬ ev.About x) (listed : x ∈ s.sems.list.items)
      (count : count t x = count s x) (queue : queue t x = queue s x) : SemChange x s t ev
  | create (semnum value : ℤ) (isInt : toInt value = value) (count : count t x = value)
      (queue : queue t x = []) : SemChange x s t (.create x semnum value)
  | passes (p : ℕ) (listed : x ∈ s.sems.list.items) (positive : 0 < count s x)
      (count : count t x = toInt (count s x - 1)) (queue : queue t x = queue s x) :
      SemChange x s t (.wait x p)
  | blocks (p : ℕ) (listed : x ∈ s.sems.list.items) (positive : count s x ≤ 0)
      (count : count t x = toInt (count s x - 1))
      (queue : (queue t x).length = (queue s x).length + 1) : SemChange x s t (.wait x p)
  | post (listed : x ∈ s.sems.list.items) (count : count t x = toInt (count s x + 1))
      (queue : queue t x = if DisastrOS.count s x < 0 then (queue s x).tail else queue s x) :
      SemChange x s t (.post x)

theorem SemStep.change {ev : SemEvent} (hs : SemStep s t ev) (hx : x ∈ t.sems.list.items) :
    SemChange x s t ev := by
  cases hs with
  | none list same =>
    have hx : x ∈ s.sems.list.items := list ▸ hx
    exact .same id hx (same x hx).count (same x hx).queue
  | create y semnum value isInt unknown new list id count queue same =>
    by_cases hy : y = x
    · subst hy
      exact .create semnum value isInt count queue
    · rw [list, List.mem_append, List.mem_singleton] at hx
      have hx := hx.resolve_right (Ne.symm hy)
      exact .same hy hx (same x hx).count (same x hx).queue
  | remove y listed list same =>
    have hx : x ∈ s.sems.list.items := List.mem_of_mem_erase (list ▸ hx)
    exact .same id hx (same x hx).count (same x hx).queue
  | wait y p w listed list id count queue waiters same =>
    by_cases hy : y = x
    · subst hy
      by_cases hpos : 0 < DisastrOS.count s y
      · exact .passes p listed hpos count (queue.trans (if_pos hpos))
      · refine .blocks p listed (not_lt.mp hpos) count ?_
        rw [queue, if_neg (show ¬ 0 < (s.sems.semaphore.cell y).count from hpos),
          List.length_append, List.length_singleton]
    · have hx : x ∈ s.sems.list.items := list ▸ hx
      exact .same hy hx (same x hx (Ne.symm hy)).count (same x hx (Ne.symm hy)).queue
  | post y listed list id count queue waiters same =>
    by_cases hy : y = x
    · subst hy
      exact .post listed count queue
    · have hx : x ∈ s.sems.list.items := list ▸ hx
      exact .same hy hx (same x hx (Ne.symm hy)).count (same x hx (Ne.symm hy)).queue

/-! ### A process that waits gets the semaphore -/

/-- The count of the semaphore `x` stays an `int` in the step: nobody waits for it at the smallest
integer, and nobody posts it at the largest. -/
def CountFits (x : ℕ) (s : Kernel) (act : Action) : Prop :=
  match semEvent s act with
  | .wait y _ => y = x → -(2 ^ 31) < count s x
  | .post y => y = x → count s x < 2 ^ 31 - 1
  | _ => True

instance (x : ℕ) (s : Kernel) (act : Action) : Decidable (CountFits x s act) := by
  unfold CountFits
  split <;> infer_instance

/-- The count of `x` is an `int`, and at least as far below 0 as processes wait. -/
def Owed (x : ℕ) (s : Kernel) : Prop :=
  x ∈ s.sems.list.items →
    toInt (count s x) = count s x ∧ (queue s x).length ≤ (-count s x).toNat

namespace Owed

theorem step (h : Owed x s) (hk : KernelInv s) (hs : kernel.step s act = .ok t)
    (hfit : CountFits x s act) : Owed x t := by
  intro hx
  have hsem : SemChange x s t (semEvent s act) := (step_semEvent hk hs).change hx
  unfold CountFits at hfit
  generalize semEvent s act = ev at hsem hfit
  cases hsem with
  | same other listed hcount hqueue =>
    rw [hcount, hqueue]
    exact h listed
  | create semnum value isInt hcount hqueue =>
    rw [hcount, hqueue]
    exact ⟨isInt, Nat.zero_le _⟩
  | passes p listed positive hcount hqueue =>
    obtain ⟨hint, hlen⟩ := h listed
    rw [toInt_eq_self] at hint
    have hsub : toInt (count s x - 1) = count s x - 1 := toInt_of_mem (by omega) (by omega)
    rw [hcount, hqueue, hsub]
    exact ⟨hsub, by omega⟩
  | blocks p listed positive hcount hqueue =>
    obtain ⟨hint, hlen⟩ := h listed
    rw [toInt_eq_self] at hint
    have hfit : -(2 ^ 31) < count s x := hfit rfl
    have hsub : toInt (count s x - 1) = count s x - 1 := toInt_of_mem (by omega) (by omega)
    rw [hcount, hqueue, hsub]
    exact ⟨hsub, by omega⟩
  | post listed hcount hqueue =>
    obtain ⟨hint, hlen⟩ := h listed
    rw [toInt_eq_self] at hint
    have hfit : count s x < 2 ^ 31 - 1 := hfit rfl
    have hadd : toInt (count s x + 1) = count s x + 1 := toInt_of_mem (by omega) (by omega)
    rw [hcount, hqueue, hadd]
    refine ⟨hadd, ?_⟩
    split_ifs with hneg
    · rw [List.length_tail]
      omega
    · omega

theorem lt_zero (h : Owed x s) (hx : x ∈ s.sems.list.items) (hne : queue s x ≠ []) :
    count s x < 0 := by
  have hlen := (h hx).2
  have hpos := List.length_pos_of_ne_nil hne
  omega

/-- It holds from when the semaphore is made. -/
theorem since {r : Kernel} (hr : kernel.Reachable r) (hnew : x ∉ r.sems.list.items)
    (h : (kernel.startingAt r).ReachableBy (CountFits x) s) : Owed x s := by
  refine h.invariant (P := Owed x) (fun hx => absurd hx hnew) fun s act t hs hi hG hm => ?_
  exact hi.step (.reachable (hs.goesOn hr)) hm hG

end Owed

/-- No step puts a process before one that waits, and a post takes the first away, as long as the
count is below 0 while somebody waits. -/
theorem step_place (h : KernelInv s)
    (hneg : x ∈ s.sems.list.items → queue s x ≠ [] → count s x < 0) (hp : p ∈ waiters s x)
    (hs : kernel.step s act = .ok t) : p ∈ (t.procs .ready).items ∨ p ∈ waiters t x ∧
      (waiters t x).idxOf p + (if posts x s act then 1 else 0) ≤ (waiters s x).idxOf p := by
  have hqueue : queue s x ≠ [] := by
    rintro hnil
    simp [waiters, hnil] at hp
  have hlisted : x ∈ s.sems.list.items := by
    by_contra hx
    exact hqueue (h.sem.queue_eq_nil hx)
  cases step_queue (x := x) h hs with
  | stays waiters suspended granted idle =>
    have hpost : posts x s act = false := by
      refine decide_eq_false fun hev => (idle hev).elim (fun h0 => ?_) hqueue
      exact absurd (hneg hlisted hqueue) (not_lt.mpr h0)
    rw [waiters, hpost]
    exact Or.inr ⟨hp, le_rfl⟩
  | joins q wait waiters suspended granted =>
    rw [waiters, List.idxOf_append_of_mem hp]
    refine Or.inr ⟨List.mem_append_left _ hp, ?_⟩
    simp [posts, wait]
  | leaves b post waiters suspended granted ready =>
    rw [waiters] at hp ⊢
    by_cases hb : b = p
    · exact Or.inl (hb ▸ ready)
    · rw [List.idxOf_cons_ne _ hb]
      refine Or.inr ⟨(List.mem_cons.mp hp).resolve_left (Ne.symm hb), ?_⟩
      split_ifs <;> omega

/-- While the count of the semaphore fits, from when it is made, a process that waits is made ready
before the semaphore has been posted as often as there are processes that wait before it, and
once more. -/
theorem waiter_granted {r : Kernel} (hr : kernel.Reachable r) (hnew : x ∉ r.sems.list.items)
    (h : (kernel.startingAt r).ReachableBy (CountFits x) s) (hp : p ∈ waiters s x)
    (hrun : kernel.runFrom s acts = .ok u) (hfit : kernel.guarded (CountFits x) s acts = true)
    (hlong : (waiters s x).idxOf p <
      (kernel.yields (fun s act _ => if posts x s act then [act] else []) s acts).length) :
    kernel.Passes s acts fun t => p ∈ (t.procs .ready).items := by
  refine System.passes_of_measure
    (P := fun t => (kernel.startingAt r).ReachableBy (CountFits x) t ∧ p ∈ waiters t x)
    (μ := fun t => (waiters t x).idxOf p) (fun t act v ⟨ht, hmem⟩ hG hs => ?_) hrun hfit ⟨h, hp⟩
    hlong
  have howed : Owed x t := .since hr hnew ht
  refine (step_place (.reachable (ht.goesOn hr)) howed.lt_zero hmem hs).imp id ?_
  exact fun ⟨hmem', hle⟩ => ⟨⟨ht.step hG hs, hmem'⟩, hle⟩

/-- The second of two processes that wait is ready after two posts, where the semaphore was made
with a negative value. -/
theorem waiter_granted_second :
    let s := (kernel.startingAt kernel.start).replayBy (CountFits 0) [
      .syscall dsosCallSemopen [7, -1],
      .syscall dsosCallSpawn [0, 0], .syscall dsosCallSpawn [0, 0], .syscall dsosCallPreempt [],
      .syscall dsosCallSemopen [7, 0], .syscall dsosCallSemwait [0],
      .syscall dsosCallSemopen [7, 0], .syscall dsosCallSemwait [0]]
    waiters s 0 = [1, 2] ∧
      kernel.Passes s [.syscall dsosCallSempost [0], .tick, .syscall dsosCallSempost [0]]
        fun t => 2 ∈ (t.procs .ready).items := by
  refine ⟨by decide +kernel, @waiter_granted _ _ 2 0 _ kernel.start .start ?_
    (System.reachableBy_replayBy _) ?_ (System.runFrom_replayFrom ?_) ?_ ?_⟩
  all_goals decide +kernel

/-! ### The processes that have a semaphore -/

/-- The value with which a semaphore was made, and the processes that have passed a wait for it
and not posted it since. -/
structure Section where
  value : ℤ
  inside : List ℕ
  deriving DecidableEq, Repr

/-- A wait lets the process in that still runs after it. A post lets the running process out and
those in that it makes ready. -/
def recordSection (L : ℕ → Section) (s : Kernel) (act : Action) (t : Kernel) : ℕ → Section :=
  match semEvent s act with
  | .create x _ value => Function.update L x ⟨value, []⟩
  | .wait x p => Function.update L x { L x with
      inside := if p ∈ (t.procs .waiting).items then (L x).inside else p :: (L x).inside }
  | .post x => Function.update L x { L x with
      inside := (L x).inside.diff s.running.toList ++ grants x s act t }
  | .remove _ | .none => L

/-- The kernel with a record of who has passed which semaphore. -/
def sectionKernel : System (Kernel × (ℕ → Section)) Action Fault :=
  kernel.withRecord (fun _ => ⟨0, []⟩) fun s act t L => recordSection L s act t

/-- The programs use the semaphore `x` as a lock: only who has passed a wait for it posts it. -/
def Disciplined (x : ℕ) (y : Kernel × (ℕ → Section)) (act : Action) : Prop :=
  semEvent y.1 act = .post x → ∀ p ∈ y.1.running, p ∈ (y.2 x).inside

instance (x : ℕ) (y : Kernel × (ℕ → Section)) (act : Action) : Decidable (Disciplined x y act) :=
  inferInstanceAs (Decidable (_ → _))

theorem recordSection_other {L : ℕ → Section} (h : ¬ (semEvent s act).About x) :
    recordSection L s act t x = L x := by
  cases hev : semEvent s act with
  | none | remove y => simp only [recordSection, hev]
  | create y semnum value | wait y p | post y =>
    rw [hev] at h
    simp only [recordSection, hev]
    exact Function.update_of_ne (Ne.symm h) _ _

/-- The count of `x` is its value less those who have it and those who wait for it, and nobody
waits before as many have it as the value says. -/
structure Excludes (s : Kernel) (x : ℕ) (z : Section) : Prop where
  isInt : toInt z.value = z.value
  total : count s x + z.inside.length + (queue s x).length = z.value
  most : z.inside.length ≤ z.value.toNat
  full : queue s x ≠ [] → z.inside.length = z.value.toNat

/-- It holds of the semaphore `x`, unless it was made with a value from which a queue could take the
count below the smallest integer. -/
def SectionInv (x : ℕ) (y : Kernel × (ℕ → Section)) : Prop :=
  x ∈ y.1.sems.list.items → maxNumProcesses - 2 ^ 31 ≤ (y.2 x).value → Excludes y.1 x (y.2 x)

/-- The record of a wait that passes and of one that blocks. -/
theorem recordSection_wait {L : ℕ → Section} (hk : KernelInv s)
    (hev : semEvent s act = .wait x p) (hs : kernel.step s act = .ok t) :
    recordSection L s act t x = ⟨(L x).value,
      if 0 < count s x then p :: (L x).inside else (L x).inside⟩ := by
  simp only [recordSection, hev, Function.update_self]
  obtain ⟨hp, ⟨hpos, hm⟩ | ⟨hle, hsus⟩⟩ := wait_moves hev hs
  · have hrun : p ∉ (t.procs .waiting).items := fun hw =>
      hk.proc.running_ne hp (hm.procs .waiting ▸ hw) rfl
    rw [if_neg hrun, if_pos hpos]
  · have hw : p ∈ (t.procs .waiting).items := by simp [hsus.waiting]
    rw [if_pos hw, if_neg (not_lt.mpr hle)]

/-- The process that posts goes out, and as many come in as leave the queue. -/
theorem recordSection_post {L : ℕ → Section} (hk : KernelInv s)
    (hev : semEvent s act = .post x) (hs : kernel.step s act = .ok t)
    (hin : ∀ p ∈ s.running, p ∈ (L x).inside) :
    (recordSection L s act t x).value = (L x).value ∧
      (recordSection L s act t x).inside.length + (queue t x).length + 1 =
        (L x).inside.length + (queue s x).length := by
  obtain ⟨p, hd, args, hp, -, -⟩ := @semEvent_handler s act (by rw [hev]; simp)
  have hmem : p ∈ (L x).inside := hin p hp
  have hleft : ((L x).inside.diff s.running.toList).length + 1 = (L x).inside.length := by
    rw [hp, Option.toList_some, List.diff_cons, List.diff_nil, List.length_erase_of_mem hmem]
    exact Nat.sub_add_cancel (List.length_pos_of_mem hmem)
  have hgrant := congrArg List.length (step_ledger (x := x) hk hs)
  rw [suspends_eq_nil (by simp [hev]), List.append_nil, List.length_append, length_waiters,
    length_waiters] at hgrant
  simp only [recordSection, hev, Function.update_self, List.length_append, true_and]
  omega

namespace Excludes
variable {z z' : Section}

theorem made {value : ℤ} (isInt : toInt value = value) (hcount : count t x = value)
    (hqueue : queue t x = []) : Excludes t x ⟨value, []⟩ where
  isInt := isInt
  total := by simp [hcount, hqueue]
  most := Nat.zero_le _
  full := fun hne => absurd hqueue hne

theorem passes (h : Excludes s x z) (hpos : 0 < count s x)
    (hcount : count t x = toInt (count s x - 1)) (hqueue : queue t x = queue s x) :
    Excludes t x ⟨z.value, p :: z.inside⟩ := by
  obtain ⟨isInt, total, most, full⟩ := h
  have hint := toInt_eq_self.mp isInt
  have hsub : toInt (count s x - 1) = count s x - 1 := toInt_of_mem (by omega) (by omega)
  rw [hsub] at hcount
  constructor
  · exact isInt
  · simp only [hqueue, hcount, List.length_cons]
    omega
  · simp only [List.length_cons]
    omega
  · intro hne
    have hfull := full (hqueue ▸ hne)
    simp only [List.length_cons]
    omega

theorem blocks (h : Excludes s x z) (hle : count s x ≤ 0)
    (hcount : count t x = toInt (count s x - 1))
    (hqueue : (queue t x).length = (queue s x).length + 1)
    (hroom : (queue t x).length ≤ maxNumProcesses) (hv : maxNumProcesses - 2 ^ 31 ≤ z.value) :
    Excludes t x z := by
  obtain ⟨isInt, total, most, full⟩ := h
  have hint := toInt_eq_self.mp isInt
  have hsub : toInt (count s x - 1) = count s x - 1 := by
    unfold maxNumProcesses at hroom hv
    exact toInt_of_mem (by omega) (by omega)
  rw [hsub] at hcount
  constructor
  · exact isInt
  · rw [hqueue, hcount]
    omega
  · exact most
  · intro
    by_cases hnil : queue s x = []
    · rw [hnil, List.length_nil] at total
      omega
    · exact full hnil

theorem post (h : Excludes s x z) (hcount : count t x = toInt (count s x + 1))
    (hqueue : queue t x = if count s x < 0 then (queue s x).tail else queue s x)
    (hroom : (queue s x).length ≤ maxNumProcesses) (hvalue : z'.value = z.value)
    (hinside : z'.inside.length + (queue t x).length + 1 = z.inside.length + (queue s x).length)
    (hin : 0 < z.inside.length) : Excludes t x z' := by
  obtain ⟨isInt, total, most, full⟩ := h
  have hint := toInt_eq_self.mp isInt
  have hadd : toInt (count s x + 1) = count s x + 1 := by
    unfold maxNumProcesses at hroom
    exact toInt_of_mem (by omega) (by omega)
  rw [hadd] at hcount
  -- who waits finds the count below 0, so that the post lets one of them in
  have hlen : queue s x ≠ [] → (queue t x).length + 1 = (queue s x).length := by
    intro hne
    have hpos := List.length_pos_of_ne_nil hne
    have hneg : count s x < 0 := by
      have := full hne
      omega
    rw [hqueue, if_pos hneg, List.length_tail]
    omega
  have hnil : queue s x = [] → queue t x = [] := by
    intro hnil
    rw [hqueue, hnil]
    split_ifs <;> rfl
  constructor
  · rw [hvalue, isInt]
  · rw [hvalue, hcount]
    omega
  · rw [hvalue]
    by_cases hne : queue s x = []
    · rw [hne, hnil hne] at hinside
      omega
    · have := hlen hne
      omega
  · intro hne
    have hne : queue s x ≠ [] := fun h => hne (hnil h)
    have h1 := hlen hne
    have h2 := full hne
    rw [hvalue]
    omega

end Excludes

theorem SectionInv.step {L : ℕ → Section} (h : SectionInv x (s, L)) (hk : KernelInv s)
    (hsize : PoolSizes s.sems) (ht : KernelInv t) (hsizet : PoolSizes t.sems)
    (hs : kernel.step s act = .ok t) (hG : Disciplined x (s, L) act) :
    SectionInv x (t, recordSection L s act t) := by
  intro hx hv
  have hsem : SemChange x s t (semEvent s act) := (step_semEvent hk hs).change hx
  generalize hev : semEvent s act = ev at hsem
  simp only at hv ⊢
  cases hsem with
  | same other listed hcount hqueue =>
    rw [recordSection_other (hev ▸ other)] at hv ⊢
    obtain ⟨isInt, total, most, full⟩ := h listed hv
    exact ⟨isInt, by rw [hcount, hqueue]; exact total, most, fun hne => full (hqueue ▸ hne)⟩
  | create semnum value isInt hcount hqueue =>
    simpa [recordSection, hev] using Excludes.made isInt hcount hqueue
  | passes p listed positive hcount hqueue =>
    rw [recordSection_wait hk hev hs, if_pos positive] at hv ⊢
    exact (h listed hv).passes positive hcount hqueue
  | blocks p listed positive hcount hqueue =>
    rw [recordSection_wait hk hev hs, if_neg (not_lt.mpr positive)] at hv ⊢
    exact (h listed hv).blocks positive hcount hqueue (queue_length_le ht.sem hsizet x) hv
  | post listed hcount hqueue =>
    have hin := hG hev
    obtain ⟨hvalue, hinside⟩ := recordSection_post hk hev hs hin
    rw [hvalue] at hv
    obtain ⟨p, hd, args, hp, -, -⟩ := @semEvent_handler s act (by rw [hev]; simp)
    exact (h listed hv).post hcount hqueue (queue_length_le hk.sem hsize x) hvalue hinside
      (List.length_pos_of_mem (hin p hp))

/-- It holds from when the semaphore is made. -/
theorem SectionInv.since {y z : Kernel × (ℕ → Section)} (hy : kernel.Reachable y.1)
    (hnew : x ∉ y.1.sems.list.items)
    (h : (sectionKernel.startingAt y).ReachableBy (Disciplined x) z) :
    kernel.Reachable z.1 ∧ SectionInv x z := by
  refine h.invariant (P := fun z => kernel.Reachable z.1 ∧ SectionInv x z)
    ⟨hy, fun hx => absurd hx hnew⟩ ?_
  rintro ⟨s, L⟩ act ⟨t, L'⟩ - ⟨hr, hi⟩ hG hm
  have hm : sectionKernel.step (s, L) act = .ok (t, L') := hm
  obtain ⟨hs, hL⟩ := System.withRecord_step.mp hm
  obtain rfl : L' = recordSection L s act t := hL
  exact ⟨hr.next hs, hi.step (.reachable hr) (.reachable hr) (.reachable (hr.next hs))
    (.reachable (hr.next hs)) hs hG⟩

/-- Where programs use a semaphore as a lock, from when it is made, no more processes have it at a
time than its value says, none if that is negative, and a process waits for it only while as many
have it. -/
theorem semaphore_excludes {y z : Kernel × (ℕ → Section)} (hy : sectionKernel.Reachable y)
    (hnew : x ∉ y.1.sems.list.items)
    (h : (sectionKernel.startingAt y).ReachableBy (Disciplined x) z)
    (hx : x ∈ z.1.sems.list.items) (hv : maxNumProcesses - 2 ^ 31 ≤ (z.2 x).value) :
    (z.2 x).inside.length ≤ (z.2 x).value.toNat ∧
      (waiters z.1 x ≠ [] → (z.2 x).inside.length = (z.2 x).value.toNat) := by
  obtain ⟨-, hi⟩ := SectionInv.since (System.withRecord_reachable hy) hnew h
  have hexcl := hi hx hv
  exact ⟨hexcl.most, fun hne => hexcl.full fun hnil => hne (by simp [waiters, hnil])⟩

/-- The process 0 has the semaphore 7 and the process 1 waits for it; another semaphore is posted by
a process that has not waited for it. -/
theorem semaphore_excludes_second : ∃ z : Kernel × (ℕ → Section),
    waiters z.1 0 = [1] ∧ z.2 0 = ⟨1, [0]⟩ ∧
    (z.2 0).inside.length ≤ (z.2 0).value.toNat ∧
      (waiters z.1 0 ≠ [] → (z.2 0).inside.length = (z.2 0).value.toNat) := by
  refine ⟨_, ?_, ?_, semaphore_excludes (y := sectionKernel.start) .start ?_
    (System.reachableBy_replayBy
    [.syscall dsosCallSemopen [7, 1], .syscall dsosCallSemwait [0],
      .syscall dsosCallSpawn [0, 0], .syscall dsosCallPreempt [],
      .syscall dsosCallSemopen [9, 0], .syscall dsosCallSempost [0],
      .syscall dsosCallSemopen [7, 1], .syscall dsosCallSemwait [1]]) ?_ ?_⟩
  all_goals decide +kernel

end DisastrOS
