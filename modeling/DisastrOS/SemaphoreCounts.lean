import DisastrOS.SemaphoreCalls
import DisastrOS.Blocking

/-! What the count of a semaphore says. -/
namespace DisastrOS
open BlockPool TransitionSystem

variable {s t u : Kernel} {p q b d e w x y : ℕ} {act : Action} {args : List ℤ}

def count (s : Kernel) (x : ℕ) : ℤ := (s.sems.semaphore.cell x).count

/-- A semaphore is made with a value that is not negative, and is not posted while its count is
the largest integer. -/
def EventFits (s : Kernel) : SemEvent → Prop
  | .create _ _ value => 0 ≤ value
  | .post x => count s x < 2 ^ 31 - 1
  | _ => True

instance (s : Kernel) (ev : SemEvent) : Decidable (EventFits s ev) :=
  match ev with
  | .create _ _ value => inferInstanceAs (Decidable (0 ≤ value))
  | .post _ => inferInstanceAs (Decidable (_ < _))
  | .none | .remove _ | .wait _ _ => inferInstanceAs (Decidable True)

def CountsFit (s : Kernel) (act : Action) : Prop := EventFits s (semEvent s act)

instance (s : Kernel) (act : Action) : Decidable (CountsFit s act) :=
  inferInstanceAs (Decidable (EventFits _ _))

/-- As many processes wait as the count is below 0. -/
def CountInv (s : Kernel) : Prop :=
  ∀ x ∈ s.sems.list.items, (queue s x).length = (-count s x).toNat ∧ count s x < 2 ^ 31

/-- No queue is longer than there are pointers. -/
theorem queue_length_le (h : SemInv s) (hsize : PoolSizes s.sems) (x : ℕ) :
    (queue s x).length ≤ maxNumProcesses := by
  have hsub : (queue s x).toFinset ⊆ Finset.range maxNumProcesses := by
    intro w hw
    have hw := List.mem_toFinset.mp hw
    have hq := h.queued x w hw
    have hu := (h.linked _ _ hq.isOpen).waitPtrInUse
    rw [hq.waitPtr] at hu
    exact Finset.mem_range.mpr (hsize.descriptorPtr ▸ hu.lt)
  have hcard := Finset.card_le_card hsub
  rwa [List.toFinset_card_of_nodup (h.queueNodup x), Finset.card_range] at hcard

namespace CountInv

theorem le_zero (h : CountInv s) (hx : x ∈ s.sems.list.items) (hne : queue s x ≠ []) :
    count s x < 0 := by
  have hlen := (h x hx).1
  have hpos := List.length_pos_of_ne_nil hne
  omega

theorem eq_nil (h : CountInv s) (hx : x ∈ s.sems.list.items) (h0 : 0 ≤ count s x) :
    queue s x = [] := by
  have hlen := (h x hx).1
  exact List.length_eq_zero_iff.mp (by omega)

theorem same (h : CountInv s) (hy : y ∈ s.sems.list.items) (hs : SameSem s t y) :
    (queue t y).length = (-count t y).toNat ∧ count t y < 2 ^ 31 := by
  rw [count, hs.count, hs.queue]
  exact h y hy

/-- What a wait and a post make of a count that fits. -/
theorem wait_count (h : CountInv s) (hsem : SemInv s) (hsize : PoolSizes s.sems)
    (hx : x ∈ s.sems.list.items) : toInt (count s x - 1) = count s x - 1 := by
  have hlen := queue_length_le hsem hsize x
  obtain ⟨hq, hlt⟩ := h x hx
  unfold maxNumProcesses at hlen
  exact Int.bmod_eq_of_le (by omega) (by omega)

theorem post_count (h : CountInv s) (hsem : SemInv s) (hsize : PoolSizes s.sems)
    (hx : x ∈ s.sems.list.items) (hfit : count s x < 2 ^ 31 - 1) :
    toInt (count s x + 1) = count s x + 1 := by
  have hlen := queue_length_le hsem hsize x
  obtain ⟨hq, -⟩ := h x hx
  unfold maxNumProcesses at hlen
  exact Int.bmod_eq_of_le (by omega) (by omega)

theorem step {ev : SemEvent} (h : CountInv s) (hsem : SemInv s) (hsize : PoolSizes s.sems)
    (hs : SemStep s t ev) (hfit : EventFits s ev) : CountInv t := by
  intro y hy
  cases hs with
  | none list same =>
    rw [list] at hy
    exact h.same hy (same y hy)
  | create x semnum value isInt unknown new list id hcount hqueue same =>
    rw [list, List.mem_append, List.mem_singleton] at hy
    rcases hy with hy | rfl
    · exact h.same hy (same y hy)
    · rw [count, hcount, hqueue]
      have h0 : 0 ≤ value := hfit
      exact ⟨by rw [List.length_nil]; omega, isInt ▸ toInt_lt value⟩
  | remove x listed list same =>
    rw [list] at hy
    have hy := List.mem_of_mem_erase hy
    exact h.same hy (same y hy)
  | wait x p w listed list id hcount hqueue waiters same =>
    rw [list] at hy
    by_cases hyx : y = x
    · subst hyx
      obtain ⟨hq, hlt⟩ := h y hy
      have hc : count t y = count s y - 1 := hcount.trans (h.wait_count hsem hsize hy)
      rw [hqueue, hc]
      refine ⟨?_, by omega⟩
      split_ifs with hpos
      · change 0 < count s y at hpos
        omega
      · change ¬ 0 < count s y at hpos
        rw [List.length_append, List.length_singleton]
        omega
    · exact h.same hy (same y hy hyx)
  | post x listed list id hcount hqueue waiters same =>
    rw [list] at hy
    by_cases hyx : y = x
    · subst hyx
      obtain ⟨hq, -⟩ := h y hy
      have hlt : count s y < 2 ^ 31 - 1 := hfit
      have hc : count t y = count s y + 1 := hcount.trans (h.post_count hsem hsize hy hlt)
      rw [hqueue, hc]
      refine ⟨?_, by omega⟩
      split_ifs with hneg
      · change count s y < 0 at hneg
        rw [List.length_tail]
        omega
      · change ¬ count s y < 0 at hneg
        omega
    · exact h.same hy (same y hy hyx)

theorem reachableBy (h : kernel.ReachableBy CountsFit s) : CountInv s := by
  refine h.invariant (P := CountInv) ?_ fun s act t hr hi hG hm => ?_
  · obtain ⟨t, -, -, hs⟩ := disastrOSStart_eq
    change CountInv disastrOSStart
    rw [hs]
    exact fun x hx => absurd hx List.not_mem_nil
  · have hk := KernelInv.reachable hr.reachable
    exact hi.step hk.sem (.reachable hr.reachable) (step_semEvent hk hm) hG

end CountInv
/-! ### The processes that wait and post -/

/-- Nobody changes places. -/
structure NobodyMoves (s t : Kernel) : Prop where
  running : t.running = s.running
  procs : ∀ l, t.procs l = s.procs l
  status : ∀ k, (t.pcb k).status = (s.pcb k).status

/-- The running process `p` goes to the end of the waiting list, and the first ready one runs. -/
structure Suspends (s t : Kernel) (p : ℕ) : Prop where
  next : ∃ q rest, (s.procs .ready).items = q :: rest ∧ t.running = some q ∧
    (t.procs .ready).items = rest
  waiting : (t.procs .waiting).items = (s.procs .waiting).items ++ [p]
  status : ∀ k, (t.pcb k).status = if k = p then .waiting else (s.pcb k).status

/-- The process `b` goes from the waiting list to the end of the ready list. -/
structure Grants (s t : Kernel) (b : ℕ) : Prop where
  running : t.running = s.running
  wasWaiting : b ∈ (s.procs .waiting).items
  waiting : (t.procs .waiting).items = (s.procs .waiting).items.erase b
  ready : (t.procs .ready).items = (s.procs .ready).items ++ [b]
  status : ∀ k, (t.pcb k).status = if k = b then .ready else (s.pcb k).status

theorem calledSemaphore_eq {fd : ℤ} (h : calledSemaphore s p fd = some x) :
    ∃ d, semDescriptorListByFd s.sems (s.pcb p).semDescriptors fd = some d ∧
      (s.sems.descriptor.cell d).semaphore = x := by
  simpa [calledSemaphore] using h

theorem internalSemWait_moves (hs : internalSemWait s = .ok t) (hp : s.running = some p)
    (hcall : calledSemaphore s p (toInt ((s.pcb p).syscallArgs 0)) = some x) :
    0 < count s x ∧ NobodyMoves s t ∨ count s x ≤ 0 ∧ Suspends s t p := by
  obtain ⟨d, hd, hx⟩ := calledSemaphore_eq hcall
  obtain ⟨p', hp', hcase⟩ := internalSemWait_ok hs
  obtain rfl : p = p' := Option.some.inj (hp.symm.trans hp')
  rcases hcase with ⟨hnone, -⟩ | ⟨d', x', w, hd', hx', -, hcase⟩
  · rw [hd] at hnone
    cases hnone
  obtain rfl : d = d' := Option.some.inj (hd.symm.trans hd')
  obtain rfl : x = x' := hx.symm.trans hx'
  rcases hcase with ⟨hpos, rfl⟩ | ⟨hneg, -, -, q, rest, hr, rfl⟩
  · exact Or.inl ⟨hpos, by simp, by simp, by simp⟩
  · refine Or.inr ⟨hneg, ⟨q, rest, hr, ?_, ?_⟩, ?_, fun k => ?_⟩
    · simp [dispatched]
    · simp [dispatched]
    · simp [dispatched, suspended]
    · by_cases hk : k = p
      · simp [dispatched, suspended, hk]
      · simp [dispatched, suspended, hk]

theorem internalSemPost_moves (hs : internalSemPost s = .ok t) (hp : s.running = some p)
    (hcall : calledSemaphore s p (toInt ((s.pcb p).syscallArgs 0)) = some x) :
    (0 ≤ count s x ∨ queue s x = []) ∧ NobodyMoves s t ∨
      count s x < 0 ∧ ∃ b rest, waiters s x = b :: rest ∧ Grants s t b := by
  obtain ⟨d, hd, hx⟩ := calledSemaphore_eq hcall
  obtain ⟨p', hp', hcase⟩ := internalSemPost_ok hs
  obtain rfl : p = p' := Option.some.inj (hp.symm.trans hp')
  rcases hcase with ⟨hnone, -⟩ | ⟨d', x', hd', hx', hcase⟩
  · rw [hd] at hnone
    cases hnone
  obtain rfl : d = d' := Option.some.inj (hd.symm.trans hd')
  obtain rfl : x = x' := hx.symm.trans hx'
  rcases hcase with ⟨hidle, rfl⟩ | ⟨hneg, w, rest, b, hqw, hb, hwaiting, -, -, -, rfl⟩
  · exact Or.inl ⟨hidle, by simp, by simp, by simp⟩
  · refine Or.inr ⟨hneg, b, rest.map (waiter s), ?_, ?_, hwaiting, ?_, ?_, fun k => ?_⟩
    · rw [waiters, queue, hqw, List.map_cons]
      exact congrArg (· :: _) hb
    · simp [semWoken]
    · simp [semWoken]
    · simp [semWoken]
    · by_cases hk : k = b
      · simp [semWoken, hk]
      · simp [semWoken, hk]

theorem NobodyMoves.entered {n : ℤ} (h : NobodyMoves (enterSyscall s p n args) t) :
    NobodyMoves s t :=
  ⟨h.running, h.procs, fun k => (h.status k).trans (by simp [enterSyscall])⟩

/-- A wait passes while the count is above 0, and suspends the process otherwise. -/
theorem wait_moves (hev : semEvent s act = .wait x p) (hs : step s act = .ok t) :
    s.running = some p ∧ (0 < count s x ∧ NobodyMoves s t ∨ count s x ≤ 0 ∧ Suspends s t p) := by
  obtain ⟨p', hd, args, hp, rfl, hh⟩ := @semEvent_handler s act (by rw [hev]; simp)
  obtain ⟨rfl, rfl, hcall⟩ := handlerEvent_wait (hh.symm.trans hev)
  have hrun := (step_handler hp).symm.trans hs
  refine ⟨hp, ?_⟩
  rcases internalSemWait_moves hrun hp hcall with ⟨hc, hm⟩ | ⟨hc, hnext, hwaiting, hstatus⟩
  · exact Or.inl ⟨hc, hm.entered⟩
  · refine Or.inr ⟨hc, hnext, hwaiting, fun k => ?_⟩
    rw [hstatus]
    simp [enterSyscall]

/-- A post below 0 grants the semaphore to the first process that waits. -/
theorem post_moves (hev : semEvent s act = .post x) (hs : step s act = .ok t) :
    (0 ≤ count s x ∨ queue s x = []) ∧ NobodyMoves s t ∨
      count s x < 0 ∧ ∃ b rest, waiters s x = b :: rest ∧ Grants s t b := by
  obtain ⟨p, hd, args, hp, rfl, hh⟩ := @semEvent_handler s act (by rw [hev]; simp)
  obtain ⟨rfl, hcall⟩ := handlerEvent_post (hh.symm.trans hev)
  have hrun := (step_handler hp).symm.trans hs
  rcases internalSemPost_moves hrun hp hcall with ⟨hc, hm⟩ | ⟨hc, b, rest, hb, hg⟩
  · exact Or.inl ⟨hc, hm.entered⟩
  · obtain ⟨hrunning, hwas, hwaiting, hready, hstatus⟩ := hg
    refine Or.inr ⟨hc, b, rest, hb, hrunning, hwas, hwaiting, hready, fun k => ?_⟩
    rw [hstatus]
    simp [enterSyscall]

/-! ### Counting the calls -/

/-- The value with which a semaphore was made, and how often it has been waited for and posted
since. -/
structure Ledger where
  value : ℤ
  waits : ℕ
  posts : ℕ
  deriving DecidableEq, Repr

def recordEvent (L : ℕ → Ledger) : SemEvent → ℕ → Ledger
  | .create x _ value => Function.update L x ⟨value, 0, 0⟩
  | .wait x _ => Function.update L x { L x with waits := (L x).waits + 1 }
  | .post x => Function.update L x { L x with posts := (L x).posts + 1 }
  | .remove _ | .none => L

/-- The kernel with a ledger for every semaphore. -/
def countedKernel : System (Kernel × (ℕ → Ledger)) Action Fault :=
  kernel.withRecord (fun _ => ⟨0, 0, 0⟩) fun s act _ L => recordEvent L (semEvent s act)

/-- The count of a semaphore says what has happened to it, and how many processes wait for it. -/
structure CountMeans (s : Kernel) (L : ℕ → Ledger) : Prop where
  exact : ∀ x ∈ s.sems.list.items, count s x = (L x).value - (L x).waits + (L x).posts
  negative : ∀ x ∈ s.sems.list.items, count s x < 0 ↔ queue s x ≠ []
  waiting : ∀ x ∈ s.sems.list.items, count s x < 0 → ((queue s x).length : ℤ) = -count s x ∧
    (s.sems.semaphore.cell x).waitingDescriptors.size = -count s x
  wakes : ∀ x act t, semEvent s act = .post x → kernel.step s act = .ok t → count s x < 0 →
    ∃ b rest, waiters s x = b :: rest ∧ Grants s t b
  leaves : ∀ x act t, semEvent s act = .post x → kernel.step s act = .ok t → 0 ≤ count s x →
    queue t x = []

/-- The counts are what the ledger says. -/
def LedgerInv (s : Kernel) (L : ℕ → Ledger) : Prop :=
  ∀ x ∈ s.sems.list.items, count s x = (L x).value - (L x).waits + (L x).posts

theorem LedgerInv.step {ev : SemEvent} {L : ℕ → Ledger} (h : LedgerInv s L) (hc : CountInv s)
    (hsem : SemInv s) (hsize : PoolSizes s.sems) (hs : SemStep s t ev) (hfit : EventFits s ev) :
    LedgerInv t (recordEvent L ev) := by
  intro y hy
  have hkeep : ∀ {z}, z ∈ s.sems.list.items → SameSem s t z →
      count t z = (L z).value - (L z).waits + (L z).posts := fun hz hsame =>
    hsame.count.trans (h _ hz)
  cases hs with
  | none list same =>
    rw [list] at hy
    exact hkeep hy (same y hy)
  | create x semnum value isInt unknown new list id hcount hqueue same =>
    rw [list, List.mem_append, List.mem_singleton] at hy
    rcases hy with hy | rfl
    · have hyx : y ≠ x := fun he => new (he ▸ hy)
      simp only [recordEvent, Function.update_of_ne hyx]
      exact hkeep hy (same y hy)
    · simp [recordEvent, count, hcount]
  | remove x listed list same =>
    rw [list] at hy
    have hy := List.mem_of_mem_erase hy
    exact hkeep hy (same y hy)
  | wait x p w listed list id hcount hqueue waiters same =>
    rw [list] at hy
    by_cases hyx : y = x
    · subst hyx
      have hcy : count t y = count s y - 1 := hcount.trans (hc.wait_count hsem hsize hy)
      simp only [recordEvent, Function.update_self, hcy, h y hy]
      omega
    · simp only [recordEvent, Function.update_of_ne hyx]
      exact hkeep hy (same y hy hyx)
  | post x listed list id hcount hqueue waiters same =>
    rw [list] at hy
    by_cases hyx : y = x
    · subst hyx
      have hcy : count t y = count s y + 1 := hcount.trans (hc.post_count hsem hsize hy hfit)
      simp only [recordEvent, Function.update_self, hcy, h y hy]
      omega
    · simp only [recordEvent, Function.update_of_ne hyx]
      exact hkeep hy (same y hy hyx)

theorem LedgerInv.reachableBy {L : ℕ → Ledger}
    (h : countedKernel.ReachableBy (fun y act => CountsFit y.1 act) (s, L)) :
    kernel.ReachableBy CountsFit s ∧ LedgerInv s L := by
  refine h.invariant (P := fun y => kernel.ReachableBy CountsFit y.1 ∧ LedgerInv y.1 y.2) ?_ ?_
  · refine ⟨.start, ?_⟩
    obtain ⟨t, -, -, hs⟩ := disastrOSStart_eq
    change LedgerInv disastrOSStart _
    rw [hs]
    exact fun x hx => absurd hx List.not_mem_nil
  · rintro ⟨s, L⟩ act ⟨t, L'⟩ - ⟨hr, hi⟩ hG hm
    obtain ⟨hs, hL⟩ := System.withRecord_step.mp hm
    have hk := KernelInv.reachable hr.reachable
    refine ⟨hr.step hG hs, ?_⟩
    change LedgerInv t L'
    rw [show L' = recordEvent L (semEvent s act) from hL]
    exact hi.step (.reachableBy hr) hk.sem (.reachable hr.reachable) (step_semEvent hk hs) hG

/-- As long as semaphores are made with values that are not negative, and no count overflows,
a count is the value less the waits plus the posts, and below 0 it tells how many wait. -/
theorem count_means {L : ℕ → Ledger}
    (h : countedKernel.ReachableBy (fun y act => CountsFit y.1 act) (s, L)) : CountMeans s L := by
  obtain ⟨hr, hL⟩ := LedgerInv.reachableBy h
  have hc := CountInv.reachableBy hr
  have hk := KernelInv.reachable hr.reachable
  have hneg : ∀ x ∈ s.sems.list.items, count s x < 0 ↔ queue s x ≠ [] := fun x hx =>
    ⟨fun hlt hnil => by have := (hc x hx).1; simp only [hnil, List.length_nil] at this; omega,
      hc.le_zero hx⟩
  constructor
  case exact => exact hL
  case negative => exact hneg
  case waiting =>
    intro x hx hlt
    have hlen := (hc x hx).1
    rw [hk.sem.queueSize]
    omega
  case wakes =>
    intro x act t hev hs hlt
    have hlisted : x ∈ s.sems.list.items := by
      have hstep := step_semEvent hk hs
      rw [hev] at hstep
      cases hstep with
      | post _ listed => exact listed
    rcases post_moves hev hs with ⟨hidle, -⟩ | ⟨-, hb⟩
    · rcases hidle with h0 | hnil
      · omega
      · exact absurd hnil ((hneg x hlisted).mp hlt)
    · exact hb
  case leaves =>
    intro x act t hev hs h0
    have hstep := step_semEvent hk hs
    rw [hev] at hstep
    cases hstep with
    | post _ listed _ _ _ hqueue =>
      have h0' : ¬ (s.sems.semaphore.cell x).count < 0 := not_lt.mpr h0
      rw [hqueue, if_neg h0']
      exact hc.eq_nil listed h0

theorem count_means_granted :
    let y := countedKernel.replayBy (fun y act => CountsFit y.1 act)
      [.syscall dsosCallSemopen [7, 1], .syscall dsosCallSpawn [0, 0], .syscall dsosCallSemwait [0],
        .syscall dsosCallSemwait [0], .syscall dsosCallSemopen [7, 3], .syscall dsosCallSempost [0]]
    y.2 0 = ⟨1, 2, 1⟩ ∧ CountMeans y.1 y.2 := by
  exact ⟨by decide +kernel, count_means (System.reachableBy_replayBy _)⟩

/-- A semaphore made with the value -1 has a negative count and nobody who waits; one made with
the largest integer has, after a post, the smallest. -/
theorem count_misleads :
    (∃ y, countedKernel.Reachable y ∧ y.1.sems.list.items = [0] ∧ count y.1 0 = -1 ∧
      queue y.1 0 = []) ∧
    ∃ y, countedKernel.Reachable y ∧ y.1.sems.list.items = [0] ∧ count y.1 0 = -2 ^ 31 ∧
      queue y.1 0 = [] ∧ y.2 0 = ⟨2 ^ 31 - 1, 0, 1⟩ := by
  refine ⟨⟨_, System.reachable_replay [.syscall dsosCallSemopen [7, -1]], ?_⟩,
    ⟨_, System.reachable_replay [.syscall dsosCallSemopen [7, 2 ^ 31 - 1],
      .syscall dsosCallSempost [0]], ?_⟩⟩
  · decide +kernel
  · decide +kernel

end DisastrOS
