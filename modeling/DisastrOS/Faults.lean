import DisastrOS.ExitLoop
import DisastrOS.OpenAtomic
import DisastrOS.ProcessRoom
import DisastrOS.SemaphoreProgress

/-! Which calls fail, and how. -/
namespace DisastrOS
open BlockPool TransitionSystem

/-- The failure of a result. -/
def faultOf : Except Fault Kernel → Option Fault
  | .ok _ => none
  | .error e => some e

instance (s : Kernel) (id : ℤ) (openMode : BitVec 32) :
    Decidable (OpenFindsNoResource s id openMode) :=
  inferInstanceAs (Decidable (_ ∧ _ ∧ _))

/-- The failure of a call of the handler by `p`. Fork and spawn write to the block that they did not
get, and so does the open of a new resource; wait and exit detach the ready process that there is
not, exit also the pointer to itself that the parent does not have, and a process without a parent
reads through it. Init hands its children to itself. A semWait that leaves nobody to run shuts the
system down. -/
def handlerFault (s : Kernel) (p : ℕ) (args : List ℤ) : Handler → Option Fault
  | .fork | .spawn =>
    if s.pcbs.pool.free = [] ∨ s.pcbPtrs.pool.free = [] then some .nullPointer else none
  | .wait =>
    match awaitedPtr s (toInt (args.getD 0 0)) (children s p) with
    | none => none
    | some q =>
      if (s.pcb (child s q)).status ≠ .zombie ∧ (s.procs .ready).items = [] then some .nullPointer
      else none
  | .exit =>
    if s.initPcb = some p then if children s p = [] then some .nullPointer else some .endless
    else if CanGiveUp s p args .exit then none
    else some .nullPointer
  | .openResource =>
    if OpenFindsNoResource s (toInt (args.getD 0 0)) (BitVec.ofInt 32 (args.getD 2 0)) then
      some .nullPointer
    else none
  | .semWait =>
    if SemWaitBlocks s p (toInt (args.getD 0 0)) ∧ (s.procs .ready).items = [] then some .shutdown
    else none
  | .shutdown => some .shutdown
  | .preempt | .sleep | .closeResource | .destroyResource | .semOpen | .semClose | .semPost => none

/-- The failure of an action: no process runs, the number is the one behind the end of the tables,
or the handler fails. When no process runs the end of the trap fails only for want of a block for
another first process. -/
def fault (s : Kernel) : Action → Option Fault
  | .tick => if s.running = none then some .nullPointer else none
  | .returnToProcess =>
    if s.running = none ∧ s.pcbs.pool.free = [] then some .nullPointer else none
  | .syscall n args =>
    match s.running with
    | none => some .assertion
    | some p =>
      if n = dsosMaxSyscalls then some .outOfBounds
      else
        match syscallVector n with
        | none => none
        | some hd => handlerFault s p args hd

variable {s t : Kernel} {p q b i d w x : ℕ} {args : List ℤ} {n : ℤ} {act : Action} {hd : Handler}

theorem faultOf_eq_none {r : Except Fault Kernel} (h : ∃ t, r = .ok t) : faultOf r = none := by
  obtain ⟨t, rfl⟩ := h
  rfl

theorem faultOf_error {r : Except Fault Kernel} {e : Fault} (h : r = .error e) :
    faultOf r = some e := by
  subst h
  rfl

theorem internalCloseResource_isOk (h : ResInv s) (hp : s.running = some p) :
    ∃ t, internalCloseResource s = .ok t := by
  refine bind_isOk (deref_ok.mpr hp) ?_
  simp only
  split
  · exact ⟨_, rfl⟩
  · rename_i d hd
    obtain ⟨t, ht⟩ := releaseDescriptor_isOk (p := p) h (List.mem_of_find?_eq_some hd)
    exact bind_isOk ht ⟨_, rfl⟩

/-- The process at the front of a queue is in the waiting list and in no other. -/
theorem semPostWake_isOk (h : KernelInv s) (hw : w ∈ queue s x) :
    ∃ t, semPostWake s x w = .ok t := by
  have hwaiting := (h.wake.queued x w hw).1
  have hready : waiter s w ∉ (s.procs .ready).items := fun hr => by
    have := h.proc.disjoint hr hwaiting
    cases this
  have hzombie : waiter s w ∉ (s.procs .zombie).items := fun hz => by
    have := h.proc.disjoint hz hwaiting
    cases this
  have hleft : waiter s w ∉ (s.procs .waiting).items.erase (waiter s w) :=
    (h.proc.nodup .waiting).not_mem_erase
  refine bind_isOk (listDetach_ok.mpr ⟨hw, rfl⟩)
    (bind_isOk (Kernel.detachProc_ok.mpr ⟨?_, rfl⟩)
      (bind_isOk (Kernel.insertProc_last_ok.mpr ⟨?_, rfl⟩) ⟨_, rfl⟩))
  · exact hwaiting
  · simp only [waiter] at hready hzombie hleft
    simp [Kernel.Linked, hready, hzombie, hleft]

theorem internalSemPost_isOk (h : KernelInv s) (hp : s.running = some p) :
    ∃ t, internalSemPost s = .ok t := by
  refine bind_isOk (deref_ok.mpr hp) ?_
  simp only
  split
  · exact ⟨_, rfl⟩
  split
  · rename_i w hw
    split_ifs
    · obtain ⟨rest, hq⟩ := ListHead.first_eq_some hw
      obtain ⟨t, ht⟩ := semPostWake_isOk h (w := w) (x := _) (by rw [queue, hq]; simp)
      exact bind_isOk ht ⟨_, rfl⟩
    · exact ⟨_, rfl⟩
  · exact ⟨_, rfl⟩

/-! ### Exit of the first process -/

/-- A round of the loop of a process that hands its children to itself puts the first behind the
others. -/
theorem reparentChild_self {rest : List ℕ} (hc : (s.pcb p).children.items = q :: rest)
    (hnd : (q :: rest).Nodup) :
    ∃ t, reparentChild s p p q = .ok t ∧ (t.pcb p).children.items = rest ++ [q] := by
  have hq : q ∉ rest := (List.nodup_cons.mp hnd).1
  have hok : ∃ t, reparentChild s p p q = .ok t := by
    refine bind_isOk (listDetach_ok.mpr ⟨by simp [hc], rfl⟩)
      (bind_isOk (listInsert_last_ok.mpr ⟨?_, rfl⟩) ⟨_, rfl⟩)
    simpa [hc] using hq
  obtain ⟨t, ht⟩ := hok
  refine ⟨t, ht, ?_⟩
  simp only [reparentChild, bind_ok, listDetach_ok, listInsert_last_ok, Except.ok.injEq] at ht
  obtain ⟨_, ⟨-, rfl⟩, _, ⟨-, rfl⟩, rfl⟩ := ht
  simp [hc]

/-- The loop of such a process never ends. -/
theorem reparentChildren_endless {fuel : ℕ} (hne : (s.pcb p).children.items ≠ [])
    (hnd : (s.pcb p).children.items.Nodup) :
    reparentChildren fuel s p p = .error .endless := by
  induction fuel generalizing s with
  | zero => rfl
  | succ fuel ih =>
    obtain ⟨q, rest, hc⟩ := List.exists_cons_of_ne_nil hne
    obtain ⟨t, ht, hct⟩ := reparentChild_self hc (hc ▸ hnd)
    have hfirst : (s.pcb p).children.first = some q := by rw [ListHead.first, hc, List.head?_cons]
    rw [reparentChildren, hfirst]
    refine bind_error ht (ih ?_ ?_)
    · simp [hct]
    · rw [hct]
      rw [hc] at hnd
      exact (List.perm_append_singleton q rest).nodup_iff.mpr hnd

/-- Init hands its children to itself, and without children has no parent to signal. -/
theorem internalExit_init (h : KernelInv s) (hc : PtrInv s) (hp : s.running = some p)
    (hi : s.initPcb = some p) : internalExit s =
      if children s p = [] then .error .nullPointer else .error .endless := by
  have hpar : (s.pcb p).parent = none := h.proc.parent p hi
  have hl := h.proc.not_linked hp
  unfold internalExit
  split_ifs with hnil
  · have hnil' : (s.pcb p).children.items = [] := hnil
    have hloop : ∀ u : Kernel, (u.pcb p).children = (s.pcb p).children →
        reparentChildren ((u.pcb p).children.items.length + 1) u p p = .ok u := fun u hu => by
      rw [reparentChildren, ListHead.first, hu, hnil']
      rfl
    refine bind_stuck (bind_error (deref_ok.mpr hp) ?_)
    simp only [Kernel.emit_initPcb, Kernel.modPcb_initPcb, hi]
    refine bind_error (hloop _ (by simp)) (bind_error (Kernel.insertProc_last_ok.mpr ⟨?_, rfl⟩)
      (bind_stuck ?_))
    · simpa [Kernel.Linked] using hl
    · simp [hpar, deref]
  · refine bind_stuck (bind_error (deref_ok.mpr hp) ?_)
    simp only [Kernel.emit_initPcb, Kernel.modPcb_initPcb, hi]
    refine bind_stuck (reparentChildren_endless ?_ ?_)
    · simpa [children] using hnil
    · simpa using (show (s.pcb p).children.items.Nodup from hc.nodup p)

/-! ### The calls that can fail -/

theorem spawn_fault (h : kernel.Reachable s) (hp : s.running = some p)
    (hhd : hd = .spawn ∨ hd = .fork) : faultOf (kernel.step s (.syscall hd.number args)) =
      if s.pcbs.pool.free = [] ∨ s.pcbPtrs.pool.free = [] then some .nullPointer else none := by
  split_ifs with hfull
  · exact faultOf_error (spawn_stuck hhd hp hfull)
  · obtain ⟨hb, hq⟩ := not_or.mp hfull
    obtain ⟨t, b, q, cpu, ht, -⟩ := spawn_added args h hhd hp hb hq
    exact faultOf_eq_none ⟨t, ht⟩

theorem internalWait_fault (h : KernelInv s) (hp : s.running = some p) :
    faultOf (internalWait s) =
      match awaitedPtr s (toInt ((s.pcb p).syscallArgs 0)) (children s p) with
      | none => none
      | some q =>
        if (s.pcb (child s q)).status ≠ .zombie ∧ (s.procs .ready).items = [] then
          some .nullPointer
        else none := by
  cases hq : awaitedPtr s (toInt ((s.pcb p).syscallArgs 0)) (children s p) with
  | none => exact faultOf_eq_none ⟨_, internalWait_none hp hq⟩
  | some q =>
    rw [internalWait_some hp hq]
    by_cases hz : (s.pcb (child s q)).status = .zombie
    · have hlisted : s.Linked (child s q) → child s q ∈ (s.procs .zombie).items := fun hl => by
        have hu : s.pcbs.InUse (child s q) := by
          rcases hl with hl | hl | hl
          all_goals exact h.proc.inUse_of_mem hl
        exact (h.proc.zombie _ hu).mp hz
      obtain ⟨t, ht, -⟩ := collectZombie_isOk (awaitedPtr_mem hq) hlisted
      simp only [hz, if_true, ne_eq, not_true, false_and, if_false]
      exact faultOf_eq_none ⟨t, ht⟩
    · simp only [hz, if_false, ne_eq, not_false_iff, true_and]
      have hl := h.proc.not_linked hp
      split_ifs with hr
      · exact faultOf_error (waitBlock_stuck hl hr)
      · obtain ⟨q', rest, hqr⟩ := List.exists_cons_of_ne_nil hr
        exact faultOf_eq_none ⟨_, waitBlock_ok.mpr ⟨hl, q', rest, hqr, rfl⟩⟩

theorem internalSemWait_fault (h : KernelInv s) (hp : s.running = some p) :
    faultOf (internalSemWait s) = if SemWaitBlocks s p (toInt ((s.pcb p).syscallArgs 0)) ∧
      (s.procs .ready).items = [] then some .shutdown else none := by
  rcases internalSemWait_returns h hp with ⟨hb, hr, hs⟩ | ⟨hb, ht⟩
  · rw [if_pos ⟨hb, hr⟩]
    exact faultOf_error hs
  · rw [if_neg fun hn => hb hn.1 hn.2]
    exact faultOf_eq_none ht

theorem internalOpenResource_fault (h : Lockstep s.resources) (hi : ResInv s)
    (hp : s.running = some p) : faultOf (internalOpenResource s) =
      if OpenFindsNoResource s (toInt ((s.pcb p).syscallArgs 0)) (openModeOf s p) then
        some .nullPointer
      else none := by
  have herr := fun f => internalOpenResource_error (f := f) h hi hp
  cases hr : internalOpenResource s with
  | ok t =>
    rw [if_neg fun hno => ?_]
    · rfl
    · have := (herr .nullPointer).mpr ⟨rfl, hno⟩
      rw [hr] at this
      cases this
  | error f =>
    obtain ⟨rfl, hno⟩ := (herr f).mp hr
    rw [if_pos hno]
    rfl

theorem exit_fault (h : kernel.Reachable s) (hp : s.running = some p) :
    faultOf (kernel.step s (.syscall Handler.exit.number args)) =
      if s.initPcb = some p then if children s p = [] then some .nullPointer else some .endless
      else if CanGiveUp s p args .exit then none
      else some .nullPointer := by
  have hk : KernelInv s := .reachable h
  have hke : KernelInv (enterSyscall s p Handler.exit.number args) := hk.enter hp
  have hpe : (enterSyscall s p Handler.exit.number args).running = some p := hp
  have hc : PtrInv (enterSyscall s p Handler.exit.number args) :=
    (PtrInv.reachable h).family enterSyscall_family
  have hres : ResInv (enterSyscall s p Handler.exit.number args) :=
    (ResInv.reachable h).frame (enterSyscall_resources s p _ args)
  have hstep : kernel.step s (.syscall Handler.exit.number args) =
      internalExit (enterSyscall s p Handler.exit.number args) :=
    @step_handler s p .exit args hp
  by_cases hi : s.initPcb = some p
  · have hch : children (enterSyscall s p Handler.exit.number args) p = children s p := by
      simp [children, enterSyscall]
    rw [if_pos hi, hstep, internalExit_init hke hc hpe hi, hch]
    split_ifs <;> rfl
  · have hsafe := givesUpSafely_iff h hp .exit (Or.inr (Or.inl rfl)) (fun _ => hi) args
    have hleaves : LeavesRunning s p .exit (kernel.step s (.syscall Handler.exit.number args)) ↔
        CanGiveUp s p args .exit := by
      rw [← hsafe, GivesUpSafely]
      exact ⟨fun hl => ⟨fun he => by (cases he), hl⟩, fun hl => hl.2⟩
    obtain ⟨i, hi', -, -⟩ := hk.proc.init
    have hpi : p ≠ i := fun he => hi (he ▸ hi')
    rw [if_neg hi]
    rcases internalExit_cases hke hc hres hpe hi' hpi with ⟨-, t, q, ht, hq, hnext⟩ | ⟨-, he⟩
    · rw [← hstep] at ht
      have hcan : CanGiveUp s p args .exit :=
        hleaves.mp ((leavesRunning_enterSyscall s p _ args _).mp (.of_ok ht hq hnext))
      rw [if_pos hcan]
      exact faultOf_eq_none ⟨t, ht⟩
    · rw [← hstep] at he
      rw [if_neg fun hcan => not_leavesRunning he (hleaves.mpr hcan)]
      exact faultOf_error he

/-! ### All actions -/

theorem handler_fault (h : kernel.Reachable s) (hp : s.running = some p) (hd : Handler) :
    faultOf (kernel.step s (.syscall hd.number args)) = handlerFault s p args hd := by
  have hk : KernelInv s := .reachable h
  have hke : KernelInv (enterSyscall s p hd.number args) := hk.enter hp
  have hpe : (enterSyscall s p hd.number args).running = some p := hp
  have hres : ResInv (enterSyscall s p hd.number args) :=
    (ResInv.reachable h).frame (enterSyscall_resources s p _ args)
  have hlock : Lockstep (enterSyscall s p hd.number args).resources :=
    (Lockstep.reachable h).of_eq (enterSyscall_resources s p _ args).resources
  have hstep : kernel.step s (.syscall hd.number args) =
      runHandler hd (enterSyscall s p hd.number args) := step_handler hp
  cases hd with
  | preempt => exact faultOf_eq_none (hstep ▸ internalSchedule_isOk hke hpe)
  | fork => exact spawn_fault h hp (Or.inr rfl)
  | spawn => exact spawn_fault h hp (Or.inl rfl)
  | wait =>
    have hstatus : ∀ q, ((enterSyscall s p Handler.wait.number args).pcb q).status =
        (s.pcb q).status := fun q => by simp [enterSyscall]
    have hch : children (enterSyscall s p Handler.wait.number args) p = children s p := by
      simp [children, enterSyscall]
    have hwait := internalWait_fault hke hpe
    rw [enterSyscall_arg (by decide), awaitedPtr_enterSyscall, hch] at hwait
    simp only [hstatus] at hwait
    rw [hstep]
    exact hwait
  | exit => exact exit_fault h hp
  | sleep => exact faultOf_eq_none (hstep ▸ internalSleep_isOk hke hpe)
  | openResource =>
    have hopen := internalOpenResource_fault hlock hres hpe
    rw [openModeOf, enterSyscall_arg (by decide), enterSyscall_arg (by decide)] at hopen
    rw [hstep]
    exact hopen
  | closeResource => exact faultOf_eq_none (hstep ▸ internalCloseResource_isOk hres hpe)
  | destroyResource => exact faultOf_eq_none (hstep ▸ internalDestroyResource_isOk hlock hpe)
  | shutdown => exact faultOf_error hstep
  | semOpen => exact faultOf_eq_none (hstep ▸ internalSemOpen_isOk hke hpe)
  | semClose => exact faultOf_eq_none (hstep ▸ internalSemClose_isOk hke hpe)
  | semWait =>
    have hwait := internalSemWait_fault hke hpe
    rw [enterSyscall_arg (by decide)] at hwait
    have hblocks : SemWaitBlocks (enterSyscall s p Handler.semWait.number args) p
        (toInt (args.getD 0 0)) = SemWaitBlocks s p (toInt (args.getD 0 0)) := by
      simp [SemWaitBlocks, enterSyscall]
    simp only [hblocks] at hwait
    rw [hstep]
    exact hwait
  | semPost => exact faultOf_eq_none (hstep ▸ internalSemPost_isOk hke hpe)

end DisastrOS
