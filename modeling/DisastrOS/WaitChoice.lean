import DisastrOS.Blocking

/-! Which child a wait collects, and when it blocks or fails. -/
namespace DisastrOS
open BlockPool TransitionSystem

variable {s t u : Kernel} {p q b a i : ℕ} {pid : ℤ} {act : Action} {args : List ℤ}

/-- A wait for `pid` asks for the child behind `q`: for a zombie if `pid` is 0, and for the
process `pid` otherwise. -/
def Asked (s : Kernel) (pid : ℤ) (q : ℕ) : Prop :=
  pid = 0 ∧ (s.pcb (child s q)).status = .zombie ∨ pid ≠ 0 ∧ (s.pcb (child s q)).pid = pid

instance (s : Kernel) (pid : ℤ) (q : ℕ) : Decidable (Asked s pid q) :=
  inferInstanceAs (Decidable (_ ∨ _))

/-- The first child of `p` that a wait for `pid` asks for. -/
def askedChild (s : Kernel) (p : ℕ) (pid : ℤ) : Option ℕ :=
  (children s p).find? fun q => decide (Asked s pid q)

/-- How a wait of `p` for `pid` is to end. -/
inductive WaitEnds (s t : Kernel) (p : ℕ) (pid : ℤ) : Prop
  | noChild (none : children s p = []) (result : t = s.setRetvalue p dsosEwait)
  | notChild (named : pid ≠ 0) (none : askedChild s p pid = none)
      (result : t = s.setRetvalue p dsosEwait)
  | collects (q : ℕ) (asked : askedChild s p pid = some q)
      (zombie : (s.pcb (child s q)).status = .zombie) (result : t = reaped s p q (child s q))
      (returns : pid ≠ 0 → (t.pcb p).syscallRetvalue = pid)
  | blocks (some : children s p ≠ []) (asked : pid = 0 ∨ askedChild s p pid ≠ none)
      (alive : ∀ q ∈ askedChild s p pid, (s.pcb (child s q)).status ≠ .zombie)
      (result : ∃ r rest, (s.procs .ready).items = r :: rest ∧
        t = dispatched (suspended s p) r rest)

/-- The scan of a wait falls back to the last child. -/
theorem awaitedPtr_eq (l : List ℕ) : awaitedPtr s pid l =
    (l.find? fun q => decide (Asked s pid q)).or l.getLast? := by
  induction l with
  | nil => rfl
  | cons q qs ih =>
    cases qs with
    | nil =>
      rw [awaitedPtr, List.find?_cons]
      split <;> simp
    | cons q' qs =>
      rw [awaitedPtr, List.find?_cons, List.getLast?_cons_cons, ih]
      by_cases hq : Asked s pid q
      · simp only [hq, decide_true, Option.some_or]
        exact if_pos hq
      · simp only [hq, decide_false]
        exact if_neg hq

theorem asked_of_askedChild (h : askedChild s p pid = some q) : Asked s pid q := by
  simpa using List.find?_some h

/-- What a wait of `p` for `pid` needs: a child that it can ask for, and a ready process if that
child is no zombie. -/
def WaitCanEnd (s : Kernel) (p : ℕ) (pid : ℤ) : Prop :=
  children s p = [] ∨ (pid = 0 ∨ askedChild s p pid ≠ none) ∧
    ((∃ q ∈ askedChild s p pid, (s.pcb (child s q)).status = .zombie) ∨
      (s.procs .ready).items ≠ [])

instance (s : Kernel) (p : ℕ) (pid : ℤ) : Decidable (WaitCanEnd s p pid) :=
  inferInstanceAs (Decidable (_ ∨ (_ ∨ _) ∧ ((∃ q ∈ askedChild s p pid, _) ∨ _)))

/-- A process that has blocked or collected a child has not been given an error. -/
theorem WaitEnds.not_refused (h : internalWait s = .ok t) (hp : s.running = some p)
    (hne : children s p ≠ []) : t ≠ s.setRetvalue p dsosEwait := by
  rintro rfl
  obtain ⟨p', hp', ⟨hnil, -⟩ | ⟨q, b, -, -, ⟨-, hc⟩ | ⟨-, hb⟩⟩⟩ := internalWait_ok h
  · obtain rfl : p = p' := Option.some.inj (hp.symm.trans hp')
    exact hne hnil
  · obtain ⟨-, -, ht⟩ := collectZombie_ok hc
    have := congrArg Kernel.trace ht
    simp [reaped] at this
  · obtain ⟨-, r, rest, -, ht⟩ := waitBlock_ok.mp hb
    have := congrArg Kernel.trace ht
    simp [dispatched, suspended] at this

/-- A wait that can end collects the child that it asks for, or blocks. -/
theorem internalWait_ends (h : KernelInv s) (hp : s.running = some p)
    (hpid : toInt ((s.pcb p).syscallArgs 0) = pid) (hcan : WaitCanEnd s p pid) :
    ∃ t, internalWait s = .ok t ∧ WaitEnds s t p pid := by
  have hl := h.proc.not_linked hp
  by_cases hnil : children s p = []
  · have hnone : awaitedPtr s (toInt ((s.pcb p).syscallArgs 0)) (children s p) = none :=
      awaitedPtr_eq_none.mpr hnil
    exact ⟨_, internalWait_none hp hnone, .noChild hnil rfl⟩
  obtain ⟨hasked, hgo⟩ := hcan.resolve_left hnil
  have hblocks : ∀ c, awaitedPtr s pid (children s p) = some c →
      (s.pcb (child s c)).status ≠ .zombie →
      (∀ q ∈ askedChild s p pid, (s.pcb (child s q)).status ≠ .zombie) →
      ∃ t, internalWait s = .ok t ∧ WaitEnds s t p pid := by
    intro c hc hz hall
    have hready : (s.procs .ready).items ≠ [] :=
      hgo.resolve_left fun ⟨q, hq, hqz⟩ => hall q hq hqz
    obtain ⟨r, rest, hr⟩ := List.exists_cons_of_ne_nil hready
    refine ⟨_, ?_, .blocks hnil hasked hall ⟨r, rest, hr, rfl⟩⟩
    rw [internalWait_some hp (hpid ▸ hc), if_neg hz]
    exact waitBlock_ok.mpr ⟨hl, r, rest, hr, rfl⟩
  cases hq : askedChild s p pid with
  | some q =>
    have hawaited : awaitedPtr s pid (children s p) = some q := by
      rw [awaitedPtr_eq]
      exact Option.or_eq_some_iff.mpr (Or.inl hq)
    by_cases hz : (s.pcb (child s q)).status = .zombie
    · have hlisted : s.Linked (child s q) → child s q ∈ (s.procs .zombie).items := fun hlink => by
        have hu : s.pcbs.InUse (child s q) := by
          rcases hlink with hm | hm | hm <;> exact h.proc.inUse_of_mem hm
        exact (h.proc.zombie _ hu).mp hz
      obtain ⟨t, ht, -⟩ := collectZombie_isOk (awaitedPtr_mem hawaited) hlisted
      obtain ⟨-, -, rfl⟩ := collectZombie_ok ht
      refine ⟨_, ?_, .collects q hq hz rfl fun hne => ?_⟩
      · rw [internalWait_some hp (hpid ▸ hawaited), if_pos hz, ht]
      · rcases asked_of_askedChild hq with ⟨h0, -⟩ | ⟨-, hqp⟩
        · exact absurd h0 hne
        · simp [reaped, hqp]
    · exact hblocks q hawaited hz fun r hr => by
        obtain rfl : q = r := Option.some.inj (hq.symm.trans hr)
        exact hz
  | none =>
    have h0 : pid = 0 := hasked.resolve_right fun hne => hne hq
    obtain ⟨c, hc⟩ := Option.ne_none_iff_exists'.mp (mt List.getLast?_eq_none_iff.mp hnil)
    have hz : (s.pcb (child s c)).status ≠ .zombie := fun hz => by
      have := List.find?_eq_none.mp hq c (List.mem_of_getLast? hc)
      simp [Asked, h0, hz] at this
    refine hblocks c ?_ hz fun r hr => by rw [hq] at hr; cases hr
    rw [awaitedPtr_eq]
    exact Option.or_eq_some_iff.mpr (Or.inr ⟨hq, hc⟩)

theorem internalWait_ends_iff (h : KernelInv s) (hp : s.running = some p)
    (hpid : toInt ((s.pcb p).syscallArgs 0) = pid) :
    (∃ t, internalWait s = .ok t ∧ WaitEnds s t p pid) ↔ WaitCanEnd s p pid := by
  refine ⟨?_, internalWait_ends h hp hpid⟩
  rintro ⟨t, ht, hend⟩
  by_cases hnil : children s p = []
  · exact Or.inl hnil
  refine Or.inr ?_
  cases hend with
  | noChild none _ => exact absurd none hnil
  | notChild _ _ result => exact absurd result (WaitEnds.not_refused ht hp hnil)
  | collects q asked zombie _ _ =>
    exact ⟨Or.inr (by simp [asked]), Or.inl ⟨q, asked, zombie⟩⟩
  | blocks _ asked _ result =>
    obtain ⟨r, rest, hr, -⟩ := result
    exact ⟨asked, Or.inr (by simp [hr])⟩

theorem waitCanEnd_enter : WaitCanEnd (enterSyscall s p dsosCallWait args) p pid ↔
    WaitCanEnd s p pid := by
  have hstatus : ∀ k, ((enterSyscall s p dsosCallWait args).pcb k).status = (s.pcb k).status :=
    fun k => by simp [enterSyscall]
  have hpids : ∀ k, ((enterSyscall s p dsosCallWait args).pcb k).pid = (s.pcb k).pid :=
    fun k => by simp [enterSyscall]
  have hchildren : children (enterSyscall s p dsosCallWait args) p = children s p := by
    simp [children, enterSyscall]
  have hchild : ∀ q, child (enterSyscall s p dsosCallWait args) q = child s q := fun _ => rfl
  simp only [WaitCanEnd, askedChild, Asked, hstatus, hpids, hchildren, hchild]
  rfl

theorem step_ends_iff (h : KernelInv s) (hp : s.running = some p) (args : List ℤ) :
    (∃ t, kernel.step s (.syscall dsosCallWait args) = .ok t ∧
        WaitEnds (enterSyscall s p dsosCallWait args) t p (toInt (args.getD 0 0))) ↔
      WaitCanEnd s p (toInt (args.getD 0 0)) := by
  have hnum : syscallNumarg dsosCallWait = 2 := rfl
  have hke : KernelInv (enterSyscall s p dsosCallWait args) := h.enter hp
  have harg : toInt (((enterSyscall s p dsosCallWait args).pcb p).syscallArgs 0) =
      toInt (args.getD 0 0) := by
    simp [enterSyscall, hnum]
  have hiff := internalWait_ends_iff hke hp harg
  have hstep : kernel.step s (.syscall dsosCallWait args) =
      internalWait (enterSyscall s p dsosCallWait args) := @step_handler s p .wait args hp
  rw [hstep, hiff, waitCanEnd_enter]

/-- A wait ends as its argument and the children of the caller say exactly when it asks for one
of these, or has none, and there is a ready process for it to block. One that blocks for a
process returns the id of that process in any case. -/
theorem waitEnds_iff (h : kernel.Reachable s) (hp : s.running = some p) (args : List ℤ) :
    ((∃ t, kernel.step s (.syscall dsosCallWait args) = .ok t ∧
        WaitEnds (enterSyscall s p dsosCallWait args) t p (toInt (args.getD 0 0))) ↔
      WaitCanEnd s p (toInt (args.getD 0 0))) ∧
    ∀ a act t, kernel.step s act = .ok t → a ∈ (s.procs .waiting).items →
      (s.pcb a).syscallNum = dsosCallWait → (s.pcb a).syscallArgs 0 ≠ 0 →
      a ∉ (t.procs .waiting).items → (t.pcb a).syscallRetvalue = (s.pcb a).syscallArgs 0 := by
  have hk : KernelInv s := .reachable h
  refine ⟨step_ends_iff hk hp args, fun a act t hs ha hn h0 hna => ?_⟩
  cases step_blocked hk hs ha with
  | stays waiting _ _ => exact absurd waiting hna
  | collects p' _ waits _ retvalue => exact retvalue.trans (waits.2.2.resolve_left h0).symm
  | elapsed i mem process _ _ =>
    have hsleep := (hk.wake.sleeping i mem).2
    rw [process, hn] at hsleep
    cases hsleep
  | posted x w rest queued process _ =>
    have hsem := (hk.wake.queued x w (by simp [queued])).2
    rw [process, hn] at hsem
    cases hsem

theorem waitEnds_zombie :
    let s := kernel.replay [.syscall dsosCallSpawn [0, 0], .syscall dsosCallPreempt [],
      .syscall dsosCallExit [5]]
    s.running = some 0 ∧ ∃ t, kernel.step s (.syscall dsosCallWait [1, 0]) = .ok t ∧
      WaitEnds (enterSyscall s 0 dsosCallWait [1, 0]) t 0 1 :=
  ⟨by decide +kernel, (waitEnds_iff (System.reachable_replay _) (by decide +kernel)
    [1, 0]).1.mpr (by decide +kernel)⟩

/-- A wait for a process that does not exist collects the last child. -/
theorem wait_collects_other : ∃ s t, kernel.Reachable s ∧ s.running = some 0 ∧
    kernel.step s (.syscall dsosCallWait [42, 0]) = .ok t ∧ (t.pcb 0).syscallRetvalue = 1 ∧
    ¬ WaitEnds (enterSyscall s 0 dsosCallWait [42, 0]) t 0 42 := by
  have hs := System.reachable_replay (M := kernel) [.syscall dsosCallSpawn [0, 0],
    .syscall dsosCallPreempt [], .syscall dsosCallExit [5]]
  refine ⟨_, _, hs, by decide +kernel, System.step_replayFrom (by decide +kernel),
    by decide +kernel, fun hend => ?_⟩
  have hcan := (step_ends_iff (KernelInv.reachable hs) (by decide +kernel) [42, 0]).mp
    ⟨_, System.step_replayFrom (by decide +kernel), hend⟩
  exact absurd hcan (by decide +kernel)

end DisastrOS
