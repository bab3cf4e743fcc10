import DisastrOS.Blocking

/-! What the status and the saved context of a process say about it. -/
namespace DisastrOS
open BlockPool TransitionSystem

variable {s t u : Kernel} {p q b a i x w : ℕ} {rest : List ℕ} {act : Action} {hd : Handler}

/-! ### Status -/

/-- The process that runs has the status Running, and those in the ready list are the ones with
the status Ready. -/
structure StatusTruthful (s : Kernel) : Prop where
  running : ∀ p, s.running = some p → (s.pcb p).status = .running
  other : ∀ b, s.pcbs.InUse b → s.running ≠ some b → (s.pcb b).status ≠ .running
  ready : ∀ b, s.pcbs.InUse b → ((s.pcb b).status = .ready ↔ b ∈ (s.procs .ready).items)

namespace StatusTruthful

theorem congr (h : StatusTruthful s) (hrun : t.running = s.running)
    (hu : ∀ b, t.pcbs.InUse b ↔ s.pcbs.InUse b) (hstatus : ∀ b, (t.pcb b).status = (s.pcb b).status)
    (hready : t.procs .ready = s.procs .ready) : StatusTruthful t := by
  constructor
  · intro p hp
    rw [hstatus]
    exact h.running p (hrun ▸ hp)
  · intro b hb hp
    rw [hstatus]
    exact h.other b ((hu b).mp hb) (hrun ▸ hp)
  · intro b hb
    rw [hstatus, hready]
    exact h.ready b ((hu b).mp hb)

theorem same (h : StatusTruthful s) (hs : SameProcesses s t) : StatusTruthful t := by
  refine h.congr hs.running (fun b => ?_) hs.status (hs.procs .ready)
  rw [Store.InUse, Store.InUse, hs.pool]

theorem enter {n : ℤ} {args : List ℤ} (h : StatusTruthful s) :
    StatusTruthful (enterSyscall s p n args) :=
  h.congr rfl (fun _ => Iff.rfl) (fun b => by simp [enterSyscall]) rfl

theorem ticked (h : StatusTruthful s) : StatusTruthful (ticked s p) :=
  h.congr rfl (fun _ => Iff.rfl) (fun b => by simp) rfl

theorem newChild {cpu : Option ℤ} (h : StatusTruthful s) (hp : s.running = some p)
    (hc : NewChild s t p b q cpu) : StatusTruthful t := by
  have hstatus : ∀ k, (t.pcb k).status = if k = b then .ready else (s.pcb k).status := fun k => by
    rw [hc.pcb]
    by_cases hk : k = b
    · simp [hk, childPCB]
    · rw [if_neg hk, if_neg hk]
      split_ifs <;> rfl
  have hready : (t.procs .ready).items = (s.procs .ready).items ++ [b] := by simp [hc.procs]
  constructor
  · intro r hr
    rw [hc.running, hp] at hr
    obtain rfl := Option.some.inj hr
    rw [hstatus, if_neg hc.differ]
    exact h.running p hp
  · intro k hk hr
    rw [hc.running] at hr
    rw [hstatus]
    split_ifs with hkb
    · simp
    · exact h.other k (((hc.inUse k).mp hk).resolve_right hkb) hr
  · intro k hk
    rw [hstatus, hready, List.mem_append, List.mem_singleton]
    split_ifs with hkb
    · simp [hkb]
    · rw [h.ready k (((hc.inUse k).mp hk).resolve_right hkb)]
      simp [hkb]

theorem started (h : StatusTruthful s) (hk : ProcInv s) (idle : s.running = none)
    (hc : Started s t b) : StatusTruthful t := by
  have hstatus : ∀ k, (t.pcb k).status = if k = b then .running else (s.pcb k).status := fun k => by
    rw [hc.pcb]
    split_ifs <;> rfl
  constructor
  · intro r hr
    obtain rfl : b = r := Option.some.inj (hc.running.symm.trans hr)
    rw [hstatus, if_pos rfl]
  · intro k hk hr
    have hkb : k ≠ b := fun he => hr (he ▸ hc.running)
    rw [hstatus, if_neg hkb]
    exact h.other k (((hc.inUse k).mp hk).resolve_right hkb) (by simp [idle])
  · intro k hku
    rw [hstatus, hc.procs]
    split_ifs with hkb
    · subst hkb
      exact iff_of_false (by simp) fun hm => hc.fresh (hk.inUse_of_mem hm)
    · exact h.ready k (((hc.inUse k).mp hku).resolve_right hkb)

theorem elapsed {E : List ℕ} (h : StatusTruthful s) (hproc : ProcInv s)
    (hE : ∀ b ∈ E.map (sleeper s), b ∈ (s.procs .waiting).items)
    (hel : Elapsed s t [] E (s.procs .ready).items) : StatusTruthful t := by
  have hu : ∀ b, t.pcbs.InUse b ↔ s.pcbs.InUse b := fun b => by
    rw [Store.InUse, Store.InUse, hel.pool]
  have hstatus : ∀ k, (t.pcb k).status =
      if k ∈ E.map (sleeper s) then .ready else (s.pcb k).status := fun k => by
    rw [hel.pcb]
    split_ifs <;> rfl
  constructor
  · intro p hp
    rw [hel.running] at hp
    have hpE : p ∉ E.map (sleeper s) := fun hm => hproc.not_linked hp (Or.inr (Or.inl (hE p hm)))
    rw [hstatus, if_neg hpE]
    exact h.running p hp
  · intro b hb hp
    rw [hstatus]
    split_ifs
    · simp
    · exact h.other b ((hu b).mp hb) (hel.running ▸ hp)
  · intro b hb
    rw [hstatus, hel.ready]
    simp only [List.nil_append, List.mem_append]
    split_ifs with hbE
    · simp [hbE]
    · rw [h.ready b ((hu b).mp hb)]
      simp [hbE]

/-- The first ready process `q` runs, and `p`, which ran before, has got the status `v`. -/
theorem switched {v : ProcessStatus} (h : StatusTruthful s) (hproc : ProcInv s)
    (hp : s.running = some p) (hr : (s.procs .ready).items = q :: rest) (hrun : t.running = some q)
    (hu : ∀ b, t.pcbs.InUse b ↔ s.pcbs.InUse b) (hv : v ≠ .running)
    (hstatus : ∀ k, (t.pcb k).status =
      if k = q then .running else if k = p then v else (s.pcb k).status)
    (hready : ∀ k, k ∈ (t.procs .ready).items ↔ k ∈ rest ∨ k = p ∧ v = .ready) :
    StatusTruthful t := by
  have hq : q ∈ (s.procs .ready).items := by simp [hr]
  have hqp : q ≠ p := hproc.running_ne hp hq
  have hnd := hproc.nodup .ready
  rw [hr, List.nodup_cons] at hnd
  have hpr : p ∉ rest := fun hm =>
    hproc.not_linked hp (Or.inl (by rw [hr]; exact List.mem_cons_of_mem q hm))
  constructor
  · intro k hk
    obtain rfl : q = k := Option.some.inj (hrun.symm.trans hk)
    rw [hstatus, if_pos rfl]
  · intro k hk hkq
    have hne : k ≠ q := fun he => hkq (hrun.trans (congrArg some he.symm))
    rw [hstatus, if_neg hne]
    split_ifs with hkp
    · exact hv
    · exact h.other k ((hu k).mp hk) fun he => hkp (Option.some.inj (hp.symm.trans he)).symm
  · intro k hk
    have hkready := h.ready k ((hu k).mp hk)
    rw [hr, List.mem_cons] at hkready
    rw [hstatus, hready]
    by_cases hkq : k = q
    · subst hkq
      simp [hnd.1, hqp]
    · by_cases hkp : k = p
      · subst hkp
        simp [hkq, hpr]
      · simpa [hkq, hkp] using hkready

theorem rotated (h : StatusTruthful s) (hproc : ProcInv s) (hp : s.running = some p)
    (hr : (s.procs .ready).items = q :: rest) : StatusTruthful (rotated s p q rest) := by
  refine h.switched (v := .ready) hproc hp hr rfl (fun _ => Iff.rfl) (by decide) (fun k => ?_)
    fun k => by simp [DisastrOS.rotated]
  by_cases hkq : k = q <;> by_cases hkp : k = p <;> simp [DisastrOS.rotated, hkq, hkp]

theorem internalSchedule (h : StatusTruthful s) (hk : KernelInv s)
    (hs : internalSchedule s = .ok t) : StatusTruthful t := by
  obtain ⟨u, hu, hcase⟩ := internalSchedule_ok hs
  have hel := wakeElapsed_elapsed hk hu
  have hsleep : ∀ b ∈ (DisastrOS.elapsed s).map (sleeper s), b ∈ (s.procs .waiting).items := by
    intro b hb
    obtain ⟨i, hi, rfl⟩ := List.mem_map.mp hb
    exact (hk.wake.sleeping i (hel.timers ▸ List.mem_append_left _ hi)).1
  have hut := h.elapsed hk.proc hsleep hel
  rcases hcase with ⟨-, rfl⟩ | ⟨p, q, rest, hp, hr, -, -, -, rfl⟩
  · exact hut
  · exact hut.rotated (hk.proc.wakeElapsed hu) hp hr

theorem resumed {sig : ℕ → BitVec 32} (h : StatusTruthful s) (hproc : ProcInv s)
    (hp : s.running = some p) (hr : (s.procs .ready).items = q :: rest) :
    StatusTruthful (resumed (zombified s p i sig) q rest) := by
  refine h.switched (v := .zombie) hproc hp hr rfl (fun _ => Iff.rfl) (by decide) (fun k => ?_)
    fun k => by simp [DisastrOS.resumed]
  by_cases hkq : k = q <;> by_cases hkp : k = p <;>
    simp [DisastrOS.resumed, zombified, hkq, hkp]

/-- The running process `p` is freed, and its parent `a`, which has waited for it, runs. -/
theorem reclaimed (h : StatusTruthful s) (hproc : ProcInv s) (hp : s.running = some p)
    (hap : a ≠ p) (ha : a ∈ (s.procs .waiting).items) (hrun : t.running = some a)
    (hu : ∀ b, t.pcbs.InUse b ↔ s.pcbs.InUse b ∧ b ≠ p)
    (hstatus : ∀ k, k ≠ p → (t.pcb k).status = if k = a then .running else (s.pcb k).status)
    (hready : t.procs .ready = s.procs .ready) : StatusTruthful t := by
  constructor
  · intro k hk
    obtain rfl : a = k := Option.some.inj (hrun.symm.trans hk)
    rw [hstatus a hap, if_pos rfl]
  · intro k hk hka
    obtain ⟨hk, hkp⟩ := (hu k).mp hk
    have hne : k ≠ a := fun he => hka (hrun.trans (congrArg some he.symm))
    rw [hstatus k hkp, if_neg hne]
    exact h.other k hk fun he => hkp (Option.some.inj (hp.symm.trans he)).symm
  · intro k hk
    obtain ⟨hk, hkp⟩ := (hu k).mp hk
    rw [hstatus k hkp, hready]
    split_ifs with hka
    · subst hka
      have hnr : k ∉ (s.procs .ready).items := fun hm => by
        have := hproc.disjoint hm ha
        cases this
      simp [hnr]
    · exact h.ready k hk

/-- A zombie `b` is freed. -/
theorem reaped (h : StatusTruthful s) : StatusTruthful (reaped s p q b) := by
  have hu : ∀ k, (DisastrOS.reaped s p q b).pcbs.InUse k → s.pcbs.InUse k := fun k hk => by
    simp only [DisastrOS.reaped, pcbFree_pcbs, Store.free_inUse] at hk
    exact hk.1
  have hstatus : ∀ k, ((DisastrOS.reaped s p q b).pcb k).status = (s.pcb k).status := fun k => by
    by_cases hk : k = p <;> simp [DisastrOS.reaped, hk]
  constructor
  · intro k hk
    rw [hstatus]
    exact h.running k (by simpa [DisastrOS.reaped] using hk)
  · intro k hk hr
    rw [hstatus]
    exact h.other k (hu k hk) (by simpa [DisastrOS.reaped] using hr)
  · intro k hk
    rw [hstatus, h.ready k (hu k hk)]
    simp [DisastrOS.reaped]

/-- The waiting process `b` becomes ready. -/
theorem semWoken (h : StatusTruthful s) (hproc : ProcInv s) (hb : b ∈ (s.procs .waiting).items) :
    StatusTruthful (semWoken s x w b) := by
  have hstatus : ∀ k, ((DisastrOS.semWoken s x w b).pcb k).status =
      if k = b then .ready else (s.pcb k).status := fun k => by
    by_cases hk : k = b <;> simp [DisastrOS.semWoken, hk]
  have hrun : (DisastrOS.semWoken s x w b).running = s.running := by
    simp [DisastrOS.semWoken, semSet]
  have hu : ∀ k, (DisastrOS.semWoken s x w b).pcbs.InUse k ↔ s.pcbs.InUse k := fun _ => Iff.rfl
  constructor
  · intro k hk
    rw [hrun] at hk
    have hkb : k ≠ b := fun he => hproc.not_linked hk (Or.inr (Or.inl (he ▸ hb)))
    rw [hstatus, if_neg hkb]
    exact h.running k hk
  · intro k hk hr
    rw [hrun] at hr
    rw [hstatus]
    split_ifs
    · simp
    · exact h.other k ((hu k).mp hk) hr
  · intro k hk
    rw [hstatus]
    split_ifs with hkb
    · simp [DisastrOS.semWoken, hkb]
    · rw [h.ready k ((hu k).mp hk)]
      simp [DisastrOS.semWoken, hkb]

end StatusTruthful

/-- The handler puts its caller `p` into the waiting list. -/
def HandlerBlocks (s : Kernel) (p : ℕ) : Handler → Prop
  | .sleep => ¬ (s.pcb p).timer.isSome ∧ s.timers.item.pool.free ≠ []
  | .wait => ∃ q ∈ awaitedPtr s (toInt ((s.pcb p).syscallArgs 0)) (children s p),
      (s.pcb (child s q)).status ≠ .zombie
  | .semWait => SemWaitBlocks s p (toInt ((s.pcb p).syscallArgs 0))
  | _ => False

instance (s : Kernel) (p : ℕ) (hd : Handler) : Decidable (HandlerBlocks s p hd) :=
  match hd with
  | .sleep => inferInstanceAs (Decidable (_ ∧ _))
  | .wait => inferInstanceAs (Decidable (∃ q ∈ awaitedPtr _ _ _, _))
  | .semWait => inferInstanceAs (Decidable (SemWaitBlocks _ _ _))
  | .preempt | .fork | .exit | .spawn | .openResource | .closeResource | .destroyResource
  | .shutdown | .semOpen | .semClose | .semPost => inferInstanceAs (Decidable False)

/-- The step does not block the process that runs. -/
def NobodyBlocks (s : Kernel) : Action → Prop
  | .syscall n args => ∀ p ∈ s.running, ∀ hd ∈ syscallVector n,
      ¬ HandlerBlocks (enterSyscall s p n args) p hd
  | .tick | .returnToProcess => True

instance (s : Kernel) : (act : Action) → Decidable (NobodyBlocks s act)
  | .syscall n _ => inferInstanceAs (Decidable (∀ p ∈ s.running, ∀ hd ∈ syscallVector n, _))
  | .tick | .returnToProcess => inferInstanceAs (Decidable True)

theorem StatusTruthful.move (h : StatusTruthful s) (hk : KernelInv s) (hp : s.running = some p)
    (hm : HandlerMove s t p hd) (hb : ¬ HandlerBlocks s p hd) : StatusTruthful t := by
  cases hm with
  | same same => exact h.same same
  | fork b q created => exact h.newChild hp created
  | spawn b q created => exact h.newChild hp created
  | preempt scheduled => exact h.internalSchedule hk scheduled
  | sleep timers q rest noTimer added ready result =>
    exact absurd ⟨noTimer, timerListAdd_room added⟩ hb
  | idle timers noTimer added ready result =>
    exact absurd ⟨noTimer, timerListAdd_room added⟩ hb
  | collect q asked zombie result => exact result ▸ h.reaped
  | wait q rest c asked alive ready result => exact absurd ⟨c, asked, alive⟩ hb
  | exitNext a i q sig rest parent init differ noWaiter ready result =>
    exact result ▸ h.resumed hk.proc hp ready
  | exitParent a i q sig l r parent init differ waits waiting result =>
    have hap : a ≠ p := fun he => hk.not_waiting hp (he ▸ waiting)
    subst result
    refine h.reclaimed hk.proc hp hap waiting rfl (fun k => ?_) (fun k hkp => ?_) ?_
    · simp [DisastrOS.reclaimed, handedToParent, zombified]
    · by_cases hka : k = a <;> simp [DisastrOS.reclaimed, handedToParent, zombified, hkp, hka]
    · simp [DisastrOS.reclaimed, handedToParent, zombified]
  | semWait d x w q rest found semaphore waitPtr count ready result =>
    exact absurd ⟨d, found, semaphore ▸ count⟩ hb
  | semPost d x w b rest found semaphore count queued process waiting result =>
    exact result ▸ (h.semWoken hk.proc waiting).same (.setRetvalue _ p 0)

/-- A call that blocks leaves a process running that still has the status Ready. -/
theorem HandlerBlocks.dispatches (h : StatusTruthful s) (hk : KernelInv s)
    (hp : s.running = some p) (hb : HandlerBlocks s p hd) (hs : runHandler hd s = .ok t)
    (hrun : t.running ≠ none) : ∃ q, t.running = some q ∧ (t.pcb q).status = .ready := by
  have hready : ∀ q rest, (s.procs .ready).items = q :: rest →
      q ≠ p ∧ (s.pcb q).status = .ready := fun q rest hr => by
    have hq : q ∈ (s.procs .ready).items := by simp [hr]
    exact ⟨hk.proc.running_ne hp hq, (h.ready q (hk.proc.inUse_of_mem hq)).mpr hq⟩
  cases hd with
  | sleep =>
    obtain ⟨p', hp', ⟨hfail, -⟩ | ⟨i, st, l, -, -, -, ⟨q, rest, hr, rfl⟩ | ⟨-, rfl⟩⟩⟩ :=
      internalSleep_ok hs
    · obtain rfl : p = p' := Option.some.inj (hp.symm.trans hp')
      exact absurd hfail (not_or.mpr hb)
    · obtain rfl : p = p' := Option.some.inj (hp.symm.trans hp')
      obtain ⟨hqp, hq⟩ := hready q rest hr
      exact ⟨q, rfl, by simp [dispatched, suspended, hqp, hq]⟩
    · exact absurd rfl hrun
  | wait =>
    obtain ⟨c, hc, halive⟩ := hb
    obtain ⟨p', hp', ⟨hnil, -⟩ | ⟨c', b, hc', rfl, ⟨hz, -⟩ | ⟨-, hblock⟩⟩⟩ := internalWait_ok hs
    · obtain rfl : p = p' := Option.some.inj (hp.symm.trans hp')
      have hnone : awaitedPtr s (toInt ((s.pcb p).syscallArgs 0)) (children s p) = none :=
        awaitedPtr_eq_none.mpr hnil
      rw [hnone] at hc
      cases hc
    · obtain rfl : p = p' := Option.some.inj (hp.symm.trans hp')
      obtain rfl : c = c' := Option.some.inj (hc.symm.trans hc')
      exact absurd hz halive
    · obtain rfl : p = p' := Option.some.inj (hp.symm.trans hp')
      obtain ⟨-, q, rest, hr, rfl⟩ := waitBlock_ok.mp hblock
      obtain ⟨hqp, hq⟩ := hready q rest hr
      exact ⟨q, rfl, by simp [dispatched, suspended, hqp, hq]⟩
  | semWait =>
    obtain ⟨d, hd, hcount⟩ := hb
    obtain ⟨p', hp', ⟨hnone, -⟩ | ⟨d', x, w, hd', hx, -, ⟨hpos, -⟩ | ⟨-, -, -, q, rest, hr, rfl⟩⟩⟩ :=
      internalSemWait_ok hs
    · obtain rfl : p = p' := Option.some.inj (hp.symm.trans hp')
      rw [hnone] at hd
      cases hd
    · obtain rfl : p = p' := Option.some.inj (hp.symm.trans hp')
      obtain rfl : d = d' := Option.some.inj (hd.symm.trans hd')
      rw [hx] at hcount
      omega
    · obtain rfl : p = p' := Option.some.inj (hp.symm.trans hp')
      obtain ⟨hqp, hq⟩ := hready q rest hr
      exact ⟨q, rfl, by simp [dispatched, suspended, hqp, hq]⟩
  | preempt | fork | exit | spawn | openResource | closeResource | destroyResource | shutdown
  | semOpen | semClose | semPost => exact hb.elim

theorem StatusTruthful.start : StatusTruthful disastrOSStart := by
  obtain ⟨st, hu, hcell, hstart⟩ := disastrOSStart_eq
  have hpcb : ∀ k, disastrOSStart.pcb k = if k = 0 then initPCB else zeroPCB := fun k => by
    rw [hstart]
    exact hcell k
  have hrun : disastrOSStart.running = some 0 := by rw [hstart]
  constructor
  · intro p hp
    obtain rfl : 0 = p := Option.some.inj (hrun.symm.trans hp)
    simp [hpcb, initPCB]
  · intro b hb hne
    have hb0 : b = 0 := (hu b).mp (by rw [hstart] at hb; exact hb)
    exact absurd hrun (hb0 ▸ hne)
  · intro b hb
    have hb0 : b = 0 := (hu b).mp (by rw [hstart] at hb; exact hb)
    have hnil : (disastrOSStart.procs .ready).items = [] := by rw [hstart]; rfl
    rw [hb0, hpcb, hnil]
    simp [initPCB]

/-- A step that blocks nobody keeps the status of the processes truthful. -/
theorem StatusTruthful.step (h : StatusTruthful s) (hk : KernelInv s) (hb : NobodyBlocks s act)
    (hs : kernel.step s act = .ok t) : StatusTruthful t := by
  rcases step_ok hs with ⟨p, n, args, hp, rfl, hr⟩ | ⟨p, hp, -, ht⟩ | ⟨-, hr⟩
  · cases hr with
    | outOfRange _ same => exact same ▸ h
    | notImplemented _ result => exact result ▸ h.enter.same (.setRetvalue _ p _)
    | handled hd number run =>
      have hke : KernelInv (enterSyscall s p n args) := hk.enter hp
      have hnb := hb p hp hd (syscallVector_eq_some.mpr number)
      exact h.enter.move hke hp (runHandler_move hke hp run) hnb
  · exact h.ticked.internalSchedule hk.ticked ht
  · cases hr with
    | resumed _ same => exact same ▸ h
    | restarted b idle started => exact h.started hk.proc idle started

/-- A step that blocks the running process leaves a process running that looks ready. -/
theorem StatusTruthful.step_blocks (h : StatusTruthful s) (hk : KernelInv s)
    (hb : ¬ NobodyBlocks s act) (hs : kernel.step s act = .ok t) (hrun : t.running ≠ none) :
    ¬ StatusTruthful t := by
  rcases step_ok hs with ⟨p, n, args, hp, rfl, hr⟩ | ⟨p, hp, rfl, ht⟩ | ⟨rfl, -⟩
  · simp only [NobodyBlocks, hp, Option.mem_some_iff, forall_eq', not_forall, not_not] at hb
    obtain ⟨hd, hv, hblocks⟩ := hb
    cases hr with
    | outOfRange range _ =>
      have hn := hd.number_range
      rw [← syscallVector_eq_some.mp hv] at hn
      omega
    | notImplemented none _ =>
      rw [none] at hv
      cases hv
    | handled hd' number run =>
      obtain rfl : hd = hd' := Option.some.inj (hv.symm.trans (syscallVector_eq_some.mpr number))
      obtain ⟨q, hq, hready⟩ := hblocks.dispatches h.enter (hk.enter hp) hp run hrun
      intro ht
      rw [ht.running q hq] at hready
      cases hready
  · exact absurd trivial hb
  · exact absurd trivial hb

/-- As long as nobody has blocked the status of every process is truthful, and it stays so by
exactly the steps that do not block anybody. -/
theorem status_truthful (h : kernel.ReachableBy NobodyBlocks s) : StatusTruthful s ∧
    ∀ act t, kernel.step s act = .ok t → t.running ≠ none →
      (StatusTruthful t ↔ NobodyBlocks s act) := by
  have hs : StatusTruthful s := h.invariant StatusTruthful.start fun u act v hr hu hg hm =>
    hu.step (.reachable hr.reachable) hg hm
  have hk : KernelInv s := .reachable h.reachable
  refine ⟨hs, fun act t hm hrun => ⟨fun ht => ?_, fun hb => hs.step hk hb hm⟩⟩
  by_contra hb
  exact hs.step_blocks hk hb hm hrun ht

theorem status_truthful_exit :
    let s := kernel.replayBy NobodyBlocks [.syscall dsosCallSpawn [0, 0], .tick,
      .syscall dsosCallExit [3], .syscall dsosCallWait [0, 0]]
    s.running = some 0 ∧ s.pcbs.InUse 0 ∧ ¬ s.pcbs.InUse 1 ∧ StatusTruthful s :=
  ⟨by decide +kernel, by decide +kernel, by decide +kernel,
    (status_truthful (System.reachableBy_replayBy _)).1⟩

/-- After a wait that blocks the process that runs has the status Ready. -/
theorem running_looks_ready : ∃ s, kernel.Reachable s ∧ s.running = some 1 ∧
    (s.pcb 1).status = .ready ∧ ¬ StatusTruthful s := by
  refine ⟨_, System.reachable_replay [.syscall dsosCallSpawn [0, 0],
    .syscall dsosCallWait [0, 0]], by decide +kernel, by decide +kernel, fun h => ?_⟩
  exact absurd (h.running 1 (by decide +kernel)) (by decide +kernel)

/-! ### Saved contexts -/

/-- The context saved in the PCB is one of the process that has the block. -/
def ContextOwn (s : Kernel) (b : ℕ) : Prop := (s.pcb b).cpuState = some (s.pcb b).pid

/-- No process can be resumed in a context that is not its own. -/
structure ContextsOwn (s : Kernel) : Prop where
  running : ∀ b, s.running = some b → ContextOwn s b
  ready : ∀ b ∈ (s.procs .ready).items, ContextOwn s b
  waiting : ∀ b ∈ (s.procs .waiting).items, ContextOwn s b

def AllContextsOwn (s : Kernel) : Prop := ∀ b, s.pcbs.InUse b → ContextOwn s b

def NoFork (_ : Kernel) : Action → Prop
  | .syscall n _ => n ≠ dsosCallFork
  | .tick | .returnToProcess => True

instance (s : Kernel) : (act : Action) → Decidable (NoFork s act)
  | .syscall n _ => inferInstanceAs (Decidable (n ≠ dsosCallFork))
  | .tick | .returnToProcess => inferInstanceAs (Decidable True)

namespace AllContextsOwn

theorem congr (h : AllContextsOwn s) (hu : ∀ b, t.pcbs.InUse b → s.pcbs.InUse b)
    (hpid : ∀ b, (t.pcb b).pid = (s.pcb b).pid)
    (hcpu : ∀ b, (t.pcb b).cpuState = (s.pcb b).cpuState) : AllContextsOwn t := by
  intro b hb
  rw [ContextOwn, hpid, hcpu]
  exact h b (hu b hb)

/-- The context of the running process is saved when it enters the kernel. -/
theorem saved (h : AllContextsOwn s) (hu : ∀ b, t.pcbs.InUse b ↔ s.pcbs.InUse b)
    (hpid : ∀ b, (t.pcb b).pid = (s.pcb b).pid)
    (hcpu : ∀ b, (t.pcb b).cpuState = if b = p then some (s.pcb b).pid else (s.pcb b).cpuState) :
    AllContextsOwn t := by
  intro b hb
  rw [ContextOwn, hpid, hcpu]
  split_ifs
  · rfl
  · exact h b ((hu b).mp hb)

theorem internalSchedule (h : AllContextsOwn s) (hk : KernelInv s)
    (hs : internalSchedule s = .ok t) : AllContextsOwn t := by
  obtain ⟨u, hel, hcase⟩ := internalSchedule_elapsed hk hs
  have hut : AllContextsOwn u := by
    refine h.congr (fun b hb => ?_) (fun b => ?_) fun b => ?_
    · rwa [Store.InUse, hel.pool] at hb
    · rw [hel.pcb]
      split_ifs <;> rfl
    · rw [hel.pcb]
      split_ifs <;> rfl
  rcases hcase with ⟨-, rfl⟩ | ⟨p, q, rest, -, -, rfl⟩
  · exact hut
  · refine hut.congr (fun b hb => hb) (fun b => ?_) fun b => ?_ <;> simp [rotated]

theorem move (h : AllContextsOwn s) (hk : KernelInv s) (hm : HandlerMove s t p hd)
    (hf : hd ≠ .fork) : AllContextsOwn t := by
  cases hm with
  | same same =>
    refine h.congr (fun b hb => ?_) same.pid same.cpuState
    rwa [Store.InUse, same.pool] at hb
  | fork b q created => exact absurd rfl hf
  | spawn b q created =>
    intro k hk'
    rw [ContextOwn, created.pcb]
    split_ifs with hkb hkp
    · rfl
    · exact h k (((created.inUse k).mp hk').resolve_right hkb)
    · exact h k (((created.inUse k).mp hk').resolve_right hkb)
  | preempt scheduled => exact h.internalSchedule hk scheduled
  | collect q asked zombie result =>
    subst result
    refine h.congr (fun b hb => ?_) (fun b => ?_) fun b => ?_
    · simp only [reaped, pcbFree_pcbs, Store.free_inUse] at hb
      exact hb.1
    · simp [reaped]
    · simp [reaped]
  | exitParent a i q sig l r parent init differ waits waiting result =>
    subst result
    refine h.congr (fun b hb => ?_) (fun b => ?_) fun b => ?_
    · simp only [reclaimed, Kernel.setRunning_pcbs, pcbFree_pcbs, Store.free_inUse] at hb
      exact hb.1
    · simp [reclaimed, handedToParent, zombified]
    · simp [reclaimed, handedToParent, zombified]
  | sleep _ _ _ _ _ _ result | idle _ _ _ _ result | wait _ _ _ _ _ _ result
  | exitNext _ _ _ _ _ _ _ _ _ _ result | semWait _ _ _ _ _ _ _ _ _ _ result
  | semPost _ _ _ _ _ _ _ _ _ _ _ result =>
    subst result
    refine h.congr (fun b hb => hb) (fun b => ?_) fun b => ?_
    all_goals simp [dispatched, suspended, resumed, zombified, semWoken]

theorem start : AllContextsOwn disastrOSStart := by
  obtain ⟨st, hu, hcell, hstart⟩ := disastrOSStart_eq
  intro b hb
  have hb0 : b = 0 := (hu b).mp (by rw [hstart] at hb; exact hb)
  have hpcb : disastrOSStart.pcb b = initPCB := by
    rw [hstart]
    exact (hcell b).trans (if_pos hb0)
  rw [ContextOwn, hpcb]
  rfl

theorem step (h : AllContextsOwn s) (hk : KernelInv s) (hf : NoFork s act)
    (hs : kernel.step s act = .ok t) : AllContextsOwn t := by
  rcases step_ok hs with ⟨p, n, args, hp, rfl, hr⟩ | ⟨p, hp, -, ht⟩ | ⟨-, hr⟩
  · have he : AllContextsOwn (enterSyscall s p n args) := by
      refine h.saved (p := p) (fun _ => Iff.rfl) (fun b => ?_) fun b => ?_
      · simp [enterSyscall]
      · by_cases hb : b = p <;> simp [enterSyscall, hb]
    cases hr with
    | outOfRange _ same => exact same ▸ h
    | notImplemented _ result =>
      subst result
      exact he.congr (fun b hb => hb) (fun b => by simp) fun b => by simp
    | handled hd number run =>
      refine he.move (hk.enter hp) (runHandler_move (hk.enter hp) hp run) ?_
      rintro rfl
      exact hf number
  · have he : AllContextsOwn (ticked s p) := by
      refine h.saved (p := p) (fun _ => Iff.rfl) (fun b => by simp) fun b => ?_
      by_cases hb : b = p <;> simp [hb]
    exact he.internalSchedule hk.ticked ht
  · cases hr with
    | resumed _ same => exact same ▸ h
    | restarted b _ started =>
      intro k hku
      rw [ContextOwn, started.pcb]
      split_ifs with hkb
      · rfl
      · exact h k (((started.inUse k).mp hku).resolve_right hkb)

end AllContextsOwn

theorem internalFork_unset {args : List ℤ} (hk : KernelInv s)
    (hs : kernel.step s (.syscall dsosCallFork args) = .ok t) :
    ∃ b ∈ (t.procs .ready).items, ¬ s.pcbs.InUse b ∧ (t.pcb b).cpuState = (s.pcb b).cpuState := by
  obtain ⟨p, hp, -⟩ := disastrOSSyscall_ok hs
  have hrun : internalFork (enterSyscall s p dsosCallFork args) = .ok t :=
    (@step_handler s p .fork args hp).symm.trans hs
  have hpe : (enterSyscall s p dsosCallFork args).running = some p := hp
  obtain ⟨b, q, hc⟩ := internalFork_ok hpe ((hk.enter hp).proc.inUse_of_running hpe) hrun
  have hbp : b ≠ p := Ne.symm hc.differ
  refine ⟨b, by simp [hc.procs], hc.fresh, ?_⟩
  rw [hc.pcb, if_pos rfl]
  simp [childPCB, enterSyscall, hbp]

/-- In a run without fork nobody can be resumed in a context that is not its own. A fork puts a
process with the context that its block had before into the ready list. -/
theorem contexts_own (h : kernel.ReachableBy NoFork s) : ContextsOwn s ∧
    ∀ args t, kernel.step s (.syscall dsosCallFork args) = .ok t → ∃ b ∈ (t.procs .ready).items,
      ¬ s.pcbs.InUse b ∧ (t.pcb b).cpuState = (s.pcb b).cpuState := by
  have hk : KernelInv s := .reachable h.reachable
  have hall : AllContextsOwn s := h.invariant AllContextsOwn.start fun u act v hr hu hg hm =>
    hu.step (.reachable hr.reachable) hg hm
  refine ⟨⟨fun b hb => ?_, fun b hb => ?_, fun b hb => ?_⟩, fun args t => internalFork_unset hk⟩
  · exact hall b (hk.proc.inUse_of_running hb)
  · exact hall b (hk.proc.inUse_of_mem hb)
  · exact hall b (hk.proc.inUse_of_mem hb)

theorem contexts_own_reused :
    let s := kernel.replayBy NoFork [.syscall dsosCallSpawn [0, 0], .syscall dsosCallWait [0, 0],
      .syscall dsosCallExit [3], .syscall dsosCallSpawn [0, 0]]
    s.lastPid = 3 ∧ (s.procs .ready).items = [1] ∧ ContextsOwn s :=
  ⟨by decide +kernel, by decide +kernel, (contexts_own (System.reachableBy_replayBy _)).1⟩

/-- A forked process in a fresh block has no context, and one in a used block has the context of
the process that had the block before. -/
theorem fork_leaves_context :
    (∃ s, kernel.Reachable s ∧ (s.procs .ready).items = [1] ∧ (s.pcb 1).cpuState = none ∧
      ¬ ContextsOwn s) ∧
    ∃ s, kernel.Reachable s ∧ (s.procs .ready).items = [1] ∧ (s.pcb 1).pid = 2 ∧
      (s.pcb 1).cpuState = some 1 ∧ ¬ ContextsOwn s := by
  constructor
  · refine ⟨_, System.reachable_replay [.syscall dsosCallFork []], by decide +kernel,
      by decide +kernel, fun h => ?_⟩
    exact absurd (h.ready 1 (by decide +kernel)) (by unfold ContextOwn; decide +kernel)
  · refine ⟨_, System.reachable_replay [.syscall dsosCallSpawn [0, 0],
      .syscall dsosCallWait [0, 0], .syscall dsosCallExit [3], .syscall dsosCallFork []],
      by decide +kernel, by decide +kernel, by decide +kernel, fun h => ?_⟩
    exact absurd (h.ready 1 (by decide +kernel)) (by unfold ContextOwn; decide +kernel)

end DisastrOS
