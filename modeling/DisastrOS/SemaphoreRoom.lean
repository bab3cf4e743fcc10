import DisastrOS.SemaphoreRelation
import DisastrOS.Timers

/-! What an open of a semaphore leaves when a pool runs out, and when one does. -/
namespace DisastrOS
open BlockPool TransitionSystem Ownership

variable {s t u v : Kernel} {p q b d e w x : ℕ} {args : List ℤ} {semnum : ℤ}

/-- An allocation of the open of `p` fails. -/
def SemOpenFails (s : Kernel) (p : ℕ) (semnum : ℤ) : Prop :=
  mySearch s.sems (s.pcb p).semDescriptors semnum = none ∧
    (semaphoreListById s.sems semnum = none ∧ s.sems.semaphore.pool.free = [] ∨
      s.sems.descriptor.pool.free = [] ∨ s.sems.descriptorPtr.pool.free.length < 2)

/-! ### The sizes of the pools -/

theorem SameSizes.of_eq {m m' : SemTable} (h : m' = m) : SameSizes m m' := by
  subst h
  exact ⟨rfl, rfl, rfl⟩

theorem SameSizes.trans {m m' m'' : SemTable} (h : SameSizes m m') (h' : SameSizes m' m'') :
    SameSizes m m'' :=
  ⟨h'.semaphore.trans h.semaphore, h'.descriptor.trans h.descriptor,
    h'.descriptorPtr.trans h.descriptorPtr⟩

theorem OpensAt.sizes (ho : OpensAt v u p x) : SameSizes v.sems u.sems := by
  cases ho with
  | found listed same => exact .of_eq (by rw [same])
  | made st unknown taken fresh result =>
    subst result
    exact ⟨taken.sizeMax, rfl, rfl⟩

theorem SemMove.sizes (h : SemMove s t) : SameSizes s.sems t.sems := by
  cases h with
  | same same => exact .of_eq same.sems
  | newProcess b created => exact .of_eq created.sems
  | noDescriptor p x u running number notOpen opens empty result => exact result ▸ opens.sizes
  | noPointer p x d u running number notOpen opens failed => exact opens.sizes.trans failed.sizes
  | opened p x d e w u running number notOpen opens opened => exact opens.sizes.trans opened.sizes
  | closed p x d e w running number found semaphore ptr waitPtr closed =>
    refine ⟨?_, ?_, ?_⟩
    · by_cases h1 : (s.sems.semaphore.cell x).descriptors.size = 1
      · rw [closed.released h1, Store.free_sizeMax]
      · rw [(closed.kept h1).2]
    · rw [closed.descriptor, Store.free_sizeMax]
    · rw [closed.descriptorPtr, Store.free_sizeMax, Store.free_sizeMax]
  | counted x v l counted =>
    have hset : SameSizes s.sems (semSet s x v l).sems := ⟨rfl, rfl, rfl⟩
    exact hset.trans (.of_eq counted.sems)

/-- The pools have the sizes they were given at the start. -/
structure PoolSizes (m : SemTable) : Prop where
  semaphore : m.semaphore.pool.sizeMax = maxNumSemaphores
  descriptor : m.descriptor.pool.sizeMax = maxNumProcesses
  descriptorPtr : m.descriptorPtr.pool.sizeMax = maxNumProcesses

theorem PoolSizes.same {m m' : SemTable} (h : PoolSizes m) (hs : SameSizes m m') : PoolSizes m' :=
  ⟨hs.semaphore.trans h.semaphore, hs.descriptor.trans h.descriptor,
    hs.descriptorPtr.trans h.descriptorPtr⟩

theorem PoolSizes.reachable (h : kernel.Reachable s) : PoolSizes s.sems := by
  refine h.invariant (P := fun s => PoolSizes s.sems) ?_ fun s act t hr hi hs => ?_
  · obtain ⟨t, -, -, hs⟩ := disastrOSStart_eq
    change PoolSizes disastrOSStart.sems
    rw [hs]
    exact ⟨rfl, rfl, rfl⟩
  · rcases step_sem (.reachable hr) hs with hq | ⟨u, p, he, -, hmove⟩ | ⟨b, -, -, hc⟩
    · exact hi.same (.of_eq hq.semaphores.sems)
    · exact hi.same (.trans (.of_eq he.quiet.semaphores.sems) hmove.sizes)
    · exact hi.same (.of_eq hc.sems)

/-! ### The pointers run out -/

/-- Nothing happens but spawns, opens of semaphores and ticks. -/
def SpawnsAndOpens (_ : Kernel) : Action → Prop
  | .syscall n _ => n = dsosCallSpawn ∨ n = dsosCallSemopen
  | .tick => True
  | .returnToProcess => False

/-- Init has spawned `n` processes, and nobody has opened anything. -/
structure Crowd (n : ℕ) (s : Kernel) : Prop where
  reachable : kernel.ReachableBy SpawnsAndOpens s
  running : s.running = some 0
  ready : (s.procs .ready).items.length = n
  own : ∀ b, (s.pcb b).semDescriptors.items = []
  sems : s.sems = emptyKernel.sems
  timers : s.timers.list.items = []
  free : s.pcbs.pool.free.length + n = 1023
  freePtr : s.pcbPtrs.pool.free.length + n = 1024

theorem Crowd.start : Crowd 0 disastrOSStart := by
  obtain ⟨t, hu, hc, hs⟩ := disastrOSStart_eq
  have hfree : disastrOSStart.pcbs.pool.free.length = 1023 := by decide +kernel
  have hown : ∀ b, (disastrOSStart.pcb b).semDescriptors.items = [] := fun b => by
    rw [hs]
    simp only [Kernel.pcb, hc]
    split_ifs <;> rfl
  have hsems : disastrOSStart.sems = emptyKernel.sems := by rw [hs]
  exact ⟨.start, by decide +kernel, by decide +kernel, hown, hsems, by decide +kernel, hfree,
    by decide +kernel⟩

theorem Crowd.spawn {n : ℕ} (h : Crowd n s) (hn : n < 1023) : ∃ t, Crowd (n + 1) t := by
  have hr := h.reachable.reachable
  have hk := KernelInv.reachable hr
  have hfree : s.pcbs.pool.free ≠ [] := fun hnil => by
    have := h.free
    rw [hnil, List.length_nil] at this
    omega
  have hfreePtr : s.pcbPtrs.pool.free ≠ [] := fun hnil => by
    have := h.freePtr
    rw [hnil, List.length_nil] at this
    omega
  have hv : (enterSyscall s 0 dsosCallSpawn []).running = some 0 := h.running
  have hkv : KernelInv (enterSyscall s 0 dsosCallSpawn []) := hk.enter h.running
  have hcv : PtrInv (enterSyscall s 0 dsosCallSpawn []) :=
    (PtrInv.reachable hr).family (enterSyscall_quiet s 0 dsosCallSpawn []).family
  obtain ⟨t, ht⟩ := internalSpawn_isOk (newChild_isOk hkv hcv hv hfree hfreePtr)
  obtain ⟨b, q, hc⟩ := internalSpawn_ok hv (hkv.proc.inUse_of_running hv) ht
  have hstep : kernel.step s (.syscall dsosCallSpawn []) = .ok t :=
    (@step_handler s 0 .spawn [] h.running).trans ht
  have hG : SpawnsAndOpens s (.syscall dsosCallSpawn []) := Or.inl rfl
  refine ⟨t, h.reachable.step hG hstep, hc.running.trans hv, ?_, fun k => ?_, ?_, ?_, ?_, ?_⟩
  · rw [hc.procs, if_pos rfl]
    simpa [enterSyscall] using h.ready
  · rw [hc.pcb]
    split_ifs
    · rfl
    · simpa [enterSyscall] using h.own k
    · simpa [enterSyscall] using h.own k
  · exact hc.sems.trans h.sems
  · rw [hc.timers]
    exact h.timers
  · have hlen := Pool.free_length_of_taken hc.fresh hc.inUse hc.size
    have hf := h.free
    change _ = s.pcbs.pool.free.length at hlen
    omega
  · have hlen := Pool.free_length_of_taken hc.freshPtr hc.inUsePtr hc.sizePtr
    have hf := h.freePtr
    change _ = s.pcbPtrs.pool.free.length at hlen
    omega

theorem Crowd.reaches {n : ℕ} (hn : n ≤ 1023) : ∃ s, Crowd n s := by
  induction n with
  | zero => exact ⟨_, .start⟩
  | succ n ih =>
    obtain ⟨s, hs⟩ := ih (by omega)
    exact hs.spawn (by omega)

/-- After `k` of 513 processes have opened the semaphore 7, the next one, `p`, runs; those in
`fresh` come after it. -/
structure Opening (k p : ℕ) (s : Kernel) : Prop where
  reachable : kernel.ReachableBy SpawnsAndOpens s
  running : s.running = some p
  own : (s.pcb p).semDescriptors.items = []
  ready : ∃ fresh rest, (s.procs .ready).items = fresh ++ rest ∧ fresh.length + k = 512 ∧
    ∀ b ∈ fresh, (s.pcb b).semDescriptors.items = []
  timers : s.timers.list.items = []
  one : ∀ b, (s.pcb b).semDescriptors.items.length ≤ 1
  processes : s.pcbs.pool.free.length = 511
  list : s.sems.list.items.length ≤ 1
  ids : ∀ x ∈ s.sems.list.items, (s.sems.semaphore.cell x).id = 7
  free : s.sems.descriptor.pool.free.length + k = 1024
  freePtr : s.sems.descriptorPtr.pool.free.length + 2 * k = 1024

theorem Opening.start : ∃ s, Opening 0 0 s := by
  obtain ⟨s, hs⟩ := Crowd.reaches (n := 512) (by omega)
  have hfree := hs.free
  refine ⟨s, hs.reachable, hs.running, hs.own 0, ⟨(s.procs .ready).items, [], ?_, hs.ready, ?_⟩,
    hs.timers, fun b => ?_, by omega, ?_, ?_, ?_, ?_⟩
  · simp
  · exact fun b _ => hs.own b
  · simp [hs.own b]
  · rw [hs.sems]
    decide
  · rw [hs.sems]
    intro x hx
    cases hx
  · rw [hs.sems]
    decide +kernel
  · rw [hs.sems]
    decide +kernel

/-- A tick with no timers passes the processor on. -/
theorem step_tick_rotated {rest : List ℕ} (h : kernel.Reachable s) (hp : s.running = some p)
    (ht : s.timers.list.items = []) (hr : (s.procs .ready).items = q :: rest) :
    ∃ t, kernel.step s .tick = .ok t ∧ t.running = some q ∧ (t.procs .ready).items = rest ++ [p] ∧
      t.sems = s.sems ∧ t.timers.list.items = [] ∧ t.pcbs.pool = s.pcbs.pool ∧
      ∀ b, (t.pcb b).semDescriptors = (s.pcb b).semDescriptors := by
  have hk := KernelInv.reachable h
  obtain ⟨t, hs⟩ := timerInterrupt_isOk hk hp
  have ht' : kernel.step s .tick = .ok t := hs
  refine ⟨t, ht', ?_⟩
  obtain ⟨p', hp', hs⟩ := timerInterrupt_ok hs
  obtain rfl : p = p' := Option.some.inj (hp.symm.trans hp')
  obtain ⟨u, hel, hcase⟩ := internalSchedule_elapsed hk.ticked hs
  have hnil : elapsed (ticked s p) = [] := by simp [elapsed, ticked, ht]
  rw [hnil] at hel
  have hready : (u.procs .ready).items = q :: rest := by
    rw [hel.ready]
    simpa [ticked] using hr
  have htimers : u.timers.list.items = [] := by
    have := hel.timers
    simpa [ticked, ht] using this.symm
  have hdesc : ∀ b, (u.pcb b).semDescriptors = (s.pcb b).semDescriptors := fun b => by
    rw [hel.pcb]
    simp [ticked, Kernel.pcb]
  rcases hcase with ⟨hnone, -⟩ | ⟨p', q', rest', hp', hr', rfl⟩
  · rw [hready] at hnone
    cases hnone
  obtain rfl : p = p' := Option.some.inj (hp.symm.trans hp')
  obtain ⟨rfl, rfl⟩ := List.cons.inj (hready.symm.trans hr')
  have hpool : u.pcbs.pool = s.pcbs.pool := hel.pool
  have hsems : u.sems = s.sems := hel.sems
  refine ⟨by simp [rotated], by simp [rotated], by simp [rotated, hsems],
    by simpa [rotated] using htimers, by simp [rotated, hpool], fun b => ?_⟩
  rw [← hdesc b]
  simp [rotated]

/-- An open of the semaphore 7 leaves no semaphore with another id. -/
theorem Opening.opened_list {k d e w : ℕ} (h : Opening k p s)
    (ho : OpensAt (enterSyscall s p dsosCallSemopen [7, 1]) u p x) (hopen : SemOpened u t p x d e w) :
    t.sems.list.items.length ≤ 1 ∧ ∀ y ∈ t.sems.list.items, (t.sems.semaphore.cell y).id = 7 := by
  have harg : toInt (((enterSyscall s p dsosCallSemopen [7, 1]).pcb p).syscallArgs 0) = 7 := by
    rw [enterSyscall_arg (by decide)]
    decide
  have hsems := (enterSyscall_sems s p dsosCallSemopen [7, 1]).1
  have hid : ∀ y, (t.sems.semaphore.cell y).id = (u.sems.semaphore.cell y).id := fun y =>
    (hopen.others y).1
  simp only [hid, hopen.list]
  cases ho with
  | found listed same =>
    subst same
    rw [hsems]
    exact ⟨h.list, h.ids⟩
  | made st unknown taken fresh result =>
    subst result
    rw [harg, hsems] at unknown
    have hnil : s.sems.list.items = [] := by
      by_contra hne
      obtain ⟨y, hy⟩ := List.exists_mem_of_ne_nil _ hne
      have := List.find?_eq_none.mp unknown y hy
      simp [h.ids y hy] at this
    have hlist : (semCreated (enterSyscall s p dsosCallSemopen [7, 1]) x st).sems.list.items =
        [x] := by simp [semCreated, hsems, hnil]
    rw [hlist]
    refine ⟨le_refl 1, fun y hy => ?_⟩
    obtain rfl := List.mem_singleton.mp hy
    change (st.cell y).id = 7
    rw [taken.cell, if_pos rfl, harg]

/-- The running process opens the semaphore 7, in vain once there are no pointers left. -/
theorem Opening.returns {k : ℕ} (h : Opening k p s) (hk : k ≤ 512) : ∃ t u x,
    kernel.step s (.syscall dsosCallSemopen [7, 1]) = .ok t ∧
      OpensAt (enterSyscall s p dsosCallSemopen [7, 1]) u p x ∧
      (k < 512 ∧ (∃ d e w, SemOpened u t p x d e w) ∨ k = 512 ∧ ∃ d, SemOpenFailed u t p x d) := by
  have hr := h.reachable.reachable
  have hinv := KernelInv.reachable hr
  have hfree := h.free
  have hfreePtr := h.freePtr
  have hnone : mySearch s.sems (s.pcb p).semDescriptors (toInt (List.getD [7, 1] 0 0)) = none := by
    simp [mySearch, h.own]
  obtain ⟨t, ht, hret⟩ := step_semOpen hinv h.running hnone
  have hsems := (enterSyscall_sems s p dsosCallSemopen [7, 1]).1
  cases hret with
  | noSemaphore unknown full result =>
    have hcount := Pool.card_used_add_free s.sems.semaphore.pool
    rw [card_semaphores hinv.sem, (PoolSizes.reachable hr).semaphore] at hcount
    rw [hsems] at full
    rw [full, List.length_nil] at hcount
    have := h.list
    unfold maxNumSemaphores at hcount
    omega
  | noDescriptor x u opens full result =>
    rw [hsems] at full
    rw [full, List.length_nil] at hfree
    omega
  | noPointer x d u opens full failed =>
    rw [hsems] at full
    exact ⟨t, u, x, ht, opens, Or.inr ⟨by omega, d, failed⟩⟩
  | opened x d e w u opens opened =>
    have hlt := (SemOpenReturns.room opens opened).2
    rw [hsems] at hlt
    exact ⟨t, u, x, ht, opens, Or.inl ⟨by omega, d, e, w, opened⟩⟩

/-- The running process opens the semaphore 7 and the next one is given the processor. -/
theorem Opening.next {k : ℕ} (h : Opening k p s) (hk : k < 512) : ∃ t q, Opening (k + 1) q t := by
  have hr := h.reachable.reachable
  have hinv := KernelInv.reachable hr
  have hfree := h.free
  have hfreePtr := h.freePtr
  have hsems := (enterSyscall_sems s p dsosCallSemopen [7, 1]).1
  have hG : SpawnsAndOpens s (.syscall dsosCallSemopen [7, 1]) := Or.inr rfl
  obtain ⟨t, u, x, ht, opens, ⟨-, d, e, w, opened⟩ | ⟨rfl, -⟩⟩ := h.returns hk.le
  swap
  · omega
  obtain ⟨hlist, hids⟩ := h.opened_list opens opened
  obtain ⟨hdesc, hptr⟩ := opens.pools
  obtain ⟨m, hu, -, -⟩ := opens.shape
  have hproc := opened.processes
  have hrunning : t.running = some p := by
    rw [hproc.running, hu]
    exact h.running
  have hprocs : t.procs .ready = s.procs .ready := by
    rw [hproc.procs, hu]
    rfl
  have htimers : t.timers.list.items = [] := by
    rw [hproc.timers, hu]
    exact h.timers
  have hpool : t.pcbs.pool = s.pcbs.pool := by
    rw [hproc.pool, hu]
    rfl
  have hown : ∀ b, (t.pcb b).semDescriptors.items =
      if b = p then [d] else (s.pcb b).semDescriptors.items := by
    intro b
    rw [opened.semDescriptors, hu]
    split_ifs with hb
    · simp [enterSyscall, h.own]
    · simp [enterSyscall]
  have hne : ∀ b ∈ (s.procs .ready).items, b ≠ p := by
    rintro b hb rfl
    exact hinv.proc.not_linked h.running (Or.inl hb)
  obtain ⟨fresh, rest, hready, hlen, hfresh⟩ := h.ready
  obtain ⟨q, fresh, rfl⟩ : ∃ q l, fresh = q :: l := by
    cases fresh with
    | nil =>
      simp only [List.length_nil] at hlen
      omega
    | cons q l => exact ⟨q, l, rfl⟩
  have hin : ∀ b ∈ q :: fresh, b ≠ p := fun b hb =>
    hne b (hready ▸ List.mem_append_left rest hb)
  have htr : kernel.Reachable t := hr.next ht
  obtain ⟨v, hv, hrun, hvready, hvsems, hvtimers, hvpool, hvown⟩ :=
    step_tick_rotated htr hrunning htimers ((congrArg ListHead.items hprocs).trans hready)
  have hGtick : SpawnsAndOpens t .tick := trivial
  refine ⟨v, q, (h.reachable.step hG ht).step hGtick hv, hrun, ?_, ⟨fresh, rest ++ [p], ?_, ?_, ?_⟩,
    hvtimers, fun b => ?_, ?_, ?_, ?_, ?_, ?_⟩
  · rw [hvown, hown, if_neg (hin q (by simp))]
    exact hfresh q (by simp)
  · exact hvready.trans (List.append_assoc fresh rest [p])
  · simp only [List.length_cons] at hlen
    omega
  · intro b hb
    rw [hvown, hown, if_neg (hin b (by simp [hb]))]
    exact hfresh b (by simp [hb])
  · rw [hvown, hown]
    split_ifs
    · simp
    · exact h.one b
  · rw [hvpool, hpool, h.processes]
  · rwa [hvsems]
  · rwa [hvsems]
  · have hcons := congrArg List.length opened.free
    rw [hdesc, hsems, List.length_cons] at hcons
    rw [hvsems]
    omega
  · have hcons := congrArg List.length opened.freePtr
    rw [hptr, hsems, List.length_cons, List.length_cons] at hcons
    rw [hvsems]
    omega

theorem Opening.reaches {k : ℕ} (hk : k ≤ 512) : ∃ s p, Opening k p s := by
  induction k with
  | zero =>
    obtain ⟨s, hs⟩ := Opening.start
    exact ⟨s, 0, hs⟩
  | succ k ih =>
    obtain ⟨s, p, hs⟩ := ih (by omega)
    obtain ⟨t, q, ht⟩ := hs.next (by omega)
    exact ⟨t, q, ht⟩

/-- The open for which no pointer is left takes a descriptor all the same. -/
theorem Opening.fails (h : Opening 512 p s) : SemOpenFails s p 7 ∧
    ∃ t d, kernel.step s (.syscall dsosCallSemopen [7, 1]) = .ok t ∧
      (t.pcb p).syscallRetvalue = dsosEcreateptr ∧ ¬ s.sems.descriptor.InUse d ∧
      t.sems.descriptor.InUse d ∧ (t.pcb p).semDescriptors.items = [] := by
  have hfreePtr := h.freePtr
  refine ⟨⟨by simp [mySearch, h.own], Or.inr (Or.inr (by omega))⟩, ?_⟩
  have hsems := (enterSyscall_sems s p dsosCallSemopen [7, 1]).1
  obtain ⟨t, u, x, ht, opens, ⟨hlt, -⟩ | ⟨-, d, failed⟩⟩ := h.returns le_rfl
  · omega
  obtain ⟨hdesc, -⟩ := opens.pools
  obtain ⟨m, rfl, -, -⟩ := opens.shape
  refine ⟨t, d, ht, ?_, ?_, (failed.inUse d).mpr (Or.inr rfl), ?_⟩
  · rw [failed.retvalue, if_pos rfl]
  · rw [← hsems, ← hdesc]
    exact failed.fresh
  · rw [failed.semDescriptors]
    simpa [enterSyscall] using h.own

/-! ### Opens that fail -/

/-- The first allocation of the open is the one that fails. -/
def FailsFirst (s : Kernel) (semnum : ℤ) : Prop :=
  semaphoreListById s.sems semnum = none ∧ s.sems.semaphore.pool.free = [] ∨
    semaphoreListById s.sems semnum ≠ none ∧ s.sems.descriptor.pool.free = []

/-- The call of `p` that has led to `t` has changed nothing but its return value. -/
def OnlyReturns (s t : Kernel) (p : ℕ) (args : List ℤ) : Prop :=
  ∃ r, t = (enterSyscall s p dsosCallSemopen args).setRetvalue p r

theorem OnlyReturns.sems (h : OnlyReturns s t p args) : t.sems = s.sems := by
  obtain ⟨r, rfl⟩ := h
  exact (enterSyscall_sems s p dsosCallSemopen args).1

/-- A failed open changes nothing but the return value exactly when it has taken nothing yet. -/
theorem semOpen_atomic_iff (h : kernel.Reachable s) (hp : s.running = some p)
    (hf : SemOpenFails s p (toInt (args.getD 0 0))) :
    ∃ t, kernel.step s (.syscall dsosCallSemopen args) = .ok t ∧
      (t.pcb p).syscallRetvalue ∈ [dsosEcreatesem, dsosEcreatefd, dsosEcreateptr] ∧
      (OnlyReturns s t p args ↔ FailsFirst s (toInt (args.getD 0 0))) := by
  obtain ⟨hnone, hfull⟩ := hf
  obtain ⟨t, ht, hr⟩ := step_semOpen (.reachable h) hp hnone
  refine ⟨t, ht, ?_⟩
  have harg : toInt (((enterSyscall s p dsosCallSemopen args).pcb p).syscallArgs 0) =
      toInt (args.getD 0 0) := by rw [enterSyscall_arg (by decide)]
  have hsems := (enterSyscall_sems s p dsosCallSemopen args).1
  cases hr with
  | noSemaphore unknown full result =>
    subst result
    exact ⟨by simp, iff_of_true ⟨_, rfl⟩ (Or.inl ⟨unknown, full⟩)⟩
  | noDescriptor x u opens full result =>
    subst result
    refine ⟨by simp, ?_⟩
    cases opens with
    | found listed same =>
      subst same
      rw [harg] at listed
      refine iff_of_true ⟨_, rfl⟩ (Or.inr ⟨?_, full⟩)
      rw [← hsems, listed]
      simp
    | made st unknown taken fresh result =>
      subst result
      rw [harg] at unknown
      refine iff_of_false (fun ho => ?_) ?_
      · -- the semaphore that has been made is in the list
        have hlist := congrArg (fun t => t.list.items) (ho.sems.trans hsems.symm)
        simp [semCreated] at hlist
      · rintro (⟨-, hnil⟩ | ⟨hid, -⟩)
        · rw [← hsems, taken.free] at hnil
          cases hnil
        · exact hid unknown
  | noPointer x d u opens full failed =>
    obtain ⟨hd, -⟩ := opens.pools
    have hv : (t.pcb p).syscallRetvalue = dsosEcreateptr := by rw [failed.retvalue, if_pos rfl]
    refine ⟨by simp [hv], iff_of_false (fun ho => failed.fresh ?_) ?_⟩
    · -- the descriptor that has been taken is in use
      rw [hd, hsems, ← ho.sems]
      exact (failed.inUse d).mpr (Or.inr rfl)
    · rintro (⟨hid, hnil⟩ | ⟨-, hnil⟩)
      · exact opens.room (by rw [harg, hsems]; exact hid) (by rw [hsems]; exact hnil)
      · have hfree := failed.free
        rw [hd, hsems, hnil] at hfree
        cases hfree
  | opened x d e w u opens opened =>
    obtain ⟨hdesc, hptr⟩ := SemOpenReturns.room opens opened
    rw [hsems] at hdesc hptr
    rcases hfull with ⟨hid, hnil⟩ | hnil | hlen
    · exact absurd hnil (by
        rw [← hsems]
        exact opens.room (by rw [harg, hsems]; exact hid))
    · exact absurd hnil hdesc
    · omega

/-- With no pointers left, an open takes a descriptor and the number that goes with it. -/
theorem semOpen_not_atomic : ∃ s p t, kernel.Reachable s ∧ s.running = some p ∧
    kernel.step s (.syscall dsosCallSemopen [7, 1]) = .ok t ∧
    (t.pcb p).syscallRetvalue = dsosEcreateptr ∧ ¬ OnlyReturns s t p [7, 1] := by
  obtain ⟨s, p, hs⟩ := Opening.reaches (k := 512) le_rfl
  obtain ⟨-, t, d, ht, hret, hnew, hd, -⟩ := hs.fails
  refine ⟨s, p, t, hs.reachable.reachable, hs.running, ht, hret, fun ho => hnew ?_⟩
  rw [← ho.sems]
  exact hd

theorem semOpen_atomic_exhausted : ∃ s p t,
    kernel.step s (.syscall dsosCallSemopen [7, 1]) = .ok t ∧
      (t.pcb p).syscallRetvalue ∈ [dsosEcreatesem, dsosEcreatefd, dsosEcreateptr] ∧
      (OnlyReturns s t p [7, 1] ↔ FailsFirst s 7) := by
  obtain ⟨s, p, hs⟩ := Opening.reaches (k := 512) le_rfl
  exact ⟨s, p, semOpen_atomic_iff hs.reachable.reachable hs.running hs.fails.1⟩

/-! ### Opens that succeed -/

/-- How many descriptors of semaphores the processes have open. -/
def openDescriptors (s : Kernel) : ℕ :=
  ∑ b ∈ s.pcbs.pool.used, (s.pcb b).semDescriptors.items.length

/-- The process exits with all its semaphores closed, and opens a further one only while fewer
descriptors are open than there are pairs of pointers. -/
def FewOpen (s : Kernel) : Action → Prop
  | .syscall n args => ∀ p ∈ s.running,
      (n = dsosCallExit → (s.pcb p).semDescriptors.items = []) ∧
      (n = dsosCallSemopen →
        mySearch s.sems (s.pcb p).semDescriptors (toInt (args.getD 0 0)) ≠ none ∨
          openDescriptors s < maxNumProcesses / 2)
  | .tick | .returnToProcess => True

instance (s : Kernel) (act : Action) : Decidable (FewOpen s act) :=
  match act with
  | .syscall n _ => inferInstanceAs (Decidable (∀ p ∈ s.running, (n = dsosCallExit → _) ∧ _))
  | .tick | .returnToProcess => inferInstanceAs (Decidable True)

/-- Every open descriptor takes one block and two pointers. -/
theorem free_blocks (h : kernel.Reachable s) (hr : RelationInv s) :
    openDescriptors s + s.sems.descriptor.pool.free.length = maxNumProcesses ∧
      2 * openDescriptors s + s.sems.descriptorPtr.pool.free.length = maxNumProcesses ∧
      s.sems.list.items.length + s.sems.semaphore.pool.free.length = maxNumSemaphores := by
  have hk := KernelInv.reachable h
  have hsize := PoolSizes.reachable h
  have hdesc := Pool.card_used_add_free s.sems.descriptor.pool
  have hptr := Pool.card_used_add_free s.sems.descriptorPtr.pool
  have hsem := Pool.card_used_add_free s.sems.semaphore.pool
  rw [hsize.descriptor, card_descriptors hr hk.sem] at hdesc
  rw [hsize.descriptorPtr, card_pointers hr hk.sem, card_descriptors hr hk.sem] at hptr
  rw [hsize.semaphore, card_semaphores hk.sem] at hsem
  exact ⟨hdesc, hptr, hsem⟩

theorem openDescriptors_lt (h : kernel.Reachable s) (hr : RelationInv s) :
    openDescriptors s < maxNumProcesses / 2 ↔
      s.sems.descriptor.pool.free ≠ [] ∧ 2 ≤ s.sems.descriptorPtr.pool.free.length := by
  obtain ⟨hdesc, hptr, -⟩ := free_blocks h hr
  rw [← List.length_pos_iff_ne_nil]
  unfold maxNumProcesses at *
  omega

theorem RelationInv.reachableByFewOpen (h : kernel.ReachableBy FewOpen s) : RelationInv s := by
  refine h.invariant (P := RelationInv) RelationInv.start fun s act t hr hi hG hm => ?_
  refine hi.step (KernelInv.reachable hr.reachable) hm ?_ ?_
  · rintro p hp args rfl
    exact (hG p hp).1 rfl
  · rintro p hp args rfl
    rcases (hG p hp).2 rfl with hsome | hfew
    · exact Or.inl hsome
    · exact Or.inr (Or.inr (Or.inr ((openDescriptors_lt hr.reachable hi).mp hfew)))

/-- Opens that find the blocks they need are opens of few descriptors. -/
theorem reachableByFewOpen_of_room (h : kernel.ReachableBy RoomAndClosed s) :
    kernel.ReachableBy FewOpen s := by
  induction h with
  | start => exact .start
  | @step s t act prior guard move ih =>
    refine ih.step ?_ move
    cases act with
    | tick | returnToProcess => trivial
    | syscall n args =>
      intro p hp
      obtain ⟨hexit, hopen⟩ := guard p hp
      refine ⟨hexit, fun hn => (hopen hn).imp_right fun hroom => ?_⟩
      exact (openDescriptors_lt prior.reachable (.reachableBy prior)).mpr hroom.2

/-- The open of `p` returns a number that is not negative, that of a descriptor `p` now has. -/
def SemOpenSucceeds (s : Kernel) (p : ℕ) (args : List ℤ) : Prop :=
  ∃ t, kernel.step s (.syscall dsosCallSemopen args) = .ok t ∧ 0 ≤ (t.pcb p).syscallRetvalue ∧
    ∃ d ∈ (t.pcb p).semDescriptors.items,
      (t.sems.descriptor.cell d).fd = (t.pcb p).syscallRetvalue

/-- As long as fewer than half as many descriptors are open as there are blocks, an open of a
further semaphore succeeds unless the numbers of the caller have overflowed; it fails from then
on. -/
theorem semOpen_succeeds_iff (h : kernel.ReachableBy FewOpen s) (hp : s.running = some p)
    (hnone : mySearch s.sems (s.pcb p).semDescriptors (toInt (args.getD 0 0)) = none)
    (hsem : s.sems.list.items.length < maxNumSemaphores) :
    SemOpenSucceeds s p args ↔
      openDescriptors s < maxNumProcesses / 2 ∧ 0 ≤ (s.pcb p).lastSemFd := by
  have hr := RelationInv.reachableByFewOpen h
  have hk := KernelInv.reachable h.reachable
  obtain ⟨-, -, hcount⟩ := free_blocks h.reachable hr
  have hroom := openDescriptors_lt h.reachable hr
  have hsems := (enterSyscall_sems s p dsosCallSemopen args).1
  obtain ⟨t, ht, hret⟩ := step_semOpen hk hp hnone
  have hiff : SemOpenSucceeds s p args ↔ 0 ≤ (t.pcb p).syscallRetvalue ∧
      ∃ d ∈ (t.pcb p).semDescriptors.items,
        (t.sems.descriptor.cell d).fd = (t.pcb p).syscallRetvalue := by
    constructor
    · rintro ⟨t', ht', hfd⟩
      rwa [Except.ok.inj (ht.symm.trans ht')]
    · exact fun hfd => ⟨t, ht, hfd⟩
  rw [hiff]
  cases hret with
  | noSemaphore unknown full result =>
    rw [hsems] at full
    rw [full] at hcount
    simp only [List.length_nil] at hcount
    omega
  | noDescriptor x u opens full result =>
    refine iff_of_false (fun hs => ?_) fun hs => (hroom.mp hs.1).1 (by rw [← hsems, full])
    simp [result, dsosEcreatefd] at hs
  | noPointer x d u opens full failed =>
    refine iff_of_false (fun hs => ?_) fun hs => ?_
    · have := hs.1
      rw [failed.retvalue, if_pos rfl] at this
      exact absurd this (by decide)
    · have := (hroom.mp hs.1).2
      rw [hsems] at full
      omega
  | opened x d e w u opens opened =>
    have hlt := SemOpenReturns.room opens opened
    rw [hsems] at hlt
    have hafter := AfterOpen.of_opened opens opened
    rw [hafter.retvalue, and_iff_right (hroom.mpr hlt)]
    refine ⟨fun hs => hs.1, fun h0 => ⟨h0, d, ?_, ?_⟩⟩
    · simp [hafter.items]
    · rw [hafter.new]

/-- A child has opened two semaphores, closed them and exited; the next one has its block. -/
theorem semOpen_succeeds_spawned :
    let s := kernel.replayBy RoomAndClosed [.syscall dsosCallSemopen [7, 1],
      .syscall dsosCallSpawn [0, 0], .syscall dsosCallPreempt [],
      .syscall dsosCallSemopen [7, 0], .syscall dsosCallSemopen [8, 1],
      .syscall dsosCallSemclose [1], .syscall dsosCallSemclose [0], .syscall dsosCallExit [5],
      .syscall dsosCallWait [0, 0], .syscall dsosCallSpawn [0, 0], .syscall dsosCallPreempt []]
    s.running = some 1 ∧ (s.pcb 1).pid = 2 ∧ (s.pcb 0).semDescriptors.items = [0] ∧
      (SemOpenSucceeds s 1 [8, 3] ↔
        openDescriptors s < maxNumProcesses / 2 ∧ 0 ≤ (s.pcb 1).lastSemFd) := by
  refine ⟨?_, ?_, ?_, semOpen_succeeds_iff
    (reachableByFewOpen_of_room (System.reachableBy_replayBy _)) ?_ ?_ ?_⟩
  all_goals decide +kernel

def maxNumSemdescriptorsPerProcess : ℕ := 32

/-- 513 processes and one semaphore are too many. -/
theorem semOpen_fails_within_limits : ∃ s p, kernel.ReachableBy SpawnsAndOpens s ∧
    s.running = some p ∧ mySearch s.sems (s.pcb p).semDescriptors 7 = none ∧
    (s.pcb p).semDescriptors.items.length < maxNumSemdescriptorsPerProcess ∧
    (∀ b, (s.pcb b).semDescriptors.items.length ≤ maxNumSemdescriptorsPerProcess) ∧
    s.pcbs.pool.free.length = 511 ∧ s.sems.list.items.length < maxNumSemaphores ∧
    ∃ t, kernel.step s (.syscall dsosCallSemopen [7, 1]) = .ok t ∧
      (t.pcb p).syscallRetvalue = dsosEcreateptr := by
  obtain ⟨s, p, hs⟩ := Opening.reaches (k := 512) le_rfl
  obtain ⟨-, t, d, ht, hret, -⟩ := hs.fails
  have hlist := hs.list
  refine ⟨s, p, hs.reachable, hs.running, by simp [mySearch, hs.own], ?_, fun b => ?_,
    hs.processes, ?_, t, ht, hret⟩
  · rw [hs.own]
    decide
  · exact (hs.one b).trans (by decide)
  · unfold maxNumSemaphores
    omega

end DisastrOS
