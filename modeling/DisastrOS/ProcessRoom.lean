import DisastrOS.SemaphoreRoom

/-! What spawn and fork do when there is room for a new process, and when there is none. -/
namespace DisastrOS
open BlockPool TransitionSystem

/-- The call of `p` is refused with an error code, and the rest is as it was. -/
structure SpawnRefused (s t : Kernel) (p : ℕ) : Prop where
  retvalue : (t.pcb p).syscallRetvalue = dsosEspawn
  lastPid : t.lastPid = s.lastPid
  running : t.running = s.running
  procs : ∀ l, t.procs l = s.procs l
  children : ∀ k, children t k = children s k
  pool : t.pcbs.pool = s.pcbs.pool
  pcbPtrs : t.pcbPtrs = s.pcbPtrs
  timers : t.timers = s.timers
  resources : t.resources = s.resources
  sems : t.sems = s.sems
  pcb : ∀ k ≠ p, t.pcb k = s.pcb k

/-- There is one more process, in block `b`, and `q` is the pointer to it in the children of
`p`. -/
structure ProcessAdded (s t : Kernel) (p b q : ℕ) : Prop where
  fresh : ¬ s.pcbs.InUse b
  inUse : ∀ k, t.pcbs.InUse k ↔ s.pcbs.InUse k ∨ k = b
  status : (t.pcb b).status = .ready
  pid : ∀ k, s.pcbs.InUse k → (s.pcb k).pid ≠ (t.pcb b).pid
  ready : (t.procs .ready).items = (s.procs .ready).items ++ [b]
  procs : ∀ l ≠ .ready, t.procs l = s.procs l
  children : children t p = children s p ++ [q]
  child : child t q = b
  pcb : ∀ k ≠ p, k ≠ b → t.pcb k = s.pcb k
  retvalue : (t.pcb p).syscallRetvalue = (t.pcb b).pid

/-- The call of `p` is refused if there is no block for a PCB, and adds a process otherwise. -/
def SpawnReports (s : Kernel) (p : ℕ) (hd : Handler) (args : List ℤ) : Prop :=
  if s.pcbs.pool.free = [] then
    ∃ t, kernel.step s (.syscall hd.number args) = .ok t ∧ SpawnRefused s t p
  else ∃ t b q, kernel.step s (.syscall hd.number args) = .ok t ∧ ProcessAdded s t p b q

variable {s t : Kernel} {p q b : ℕ} {n : ℤ} {hd : Handler} {args : List ℤ}

theorem pcbAlloc_stuck (h : s.pcbs.pool.free = []) : pcbAlloc s = .error .nullPointer := by
  unfold pcbAlloc
  rw [Store.alloc_eq_none.mpr h]

theorem pcbPtrAlloc_stuck (h : s.pcbPtrs.pool.free = []) :
    pcbPtrAlloc s b = .error .nullPointer := by
  unfold pcbPtrAlloc
  rw [Store.alloc_eq_none.mpr h]

/-- `PCB_alloc` and `PCBPtr_alloc` write to the null pointer. -/
theorem newChild_stuck (hp : s.running = some p)
    (hfull : s.pcbs.pool.free = [] ∨ s.pcbPtrs.pool.free = []) :
    newChild s = .error .nullPointer := by
  refine bind_error (deref_ok.mpr hp) ?_
  by_cases hb : s.pcbs.pool.free = []
  · exact bind_stuck (pcbAlloc_stuck hb)
  · obtain ⟨b, t, ht⟩ := pcbAlloc_isOk hb
    obtain ⟨_, st, -, -, rfl⟩ := pcbAlloc_ok ht
    refine bind_error ht (bind_stuck (pcbPtrAlloc_stuck ?_))
    exact hfull.resolve_left hb

theorem spawn_stuck (hhd : hd = .spawn ∨ hd = .fork) (hp : s.running = some p)
    (hfull : s.pcbs.pool.free = [] ∨ s.pcbPtrs.pool.free = []) :
    kernel.step s (.syscall hd.number args) = .error .nullPointer := by
  have hstuck : newChild (enterSyscall s p hd.number args) = .error .nullPointer :=
    newChild_stuck hp hfull
  refine (step_handler hp).trans ?_
  rcases hhd with rfl | rfl
  · exact bind_stuck hstuck
  · exact bind_stuck hstuck

theorem spawn_added (args : List ℤ) (h : kernel.Reachable s) (hhd : hd = .spawn ∨ hd = .fork)
    (hp : s.running = some p) (hb : s.pcbs.pool.free ≠ []) (hq : s.pcbPtrs.pool.free ≠ []) :
    ∃ t b q cpu, kernel.step s (.syscall hd.number args) = .ok t ∧
      NewChild (enterSyscall s p hd.number args) t p b q cpu := by
  have hk : KernelInv s := .reachable h
  have hke : KernelInv (enterSyscall s p hd.number args) := hk.enter hp
  have hpe : (enterSyscall s p hd.number args).running = some p := hp
  have hu := hke.proc.inUse_of_running hpe
  have hchild := newChild_isOk hke ((PtrInv.reachable h).family enterSyscall_family) hpe hb hq
  rcases hhd with rfl | rfl
  · obtain ⟨t, ht⟩ := internalSpawn_isOk hchild
    obtain ⟨b, q, hc⟩ := internalSpawn_ok hpe hu ht
    exact ⟨t, b, q, _, (step_handler hp).trans ht, hc⟩
  · obtain ⟨t, ht⟩ := internalFork_isOk hchild
    obtain ⟨b, q, hc⟩ := internalFork_ok hpe hu ht
    exact ⟨t, b, q, _, (step_handler hp).trans ht, hc⟩

/-- The new process has the number `last_pid`. -/
theorem NewChild.processAdded_iff {cpu : Option ℤ}
    (hc : NewChild (enterSyscall s p n args) t p b q cpu) :
    (∃ b' q', ProcessAdded s t p b' q') ↔ ∀ k, s.pcbs.InUse k → (s.pcb k).pid ≠ s.lastPid := by
  have hpid : (t.pcb b).pid = s.lastPid := by
    rw [hc.pcb, if_pos rfl]
    rfl
  have hfresh : ¬ s.pcbs.InUse b := hc.fresh
  have hinUse : ∀ k, t.pcbs.InUse k ↔ s.pcbs.InUse k ∨ k = b := hc.inUse
  constructor
  · rintro ⟨b', q', ha⟩ k hk
    have hbb : b' = b := by
      have hb' := (ha.inUse b).mp ((hinUse b).mpr (Or.inr rfl))
      exact (hb'.resolve_left hfresh).symm
    rw [← hpid, ← hbb]
    exact ha.pid k hk
  · intro hno
    have hpb : p ≠ b := hc.differ
    refine ⟨b, q, hfresh, hinUse, ?_, fun k hk => hpid ▸ hno k hk, ?_, fun l hl => ?_, ?_, ?_,
      fun k hkp hkb => ?_, ?_⟩
    · rw [hc.pcb, if_pos rfl]
      rfl
    · rw [hc.procs, if_pos rfl]
      rfl
    · rw [hc.procs, if_neg hl]
      rfl
    · rw [children, hc.pcb, if_neg hpb, if_pos rfl]
      simp [enterSyscall, children]
    · rw [child, hc.cellPtr, if_pos rfl]
    · rw [hc.pcb, if_neg hkb, if_neg hkp]
      simp [enterSyscall, hkp]
    · rw [hpid, hc.pcb, if_neg hpb, if_pos rfl]
      rfl

/-- Spawn and fork report what they have done exactly if there are a block for the PCB and one for
the pointer to it, and no process in use has the number `last_pid`. -/
theorem spawnReports_iff (h : kernel.Reachable s) (hhd : hd = .spawn ∨ hd = .fork)
    (hp : s.running = some p) : SpawnReports s p hd args ↔
      s.pcbs.pool.free ≠ [] ∧ s.pcbPtrs.pool.free ≠ [] ∧
        ∀ k, s.pcbs.InUse k → (s.pcb k).pid ≠ s.lastPid := by
  by_cases hfull : s.pcbs.pool.free = [] ∨ s.pcbPtrs.pool.free = []
  · have hstuck : kernel.step s (.syscall hd.number args) = .error .nullPointer :=
      spawn_stuck hhd hp hfull
    refine iff_of_false (fun hr => ?_) fun hr => hfull.elim hr.1 hr.2.1
    unfold SpawnReports at hr
    split_ifs at hr
    · obtain ⟨t, ht, -⟩ := hr
      rw [hstuck] at ht
      cases ht
    · obtain ⟨t, b, q, ht, -⟩ := hr
      rw [hstuck] at ht
      cases ht
  · rw [not_or] at hfull
    obtain ⟨hb, hq⟩ := hfull
    obtain ⟨t, b, q, cpu, ht, hc⟩ := spawn_added args h hhd hp hb hq
    have hadded := hc.processAdded_iff
    rw [SpawnReports, if_neg hb]
    constructor
    · rintro ⟨t', b', q', ht', ha⟩
      obtain rfl := Except.ok.inj (ht.symm.trans ht')
      exact ⟨hb, hq, hadded.mp ⟨b', q', ha⟩⟩
    · rintro ⟨-, -, hpid⟩
      obtain ⟨b', q', ha⟩ := hadded.mpr hpid
      exact ⟨t, b', q', ht, ha⟩

theorem spawnReports_second :
    let s := kernel.replay [.syscall dsosCallSpawn [0, 0]]
    s.running = some 0 ∧ SpawnReports s 0 .spawn [0, 0] := by
  intro s
  have hfree : s.pcbs.pool.free = upFrom 2 1022 := by decide +kernel
  refine ⟨by decide +kernel, (spawnReports_iff (System.reachable_replay _) (Or.inl rfl)
    (by decide +kernel)).mpr ⟨by decide +kernel, by decide +kernel, fun k hk => ?_⟩⟩
  have hk2 : k < 2 := by
    have hlt : k < 1024 := hk.1
    have hno := hk.2
    rw [hfree, mem_upFrom] at hno
    omega
  have hpids : ∀ k < 2, (s.pcb k).pid ≠ s.lastPid := by decide +kernel
  exact hpids k hk2

/-- When init has 1023 children there is no block left, and a further spawn does not return. -/
theorem spawn_exhausted : ∃ s, kernel.Reachable s ∧ s.running = some 0 ∧
    s.pcbs.pool.free = [] ∧ (s.procs .ready).items.length = 1023 ∧
    kernel.step s (.syscall dsosCallSpawn [0, 0]) = .error .nullPointer ∧
    ¬ SpawnReports s 0 .spawn [0, 0] := by
  obtain ⟨s, hs⟩ := Crowd.reaches (le_refl 1023)
  have hfree : s.pcbs.pool.free = [] := by
    have := hs.free
    exact List.length_eq_zero_iff.mp (by omega)
  have hstuck : kernel.step s (.syscall Handler.spawn.number [0, 0]) = .error .nullPointer :=
    spawn_stuck (Or.inl rfl) hs.running (Or.inl hfree)
  refine ⟨s, hs.reachable.reachable, hs.running, hfree, hs.ready, hstuck, fun hr => ?_⟩
  rw [SpawnReports, if_pos hfree] at hr
  obtain ⟨t, ht, -⟩ := hr
  rw [hstuck] at ht
  cases ht

end DisastrOS
