import DisastrOS.Timers

/-! What a step does to a process that waits. -/
namespace DisastrOS
open BlockPool TransitionSystem

/-- The process `a` no longer waits. -/
structure Woken (t : Kernel) (a : ℕ) : Prop where
  notWaiting : a ∉ (t.procs .waiting).items
  placed : a ∈ (t.procs .ready).items ∨ t.running = some a

/-- What a step does to the waiting process `a`. -/
inductive BlockedMove (s t : Kernel) (a : ℕ) : Prop
  | stays (waiting : a ∈ (t.procs .waiting).items)
      (syscallNum : (t.pcb a).syscallNum = (s.pcb a).syscallNum)
      (syscallArgs : (t.pcb a).syscallArgs = (s.pcb a).syscallArgs)
  /-- Its child `p`, for which it waits, has exited. -/
  | collects (p : ℕ) (running : s.running = some p) (waits : WaitsFor s a p) (woken : Woken t a)
      (retvalue : (t.pcb a).syscallRetvalue = (s.pcb p).pid)
  /-- Its timer `i` has elapsed. -/
  | elapsed (i : ℕ) (mem : i ∈ s.timers.list.items) (process : sleeper s i = a)
      (due : awakeningTime s i ≤ t.time) (woken : Woken t a)
  /-- It was the first to wait for the semaphore `x`. -/
  | posted (x w : ℕ) (rest : List ℕ) (queued : queue s x = w :: rest) (process : waiter s w = a)
      (woken : Woken t a)

variable {s t u : Kernel} {p q b a i d x w : ℕ}

theorem Elapsed.woken {E ready : List ℕ} (h : Elapsed s t [] E ready) (hi : i ∈ E) :
    Woken t (sleeper s i) := by
  have hE := List.mem_map_of_mem (f := sleeper s) hi
  refine ⟨?_, Or.inl ?_⟩
  · rw [h.waiting]
    exact fun hm => by simpa [hE] using List.of_mem_filter hm
  · rw [h.ready]
    exact List.mem_append_left _ hE

theorem Woken.rotated {rest : List ℕ} (h : Woken u a) (hp : u.running = some p) (hap : a ≠ p)
    (hr : (u.procs .ready).items = q :: rest) : Woken (rotated u p q rest) a := by
  refine ⟨by simpa [DisastrOS.rotated] using h.notWaiting, ?_⟩
  rcases h.placed with hready | hrun
  · rw [hr] at hready
    rcases List.mem_cons.mp hready with rfl | hm
    · exact Or.inr rfl
    · exact Or.inl (by simp [DisastrOS.rotated, hm])
  · rw [hp] at hrun
    exact absurd (Option.some.inj hrun).symm hap

theorem Elapsed.blocked {E ready : List ℕ} (h : Elapsed s t [] E ready)
    (hdue : ∀ i ∈ E, awakeningTime s i ≤ s.time) (ha : a ∈ (s.procs .waiting).items) :
    BlockedMove s t a := by
  by_cases hE : a ∈ E.map (sleeper s)
  · obtain ⟨i, hi, rfl⟩ := List.mem_map.mp hE
    exact .elapsed i (h.timers ▸ List.mem_append_left _ hi) rfl (h.time ▸ hdue i hi) (h.woken hi)
  · refine .stays ?_ ?_ ?_
    · rw [h.waiting]
      simpa [ha] using hE
    · rw [h.pcb, if_neg hE]
    · rw [h.pcb, if_neg hE]

theorem internalSchedule_blocked (h : KernelInv s) (hs : internalSchedule s = .ok t)
    (ha : a ∈ (s.procs .waiting).items) : BlockedMove s t a := by
  obtain ⟨u, hel, hcase⟩ := internalSchedule_elapsed h hs
  have hu := hel.blocked (fun _ => elapsed_due) ha
  rcases hcase with ⟨-, rfl⟩ | ⟨p, q, rest, hp, hr, rfl⟩
  · exact hu
  have hap : a ≠ p := fun he => h.not_waiting hp (he ▸ ha)
  have hwoken : Woken u a → Woken (rotated u p q rest) a := fun hw =>
    hw.rotated (hel.running.trans hp) hap hr
  cases hu with
  | stays waiting syscallNum syscallArgs =>
    exact .stays (by simpa [rotated] using waiting) (by simpa [rotated] using syscallNum)
      (by simpa [rotated] using syscallArgs)
  | collects p' running waits woken retvalue =>
    exact .collects p' running waits (hwoken woken) (by simpa [rotated] using retvalue)
  | elapsed i mem process due woken => exact .elapsed i mem process due (hwoken woken)
  | posted x w rest' queued process woken => exact .posted x w rest' queued process (hwoken woken)

theorem HandlerMove.blocked {hd : Handler} (h : KernelInv s) (hp : s.running = some p)
    (ha : a ∈ (s.procs .waiting).items) (hm : HandlerMove s t p hd) : BlockedMove s t a := by
  have hap : a ≠ p := fun he => h.not_waiting hp (he ▸ ha)
  cases hm with
  | same same =>
    exact .stays (by rwa [same.procs]) (same.syscallNum a) (same.syscallArgs a)
  | fork b q created | spawn b q created =>
    have hab : a ≠ b := fun he => created.fresh (he ▸ h.proc.inUse_of_mem ha)
    refine .stays ?_ ?_ ?_
    · rw [created.procs, if_neg (by decide)]
      exact ha
    · rw [created.pcb, if_neg hab, if_neg hap]
    · rw [created.pcb, if_neg hab, if_neg hap]
  | preempt scheduled => exact internalSchedule_blocked h scheduled ha
  | collect q asked zombie result =>
    subst result
    exact .stays (by simpa [reaped] using ha) (by simp [reaped, hap]) (by simp [reaped, hap])
  | sleep timers q rest noTimer added ready result | wait q rest c asked alive ready result
  | idle timers noTimer added ready result
  | semWait d x w q rest found semaphore waitPtr count ready result =>
    subst result
    refine .stays ?_ ?_ ?_
    all_goals simp [dispatched, suspended, ha, hap]
  | exitNext a' i q sig rest parent init differ noWaiter ready result =>
    subst result
    refine .stays ?_ ?_ ?_
    all_goals simp [resumed, zombified, ha]
  | exitParent a' i q sig l r parent init differ waits waiting result =>
    subst result
    by_cases haa : a = a'
    · subst haa
      refine .collects p hp waits ⟨?_, Or.inr rfl⟩ ?_
      · have hnd := h.proc.nodup .waiting
        simp [reclaimed, handedToParent, zombified, hnd.mem_erase_iff]
      · simp [reclaimed, handedToParent, zombified, hap]
    · refine .stays ?_ ?_ ?_
      · simpa [reclaimed, handedToParent, zombified] using (List.mem_erase_of_ne haa).mpr ha
      · simp [reclaimed, handedToParent, zombified, hap, haa]
      · simp [reclaimed, handedToParent, zombified, hap, haa]
  | semPost d x w b rest found semaphore count queued process waiting result =>
    subst result
    by_cases hab : a = b
    · subst hab
      refine .posted x w rest queued process ⟨?_, Or.inl ?_⟩
      · have hnd := h.proc.nodup .waiting
        simp [semWoken, hnd.mem_erase_iff]
      · simp [semWoken]
    · refine .stays ?_ ?_ ?_
      · simpa [semWoken] using (List.mem_erase_of_ne hab).mpr ha
      · simp [semWoken]
      · simp [semWoken]

/-- A process that waits stays so until a child exits that it waits for, its timer elapses, or
its semaphore is posted. -/
theorem step_blocked {act : Action} (h : KernelInv s) (hs : step s act = .ok t)
    (ha : a ∈ (s.procs .waiting).items) : BlockedMove s t a := by
  rcases step_ok hs with ⟨p, n, args, hp, -, hr⟩ | ⟨p, hp, -, ht⟩ | ⟨-, hr⟩
  · have hap : a ≠ p := fun he => h.not_waiting hp (he ▸ ha)
    have hkeep : ∀ k, k ≠ p → (enterSyscall s p n args).pcb k = s.pcb k := fun k hk => by
      simp [enterSyscall, hk]
    cases hr with
    | outOfRange _ same =>
      subst same
      exact .stays ha rfl rfl
    | notImplemented _ result =>
      subst result
      exact .stays (by simpa [enterSyscall] using ha) (by simp [hkeep a hap]) (by simp [hkeep a hap])
    | handled hd _ run =>
      have hke : KernelInv (enterSyscall s p n args) := h.enter hp
      cases (runHandler_move hke hp run).blocked hke hp ha with
      | stays waiting syscallNum syscallArgs =>
        rw [hkeep a hap] at syscallNum syscallArgs
        exact .stays waiting syscallNum syscallArgs
      | collects p' running waits woken retvalue =>
        obtain rfl : p = p' := Option.some.inj (hp.symm.trans running)
        refine .collects p hp ((waitsFor_enterSyscall hap).mp waits) woken ?_
        rw [retvalue]
        simp [enterSyscall]
      | elapsed i mem process due woken => exact .elapsed i mem process due woken
      | posted x w rest queued process woken => exact .posted x w rest queued process woken
  · have hap : a ≠ p := fun he => h.not_waiting hp (he ▸ ha)
    cases internalSchedule_blocked h.ticked ht ha with
    | stays waiting syscallNum syscallArgs =>
      exact .stays waiting (by simpa [hap] using syscallNum) (by simpa [hap] using syscallArgs)
    | collects p' running waits woken retvalue =>
      obtain rfl : p = p' := Option.some.inj (hp.symm.trans running)
      exact .collects p hp (by simpa [WaitsFor, hap] using waits) woken (by simpa using retvalue)
    | elapsed i mem process due woken => exact .elapsed i mem process due woken
    | posted x w rest queued process woken => exact .posted x w rest queued process woken
  · cases hr with
    | resumed _ same =>
      subst same
      exact .stays ha rfl rfl
    | restarted b _ started =>
      have hab : a ≠ b := fun he => started.fresh (he ▸ h.proc.inUse_of_mem ha)
      refine .stays ?_ ?_ ?_
      · rwa [started.procs]
      · rw [started.pcb, if_neg hab]
      · rw [started.pcb, if_neg hab]

end DisastrOS
