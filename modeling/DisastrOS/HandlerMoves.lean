import DisastrOS.GivingUp

/-! What the handler of a system call does to the processes, one case for every way in which it
can end. -/
namespace DisastrOS
open BlockPool TransitionSystem

/-- What a handler called by `p` does; the states after the cases that move processes are
given in full. -/
inductive HandlerMove (s t : Kernel) (p : ℕ) : Handler → Prop
  | same {hd : Handler} (same : SameProcesses s t) : HandlerMove s t p hd
  | fork (b q : ℕ) (created : NewChild s t p b q (s.pcb b).cpuState) : HandlerMove s t p .fork
  | spawn (b q : ℕ) (created : NewChild s t p b q (some s.lastPid)) : HandlerMove s t p .spawn
  | preempt (scheduled : internalSchedule s = .ok t) : HandlerMove s t p .preempt
  | sleep (timers : TimerTable) (q : ℕ) (rest : List ℕ) (noTimer : ¬ (s.pcb p).timer.isSome)
      (added : timerListAdd s.timers (wakeTime s p) p = .ok (some timers))
      (ready : (s.procs .ready).items = q :: rest)
      (result : t = dispatched (suspended (s.setTimers timers) p) q rest) :
      HandlerMove s t p .sleep
  | idle (timers : TimerTable) (noTimer : ¬ (s.pcb p).timer.isSome)
      (added : timerListAdd s.timers (wakeTime s p) p = .ok (some timers))
      (ready : (s.procs .ready).items = [])
      (result : t = (suspended (s.setTimers timers) p).setRunning none) : HandlerMove s t p .sleep
  | collect (q : ℕ) (asked : awaitedPtr s (toInt ((s.pcb p).syscallArgs 0)) (children s p) = some q)
      (zombie : (s.pcb (child s q)).status = .zombie) (result : t = reaped s p q (child s q)) :
      HandlerMove s t p .wait
  | wait (q : ℕ) (rest : List ℕ) (c : ℕ)
      (asked : awaitedPtr s (toInt ((s.pcb p).syscallArgs 0)) (children s p) = some c)
      (alive : (s.pcb (child s c)).status ≠ .zombie)
      (ready : (s.procs .ready).items = q :: rest)
      (result : t = dispatched (suspended s p) q rest) : HandlerMove s t p .wait
  | exitNext (a i q : ℕ) (sig : ℕ → BitVec 32) (rest : List ℕ) (parent : (s.pcb p).parent = some a)
      (init : s.initPcb = some i) (differ : p ≠ i) (noWaiter : ¬ WaitsFor s a p)
      (ready : (s.procs .ready).items = q :: rest)
      (result : t = resumed (zombified s p i sig) q rest) : HandlerMove s t p .exit
  | exitParent (a i q : ℕ) (sig : ℕ → BitVec 32) (l : ListHead) (r : ResourceTable)
      (parent : (s.pcb p).parent = some a) (init : s.initPcb = some i) (differ : p ≠ i)
      (waits : WaitsFor s a p) (waiting : a ∈ (s.procs .waiting).items)
      (result : t = reclaimed (((handedToParent (zombified s p i sig) p a q).modPcb p
        fun c => { c with descriptors := l }).setResources r) p a) : HandlerMove s t p .exit
  | semWait (d x w q : ℕ) (rest : List ℕ)
      (found : semDescriptorListByFd s.sems (s.pcb p).semDescriptors
        (toInt ((s.pcb p).syscallArgs 0)) = some d)
      (semaphore : (s.sems.descriptor.cell d).semaphore = x)
      (waitPtr : (s.sems.descriptor.cell d).waitPtr = w)
      (count : (s.sems.semaphore.cell x).count ≤ 0) (ready : (s.procs .ready).items = q :: rest)
      (result : t = (dispatched (suspended (semSet s x
          (toInt ((s.sems.semaphore.cell x).count - 1))
          ⟨queue s x ++ [w], (s.sems.semaphore.cell x).waitingDescriptors.size + 1⟩) p) q
        rest).setRetvalue q 0) : HandlerMove s t p .semWait
  | semPost (d x w b : ℕ) (rest : List ℕ)
      (found : semDescriptorListByFd s.sems (s.pcb p).semDescriptors
        (toInt ((s.pcb p).syscallArgs 0)) = some d)
      (semaphore : (s.sems.descriptor.cell d).semaphore = x)
      (count : (s.sems.semaphore.cell x).count < 0) (queued : queue s x = w :: rest)
      (process : waiter s w = b) (waiting : b ∈ (s.procs .waiting).items)
      (result : t = (semWoken s x w b).setRetvalue p 0) : HandlerMove s t p .semPost

variable {s t : Kernel} {p q b a i d x w : ℕ}

theorem internalSleep_move (hp : s.running = some p) (h : internalSleep s = .ok t) :
    HandlerMove s t p .sleep := by
  obtain ⟨p', hp', h⟩ := bind_ok.mp h
  obtain rfl : p = p' := Option.some.inj (hp.symm.trans (deref_ok.mp hp'))
  simp only at h
  split_ifs at h with ht
  · exact .same (Except.ok.inj h ▸ .setRetvalue s p _)
  obtain ⟨o, ho, h⟩ := bind_ok.mp h
  cases o with
  | none => exact .same (Except.ok.inj h ▸ .setRetvalue s p _)
  | some timers =>
    simp only [bind_ok, suspend_ok] at h
    obtain ⟨_, ⟨-, rfl⟩, h⟩ := h
    split at h
    · rename_i q hq
      obtain ⟨rest, hr⟩ := ListHead.first_eq_some hq
      obtain ⟨_, hd, h⟩ := bind_ok.mp h
      obtain rfl := (Kernel.detachProc_first_ok hr).mp hd
      exact .sleep timers q rest ht ho (by simpa [suspended_ready] using hr) (Except.ok.inj h).symm
    · rename_i hq
      have hr := ListHead.first_eq_none hq
      exact .idle timers ht ho (by simpa [suspended_ready] using hr) (Except.ok.inj h).symm

theorem internalWait_move (hp : s.running = some p) (h : internalWait s = .ok t) :
    HandlerMove s t p .wait := by
  obtain ⟨p', hp', hcase⟩ := internalWait_ok h
  obtain rfl : p = p' := Option.some.inj (hp.symm.trans hp')
  rcases hcase with ⟨-, rfl⟩ | ⟨q, b, hq, rfl, ⟨hz, hc⟩ | ⟨hz, hb⟩⟩
  · exact .same (.setRetvalue s p _)
  · obtain ⟨-, -, ht⟩ := collectZombie_ok hc
    exact .collect q hq hz ht
  · obtain ⟨-, r, rest, hr, ht⟩ := waitBlock_ok.mp hb
    exact .wait r rest q hq hz hr ht

theorem internalExit_move (h : KernelInv s) (hp : s.running = some p)
    (hs : internalExit s = .ok t) : HandlerMove s t p .exit := by
  obtain ⟨p', a, i, sig, hp', ha, hi, hpi, hr⟩ := internalExit_returns h.proc h.wake hs
  obtain rfl : p = p' := Option.some.inj (hp.symm.trans hp')
  cases hr with
  | toParent q u waits waiting found released result =>
    obtain ⟨l, r, rfl⟩ := releaseDescriptors_ok released
    exact .exitParent a i q sig ⟨[], l⟩ r ha hi hpi waits waiting result
  | toNext q rest noWaiter ready result =>
    exact .exitNext a i q sig rest ha hi hpi noWaiter ready result

theorem internalSemWait_move (hp : s.running = some p) (h : internalSemWait s = .ok t) :
    HandlerMove s t p .semWait := by
  obtain ⟨p', hp', hcase⟩ := internalSemWait_ok h
  obtain rfl : p = p' := Option.some.inj (hp.symm.trans hp')
  rcases hcase with ⟨-, rfl⟩ | ⟨d, x, w, hd, hx, hw, ⟨-, rfl⟩ | ⟨hc, -, -, q, rest, hr, ht⟩⟩
  · exact .same (.setRetvalue s p _)
  · exact .same ((SameProcesses.setSems s _).trans (.setRetvalue _ p _))
  · exact .semWait d x w q rest hd hx hw hc hr ht

theorem internalSemPost_move (hp : s.running = some p) (h : internalSemPost s = .ok t) :
    HandlerMove s t p .semPost := by
  obtain ⟨p', hp', hcase⟩ := internalSemPost_ok h
  obtain rfl : p = p' := Option.some.inj (hp.symm.trans hp')
  rcases hcase with ⟨-, rfl⟩ | ⟨d, x, hd, hx, ⟨-, rfl⟩ | ⟨hc, w, rest, b, hq, hb, hw, -, -, -, ht⟩⟩
  · exact .same (.setRetvalue s p _)
  · exact .same ((SameProcesses.setSems s _).trans (.setRetvalue _ p _))
  · exact .semPost d x w b rest hd hx hc hq hb hw ht

theorem runHandler_move {hd : Handler} (h : KernelInv s) (hp : s.running = some p)
    (hs : runHandler hd s = .ok t) : HandlerMove s t p hd := by
  cases hd with
  | preempt => exact .preempt hs
  | fork =>
    obtain ⟨b, q, hc⟩ := internalFork_ok hp (h.proc.inUse_of_running hp) hs
    exact .fork b q hc
  | wait => exact internalWait_move hp hs
  | exit => exact internalExit_move h hp hs
  | spawn =>
    obtain ⟨b, q, hc⟩ := internalSpawn_ok hp (h.proc.inUse_of_running hp) hs
    exact .spawn b q hc
  | sleep => exact internalSleep_move hp hs
  | openResource => exact .same (internalOpenResource_frame hs).1
  | closeResource => exact .same (internalCloseResource_frame hs).1
  | destroyResource => exact .same (internalDestroyResource_frame hs).1
  | shutdown => cases hs
  | semOpen => exact .same (internalSemOpen_frame hs).1
  | semClose => exact .same (internalSemClose_frame hs).1
  | semWait => exact internalSemWait_move hp hs
  | semPost => exact internalSemPost_move hp hs

end DisastrOS
