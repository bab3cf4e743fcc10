import DisastrOS.Kernel

/-! The system calls on processes and the scheduler. -/
namespace DisastrOS
open BlockPool

/-- `PCB_alloc`. It fills in the block before any caller can test for the null pointer. -/
def pcbAlloc (s : Kernel) : Except Fault (Option ℕ × Kernel) :=
  match s.pcbs.alloc fun c => { c with
      pid := s.lastPid
      returnValue := 0
      status := .invalid
      lastFd := 0
      signals := 0
      signalsMask := 0xFFFFFFFF
      descriptors := .init
      parent := none
      timer := none
      children := .init
      lastSemFd := 0
      semDescriptors := .init } with
  | none => .error .nullPointer
  | some (b, t) =>
    .ok (some b, { s with pcbs := t, lastPid := toInt (s.lastPid + 1) }.emit (.created s.lastPid))

/-- `PCB_free`. No caller looks at the result. -/
@[simps] def pcbFree (s : Kernel) (b : ℕ) : Kernel := { s with pcbs := (s.pcbs.free b).2 }

/-- `PCBPtr_alloc`, which like `PCB_alloc` never returns the null pointer. -/
def pcbPtrAlloc (s : Kernel) (b : ℕ) : Except Fault (Option ℕ × Kernel) :=
  match s.pcbPtrs.alloc fun _ => { pcb := b } with
  | none => .error .nullPointer
  | some (q, t) => .ok (some q, { s with pcbPtrs := t })

/-- `PCBPtr_free`. No caller looks at the result. -/
@[simps] def pcbPtrFree (s : Kernel) (q : ℕ) : Kernel := { s with pcbPtrs := (s.pcbPtrs.free q).2 }

/-- `PCBPtr_byPID` -/
def pcbPtrByPid (s : Kernel) (h : ListHead) (pid : ℤ) : Option ℕ :=
  h.items.find? fun q => (s.pcb (s.pcbPtrs.cell q).pcb).pid = pid

/-- `TimerItem_alloc` -/
def timerItemAlloc (t : TimerTable) (awakeningTime : ℤ) (b : ℕ) : Option (ℕ × TimerTable) :=
  match t.item.alloc fun _ => { awakeningTime := awakeningTime, pcb := b } with
  | none => none
  | some (i, st) => some (i, { t with item := st })

/-- `TimerItem_free`. No caller looks at the result. -/
def timerItemFree (t : TimerTable) (i : ℕ) : TimerTable := { t with item := (t.item.free i).2 }

/-- The scan of `TimerList_add`: the last item before the first that is due later. -/
def timerPrevious (t : TimerTable) (awakeningTime : ℤ) : Option ℕ → List ℕ → Option ℕ
  | prev, [] => prev
  | prev, i :: is =>
    if awakeningTime < (t.item.cell i).awakeningTime then prev
    else timerPrevious t awakeningTime (some i) is

/-- `TimerList_add`; `none` when there is no block for the timer. -/
def timerListAdd (t : TimerTable) (awakeningTime : ℤ) (b : ℕ) :
    Except Fault (Option TimerTable) :=
  let prev := timerPrevious t awakeningTime none t.list.items
  match timerItemAlloc t awakeningTime b with
  | none => .ok none
  | some (i, t) => do
    let h ← listInsert t.list prev i
    .ok (some { t with list := h })

/-- `TimerList_current` -/
def timerListCurrent (t : TimerTable) (currentTime : ℤ) : Option ℕ :=
  match t.list.first with
  | none => none
  | some i => if currentTime ≥ (t.item.cell i).awakeningTime then some i else none

/-- `TimerList_removeCurrent` -/
def timerListRemoveCurrent (t : TimerTable) : Except Fault TimerTable := do
  let i ← deref t.list.first
  let h ← listDetach t.list i
  .ok (timerItemFree { t with list := h } i)

/-- One round of the wake loop of `internal_schedule`: the process `b` of the first timer
becomes ready, behind the one woken before it. -/
def wakeTimer (s : Kernel) (prev : Option ℕ) (b : ℕ) : Except Fault Kernel := do
  let s ← s.detachProc .waiting b
  let s := (s.setStatus b .ready).modPcb b fun c => { c with timer := none }
  let s ← s.insertProc .ready prev b
  let t ← timerListRemoveCurrent s.timers
  .ok (s.setTimers t)

/-- The loop of `internal_schedule` that wakes the processes whose timers have elapsed. -/
def wakeElapsed : ℕ → Kernel → Option ℕ → Except Fault Kernel
  | 0, _, _ => .error .endless
  | fuel + 1, s, prev =>
    match timerListCurrent s.timers s.time with
    | none => .ok s
    | some i => do
      let b := (s.timers.item.cell i).pcb
      let s ← wakeTimer s prev b
      wakeElapsed fuel s (some b)

/-- `internal_schedule`. Every round of the wake loop removes one timer. -/
def internalSchedule (s : Kernel) : Except Fault Kernel := do
  let s ← wakeElapsed (s.timers.list.items.length + 1) s none
  match (s.procs .ready).first with
  | none => .ok s
  | some q => do
    let s ← s.detachProc .ready q
    let p ← deref s.running
    let s := s.setStatus p .ready
    let s ← s.insertProc .ready (s.procs .ready).last p
    .ok ((s.setStatus q .running).setRunning (some q))

def internalPreempt (s : Kernel) : Except Fault Kernel := internalSchedule s

/-- What `internal_spawn` and `internal_fork` have in common: a new process, ready, as the
last child of the running one. The pointer to it is null in the error branch. -/
def newChild (s : Kernel) : Except Fault (Option ℕ × Kernel) := do
  let p ← deref s.running
  let (o, s) ← pcbAlloc s
  match o with
  | none => .ok (none, s.setRetvalue p dsosEspawn)
  | some b => do
    let s := (s.setStatus b .ready).modPcb b fun c => { c with parent := some p }
    let (o, s) ← pcbPtrAlloc s b
    match o with
    | none => .error .assertion
    | some q => do
      let h ← listInsert (s.pcb p).children (s.pcb p).children.last q
      let s := s.modPcb p fun c => { c with children := h }
      let s ← s.insertProc .ready (s.procs .ready).last b
      .ok (some b, s.setRetvalue p (s.pcb b).pid)

def internalFork (s : Kernel) : Except Fault Kernel := do
  let (_, s) ← newChild s
  .ok s

/-- `internal_spawn`; unlike fork it makes a context for the new process. -/
def internalSpawn (s : Kernel) : Except Fault Kernel := do
  let (o, s) ← newChild s
  match o with
  | none => .ok s
  | some b => .ok (s.modPcb b fun c => { c with cpuState := some c.pid })

/-- One round of the loop of `internal_exit` over the children of `p`: `q` moves to the
children of `i`. -/
def reparentChild (s : Kernel) (p i q : ℕ) : Except Fault Kernel := do
  let h ← listDetach (s.pcb p).children q
  let s := s.modPcb p fun c => { c with children := h }
  let h ← listInsert (s.pcb i).children (s.pcb i).children.last q
  let s := s.modPcb i fun c => { c with children := h }
  .ok (s.modPcb (s.pcbPtrs.cell q).pcb fun c =>
    { c with signals := c.signals ||| (dsosSighup &&& c.signalsMask) })

/-- The loop of `internal_exit` that hands the children of `p` to `i`. -/
def reparentChildren : ℕ → Kernel → ℕ → ℕ → Except Fault Kernel
  | 0, _, _, _ => .error .endless
  | fuel + 1, s, p, i =>
    match (s.pcb p).children.first with
    | none => .ok s
    | some q => do
      let s ← reparentChild s p i q
      reparentChildren fuel s p i

/-- The sweep of `internal_exit` over the timers of `p`; the link to the next timer is read
before the current one is detached. -/
def releaseTimers (t : TimerTable) (p : ℕ) : List ℕ → Except Fault TimerTable
  | [] => .ok t
  | i :: is =>
    if (t.item.cell i).pcb = p then do
      let h ← listDetach t.list i
      releaseTimers (timerItemFree { t with list := h } i) p is
    else releaseTimers t p is

/-- Unlink the descriptor `d` from its process `p` and its resource, and free it. -/
def releaseDescriptor (s : Kernel) (p d : ℕ) : Except Fault Kernel := do
  let h ← listDetach (s.pcb p).descriptors d
  let s := s.modPcb p fun c => { c with descriptors := h }
  let t := s.resources
  let r := (t.descriptor.cell d).resource
  let e := (t.descriptor.cell d).ptr
  let h ← listDetach (t.resource.cell r).descriptors e
  .ok (s.setResources { t with
    resource := t.resource.modify r fun c => { c with descriptors := h }
    descriptorPtr := (t.descriptorPtr.free e).2
    descriptor := (t.descriptor.free d).2 })

/-- The loop of `internal_exit` that closes the resources of `p`. -/
def releaseDescriptors : ℕ → Kernel → ℕ → Except Fault Kernel
  | 0, _, _ => .error .endless
  | fuel + 1, s, p =>
    match (s.pcb p).descriptors.first with
    | none => .ok s
    | some d => do
      let s ← releaseDescriptor s p d
      releaseDescriptors fuel s p

/-- The parent `a` of the exiting process `p` is blocked in a wait that `p` satisfies. -/
def WaitsFor (s : Kernel) (a p : ℕ) : Prop :=
  (s.pcb a).status = .waiting ∧ (s.pcb a).syscallNum = dsosCallWait ∧
    ((s.pcb a).syscallArgs 0 = 0 ∨ (s.pcb a).syscallArgs 0 = (s.pcb p).pid)

instance (s : Kernel) (a p : ℕ) : Decidable (WaitsFor s a p) :=
  inferInstanceAs (Decidable (_ ∧ _))

/-- Store through the result pointer `result` of a wait, if it is not null. -/
@[simps] def storeResult (s : Kernel) (result value : ℤ) : Kernel :=
  { s with memory := fun k => if result ≠ 0 ∧ k = result then value else s.memory k }

/-- The branch of `internal_exit` for a parent `a` that waits for `p`. -/
def exitToParent (s : Kernel) (p a : ℕ) : Except Fault Kernel := do
  let s ← s.detachProc .waiting a
  let s := s.setStatus a .running
  let q ← deref (pcbPtrByPid s (s.pcb a).children (s.pcb p).pid)
  let h ← listDetach (s.pcb a).children q
  let s := s.modPcb a fun c => { c with children := h }
  let s := s.setRetvalue a (s.pcb p).pid
  let result := (s.pcb a).syscallArgs 1
  let s := (storeResult s result (s.pcb p).returnValue).emit
    (.collected (s.pcb p).pid a (if result = 0 then none else some (s.pcb p).returnValue))
  let t ← releaseTimers s.timers p s.timers.list.items
  let s := s.setTimers t
  let s ← releaseDescriptors ((s.pcb p).descriptors.items.length + 1) s p
  let s ← s.detachProc .zombie p
  .ok ((pcbFree s p).setRunning (some a))

/-- The first half of `internal_exit`, up to the test on the parent, which it returns with
the exiting process. -/
def exitPrologue (s : Kernel) : Except Fault (ℕ × ℕ × Kernel) := do
  let p ← deref s.running
  let s := (s.modPcb p fun c => { c with returnValue := toInt (c.syscallArgs 0) }).emit
    (.exited (s.pcb p).pid (toInt ((s.pcb p).syscallArgs 0)))
  match s.initPcb with
  | none => .error .assertion
  | some i => do
    let s ← reparentChildren ((s.pcb p).children.items.length + 1) s p i
    let s := s.setStatus p .zombie
    let s ← s.insertProc .zombie (s.procs .zombie).last p
    let a ← deref (s.pcb p).parent
    let s := s.modPcb a fun c =>
      { c with signals := c.signals ||| (dsosSigchld &&& c.signalsMask) }
    .ok (p, a, s)

def internalExit (s : Kernel) : Except Fault Kernel := do
  let (p, a, s) ← exitPrologue s
  if WaitsFor s a p then exitToParent s p a
  else do
    let q ← deref (s.procs .ready).first
    let s ← s.detachProc .ready q
    .ok ((s.setStatus q .running).setRunning (some q))

/-- The scan of `internal_wait`: the first child that matches, or else the last child. -/
def awaitedPtr (s : Kernel) (pid : ℤ) : List ℕ → Option ℕ
  | [] => none
  | [q] => some q
  | q :: q' :: qs =>
    if pid = 0 ∧ (s.pcb (s.pcbPtrs.cell q).pcb).status = .zombie ∨
        pid ≠ 0 ∧ (s.pcb (s.pcbPtrs.cell q).pcb).pid = pid then some q
    else awaitedPtr s pid (q' :: qs)

/-- `List_detach` of a PCB from the zombies. A PCB that is in no list keeps its null links
and only the size goes down. -/
def detachZombie (s : Kernel) (b : ℕ) : Except Fault Kernel :=
  if s.Linked b ∧ b ∉ (s.procs .zombie).items then .error .listMisuse
  else .ok (s.setProcs .zombie
    ⟨(s.procs .zombie).items.erase b, (s.procs .zombie).size - 1⟩)

/-- The branch of `internal_wait` that collects the zombie `b`, referred to by `q`. -/
def collectZombie (s : Kernel) (p q b : ℕ) : Except Fault Kernel := do
  let h ← listDetach (s.pcb p).children q
  let s := pcbPtrFree (s.modPcb p fun c => { c with children := h }) q
  let s ← detachZombie s b
  let s := s.setRetvalue p (s.pcb b).pid
  let result := (s.pcb p).syscallArgs 1
  let s := (storeResult s result (s.pcb b).returnValue).emit
    (.collected (s.pcb b).pid p (if result = 0 then none else some (s.pcb b).returnValue))
  .ok (pcbFree s b)

/-- Put the running process `p` at the end of the waiting list. -/
def suspend (s : Kernel) (p : ℕ) : Except Fault Kernel :=
  let s := s.setStatus p .waiting
  s.insertProc .waiting (s.procs .waiting).last p

/-- The end of `internal_wait`: block, and run the first ready process. Its status is left
as it is. -/
def waitBlock (s : Kernel) (p : ℕ) : Except Fault Kernel := do
  let s ← suspend s p
  let q ← deref (s.procs .ready).first
  let s ← s.detachProc .ready q
  .ok (s.setRunning (some q))

def internalWait (s : Kernel) : Except Fault Kernel := do
  let p ← deref s.running
  let pidToWait := toInt ((s.pcb p).syscallArgs 0)
  match awaitedPtr s pidToWait (s.pcb p).children.items with
  | none => .ok (s.setRetvalue p dsosEwait)
  | some q =>
    if (s.pcb (s.pcbPtrs.cell q).pcb).status = .zombie then
      collectZombie s p q (s.pcbPtrs.cell q).pcb
    else waitBlock s p

def internalSleep (s : Kernel) : Except Fault Kernel := do
  let p ← deref s.running
  if (s.pcb p).timer.isSome then .ok (s.setRetvalue p dsosEsleep)
  else do
    let cyclesToSleep := toInt ((s.pcb p).syscallArgs 0)
    let wakeTime := toInt (s.time + cyclesToSleep)
    let o ← timerListAdd s.timers wakeTime p
    match o with
    | none => .ok (s.setRetvalue p dsosEsleep)
    | some t => do
      let s ← suspend (s.setTimers t) p
      match (s.procs .ready).first with
      | some q => do
        let s ← s.detachProc .ready q
        .ok (s.setRunning (some q))
      | none => .ok (s.setRunning none)

def internalShutdown (_ : Kernel) : Except Fault Kernel := .error .shutdown

end DisastrOS
