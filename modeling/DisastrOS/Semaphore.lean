import DisastrOS.Process

/-! The system calls on semaphores. -/
namespace DisastrOS
open BlockPool

/-- `Semaphore_alloc`. It leaves `waiting_descriptors` as the block had it. -/
def semaphoreAlloc (t : SemTable) (id count : ℤ) : Option (ℕ × SemTable) :=
  match t.semaphore.alloc fun c => { c with id := id, count := count, descriptors := .init } with
  | none => none
  | some (x, st) => some (x, { t with semaphore := st })

/-- `Semaphore_free` -/
def semaphoreFree (t : SemTable) (x : ℕ) : Except Fault (ℤ × SemTable) :=
  if (t.semaphore.cell x).descriptors.items = [] then
    .ok (releaseCode (t.semaphore.free x).1, { t with semaphore := (t.semaphore.free x).2 })
  else .error .assertion

/-- `SemaphoreList_byId` -/
def semaphoreListById (t : SemTable) (id : ℤ) : Option ℕ :=
  t.list.items.find? fun x => (t.semaphore.cell x).id = id

/-- `SemDescriptor_alloc`. It leaves `ptr` and `wait_ptr` as the block had them. -/
def semDescriptorAlloc (t : SemTable) (fd : ℤ) (x p : ℕ) : Option (ℕ × SemTable) :=
  match t.descriptor.alloc fun c => { c with fd := fd, semaphore := x, pcb := p } with
  | none => none
  | some (d, st) => some (d, { t with descriptor := st })

/-- `SemDescriptor_free` -/
def semDescriptorFree (t : SemTable) (d : ℕ) : ℤ × SemTable :=
  (releaseCode (t.descriptor.free d).1, { t with descriptor := (t.descriptor.free d).2 })

/-- `SemDescriptorPtr_alloc` -/
def semDescriptorPtrAlloc (t : SemTable) (d : ℕ) : Option (ℕ × SemTable) :=
  match t.descriptorPtr.alloc fun _ => { descriptor := d } with
  | none => none
  | some (e, st) => some (e, { t with descriptorPtr := st })

/-- `SemDescriptorPtr_free` -/
def semDescriptorPtrFree (t : SemTable) (e : ℕ) : ℤ × SemTable :=
  (releaseCode (t.descriptorPtr.free e).1, { t with descriptorPtr := (t.descriptorPtr.free e).2 })

/-- `SemDescriptorList_byFd` -/
def semDescriptorListByFd (t : SemTable) (h : ListHead) (fd : ℤ) : Option ℕ :=
  h.items.find? fun d => (t.descriptor.cell d).fd = fd

/-- `MySearch` -/
def mySearch (t : SemTable) (h : ListHead) (key : ℤ) : Option ℕ :=
  h.items.find? fun d => key = (t.semaphore.cell (t.descriptor.cell d).semaphore).id

/-- `internal_semOpen` from the allocation of the descriptor on. -/
def semOpenDescriptor (s : Kernel) (p x : ℕ) : Except Fault Kernel :=
  match semDescriptorAlloc s.sems (s.pcb p).lastSemFd x p with
  | none => .ok (s.setRetvalue p dsosEcreatefd)
  | some (d, t) =>
    let s := (s.setSems t).modPcb p fun c => { c with lastSemFd := toInt (c.lastSemFd + 1) }
    match semDescriptorPtrAlloc s.sems d with
    | none => .ok (s.setRetvalue p dsosEcreateptr)
    | some (e, t) =>
      let s := s.setSems { t with
        descriptor := t.descriptor.modify d fun c => { c with ptr := e } }
      match semDescriptorPtrAlloc s.sems d with
      | none => .ok (s.setRetvalue p dsosEcreateptr)
      | some (w, t) => do
        let s := s.setSems { t with
          descriptor := t.descriptor.modify d fun c => { c with waitPtr := w } }
        let h ← listInsert (s.pcb p).semDescriptors (s.pcb p).semDescriptors.last d
        let s := s.modPcb p fun c => { c with semDescriptors := h }
        let t := s.sems
        let h ← listInsert (t.semaphore.cell x).descriptors
          (t.semaphore.cell x).descriptors.last e
        let s := s.setSems { t with
          semaphore := t.semaphore.modify x fun c => { c with descriptors := h } }
        .ok (s.setRetvalue p (s.sems.descriptor.cell d).fd)

def internalSemOpen (s : Kernel) : Except Fault Kernel := do
  let p ← deref s.running
  let semnum := toInt ((s.pcb p).syscallArgs 0)
  let value := toInt ((s.pcb p).syscallArgs 1)
  match mySearch s.sems (s.pcb p).semDescriptors semnum with
  | some d => .ok (s.setRetvalue p (s.sems.descriptor.cell d).fd)
  | none =>
    match semaphoreListById s.sems semnum with
    | some x => semOpenDescriptor s p x
    | none =>
      match semaphoreAlloc s.sems semnum value with
      | none => .ok (s.setRetvalue p dsosEcreatesem)
      | some (x, t) => do
        let h ← listInsert t.list t.list.last x
        semOpenDescriptor (s.setSems { t with list := h }) p x

/-- The end of `internal_semClose`: unlink the semaphore when its last descriptor is gone. -/
def semCloseUnlink (s : Kernel) (p x : ℕ) : Except Fault Kernel :=
  let t := s.sems
  if (t.semaphore.cell x).descriptors.size = 0 then do
    let h ← listDetach t.list x
    let (ret, t) ← semaphoreFree { t with list := h } x
    let s := s.setSems t
    .ok (s.setRetvalue p ret)
  else .ok (s.setRetvalue p 0)

def internalSemClose (s : Kernel) : Except Fault Kernel := do
  let p ← deref s.running
  let fd := toInt ((s.pcb p).syscallArgs 0)
  match semDescriptorListByFd s.sems (s.pcb p).semDescriptors fd with
  | none => .ok (s.setRetvalue p dsosEnotmysem)
  | some d => do
    let x := (s.sems.descriptor.cell d).semaphore
    let e := (s.sems.descriptor.cell d).ptr
    let w := (s.sems.descriptor.cell d).waitPtr
    let h ← listDetach (s.pcb p).semDescriptors d
    let s := s.modPcb p fun c => { c with semDescriptors := h }
    let (ret, t) := semDescriptorFree s.sems d
    let s := s.setSems t
    if ret ≠ 0 then .ok (s.setRetvalue p ret)
    else do
      let t := s.sems
      let h ← listDetach (t.semaphore.cell x).descriptors e
      let t := { t with semaphore := t.semaphore.modify x fun c => { c with descriptors := h } }
      let (ret, t) := semDescriptorPtrFree t e
      let s := s.setSems t
      if ret ≠ 0 then .ok (s.setRetvalue p ret)
      else
        let (ret, t) := semDescriptorPtrFree s.sems w
        let s := s.setSems t
        if ret ≠ 0 then .ok (s.setRetvalue p ret)
        else semCloseUnlink s p x

/-- The end of `internal_semWait`. The process that runs by then gets the return value. -/
def semWaitCount (s : Kernel) (x : ℕ) : Except Fault Kernel := do
  let t := s.sems
  let s := s.setSems { t with
    semaphore := t.semaphore.modify x fun c => { c with count := toInt (c.count - 1) } }
  let r ← deref s.running
  .ok (s.setRetvalue r 0)

/-- `internal_semWait`. With no ready process left the system is shut down. -/
def internalSemWait (s : Kernel) : Except Fault Kernel := do
  let p ← deref s.running
  let fd := toInt ((s.pcb p).syscallArgs 0)
  match semDescriptorListByFd s.sems (s.pcb p).semDescriptors fd with
  | none => .ok (s.setRetvalue p dsosEnotmysem)
  | some d =>
    let x := (s.sems.descriptor.cell d).semaphore
    let w := (s.sems.descriptor.cell d).waitPtr
    if (s.sems.semaphore.cell x).count ≤ 0 then do
      let t := s.sems
      let h ← listInsert (t.semaphore.cell x).waitingDescriptors
        (t.semaphore.cell x).waitingDescriptors.last w
      let s := s.setSems { t with
        semaphore := t.semaphore.modify x fun c => { c with waitingDescriptors := h } }
      let s ← suspend s p
      match (s.procs .ready).first with
      | some q => do
        let s ← s.detachProc .ready q
        semWaitCount (s.setRunning (some q)) x
      | none => .error .shutdown
    else semWaitCount s x

/-- The wake-up of `internal_semPost` for the first waiting descriptor `w` of `x`. -/
def semPostWake (s : Kernel) (x w : ℕ) : Except Fault Kernel := do
  let t := s.sems
  let h ← listDetach (t.semaphore.cell x).waitingDescriptors w
  let s := s.setSems { t with
    semaphore := t.semaphore.modify x fun c => { c with waitingDescriptors := h } }
  let b := (s.sems.descriptor.cell (s.sems.descriptorPtr.cell w).descriptor).pcb
  let s ← s.detachProc .waiting b
  let s ← s.insertProc .ready (s.procs .ready).last b
  .ok (s.setStatus b .ready)

/-- The end of `internal_semPost`. -/
def semPostCount (s : Kernel) (p x : ℕ) : Kernel :=
  let t := s.sems
  (s.setSems { t with
    semaphore := t.semaphore.modify x fun c => { c with count := toInt (c.count + 1) } }).setRetvalue
    p 0

def internalSemPost (s : Kernel) : Except Fault Kernel := do
  let p ← deref s.running
  let fd := toInt ((s.pcb p).syscallArgs 0)
  match semDescriptorListByFd s.sems (s.pcb p).semDescriptors fd with
  | none => .ok (s.setRetvalue p dsosEnotmysem)
  | some d =>
    let x := (s.sems.descriptor.cell d).semaphore
    match (s.sems.semaphore.cell x).waitingDescriptors.first with
    | some w =>
      if (s.sems.semaphore.cell x).count < 0 then do
        let s ← semPostWake s x w
        .ok (semPostCount s p x)
      else .ok (semPostCount s p x)
    | none => .ok (semPostCount s p x)

end DisastrOS
