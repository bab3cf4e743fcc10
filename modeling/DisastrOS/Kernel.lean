import Mathlib.Algebra.Ring.Int.Defs
import Mathlib.Algebra.Ring.Nat
import Mathlib.Tactic.Simps.Basic
import DisastrOS.BlockPool

/-! The data of the kernel: its constants, its objects and its global state. A pointer to an
object is the index of its pool block, and `none` is the null pointer. -/
namespace DisastrOS
open BlockPool

def maxNumProcesses : ℕ := 1024
def maxNumResources : ℕ := 1024
def maxNumSemaphores : ℕ := 1024

def dsosSigchld : BitVec 32 := 0x1
def dsosSighup : BitVec 32 := 0x2

def dsosEsyscallNotImplemented : ℤ := -2
def dsosEsyscallOutOfRange : ℤ := -3
def dsosEwait : ℤ := -5
def dsosEspawn : ℤ := -6
def dsosEsleep : ℤ := -7
def dsosEresourcecreate : ℤ := -8
def dsosEresourceopen : ℤ := -9
def dsosEresourcenoexcl : ℤ := -10
def dsosEresourcenofd : ℤ := -11
def dsosEresourceclose : ℤ := -12
def dsosEresourceinuse : ℤ := -13
def dsosEcreatefd : ℤ := -14
def dsosEnotmysem : ℤ := -15
def dsosEcreatesem : ℤ := -16
def dsosEcreateptr : ℤ := -17

def dsosMaxSyscalls : ℤ := 32
def dsosMaxSyscallsArgs : ℕ := 8
def dsosCallPreempt : ℤ := 1
def dsosCallFork : ℤ := 2
def dsosCallWait : ℤ := 3
def dsosCallExit : ℤ := 4
def dsosCallSpawn : ℤ := 5
def dsosCallSleep : ℤ := 6
def dsosCallOpenResource : ℤ := 7
def dsosCallCloseResource : ℤ := 8
def dsosCallDestroyResource : ℤ := 9
def dsosCallShutdown : ℤ := 10
def dsosCallSemopen : ℤ := 11
def dsosCallSemclose : ℤ := 12
def dsosCallSemwait : ℤ := 13
def dsosCallSempost : ℤ := 14

def dsosCreate : BitVec 32 := 0x1
def dsosExcl : BitVec 32 := 0x4

/-- An integer stored into a C `int`: 32 bits, two's complement. -/
def toInt (x : ℤ) : ℤ := x.bmod (2 ^ 32)

theorem toInt_lt (v : ℤ) : toInt v < 2 ^ 31 := by
  have := Int.bmod_lt (x := v) (m := 2 ^ 32) (by decide)
  unfold toInt
  omega

theorem toInt_of_mem {x : ℤ} (h1 : -(2 ^ 31) ≤ x) (h2 : x < 2 ^ 31) : toInt x = x := by
  rw [toInt, Int.bmod_def]
  omega

theorem toInt_eq_self {v : ℤ} : toInt v = v ↔ -(2 ^ 31) ≤ v ∧ v < 2 ^ 31 := by
  refine ⟨fun h => ?_, fun h => toInt_of_mem h.1 h.2⟩
  have hlt := toInt_lt v
  have hge : -(2 ^ 31) ≤ toInt v := Int.le_bmod (by decide)
  omega

theorem toInt_toInt_add (x y : ℤ) : toInt (toInt x + y) = toInt (x + y) := by
  simp [toInt]

theorem toInt_toInt_sub (x y : ℤ) : toInt (toInt x - y) = toInt (x - y) := by
  simp [toInt]

/-- Why a step does not return to a process. -/
inductive Fault
  | nullPointer
  | assertion
  | outOfBounds
  /-- `List_insert` or `List_detach` on arguments that the assertions of a build with
  `_LIST_DEBUG_` reject. -/
  | listMisuse
  /-- A loop that is never left. -/
  | endless
  /-- `internal_shutdown` went back to the main context. -/
  | shutdown
  deriving DecidableEq, Repr

/-- A `ListHead` with the blocks of its items from `first` to `last`. -/
structure ListHead where
  items : List ℕ
  size : ℤ
  deriving DecidableEq, Repr

namespace ListHead

/-- `List_init` -/
def init : ListHead := ⟨[], 0⟩

def first (h : ListHead) : Option ℕ := h.items.head?

def last (h : ListHead) : Option ℕ := h.items.getLast?

end ListHead

/-- Put `item` right behind the last occurrence of `prev`. -/
def insertAfter (prev item : ℕ) : List ℕ → List ℕ
  | [] => []
  | k :: ks =>
    if prev ∈ ks then k :: insertAfter prev item ks
    else if k = prev then k :: item :: ks
    else k :: insertAfter prev item ks

/-- `List_insert`, with the checks of `_LIST_DEBUG_`. -/
def listInsert (h : ListHead) (prev : Option ℕ) (item : ℕ) : Except Fault ListHead :=
  if item ∈ h.items then .error .listMisuse
  else
    match prev with
    | none => .ok ⟨item :: h.items, h.size + 1⟩
    | some q =>
      if q ∈ h.items then .ok ⟨insertAfter q item h.items, h.size + 1⟩
      else .error .listMisuse

/-- `List_detach` of an item that is not null, with the check of `_LIST_DEBUG_`. -/
def listDetach (h : ListHead) (item : ℕ) : Except Fault ListHead :=
  if item ∈ h.items then .ok ⟨h.items.erase item, h.size - 1⟩ else .error .listMisuse

inductive ProcessStatus
  | invalid
  | created
  | running
  | ready
  | waiting
  | suspended
  | zombie
  deriving DecidableEq, Repr

/-- `cpuState` is the pid of the process that the saved context resumes. -/
structure PCB where
  pid : ℤ
  returnValue : ℤ
  status : ProcessStatus
  signals : BitVec 32
  signalsMask : BitVec 32
  parent : Option ℕ
  children : ListHead
  cpuState : Option ℤ
  timer : Option ℕ
  lastFd : ℤ
  descriptors : ListHead
  lastSemFd : ℤ
  semDescriptors : ListHead
  syscallNum : ℤ
  syscallArgs : ℕ → ℤ
  syscallRetvalue : ℤ

structure PCBPtr where
  pcb : ℕ

structure TimerItem where
  awakeningTime : ℤ
  pcb : ℕ

structure Resource where
  id : ℤ
  type : ℤ
  descriptors : ListHead

structure Descriptor where
  pcb : ℕ
  resource : ℕ
  fd : ℤ
  ptr : ℕ

structure DescriptorPtr where
  descriptor : ℕ

structure Semaphore where
  id : ℤ
  count : ℤ
  descriptors : ListHead
  waitingDescriptors : ListHead

structure SemDescriptor where
  pcb : ℕ
  semaphore : ℕ
  fd : ℤ
  ptr : ℕ
  waitPtr : ℕ

structure SemDescriptorPtr where
  descriptor : ℕ

/-- The names of the lists that a PCB is linked into by its own `list` field. -/
inductive ProcList
  | ready
  | waiting
  | zombie
  deriving DecidableEq, Repr

structure TimerTable where
  list : ListHead
  item : Store TimerItem

structure ResourceTable where
  list : ListHead
  resource : Store Resource
  descriptor : Store Descriptor
  descriptorPtr : Store DescriptorPtr

structure SemTable where
  list : ListHead
  semaphore : Store Semaphore
  descriptor : Store SemDescriptor
  descriptorPtr : Store SemDescriptorPtr

/-- What a run leaves behind for its observer. No handler reads it. -/
inductive Event
  /-- `PCB_alloc` gave this pid out. -/
  | created (pid : ℤ)
  /-- The process with this pid called exit with this value. -/
  | exited (pid value : ℤ)
  /-- The pid of `child` became the result of a wait of the process in block `waiter`, and
  `result` was stored through its result pointer, if that was not null. -/
  | collected (child : ℤ) (waiter : ℕ) (result : Option ℤ)
  /-- A handler assigned `value` to the `syscall_retvalue` of the process in `block`. -/
  | assigned (block : ℕ) (value : ℤ)
  deriving DecidableEq, Repr

/-- The global variables, the objects in the pools and the memory behind the result
pointers of wait. -/
structure Kernel where
  initPcb : Option ℕ
  running : Option ℕ
  lastPid : ℤ
  time : ℤ
  procs : ProcList → ListHead
  pcbs : Store PCB
  pcbPtrs : Store PCBPtr
  timers : TimerTable
  resources : ResourceTable
  sems : SemTable
  memory : ℤ → ℤ
  trace : List Event

/-- Use a pointer: the null pointer faults. -/
def deref (o : Option ℕ) : Except Fault ℕ :=
  match o with
  | none => .error .nullPointer
  | some b => .ok b

/-- The number that `PoolAllocator_releaseBlock` returns. -/
def releaseCode : Pool.Release → ℤ
  | .success => 0
  | .outOfRange => -3
  | .doubleFree => -4

namespace Kernel

def pcb (s : Kernel) (b : ℕ) : PCB := s.pcbs.cell b

@[simps] def modPcb (s : Kernel) (b : ℕ) (f : PCB → PCB) : Kernel := { s with pcbs := s.pcbs.modify b f }

/-- Change the contents of every PCB block. -/
@[simps] def mapPcbs (s : Kernel) (f : ℕ → PCB → PCB) : Kernel :=
  { s with pcbs := ⟨fun k => f k (s.pcbs.cell k), s.pcbs.pool⟩ }

@[simps] def emit (s : Kernel) (e : Event) : Kernel := { s with trace := e :: s.trace }

@[simps] def setRunning (s : Kernel) (o : Option ℕ) : Kernel := { s with running := o }

@[simps] def setSems (s : Kernel) (t : SemTable) : Kernel := { s with sems := t }

@[simps] def setResources (s : Kernel) (t : ResourceTable) : Kernel := { s with resources := t }

@[simps] def setTimers (s : Kernel) (t : TimerTable) : Kernel := { s with timers := t }

@[simps] def setProcs (s : Kernel) (l : ProcList) (h : ListHead) : Kernel :=
  { s with procs := fun k => if k = l then h else s.procs k }

@[simp] def setStatus (s : Kernel) (b : ℕ) (v : ProcessStatus) : Kernel :=
  s.modPcb b fun c => { c with status := v }

/-- An assignment to the `syscall_retvalue` of the process in block `b`. -/
@[simp] def setRetvalue (s : Kernel) (b : ℕ) (v : ℤ) : Kernel :=
  (s.modPcb b fun c => { c with syscallRetvalue := v }).emit (.assigned b v)

/-- The PCB in block `b` is an item of one of the lists of PCBs. -/
def Linked (s : Kernel) (b : ℕ) : Prop :=
  b ∈ (s.procs .ready).items ∨ b ∈ (s.procs .waiting).items ∨ b ∈ (s.procs .zombie).items

instance (s : Kernel) (b : ℕ) : Decidable (s.Linked b) := inferInstanceAs (Decidable (_ ∨ _))

/-- `List_insert` into a list of PCBs. -/
def insertProc (s : Kernel) (l : ProcList) (prev : Option ℕ) (b : ℕ) : Except Fault Kernel :=
  if s.Linked b then .error .listMisuse
  else do
    let h ← listInsert (s.procs l) prev b
    .ok (s.setProcs l h)

/-- `List_detach` from a list of PCBs. -/
def detachProc (s : Kernel) (l : ProcList) (b : ℕ) : Except Fault Kernel := do
  let h ← listDetach (s.procs l) b
  .ok (s.setProcs l h)

end Kernel
end DisastrOS
