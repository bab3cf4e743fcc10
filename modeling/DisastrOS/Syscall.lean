import DisastrOS.TransitionSystem
import DisastrOS.Semaphore
import DisastrOS.Resource

/-! The entries into the kernel: system start, system calls and timer ticks. -/
namespace DisastrOS
open BlockPool TransitionSystem

/-- The handlers that `disastrOS_start` registers. -/
inductive Handler
  | preempt
  | fork
  | wait
  | exit
  | spawn
  | sleep
  | openResource
  | closeResource
  | destroyResource
  | shutdown
  | semOpen
  | semClose
  | semWait
  | semPost
  deriving DecidableEq, Repr

/-- `syscall_vector` -/
def syscallVector (n : ℤ) : Option Handler :=
  if n = dsosCallPreempt then some .preempt
  else if n = dsosCallFork then some .fork
  else if n = dsosCallSpawn then some .spawn
  else if n = dsosCallWait then some .wait
  else if n = dsosCallExit then some .exit
  else if n = dsosCallSleep then some .sleep
  else if n = dsosCallOpenResource then some .openResource
  else if n = dsosCallCloseResource then some .closeResource
  else if n = dsosCallDestroyResource then some .destroyResource
  else if n = dsosCallShutdown then some .shutdown
  else if n = dsosCallSemopen then some .semOpen
  else if n = dsosCallSemclose then some .semClose
  else if n = dsosCallSempost then some .semPost
  else if n = dsosCallSemwait then some .semWait
  else none

/-- `syscall_numarg` -/
def syscallNumarg (n : ℤ) : ℕ :=
  match syscallVector n with
  | some .preempt | some .fork | some .shutdown | none => 0
  | some .spawn | some .wait | some .semOpen => 2
  | some .openResource => 3
  | some .exit | some .sleep | some .closeResource | some .destroyResource
  | some .semClose | some .semPost | some .semWait => 1

def runHandler : Handler → Kernel → Except Fault Kernel
  | .preempt => internalPreempt
  | .fork => internalFork
  | .wait => internalWait
  | .exit => internalExit
  | .spawn => internalSpawn
  | .sleep => internalSleep
  | .openResource => internalOpenResource
  | .closeResource => internalCloseResource
  | .destroyResource => internalDestroyResource
  | .shutdown => internalShutdown
  | .semOpen => internalSemOpen
  | .semClose => internalSemClose
  | .semWait => internalSemWait
  | .semPost => internalSemPost

/-- What `disastrOS_syscall` and its `swapcontext` store in the PCB of the caller. -/
def enterSyscall (s : Kernel) (p : ℕ) (n : ℤ) (args : List ℤ) : Kernel :=
  s.modPcb p fun c => { c with
    syscallArgs := fun i => if i < syscallNumarg n then args.getD i 0 else c.syscallArgs i
    syscallNum := n
    cpuState := some c.pid }

/-- `disastrOS_trap` up to `return_to_process`. There is no log file. -/
def disastrOSTrap (s : Kernel) : Except Fault Kernel := do
  let p ← deref s.running
  let n := (s.pcb p).syscallNum
  if n < 0 ∨ n > dsosMaxSyscalls then .ok (s.setRetvalue p dsosEsyscallOutOfRange)
  else if n = dsosMaxSyscalls then .error .outOfBounds
  else
    match syscallVector n with
    | none => .ok (s.setRetvalue p dsosEsyscallNotImplemented)
    | some h => runHandler h s

/-- `disastrOS_syscall` up to the point where the trap returns to a process. The tables have
`DSOS_MAX_SYSCALLS` elements, so that number itself is outside of them. -/
def disastrOSSyscall (s : Kernel) (n : ℤ) (args : List ℤ) : Except Fault Kernel :=
  match s.running with
  | none => .error .assertion
  | some p =>
    if n < 0 ∨ n > dsosMaxSyscalls then .ok s
    else if n = dsosMaxSyscalls then .error .outOfBounds
    else disastrOSTrap (enterSyscall s p n args)

/-- A timer signal: `timerHandler` saves the context and `timerInterrupt` schedules. -/
def timerInterrupt (s : Kernel) : Except Fault Kernel := do
  let p ← deref s.running
  let s := s.modPcb p fun c => { c with cpuState := some c.pid }
  let s ← internalSchedule { s with time := toInt (s.time + 1) }
  let _ ← deref s.running
  .ok s

/-- The contents of the static buffers. -/
def zeroPCB : PCB where
  pid := 0
  returnValue := 0
  status := .created
  signals := 0
  signalsMask := 0
  parent := none
  children := .init
  cpuState := none
  timer := none
  lastFd := 0
  descriptors := .init
  lastSemFd := 0
  semDescriptors := .init
  syscallNum := 0
  syscallArgs := fun _ => 0
  syscallRetvalue := 0

/-- The state in which `disastrOS_start` calls `PCB_alloc`. The pools of the descriptors are
initialised with `MAX_NUM_PROCESSES` blocks. -/
def emptyKernel : Kernel where
  initPcb := none
  running := none
  lastPid := 0
  time := 0
  procs := fun _ => .init
  pcbs := .init maxNumProcesses zeroPCB
  pcbPtrs := .init maxNumProcesses ⟨0⟩
  timers := ⟨.init, .init maxNumProcesses ⟨0, 0⟩⟩
  resources := ⟨.init, .init maxNumResources ⟨0, 0, .init⟩,
    .init maxNumProcesses ⟨0, 0, 0, 0⟩, .init maxNumProcesses ⟨0⟩⟩
  sems := ⟨.init, .init maxNumSemaphores ⟨0, 0, .init, .init⟩,
    .init maxNumProcesses ⟨0, 0, 0, 0, 0⟩, .init maxNumProcesses ⟨0⟩⟩
  memory := fun _ => 0
  trace := []

/-- `disastrOS_start` behind the `getcontext` of `main_context`: it makes the first process, which
is init, and enters it. -/
def startFirst (s : Kernel) : Except Fault Kernel := do
  let (o, s) ← pcbAlloc s
  let b ← deref o
  let s := (s.setStatus b .running).modPcb b fun c => { c with cpuState := some c.pid }
  .ok { s with running := some b, initPcb := some b }

/-- The state in which `disastrOS_start` enters the first process. -/
def disastrOSStart : Kernel :=
  match startFirst emptyKernel with
  | .ok s => s
  | .error _ => emptyKernel

/-- `return_to_process`, the end of `disastrOS_trap`: the running process goes on. If there is
none, the trap returns to its `uc_link`, the `main_context`. As `shutdown_now` is 0 there,
`disastrOS_start` goes on with another first process. No log file is open, whose lines would
dereference `running`. -/
def returnToProcess (s : Kernel) : Except Fault Kernel :=
  match s.running with
  | some _ => .ok s
  | none => startFirst s

inductive Action
  | syscall (n : ℤ) (args : List ℤ)
  | tick
  | returnToProcess
  deriving DecidableEq, Repr

def step (s : Kernel) : Action → Except Fault Kernel
  | .syscall n args => disastrOSSyscall s n args
  | .tick => timerInterrupt s
  | .returnToProcess => DisastrOS.returnToProcess s

/-- The kernel between two entries. The end of the trap is an action of its own, so that its runs
have the states in which no process is running; there it is the only one that does not fail. -/
def kernel : System Kernel Action Fault := ⟨disastrOSStart, step⟩

/-- The step does not make another first process. The runs of such steps are those up to the
moment at which `running` becomes NULL. -/
def NoRestart (s : Kernel) : Action → Prop
  | .syscall _ _ | .tick => True
  | .returnToProcess => s.running ≠ none

instance (s : Kernel) (act : Action) : Decidable (NoRestart s act) :=
  match act with
  | .syscall _ _ | .tick => inferInstanceAs (Decidable True)
  | .returnToProcess => inferInstanceAs (Decidable (s.running ≠ none))

end DisastrOS
