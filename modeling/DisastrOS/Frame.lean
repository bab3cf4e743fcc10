import DisastrOS.Access

/-! What an operation leaves as it is. -/
namespace DisastrOS

/-- The events of a run that are not assignments of return values. -/
def history (l : List Event) : List Event :=
  l.filter fun
    | .assigned _ _ => false
    | _ => true

@[simp] theorem history_assigned (b : ℕ) (v : ℤ) (l : List Event) :
    history (.assigned b v :: l) = history l := rfl

variable {s s' t : Kernel}

/-- The two states have the same processes in the same lists; what the processes have opened
and the values they are about to return may differ. -/
structure SameProcesses (s s' : Kernel) : Prop where
  initPcb : s'.initPcb = s.initPcb
  running : s'.running = s.running
  lastPid : s'.lastPid = s.lastPid
  time : s'.time = s.time
  procs : ∀ l, s'.procs l = s.procs l
  pool : s'.pcbs.pool = s.pcbs.pool
  pcbPtrs : s'.pcbPtrs = s.pcbPtrs
  timers : s'.timers = s.timers
  memory : ∀ k, s'.memory k = s.memory k
  pid : ∀ k, (s'.pcb k).pid = (s.pcb k).pid
  returnValue : ∀ k, (s'.pcb k).returnValue = (s.pcb k).returnValue
  status : ∀ k, (s'.pcb k).status = (s.pcb k).status
  parent : ∀ k, (s'.pcb k).parent = (s.pcb k).parent
  children : ∀ k, (s'.pcb k).children = (s.pcb k).children
  cpuState : ∀ k, (s'.pcb k).cpuState = (s.pcb k).cpuState
  timer : ∀ k, (s'.pcb k).timer = (s.pcb k).timer
  syscallNum : ∀ k, (s'.pcb k).syscallNum = (s.pcb k).syscallNum
  syscallArgs : ∀ k, (s'.pcb k).syscallArgs = (s.pcb k).syscallArgs
  history : history s'.trace = history s.trace

/-- Nothing that belongs to a semaphore differs. -/
structure SameSemaphores (s s' : Kernel) : Prop where
  sems : s'.sems = s.sems
  lastSemFd : ∀ k, (s'.pcb k).lastSemFd = (s.pcb k).lastSemFd
  semDescriptors : ∀ k, (s'.pcb k).semDescriptors = (s.pcb k).semDescriptors

/-- Nothing that belongs to a resource differs. -/
structure SameResources (s s' : Kernel) : Prop where
  resources : s'.resources = s.resources
  lastFd : ∀ k, (s'.pcb k).lastFd = (s.pcb k).lastFd
  descriptors : ∀ k, (s'.pcb k).descriptors = (s.pcb k).descriptors

theorem SameProcesses.trans (h : SameProcesses s s') (h' : SameProcesses s' t) :
    SameProcesses s t := by
  constructor <;> grind [SameProcesses]

theorem SameProcesses.refl (s : Kernel) : SameProcesses s s := by
  constructor <;> intros <;> rfl

theorem SameProcesses.setRetvalue (s : Kernel) (p : ℕ) (v : ℤ) :
    SameProcesses s (s.setRetvalue p v) := by
  constructor <;> intros <;> simp

theorem SameSemaphores.setRetvalue (s : Kernel) (p : ℕ) (v : ℤ) :
    SameSemaphores s (s.setRetvalue p v) := by
  constructor <;> intros <;> simp

theorem SameResources.setRetvalue (s : Kernel) (p : ℕ) (v : ℤ) :
    SameResources s (s.setRetvalue p v) := by
  constructor <;> intros <;> simp

theorem SameSemaphores.trans (h : SameSemaphores s s') (h' : SameSemaphores s' t) :
    SameSemaphores s t := by
  constructor <;> grind [SameSemaphores]

theorem SameProcesses.setResources (s : Kernel) (t : ResourceTable) :
    SameProcesses s (s.setResources t) := by
  constructor <;> intros <;> rfl

theorem SameSemaphores.setResources (s : Kernel) (t : ResourceTable) :
    SameSemaphores s (s.setResources t) := by
  constructor <;> intros <;> rfl

theorem SameProcesses.setSems (s : Kernel) (t : SemTable) : SameProcesses s (s.setSems t) := by
  constructor <;> intros <;> rfl

theorem SameResources.setSems (s : Kernel) (t : SemTable) : SameResources s (s.setSems t) := by
  constructor <;> intros <;> rfl

theorem SameResources.trans (h : SameResources s s') (h' : SameResources s' t) :
    SameResources s t := by
  constructor <;> grind [SameResources]

end DisastrOS
