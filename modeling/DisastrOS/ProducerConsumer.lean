import DisastrOS.SemaphoreCounts

/-! The producers and consumers of the tests, as programs that the kernel runs: the functions of
the processes line by line, the data that they share, and the father that spawns them. -/
namespace DisastrOS
open BlockPool TransitionSystem

def semnumFill : ℤ := 0
def semnumEmpty : ℤ := 1
def semnumMe1 : ℤ := 2
def semnumMe2 : ℤ := 3
def bufferLength : ℤ := 5
def iterations : ℤ := 10

/-- `child_data`, with the buffer itself in place of a pointer to it. -/
structure ChildData where
  indexProd : ℤ
  indexCons : ℤ
  cBuffer : ℤ → ℤ

/-- The variables `fd_fill`, `fd_empty`, and `fd_me1` or `fd_me2`. -/
inductive FdName
  | fill
  | empty
  | me
  deriving DecidableEq, Repr

/-- The two semaphores for which an iteration waits, and the two that it posts: the one that
counts items or places, and the mutex. -/
inductive Gate
  | item
  | me
  deriving DecidableEq, Repr

/-- The line to which a process comes next. The calls of the system are each followed by the
`ERROR_HELPER` that looks at their result. -/
inductive Line
  | opening (v : FdName)
  | opened (v : FdName)
  | loop
  | wait (g : Gate)
  | waited (g : Gate)
  | readIndex
  | store
  | advance
  | writeIndex
  | post (g : Gate)
  | posted (g : Gate)
  | close (v : FdName)
  | closed (v : FdName)
  | exit
  deriving DecidableEq, Repr

inductive Role
  | prod
  | cons
  deriving DecidableEq, Repr

def Role.other : Role → Role
  | .prod => .cons
  | .cons => .prod

/-- What the function of a process has of its own. -/
structure ChildFunction where
  /-- The number and the initial value of its mutex. -/
  me : ℤ × ℤ
  /-- The variable that is checked after the open into the given one. -/
  checked : FdName → FdName
  waited : FdName
  posted : FdName
  index : ChildData → ℤ
  setIndex : ChildData → ℤ → ChildData
  /-- What a process with this pid stores. -/
  item : ℤ → ℤ

/-- `ProdFunction`. It looks at `fd_fill` after each open. -/
def prodFunction : ChildFunction where
  me := (semnumMe1, 1)
  checked := fun _ => .fill
  waited := .empty
  posted := .fill
  index := ChildData.indexProd
  setIndex cd n := { cd with indexProd := n }
  item pid := pid

/-- `ConsFunction` -/
def consFunction : ChildFunction where
  me := (semnumMe2, 1)
  checked := fun v => v
  waited := .fill
  posted := .empty
  index := ChildData.indexCons
  setIndex cd n := { cd with indexCons := n }
  item _ := 0

def Role.function : Role → ChildFunction
  | .prod => prodFunction
  | .cons => consFunction

/-- The arguments of the `disastrOS_semOpen` into the variable. -/
def ChildFunction.openArgs (f : ChildFunction) : FdName → List ℤ
  | .fill => [semnumFill, 0]
  | .empty => [semnumEmpty, bufferLength]
  | .me => [f.me.1, f.me.2]

def ChildFunction.waitFd (f : ChildFunction) : Gate → FdName
  | .item => f.waited
  | .me => .me

def ChildFunction.postFd (f : ChildFunction) : Gate → FdName
  | .item => f.posted
  | .me => .me

/-- The local variables of a process and the line to which it has come. The result of a call is
not known as long as the process has not been able to read it. -/
structure Thread where
  role : Role
  line : Line
  fd : FdName → ℤ
  i : ℤ
  n : ℤ
  ret : Option ℤ

def Thread.at (th : Thread) (l : Line) : Thread := { th with line := l }

/-- A process that has just been spawned. Its variables are not initialised. -/
def newThread (r : Role) : Thread := ⟨r, .opening .fill, fun _ => 0, 0, 0, none⟩

/-- The kernel, the processes that run one of the two functions, and what they share. On the side
are the slots into which producers have stored and those that consumers have cleared, in order,
and the slots with a stored item that has not been cleared. -/
structure World where
  kernel : Kernel
  thread : ℕ → Option Thread
  data : ChildData
  slots : Role → List ℤ
  full : ℤ → Bool

/-- Why a step of the world is not made. -/
inductive Halt
  /-- The move is not one of the running process. -/
  | stuck
  | fault (f : Fault)
  deriving DecidableEq, Repr

/-- An action of the kernel. -/
def enterKernel (k : Kernel) (act : Action) : Except Halt Kernel :=
  match kernel.step k act with
  | .ok k => .ok k
  | .error e => .error (.fault e)

namespace World

def setThread (w : World) (p : ℕ) (o : Option Thread) : World :=
  { w with thread := Function.update w.thread p o }

@[simp] theorem setThread_self (w : World) (p : ℕ) (o : Option Thread) :
    (w.setThread p o).thread p = o := by simp [setThread]

theorem setThread_of_ne {p q : ℕ} (w : World) (o : Option Thread) (h : q ≠ p) :
    (w.setThread p o).thread q = w.thread q := by simp [setThread, h]

@[simp] theorem setThread_data (w : World) (p : ℕ) (o : Option Thread) :
    (w.setThread p o).data = w.data := rfl

@[simp] theorem setThread_slots (w : World) (p : ℕ) (o : Option Thread) :
    (w.setThread p o).slots = w.slots := rfl

@[simp] theorem setThread_full (w : World) (p : ℕ) (o : Option Thread) :
    (w.setThread p o).full = w.full := rfl

/-- `disastrOS_exit(disastrOS_getpid()+1)` -/
def exit (w : World) (p : ℕ) : Except Halt World := do
  let k ← enterKernel w.kernel (.syscall dsosCallExit [(w.kernel.pcb p).pid + 1])
  .ok ({ w with kernel := k }.setThread p none)

/-- A call with one argument, the variable `v`, whose result goes to `ret` if the process can
read it at once. -/
def call (w : World) (p : ℕ) (th : Thread) (n : ℤ) (v : FdName) (l : Line) : Except Halt World := do
  let k ← enterKernel w.kernel (.syscall n [th.fd v])
  let ret := if k.running = some p then some (k.pcb p).syscallRetvalue else none
  .ok ({ w with kernel := k }.setThread p (some { th with ret := ret, line := l }))

/-- `ERROR_HELPER(ret != 0, ...)`. A process that has been resumed after a wait may have read
anything, and `fails` says what. -/
def checkRet (w : World) (p : ℕ) (th : Thread) (fails : Bool) (l : Line) : Except Halt World :=
  if th.ret.elim fails (· ≠ 0) then w.exit p
  else .ok (w.setThread p (some (th.at l)))

/-- The process `p` carries out its next line. A result that it can read at once is read together
with the call: no timer signal comes between the return of the trap and the read, in which the wait
of another process could write over it. -/
def runLine (w : World) (p : ℕ) (th : Thread) (fails : Bool) : Except Halt World :=
  let f := th.role.function
  match th.line with
  | .opening v => do
    let k ← enterKernel w.kernel (.syscall dsosCallSemopen (f.openArgs v))
    let fd := Function.update th.fd v (k.pcb p).syscallRetvalue
    .ok ({ w with kernel := k }.setThread p (some { th with fd := fd, line := .opened v }))
  | .opened v =>
    if th.fd (f.checked v) < 0 then w.exit p
    else .ok (w.setThread p (some (match v with
      | .fill => th.at (.opening .empty)
      | .empty => th.at (.opening .me)
      | .me => { th with i := 0, line := .loop })))
  | .loop => .ok (w.setThread p (some (th.at
      (if th.i < iterations then .wait .item else .close .fill))))
  | .wait g => w.call p th dsosCallSemwait (f.waitFd g) (.waited g)
  | .waited .item => w.checkRet p th fails (.wait .me)
  | .waited .me => w.checkRet p th fails .readIndex
  | .readIndex => .ok (w.setThread p (some { th with n := f.index w.data, line := .store }))
  | .store => .ok ({ w with
      data := { w.data with
        cBuffer := Function.update w.data.cBuffer th.n (f.item (w.kernel.pcb p).pid) }
      slots := Function.update w.slots th.role (w.slots th.role ++ [th.n])
      full := Function.update w.full th.n (th.role = Role.prod) }.setThread p
        (some (th.at .advance)))
  | .advance => .ok (w.setThread p (some { th with n := toInt (th.n + 1), line := .writeIndex }))
  | .writeIndex => .ok ({ w with data := f.setIndex w.data (th.n.tmod bufferLength) }.setThread p
      (some (th.at (.post .me))))
  | .post g => w.call p th dsosCallSempost (f.postFd g) (.posted g)
  | .posted .me => w.checkRet p th fails (.post .item)
  | .posted .item => w.checkRet p { th with i := toInt (th.i + 1) } fails .loop
  | .close v => w.call p th dsosCallSemclose v (.closed v)
  | .closed .fill => w.checkRet p th fails (.close .empty)
  | .closed .empty => w.checkRet p th fails (.close .me)
  | .closed .me => w.checkRet p th fails .exit
  | .exit => w.exit p

/-- What happens next: a timer signal, a `disastrOS_spawn` or a `disastrOS_wait(0,NULL)` of the
father, or a line of another process. -/
inductive Move
  | tick
  | spawn (r : Role)
  | wait
  | run (fails : Bool)
  deriving DecidableEq, Repr

def fatherRuns (w : World) : Prop := w.kernel.running ≠ none ∧ w.kernel.running = w.kernel.initPcb

instance (w : World) : Decidable w.fatherRuns := inferInstanceAs (Decidable (_ ∧ _))

def step (w : World) : Move → Except Halt World
  | .tick => do
    let k ← enterKernel w.kernel .tick
    .ok { w with kernel := k }
  | .spawn r =>
    if w.fatherRuns then do
      let k ← enterKernel w.kernel (.syscall dsosCallSpawn [0, 0])
      -- a spawn that returns has put a new process behind the ready ones
      match (k.procs .ready).items.getLast? with
      | none => .error .stuck
      | some b => .ok ({ w with kernel := k }.setThread b (some (newThread r)))
    else .error .stuck
  | .wait =>
    if w.fatherRuns then do
      let k ← enterKernel w.kernel (.syscall dsosCallWait [0, 0])
      .ok { w with kernel := k }
    else .error .stuck
  | .run fails =>
    match w.kernel.running with
    | none => .error .stuck
    | some p =>
      match w.thread p with
      | none => .error .stuck
      | some th => w.runLine p th fails

/-- The father has made the data and opened the four semaphores. -/
def fatherOpens : List Action :=
  [.syscall dsosCallSemopen [semnumFill, 0], .syscall dsosCallSemopen [semnumEmpty, bufferLength],
    .syscall dsosCallSemopen [semnumMe1, 1], .syscall dsosCallSemopen [semnumMe2, 1]]

def start : World where
  kernel := DisastrOS.kernel.replayBy CountsFit fatherOpens
  thread := fun _ => none
  data := ⟨0, 0, fun _ => 0⟩
  slots := fun _ => []
  full := fun _ => false

end World

def producersConsumers : System World World.Move Halt := ⟨World.start, World.step⟩

/-! ### What a line does -/

/-- The lines that follow each other without a call in between. -/
inductive Line.Next : Line → Line → Prop
  | openedFill : Next (.opened .fill) (.opening .empty)
  | openedEmpty : Next (.opened .empty) (.opening .me)
  | openedMe : Next (.opened .me) .loop
  | again : Next .loop (.wait .item)
  | done : Next .loop (.close .fill)
  | waitedItem : Next (.waited .item) (.wait .me)
  | waitedMe : Next (.waited .me) .readIndex
  | read : Next .readIndex .store
  | advanced : Next .advance .writeIndex
  | postedMe : Next (.posted .me) (.post .item)
  | postedItem : Next (.posted .item) .loop
  | closedFill : Next (.closed .fill) (.close .empty)
  | closedEmpty : Next (.closed .empty) (.close .me)
  | closedMe : Next (.closed .me) .exit

/-- A line that changes nothing but the variables of its process. -/
structure GoesOn (w : World) (th th' : Thread) : Prop where
  role : th'.role = th.role
  fd : th'.fd = th.fd
  next : Line.Next th.line th'.line
  granted : ∀ g, th.line = .waited g → th.ret.getD 0 = 0
  read : th.line = .readIndex → th'.n = th.role.function.index w.data
  advanced : th.line = .advance → th'.n = toInt (th.n + 1)
  stays : th.line ≠ .readIndex → th.line ≠ .advance → th'.n = th.n

/-- The process `p` has stored into the slot of its index. -/
def World.stored (w : World) (p : ℕ) (th : Thread) : World :=
  let item := th.role.function.item (w.kernel.pcb p).pid
  { w with
    data := { w.data with cBuffer := Function.update w.data.cBuffer th.n item }
    slots := Function.update w.slots th.role (w.slots th.role ++ [th.n])
    full := Function.update w.full th.n (th.role = Role.prod) }

/-- The next index has been written back. -/
def World.indexed (w : World) (th : Thread) : World :=
  { w with data := th.role.function.setIndex w.data (th.n.tmod bufferLength) }

def World.entered (w : World) (k : Kernel) : World := { w with kernel := k }

/-- The ways in which the process `p` carries out its line. -/
inductive Ran (w w' : World) (p : ℕ) (th : Thread) : Prop
  | goesOn (th' : Thread) (goes : GoesOn w th th') (result : w' = w.setThread p (some th'))
  | stores (line : th.line = .store)
      (result : w' = (w.stored p th).setThread p (some (th.at .advance)))
  | writes (line : th.line = .writeIndex)
      (result : w' = (w.indexed th).setThread p (some (th.at (.post .me))))
  | exits (k : Kernel) (line : th.line ≠ .advance ∧ th.line ≠ .writeIndex)
      (step : kernel.step w.kernel (.syscall dsosCallExit [(w.kernel.pcb p).pid + 1]) = .ok k)
      (result : w' = (w.entered k).setThread p none)
  | opens (v : FdName) (k : Kernel) (th' : Thread) (line : th.line = .opening v)
      (step : kernel.step w.kernel (.syscall dsosCallSemopen (th.role.function.openArgs v)) = .ok k)
      (thread : th' = { th with
        fd := Function.update th.fd v (k.pcb p).syscallRetvalue, line := .opened v })
      (result : w' = (w.entered k).setThread p (some th'))
  | waits (g : Gate) (k : Kernel) (th' : Thread) (line : th.line = .wait g)
      (step : kernel.step w.kernel
        (.syscall dsosCallSemwait [th.fd (th.role.function.waitFd g)]) = .ok k)
      (thread : th' = { th with
        ret := if k.running = some p then some (k.pcb p).syscallRetvalue else none
        line := .waited g })
      (result : w' = (w.entered k).setThread p (some th'))
  | posts (g : Gate) (k : Kernel) (ret : Option ℤ) (line : th.line = .post g)
      (step : kernel.step w.kernel
        (.syscall dsosCallSempost [th.fd (th.role.function.postFd g)]) = .ok k)
      (result : w' = (w.entered k).setThread p (some { th with ret := ret, line := .posted g }))
  | closes (v : FdName) (k : Kernel) (ret : Option ℤ) (line : th.line = .close v)
      (step : kernel.step w.kernel (.syscall dsosCallSemclose [th.fd v]) = .ok k)
      (result : w' = (w.entered k).setThread p (some { th with ret := ret, line := .closed v }))

section
variable {w w' : World} {p : ℕ} {th th' : Thread} {fails : Bool} {k k' : Kernel} {act : Action}
  {l m : Line}

theorem enterKernel_ok (h : enterKernel k act = .ok k') : kernel.step k act = .ok k' := by
  unfold enterKernel at h
  split at h
  · rename_i k'' hk
    rw [hk, Except.ok.inj h]
  · cases h

theorem exit_ran (hl : th.line ≠ .advance ∧ th.line ≠ .writeIndex) (h : w.exit p = .ok w') :
    Ran w w' p th := by
  obtain ⟨k, hk, h⟩ := bind_ok.mp h
  exact .exits k hl (enterKernel_ok hk) (Except.ok.inj h).symm

theorem call_ok {n : ℤ} {v : FdName} (h : w.call p th n v l = .ok w') :
    ∃ k, kernel.step w.kernel (.syscall n [th.fd v]) = .ok k ∧
      w' = (w.entered k).setThread p (some { th with
        ret := if k.running = some p then some (k.pcb p).syscallRetvalue else none
        line := l }) := by
  obtain ⟨k, hk, h⟩ := bind_ok.mp h
  exact ⟨k, enterKernel_ok hk, (Except.ok.inj h).symm⟩

/-- A process that looks at a result exits or goes on, and goes on only after a success. -/
theorem checkRet_ran (hl : th.line ≠ .advance ∧ th.line ≠ .writeIndex) (hret : th'.ret = th.ret)
    (hgoes : th.ret.getD 0 = 0 → GoesOn w th (th'.at l))
    (h : w.checkRet p th' fails l = .ok w') : Ran w w' p th := by
  unfold World.checkRet at h
  split_ifs at h with hf
  · exact exit_ran hl h
  · refine .goesOn (th'.at l) (hgoes ?_) (Except.ok.inj h).symm
    rw [hret] at hf
    cases hr : th.ret with
    | none => rfl
    | some v => simpa [hr] using hf

/-- Only the line of the process changes. -/
theorem goesOn_at (hl : th.line = m) (hnext : Line.Next m l)
    (hm : m ≠ .readIndex ∧ m ≠ .advance ∧ ∀ g, m ≠ .waited g) : GoesOn w th (th.at l) := by
  subst hl
  exact ⟨rfl, rfl, hnext, fun g he => absurd he (hm.2.2 g), fun he => absurd he hm.1,
    fun he => absurd he hm.2.1, fun _ _ => rfl⟩

/-- A process that has waited goes on after a success. -/
theorem goesOn_waited {g : Gate} (hl : th.line = .waited g) (hnext : Line.Next (.waited g) l)
    (h0 : th.ret.getD 0 = 0) : GoesOn w th (th.at l) := by
  rw [← hl] at hnext
  exact ⟨rfl, rfl, hnext, fun _ _ => h0, fun he => absurd (hl.symm.trans he) (by simp),
    fun he => absurd (hl.symm.trans he) (by simp), fun _ _ => rfl⟩

/-- What the next line of a process can do. -/
theorem runLine_ran (h : w.runLine p th fails = .ok w') : Ran w w' p th := by
  unfold World.runLine at h
  cases hl : th.line with
  | opening v =>
    simp only [hl] at h
    obtain ⟨k, hk, h⟩ := bind_ok.mp h
    exact .opens v k _ hl (enterKernel_ok hk) rfl (Except.ok.inj h).symm
  | opened v =>
    simp only [hl] at h
    split_ifs at h with hneg
    · exact exit_ran (by simp [hl]) h
    · refine .goesOn _ ?_ (Except.ok.inj h).symm
      cases v with
      | fill => exact goesOn_at hl .openedFill (by simp)
      | empty => exact goesOn_at hl .openedEmpty (by simp)
      | me =>
        refine ⟨rfl, rfl, ?_, by simp [hl], by simp [hl], by simp [hl], fun _ _ => rfl⟩
        rw [hl]
        exact .openedMe
  | loop =>
    simp only [hl] at h
    refine .goesOn _ (goesOn_at hl ?_ (by simp)) (Except.ok.inj h).symm
    split_ifs
    · exact .again
    · exact .done
  | wait g =>
    simp only [hl] at h
    obtain ⟨k, hk, h⟩ := call_ok h
    exact .waits g k _ hl hk rfl h
  | waited g =>
    cases g with
    | item =>
      simp only [hl] at h
      exact checkRet_ran (by simp [hl]) rfl (goesOn_waited hl .waitedItem) h
    | me =>
      simp only [hl] at h
      exact checkRet_ran (by simp [hl]) rfl (goesOn_waited hl .waitedMe) h
  | readIndex =>
    simp only [hl] at h
    refine .goesOn _ ?_ (Except.ok.inj h).symm
    refine ⟨rfl, rfl, ?_, ?_, ?_, ?_, ?_⟩
    · rw [hl]
      exact .read
    · simp [hl]
    · intro _
      rfl
    · simp [hl]
    · exact fun hr => absurd hl hr
  | store =>
    simp only [hl] at h
    exact .stores hl (Except.ok.inj h).symm
  | advance =>
    simp only [hl] at h
    refine .goesOn _ ?_ (Except.ok.inj h).symm
    refine ⟨rfl, rfl, ?_, ?_, ?_, ?_, ?_⟩
    · rw [hl]
      exact .advanced
    · simp [hl]
    · simp [hl]
    · intro _
      rfl
    · exact fun _ ha => absurd hl ha
  | writeIndex =>
    simp only [hl] at h
    exact .writes hl (Except.ok.inj h).symm
  | post g =>
    simp only [hl] at h
    obtain ⟨k, hk, h⟩ := call_ok h
    exact .posts g k _ hl hk h
  | posted g =>
    cases g with
    | item =>
      simp only [hl] at h
      refine checkRet_ran (by simp [hl]) ?_ (fun _ => ?_) h
      · rfl
      · refine ⟨rfl, rfl, ?_, by simp [hl], by simp [hl], by simp [hl], fun _ _ => rfl⟩
        rw [hl]
        exact .postedItem
    | me =>
      simp only [hl] at h
      exact checkRet_ran (by simp [hl]) rfl (fun _ => goesOn_at hl .postedMe (by simp)) h
  | close v =>
    simp only [hl] at h
    obtain ⟨k, hk, h⟩ := call_ok h
    exact .closes v k _ hl hk h
  | closed v =>
    cases v with
    | fill =>
      simp only [hl] at h
      exact checkRet_ran (by simp [hl]) rfl (fun _ => goesOn_at hl .closedFill (by simp)) h
    | empty =>
      simp only [hl] at h
      exact checkRet_ran (by simp [hl]) rfl (fun _ => goesOn_at hl .closedEmpty (by simp)) h
    | me =>
      simp only [hl] at h
      exact checkRet_ran (by simp [hl]) rfl (fun _ => goesOn_at hl .closedMe (by simp)) h
  | exit =>
    simp only [hl] at h
    exact exit_ran (by simp [hl]) h

/-- What a move can do. -/
inductive Moved (w w' : World) : Prop
  | tick (k : Kernel) (step : kernel.step w.kernel .tick = .ok k) (result : w' = w.entered k)
  | spawns (r : Role) (b : ℕ) (k : Kernel) (father : w.fatherRuns)
      (step : kernel.step w.kernel (.syscall dsosCallSpawn [0, 0]) = .ok k)
      (last : (k.procs .ready).items.getLast? = some b)
      (result : w' = (w.entered k).setThread b (some (newThread r)))
  | waits (k : Kernel) (father : w.fatherRuns)
      (step : kernel.step w.kernel (.syscall dsosCallWait [0, 0]) = .ok k)
      (result : w' = w.entered k)
  | ran (p : ℕ) (th : Thread) (running : w.kernel.running = some p) (thread : w.thread p = some th)
      (ran : Ran w w' p th)

theorem step_moved {move : World.Move} (h : w.step move = .ok w') : Moved w w' := by
  cases move with
  | tick =>
    obtain ⟨k, hk, h⟩ := bind_ok.mp h
    exact .tick k (enterKernel_ok hk) (Except.ok.inj h).symm
  | spawn r =>
    simp only [World.step] at h
    split_ifs at h with hf
    obtain ⟨k, hk, h⟩ := bind_ok.mp h
    split at h
    · cases h
    · rename_i b hb
      exact .spawns r b k hf (enterKernel_ok hk) hb (Except.ok.inj h).symm
  | wait =>
    simp only [World.step] at h
    split_ifs at h with hf
    obtain ⟨k, hk, h⟩ := bind_ok.mp h
    exact .waits k hf (enterKernel_ok hk) (Except.ok.inj h).symm
  | run fails =>
    simp only [World.step] at h
    split at h
    · cases h
    · rename_i p hp
      split at h
      · cases h
      · rename_i th hth
        exact .ran p th hp hth (runLine_ran h)

end

end DisastrOS
