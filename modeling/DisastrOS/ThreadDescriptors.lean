import DisastrOS.BufferLedger
import DisastrOS.OpenDescriptors
import DisastrOS.SemaphoreRefinement

/-! The father keeps the semaphores open, and the numbers that a process has read stand for
them. -/
namespace DisastrOS
open BlockPool TransitionSystem

variable {k k' : Kernel} {w : World} {p q b f x : ℕ} {th th' : Thread} {r : Role} {g : Gate}
  {v : FdName} {act : Action} {args : List ℤ}

/-! ### Steps that leave the semaphores alone -/

theorem syscall_ne {n m : ℤ} {args args' : List ℤ} (h : n ≠ m) :
    Action.syscall n args ≠ .syscall m args' := fun he => h (Action.syscall.inj he).1

theorem semEvent_ne_wait (h : ∀ args, act ≠ .syscall dsosCallSemwait args) :
    semEvent k act ≠ .wait x p := by
  intro hev
  obtain ⟨q, hd, args, -, rfl, he⟩ := semEvent_handler (by rw [hev]; simp)
  obtain ⟨rfl, -⟩ := handlerEvent_wait (he.symm.trans hev)
  exact h args rfl

theorem semEvent_ne_post (h : ∀ args, act ≠ .syscall dsosCallSempost args) :
    semEvent k act ≠ .post x := by
  intro hev
  obtain ⟨q, hd, args, -, rfl, he⟩ := semEvent_handler (by rw [hev]; simp)
  obtain ⟨rfl, -⟩ := handlerEvent_post (he.symm.trans hev)
  exact h args rfl

/-- A call other than an open and a post does not make a count overflow. -/
theorem countsFit_of_ne (hopen : ∀ args, act ≠ .syscall dsosCallSemopen args)
    (hpost : ∀ x, semEvent k act ≠ .post x) : CountsFit k act := by
  unfold CountsFit
  cases hev : semEvent k act with
  | none => trivial
  | remove x => trivial
  | wait x p => trivial
  | post x => exact absurd hev (hpost x)
  | create x semnum value =>
    obtain ⟨q, hd, args, -, rfl, he⟩ := semEvent_handler (by rw [hev]; simp)
    obtain rfl := handlerEvent_create (he.symm.trans hev)
    exact absurd rfl (hopen args)

theorem semEvent_unknownWait (hp : k.running = some p)
    (hx : calledSemaphore k p (toInt (args.getD 0 0)) = none) :
    semEvent k (.syscall dsosCallSemwait args) = .none := by
  change semEvent k (.syscall Handler.semWait.number args) = .none
  rw [semEvent_number hp, handlerEvent, enterSyscall_arg (by decide), calledSemaphore_enter, hx]
  rfl

theorem semEvent_unknownPost (hp : k.running = some p)
    (hx : calledSemaphore k p (toInt (args.getD 0 0)) = none) :
    semEvent k (.syscall dsosCallSempost args) = .none := by
  change semEvent k (.syscall Handler.semPost.number args) = .none
  rw [semEvent_number hp, handlerEvent, enterSyscall_arg (by decide), calledSemaphore_enter, hx]
  rfl

/-- Who runs does not wait. -/
theorem running_not_waiter (hk : KernelInv k) (hp : k.running = some p) (x : ℕ) :
    p ∉ waiters k x := by
  intro hmem
  obtain ⟨e, he, hep⟩ := List.mem_map.mp hmem
  exact hk.proc.running_ne hp (hk.wake.queued x e he).1 hep

/-! ### The father -/

/-- The process `b` lives on with what it has open. -/
structure Untouched (k k' : Kernel) (b : ℕ) : Prop where
  alive : Alive k' b
  opens : SameOpens k k' b

/-- The action neither opens nor closes a semaphore, nor ends its process. -/
def Action.Keeps (act : Action) : Prop := ∀ args, act ≠ .syscall dsosCallExit args ∧
  act ≠ .syscall dsosCallSemopen args ∧ act ≠ .syscall dsosCallSemclose args

theorem step_untouched (hk : KernelInv k) (hs : kernel.step k act = .ok k') (hb : Alive k b)
    (hne : k.running = some b → act.Keeps) : Untouched k k' b := by
  refine ⟨?_, step_sameOpens hk hs hb.1 fun hrun args => (hne hrun args).2⟩
  rcases step_alive hk hs hb with halive | ⟨hrun, args, hact⟩
  · exact halive
  · exact absurd hact (hne hrun args).1

/-- The process `f` has made the four semaphores and keeps them open. -/
structure FatherOpen (k : Kernel) (f : ℕ) : Prop where
  init : k.initPcb = some f
  alive : Alive k f
  opens : ∀ x < 4, HasOpen k f x
  number : ∀ x < 4, (k.sems.semaphore.cell x).id = x

namespace FatherOpen

theorem listed (h : FatherOpen k f) (hk : KernelInv k) (hx : x < 4) : x ∈ k.sems.list.items :=
  (h.opens x hx).listed hk

theorem step (h : FatherOpen k f) (hk : KernelInv k) (hs : kernel.step k act = .ok k')
    (hrun : k.running ≠ none) (hne : k.running = some f → act.Keeps) : FatherOpen k' f := by
  have hu := step_untouched hk hs h.alive hne
  refine ⟨(step_initPcb hk hs hrun).trans h.init, hu.alive, fun x hx => ?_, fun x hx => ?_⟩
  · exact hu.opens.hasOpen (h.opens x hx)
  · rw [(step_semEvent hk hs).id_eq (h.listed hk hx), h.number x hx]

/-- The number of a semaphore of the buffer leads to it. -/
theorem byId (h : FatherOpen k f) (hk : KernelInv k) (hx : x < 4) :
    semaphoreListById k.sems x = some x := by
  have hmem := h.listed hk hx
  unfold semaphoreListById
  cases hf : k.sems.list.items.find? fun y => (k.sems.semaphore.cell y).id = x with
  | none =>
    have hnone := List.find?_eq_none.mp hf x hmem
    simp [h.number x hx] at hnone
  | some y =>
    have hid := List.find?_some hf
    simp only [decide_eq_true_eq] at hid
    exact congrArg some
      (hk.sem.ids y (List.mem_of_find?_eq_some hf) x hmem (hid.trans (h.number x hx).symm))

/-- A step that neither waits nor posts leaves the semaphores of the buffer as they are. -/
theorem calm (h : FatherOpen k f) (hk : KernelInv k) (hs : kernel.step k act = .ok k')
    (hwait : ∀ x p, semEvent k act ≠ .wait x p) (hpost : ∀ x, semEvent k act ≠ .post x)
    (r : Role) (g : Gate) : SameSem k k' (r.sem g) :=
  (step_semEvent hk hs).sameSem (h.listed hk (fdName_sem_lt _ r)) (hwait _) (hpost _)

end FatherOpen

/-! ### The numbers that a process has read -/

/-- The line comes before the closes. -/
def Line.works : Line → Bool
  | .close _ | .closed _ | .exit => false
  | _ => true

/-- The variables into which a process that comes to the line has opened a semaphore. -/
def Line.made : Line → List FdName
  | .opening .fill => []
  | .opened .fill | .opening .empty => [.fill]
  | .opened .empty | .opening .me => [.fill, .empty]
  | _ => [.fill, .empty, .me]

theorem length_made_le (l : Line) : l.made.length ≤ 3 := by
  unfold Line.made
  split <;> decide

theorem openArgs_sem (r : Role) (v : FdName) :
    toInt ((r.function.openArgs v).getD 0 0) = v.sem r := by
  cases r <;> cases v <;> decide

/-- The number stands for the semaphore, or the open has failed. -/
def Means (k : Kernel) (p : ℕ) (r : Role) (v : FdName) (fd : ℤ) : Prop :=
  calledSemaphore k p (toInt fd) = some (v.sem r) ∨ toInt fd < 0

structure ThreadInv (k : Kernel) (p : ℕ) (th : Thread) : Prop where
  alive : Alive k p
  child : k.initPcb ≠ some p
  below : th.line.works = true → FdsBelow k p
  few : th.line.works = true → (k.pcb p).lastSemFd ≤ th.line.made.length
  means : th.line.works = true → ∀ v ∈ th.line.made, Means k p th.role v (th.fd v)

namespace ThreadInv

theorem untouched (h : ThreadInv k p th) (hu : Untouched k k' p)
    (hinit : k'.initPcb = k.initPcb) : ThreadInv k' p th := by
  refine ⟨hu.alive, hinit ▸ h.child, fun hw => ?_, fun hw => ?_, fun hw v hv => ?_⟩
  · exact (h.below hw).same hu.opens
  · exact hu.opens.lastSemFd.trans_le (h.few hw)
  · exact (h.means hw v hv).imp_left (hu.opens.called _).trans

/-- The process comes to a line at which it has opened as much. -/
theorem goes (h : ThreadInv k p th) (hrole : th'.role = th.role) (hfd : th'.fd = th.fd)
    (hline : th'.line.works = true → th.line.works = true ∧ th'.line.made = th.line.made) :
    ThreadInv k p th' := by
  refine ⟨h.alive, h.child, fun hw => ?_, fun hw => ?_, fun hw v hv => ?_⟩
  · exact h.below (hline hw).1
  · rw [(hline hw).2]
    exact h.few (hline hw).1
  · rw [(hline hw).2] at hv
    rw [hrole, hfd]
    exact h.means (hline hw).1 v hv

theorem goesOn (h : ThreadInv k p th) (hgoes : GoesOn w th th') : ThreadInv k p th' := by
  refine h.goes hgoes.role hgoes.fd ?_
  have hnext := hgoes.next
  generalize th.line = l at *
  generalize th'.line = l' at *
  cases hnext <;> simp [Line.works, Line.made]

/-- The process has opened a semaphore of the buffer into `v`. -/
theorem opens (h : ThreadInv k p th) (hline : th.line = .opening v) (halive : Alive k' p)
    (hinit : k'.initPcb = k.initPcb) (ho : OpensKnown k k' p (v.sem th.role)) :
    ThreadInv k' p { th with
      fd := Function.update th.fd v (k'.pcb p).syscallRetvalue, line := .opened v } := by
  have hworks : th.line.works = true := by simp [hline, Line.works]
  have hmade : (Line.opened v).made = th.line.made ++ [v] := by
    rw [hline]
    cases v <;> rfl
  refine ⟨halive, hinit ▸ h.child, fun _ => ho.fds, fun _ => ?_, fun _ u hu => ?_⟩
  · have hfew := h.few hworks
    have hnext := ho.next
    simp only [hmade, List.length_append, List.length_singleton]
    push_cast
    omega
  · simp only at hu ⊢
    by_cases huv : u = v
    · subst huv
      rw [Function.update_self]
      exact ho.result
    · rw [Function.update_of_ne huv]
      rw [hmade, List.mem_append, List.mem_singleton] at hu
      exact (h.means hworks u (hu.resolve_right huv)).imp_left (ho.kept _ _)

/-- What a process calls at a gate is the semaphore of the gate or nothing. -/
theorem called (h : ThreadInv k p th) (hworks : th.line.works = true) (hv : v ∈ th.line.made) :
    calledSemaphore k p (toInt (th.fd v)) = some (v.sem th.role) ∨
      calledSemaphore k p (toInt (th.fd v)) = none :=
  (h.means hworks v hv).imp_right (h.below hworks).called_of_neg

/-- A new process has opened nothing. -/
theorem created {s t : Kernel} {cpu : Option ℤ} {q : ℕ} (hproc : ProcInv s)
    (hc : NewChild s t p b q cpu) (r : Role) : ThreadInv t b (newThread r) := by
  have hitems : (t.pcb b).semDescriptors.items = [] := by
    rw [hc.pcb, if_pos rfl]
    rfl
  have hlast : (t.pcb b).lastSemFd = 0 := by
    rw [hc.pcb, if_pos rfl]
    rfl
  refine ⟨⟨(hc.inUse b).mpr (Or.inr rfl), fun hz => ?_⟩, fun hinit => ?_, fun _ => ?_,
    fun _ => hlast.le, fun _ v hv => absurd hv List.not_mem_nil⟩
  · rw [hc.procs, if_neg (by decide)] at hz
    exact hc.fresh (hproc.inUse_of_mem hz)
  · obtain ⟨i, hi, hu, -⟩ := hproc.init
    rw [hc.initPcb, hi] at hinit
    exact hc.fresh (Option.some.inj hinit ▸ hu)
  · refine ⟨hlast.ge, ?_, ?_⟩
    · rw [hitems]
      exact fun d hd => absurd hd List.not_mem_nil
    · rw [hitems]
      exact fun d hd => absurd hd List.not_mem_nil

end ThreadInv

end DisastrOS
