import DisastrOS.Step

/-! The tables through which a system call finds its handler, and the elements of them that it
reads. -/
namespace DisastrOS
open BlockPool TransitionSystem

/-- An access to an element of one of the two tables, or of the arguments of the caller. -/
inductive TableAccess
  | syscallNumarg (i : ℤ)
  | syscallVector (i : ℤ)
  | syscallArgs (i : ℕ)
  deriving DecidableEq, Repr

def TableAccess.InBounds : TableAccess → Prop
  | syscallNumarg i => 0 ≤ i ∧ i < dsosMaxSyscalls
  | syscallVector i => 0 ≤ i ∧ i < dsosMaxSyscalls
  | syscallArgs i => i < dsosMaxSyscallsArgs

/-- What the dispatch of a system call comes to. -/
inductive CallOutcome
  | returns (v : ℤ) (s : Kernel)
  | runs (h : Handler) (s : Kernel)
  | outOfBounds

def CallOutcome.finish : CallOutcome → Except Fault Kernel
  | returns _ s => .ok s
  | runs h s => runHandler h s
  | outOfBounds => .error .outOfBounds

/-- `disastrOS_trap` for the running process `p` up to the call of a handler, with the elements
that it reads. -/
def trapDispatch (s : Kernel) (p : ℕ) : List TableAccess × CallOutcome :=
  let n := (s.pcb p).syscallNum
  if n < 0 ∨ n > dsosMaxSyscalls then
    ([], .returns dsosEsyscallOutOfRange (s.setRetvalue p dsosEsyscallOutOfRange))
  else if n = dsosMaxSyscalls then ([.syscallVector n], .outOfBounds)
  else
    match syscallVector n with
    | none =>
      ([.syscallVector n],
        .returns dsosEsyscallNotImplemented (s.setRetvalue p dsosEsyscallNotImplemented))
    | some h => ([.syscallVector n, .syscallVector n], .runs h s)

/-- `disastrOS_syscall`, and `disastrOS_trap` behind it. -/
def syscallDispatch (s : Kernel) (p : ℕ) (n : ℤ) (args : List ℤ) :
    List TableAccess × CallOutcome :=
  if n < 0 ∨ n > dsosMaxSyscalls then ([], .returns dsosEsyscallOutOfRange s)
  else if n = dsosMaxSyscalls then ([.syscallNumarg n], .outOfBounds)
  else
    let stored := (List.range (syscallNumarg n)).map .syscallArgs
    let r := trapDispatch (enterSyscall s p n args) p
    (.syscallNumarg n :: stored ++ r.1, r.2)

variable {s : Kernel} {p : ℕ} {n : ℤ} {args : List ℤ}

@[simp] theorem enterSyscall_syscallNum :
    ((enterSyscall s p n args).pcb p).syscallNum = n := by
  simp [enterSyscall]

theorem disastrOSTrap_dispatch (hp : s.running = some p) :
    disastrOSTrap s = (trapDispatch s p).2.finish := by
  simp only [disastrOSTrap, trapDispatch, hp, deref, bind, Except.bind]
  split_ifs with h1 h2
  · rfl
  · rfl
  · cases syscallVector (s.pcb p).syscallNum <;> rfl

/-- The dispatch says what the system call does. -/
theorem disastrOSSyscall_dispatch (hp : s.running = some p) (n : ℤ) (args : List ℤ) :
    disastrOSSyscall s n args = (syscallDispatch s p n args).2.finish := by
  simp only [disastrOSSyscall, syscallDispatch, hp]
  split_ifs with h1 h2
  · rfl
  · rfl
  · exact disastrOSTrap_dispatch hp

/-! ### The numbers outside of the tables, without a handler, and with one -/

theorem syscallDispatch_outOfRange (h : n < 0 ∨ dsosMaxSyscalls < n) :
    syscallDispatch s p n args = ([], .returns dsosEsyscallOutOfRange s) := by
  rw [syscallDispatch, if_pos h]

theorem syscallDispatch_maxSyscalls : syscallDispatch s p dsosMaxSyscalls args =
    ([.syscallNumarg dsosMaxSyscalls], .outOfBounds) := by
  rw [syscallDispatch, if_neg (by decide), if_pos rfl]

theorem syscallDispatch_inside (h0 : 0 ≤ n) (hn : n < dsosMaxSyscalls) :
    syscallDispatch s p n args =
      (.syscallNumarg n :: (List.range (syscallNumarg n)).map .syscallArgs ++
        (trapDispatch (enterSyscall s p n args) p).1,
      (trapDispatch (enterSyscall s p n args) p).2) := by
  rw [syscallDispatch, if_neg (by omega), if_neg (by omega)]

/-- What a call without a handler leaves: the caller's number and result, and the context that
every switch to the kernel saves. -/
def notImplemented (s : Kernel) (p : ℕ) (n : ℤ) : Kernel :=
  (s.modPcb p fun c => { c with syscallNum := n, cpuState := some c.pid }).setRetvalue p
    dsosEsyscallNotImplemented

theorem trapDispatch_notImplemented (h0 : 0 ≤ n) (hn : n < dsosMaxSyscalls)
    (hv : syscallVector n = none) : trapDispatch (enterSyscall s p n args) p =
      ([.syscallVector n], .returns dsosEsyscallNotImplemented (notImplemented s p n)) := by
  have hargs : syscallNumarg n = 0 := by simp [syscallNumarg, hv]
  have henter : enterSyscall s p n args =
      s.modPcb p fun c => { c with syscallNum := n, cpuState := some c.pid } := by
    simp [enterSyscall, hargs]
  simp only [trapDispatch, enterSyscall_syscallNum, hv]
  rw [if_neg (by omega), if_neg (by omega), notImplemented, henter]

theorem trapDispatch_handler {hd : Handler} (h0 : 0 ≤ n) (hn : n < dsosMaxSyscalls)
    (hv : syscallVector n = some hd) : trapDispatch (enterSyscall s p n args) p =
      ([.syscallVector n, .syscallVector n], .runs hd (enterSyscall s p n args)) := by
  simp only [trapDispatch, enterSyscall_syscallNum, hv]
  rw [if_neg (by omega), if_neg (by omega)]

theorem syscallNumarg_le (n : ℤ) : syscallNumarg n ≤ dsosMaxSyscallsArgs := by
  unfold syscallNumarg
  split <;> decide

/-- The system call with the number `n` is dispatched safely. -/
structure DispatchSafe (s : Kernel) (p : ℕ) (n : ℤ) (args : List ℤ) : Prop where
  inBounds : ∀ a ∈ (syscallDispatch s p n args).1, a.InBounds
  outOfRange : ∀ t, (syscallDispatch s p n args).2 = .returns dsosEsyscallOutOfRange t ↔
    (n < 0 ∨ dsosMaxSyscalls ≤ n) ∧ t = s
  notImplemented : ∀ t, (syscallDispatch s p n args).2 = .returns dsosEsyscallNotImplemented t ↔
    (0 ≤ n ∧ n < dsosMaxSyscalls ∧ syscallVector n = none) ∧ t = notImplemented s p n
  /-- The handler runs on the arguments of the call, as many as are registered. -/
  handler : ∀ hd, 0 ≤ n → n < dsosMaxSyscalls → syscallVector n = some hd →
    (syscallDispatch s p n args).2 = .runs hd (enterSyscall s p n args) ∧
    disastrOSSyscall s n args = runHandler hd (enterSyscall s p n args) ∧
    ∀ i, ((enterSyscall s p n args).pcb p).syscallArgs i =
      if i < syscallNumarg n then args.getD i 0 else (s.pcb p).syscallArgs i

theorem dispatchSafe_outOfRange (h : n < 0 ∨ dsosMaxSyscalls < n) :
    DispatchSafe s p n args := by
  constructor
  case inBounds =>
    rw [syscallDispatch_outOfRange h]
    exact fun a ha => absurd ha List.not_mem_nil
  case outOfRange =>
    intro t
    rw [syscallDispatch_outOfRange h]
    simp only [CallOutcome.returns.injEq, true_and]
    constructor
    · rintro rfl
      exact ⟨by omega, rfl⟩
    · exact fun ht => ht.2.symm
  case notImplemented =>
    intro t
    rw [syscallDispatch_outOfRange h]
    constructor
    · intro he
      exact absurd (CallOutcome.returns.inj he).1 (by decide)
    · rintro ⟨⟨h0, hn, -⟩, -⟩
      omega
  case handler =>
    intro hd h0 hn
    omega

/-- The accesses before the trap. -/
theorem stored_inBounds (h0 : 0 ≤ n) (hn : n < dsosMaxSyscalls) :
    ∀ a ∈ TableAccess.syscallNumarg n :: (List.range (syscallNumarg n)).map .syscallArgs,
      a.InBounds := by
  intro a ha
  rcases List.mem_cons.mp ha with rfl | ha
  · exact ⟨h0, hn⟩
  · obtain ⟨i, hi, rfl⟩ := List.mem_map.mp ha
    exact Nat.lt_of_lt_of_le (List.mem_range.mp hi) (syscallNumarg_le n)

theorem dispatchSafe_notImplemented (h0 : 0 ≤ n) (hn : n < dsosMaxSyscalls)
    (hv : syscallVector n = none) : DispatchSafe s p n args := by
  have hinside := @syscallDispatch_inside s p n args h0 hn
  rw [trapDispatch_notImplemented h0 hn hv] at hinside
  constructor
  case inBounds =>
    rw [hinside]
    intro a ha
    rcases List.mem_append.mp ha with ha | ha
    · exact stored_inBounds h0 hn a ha
    · obtain rfl := List.mem_singleton.mp ha
      exact ⟨h0, hn⟩
  case outOfRange =>
    intro t
    rw [hinside]
    constructor
    · intro he
      exact absurd (CallOutcome.returns.inj he).1 (by decide)
    · rintro ⟨hr, -⟩
      omega
  case notImplemented =>
    intro t
    rw [hinside]
    simp only [CallOutcome.returns.injEq, true_and, h0, hn, hv]
    exact eq_comm
  case handler =>
    intro hd _ _ hsome
    cases hv.symm.trans hsome

theorem dispatchSafe_handler {hd : Handler} (hp : s.running = some p) (h0 : 0 ≤ n)
    (hn : n < dsosMaxSyscalls) (hv : syscallVector n = some hd) : DispatchSafe s p n args := by
  have hinside := @syscallDispatch_inside s p n args h0 hn
  have hrun := disastrOSSyscall_dispatch hp n args
  rw [trapDispatch_handler h0 hn hv] at hinside
  constructor
  case inBounds =>
    rw [hinside]
    intro a ha
    rcases List.mem_append.mp ha with ha | ha
    · exact stored_inBounds h0 hn a ha
    · obtain rfl : a = .syscallVector n := by simpa using ha
      exact ⟨h0, hn⟩
  case outOfRange =>
    intro t
    rw [hinside]
    constructor
    · exact fun he => by cases he
    · rintro ⟨hr, -⟩
      omega
  case notImplemented =>
    intro t
    rw [hinside]
    constructor
    · exact fun he => by cases he
    · rintro ⟨⟨-, -, hnone⟩, -⟩
      cases hv.symm.trans hnone
  case handler =>
    intro g _ _ hg
    obtain rfl : hd = g := Option.some.inj (hv.symm.trans hg)
    rw [hinside] at hrun ⊢
    exact ⟨rfl, hrun, fun i => by simp [enterSyscall]⟩

/-- Both range checks let the first number behind the tables through, and only that one is not
dispatched safely. -/
theorem dispatchSafe_iff (hp : s.running = some p) (n : ℤ) (args : List ℤ) :
    DispatchSafe s p n args ↔ n ≠ dsosMaxSyscalls := by
  constructor
  · rintro h rfl
    have hin := h.inBounds (.syscallNumarg dsosMaxSyscalls)
      (by rw [syscallDispatch_maxSyscalls]; exact List.mem_singleton.mpr rfl)
    exact absurd hin.2 (by decide)
  · intro hne
    by_cases hr : n < 0 ∨ dsosMaxSyscalls < n
    · exact dispatchSafe_outOfRange hr
    · cases hv : syscallVector n with
      | none => exact dispatchSafe_notImplemented (by omega) (by omega) hv
      | some hd => exact dispatchSafe_handler hp (by omega) (by omega) hv

/-- The start dispatches numbers in and outside of the tables. -/
theorem dispatchSafe_start : DispatchSafe disastrOSStart 0 dsosCallSemopen [7, 1] ∧
    DispatchSafe disastrOSStart 0 31 [] ∧ DispatchSafe disastrOSStart 0 (-1) [] :=
  ⟨(dispatchSafe_iff (by decide +kernel) _ _).mpr (by decide),
    (dispatchSafe_iff (by decide +kernel) _ _).mpr (by decide),
    (dispatchSafe_iff (by decide +kernel) _ _).mpr (by decide)⟩

/-- The number of the elements is taken for one of a system call. -/
theorem dispatch_reads_behind : ¬ DispatchSafe disastrOSStart 0 32 [] ∧
    kernel.failure disastrOSStart (.syscall 32 []) = some .outOfBounds := by
  refine ⟨fun h => ?_, by decide +kernel⟩
  have hin := h.inBounds (.syscallNumarg 32) (by decide +kernel)
  exact absurd hin.2 (by decide)

end DisastrOS
