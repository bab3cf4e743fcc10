import DisastrOS.BufferSafety

/-! How much the producers and the consumers have still to do, as long as none of their calls
fails. -/
namespace DisastrOS
open BlockPool TransitionSystem

/-- How many processes of each role have been spawned, how many lines they have carried out, and
how many of them the process in each block has, since it was spawned. -/
structure Work where
  spawned : Role → ℕ
  lines : ℕ
  own : ℕ → ℕ

variable {w w' : World} {p q b : ℕ} {th th' : Thread} {r : Role} {v : FdName} {l l' : Line}
  {move : World.Move} {n : Work}

/-! ### Runs without errors -/

/-- The last call of the process has not failed, if it is one whose result is looked at next. -/
def Thread.Succeeded (th : Thread) : Prop :=
  match th.line with
  | .opened v => 0 ≤ th.fd v
  | .waited _ | .posted _ | .closed _ => th.ret.getD 0 = 0
  | _ => True

instance (th : Thread) : Decidable th.Succeeded := by
  unfold Thread.Succeeded
  split <;> infer_instance

/-- No call of a producer or consumer fails, and one that resumes after a wait reads that it has
succeeded. -/
def CallsSucceed (w : World) (move : World.Move) : Prop :=
  move ≠ .run true ∧ ∀ w' ∈ (w.step move).toOption, ∀ p ∈ w.kernel.running,
    ∀ th ∈ w'.thread p, th.Succeeded

instance (w : World) (move : World.Move) : Decidable (CallsSucceed w move) :=
  inferInstanceAs (Decidable (_ ∧ _))

/-- The process that a spawn makes is the last of the ready ones. -/
def recordWork (w : World) (move : World.Move) (w' : World) (n : Work) : Work :=
  match move with
  | .spawn r => { n with
      spawned := Function.update n.spawned r (n.spawned r + 1)
      own := (w'.kernel.procs .ready).items.getLast?.elim n.own fun b =>
        Function.update n.own b 0 }
  | .run _ => { n with
      lines := n.lines + 1
      own := w.kernel.running.elim n.own fun p => Function.update n.own p (n.own p + 1) }
  | _ => n

/-- The producers and consumers, with a record of their work. -/
def countedWorld : System (World × Work) World.Move Halt :=
  producersConsumers.withRecord ⟨fun _ => 0, 0, fun _ => 0⟩ recordWork

/-- The moves of the runs in which no call fails. -/
def NoCallFails (y : World × Work) (move : World.Move) : Prop := CallsSucceed y.1 move

instance (y : World × Work) (move : World.Move) : Decidable (NoCallFails y move) :=
  inferInstanceAs (Decidable (CallsSucceed _ _))

/-! ### The loop of a process -/

/-- The line is in the body of the loop. -/
def Line.inLoop : Line → Bool
  | .wait _ | .waited _ | .readIndex | .store | .advance | .writeIndex | .post _ | .posted _ => true
  | _ => false

/-- What a process that has not seen an error knows. -/
structure Thread.Fine (th : Thread) : Prop where
  fds : ∀ v ∈ th.line.made, 0 ≤ th.fd v
  succeeded : th.Succeeded
  atLoop : th.line = .loop → 0 ≤ th.i ∧ th.i ≤ iterations
  inLoop : th.line.inLoop = true → 0 ≤ th.i ∧ th.i < iterations

/-- How many slots a process has still to use that comes to the line in iteration `i`. -/
def Line.left (i : ℤ) : Line → ℤ
  | .opening _ | .opened _ => iterations
  | .close _ | .closed _ | .exit => 0
  | .advance | .writeIndex | .post _ | .posted _ => iterations - i - 1
  | .loop | .wait _ | .waited _ | .readIndex | .store => iterations - i

def Thread.left (th : Thread) : ℤ := th.line.left th.i

/-- The lines of a process: those of the opens, of the loop with its last test, of the closes and
the exit. -/
def linesOfProcess : ℕ := 6 + (10 * 13 + 1) + 6 + 1

/-- How many lines a process has still to carry out that comes to the line in iteration `i`. -/
def Line.todo (i : ℤ) : Line → ℤ
  | .opening .fill => linesOfProcess
  | .opened .fill => linesOfProcess - 1
  | .opening .empty => linesOfProcess - 2
  | .opened .empty => linesOfProcess - 3
  | .opening .me => linesOfProcess - 4
  | .opened .me => linesOfProcess - 5
  | .loop => 13 * (iterations - i) + 8
  | .wait .item => 13 * (iterations - i) + 7
  | .waited .item => 13 * (iterations - i) + 6
  | .wait .me => 13 * (iterations - i) + 5
  | .waited .me => 13 * (iterations - i) + 4
  | .readIndex => 13 * (iterations - i) + 3
  | .store => 13 * (iterations - i) + 2
  | .advance => 13 * (iterations - i) + 1
  | .writeIndex => 13 * (iterations - i)
  | .post .me => 13 * (iterations - i) - 1
  | .posted .me => 13 * (iterations - i) - 2
  | .post .item => 13 * (iterations - i) - 3
  | .posted .item => 13 * (iterations - i) - 4
  | .close .fill => 7
  | .closed .fill => 6
  | .close .empty => 5
  | .closed .empty => 4
  | .close .me => 3
  | .closed .me => 2
  | .exit => 1

def Thread.todo (th : Thread) : ℤ := th.line.todo th.i

/-- What the line of a process does to its loop. -/
inductive Progress (w w' : World) (p : ℕ) (th : Thread) : Prop
  | ends (line : th.line = .exit) (thread : w'.thread p = none) (slots : w'.slots = w.slots)
  | goes (th' : Thread) (thread : w'.thread p = some th') (role : th'.role = th.role)
      (fine : th'.Fine) (lines : th'.todo + 1 = th.todo)
      (own : th'.left + (w'.slots th.role).length = th.left + (w.slots th.role).length)
      (others : ∀ r, r ≠ th.role → w'.slots r = w.slots r)

theorem Thread.Fine.left_nonneg (h : th.Fine) : 0 ≤ th.left := by
  obtain ⟨-, -, hloop, hin⟩ := h
  unfold Thread.left Line.left
  generalize th.line = l at *
  cases l with
  | loop =>
    have := hloop rfl
    simp only
    omega
  | wait g | waited g | readIndex | store | advance | writeIndex | post g | posted g =>
    have := hin rfl
    simp only
    omega
  | opening v | opened v => simp [iterations]
  | close v | closed v | exit => exact le_rfl

theorem Thread.Fine.todo_pos (h : th.Fine) : 0 < th.todo := by
  obtain ⟨-, -, hloop, hin⟩ := h
  unfold Thread.todo Line.todo
  generalize th.line = l at *
  cases l with
  | loop =>
    have := hloop rfl
    simp only
    omega
  | wait g | waited g | post g | posted g =>
    have := hin rfl
    cases g <;> simp only <;> omega
  | readIndex | store | advance | writeIndex =>
    have := hin rfl
    simp only
    omega
  | opening v | opened v | close v | closed v => cases v <;> simp [linesOfProcess]
  | exit => simp

/-- A line that uses no slot and leaves as many to use. -/
theorem Progress.stays (hthread : w'.thread p = some th') (hslots : w'.slots = w.slots)
    (hrole : th'.role = th.role) (hfine : th'.Fine) (htodo : th'.todo + 1 = th.todo)
    (hleft : th'.left = th.left) : Progress w w' p th :=
  .goes th' hthread hrole hfine htodo (by rw [hleft, hslots]) fun _ _ => by rw [hslots]

/-- A line after which the process is in the same iteration. -/
theorem Progress.next (hf : th.Fine) (hl : th.line = l) (hl' : th'.line = l')
    (hthread : w'.thread p = some th') (hslots : w'.slots = w.slots) (hrole : th'.role = th.role)
    (hfd : th'.fd = th.fd) (hi : th'.i = th.i) (hok : th'.Succeeded) (hmade : l'.made = l.made)
    (hin : l'.inLoop = true → l.inLoop = true) (hloop : l' ≠ .loop)
    (htodo : ∀ i, l'.todo i + 1 = l.todo i) (hleft : ∀ i, l'.left i = l.left i) :
    Progress w w' p th := by
  subst hl hl'
  refine .stays hthread hslots hrole ⟨fun v hv => ?_, hok, fun hl => absurd hl hloop,
    fun hl => ?_⟩ ?_ ?_
  · rw [hfd]
    exact hf.fds v (hmade ▸ hv)
  · rw [hi]
    exact hf.inLoop (hin hl)
  · rw [Thread.todo, hi, htodo, Thread.todo]
  · rw [Thread.left, hi, hleft, Thread.left]

theorem checkRet_fine (hret : th.ret.getD 0 = 0) (h : w.checkRet p th false l = .ok w') :
    w' = w.setThread p (some (th.at l)) := by
  unfold World.checkRet at h
  rw [if_neg] at h
  · exact (Except.ok.inj h).symm
  · cases hr : th.ret with
    | none => simp
    | some v => simpa [hr] using hret

/-- A process that sees no error goes on to its end, one iteration after the other. -/
theorem runLine_progress (hf : th.Fine) (h : w.runLine p th false = .ok w')
    (hok : ∀ th', w'.thread p = some th' → th'.Succeeded) : Progress w w' p th := by
  have hsucc := hf.succeeded
  unfold Thread.Succeeded at hsucc
  have hself : ∀ u : World, ∀ o, (u.setThread p o).thread p = o := fun u o =>
    World.setThread_self u p o
  unfold World.runLine at h
  cases hl : th.line with
  | opening v =>
    simp only [hl] at h
    obtain ⟨k, -, h⟩ := bind_ok.mp h
    obtain rfl := Except.ok.inj h
    have hsucc' := hok _ (hself _ _)
    refine .stays (hself _ _) rfl rfl ⟨fun u hu => ?_, hsucc', by simp, by simp [Line.inLoop]⟩
      ?_ ?_
    · by_cases huv : u = v
      · subst huv
        exact hsucc'
      · have hmade : (Line.opened v).made = th.line.made ++ [v] := by
          rw [hl]
          cases v <;> rfl
        simp only at hu ⊢
        rw [Function.update_of_ne huv]
        rw [hmade, List.mem_append, List.mem_singleton] at hu
        exact hf.fds u (hu.resolve_right huv)
    · rw [Thread.todo, Thread.todo, hl]
      cases v <;> simp only [Line.todo] <;> omega
    · rw [Thread.left, Thread.left, hl]
      rfl
  | opened v =>
    simp only [hl] at h
    have hchecked : ¬ th.fd (th.role.function.checked v) < 0 := by
      refine not_lt.mpr (hf.fds _ ?_)
      rw [hl]
      cases th.role <;> cases v <;> decide
    rw [if_neg hchecked] at h
    obtain rfl := Except.ok.inj h
    cases v with
    | fill =>
      exact .next hf hl rfl (hself _ _) rfl rfl rfl rfl trivial rfl
        (by simp [Thread.at, Line.inLoop]) (by simp [Thread.at])
        (fun _ => by simp only [Thread.at, Line.todo]; omega) fun _ => rfl
    | empty =>
      exact .next hf hl rfl (hself _ _) rfl rfl rfl rfl trivial rfl
        (by simp [Thread.at, Line.inLoop]) (by simp [Thread.at])
        (fun _ => by simp only [Thread.at, Line.todo]; omega) fun _ => rfl
    | me =>
      refine .stays (hself _ _) rfl rfl ⟨fun u hu => ?_, trivial, fun _ => ⟨le_rfl, ?_⟩, ?_⟩ ?_ ?_
      · refine hf.fds u ?_
        rw [hl]
        exact hu
      · simp [iterations]
      · simp [Line.inLoop]
      · simp [Thread.todo, Line.todo, hl, linesOfProcess, iterations]
      · simp [Thread.left, Line.left, hl]
  | loop =>
    simp only [hl] at h
    obtain rfl := Except.ok.inj h
    obtain ⟨h0, hle⟩ := hf.atLoop hl
    by_cases hlt : th.i < iterations
    · refine .stays (hself _ _) rfl rfl ⟨fun u hu => ?_, ?_, ?_, fun _ => ⟨h0, hlt⟩⟩ ?_ ?_
      · refine hf.fds u ?_
        simp only [hlt, if_true, Thread.at] at hu
        rw [hl]
        exact hu
      · simp [hlt, Thread.at, Thread.Succeeded]
      · simp [hlt, Thread.at]
      · simp only [hlt, if_true, Thread.todo, Line.todo, Thread.at, hl]
        omega
      · simp [hlt, Thread.left, Line.left, Thread.at, hl]
    · refine .stays (hself _ _) rfl rfl ⟨fun u hu => ?_, ?_, ?_, ?_⟩ ?_ ?_
      · refine hf.fds u ?_
        simp only [hlt, if_false, Thread.at] at hu
        rw [hl]
        exact hu
      · simp [hlt, Thread.at, Thread.Succeeded]
      · simp [hlt, Thread.at]
      · simp [hlt, Thread.at, Line.inLoop]
      · simp only [hlt, if_false, Thread.todo, Line.todo, Thread.at, hl]
        omega
      · simp only [hlt, if_false, Thread.left, Line.left, Thread.at, hl]
        omega
  | wait g =>
    simp only [hl] at h
    obtain ⟨k, -, rfl⟩ := call_ok h
    exact .next hf hl rfl (hself _ _) rfl rfl rfl rfl (hok _ (hself _ _)) rfl (fun _ => rfl)
      (by simp) (fun _ => by cases g <;> simp only [Line.todo] <;> omega) fun _ => rfl
  | waited g =>
    rw [hl] at hsucc
    cases g with
    | item | me =>
      simp only [hl] at h
      obtain rfl := checkRet_fine hsucc h
      exact .next hf hl rfl (hself _ _) rfl rfl rfl rfl trivial rfl
        (by simp [Thread.at, Line.inLoop]) (by simp [Thread.at])
        (fun _ => by simp only [Thread.at, Line.todo]; omega) fun _ => rfl
  | readIndex =>
    simp only [hl] at h
    obtain rfl := Except.ok.inj h
    exact .next hf hl rfl (hself _ _) rfl rfl rfl rfl trivial rfl (by simp [Line.inLoop])
      (by simp) (fun _ => by simp only [Line.todo]; omega) fun _ => rfl
  | store =>
    simp only [hl] at h
    obtain rfl := Except.ok.inj h
    refine .goes (th.at .advance) (hself _ _) rfl ⟨fun u hu => ?_, trivial, by simp [Thread.at],
      fun _ => hf.inLoop (by rw [hl]; rfl)⟩ ?_ ?_ fun r hr => ?_
    · refine hf.fds u ?_
      rw [hl]
      exact hu
    · simp only [Thread.todo, Line.todo, Thread.at, hl]
      omega
    · simp only [Thread.left, Line.left, Thread.at, hl, World.setThread_slots, Function.update_self,
        List.length_append, List.length_singleton]
      push_cast
      omega
    · simp [hr]
  | advance =>
    simp only [hl] at h
    obtain rfl := Except.ok.inj h
    exact .next hf hl rfl (hself _ _) rfl rfl rfl rfl trivial rfl (by simp [Line.inLoop])
      (by simp) (fun _ => rfl) fun _ => rfl
  | writeIndex =>
    simp only [hl] at h
    obtain rfl := Except.ok.inj h
    exact .next hf hl rfl (hself _ _) rfl rfl rfl rfl trivial rfl (by simp [Thread.at, Line.inLoop])
      (by simp [Thread.at]) (fun _ => by simp only [Thread.at, Line.todo]; omega) fun _ => rfl
  | post g =>
    simp only [hl] at h
    obtain ⟨k, -, rfl⟩ := call_ok h
    exact .next hf hl rfl (hself _ _) rfl rfl rfl rfl (hok _ (hself _ _)) rfl (fun _ => rfl)
      (by simp) (fun _ => by cases g <;> simp only [Line.todo] <;> omega) fun _ => rfl
  | posted g =>
    rw [hl] at hsucc
    cases g with
    | item =>
      simp only [hl] at h
      obtain rfl := checkRet_fine (by exact hsucc) h
      obtain ⟨h0, hlt⟩ := hf.inLoop (by rw [hl]; rfl)
      have hi : toInt (th.i + 1) = th.i + 1 := by
        unfold iterations at hlt
        exact toInt_of_mem (by omega) (by omega)
      refine .stays (hself _ _) rfl rfl ⟨fun u hu => ?_, trivial, fun _ => ?_, ?_⟩ ?_ ?_
      · refine hf.fds u ?_
        rw [hl]
        exact hu
      · simp only [Thread.at, hi]
        omega
      · simp [Thread.at, Line.inLoop]
      · simp only [Thread.todo, Line.todo, Thread.at, hl, hi]
        omega
      · simp only [Thread.left, Line.left, Thread.at, hl, hi]
        omega
    | me =>
      simp only [hl] at h
      obtain rfl := checkRet_fine hsucc h
      exact .next hf hl rfl (hself _ _) rfl rfl rfl rfl trivial rfl
        (by simp [Thread.at, Line.inLoop]) (by simp [Thread.at])
        (fun _ => by simp only [Thread.at, Line.todo]; omega) fun _ => rfl
  | close v =>
    simp only [hl] at h
    obtain ⟨k, -, rfl⟩ := call_ok h
    exact .next hf hl rfl (hself _ _) rfl rfl rfl rfl (hok _ (hself _ _)) rfl
      (by simp [Line.inLoop]) (by simp) (fun _ => by cases v <;> simp only [Line.todo] <;> omega)
      fun _ => rfl
  | closed v =>
    rw [hl] at hsucc
    cases v with
    | fill | empty | me =>
      simp only [hl] at h
      obtain rfl := checkRet_fine hsucc h
      exact .next hf hl rfl (hself _ _) rfl rfl rfl rfl trivial rfl
        (by simp [Thread.at, Line.inLoop]) (by simp [Thread.at])
        (fun _ => by simp only [Thread.at, Line.todo]; omega) fun _ => rfl
  | exit =>
    simp only [hl] at h
    obtain ⟨k, -, h⟩ := bind_ok.mp h
    obtain rfl := Except.ok.inj h
    exact .ends hl (hself _ _) rfl

/-! ### All processes -/

/-- How many slots the process has still to use, if it is of role `r`. -/
def leftOf (r : Role) : Option Thread → ℤ
  | none => 0
  | some th => if th.role = r then th.left else 0

def todoOf : Option Thread → ℤ
  | none => 0
  | some th => th.todo

namespace World

def sum (w : World) (f : Option Thread → ℤ) : ℤ :=
  ∑ p ∈ Finset.range maxNumProcesses, f (w.thread p)

/-- How many slots the processes of role `r` have still to use. -/
def left (w : World) (r : Role) : ℤ := w.sum (leftOf r)

/-- How many lines the processes have still to carry out. -/
def todo (w : World) : ℤ := w.sum todoOf

theorem sum_eq (f : Option Thread → ℤ) (hp : p < maxNumProcesses)
    (hthread : ∀ q, q ≠ p → w'.thread q = w.thread q) :
    w'.sum f + f (w.thread p) = w.sum f + f (w'.thread p) := by
  have hmem : p ∈ Finset.range maxNumProcesses := Finset.mem_range.mpr hp
  have hrest : ∑ q ∈ (Finset.range maxNumProcesses).erase p, f (w'.thread q) =
      ∑ q ∈ (Finset.range maxNumProcesses).erase p, f (w.thread q) :=
    Finset.sum_congr rfl fun q hq => by rw [hthread q (Finset.ne_of_mem_erase hq)]
  rw [sum, sum, ← Finset.sum_erase_add _ _ hmem, ← Finset.sum_erase_add _ _ hmem, hrest]
  omega

theorem sum_eq_zero {f : Option Thread → ℤ} (h : ∀ b, f (w.thread b) = 0) : w.sum f = 0 :=
  Finset.sum_eq_zero fun b _ => h b

theorem sum_nonneg {f : Option Thread → ℤ} (h : ∀ b, 0 ≤ f (w.thread b)) : 0 ≤ w.sum f :=
  Finset.sum_nonneg fun b _ => h b

theorem le_sum {f : Option Thread → ℤ} (h : ∀ b, 0 ≤ f (w.thread b)) (hb : b < maxNumProcesses) :
    f (w.thread b) ≤ w.sum f := by
  have hle : ∀ N, b < N → f (w.thread b) ≤ ∑ p ∈ Finset.range N, f (w.thread p) := fun N hN =>
    Finset.single_le_sum (f := fun p => f (w.thread p)) (fun p _ => h p) (Finset.mem_range.mpr hN)
  exact hle maxNumProcesses hb

end World

/-- Every process that has been spawned uses a slot in each iteration and carries out all of its
lines. -/
structure ProgressInv (w : World) (n : Work) : Prop where
  fine : ∀ p th, w.thread p = some th → th.Fine
  slots : ∀ r, (w.slots r).length + w.left r = iterations * n.spawned r
  lines : n.lines + w.todo = linesOfProcess * (n.spawned .prod + n.spawned .cons)
  own : ∀ b, n.own b + todoOf (w.thread b) = linesOfProcess ∨ w.thread b = none ∧ n.own b = 0

theorem CallsSucceed.succeeded (h : CallsSucceed w move) (hs : w.step move = .ok w')
    (hp : w.kernel.running = some p) (hth : w'.thread p = some th) : th.Succeeded := by
  refine h.2 w' ?_ p hp th hth
  rw [hs]
  rfl

/-- A line of the process `p` is one of its own. -/
theorem Ran.others (h : Ran w w' p th) (hq : q ≠ p) : w'.thread q = w.thread q := by
  cases h with
  | goesOn th' goes result => exact result ▸ World.setThread_of_ne _ _ hq
  | stores line result => exact result ▸ World.setThread_of_ne _ _ hq
  | writes line result => exact result ▸ World.setThread_of_ne _ _ hq
  | exits k line step result => exact result ▸ World.setThread_of_ne _ _ hq
  | opens v k th' line step thread result => exact result ▸ World.setThread_of_ne _ _ hq
  | waits g k th' line step thread result => exact result ▸ World.setThread_of_ne _ _ hq
  | posts g k ret line step result => exact result ▸ World.setThread_of_ne _ _ hq
  | closes v k ret line step result => exact result ▸ World.setThread_of_ne _ _ hq

/-- The block that a spawn puts behind the ready ones is new. -/
theorem WorldInv.spawn_creates {k : Kernel} {args : List ℤ} (h : WorldInv w)
    (hp : w.kernel.running = some p)
    (hs : kernel.step w.kernel (.syscall dsosCallSpawn args) = .ok k)
    (hlast : (k.procs .ready).items.getLast? = some b) : w.thread b = none ∧
      ∃ q cpu, NewChild (enterSyscall w.kernel p dsosCallSpawn args) k p b q cpu := by
  have hrun : runHandler .spawn (enterSyscall w.kernel p dsosCallSpawn args) = .ok k :=
    (step_handler hp).symm.trans hs
  have hproc : ProcInv (enterSyscall w.kernel p dsosCallSpawn args) := h.kernelInv.proc.enter
  have hp' : (enterSyscall w.kernel p dsosCallSpawn args).running = some p := hp
  obtain ⟨b', q, hc⟩ := internalSpawn_ok hp' (hproc.inUse_of_running hp') hrun
  rw [hc.procs, if_pos rfl] at hlast
  obtain rfl : b' = b := by simpa using hlast
  refine ⟨?_, q, _, hc⟩
  cases hth : w.thread b' with
  | none => rfl
  | some th => exact absurd (h.threads b' th hth).alive.1 hc.fresh

namespace ProgressInv

/-- A move that no process makes. -/
theorem same (h : ProgressInv w n) (hthread : w'.thread = w.thread) (hslots : w'.slots = w.slots) :
    ProgressInv w' n := by
  refine ⟨fun p th hp => h.fine p th (hthread ▸ hp), fun r => ?_, ?_, ?_⟩
  · rw [hslots, World.left, World.sum, hthread]
    exact h.slots r
  · rw [World.todo, World.sum, hthread]
    exact h.lines
  · rw [hthread]
    exact h.own

theorem spawns (h : ProgressInv w n) (hb : w.thread b = none) (hlt : b < maxNumProcesses)
    (hthread : ∀ q, q ≠ b → w'.thread q = w.thread q) (hnew : w'.thread b = some (newThread r))
    (hslots : w'.slots = w.slots) (hlast : (w'.kernel.procs .ready).items.getLast? = some b) :
    ProgressInv w' (recordWork w (.spawn r) w' n) := by
  have hsum := fun f => @World.sum_eq w w' b f hlt hthread
  simp only [hb, hnew] at hsum
  refine ⟨fun q th hq => ?_, fun r' => ?_, ?_, fun q => ?_⟩
  · by_cases hqb : q = b
    · subst hqb
      obtain rfl := Option.some.inj (hnew.symm.trans hq)
      exact ⟨fun v hv => absurd hv List.not_mem_nil, trivial, by simp [newThread],
        by simp [newThread, Line.inLoop]⟩
    · exact h.fine q th ((hthread q hqb).symm.trans hq)
  · have hleft := hsum (leftOf r')
    have htotal := h.slots r'
    rw [hslots, World.left, recordWork]
    rw [World.left] at htotal
    by_cases hr : r = r'
    · subst hr
      simp only [leftOf, newThread, if_true, Thread.left, Line.left,
        Function.update_self] at hleft ⊢
      push_cast
      rw [mul_add]
      omega
    · simp only [leftOf, newThread, hr, if_false] at hleft
      simp only [Function.update_of_ne (Ne.symm hr)]
      omega
  · have htodo := hsum todoOf
    have hlines := h.lines
    rw [World.todo, recordWork]
    rw [World.todo] at hlines
    simp only [todoOf, newThread, Thread.todo, Line.todo] at htodo
    cases r with
    | prod | cons =>
      simp only [Function.update_self, Function.update_of_ne (show Role.prod ≠ .cons by decide),
        Function.update_of_ne (show Role.cons ≠ .prod by decide)]
      push_cast
      unfold linesOfProcess at *
      omega
  · simp only [recordWork, hlast, Option.elim_some]
    by_cases hqb : q = b
    · subst hqb
      left
      simp [hnew, todoOf, newThread, Thread.todo, Line.todo]
    · rw [hthread q hqb, Function.update_of_ne hqb]
      exact h.own q

/-- A line is one more of the process `p`, and one less that it has to carry out. -/
theorem runs_own {fails : Bool} (h : ProgressInv w n) (hrun : w.kernel.running = some p)
    (hth : w.thread p = some th) (hthread : ∀ q, q ≠ p → w'.thread q = w.thread q)
    (htodo : todoOf (w'.thread p) + 1 = th.todo) (q : ℕ) :
    (recordWork w (.run fails) w' n).own q + todoOf (w'.thread q) = linesOfProcess ∨
      w'.thread q = none ∧ (recordWork w (.run fails) w' n).own q = 0 := by
  simp only [recordWork, hrun, Option.elim_some]
  by_cases hqp : q = p
  · subst hqp
    left
    have hown := (h.own q).resolve_right fun hnone => by cases hth.symm.trans hnone.1
    rw [hth, todoOf] at hown
    rw [Function.update_self]
    push_cast
    omega
  · rw [hthread q hqp, Function.update_of_ne hqp]
    exact h.own q

theorem runs {fails : Bool} (h : ProgressInv w n) (hlt : p < maxNumProcesses)
    (hrun : w.kernel.running = some p) (hth : w.thread p = some th) (hthread : ∀ q, q ≠ p → w'.thread q = w.thread q)
    (hp : Progress w w' p th) : ProgressInv w' (recordWork w (.run fails) w' n) := by
  have hold : ∀ q, q ≠ p → ∀ tq, w'.thread q = some tq → tq.Fine := fun q hq tq htq =>
    h.fine q tq ((hthread q hq).symm.trans htq)
  have hsum := fun f => @World.sum_eq w w' p f hlt hthread
  have hlines := h.lines
  rw [World.todo] at hlines
  cases hp with
  | ends line thread slots =>
    simp only [hth, thread] at hsum
    refine ⟨fun q tq hq => ?_, fun r => ?_, ?_, h.runs_own hrun hth hthread ?_⟩
    · by_cases hqp : q = p
      · subst hqp
        cases thread.symm.trans hq
      · exact hold q hqp tq hq
    · have hl := hsum (leftOf r)
      have htotal := h.slots r
      rw [World.left] at htotal
      simp only [leftOf, Thread.left, Line.left, line, ite_self] at hl
      rw [slots, World.left]
      simp only [recordWork]
      omega
    · have ht := hsum todoOf
      simp only [todoOf, Thread.todo, Line.todo, line] at ht
      rw [World.todo, recordWork]
      push_cast
      omega
    · rw [thread, todoOf, Thread.todo, line]
      rfl
  | goes th' thread role fine lines own others =>
    simp only [hth, thread] at hsum
    refine ⟨fun q tq hq => ?_, fun r => ?_, ?_, h.runs_own hrun hth hthread ?_⟩
    · by_cases hqp : q = p
      · subst hqp
        obtain rfl := Option.some.inj (thread.symm.trans hq)
        exact fine
      · exact hold q hqp tq hq
    · have hl := hsum (leftOf r)
      have htotal := h.slots r
      rw [World.left] at htotal
      rw [World.left]
      simp only [recordWork]
      by_cases hr : r = th.role
      · subst hr
        simp only [leftOf, role, if_true] at hl
        omega
      · simp only [leftOf, role, Ne.symm hr, if_false] at hl
        rw [others r hr]
        omega
    · have ht := hsum todoOf
      simp only [todoOf] at ht
      rw [World.todo, recordWork]
      push_cast
      omega
    · rw [thread, todoOf, lines]

theorem step (h : ProgressInv w n) (hw : WorldInv w) (hok : CallsSucceed w move)
    (hs : w.step move = .ok w') : ProgressInv w' (recordWork w move w' n) := by
  cases move with
  | tick =>
    obtain ⟨k, -, hs⟩ := bind_ok.mp hs
    obtain rfl := Except.ok.inj hs
    exact h.same rfl rfl
  | wait =>
    simp only [World.step] at hs
    split_ifs at hs
    obtain ⟨k, -, hs⟩ := bind_ok.mp hs
    obtain rfl := Except.ok.inj hs
    exact h.same rfl rfl
  | spawn r =>
    have hw' := hw.step hs
    simp only [World.step] at hs
    split_ifs at hs with hf
    obtain ⟨p, hp⟩ := Option.ne_none_iff_exists'.mp hf.1
    obtain ⟨k, hk, hs⟩ := bind_ok.mp hs
    split at hs
    · cases hs
    rename_i b hb
    obtain rfl := Except.ok.inj hs
    obtain ⟨hnone, -⟩ := hw.spawn_creates hp (enterKernel_ok hk) hb
    exact h.spawns hnone (hw'.thread_lt (World.setThread_self _ b _))
      (fun q hq => World.setThread_of_ne _ _ hq) (World.setThread_self _ b _) rfl hb
  | run fails =>
    cases fails with
    | true => exact absurd rfl hok.1
    | false =>
      have hsucc := fun p th => @CallsSucceed.succeeded w w' p th (.run false) hok hs
      simp only [World.step] at hs
      split at hs
      · cases hs
      rename_i p hp
      split at hs
      · cases hs
      rename_i th hth
      exact h.runs (hw.thread_lt hth) hp hth (fun q hq => (runLine_ran hs).others hq)
        (runLine_progress (h.fine p th hth) hs fun th' hth' => hsucc p th' hp hth')

theorem start : ProgressInv World.start ⟨fun _ => 0, 0, fun _ => 0⟩ := by
  have hzero : ∀ f, f none = 0 → World.start.sum f = 0 := fun f hf => World.sum_eq_zero fun _ => hf
  refine ⟨fun p th hth => ?_, fun r => ?_, ?_, fun b => Or.inr ⟨rfl, rfl⟩⟩
  · cases hth
  · rw [World.left, hzero _ rfl]
    rfl
  · rw [World.todo, hzero _ rfl]
    rfl

end ProgressInv

end DisastrOS
