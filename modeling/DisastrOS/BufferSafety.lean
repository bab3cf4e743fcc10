import DisastrOS.ThreadDescriptors
import DisastrOS.BufferSlots

/-! The producers and the consumers of the tests, any number of them: who is in the critical
section, and which slots are used. -/
namespace DisastrOS
open BlockPool TransitionSystem

variable {k k' : Kernel} {w w' : World} {p q b f x : ℕ} {th th' : Thread} {r : Role} {g : Gate}
  {v : FdName} {act : Action} {args : List ℤ}

/-- The slots with an item are those that have been stored into once more than cleared. -/
def World.Tracked (w : World) : Prop :=
  ∀ n, (w.slots .prod).count n = (w.slots .cons).count n + (w.full n).toNat

structure WorldInv (w : World) : Prop where
  kernelReachable : kernel.ReachableBy CountsFit w.kernel
  father : ∃ f, FatherOpen w.kernel f
  threads : ∀ p th, w.thread p = some th → ThreadInv w.kernel p th
  balanced : w.Balanced
  indexed : ∀ r, w.Indexed r
  tracked : w.Tracked

open World

theorem count_stored (w : World) (p : ℕ) (th : Thread) (r : Role) (n : ℤ) :
    ((w.stored p th).slots r).count n =
      (w.slots r).count n + if r = th.role ∧ n = th.n then 1 else 0 := by
  by_cases hr : r = th.role
  · subst hr
    have hsingle : [th.n].count n = if n = th.n then 1 else 0 := by
      simp only [List.count_singleton, beq_iff_eq, @eq_comm ℤ th.n n]
    simp [stored, List.count_append, hsingle]
  · simp [stored, hr]

theorem full_stored (w : World) (p : ℕ) (th : Thread) (n : ℤ) : (w.stored p th).full n =
    if n = th.n then decide (th.role = .prod) else w.full n := Function.update_apply _ _ _ _

namespace WorldInv

theorem kernelInv (h : WorldInv w) : KernelInv w.kernel := .reachable h.kernelReachable.reachable

theorem lt (h : WorldInv w) (hp : Alive w.kernel p) : p < maxNumProcesses :=
  inUse_lt h.kernelReachable.reachable hp.1

theorem thread_lt (h : WorldInv w) (hth : w.thread p = some th) : p < maxNumProcesses :=
  h.lt (h.threads p th hth).alive

/-- What an action of the kernel leaves to the processes that it does not disturb. -/
structure KernelGoes (w : World) (k : Kernel) (p : ℕ) : Prop where
  reachable : kernel.ReachableBy CountsFit k
  father : ∃ f, FatherOpen k f
  initPcb : k.initPcb = w.kernel.initPcb
  others : ∀ q th, q ≠ p → w.thread q = some th → ThreadInv k q th

/-- A call of the process `p`. -/
theorem kernelGoes (h : WorldInv w) (hp : w.kernel.running = some p) (hth : w.thread p = some th)
    (hs : kernel.step w.kernel act = .ok k) (hfit : CountsFit w.kernel act) :
    KernelGoes w k p := by
  have hruns : w.kernel.running ≠ none := by simp [hp]
  have hinit := step_initPcb h.kernelInv hs hruns
  refine ⟨h.kernelReachable.step hfit hs, ?_, hinit, fun q tq hq htq => ?_⟩
  · obtain ⟨f, hf⟩ := h.father
    refine ⟨f, hf.step h.kernelInv hs hruns fun hrun => ?_⟩
    obtain rfl : p = f := Option.some.inj (hp.symm.trans hrun)
    exact absurd hf.init (h.threads p th hth).child
  · have hthread := h.threads q tq htq
    refine hthread.untouched (step_untouched h.kernelInv hs hthread.alive fun hrun => ?_) hinit
    exact absurd (Option.some.inj (hrun.symm.trans hp)) hq

/-- A step after which the slots are the same. -/
theorem goes (h : WorldInv w) (hgoes : KernelGoes w w'.kernel p)
    (hthread : ∀ q, q ≠ p → w'.thread q = w.thread q) (hslots : w'.slots = w.slots)
    (hfull : w'.full = w.full) (hown : ∀ th, w'.thread p = some th → ThreadInv w'.kernel p th)
    (hbalanced : w'.Balanced) (hindexed : ∀ r, w'.Indexed r) : WorldInv w' where
  kernelReachable := hgoes.reachable
  father := hgoes.father
  threads q th hq := by
    by_cases hqp : q = p
    · subst hqp
      exact hown th hq
    · exact hgoes.others q th hqp ((hthread q hqp).symm.trans hq)
  balanced := hbalanced
  indexed := hindexed
  tracked n := by
    rw [hslots, hfull]
    exact h.tracked n

theorem stays (h : WorldInv w) (p : ℕ) : KernelGoes w w.kernel p :=
  ⟨h.kernelReachable, h.father, rfl, fun q th _ hq => h.threads q th hq⟩

/-- An action that neither opens nor closes a semaphore, nor ends a process. -/
theorem keeps (h : WorldInv w) (hs : kernel.step w.kernel act = .ok k)
    (hcall : act ≠ .returnToProcess) (hfit : CountsFit w.kernel act) (hkeeps : act.Keeps) (p : ℕ) :
    KernelGoes w k p ∧ ∀ q th, w.thread q = some th → ThreadInv k q th := by
  have hruns := running_of_step hs hcall
  have hinit := step_initPcb h.kernelInv hs hruns
  have hall : ∀ q th, w.thread q = some th → ThreadInv k q th := fun q th hq => by
    have hthread := h.threads q th hq
    exact hthread.untouched (step_untouched h.kernelInv hs hthread.alive fun _ => hkeeps) hinit
  obtain ⟨f, hf⟩ := h.father
  exact ⟨⟨h.kernelReachable.step hfit hs, ⟨f, hf.step h.kernelInv hs hruns fun _ => hkeeps⟩,
    hinit, fun q th _ hq => hall q th hq⟩, hall⟩

/-- Nobody else of its role is where the process `p` is. -/
theorem excl (h : WorldInv w) (hth : w.thread p = some th) (hholds : th.line.holds .me = true) :
    ∀ q tq, w.thread q = some tq → tq.role = th.role → tq.line.holds .me = true → q = p :=
  fun _ _ hq hr hholds' => h.balanced.exclusive (h.thread_lt hth) (h.thread_lt hq) hth hq hr
    (Or.inl hholds) (Or.inl hholds')

/-! ### The lines that are not calls -/

theorem goesOn (h : WorldInv w) (hp : w.kernel.running = some p) (hth : w.thread p = some th)
    (hgoes : GoesOn w th th') : WorldInv (w.setThread p (some th')) := by
  have hthread : ∀ q, q ≠ p → (w.setThread p (some th')).thread q = w.thread q := fun q hq =>
    setThread_of_ne w _ hq
  refine h.goes (h.stays p) hthread rfl rfl (fun tq hq => ?_) ?_ fun r =>
    (h.indexed r).goesOn hth hgoes
  · obtain rfl : th' = tq := Option.some.inj ((setThread_self w p _).symm.trans hq)
    exact (h.threads p th hth).goesOn hgoes
  · refine h.balanced.calm (h.thread_lt hth) rfl (fun r g => .of_sems rfl _) hthread fun r g => ?_
    rw [setThread_self, hth]
    exact tokens_goesOn hgoes fun r g => running_not_waiter h.kernelInv hp _

/-- What the process `p` is to use has been used as often by the producers as by the consumers, or
once more. -/
theorem count_slot (h : WorldInv w) (hth : w.thread p = some th) (hline : th.line = .store) :
    (w.slots .prod).count th.n = (w.slots .cons).count th.n + (decide (th.role = .cons)).toNat := by
  have hn := (h.indexed th.role).slot_eq hth hline (h.excl hth (by rw [hline]; rfl))
  have hroom := h.balanced.room (h.thread_lt hth) hth hline
  have hlengths := h.balanced.lengths
  rw [(h.indexed .prod).slots, (h.indexed .cons).slots, hn]
  cases hr : th.role with
  | prod =>
    simp only [hr, Role.other, if_true] at hroom
    rw [count_circular, count_circular, CircularBuffer.count_eq hlengths.1 hroom]
    rfl
  | cons =>
    simp only [hr, Role.other, reduceCtorEq, if_false, add_zero] at hroom
    rw [count_circular, count_circular, CircularBuffer.count_eq_succ hroom hlengths.2]
    rfl

/-- A producer finds the slot empty, and a consumer finds it full. -/
theorem full_slot (h : WorldInv w) (hth : w.thread p = some th) (hline : th.line = .store) :
    w.full th.n = decide (th.role = .cons) := by
  have hcount := h.count_slot hth hline
  have htracked := h.tracked th.n
  have hnat : (w.full th.n).toNat = (decide (th.role = .cons)).toNat := by omega
  revert hnat
  cases w.full th.n <;> cases decide (th.role = Role.cons) <;> decide

theorem stores (h : WorldInv w) (hth : w.thread p = some th) (hline : th.line = .store) :
    WorldInv ((w.stored p th).setThread p (some (th.at .advance))) where
  kernelReachable := h.kernelReachable
  father := h.father
  threads q tq hq := by
    by_cases hqp : q = p
    · subst hqp
      obtain rfl := Option.some.inj ((setThread_self _ q _).symm.trans hq)
      refine (h.threads q th hth).goes rfl rfl fun _ => ?_
      rw [hline]
      exact ⟨rfl, rfl⟩
    · exact h.threads q tq ((setThread_of_ne _ _ hqp).symm.trans hq)
  balanced := h.balanced.stores (h.thread_lt hth) hth hline
  indexed r := by
    by_cases hr : th.role = r
    · subst hr
      exact (h.indexed _).stores hth hline (h.excl hth (by rw [hline]; rfl))
    · refine (h.indexed r).calm (index_cBuffer r _ _) ?_ (fun q hq => setThread_of_ne _ _ hq) ?_ ?_
      · exact Function.update_of_ne (Ne.symm hr) _ _
      · intro tq hq hrole
        exact absurd (Option.some.inj (hth.symm.trans hq) ▸ hrole) hr
      · intro tq hq hrole
        obtain rfl := Option.some.inj ((setThread_self _ p _).symm.trans hq)
        exact absurd hrole hr
  tracked n := by
    have htracked := h.tracked n
    rw [setThread_slots, setThread_full, count_stored, count_stored, full_stored]
    by_cases hn : n = th.n
    · subst hn
      rw [h.full_slot hth hline] at htracked
      cases hr : th.role <;> simp [hr] at htracked ⊢ <;> omega
    · simp [hn, htracked]

theorem writes (h : WorldInv w) (hth : w.thread p = some th) (hline : th.line = .writeIndex) :
    WorldInv ((w.indexed th).setThread p (some (th.at (.post .me)))) := by
  have hthread : ∀ q, q ≠ p →
      ((w.indexed th).setThread p (some (th.at (.post .me)))).thread q = w.thread q := fun q hq =>
    setThread_of_ne _ _ hq
  refine h.goes (h.stays p) hthread rfl rfl (fun tq hq => ?_) ?_ fun r => ?_
  · obtain rfl := Option.some.inj ((setThread_self _ p _).symm.trans hq)
    refine (h.threads p th hth).goes rfl rfl fun _ => ?_
    rw [hline]
    exact ⟨rfl, rfl⟩
  · refine h.balanced.calm (h.thread_lt hth) rfl (fun r g => .of_sems rfl _) hthread fun r g => ?_
    rw [setThread_self, hth, tokens_line (by simp [Thread.at]), tokens_line (by simp [hline])]
    rw [hline]
    cases g <;> exact le_rfl
  · by_cases hr : th.role = r
    · subst hr
      exact (h.indexed _).writes hth hline (h.excl hth (by rw [hline]; rfl))
    · refine (h.indexed r).calm (index_setIndex_of_ne (Ne.symm hr) _ _) rfl
        (fun q hq => setThread_of_ne _ _ hq) ?_ ?_
      · intro tq hq hrole
        exact absurd (Option.some.inj (hth.symm.trans hq) ▸ hrole) hr
      · intro tq hq hrole
        obtain rfl := Option.some.inj ((setThread_self _ p _).symm.trans hq)
        exact absurd hrole hr

/-! ### The calls -/

/-- The process `p` calls the kernel; after the call it is not in the critical section. -/
theorem calls {o : Option Thread} (h : WorldInv w) (hp : w.kernel.running = some p)
    (hth : w.thread p = some th) (hs : kernel.step w.kernel act = .ok k)
    (hfit : CountsFit w.kernel act) (hupdates : th.line.updates = false)
    (hown : ∀ tq, o = some tq → ThreadInv k p tq ∧ tq.line.holds .me = false)
    (hbalanced : ((w.entered k).setThread p o).Balanced) :
    WorldInv ((w.entered k).setThread p o) := by
  refine h.goes (h.kernelGoes hp hth hs hfit) (fun q hq => setThread_of_ne _ _ hq) rfl rfl
    (fun tq hq => ?_) hbalanced fun r => ?_
  · exact (hown tq ((setThread_self _ p o).symm.trans hq)).1
  · refine (h.indexed r).calm rfl rfl (fun q hq => setThread_of_ne _ _ hq) ?_ ?_
    · intro tq hq _
      obtain rfl := Option.some.inj (hth.symm.trans hq)
      exact hupdates
    · intro tq hq _
      exact Or.inl (hown tq ((setThread_self _ p o).symm.trans hq)).2

/-- A call that neither waits nor posts gives nobody a token. -/
theorem balanced_calls {o : Option Thread} (h : WorldInv w) (hth : w.thread p = some th)
    (hs : kernel.step w.kernel act = .ok k) (hwait : ∀ x p, semEvent w.kernel act ≠ .wait x p)
    (hpost : ∀ x, semEvent w.kernel act ≠ .post x)
    (htokens : ∀ r g, tokens w.kernel r g p o ≤ tokens w.kernel r g p (some th)) :
    ((w.entered k).setThread p o).Balanced := by
  obtain ⟨f, hf⟩ := h.father
  refine h.balanced.calm (h.thread_lt hth) rfl (hf.calm h.kernelInv hs hwait hpost)
    (fun q hq => setThread_of_ne _ _ hq) fun r g => ?_
  rw [setThread_self, hth]
  exact htokens r g

theorem exits (h : WorldInv w) (hp : w.kernel.running = some p) (hth : w.thread p = some th)
    (hupdates : th.line.updates = false)
    (hs : kernel.step w.kernel (.syscall dsosCallExit args) = .ok k) :
    WorldInv ((w.entered k).setThread p none) := by
  have hpost : ∀ x, semEvent w.kernel (.syscall dsosCallExit args) ≠ .post x := fun _ =>
    semEvent_ne_post fun _ => syscall_ne (by decide)
  refine h.calls hp hth hs (countsFit_of_ne (fun _ => syscall_ne (by decide)) hpost) hupdates
    (fun tq hq => ?_) ?_
  · cases hq
  · exact h.balanced_calls hth hs
      (fun _ _ => semEvent_ne_wait fun _ => syscall_ne (by decide)) hpost fun r g => Nat.zero_le _

theorem closes {ret : Option ℤ} (h : WorldInv w) (hp : w.kernel.running = some p)
    (hth : w.thread p = some th) (hline : th.line = .close v)
    (hs : kernel.step w.kernel (.syscall dsosCallSemclose args) = .ok k) :
    WorldInv ((w.entered k).setThread p (some { th with ret := ret, line := .closed v })) := by
  have hpost : ∀ x, semEvent w.kernel (.syscall dsosCallSemclose args) ≠ .post x := fun _ =>
    semEvent_ne_post fun _ => syscall_ne (by decide)
  refine h.calls hp hth hs (countsFit_of_ne (fun _ => syscall_ne (by decide)) hpost)
    (by rw [hline]; rfl) (fun tq hq => ?_) ?_
  · obtain rfl := Option.some.inj hq
    have hthread := h.threads p th hth
    refine ⟨⟨?_, ?_, fun hw => ?_, fun hw => ?_, fun hw => ?_⟩, rfl⟩
    · rcases step_alive h.kernelInv hs hthread.alive with ha | ⟨-, args, he⟩
      · exact ha
      · exact absurd he (syscall_ne (by decide))
    · rw [step_initPcb h.kernelInv hs (by simp [hp])]
      exact hthread.child
    all_goals cases hw
  · refine h.balanced_calls hth hs
      (fun _ _ => semEvent_ne_wait fun _ => syscall_ne (by decide)) hpost fun r g => ?_
    rw [tokens_line (by simp), tokens_line (by simp [hline]), hline]
    cases g <;> exact le_rfl

theorem opens (h : WorldInv w) (hp : w.kernel.running = some p) (hth : w.thread p = some th)
    (hline : th.line = .opening v)
    (hs : kernel.step w.kernel (.syscall dsosCallSemopen (th.role.function.openArgs v)) = .ok k) :
    WorldInv ((w.entered k).setThread p (some { th with
      fd := Function.update th.fd v (k.pcb p).syscallRetvalue, line := .opened v })) := by
  have hthread := h.threads p th hth
  obtain ⟨f, hf⟩ := h.father
  have hx := hf.byId h.kernelInv (fdName_sem_lt v th.role)
  rw [← openArgs_sem] at hx
  have hev : semEvent w.kernel (.syscall dsosCallSemopen (th.role.function.openArgs v)) = .none :=
    semEvent_reopen hp hx
  have hworks : th.line.works = true := by rw [hline]; rfl
  have hfew := hthread.few hworks
  have hopens := step_semOpen_known h.kernelInv hp hx (hthread.below hworks)
    (by
      have hle := length_made_le th.line
      omega) hs
  refine h.calls hp hth hs (by rw [CountsFit, hev]; trivial) (by rw [hline]; rfl)
    (fun tq hq => ?_) ?_
  · obtain rfl := Option.some.inj hq
    refine ⟨hthread.opens hline ?_ (step_initPcb h.kernelInv hs (by simp [hp])) hopens, rfl⟩
    rcases step_alive h.kernelInv hs hthread.alive with ha | ⟨-, args, he⟩
    · exact ha
    · exact absurd he (syscall_ne (by decide))
  · refine h.balanced_calls hth hs (by simp [hev]) (by simp [hev]) fun r g => ?_
    rw [tokens_line (by simp), tokens_line (by simp [hline]), hline]
    cases g <;> exact le_rfl

/-- A wait or a post changes nothing of its process but its line and its result. -/
theorem called_thread (h : WorldInv w) (th' : Thread) (hth : w.thread p = some th)
    (hs : kernel.step w.kernel act = .ok k) (hcall : act ≠ .returnToProcess)
    (hfit : CountsFit w.kernel act) (hkeeps : act.Keeps)
    (hrole : th'.role = th.role) (hfd : th'.fd = th.fd)
    (hline : th.line.works = true ∧ th'.line.made = th.line.made)
    (hholds : th'.line.holds .me = false) :
    ∀ tq, some th' = some tq → ThreadInv k p tq ∧ tq.line.holds .me = false := by
  intro tq hq
  obtain rfl := Option.some.inj hq
  exact ⟨((h.keeps hs hcall hfit hkeeps p).2 p th hth).goes hrole hfd fun _ => hline, hholds⟩

theorem waits (h : WorldInv w) (hp : w.kernel.running = some p) (hth : w.thread p = some th)
    (hline : th.line = .wait g) (hargs : args.getD 0 0 = th.fd (th.role.function.waitFd g))
    (hs : kernel.step w.kernel (.syscall dsosCallSemwait args) = .ok k)
    (hth' : th' = { th with
      ret := if k.running = some p then some (k.pcb p).syscallRetvalue else none
      line := .waited g }) : WorldInv ((w.entered k).setThread p (some th')) := by
  have hthread := h.threads p th hth
  have hworks : th.line.works = true := by rw [hline]; rfl
  have hmade : th.role.function.waitFd g ∈ th.line.made := by
    rw [hline]
    cases g <;> cases th.role <;> decide
  have hrole : th'.role = th.role := by rw [hth']
  have hline' : th'.line = .waited g := by rw [hth']
  have hpost : ∀ x, semEvent w.kernel (.syscall dsosCallSemwait args) ≠ .post x := fun _ =>
    semEvent_ne_post fun _ => syscall_ne (by decide)
  have hfit := countsFit_of_ne (fun _ => syscall_ne (by decide)) hpost
  have hown := h.called_thread th' hth hs nofun hfit
    (fun _ => ⟨syscall_ne (by decide), syscall_ne (by decide), syscall_ne (by decide)⟩)
    hrole (by rw [hth']) ⟨hworks, by rw [hline, hline']; rfl⟩ (by rw [hline']; cases g <;> rfl)
  refine h.calls hp hth hs hfit (by rw [hline]; rfl) hown ?_
  have hothers : ∀ q, q ≠ p →
      ((w.entered k).setThread p (some th')).thread q = w.thread q := fun q hq =>
    setThread_of_ne _ _ hq
  rcases hthread.called hworks hmade with hx | hnone
  · rw [← hargs] at hx
    have hev : semEvent w.kernel (.syscall dsosCallSemwait args) = .wait (th.role.sem g) p :=
      semEvent_semWait hp hx
    have hstep : SemStep w.kernel k (semEvent w.kernel (.syscall dsosCallSemwait args)) :=
      step_semEvent h.kernelInv hs
    rw [hev] at hstep
    cases hstep with
    | wait _ _ v listed list id hcount queue hwaiters same =>
      obtain ⟨f, hf⟩ := h.father
      refine h.balanced.waits (h.thread_lt hth) rfl hothers hth (setThread_self _ p _) hline hline'
        hrole ?_ ?_ hwaiters
      · exact fun r g' hne => same _ (hf.listed h.kernelInv (fdName_sem_lt _ r)) hne
      · exact hcount.trans ((CountInv.reachableBy h.kernelReachable).wait_count h.kernelInv.sem
          (.reachable h.kernelReachable.reachable) listed)
  · rw [← hargs] at hnone
    have hev := semEvent_unknownWait hp hnone
    obtain ⟨hrun, hret⟩ := step_semWait_unknown hp hnone hs
    refine h.balanced_calls hth hs (by simp [hev]) hpost fun r g' => ?_
    have hnot : ¬ Granted w.kernel p th' g := by
      rintro ⟨-, -, hzero⟩
      rw [hth', if_pos hrun, Option.getD_some, hret] at hzero
      exact absurd hzero (by decide)
    have htokens := @tokens_wait w.kernel w.kernel p th th' r g g' hline hline' hrole
    rwa [if_neg fun hg => hnot hg.2] at htokens

theorem posts {ret : Option ℤ} (h : WorldInv w) (hp : w.kernel.running = some p)
    (hth : w.thread p = some th) (hline : th.line = .post g)
    (hargs : args.getD 0 0 = th.fd (th.role.function.postFd g))
    (hs : kernel.step w.kernel (.syscall dsosCallSempost args) = .ok k)
    (hth' : th' = { th with ret := ret, line := .posted g }) :
    WorldInv ((w.entered k).setThread p (some th')) := by
  have hthread := h.threads p th hth
  have hworks : th.line.works = true := by rw [hline]; rfl
  have hmade : th.role.function.postFd g ∈ th.line.made := by
    rw [hline]
    cases g <;> cases th.role <;> decide
  have hrole : th'.role = th.role := by rw [hth']
  have hline' : th'.line = .posted g := by rw [hth']
  have hwait : ∀ x p, semEvent w.kernel (.syscall dsosCallSempost args) ≠ .wait x p :=
    fun _ _ => semEvent_ne_wait fun _ => syscall_ne (by decide)
  have hothers : ∀ q, q ≠ p →
      ((w.entered k).setThread p (some th')).thread q = w.thread q := fun q hq =>
    setThread_of_ne _ _ hq
  have hcalls : CountsFit w.kernel (.syscall dsosCallSempost args) →
      ((w.entered k).setThread p (some th')).Balanced →
      WorldInv ((w.entered k).setThread p (some th')) := fun hfit hbalanced => by
    have hown := h.called_thread th' hth hs nofun hfit
      (fun _ => ⟨syscall_ne (by decide), syscall_ne (by decide), syscall_ne (by decide)⟩)
      hrole (by rw [hth']) ⟨hworks, by rw [hline, hline']; rfl⟩ (by rw [hline']; cases g <;> rfl)
    exact h.calls hp hth hs hfit (by rw [hline]; rfl) hown hbalanced
  rcases hthread.called hworks hmade with hx | hnone
  · rw [← hargs, postFd_sem] at hx
    have hev : semEvent w.kernel (.syscall dsosCallSempost args) =
      .post ((th.role.lets g).sem g) := semEvent_semPost hp hx
    have hlt : count w.kernel ((th.role.lets g).sem g) < 2 ^ 31 - 1 :=
      h.balanced.count_lt (th.role.lets g) g
    have hfit : CountsFit w.kernel (.syscall dsosCallSempost args) := by
      rw [CountsFit, hev]
      exact hlt
    refine hcalls hfit ?_
    have hstep : SemStep w.kernel k (semEvent w.kernel (.syscall dsosCallSempost args)) :=
      step_semEvent h.kernelInv hs
    rw [hev] at hstep
    cases hstep with
    | post _ listed list id hcount queue hwaiters same =>
      obtain ⟨f, hf⟩ := h.father
      refine h.balanced.posts (h.thread_lt hth) rfl hothers hth (setThread_self _ p _) hline hline'
        hrole ?_ ?_ hwaiters
      · exact fun r g' hne => same _ (hf.listed h.kernelInv (fdName_sem_lt _ r)) hne
      · exact hcount.trans ((CountInv.reachableBy h.kernelReachable).post_count h.kernelInv.sem
          (.reachable h.kernelReachable.reachable) listed hlt)
  · rw [← hargs] at hnone
    have hev := semEvent_unknownPost hp hnone
    refine hcalls (by rw [CountsFit, hev]; trivial) ?_
    refine h.balanced_calls hth hs hwait (by simp [hev]) fun r g' => ?_
    have htokens := @tokens_post w.kernel w.kernel p th th' r g g' hline hline' hrole
    omega

/-! ### The other moves -/

theorem ran (h : WorldInv w) (hp : w.kernel.running = some p) (hth : w.thread p = some th)
    (hran : Ran w w' p th) : WorldInv w' := by
  cases hran with
  | goesOn th' goes result => exact result ▸ h.goesOn hp hth goes
  | stores line result => exact result ▸ h.stores hth line
  | writes line result => exact result ▸ h.writes hth line
  | exits k line step result =>
    refine result ▸ h.exits hp hth ?_ step
    obtain ⟨hadvance, hwrite⟩ := line
    generalize th.line = l at *
    cases l <;> simp [Line.updates] at hadvance hwrite ⊢
  | opens v k th' line step thread result =>
    subst result thread
    exact h.opens hp hth line step
  | waits g k th' line step thread result =>
    subst result
    exact h.waits hp hth line rfl step thread
  | posts g k ret line step result =>
    subst result
    exact h.posts hp hth line rfl step rfl
  | closes v k ret line step result => exact result ▸ h.closes hp hth line step

/-- A timer signal, or a wait of the father. -/
theorem acts (h : WorldInv w) (hs : kernel.step w.kernel act = .ok k)
    (hcall : act ≠ .returnToProcess) (hkeeps : act.Keeps)
    (hwait : ∀ args, act ≠ .syscall dsosCallSemwait args)
    (hpost : ∀ args, act ≠ .syscall dsosCallSempost args) : WorldInv (w.entered k) := by
  have hfit : CountsFit w.kernel act := countsFit_of_ne (fun args => (hkeeps args).2.1) fun _ =>
    semEvent_ne_post hpost
  obtain ⟨f, hf⟩ := h.father
  obtain ⟨hgoes, hall⟩ := h.keeps hs hcall hfit hkeeps f
  refine h.goes hgoes (fun _ _ => rfl) rfl rfl (hall f) ?_ fun r => ?_
  · exact h.balanced.calm (h.lt hf.alive) rfl
      (hf.calm h.kernelInv hs (fun _ _ => semEvent_ne_wait hwait) fun _ => semEvent_ne_post hpost)
      (fun _ _ => rfl) fun _ _ => le_rfl
  · exact ⟨(h.indexed r).slots, (h.indexed r).index, (h.indexed r).reads⟩

/-- The new process is in the block `b`. -/
theorem spawns (h : WorldInv w) (hp : w.kernel.running = some p)
    (hs : kernel.step w.kernel (.syscall dsosCallSpawn args) = .ok k)
    (hlast : (k.procs .ready).items.getLast? = some b) (r : Role) :
    WorldInv ((w.entered k).setThread b (some (newThread r))) := by
  have hrun : runHandler .spawn (enterSyscall w.kernel p dsosCallSpawn args) = .ok k :=
    (step_handler hp).symm.trans hs
  have hproc : ProcInv (enterSyscall w.kernel p dsosCallSpawn args) := h.kernelInv.proc.enter
  have hp' : (enterSyscall w.kernel p dsosCallSpawn args).running = some p := hp
  obtain ⟨b', q, hc⟩ := internalSpawn_ok hp' (hproc.inUse_of_running hp') hrun
  rw [hc.procs, if_pos rfl] at hlast
  obtain rfl : b' = b := by simpa using hlast
  have hnone : w.thread b' = none := by
    cases hth : w.thread b' with
    | none => rfl
    | some th => exact absurd (h.threads b' th hth).alive.1 hc.fresh
  have hpost : ∀ x, semEvent w.kernel (.syscall dsosCallSpawn args) ≠ .post x := fun _ =>
    semEvent_ne_post fun _ => syscall_ne (by decide)
  have hfit := countsFit_of_ne (fun _ => syscall_ne (by decide)) hpost
  obtain ⟨hgoes, -⟩ := h.keeps hs nofun hfit
    (fun _ => ⟨syscall_ne (by decide), syscall_ne (by decide), syscall_ne (by decide)⟩) b'
  have hothers : ∀ q, q ≠ b' →
      ((w.entered k).setThread b' (some (newThread r))).thread q = w.thread q := fun q hq =>
    setThread_of_ne _ _ hq
  refine h.goes hgoes hothers rfl rfl (fun tq hq => ?_) ?_ fun r' => ?_
  · obtain rfl := Option.some.inj ((setThread_self _ b' _).symm.trans hq)
    exact .created hproc hc r
  · obtain ⟨f, hf⟩ := h.father
    refine h.balanced.calm (inUse_lt hgoes.reachable.reachable ((hc.inUse b').mpr (Or.inr rfl))) rfl
      (hf.calm h.kernelInv hs (fun _ _ => semEvent_ne_wait fun _ => syscall_ne (by decide)) hpost)
      hothers fun r' g => ?_
    rw [setThread_self, hnone, tokens_line (by simp [newThread])]
    cases g <;> simp [newThread, Line.holds, Line.owes]
  · refine (h.indexed r').calm rfl rfl hothers (fun tq hq _ => ?_) fun tq hq _ => ?_
    · rw [hnone] at hq
      cases hq
    · obtain rfl := Option.some.inj ((setThread_self _ b' _).symm.trans hq)
      exact Or.inl rfl

theorem step {move : World.Move} (h : WorldInv w) (hs : w.step move = .ok w') : WorldInv w' := by
  cases step_moved hs with
  | tick k step result =>
    subst result
    exact h.acts step nofun (fun _ => ⟨by simp, by simp, by simp⟩) (by simp) (by simp)
  | spawns r b k father step last result =>
    subst result
    obtain ⟨p, hp⟩ := Option.ne_none_iff_exists'.mp father.1
    exact h.spawns hp step last r
  | waits k father step result =>
    subst result
    exact h.acts step nofun
      (fun _ => ⟨syscall_ne (by decide), syscall_ne (by decide), syscall_ne (by decide)⟩)
      (fun _ => syscall_ne (by decide)) fun _ => syscall_ne (by decide)
  | ran p th running thread ran => exact h.ran running thread ran

theorem start_counts (r : Role) (g : Gate) :
    count World.start.kernel (r.sem g) = World.start.given r g := by
  cases r <;> cases g <;> decide +kernel

theorem start_reachable : kernel.ReachableBy CountsFit World.start.kernel := by
  have hreplay := System.reachableBy_replayBy (M := kernel) (G := CountsFit) World.fatherOpens
  exact hreplay

theorem start_father : FatherOpen World.start.kernel 0 := by
  have hall : World.start.kernel.initPcb = some 0 ∧
      (World.start.kernel.pcbs.InUse 0 ∧ 0 ∉ (World.start.kernel.procs .zombie).items) ∧
      ∀ x < 4, HasOpen World.start.kernel 0 x ∧
        (World.start.kernel.sems.semaphore.cell x).id = x := by decide +kernel
  obtain ⟨hinit, halive, hopens⟩ := hall
  exact ⟨hinit, halive, fun x hx => (hopens x hx).1, fun x hx => (hopens x hx).2⟩

theorem start_balanced : World.start.Balanced := by
  intro r g
  have hgiven : 0 ≤ World.start.given r g := by cases r <;> cases g <;> decide
  have hhands : World.start.inHands r g = 0 := Finset.sum_eq_zero fun _ _ => rfl
  have hused : World.start.used r g = 0 := by cases g <;> rfl
  rw [hhands, hused, value, start_counts]
  simp [hgiven]

theorem start_indexed (r : Role) : World.start.Indexed r := by
  refine ⟨rfl, fun _ => by cases r <;> rfl, fun p th hth => ?_⟩
  cases hth

theorem start : WorldInv World.start where
  kernelReachable := start_reachable
  father := ⟨0, start_father⟩
  threads p th hth := by cases hth
  balanced := start_balanced
  indexed := start_indexed
  tracked n := rfl

theorem reachable (h : producersConsumers.Reachable w) : WorldInv w :=
  h.invariant start fun _ _ _ _ hi hs => hi.step hs

end WorldInv

/-! ### Safety -/

/-- The process `p` of role `r` is between the grant of its mutex and the post of it. -/
def World.InCritical (w : World) (r : Role) (p : ℕ) : Prop :=
  ∃ th, w.thread p = some th ∧ th.role = r ∧ Holds w.kernel p th .me

/-- The buffer is used as it is meant to be. -/
structure BufferSafe (w : World) : Prop where
  exclusive : ∀ r p q, w.InCritical r p → w.InCritical r q → p = q
  stores : ∀ p th, w.thread p = some th → th.role = .prod → th.line = .store →
    w.full th.n = false
  clears : ∀ p th, w.thread p = some th → th.role = .cons → th.line = .store →
    w.full th.n = true
  inside : ∀ p th, w.thread p = some th → th.line = .store → 0 ≤ th.n ∧ th.n < bufferLength
  order : ∀ r, w.slots r = circular (w.slots r).length
  cleared : w.slots .cons <+: w.slots .prod

/-- In every interleaving of any number of producers and consumers, at most one of each kind is
in its critical section, a producer stores into a slot that is empty, a consumer clears one that
is full, and both go around the buffer. -/
theorem buffer_safe (h : producersConsumers.Reachable w) : BufferSafe w := by
  have hw := WorldInv.reachable h
  refine ⟨?_, ?_, ?_, ?_, fun r => (hw.indexed r).slots, ?_⟩
  · rintro r p q ⟨th, hth, hr, hholds⟩ ⟨th', hth', hr', hholds'⟩
    exact hw.balanced.exclusive (hw.thread_lt hth') (hw.thread_lt hth) hth' hth
      (hr.trans hr'.symm) hholds' hholds
  · intro p th hth hr hline
    rw [hw.full_slot hth hline, hr]
    rfl
  · intro p th hth hr hline
    rw [hw.full_slot hth hline, hr]
    rfl
  · intro p th hth hline
    rw [(hw.indexed th.role).slot_eq hth hline (hw.excl hth (by rw [hline]; rfl))]
    unfold bufferLength
    omega
  · rw [(hw.indexed .cons).slots, (hw.indexed .prod).slots]
    exact circular_prefix hw.balanced.lengths.1

/-- A producer with its second item and a consumer with the first are in their critical
sections. -/
theorem buffer_safe_both :
    let w := producersConsumers.replay ([.spawn .prod, .spawn .cons, .wait] ++
      List.replicate 19 (.run false) ++ [.tick] ++ List.replicate 12 (.run false) ++ [.tick] ++
      List.replicate 6 (.run false))
    (w.thread 1).map Thread.line = some .store ∧ (w.thread 2).map Thread.line = some .store ∧
      w.slots .prod = [0] ∧ BufferSafe w := by
  refine ⟨?_, ?_, ?_, buffer_safe (System.reachable_replay _)⟩
  · decide +kernel
  · decide +kernel
  · decide +kernel

end DisastrOS
