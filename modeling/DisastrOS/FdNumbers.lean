import DisastrOS.ExclusiveOpen

/-! The numbers that a process gets for the resources that it opens. -/
namespace DisastrOS
open BlockPool TransitionSystem

variable {s t u : Kernel} {p b d e r : ℕ} {act : Action} {L : ℕ → List ℤ}

/-- The numbers of the descriptors that the process `b` has in `t` and not in `s`. -/
def newFds (s t : Kernel) (b : ℕ) : List ℤ :=
  ((t.pcb b).descriptors.items.filter (· ∉ (s.pcb b).descriptors.items)).map fun d =>
    (t.resources.descriptor.cell d).fd

/-- The numbers that each process has got so far. -/
def recordFds (s : Kernel) (_ : Action) (t : Kernel) (L : ℕ → List ℤ) : ℕ → List ℤ := fun b =>
  if s.pcbs.InUse b then L b ++ newFds s t b else []

def fdKernel : System (Kernel × (ℕ → List ℤ)) Action Fault :=
  kernel.withRecord (fun _ => []) recordFds

/-- The first `n` values of `last_fd`. -/
def firstFds (n : ℕ) : List ℤ := (List.range n).map fun (i : ℕ) => toInt i

theorem firstFds_succ (n : ℕ) : firstFds (n + 1) = firstFds n ++ [toInt n] := by
  simp [firstFds, List.range_succ]

/-- The values of `last_fd` come back after 2^32 opens. -/
theorem toInt_mem_firstFds {n : ℕ} : toInt n ∈ firstFds n ↔ 2 ^ 32 ≤ n := by
  simp only [firstFds, List.mem_map, List.mem_range, toInt, Int.bmod_def]
  constructor
  · rintro ⟨i, hi, he⟩
    omega
  · intro hn
    exact ⟨n - 2 ^ 32, by omega, by omega⟩

/-- What a step does to the descriptors of the process `b`. -/
inductive FdStep (s t : Kernel) (b : ℕ) : Prop
  | kept (lastFd : (t.pcb b).lastFd = (s.pcb b).lastFd)
      (subset : (t.pcb b).descriptors.items ⊆ (s.pcb b).descriptors.items)
  | opened (d : ℕ) (lastFd : (t.pcb b).lastFd = toInt ((s.pcb b).lastFd + 1))
      (items : (t.pcb b).descriptors.items = (s.pcb b).descriptors.items ++ [d])
      (notOpen : d ∉ (s.pcb b).descriptors.items)
      (fd : (t.resources.descriptor.cell d).fd = (s.pcb b).lastFd)

namespace FdStep

theorem of_pcb (hl : (t.pcb b).lastFd = (s.pcb b).lastFd)
    (hd : (t.pcb b).descriptors = (s.pcb b).descriptors) : FdStep s t b :=
  .kept hl (by rw [hd]; exact List.Subset.refl _)

theorem same (h : SameResources s t) : FdStep s t b := .of_pcb (h.lastFd b) (h.descriptors b)

theorem after (hl : (u.pcb b).lastFd = (s.pcb b).lastFd)
    (hd : (u.pcb b).descriptors = (s.pcb b).descriptors) (h : FdStep u t b) : FdStep s t b := by
  cases h with
  | kept lastFd subset => exact .kept (lastFd.trans hl) (hd ▸ subset)
  | opened d lastFd items notOpen fd =>
    rw [hl] at lastFd fd
    rw [hd] at items notOpen
    exact .opened d lastFd items notOpen fd

theorem before (h : FdStep s u b) (ht : SameResources u t) : FdStep s t b := by
  cases h with
  | kept lastFd subset =>
    refine .kept ((ht.lastFd b).trans lastFd) ?_
    rwa [ht.descriptors]
  | opened d lastFd items notOpen fd =>
    refine .opened d ((ht.lastFd b).trans lastFd) ?_ notOpen ?_
    · rwa [ht.descriptors]
    · rwa [ht.resources]

theorem newProcess (hc : NewProcess s t r) (hb : s.pcbs.InUse b) : FdStep s t b := by
  have hbr : b ≠ r := fun he => hc.fresh (he ▸ hb)
  refine .of_pcb ?_ ?_
  · rw [hc.lastFd, if_neg hbr]
  · rw [hc.descriptors, if_neg hbr]

theorem opens (ho : ResourceOpened s t p r d e) : FdStep s t b := by
  by_cases hbp : b = p
  · subst hbp
    refine .opened d ?_ ?_ ho.notOpen ?_
    · rw [ho.lastFd, if_pos rfl]
    · rw [ho.descriptors, if_pos rfl]
    · rw [ho.cell_new]
  · refine .of_pcb ?_ ?_
    · rw [ho.lastFd, if_neg hbp]
    · rw [ho.descriptors, if_neg hbp]

theorem internalOpenResource (h : internalOpenResource s = .ok t) : FdStep s t b := by
  obtain ⟨p, -, ⟨v, rfl⟩ | ⟨u, r, hu, ho⟩⟩ := internalOpenResource_ok h
  · exact .same (.setRetvalue s p v)
  have hpcb : ∀ k, u.pcb k = s.pcb k := by
    intro k
    cases hu with
    | known mode found same => rw [same]
    | new st mode unknown alloc notListed result => simp [result, resourceCreated]
  rcases ho with ⟨v, rfl⟩ | ⟨d, e, -, ho⟩
  · exact .of_pcb (by simp [hpcb]) (by simp [hpcb])
  · have hstep : FdStep u t b := .opens ho
    exact hstep.after (by rw [hpcb]) (by rw [hpcb])

theorem closes (hc : ResourceClosed s t p r d e) : FdStep s t b := by
  refine .kept (hc.lastFd b) ?_
  rw [hc.descriptors]
  split_ifs with hbp
  · subst hbp
    exact List.erase_subset
  · exact List.Subset.refl _

theorem internalCloseResource (h : internalCloseResource s = .ok t) : FdStep s t b := by
  obtain ⟨p, -, rfl | ⟨d, u, -, hu, rfl⟩⟩ := internalCloseResource_ok h
  · exact .same (.setRetvalue s p _)
  · obtain ⟨r, e, hc⟩ := releaseDescriptor_closed hu
    have hstep : FdStep s u b := .closes hc
    exact hstep.before (.setRetvalue u p 0)

theorem internalDestroyResource (h : internalDestroyResource s = .ok t) : FdStep s t b := by
  obtain ⟨p, -, ⟨v, rfl⟩ | ⟨r, -, -, rfl⟩⟩ := internalDestroyResource_ok h
  · exact .same (.setRetvalue s p v)
  · exact .of_pcb (by simp [resourceDestroyed]) (by simp [resourceDestroyed])

theorem internalExit (hk : KernelInv s) (h : internalExit s = .ok t) : FdStep s t b := by
  obtain ⟨p, a, i, sig, -, -, -, -, he⟩ := internalExit_returns hk.proc hk.wake h
  cases he with
  | toParent q u _ _ _ released result =>
    subst result
    have hf : SameResources s (handedToParent (zombified s p i sig) p a q) :=
      ResInv.handedToParent_frame
    have hr : SameResources u (reclaimed u p a) := by
      constructor <;> intros <;> simp [reclaimed]
    obtain ⟨l, w, rfl⟩ := releaseDescriptors_ok released
    refine FdStep.before (.after (hf.lastFd b) (hf.descriptors b) (.kept ?_ ?_)) hr
    · simp
    · by_cases hbp : b = p <;> simp [hbp]
  | toNext q rest _ _ result =>
    subst result
    refine .same ((zombified_frame s p i sig).2.trans ?_)
    constructor <;> intros <;> simp [resumed]

end FdStep

theorem runHandler_fdStep {hd : Handler} (hk : KernelInv s) (hp : s.running = some p)
    (hb : s.pcbs.InUse b) (hs : runHandler hd s = .ok t) : FdStep s t b := by
  cases hd with
  | preempt => exact .same (internalSchedule_frame hs).2
  | fork =>
    obtain ⟨r, q, hc⟩ := internalFork_ok hp (hk.proc.inUse_of_running hp) hs
    exact .newProcess hc.newProcess hb
  | wait => exact .same (internalWait_frame hs).2
  | exit => exact .internalExit hk hs
  | spawn =>
    obtain ⟨r, q, hc⟩ := internalSpawn_ok hp (hk.proc.inUse_of_running hp) hs
    exact .newProcess hc.newProcess hb
  | sleep => exact .same (internalSleep_frame hs).2
  | openResource => exact .internalOpenResource hs
  | closeResource => exact .internalCloseResource hs
  | destroyResource => exact .internalDestroyResource hs
  | shutdown => cases hs
  | semOpen => exact .same (internalSemOpen_frame hs).2
  | semClose => exact .same (internalSemClose_frame hs).2
  | semWait => exact .same (ResInv.internalSemWait_resources hs)
  | semPost => exact .same (ResInv.internalSemPost_resources hs)

theorem step_fdStep (hk : KernelInv s) (hb : s.pcbs.InUse b) (hs : step s act = .ok t) :
    FdStep s t b := by
  rcases step_ok hs with ⟨p, n, args, hp, rfl, hr⟩ | ⟨p, -, -, ht⟩ | ⟨-, hr⟩
  · have henter := enterSyscall_resources s p n args
    cases hr with
    | outOfRange _ same =>
      subst same
      exact .same (.refl t)
    | notImplemented _ result =>
      subst result
      exact .same (henter.trans (.setRetvalue _ p _))
    | handled hd hn run =>
      exact .after (henter.lastFd b) (henter.descriptors b)
        (runHandler_fdStep (hk.enter hp) hp hb run)
  · have hticked : SameResources s (ticked s p) := by
      refine ⟨rfl, fun k => ?_, fun k => ?_⟩ <;> simp
    exact .same (hticked.trans (internalSchedule_frame ht).2)
  · cases hr with
    | resumed _ same =>
      subst same
      exact .same (.refl t)
    | restarted r _ started => exact .newProcess started.newProcess hb

theorem FamilyMove.lastFd (hm : FamilyMove s t) (hb : ¬ s.pcbs.InUse b) (ht : t.pcbs.InUse b) :
    (t.pcb b).lastFd = 0 := by
  cases hm with
  | same same => exact absurd ((same.inUse b).mp ht) hb
  | create p r q cpu running created =>
    have hbr : b = r := ((created.inUse b).mp ht).resolve_left hb
    rw [created.pcb, if_pos hbr]
    rfl
  | zombie p a i _ _ _ _ _ _ zombied => exact absurd ((zombied.inUse b).mp ht) hb
  | deliver p a i q _ _ _ _ _ _ _ _ delivered =>
    exact absurd ((delivered.inUse b).mp ht).1 hb
  | collect p q _ _ _ _ result =>
    subst result
    exact absurd (by simpa [reaped] using ht) fun h : s.pcbs.InUse b ∧ _ => hb h.1
  | start r _ started =>
    have hbr : b = r := ((started.inUse b).mp ht).resolve_left hb
    rw [started.pcb, if_pos hbr]
    rfl

/-- A process has got the first values of `last_fd`, and `last_fd` comes next. -/
def FdsRecorded (s : Kernel) (L : ℕ → List ℤ) : Prop :=
  ∀ b, s.pcbs.InUse b →
    L b = firstFds (L b).length ∧ (s.pcb b).lastFd = toInt ((L b).length : ℤ)

theorem FdsRecorded.step (h : FdsRecorded s L) (hk : KernelInv s) (hs : kernel.step s act = .ok t) :
    FdsRecorded t (recordFds s act t L) := by
  intro b ht
  rw [recordFds]
  split_ifs with hb
  · obtain ⟨hL, hlast⟩ := h b hb
    cases step_fdStep hk hb hs with
    | kept lastFd subset =>
      have hnew : newFds s t b = [] := by
        rw [newFds, List.map_eq_nil_iff, List.filter_eq_nil_iff]
        exact fun d hd => by simpa using subset hd
      rw [hnew, List.append_nil, lastFd]
      exact ⟨hL, hlast⟩
    | opened d lastFd items notOpen fd =>
      have hnew : newFds s t b = [(s.pcb b).lastFd] := by
        have hold : (s.pcb b).descriptors.items.filter
            (· ∉ (s.pcb b).descriptors.items) = [] := by
          rw [List.filter_eq_nil_iff]
          exact fun d hd => by simpa using hd
        rw [newFds, items, List.filter_append, hold]
        simp [notOpen, fd]
      have hlen : (L b ++ newFds s t b).length = (L b).length + 1 := by simp [hnew]
      rw [hlen, firstFds_succ, hnew, hlast, lastFd, hlast, ← hL]
      refine ⟨rfl, ?_⟩
      push_cast
      exact toInt_toInt_add _ _
  · obtain ⟨u, hu, -, hmove⟩ := step_move hk hs
    refine ⟨rfl, ?_⟩
    rw [hmove.lastFd (fun hub => hb ((hu.inUse b).mp hub)) ht]
    rfl

theorem FdsRecorded.start : FdsRecorded disastrOSStart fun _ => [] := by
  obtain ⟨t, -, hc, hs⟩ := disastrOSStart_eq
  intro b _
  refine ⟨rfl, ?_⟩
  rw [hs]
  simp only [Kernel.pcb, hc]
  split_ifs <;> rfl

theorem FdsRecorded.reachable {x : Kernel × (ℕ → List ℤ)} (h : fdKernel.Reachable x) :
    FdsRecorded x.1 x.2 := by
  refine h.invariant (P := fun x => FdsRecorded x.1 x.2) FdsRecorded.start
    fun x act y hr hx hm => ?_
  obtain ⟨hs, hL⟩ := System.withRecord_step.mp hm
  rw [hL]
  exact hx.step (KernelInv.reachable (System.withRecord_reachable hr)) hs

end DisastrOS
