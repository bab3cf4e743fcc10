import Mathlib.Data.List.Find
import DisastrOS.ExclusiveOpen

/-! An open of a resource that fails, and what it leaves behind. -/
namespace DisastrOS
open BlockPool TransitionSystem

variable {s t u : Kernel} {p r d : ℕ} {id type v : ℤ} {openMode : BitVec 32} {args : List ℤ}

/-- The call that opens a resource, in a state that can be reached. -/
theorem step_openResource (h : kernel.Reachable s) (hp : s.running = some p) (args : List ℤ) :
    OpenOutcome (enterSyscall s p dsosCallOpenResource args) p (toInt (args.getD 0 0))
      (toInt (args.getD 1 0)) (BitVec.ofInt 32 (args.getD 2 0))
      (kernel.step s (.syscall dsosCallOpenResource args)) := by
  have henter := enterSyscall_resources s p dsosCallOpenResource args
  have hl : Lockstep (enterSyscall s p dsosCallOpenResource args).resources :=
    (Lockstep.reachable h).of_eq henter.resources
  have hrun : (enterSyscall s p dsosCallOpenResource args).running = some p := hp
  have ho := internalOpenResource_outcome hl ((ResInv.reachable h).frame henter) hrun
  rw [openModeOf, enterSyscall_arg (by decide), enterSyscall_arg (by decide),
    enterSyscall_arg (by decide)] at ho
  have hstep : kernel.step s (.syscall dsosCallOpenResource args) =
      internalOpenResource (enterSyscall s p dsosCallOpenResource args) :=
    @step_handler s p .openResource args hp
  rw [hstep]
  exact ho

theorem openRefusal_neg {w : ResourceTable} (h : openRefusal w id type openMode = some v) :
    v < 0 := by
  unfold openRefusal at h
  split_ifs at h
  · obtain ⟨r, -, rfl⟩ := Option.map_eq_some_iff.mp h
    decide
  · generalize resourceListById w id = res at h
    cases res with
    | none =>
      obtain rfl := Option.some.inj h
      decide
    | some r =>
      simp only [descriptorRefusal] at h
      split_ifs at h
      · obtain rfl := Option.some.inj h
        decide
      · obtain rfl := Option.some.inj h
        decide
      · obtain rfl := Option.some.inj h
        decide

/-- The call gives `p` a descriptor. -/
def GivesDescriptor (s : Kernel) (p : ℕ) (args : List ℤ) : Prop :=
  ∃ t d, kernel.step s (.syscall dsosCallOpenResource args) = .ok t ∧
    (t.pcb p).descriptors.items = (s.pcb p).descriptors.items ++ [d]

/-- The call of `p` returns an error code and leaves the resources, the descriptors, the next
numbers and the pools as they were, so that it has the same answer when it is repeated. -/
structure OpenRefused (s t : Kernel) (p : ℕ) (args : List ℤ) : Prop where
  retvalue : (t.pcb p).syscallRetvalue < 0
  running : t.running = s.running
  resources : SameResources s t
  procs : ∀ l, t.procs l = s.procs l
  pool : t.pcbs.pool = s.pcbs.pool
  pcbPtrs : t.pcbPtrs = s.pcbPtrs
  timers : t.timers = s.timers
  sems : t.sems = s.sems
  again : ∀ u, (kernel.startingAt t).Reachable u → u.running = some p →
    u.resources = t.resources → ∃ w, kernel.step u (.syscall dsosCallOpenResource args) = .ok w ∧
      (w.pcb p).syscallRetvalue = (t.pcb p).syscallRetvalue

/-- The call of `p` gives a descriptor or fails without a trace. -/
def OpenAtomic (s : Kernel) (p : ℕ) (args : List ℤ) : Prop :=
  ¬ GivesDescriptor s p args →
    ∃ t, kernel.step s (.syscall dsosCallOpenResource args) = .ok t ∧ OpenRefused s t p args

/-- The resource is to be made, and the pool of resources or that of descriptors is empty. -/
def MakesInVain (w : ResourceTable) (id : ℤ) (openMode : BitVec 32) : Prop :=
  openMode &&& dsosCreate ≠ 0 ∧ resourceListById w id = none ∧
    (w.resource.pool.free = [] ∨ w.descriptor.pool.free = [])

instance (w : ResourceTable) (id : ℤ) (openMode : BitVec 32) :
    Decidable (MakesInVain w id openMode) :=
  inferInstanceAs (Decidable (_ ∧ _ ∧ (_ ∨ _)))

theorem step_refused (args : List ℤ) (h : kernel.Reachable s) (hp : s.running = some p)
    (hv : openRefusal s.resources (toInt (args.getD 0 0)) (toInt (args.getD 1 0))
      (BitVec.ofInt 32 (args.getD 2 0)) = some v) :
    kernel.step s (.syscall dsosCallOpenResource args) =
      .ok ((enterSyscall s p dsosCallOpenResource args).setRetvalue p v) := by
  have hsame : (enterSyscall s p dsosCallOpenResource args).resources = s.resources :=
    (enterSyscall_resources s p _ args).resources
  have ho := step_openResource h hp args
  generalize kernel.step s (.syscall dsosCallOpenResource args) = x at ho
  cases ho with
  | refused w refusal =>
    rw [hsame, hv] at refusal
    rw [Option.some.inj refusal]
  | noResource findsNone =>
    rw [openRefusal_new findsNone.1 (hsame ▸ findsNone.2.1)] at hv
    cases hv
  | leftBehind r st mode unknown alloc full =>
    rw [openRefusal_new mode (hsame ▸ unknown)] at hv
    cases hv
  | opened u t r d e begins allowed opened =>
    rw [hsame, hv] at allowed
    cases allowed

theorem openRefused_of_refusal (h : kernel.Reachable s) (hp : s.running = some p)
    (hv : openRefusal s.resources (toInt (args.getD 0 0)) (toInt (args.getD 1 0))
      (BitVec.ofInt 32 (args.getD 2 0)) = some v) :
    ∃ t, kernel.step s (.syscall dsosCallOpenResource args) = .ok t ∧ OpenRefused s t p args := by
  have hstep := step_refused args h hp hv
  refine ⟨_, hstep, ?_⟩
  constructor
  case retvalue => simpa using openRefusal_neg hv
  case again =>
    intro u hu hpu hsame
    have hru := hu.goesOn (h.next hstep)
    have hvu : openRefusal u.resources (toInt (args.getD 0 0)) (toInt (args.getD 1 0))
        (BitVec.ofInt 32 (args.getD 2 0)) = some v := by
      rw [hsame]
      exact hv
    exact ⟨_, step_refused args hru hpu hvu, by simp⟩
  case resources =>
    exact (enterSyscall_resources s p _ args).trans (.setRetvalue _ p v)
  all_goals intros
  all_goals simp [enterSyscall]

/-- The resource that is left behind is a trace of the open. -/
theorem not_openAtomic {st : Store Resource}
    (hx : kernel.step s (.syscall dsosCallOpenResource args) = .ok
      ((resourceCreated (enterSyscall s p dsosCallOpenResource args) r st).setRetvalue p v)) :
    ¬ OpenAtomic s p args := by
  have hs := enterSyscall_resources s p dsosCallOpenResource args
  have hgives : ¬ GivesDescriptor s p args := by
    rintro ⟨t, d, ht, hd⟩
    obtain rfl := Except.ok.inj (hx.symm.trans ht)
    simp [resourceCreated, hs.descriptors] at hd
  intro ha
  obtain ⟨t, ht, hrefused⟩ := ha hgives
  obtain rfl := Except.ok.inj (hx.symm.trans ht)
  have hlist := congrArg (fun w => w.list.items) hrefused.resources.resources
  simp [resourceCreated, hs.resources] at hlist

/-- A failed open of a resource leaves no trace unless it is to make the resource and a pool is
empty. -/
theorem openAtomic_iff (h : kernel.Reachable s) (hp : s.running = some p) :
    OpenAtomic s p args ↔
      ¬ MakesInVain s.resources (toInt (args.getD 0 0)) (BitVec.ofInt 32 (args.getD 2 0)) := by
  have hsame := (enterSyscall_resources s p dsosCallOpenResource args).resources
  have hdesc := (enterSyscall_resources s p dsosCallOpenResource args).descriptors p
  have ho := step_openResource h hp args
  generalize hx : kernel.step s (.syscall dsosCallOpenResource args) = x at ho
  cases ho with
  | refused v refusal =>
    rw [hsame] at refusal
    refine iff_of_true (fun _ => openRefused_of_refusal h hp refusal) fun hvain => ?_
    rw [openRefusal_new hvain.1 hvain.2.1] at refusal
    cases refusal
  | noResource findsNone =>
    obtain ⟨hc, hf, hnil⟩ := findsNone
    rw [hsame] at hf hnil
    refine iff_of_false (fun ha => ?_) fun hno => hno ⟨hc, hf, Or.inl hnil⟩
    have hgives : ¬ GivesDescriptor s p args := by
      rintro ⟨t, d, ht, -⟩
      rw [hx] at ht
      cases ht
    obtain ⟨t, ht, -⟩ := ha hgives
    rw [hx] at ht
    cases ht
  | leftBehind r st mode unknown alloc full =>
    rw [hsame] at unknown full
    exact iff_of_false (not_openAtomic hx) fun hno => hno ⟨mode, unknown, Or.inr full⟩
  | opened u t r d e begins allowed opened =>
    have hgives : GivesDescriptor s p args := by
      refine ⟨t, d, hx, ?_⟩
      have hu : (u.pcb p).descriptors = (s.pcb p).descriptors := by
        cases begins with
        | known mode found same => rw [same, hdesc]
        | new st mode unknown alloc notListed result => simp [result, resourceCreated, hdesc]
      rw [opened.descriptors, if_pos rfl, hu]
    refine iff_of_true (fun hno => absurd hgives hno) ?_
    rintro ⟨hc, hf, hnil⟩
    cases begins with
    | known mode found same => exact hc mode
    | new st mode unknown alloc notListed result =>
      have hres := alloc.free
      have hfree := opened.free
      subst result
      rw [hsame] at hres
      rw [resourceCreated, Kernel.setResources_resources, hsame] at hfree
      rcases hnil with hnil | hnil
      · rw [hnil] at hres
        cases hres
      · rw [hnil] at hfree
        cases hfree

theorem openAtomic_missing : let s := kernel.replay [.syscall dsosCallSpawn [0, 0]]
    s.running = some 0 ∧ OpenAtomic s 0 [7, 1, 0] := by
  intro s
  have hp : s.running = some 0 := by decide +kernel
  exact ⟨hp, (openAtomic_iff (System.reachable_replay _) hp).mpr (by decide +kernel)⟩

/-! ### With all descriptors taken -/

theorem ResourceOpened.resourceListById {e : ℕ} (ho : ResourceOpened s t p r d e) (id : ℤ) :
    resourceListById t.resources id = resourceListById s.resources id := by
  unfold DisastrOS.resourceListById
  rw [ho.list]
  refine List.find?_congr fun y _ => ?_
  rw [ho.cell_resource]
  split_ifs with hy <;> simp [hy]

/-- The resource that has been made is there when it is to be made again. -/
theorem openRefusal_created {st : Store Resource} (hc : openMode &&& dsosCreate ≠ 0)
    (ha : Store.Allocated s.resources.resource st r (fun _ => ⟨id, type, .init⟩))
    (hl : Lockstep (resourceCreated s r st).resources) :
    openRefusal (resourceCreated s r st).resources id type openMode =
      some dsosEresourcecreate := by
  have hid : ((resourceCreated s r st).resources.resource.cell r).id = id := by
    simp [resourceCreated, ha.cell]
  have hfound := hl.resourceListById (r := r) (by simp [resourceCreated])
  rw [hid] at hfound
  rw [openRefusal, if_pos hc, hfound, Option.map_some]

/-- The first process has the resource 7 open `n` times, and there is no resource 8. -/
structure Hoard (n : ℕ) (s : Kernel) : Prop where
  reachable : kernel.Reachable s
  running : s.running = some 0
  free : s.resources.descriptor.pool.free.length + n = maxNumProcesses
  freeResource : s.resources.resource.pool.free ≠ []
  known : ∃ r, resourceListById s.resources 7 = some r ∧ (s.resources.resource.cell r).type = 1
  unknown : resourceListById s.resources 8 = none

theorem Hoard.start : Hoard 1 (kernel.replay [.syscall dsosCallOpenResource [7, 1, 1]]) :=
  ⟨System.reachable_replay _, by decide +kernel, by decide +kernel, by decide +kernel,
    ⟨0, by decide +kernel, by decide +kernel⟩, by decide +kernel⟩

theorem Hoard.next {n : ℕ} (h : Hoard n s) (hn : n < maxNumProcesses) : ∃ t, Hoard (n + 1) t := by
  have hsame := (enterSyscall_resources s 0 dsosCallOpenResource [7, 1, 0]).resources
  obtain ⟨r, hr, htype⟩ := h.known
  have hfree : s.resources.descriptor.pool.free ≠ [] := fun hnil => by
    have := h.free
    rw [hnil, List.length_nil] at this
    omega
  have hno : openRefusal s.resources 7 1 0 = none := by
    simp [openRefusal, hr, descriptorRefusal, htype, hfree]
  have ho := step_openResource h.reachable h.running [7, 1, 0]
  generalize hx : kernel.step s (.syscall dsosCallOpenResource [7, 1, 0]) = x at ho
  cases ho with
  | refused v refusal =>
    rw [hsame] at refusal
    exact absurd (hno.symm.trans refusal) (by simp)
  | noResource findsNone => exact absurd rfl findsNone.1
  | leftBehind r st mode unknown alloc full => exact absurd rfl mode
  | opened u t r' d e begins allowed opened =>
    cases begins with
    | new st mode unknown alloc notListed result => exact absurd rfl mode
    | known mode found same =>
      subst same
      refine ⟨t, h.reachable.next hx, opened.processes.running.trans h.running, ?_, ?_, ⟨r, ?_, ?_⟩,
        ?_⟩
      · have hlen := congrArg List.length opened.free
        have := h.free
        rw [hsame, List.length_cons] at hlen
        omega
      · rw [opened.resource, hsame]
        exact h.freeResource
      · rw [opened.resourceListById, hsame, hr]
      · rw [opened.resource, Store.modify_cell, hsame]
        split_ifs with hy <;> simp [htype]
      · rw [opened.resourceListById, hsame, h.unknown]

theorem Hoard.reaches {n : ℕ} (hn : n < maxNumProcesses) : ∃ s, Hoard (n + 1) s := by
  induction n with
  | zero => exact ⟨_, .start⟩
  | succ n ih =>
    obtain ⟨s, hs⟩ := ih (by omega)
    exact hs.next hn

/-- With no descriptor left, the open that is to make the resource 8 fails and leaves it behind,
and fails with another error when it is repeated. -/
theorem open_leaves_resource : ∃ s t u, kernel.Reachable s ∧ s.running = some 0 ∧
    kernel.step s (.syscall dsosCallOpenResource [8, 1, 1]) = .ok t ∧
    (t.pcb 0).syscallRetvalue = dsosEresourcenofd ∧
    t.resources.list.items.length = s.resources.list.items.length + 1 ∧
    kernel.step t (.syscall dsosCallOpenResource [8, 1, 1]) = .ok u ∧
    (u.pcb 0).syscallRetvalue = dsosEresourcecreate ∧ ¬ OpenAtomic s 0 [8, 1, 1] := by
  obtain ⟨s, hs⟩ := Hoard.reaches (show 1023 < maxNumProcesses by decide)
  have hsame := (enterSyscall_resources s 0 dsosCallOpenResource [8, 1, 1]).resources
  have hfree : s.resources.descriptor.pool.free = [] :=
    List.length_eq_zero_iff.mp (by have := hs.free; unfold maxNumProcesses at this; omega)
  have ho := step_openResource hs.reachable hs.running [8, 1, 1]
  generalize hx : kernel.step s (.syscall dsosCallOpenResource [8, 1, 1]) = x at ho
  cases ho with
  | refused v refusal =>
    have hno : openRefusal s.resources 8 1 1 = none := openRefusal_new (by decide) hs.unknown
    rw [hsame] at refusal
    exact absurd (hno.symm.trans refusal) (by simp)
  | noResource findsNone => exact absurd (hsame ▸ findsNone.2.2) hs.freeResource
  | leftBehind r st mode unknown alloc full =>
    have ht := hs.reachable.next hx
    have hl : Lockstep (resourceCreated (enterSyscall s 0 _ [8, 1, 1]) r st).resources :=
      (Lockstep.reachable ht).of_eq rfl
    have hknown := openRefusal_created mode alloc hl
    have hagain := step_refused [8, 1, 1] ht hs.running hknown
    refine ⟨s, _, _, hs.reachable, hs.running, hx, by simp, ?_, hagain, by simp, not_openAtomic hx⟩
    simp [resourceCreated, hsame]
  | opened u t r d e begins allowed opened =>
    have hu : u.resources.descriptor = s.resources.descriptor := by
      cases begins with
      | known mode found same => rw [same, hsame]
      | new st mode unknown alloc notListed result => simp [result, resourceCreated, hsame]
    have hcons := opened.free
    rw [hu, hfree] at hcons
    cases hcons

end DisastrOS
