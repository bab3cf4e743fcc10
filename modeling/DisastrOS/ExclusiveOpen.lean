import DisastrOS.ResourceRelation

/-! How far an exclusive open keeps other processes away from a resource. -/
namespace DisastrOS
open BlockPool TransitionSystem

variable {s t u v : Kernel} {p q b d e f r y : ℕ} {act : Action} {args : List ℤ}

/-- The process of the descriptor `d` neither closes it nor exits. -/
def KeepsOpen (d : ℕ) (s : Kernel) : Action → Prop
  | .syscall n args => s.running = some (s.resources.descriptor.cell d).pcb →
      n ≠ dsosCallExit ∧ (n = dsosCallCloseResource → descriptorListByFd s.resources
        (s.pcb (s.resources.descriptor.cell d).pcb).descriptors (toInt (args.getD 0 0)) ≠ some d)
  | .tick | .returnToProcess => True

instance (d : ℕ) (s : Kernel) (act : Action) : Decidable (KeepsOpen d s act) :=
  match act with
  | .syscall n _ => inferInstanceAs (Decidable (_ → n ≠ dsosCallExit ∧ _))
  | .tick | .returnToProcess => inferInstanceAs (Decidable True)

/-- Somebody opens the resource `r` with neither `DSOS_CREATE` nor `DSOS_EXCL`, and is not
refused. -/
def OpensPlainly (r : ℕ) (s : Kernel) : Action → Prop
  | .syscall n args => n = dsosCallOpenResource ∧
      toInt (args.getD 0 0) = (s.resources.resource.cell r).id ∧
        BitVec.ofInt 32 (args.getD 2 0) &&& dsosCreate = 0 ∧
          BitVec.ofInt 32 (args.getD 2 0) &&& dsosExcl = 0 ∧
            openRefusal s.resources (toInt (args.getD 0 0)) (toInt (args.getD 1 0))
              (BitVec.ofInt 32 (args.getD 2 0)) = none
  | .tick | .returnToProcess => False

/-- The descriptor `d` is in use as it was in `s`. -/
def StaysOpen (s t : Kernel) (d : ℕ) : Prop :=
  t.resources.descriptor.InUse d ∧
    t.resources.descriptor.cell d = s.resources.descriptor.cell d

namespace StaysOpen

theorem of_eq (h : s.resources.descriptor.InUse d) (he : t.resources = s.resources) :
    StaysOpen s t d := by
  unfold StaysOpen
  rw [he]
  exact ⟨h, rfl⟩

theorem trans (h : StaysOpen s t d) (h' : StaysOpen t u d) : StaysOpen s u d :=
  ⟨h'.1, h'.2.trans h.2⟩

theorem opened (h : s.resources.descriptor.InUse d) (ho : ResourceOpened s t p r f e) :
    StaysOpen s t d := by
  refine ⟨(ho.inUse d).mpr (Or.inl h), ?_⟩
  rw [ho.cell, if_neg]
  rintro rfl
  exact ho.fresh h

theorem closed (h : s.resources.descriptor.InUse d) (hc : ResourceClosed s t p r f e)
    (hne : d ≠ f) : StaysOpen s t d := by
  unfold StaysOpen
  rw [hc.descriptor, Store.free_inUse, Store.free_cell]
  exact ⟨⟨h, hne⟩, rfl⟩

end StaysOpen

/-- The descriptor `d` is the only one of the resource `r`. -/
structure Alone (s : Kernel) (r d : ℕ) : Prop where
  inUse : s.resources.descriptor.InUse d
  resource : (s.resources.descriptor.cell d).resource = r
  entries : (s.resources.resource.cell r).descriptors.items = [(s.resources.descriptor.cell d).ptr]

namespace Alone

theorem of_eq (h : Alone s r d) (he : t.resources = s.resources) : Alone t r d := by
  obtain ⟨h1, h2, h3⟩ := h
  constructor <;> rw [he] <;> assumption

theorem size_ne (h : Alone s r d) (hl : Lockstep s.resources) :
    (s.resources.resource.cell r).descriptors.size ≠ 0 := by
  rw [hl.size, h.entries]
  simp

theorem begins {id type : ℤ} {openMode : BitVec 32} (h : Alone s r d) (hl : Lockstep s.resources)
    (hu : OpenBegins s u id type openMode y) : Alone u r d := by
  cases hu with
  | known mode found same => exact same ▸ h
  | new st mode unknown alloc notListed result =>
    have hry : r ≠ y := by
      rintro rfl
      exact notListed (h.resource ▸ (hl.listed d h.inUse).resource)
    subst result
    refine ⟨h.inUse, h.resource, ?_⟩
    change (st.cell r).descriptors.items = _
    rw [alloc.cell, if_neg hry]
    exact h.entries

theorem opened (h : Alone s r d) (ho : ResourceOpened s t p y f e) (hy : y ≠ r) :
    Alone t r d := by
  obtain ⟨hd, hcell⟩ := StaysOpen.opened h.inUse ho
  refine ⟨hd, hcell ▸ h.resource, ?_⟩
  rw [hcell, ho.cell_resource, if_neg hy.symm]
  exact h.entries

theorem closed (h : Alone s r d) (hi : ResInv s) (hl : Lockstep s.resources)
    (hc : ResourceClosed s t p y f e) (hne : d ≠ f) : Alone t r d := by
  obtain ⟨hd, hcell⟩ := StaysOpen.closed h.inUse hc hne
  refine ⟨hd, hcell ▸ h.resource, ?_⟩
  rw [hcell, hc.cell_resource]
  split_ifs with hy
  · -- the only entry of the resource is that of `d`, which is not closed
    have hback := (hi.linked p f hc.isOpen).ptr
    have he := hc.listed
    rw [← hy, h.entries, List.mem_singleton] at he
    rw [hc.ptrEq, he, (hl.listed d h.inUse).back] at hback
    exact absurd hback hne
  · exact h.entries

end Alone

/-! ### One step -/

/-- The handler neither closes the descriptor `d` nor ends its process. -/
structure HandlerKeeps (s : Kernel) (p d : ℕ) (hd : Handler) : Prop where
  exit : hd = .exit → (s.resources.descriptor.cell d).pcb ≠ p
  close : hd = .closeResource → descriptorListByFd s.resources (s.pcb p).descriptors
    (toInt ((s.pcb p).syscallArgs 0)) ≠ some d

theorem HandlerKeeps.ne_of_exit {hd : Handler} (h : HandlerKeeps s p d hd) (he : hd = .exit)
    (hi : ResInv u) (hst : StaysOpen s u d) (hc : ResourceClosed u v p y f e) : d ≠ f := by
  rintro rfl
  have howner := (hi.linked p d hc.isOpen).owner
  rw [hst.2] at howner
  exact h.exit he howner

theorem runHandler_staysOpen {hd : Handler} (hi : ResInv s) (hk : KernelInv s)
    (hp : s.running = some p) (hs : runHandler hd s = .ok t) (hkeep : HandlerKeeps s p d hd)
    (h : s.resources.descriptor.InUse d) : StaysOpen s t d := by
  cases hd with
  | openResource =>
    obtain ⟨p', -, ⟨w, rfl⟩ | ⟨u, r, hu, ho⟩⟩ := internalOpenResource_ok hs
    · exact .of_eq h rfl
    have hsu : StaysOpen s u d := by
      cases hu with
      | known mode found same => exact .of_eq h (by rw [same])
      | new st mode unknown alloc notListed result =>
        subst result
        exact ⟨h, rfl⟩
    rcases ho with ⟨w, rfl⟩ | ⟨f, e, -, ho⟩
    · exact hsu
    · exact hsu.trans (.opened hsu.1 ho)
  | closeResource =>
    obtain ⟨p', hp', rfl | ⟨f, u, hf, hu, rfl⟩⟩ := internalCloseResource_ok hs
    · exact .of_eq h rfl
    obtain rfl : p = p' := Option.some.inj (hp ▸ hp')
    obtain ⟨r, e, hc⟩ := releaseDescriptor_closed hu
    have hst : StaysOpen s u d := .closed h hc fun hdf => hkeep.close rfl (hdf ▸ hf)
    exact hst
  | destroyResource =>
    obtain ⟨p', -, ⟨w, rfl⟩ | ⟨r, -, -, rfl⟩⟩ := internalDestroyResource_ok hs
    · exact .of_eq h rfl
    · exact ⟨h, rfl⟩
  | exit =>
    exact internalExit_resources (P := fun u => StaysOpen s u d) hk hi hp hs
      (fun u v he hst => hst.trans (.of_eq hst.1 he))
      (fun u v y f e hiu hst hc => hst.trans
        (.closed hst.1 hc (hkeep.ne_of_exit rfl hiu hst hc)))
      ⟨h, rfl⟩
  | preempt | fork | wait | spawn | sleep | shutdown | semOpen | semClose | semWait | semPost =>
    exact .of_eq h (runHandler_resources hk hp hs (by decide) (by decide) (by decide) (by decide))

/-- An exclusive open of a resource that has descriptors is refused. -/
theorem openRefusal_excl {w : ResourceTable} {id type : ℤ} {openMode : BitVec 32}
    (hm : openMode &&& dsosCreate = 0) (hf : resourceListById w id = some r)
    (hx : openMode &&& dsosExcl ≠ 0) (hsize : (w.resource.cell r).descriptors.size ≠ 0) :
    openRefusal w id type openMode = if (w.resource.cell r).type ≠ type then
      some dsosEresourceopen else some dsosEresourcenoexcl := by
  rw [openRefusal, if_neg (not_not.mpr hm), hf]
  simp only [descriptorRefusal, if_pos (And.intro hx hsize)]

/-- The handler opens the resource `r` with neither `DSOS_CREATE` nor `DSOS_EXCL`, and does not
refuse it. -/
def HandlerOpensPlainly (s : Kernel) (p r : ℕ) : Handler → Prop
  | .openResource => toInt ((s.pcb p).syscallArgs 0) = (s.resources.resource.cell r).id ∧
      openModeOf s p &&& dsosCreate = 0 ∧ openModeOf s p &&& dsosExcl = 0 ∧
        openRefusal s.resources (toInt ((s.pcb p).syscallArgs 0))
          (toInt ((s.pcb p).syscallArgs 1)) (openModeOf s p) = none
  | _ => False

/-- A descriptor that is the only one of its resource stays so while it is not closed and no plain
open of the resource succeeds. -/
theorem runHandler_alone {hd : Handler} (hi : ResInv s) (hl : Lockstep s.resources)
    (hk : KernelInv s) (hp : s.running = some p) (hs : runHandler hd s = .ok t)
    (hkeep : HandlerKeeps s p d hd) (hplain : ¬ HandlerOpensPlainly s p r hd)
    (h : Alone s r d) : Alone t r d := by
  cases hd with
  | openResource =>
    have hout := internalOpenResource_outcome hl hi hp
    have hs' : internalOpenResource s = .ok t := hs
    rw [hs'] at hout
    cases hout with
    | refused v refusal => exact h.of_eq rfl
    | leftBehind y st mode unknown alloc full =>
      have hy : y ∉ s.resources.list.items := fun hm => alloc.fresh ((hi.inUse y).mp hm)
      exact (h.begins hl (.new st mode unknown alloc hy rfl)).of_eq rfl
    | opened u _ y f e begins allowed opened =>
      refine (h.begins hl begins).opened opened fun hyr => ?_
      subst hyr
      cases begins with
      | known mode found same =>
        have hid := List.find?_some found
        simp only [decide_eq_true_eq] at hid
        refine hplain ⟨hid.symm, mode, ?_, allowed⟩
        by_contra hexcl
        rw [openRefusal_excl mode found hexcl (h.size_ne hl)] at allowed
        split_ifs at allowed
      | new st mode unknown alloc notListed result =>
        exact notListed (h.resource ▸ (hl.listed d h.inUse).resource)
  | closeResource =>
    obtain ⟨p', hp', rfl | ⟨f, u, hf, hu, rfl⟩⟩ := internalCloseResource_ok hs
    · exact h.of_eq rfl
    obtain rfl : p = p' := Option.some.inj (hp ▸ hp')
    obtain ⟨y, e, hc⟩ := releaseDescriptor_closed hu
    exact (h.closed hi hl hc fun hdf => hkeep.close rfl (hdf ▸ hf)).of_eq rfl
  | destroyResource =>
    obtain ⟨p', -, ⟨w, rfl⟩ | ⟨y, -, -, rfl⟩⟩ := internalDestroyResource_ok hs
    · exact h.of_eq rfl
    · exact ⟨h.inUse, h.resource, h.entries⟩
  | exit =>
    refine (internalExit_resources
      (P := fun u => (Lockstep u.resources ∧ StaysOpen s u d) ∧ Alone u r d) hk hi hp hs
      (fun u v he hx => ⟨⟨hx.1.1.of_eq he, hx.1.2.trans (.of_eq hx.1.2.1 he)⟩, hx.2.of_eq he⟩)
      (fun u v y f e hiu hx hc => ?_) ⟨⟨hl, h.inUse, rfl⟩, h⟩).2
    have hne := hkeep.ne_of_exit rfl hiu hx.1.2 hc
    exact ⟨⟨hx.1.1.closed hiu hc, hx.1.2.trans (.closed hx.1.2.1 hc hne)⟩,
      hx.2.closed hiu hx.1.1 hc hne⟩
  | preempt | fork | wait | spawn | sleep | shutdown | semOpen | semClose | semWait | semPost =>
    exact h.of_eq (runHandler_resources hk hp hs (by decide) (by decide) (by decide) (by decide))

theorem descriptorListByFd_mem {v : ResourceTable} {l : ListHead} {fd : ℤ}
    (h : descriptorListByFd v l fd = some d) : d ∈ l.items := List.mem_of_find?_eq_some h

theorem KeepsOpen.handlerKeeps {hd : Handler} {n : ℤ} (h : KeepsOpen d s (.syscall n args))
    (hi : ResInv s) (hp : s.running = some p) (hn : n = hd.number) :
    HandlerKeeps (enterSyscall s p n args) p d hd := by
  constructor
  · rintro rfl howner
    change (s.resources.descriptor.cell d).pcb = p at howner
    exact (h (howner ▸ hp)).1 hn
  · rintro rfl hf
    have hlist : ((enterSyscall s p n args).pcb p).descriptors = (s.pcb p).descriptors := by
      simp [enterSyscall]
    have harg : ((enterSyscall s p n args).pcb p).syscallArgs 0 = args.getD 0 0 :=
      enterSyscall_arg (by rw [hn]; decide)
    rw [hlist, harg] at hf
    have howner := (hi.linked p d (descriptorListByFd_mem hf)).owner
    refine (h (howner ▸ hp)).2 hn ?_
    rw [howner]
    exact hf

theorem enterSyscall_resources (s : Kernel) (p : ℕ) (n : ℤ) (args : List ℤ) :
    SameResources s (enterSyscall s p n args) := by
  constructor <;> intros <;> simp [enterSyscall]

theorem step_staysOpen (hi : ResInv s) (hk : KernelInv s) (hs : step s act = .ok t)
    (hkeep : KeepsOpen d s act) (h : s.resources.descriptor.InUse d) : StaysOpen s t d := by
  rcases step_ok hs with ⟨p, n, args, hp, rfl, hr⟩ | ⟨p, -, -, ht⟩ | ⟨-, hr⟩
  · have henter := enterSyscall_resources s p n args
    cases hr with
    | outOfRange _ same => exact .of_eq h (by rw [same])
    | notImplemented _ result => exact .of_eq h (by rw [result]; rfl)
    | handled hd hn run =>
      have hst := runHandler_staysOpen (hi.frame henter) (hk.enter hp) hp run
        (hkeep.handlerKeeps hi hp hn) (henter.resources ▸ h)
      exact hst
  · exact .of_eq h (internalSchedule_frame ht).2.resources
  · exact .of_eq h hr.resources

theorem step_alone (hi : ResInv s) (hl : Lockstep s.resources) (hk : KernelInv s)
    (hs : step s act = .ok t) (hkeep : KeepsOpen d s act) (hplain : ¬ OpensPlainly r s act)
    (h : Alone s r d) : Alone t r d := by
  rcases step_ok hs with ⟨p, n, args, hp, rfl, hr⟩ | ⟨p, -, -, ht⟩ | ⟨-, hr⟩
  · have henter := enterSyscall_resources s p n args
    cases hr with
    | outOfRange _ same => exact same ▸ h
    | notImplemented _ result => exact h.of_eq (by rw [result]; rfl)
    | handled hd hn run =>
      refine runHandler_alone (hi.frame henter) (hl.of_eq henter.resources) (hk.enter hp) hp run
        (hkeep.handlerKeeps hi hp hn) (fun hpl => hplain ?_) (h.of_eq henter.resources)
      cases hd with
      | openResource =>
        obtain ⟨hid, hcreate, hexcl, hallowed⟩ := hpl
        have harg : ∀ i < 3, ((enterSyscall s p n args).pcb p).syscallArgs i = args.getD i 0 :=
          fun i h3 => enterSyscall_arg (by rw [hn]; exact h3)
        rw [harg 0 (by decide)] at hid
        rw [openModeOf, harg 2 (by decide)] at hcreate hexcl
        rw [openModeOf, harg 0 (by decide), harg 1 (by decide), harg 2 (by decide)] at hallowed
        exact ⟨hn, hid, hcreate, hexcl, hallowed⟩
      | _ => exact hpl.elim
  · exact h.of_eq (internalSchedule_frame ht).2.resources
  · exact h.of_eq hr.resources

/-! ### The whole run -/

/-- An open of a resource with descriptors that creates it or wants it for itself fails. -/
theorem internalOpenResource_refused (hp : s.running = some p)
    (hr : resourceListById s.resources (toInt ((s.pcb p).syscallArgs 0)) = some r)
    (hne : (s.resources.resource.cell r).descriptors.size ≠ 0)
    (hm : openModeOf s p &&& dsosCreate ≠ 0 ∨ openModeOf s p &&& dsosExcl ≠ 0) :
    ∃ w < 0, internalOpenResource s = .ok (s.setRetvalue p w) := by
  unfold internalOpenResource
  simp only [hp, deref, bind, Except.bind, hr]
  split_ifs with hc
  · exact ⟨dsosEresourcecreate, by decide, rfl⟩
  · have hx : BitVec.ofInt 32 ((s.pcb p).syscallArgs 2) &&& dsosExcl ≠ 0 := hm.resolve_left hc
    unfold openDescriptor
    by_cases ht : (s.resources.resource.cell r).type = toInt ((s.pcb p).syscallArgs 1)
    · exact ⟨dsosEresourcenoexcl, by decide, by simp only [ht, ne_eq, not_true_eq_false, if_false,
        if_pos (And.intro hx hne)]⟩
    · exact ⟨dsosEresourceopen, by decide, by simp only [ne_eq, ht, not_false_eq_true, if_true]⟩

/-- The exclusive open of the descriptor `d` that has led to `t` keeps others away while `d` is
open: whoever creates the resource or wants it for himself fails, and `d` is its only descriptor
unless a plain open of the resource succeeds. -/
structure ExclusiveWhileOpen (t : Kernel) (d : ℕ) : Prop where
  entry : ∀ u, (kernel.startingAt t).ReachableBy (KeepsOpen d) u → StaysOpen t u d ∧
    (t.resources.descriptor.cell d).ptr ∈
      (u.resources.resource.cell (t.resources.descriptor.cell d).resource).descriptors.items
  refused : ∀ u, (kernel.startingAt t).ReachableBy (KeepsOpen d) u → ∀ p ∈ u.running, ∀ args,
    toInt (args.getD 0 0) =
        (u.resources.resource.cell (t.resources.descriptor.cell d).resource).id →
      (BitVec.ofInt 32 (args.getD 2 0) &&& dsosCreate ≠ 0 ∨
        BitVec.ofInt 32 (args.getD 2 0) &&& dsosExcl ≠ 0) →
      ∃ v, kernel.step u (.syscall dsosCallOpenResource args) = .ok v ∧
        (v.pcb p).syscallRetvalue < 0 ∧ SameResources u v
  alone : ∀ u, (kernel.startingAt t).ReachableBy (fun s act => KeepsOpen d s act ∧
      ¬ OpensPlainly (t.resources.descriptor.cell d).resource s act) u →
    (u.resources.resource.cell (t.resources.descriptor.cell d).resource).descriptors.items =
      [(t.resources.descriptor.cell d).ptr]

theorem runs_staysOpen (h : kernel.Reachable t) (hd : t.resources.descriptor.InUse d)
    (hu : (kernel.startingAt t).ReachableBy (KeepsOpen d) u) : StaysOpen t u d := by
  refine hu.invariant (P := fun u => StaysOpen t u d) ⟨hd, rfl⟩ fun v act w hv hst hg hs => ?_
  have hrv := hv.goesOn h
  exact hst.trans (step_staysOpen (.reachable hrv) (.reachable hrv) hs hg hst.1)

theorem runs_refused (h : kernel.Reachable u) (hp : u.running = some p)
    (hd : u.resources.descriptor.InUse d)
    (hid : toInt (args.getD 0 0) =
      (u.resources.resource.cell (u.resources.descriptor.cell d).resource).id)
    (hm : BitVec.ofInt 32 (args.getD 2 0) &&& dsosCreate ≠ 0 ∨
      BitVec.ofInt 32 (args.getD 2 0) &&& dsosExcl ≠ 0) :
    ∃ v, kernel.step u (.syscall dsosCallOpenResource args) = .ok v ∧
      (v.pcb p).syscallRetvalue < 0 ∧ SameResources u v := by
  have hl := Lockstep.reachable h
  obtain ⟨hres, hentry, -⟩ := hl.listed d hd
  have hne : (u.resources.resource.cell (u.resources.descriptor.cell d).resource).descriptors.size
      ≠ 0 := by
    rw [hl.size]
    have := List.length_pos_of_mem hentry
    omega
  have harg : ∀ i < 3, ((enterSyscall u p dsosCallOpenResource args).pcb p).syscallArgs i =
      args.getD i 0 := fun i h3 => enterSyscall_arg h3
  obtain ⟨w, hw, hrun⟩ := internalOpenResource_refused
    (s := enterSyscall u p dsosCallOpenResource args) hp
    (by rw [harg 0 (by decide), hid]; exact hl.resourceListById hres) hne
    (by rw [openModeOf, harg 2 (by decide)]; exact hm)
  refine ⟨_, (@step_handler u p .openResource args hp).trans hrun, ?_,
    (enterSyscall_resources u p _ args).trans (.setRetvalue _ p w)⟩
  simpa using hw

/-- What the call that opens the descriptor `d` exclusively leaves. -/
theorem opened_alone (h : kernel.Reachable s)
    (hs : kernel.step s (.syscall dsosCallOpenResource args) = .ok t)
    (hx : BitVec.ofInt 32 (args.getD 2 0) &&& dsosExcl ≠ 0)
    (hnew : ¬ s.resources.descriptor.InUse d) (hd : t.resources.descriptor.InUse d) :
    Alone t (t.resources.descriptor.cell d).resource d := by
  obtain ⟨p, hp, -⟩ := disastrOSSyscall_ok hs
  have hrun := (@step_handler s p .openResource args hp).symm.trans hs
  have hl : Lockstep (enterSyscall s p dsosCallOpenResource args).resources :=
    (Lockstep.reachable h).of_eq rfl
  obtain ⟨p', hp', ⟨w, rfl⟩ | ⟨u, r, hu, ho⟩⟩ := internalOpenResource_ok hrun
  · exact absurd hd hnew
  obtain rfl : p = p' := Option.some.inj (hp.symm.trans hp')
  have hlu := hl.begins hu
  have hunew : ¬ u.resources.descriptor.InUse d := by
    cases hu with
    | known mode found same => exact same ▸ hnew
    | new st mode unknown alloc notListed result => exact result ▸ hnew
  rcases ho with ⟨w, rfl⟩ | ⟨f, e, hallow, ho⟩
  · exact absurd hd hunew
  obtain rfl : d = f := ((ho.inUse d).mp hd).resolve_left hunew
  have hcell : t.resources.descriptor.cell d = ⟨p, r, (u.pcb p).lastFd, e⟩ := by
    rw [ho.cell_new]
  have hmode : openModeOf (enterSyscall s p dsosCallOpenResource args) p &&& dsosExcl ≠ 0 := by
    rwa [openModeOf, enterSyscall_arg (by decide)]
  have hnil : (u.resources.resource.cell r).descriptors.items = [] := by
    have hsize := hlu.size r
    rw [hallow hmode] at hsize
    exact List.length_eq_zero_iff.mp (by omega)
  refine ⟨hd, rfl, ?_⟩
  rw [hcell, ho.cell_resource, if_pos rfl, hnil]
  rfl

/-- An exclusive open that succeeds keeps away, for as long as it lasts, everybody who opens the
resource exclusively or to create it. What it does not keep away is a plain open. -/
theorem exclusive_open (h : kernel.Reachable s)
    (hs : kernel.step s (.syscall dsosCallOpenResource args) = .ok t)
    (hx : BitVec.ofInt 32 (args.getD 2 0) &&& dsosExcl ≠ 0)
    (hnew : ¬ s.resources.descriptor.InUse d) (hd : t.resources.descriptor.InUse d) :
    ExclusiveWhileOpen t d := by
  have ht := h.next hs
  constructor
  case entry =>
    intro u hu
    have hst := runs_staysOpen ht hd hu
    refine ⟨hst, ?_⟩
    rw [← hst.2]
    exact ((Lockstep.reachable (hu.goesOn ht)).listed d hst.1).entry
  case refused =>
    intro u hu p hp args' hid hm
    have hst := runs_staysOpen ht hd hu
    rw [← hst.2] at hid
    exact runs_refused (hu.goesOn ht) hp hst.1 hid hm
  case alone =>
    intro u hu
    have hst := runs_staysOpen ht hd (hu.mono fun _ _ hg => hg.1)
    have hal : Alone u (t.resources.descriptor.cell d).resource d :=
      hu.invariant (opened_alone h hs hx hnew hd) fun v act w hv ha hg hs => by
        have hrv := hv.goesOn ht
        exact step_alone (.reachable hrv) (.reachable hrv) (.reachable hrv) hs hg.1 hg.2 ha
    rw [hal.entries, hst.2]

theorem exclusive_open_created :
    ExclusiveWhileOpen (kernel.replay [.syscall dsosCallOpenResource [4, 1, 5]]) 0 :=
  @exclusive_open _ _ _ [4, 1, 5] .start (System.step_replayFrom (by decide +kernel))
    (by decide) (by decide +kernel) (by decide +kernel)

/-- Another process joins an exclusive open by opening the resource plainly. -/
theorem exclusive_open_joined :
    let t := kernel.replay [.syscall dsosCallSpawn [0, 0], .syscall dsosCallOpenResource [4, 1, 5]]
    ∃ u, (kernel.startingAt t).ReachableBy (KeepsOpen 0) u ∧
      t.resources.descriptor.InUse 0 ∧ (t.resources.resource.cell 0).descriptors.items = [0] ∧
      (u.resources.resource.cell 0).descriptors.items = [0, 1] ∧
      u.running = some 1 ∧ (u.pcb 1).syscallRetvalue = 0 := by
  refine ⟨_, .step (a := .syscall dsosCallOpenResource [4, 1, 2])
    (.step (a := .syscall dsosCallPreempt []) .start (by decide +kernel)
      (System.step_replayFrom (by decide +kernel))) (by decide +kernel)
    (System.step_replayFrom (by decide +kernel)), ?_⟩
  decide +kernel

end DisastrOS
