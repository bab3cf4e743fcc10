import DisastrOS.ChildInvariant
import DisastrOS.ResourceInvariant

/-! When the parts of a handler return. -/
namespace DisastrOS
open BlockPool

variable {s s' : Kernel} {p q b a i : ℕ}

theorem bind_isOk {α β : Type} {x : Except Fault α} {f : α → Except Fault β} {a : α}
    (hx : x = .ok a) (hf : ∃ r, f a = .ok r) : ∃ r, (x >>= f) = .ok r := by
  obtain ⟨r, hr⟩ := hf
  exact ⟨r, bind_ok.mpr ⟨a, hx, hr⟩⟩

/-- A system call with the number of a handler runs it. -/
theorem step_handler {hd : Handler} {args : List ℤ} (hp : s.running = some p) :
    step s (.syscall hd.number args) = runHandler hd (enterSyscall s p hd.number args) := by
  have hrange : ¬ (hd.number < 0 ∨ hd.number > dsosMaxSyscalls) ∧ hd.number ≠ dsosMaxSyscalls := by
    cases hd <;> decide
  have hrun : (enterSyscall s p hd.number args).running = some p := hp
  have hnum : ((enterSyscall s p hd.number args).pcb p).syscallNum = hd.number := by
    simp [enterSyscall]
  simp only [step, disastrOSSyscall, disastrOSTrap, hp, hrun, hrange.1, hrange.2, if_false, deref,
    bind, Except.bind, hnum, syscallVector_number]

/-- A system call returns if its handler does. -/
theorem step_isOk {hd : Handler} {args : List ℤ} (hp : s.running = some p)
    (h : ∃ t, runHandler hd (enterSyscall s p hd.number args) = .ok t) :
    ∃ t, step s (.syscall hd.number args) = .ok t := by
  rwa [step_handler hp]

theorem bind_error {α β : Type} {x : Except Fault α} {f : α → Except Fault β} {a : α} {e : Fault}
    (hx : x = .ok a) (hf : f a = .error e) : (x >>= f) = .error e := by
  subst hx
  exact hf

theorem bind_stuck {α β : Type} {x : Except Fault α} {f : α → Except Fault β} {e : Fault}
    (hx : x = .error e) : (x >>= f) = .error e := by
  subst hx
  rfl

/-! ### New processes -/

theorem pcbAlloc_isOk (h : s.pcbs.pool.free ≠ []) : ∃ b t, pcbAlloc s = .ok (some b, t) := by
  unfold pcbAlloc
  split
  · rename_i ha
    exact absurd (Store.alloc_eq_none.mp ha) h
  · exact ⟨_, _, rfl⟩

theorem startFirst_isOk (h : s.pcbs.pool.free ≠ []) : ∃ t, startFirst s = .ok t := by
  obtain ⟨b, t, ht⟩ := pcbAlloc_isOk h
  exact bind_isOk ht (bind_isOk (deref_ok.mpr rfl) ⟨_, rfl⟩)

theorem pcbPtrAlloc_isOk (h : s.pcbPtrs.pool.free ≠ []) :
    ∃ q t, pcbPtrAlloc s b = .ok (some q, t) := by
  unfold pcbPtrAlloc
  split
  · rename_i ha
    exact absurd (Store.alloc_eq_none.mp ha) h
  · exact ⟨_, _, rfl⟩

/-- A new process is made if there are a block and a pointer for it. -/
theorem newChild_isOk (h : KernelInv s) (hc : PtrInv s) (hp : s.running = some p)
    (hb : s.pcbs.pool.free ≠ []) (hq : s.pcbPtrs.pool.free ≠ []) :
    ∃ r, newChild s = .ok r := by
  obtain ⟨b, t, h1⟩ := pcbAlloc_isOk hb
  obtain ⟨b', u, hbb, hu, rfl⟩ := pcbAlloc_ok h1
  obtain rfl := Option.some.inj hbb
  have hpb : p ≠ b := fun he => hu.fresh (he ▸ h.proc.inUse_of_running hp)
  obtain ⟨q, v, h2⟩ := pcbPtrAlloc_isOk (b := b) (s := ((({ s with
    pcbs := u, lastPid := toInt (s.lastPid + 1), trace := .created s.lastPid :: s.trace } :
      Kernel).setStatus b .ready).modPcb b fun c => { c with parent := some p })) hq
  obtain ⟨q', w, hqq, hw, rfl⟩ := pcbPtrAlloc_ok h2
  obtain rfl := Option.some.inj hqq
  have hcell : ∀ k, u.cell k = _ := hu.cell
  have hchild : q ∉ (s.pcb p).children.items := fun hm => hw.fresh (hc.inUse p q hm)
  have hlinked : ¬ s.Linked b := fun hl => by
    rcases hl with hl | hl | hl
    all_goals exact hu.fresh (h.proc.inUse_of_mem hl)
  refine bind_isOk (deref_ok.mpr hp) (bind_isOk h1 (bind_isOk h2 (bind_isOk
    (listInsert_last_ok.mpr ⟨?_, rfl⟩) (bind_isOk (Kernel.insertProc_last_ok.mpr ⟨?_, rfl⟩)
      ⟨_, rfl⟩))))
  · simpa [Kernel.pcb, hcell, hpb] using hchild
  · simpa [Kernel.Linked] using hlinked

theorem internalSpawn_isOk (h : ∃ r, newChild s = .ok r) : ∃ t, internalSpawn s = .ok t := by
  obtain ⟨⟨o, t⟩, ht⟩ := h
  refine bind_isOk ht ?_
  cases o with
  | none => exact ⟨_, rfl⟩
  | some b => exact ⟨_, rfl⟩

theorem internalFork_isOk (h : ∃ r, newChild s = .ok r) : ∃ t, internalFork s = .ok t := by
  obtain ⟨r, hr⟩ := h
  exact bind_isOk hr ⟨_, rfl⟩

/-! ### Exit -/

theorem reparentChild_isOk {rest : List ℕ} (hpi : p ≠ i)
    (hc : (s.pcb p).children.items = q :: rest) (hq : q ∉ (s.pcb i).children.items) :
    ∃ t, reparentChild s p i q = .ok t := by
  refine bind_isOk (listDetach_ok.mpr ⟨by simp [hc], rfl⟩)
    (bind_isOk (listInsert_last_ok.mpr ⟨?_, rfl⟩) ⟨_, rfl⟩)
  simpa [hpi.symm] using hq

/-- The loop can hand the children of `p` over to `i`. -/
structure CanHandOver (s : Kernel) (p i : ℕ) : Prop where
  differ : p ≠ i
  nodup : (s.pcb p).children.items.Nodup
  disjoint : ∀ q ∈ (s.pcb p).children.items, q ∉ (s.pcb i).children.items

/-- A round of the loop. -/
theorem CanHandOver.round {rest : List ℕ} (h : CanHandOver s p i)
    (hr : (s.pcb p).children.items = q :: rest) :
    ∃ t, reparentChild s p i q = .ok t ∧ CanHandOver t p i ∧
      (t.pcb p).children.items = rest := by
  obtain ⟨hpi, hnd, hdis⟩ := h
  obtain ⟨t, ht⟩ := reparentChild_isOk hpi hr (hdis q (by simp [hr]))
  obtain ⟨-, sig, rfl⟩ := reparentChild_ok hpi hr ht
  rw [hr] at hnd hdis
  obtain ⟨hqr, hnd⟩ := List.nodup_cons.mp hnd
  refine ⟨_, ht, ⟨hpi, ?_, fun q' hq' => ?_⟩, by simp⟩
  · simpa using hnd
  · have hq'r : q' ∈ rest := by simpa using hq'
    have hne : q' ≠ q := fun he => hqr (he ▸ hq'r)
    simpa [hpi.symm, hne] using hdis q' (List.mem_cons_of_mem q hq'r)

/-- The loop takes as many rounds as there are children. -/
theorem CanHandOver.reparentChildren {fuel : ℕ} (h : CanHandOver s p i) :
    (fuel ≤ (s.pcb p).children.items.length → reparentChildren fuel s p i = .error .endless) ∧
      ((s.pcb p).children.items.length < fuel → ∃ t, reparentChildren fuel s p i = .ok t) := by
  induction fuel generalizing s with
  | zero => exact ⟨fun _ => rfl, fun hf => absurd hf (Nat.not_lt_zero _)⟩
  | succ fuel ih =>
    cases hr : (s.pcb p).children.items with
    | nil =>
      have hfirst : (s.pcb p).children.first = none := by
        rw [ListHead.first, hr, List.head?_nil]
      refine ⟨fun hf => absurd hf (Nat.not_succ_le_zero _), fun _ => ⟨s, ?_⟩⟩
      rw [DisastrOS.reparentChildren, hfirst]
    | cons q rest =>
      have hfirst : (s.pcb p).children.first = some q := by
        rw [ListHead.first, hr, List.head?_cons]
      obtain ⟨t, ht, h', hlen⟩ := h.round hr
      obtain ⟨hshort, hlong⟩ := ih h'
      rw [DisastrOS.reparentChildren, hfirst]
      simp only [ht, bind, Except.bind, hlen] at hshort hlong ⊢
      exact ⟨fun hf => hshort (Nat.le_of_succ_le_succ hf),
        fun hf => hlong (Nat.lt_of_succ_lt_succ hf)⟩

theorem PtrInv.canHandOver (hc : PtrInv s) (hpi : p ≠ i) : CanHandOver s p i :=
  ⟨hpi, hc.nodup p, fun q hq hq' => hpi (hc.disjoint p i q hq hq')⟩

theorem CanHandOver.congr (h : CanHandOver s p i)
    (hch : ∀ k, (s'.pcb k).children = (s.pcb k).children) : CanHandOver s' p i :=
  ⟨h.differ, by rw [hch]; exact h.nodup, by rw [hch, hch]; exact h.disjoint⟩

/-- The loop of exit over the children of a process other than init. -/
theorem handOver_isOk (s' : Kernel) (hc : PtrInv s) (hpi : p ≠ i)
    (hch : ∀ k, (s'.pcb k).children = (s.pcb k).children) :
    ∃ sig, reparentChildren ((s'.pcb p).children.items.length + 1) s' p i =
      .ok (handedOver s' p i sig) := by
  obtain ⟨t, ht⟩ := ((hc.canHandOver hpi).congr hch).reparentChildren.2 (Nat.lt_succ_self _)
  obtain ⟨-, sig, rfl⟩ := reparentChildren_ok ht
  exact ⟨sig, ht⟩

/-- A process other than init can become a zombie if it has a parent. -/
theorem exitPrologue_isOk (h : KernelInv s) (hc : PtrInv s) (hp : s.running = some p)
    (ha : (s.pcb p).parent = some a) (hi : s.initPcb = some i) (hpi : p ≠ i) :
    ∃ sig, exitPrologue s = .ok (p, a, zombified s p i sig) := by
  have hl := h.proc.not_linked hp
  have hok : ∃ r, exitPrologue s = .ok r := by
    refine bind_isOk (deref_ok.mpr hp) ?_
    simp only [Kernel.emit_initPcb, Kernel.modPcb_initPcb, hi]
    obtain ⟨sig, ht⟩ := handOver_isOk ((s.modPcb p fun c =>
      { c with returnValue := toInt (c.syscallArgs 0) }).emit
        (.exited (s.pcb p).pid (toInt ((s.pcb p).syscallArgs 0)))) hc hpi fun k => by simp
    refine bind_isOk ht (bind_isOk (Kernel.insertProc_last_ok.mpr ⟨?_, rfl⟩)
      (bind_isOk (a := a) (deref_ok.mpr ?_) ⟨_, rfl⟩))
    · simpa [handedOver, Kernel.Linked] using hl
    · simpa [handedOver] using ha
  obtain ⟨⟨p', a', t⟩, ht⟩ := hok
  obtain ⟨hp', ha', -, i', sig, hi', rfl⟩ := exitPrologue_ok ht
  obtain rfl : p = p' := Option.some.inj (hp ▸ hp')
  obtain rfl : a = a' := Option.some.inj (ha ▸ ha')
  obtain rfl : i = i' := Option.some.inj (hi ▸ hi')
  exact ⟨sig, ht⟩

/-- A process that was init before the present one has no parent to signal. -/
theorem exitPrologue_orphan (h : KernelInv s) (hc : PtrInv s) (hp : s.running = some p)
    (ha : (s.pcb p).parent = none) (hi : s.initPcb = some i) (hpi : p ≠ i) :
    exitPrologue s = .error .nullPointer := by
  have hl := h.proc.not_linked hp
  refine bind_error (deref_ok.mpr hp) ?_
  simp only [Kernel.emit_initPcb, Kernel.modPcb_initPcb, hi]
  obtain ⟨sig, ht⟩ := handOver_isOk ((s.modPcb p fun c =>
    { c with returnValue := toInt (c.syscallArgs 0) }).emit
      (.exited (s.pcb p).pid (toInt ((s.pcb p).syscallArgs 0)))) hc hpi fun k => by simp
  refine bind_error ht (bind_error (Kernel.insertProc_last_ok.mpr ⟨?_, rfl⟩) (bind_stuck ?_))
  · simpa [handedOver, Kernel.Linked] using hl
  · simp [handedOver, ha, deref]

theorem releaseDescriptor_isOk {d : ℕ} (h : ResInv s) (hd : d ∈ (s.pcb p).descriptors.items) :
    ∃ t, releaseDescriptor s p d = .ok t := by
  refine bind_isOk (listDetach_ok.mpr ⟨hd, rfl⟩) (bind_isOk (listDetach_ok.mpr ⟨?_, rfl⟩) ⟨_, rfl⟩)
  exact (h.linked p d hd).entry

theorem releaseDescriptors_isOk {fuel : ℕ} (h : ResInv s)
    (hf : (s.pcb p).descriptors.items.length < fuel) :
    ∃ t, releaseDescriptors fuel s p = .ok t := by
  induction fuel generalizing s with
  | zero => omega
  | succ fuel ih =>
    simp only [releaseDescriptors]
    split
    · exact ⟨s, rfl⟩
    · rename_i d hd
      obtain ⟨rest, hr⟩ := ListHead.first_eq_some hd
      obtain ⟨t, ht⟩ := releaseDescriptor_isOk (p := p) h (d := d) (by simp [hr])
      obtain ⟨r, e, hc⟩ := releaseDescriptor_closed ht
      refine bind_isOk ht (ih (h.closed hc) ?_)
      rw [hr, List.length_cons] at hf
      simp only [hc.descriptors, if_true, hr, List.erase_cons_head]
      omega

/-- A parent that waits takes the process over if it finds it among its children. -/
theorem exitToParent_isOk (hpa : p ≠ a) (ha : a ∈ (s.procs .waiting).items)
    (hq : pcbPtrByPid s (s.pcb a).children (s.pcb p).pid = some q)
    (ht : ∀ j ∈ s.timers.list.items, (s.timers.item.cell j).pcb ≠ p) (hr : ResInv s)
    (hz : p ∈ (s.procs .zombie).items) : ∃ t, exitToParent s p a = .ok t := by
  unfold exitToParent
  refine bind_isOk (Kernel.detachProc_ok.mpr ⟨ha, rfl⟩) (bind_isOk (a := q) (deref_ok.mpr ?_)
    (bind_isOk (listDetach_ok.mpr ⟨?_, rfl⟩) ?_))
  · simpa [pcbPtrByPid, hpa] using hq
  · simpa using List.mem_of_find?_eq_some hq
  · simp only [Kernel.emit_timers, storeResult_timers, Kernel.setRetvalue, Kernel.modPcb_timers,
      Kernel.setProcs_timers, Kernel.setStatus]
    refine bind_isOk (releaseTimers_eq ht) ?_
    generalize hv : Kernel.setTimers _ _ = v
    have hrv : ResInv v := by
      rw [← hv]
      refine hr.frame ?_
      constructor <;> intros <;> simp
    have hzv : p ∈ (v.procs .zombie).items := by
      rw [← hv]
      simpa using hz
    obtain ⟨u, hu⟩ := releaseDescriptors_isOk (p := p) hrv (Nat.lt_succ_self _)
    obtain ⟨l, t, rfl⟩ := releaseDescriptors_ok hu
    exact bind_isOk hu (bind_isOk (Kernel.detachProc_ok.mpr ⟨hzv, rfl⟩) ⟨_, rfl⟩)

theorem internalExit_eq {u : Kernel} (h : exitPrologue s = .ok (p, a, u)) :
    internalExit s = if WaitsFor u a p then exitToParent u p a
      else deref (u.procs .ready).first >>= fun q => u.detachProc .ready q >>= fun v =>
        .ok ((v.setStatus q .running).setRunning (some q)) := by
  simp only [internalExit, h, bind, Except.bind]

/-- The exit of `p` returns to a parent that waits for it and finds it. -/
theorem internalExit_toParent (h : KernelInv s) (hc : PtrInv s) (hres : ResInv s)
    (hp : s.running = some p) (ha : (s.pcb p).parent = some a) (hi : s.initPcb = some i)
    (hpi : p ≠ i) (hw : WaitsFor s a p)
    (hq : pcbPtrByPid s (reparented s p i a) (s.pcb p).pid = some q) :
    ∃ t, internalExit s = .ok t ∧ Delivered s t p a i q := by
  have hl := h.proc.not_linked hp
  simp only [Kernel.Linked, not_or] at hl
  have haw := (h.proc.waiting a).mp hw.1
  have hap := h.proc.running_ne hp haw
  obtain ⟨sig, hpro⟩ := exitPrologue_isOk h hc hp ha hi hpi
  have hnone : ∀ j ∈ s.timers.list.items, (s.timers.item.cell j).pcb ≠ p := fun j hj hjp =>
    hl.2.1 (hjp ▸ (h.wake.sleeping j hj).1)
  have hok : ∃ t, internalExit s = .ok t := by
    rw [internalExit_eq hpro, if_pos]
    · refine exitToParent_isOk (q := q) hap.symm ?_ ?_ hnone
        (hres.frame (zombified_frame s p i sig).2) (by simp [zombified])
      · simpa [zombified] using haw
      · simpa [pcbPtrByPid, zombified] using hq
    · exact (waitsFor_zombified fun hs => hl.2.1 ((h.proc.waiting p).mp hs)).mpr hw
  obtain ⟨t, ht⟩ := hok
  refine ⟨t, ht, ?_⟩
  obtain ⟨p', a', i', sig', hp', ha', hi', -, he⟩ := internalExit_returns h.proc h.wake ht
  obtain rfl : p = p' := Option.some.inj (hp ▸ hp')
  obtain rfl : a = a' := Option.some.inj (ha ▸ ha')
  obtain rfl : i = i' := Option.some.inj (hi ▸ hi')
  cases he with
  | toParent q' u _ _ found released result =>
    obtain rfl : q = q' := Option.some.inj (hq ▸ found)
    exact result ▸ reclaimed_delivered hl.2.2 hap released
  | toNext _ _ noWaiter => exact absurd hw noWaiter

end DisastrOS
