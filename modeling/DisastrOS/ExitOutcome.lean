import DisastrOS.Outcome

/-! What exit and wait have done when they return. -/
namespace DisastrOS
open BlockPool

variable {s s' : Kernel} {p q b a i d : ℕ}

/-! ### The children of an exiting process -/

/-- The children of `k` after those of `p` have gone to `i`. -/
def reparented (s : Kernel) (p i k : ℕ) : ListHead :=
  if k = p then ⟨[], (s.pcb p).children.size - (s.pcb p).children.items.length⟩
  else if k = i then ⟨(s.pcb i).children.items ++ (s.pcb p).children.items,
    (s.pcb i).children.size + (s.pcb p).children.items.length⟩
  else (s.pcb k).children

/-- The children of `p` have gone to `i`, and the signals are now `sig`. -/
def handedOver (s : Kernel) (p i : ℕ) (sig : ℕ → BitVec 32) : Kernel :=
  s.mapPcbs fun k c => { c with signals := sig k, children := reparented s p i k }

theorem Kernel.modPcb_eq_mapPcbs (s : Kernel) (b : ℕ) (f : PCB → PCB) :
    s.modPcb b f = s.mapPcbs fun k c => if k = b then f c else c := rfl

theorem Kernel.mapPcbs_mapPcbs (s : Kernel) (f g : ℕ → PCB → PCB) :
    (s.mapPcbs f).mapPcbs g = s.mapPcbs fun k c => g k (f k c) := rfl

theorem Kernel.mapPcbs_congr {f g : ℕ → PCB → PCB} (h : ∀ k, f k (s.pcb k) = g k (s.pcb k)) :
    s.mapPcbs f = s.mapPcbs g := by
  simp only [Kernel.mapPcbs, Kernel.mk.injEq, true_and, and_true, Store.mk.injEq]
  exact funext h

theorem reparentChild_ok {rest : List ℕ} (hpi : p ≠ i) (hi : (s.pcb p).children.items = q :: rest)
    (h : reparentChild s p i q = .ok s') :
    q ∉ (s.pcb i).children.items ∧ ∃ sig : ℕ → BitVec 32, s' = s.mapPcbs fun k c => { c with
      signals := sig k
      children := if k = p then ⟨rest, c.children.size - 1⟩
        else if k = i then ⟨c.children.items ++ [q], c.children.size + 1⟩ else c.children } := by
  simp only [reparentChild, bind_ok, listDetach_ok, listInsert_last_ok, Except.ok.injEq] at h
  obtain ⟨_, ⟨-, rfl⟩, _, ⟨hq, rfl⟩, rfl⟩ := h
  simp only [Kernel.pcb_modPcb, hpi.symm, if_false] at hq
  refine ⟨hq, fun k => if k = (s.pcbPtrs.cell q).pcb then
    (s.pcb k).signals ||| (dsosSighup &&& (s.pcb k).signalsMask) else (s.pcb k).signals, ?_⟩
  simp only [Kernel.modPcb_eq_mapPcbs, Kernel.mapPcbs_mapPcbs]
  refine Kernel.mapPcbs_congr fun k => ?_
  simp only [Kernel.mapPcbs_pcbPtrs]
  by_cases hkp : k = p
  · subst hkp
    simp only [hpi, if_true, if_false, hi, List.erase_cons_head]
    split_ifs <;> rfl
  · by_cases hki : k = i
    · subst hki
      simp only [hkp, if_true, if_false, Kernel.pcb_mapPcbs]
      split_ifs <;> rfl
    · simp only [hkp, hki, if_false]
      split_ifs <;> rfl

theorem eq_handedOver (hi : (s.pcb p).children.items = []) : ∃ sig, s = handedOver s p i sig := by
  refine ⟨fun k => (s.pcb k).signals, ?_⟩
  refine (Kernel.mapPcbs_congr (f := fun _ c => c) fun k => ?_)
  simp only [reparented, hi]
  split_ifs with h1 h2
  · subst h1
    rw [List.length_nil, Int.natCast_zero, Int.sub_zero, ← hi]
  · subst h2
    simp
  · rfl

/-- Handing children over to their own parent never ends. -/
theorem reparentChildren_self {fuel : ℕ} (hne : (s.pcb p).children.items ≠ []) :
    reparentChildren fuel s p p ≠ .ok s' := by
  induction fuel generalizing s with
  | zero => simp [reparentChildren]
  | succ fuel ih =>
    intro h
    simp only [reparentChildren] at h
    split at h
    · rename_i hf
      exact hne (ListHead.first_eq_none hf)
    · rename_i q hf
      obtain ⟨s1, h1, h⟩ := bind_ok.mp h
      simp only [reparentChild, bind_ok, listDetach_ok, listInsert_last_ok, Except.ok.injEq] at h1
      obtain ⟨_, ⟨-, rfl⟩, _, ⟨-, rfl⟩, rfl⟩ := h1
      refine ih ?_ h
      simp

theorem reparentChildren_ok {fuel : ℕ} (h : reparentChildren fuel s p i = .ok s') :
    ((s.pcb p).children.items ≠ [] → p ≠ i) ∧ ∃ sig, s' = handedOver s p i sig := by
  refine ⟨?_, ?_⟩
  · rintro hne rfl
    exact reparentChildren_self hne h
  induction fuel generalizing s with
  | zero => cases h
  | succ fuel ih =>
    have h0 := h
    simp only [reparentChildren] at h
    split at h
    · rename_i hf
      exact Except.ok.inj h ▸ eq_handedOver (ListHead.first_eq_none hf)
    · rename_i q hf
      obtain ⟨rest, hi⟩ := ListHead.first_eq_some hf
      have hpi : p ≠ i := by
        rintro rfl
        exact reparentChildren_self (by simp [hi]) h0
      obtain ⟨s1, h1, h⟩ := bind_ok.mp h
      obtain ⟨-, sig, rfl⟩ := reparentChild_ok hpi hi h1
      obtain ⟨sig', rfl⟩ := ih h
      refine ⟨sig', ?_⟩
      simp only [handedOver, Kernel.mapPcbs_mapPcbs]
      refine Kernel.mapPcbs_congr fun k => ?_
      by_cases hkp : k = p
      · subst hkp
        simp [reparented, hi]
        omega
      · by_cases hki : k = i
        · subst hki
          simp [reparented, hi, hkp]
          omega
        · simp [reparented, hkp, hki]

/-! ### Exit -/

/-- The process `p` is a zombie and `i` has its children. -/
def zombified (s : Kernel) (p i : ℕ) (sig : ℕ → BitVec 32) : Kernel :=
  ((s.mapPcbs fun k c => { c with
      returnValue := if k = p then toInt (c.syscallArgs 0) else c.returnValue
      status := if k = p then .zombie else c.status
      signals := sig k
      children := reparented s p i k }).setProcs .zombie
    ⟨(s.procs .zombie).items ++ [p], (s.procs .zombie).size + 1⟩).emit
      (.exited (s.pcb p).pid (toInt ((s.pcb p).syscallArgs 0)))

theorem exitPrologue_ok (h : exitPrologue s = .ok (p, a, s')) :
    s.running = some p ∧ (s.pcb p).parent = some a ∧ ¬ s.Linked p ∧
      ∃ i sig, s.initPcb = some i ∧ s' = zombified s p i sig := by
  obtain ⟨p', hp, h⟩ := bind_ok.mp h
  rw [deref_ok] at hp
  simp only [Kernel.emit_initPcb, Kernel.modPcb_initPcb] at h
  split at h
  · cases h
  rename_i i hi
  obtain ⟨s1, h1, h⟩ := bind_ok.mp h
  simp only [bind_ok, Kernel.setStatus, Kernel.insertProc_last_ok, deref_ok, Except.ok.injEq,
    Prod.mk.injEq] at h
  obtain ⟨_, ⟨hl, rfl⟩, a, ha, rfl, rfl, rfl⟩ := h
  obtain ⟨hne, sig, rfl⟩ := reparentChildren_ok h1
  simp only [Kernel.pcb_setProcs, Kernel.pcb_modPcb, if_true] at ha
  refine ⟨hp, ?_, ?_, i, fun k => if k = a then
    sig k ||| (dsosSigchld &&& (s.pcb k).signalsMask) else sig k, hi, ?_⟩
  · simpa [handedOver] using ha
  · simpa [handedOver, Kernel.Linked] using hl
  refine Kernel.eq_of_pcb rfl rfl fun k => ?_
  clear hne h1 hl ha
  by_cases hkp : k = p'
  · subst hkp
    by_cases hka : k = a
    · subst hka
      simp [handedOver, zombified, reparented]
    · simp [handedOver, zombified, reparented, hka]
  · by_cases hka : k = a
    · subst hka
      simp [handedOver, zombified, reparented, hkp]
    · simp [handedOver, zombified, reparented, hkp, hka]

/-- Releasing the resources of `p` changes its descriptors and the tables of resources. -/
theorem releaseDescriptor_ok (h : releaseDescriptor s p d = .ok s') :
    d ∈ (s.pcb p).descriptors.items ∧ ∃ t, s' = (s.modPcb p fun c => { c with
      descriptors := ⟨(s.pcb p).descriptors.items.erase d, (s.pcb p).descriptors.size - 1⟩
      }).setResources t := by
  simp only [releaseDescriptor, bind_ok, listDetach_ok, Except.ok.injEq] at h
  obtain ⟨_, ⟨hd, rfl⟩, _, ⟨-, rfl⟩, rfl⟩ := h
  exact ⟨hd, _, rfl⟩

theorem releaseDescriptors_ok {fuel : ℕ} (h : releaseDescriptors fuel s p = .ok s') :
    ∃ l t, s' = (s.modPcb p fun c => { c with descriptors := ⟨[], l⟩ }).setResources t := by
  induction fuel generalizing s with
  | zero => cases h
  | succ fuel ih =>
    simp only [releaseDescriptors] at h
    split at h
    · rename_i hf
      have hi := ListHead.first_eq_none hf
      obtain rfl := Except.ok.inj h
      refine ⟨(s.pcb p).descriptors.size, s.resources, Kernel.eq_of_pcb rfl rfl fun k => ?_⟩
      by_cases hk : k = p
      · subst hk
        simp [← hi]
      · simp [hk]
    · obtain ⟨s1, h1, h⟩ := bind_ok.mp h
      obtain ⟨-, t, rfl⟩ := releaseDescriptor_ok h1
      obtain ⟨l, t', rfl⟩ := ih h
      refine ⟨l, t', Kernel.eq_of_pcb rfl rfl fun k => ?_⟩
      by_cases hk : k = p
      · subst hk
        simp
      · simp [hk]

/-- What holds before and is kept by every round of the loop that closes the resources of `p`
holds at its end. -/
theorem releaseDescriptors_induct {P : Kernel → Prop}
    (hround : ∀ s s' d, P s → releaseDescriptor s p d = .ok s' → P s')
    {fuel : ℕ} (h : releaseDescriptors fuel s p = .ok s') (h0 : P s) : P s' := by
  induction fuel generalizing s with
  | zero => cases h
  | succ fuel ih =>
    simp only [releaseDescriptors] at h
    split at h
    · exact Except.ok.inj h ▸ h0
    · obtain ⟨s1, h1, h⟩ := bind_ok.mp h
      exact ih h (hround _ _ _ h0 h1)

/-- The parent `a`, waiting for `p`, has taken over its result, and `q` is no child of it. -/
def handedToParent (s : Kernel) (p a q : ℕ) : Kernel :=
  (storeResult (((s.setProcs .waiting
    ⟨(s.procs .waiting).items.erase a, (s.procs .waiting).size - 1⟩).modPcb a fun c => { c with
      status := .running
      children := ⟨c.children.items.erase q, c.children.size - 1⟩
      syscallRetvalue := (s.pcb p).pid }).emit (.assigned a (s.pcb p).pid))
    ((s.pcb a).syscallArgs 1) (s.pcb p).returnValue).emit (.collected (s.pcb p).pid a
      (if (s.pcb a).syscallArgs 1 = 0 then none else some (s.pcb p).returnValue))

/-- The block of `p` is free, and `a` runs. -/
def reclaimed (s : Kernel) (p a : ℕ) : Kernel :=
  (pcbFree (s.setProcs .zombie
    ⟨(s.procs .zombie).items.erase p, (s.procs .zombie).size - 1⟩) p).setRunning (some a)

theorem exitToParent_ok (hpa : p ≠ a) (h : exitToParent s p a = .ok s') :
    a ∈ (s.procs .waiting).items ∧
      ∃ q t u, pcbPtrByPid s (s.pcb a).children (s.pcb p).pid = some q ∧
        releaseTimers s.timers p s.timers.list.items = .ok t ∧
        releaseDescriptors ((s.pcb p).descriptors.items.length + 1)
          ((handedToParent s p a q).setTimers t) p = .ok u ∧
        p ∈ (u.procs .zombie).items ∧ s' = reclaimed u p a := by
  simp only [exitToParent, bind_ok, Kernel.detachProc_ok, deref_ok, listDetach_ok,
    Except.ok.injEq] at h
  obtain ⟨_, ⟨ha, rfl⟩, q, hq, _, ⟨hc, rfl⟩, t, ht, u, hu, _, ⟨hz, rfl⟩, rfl⟩ := h
  have hfind : pcbPtrByPid s (s.pcb a).children (s.pcb p).pid = some q := by
    simpa [pcbPtrByPid, hpa] using hq
  refine ⟨ha, q, t, u, hfind, by simpa using ht, ?_, hz, rfl⟩
  simp only [Kernel.setStatus, Kernel.setRetvalue, Kernel.pcb_setTimers, Kernel.pcb_emit,
    Kernel.pcb_storeResult, Kernel.pcb_modPcb, Kernel.pcb_setProcs, hpa, if_false, if_true] at hu
  convert hu using 2
  refine Kernel.eq_of_pcb rfl rfl fun k => ?_
  by_cases hka : k = a
  · subst hka
    simp [handedToParent]
  · simp [handedToParent, hka]

/-- The first ready process `q`, followed by `rest`, runs, with the status that says so. -/
def resumed (s : Kernel) (q : ℕ) (rest : List ℕ) : Kernel :=
  ((s.setProcs .ready ⟨rest, (s.procs .ready).size - 1⟩).setStatus q .running).setRunning (some q)

theorem internalExit_ok (h : internalExit s = .ok s') :
    ∃ p a i sig, s.running = some p ∧ (s.pcb p).parent = some a ∧ ¬ s.Linked p ∧
      s.initPcb = some i ∧
      (WaitsFor (zombified s p i sig) a p ∧ exitToParent (zombified s p i sig) p a = .ok s' ∨
        ¬ WaitsFor (zombified s p i sig) a p ∧ ∃ q rest, (s.procs .ready).items = q :: rest ∧
          s' = resumed (zombified s p i sig) q rest) := by
  obtain ⟨⟨p, a, s1⟩, h1, h⟩ := bind_ok.mp h
  obtain ⟨hp, ha, hl, i, sig, hi, rfl⟩ := exitPrologue_ok h1
  refine ⟨p, a, i, sig, hp, ha, hl, hi, ?_⟩
  simp only at h
  split_ifs at h with hw
  · exact Or.inl ⟨hw, h⟩
  · simp only [bind_ok, deref_first_ok, Except.ok.injEq] at h
    obtain ⟨q, ⟨rest, hr⟩, _, h2, rfl⟩ := h
    obtain rfl := (Kernel.detachProc_first_ok hr).mp h2
    exact Or.inr ⟨hw, q, rest, by simpa [zombified] using hr, rfl⟩

/-! ### Wait -/

theorem awaitedPtr_mem {pid : ℤ} {l : List ℕ} (h : awaitedPtr s pid l = some q) : q ∈ l := by
  fun_induction awaitedPtr s pid l with
  | case1 => cases h
  | case2 q => simp_all
  | case3 q q' qs _ => simp_all
  | case4 q q' qs _ ih => exact List.mem_cons_of_mem _ (ih h)

theorem awaitedPtr_eq_none {pid : ℤ} {l : List ℕ} : awaitedPtr s pid l = none ↔ l = [] := by
  fun_induction awaitedPtr s pid l <;> simp_all

/-- `p` has collected the zombie `b`, and `q` is no child of it. -/
def reaped (s : Kernel) (p q b : ℕ) : Kernel :=
  pcbFree ((storeResult (((pcbPtrFree (s.modPcb p fun c => { c with
      children := ⟨c.children.items.erase q, c.children.size - 1⟩
      syscallRetvalue := (s.pcb b).pid }) q).setProcs .zombie
    ⟨(s.procs .zombie).items.erase b, (s.procs .zombie).size - 1⟩).emit
      (.assigned p (s.pcb b).pid)) ((s.pcb p).syscallArgs 1) (s.pcb b).returnValue).emit
    (.collected (s.pcb b).pid p
      (if (s.pcb p).syscallArgs 1 = 0 then none else some (s.pcb b).returnValue))) b

theorem detachZombie_ok : detachZombie s b = .ok s' ↔
    (s.Linked b → b ∈ (s.procs .zombie).items) ∧ s' = s.setProcs .zombie
      ⟨(s.procs .zombie).items.erase b, (s.procs .zombie).size - 1⟩ := by
  unfold detachZombie
  split_ifs with hb
  · simp only [false_iff, not_and]
    exact fun h => absurd (h hb.1) hb.2
  · rw [Except.ok.injEq, not_and_not_right] at *
    exact ⟨fun h => ⟨hb, h.symm⟩, fun h => h.2.symm⟩

theorem collectZombie_ok (h : collectZombie s p q b = .ok s') :
    q ∈ (s.pcb p).children.items ∧ (s.Linked b → b ∈ (s.procs .zombie).items) ∧
      s' = reaped s p q b := by
  simp only [collectZombie, bind_ok, listDetach_ok, detachZombie_ok, Except.ok.injEq] at h
  obtain ⟨_, ⟨hq, rfl⟩, _, ⟨hb, rfl⟩, rfl⟩ := h
  refine ⟨hq, by simpa [Kernel.Linked] using hb, ?_⟩
  simp only [Kernel.setRetvalue, Kernel.pcb_emit, Kernel.pcb_modPcb, Kernel.pcb_setProcs,
    Kernel.pcb_pcbPtrFree, PCB.pid_ite, PCB.returnValue_ite, PCB.syscallArgs_ite, ite_self]
  refine Kernel.eq_of_pcb rfl rfl fun k => ?_
  by_cases hkp : k = p
  · subst hkp
    simp [reaped]
  · simp [reaped, hkp]

theorem internalWait_ok (h : internalWait s = .ok s') :
    ∃ p, s.running = some p ∧
      ((s.pcb p).children.items = [] ∧ s' = s.setRetvalue p dsosEwait ∨
      ∃ q b, awaitedPtr s (toInt ((s.pcb p).syscallArgs 0)) (s.pcb p).children.items = some q ∧
        b = (s.pcbPtrs.cell q).pcb ∧
        ((s.pcb b).status = .zombie ∧ collectZombie s p q b = .ok s' ∨
          (s.pcb b).status ≠ .zombie ∧ waitBlock s p = .ok s')) := by
  obtain ⟨p, hp, h⟩ := bind_ok.mp h
  refine ⟨p, deref_ok.mp hp, ?_⟩
  simp only at h
  split at h
  · rename_i hn
    refine Or.inl ⟨?_, (Except.ok.inj h).symm⟩
    exact awaitedPtr_eq_none.mp hn
  · rename_i q hq
    refine Or.inr ⟨q, _, hq, rfl, ?_⟩
    split_ifs at h with hz
    · exact Or.inl ⟨hz, h⟩
    · exact Or.inr ⟨hz, h⟩

end DisastrOS
