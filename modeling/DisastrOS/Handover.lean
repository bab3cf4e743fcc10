import DisastrOS.ChildInvariant

/-! Exit and wait hand over each child once, with the value that it has passed to exit. -/
namespace DisastrOS
open BlockPool TransitionSystem

/-! ### The pids in a list of events -/

def createdPids (l : List Event) : List ℤ :=
  l.filterMap fun
    | .created c => some c
    | _ => none

def exitedPids (l : List Event) : List ℤ :=
  l.filterMap fun
    | .exited c _ => some c
    | _ => none

def collectedPids (l : List Event) : List ℤ :=
  l.filterMap fun
    | .collected c _ _ => some c
    | _ => none

section
variable {l l' : List Event} {c v : ℤ} {w : ℕ} {r : Option ℤ}

theorem mem_exitedPids : c ∈ exitedPids l ↔ ∃ v, .exited c v ∈ l := by
  simp only [exitedPids, List.mem_filterMap]
  constructor
  · rintro ⟨e, he, hc⟩
    cases e with
    | exited d v =>
      obtain rfl := Option.some.inj hc
      exact ⟨v, he⟩
    | _ => cases hc
  · rintro ⟨v, hv⟩
    exact ⟨_, hv, rfl⟩

theorem mem_collectedPids : c ∈ collectedPids l ↔ ∃ w r, .collected c w r ∈ l := by
  simp only [collectedPids, List.mem_filterMap]
  constructor
  · rintro ⟨e, he, hc⟩
    cases e with
    | collected d w r =>
      obtain rfl := Option.some.inj hc
      exact ⟨w, r, he⟩
    | _ => cases hc
  · rintro ⟨w, r, hw⟩
    exact ⟨_, hw, rfl⟩

theorem filterMap_history {f : Event → Option ℤ} (hf : ∀ b v, f (.assigned b v) = none)
    (l : List Event) : (history l).filterMap f = l.filterMap f := by
  induction l with
  | nil => rfl
  | cons e l ih =>
    cases e with
    | assigned b v => simp [ih, hf]
    | _ => simpa [history, List.filterMap_cons] using by rw [← ih]; rfl

theorem createdPids_history : createdPids (history l) = createdPids l :=
  filterMap_history (fun _ _ => rfl) l

theorem exitedPids_history : exitedPids (history l) = exitedPids l :=
  filterMap_history (fun _ _ => rfl) l

theorem collectedPids_history : collectedPids (history l) = collectedPids l :=
  filterMap_history (fun _ _ => rfl) l

/-- Every process was collected after it had exited, with the value of that exit. -/
def CollectedAfterExit (l : List Event) : Prop :=
  ∀ later earlier c w r, l = later ++ .collected c w r :: earlier →
    ∃ v, .exited c v ∈ earlier ∧ (r = none ∨ r = some v)

theorem CollectedAfterExit.cons {e : Event} (h : CollectedAfterExit l)
    (he : ∀ c w r, e = .collected c w r → ∃ v, .exited c v ∈ l ∧ (r = none ∨ r = some v)) :
    CollectedAfterExit (e :: l) := by
  intro later earlier c w r hl
  rcases List.cons_eq_append_iff.mp hl with ⟨-, hl⟩ | ⟨later, -, hl⟩
  · obtain ⟨hc, rfl⟩ := List.cons.inj hl
    exact he c w r hc.symm
  · exact h later earlier c w r hl

end

/-- The zombies are the processes in use that have exited; no process in use was collected. -/
structure HandoverInv (s : Kernel) : Prop where
  created : (createdPids (history s.trace)).Nodup
  createdBound : ∀ c ∈ createdPids (history s.trace), c < s.lastPid
  exited : (exitedPids (history s.trace)).Nodup
  exitedBound : ∀ c ∈ exitedPids (history s.trace), c < s.lastPid
  collected : (collectedPids (history s.trace)).Nodup
  afterExit : CollectedAfterExit (history s.trace)
  zombie : ∀ b, s.pcbs.InUse b →
    ((s.pcb b).pid ∈ exitedPids (history s.trace) ↔ b ∈ (s.procs .zombie).items)
  value : ∀ b v, s.pcbs.InUse b → .exited (s.pcb b).pid v ∈ history s.trace →
    (s.pcb b).returnValue = v
  gone : ∀ b, s.pcbs.InUse b → (s.pcb b).pid ∉ collectedPids (history s.trace)

namespace HandoverInv
variable {s s' : Kernel} {p q a b i : ℕ}

theorem collectedExited (h : HandoverInv s) {c : ℤ}
    (hc : c ∈ collectedPids (history s.trace)) : c ∈ exitedPids (history s.trace) := by
  obtain ⟨w, r, hm⟩ := mem_collectedPids.mp hc
  obtain ⟨later, earlier, hl⟩ := List.append_of_mem hm
  obtain ⟨v, hv, -⟩ := h.afterExit _ _ _ _ _ hl
  rw [hl]
  exact mem_exitedPids.mpr ⟨v, List.mem_append_right _ (List.mem_cons_of_mem _ hv)⟩

theorem family (h : HandoverInv s) (hs : SameFamily s s') : HandoverInv s' := by
  constructor
  case created => exact hs.history ▸ h.created
  case createdBound => exact hs.history ▸ hs.lastPid ▸ h.createdBound
  case exited => exact hs.history ▸ h.exited
  case exitedBound => exact hs.history ▸ hs.lastPid ▸ h.exitedBound
  case collected => exact hs.history ▸ h.collected
  case afterExit => exact hs.history ▸ h.afterExit
  case zombie =>
    intro b hb
    rw [hs.history, hs.pid, hs.zombies]
    exact h.zombie b ((hs.inUse b).mp hb)
  case value =>
    intro b v hb
    rw [hs.history, hs.pid, hs.returnValue]
    exact h.value b v ((hs.inUse b).mp hb)
  case gone =>
    intro b hb
    rw [hs.history, hs.pid]
    exact h.gone b ((hs.inUse b).mp hb)

theorem newProcess (h : HandoverInv s) (hproc : ProcInv s) (hc : NewProcess s s' b)
    (hlast : s'.lastPid = s.lastPid + 1) : HandoverInv s' := by
  have hhist := hc.history
  have hcr : createdPids (history s'.trace) = s.lastPid :: createdPids (history s.trace) := by
    rw [hhist]
    rfl
  have hex : exitedPids (history s'.trace) = exitedPids (history s.trace) := by
    rw [hhist]
    rfl
  have hco : collectedPids (history s'.trace) = collectedPids (history s.trace) := by
    rw [hhist]
    rfl
  -- the new process is not in the history yet, and the others are as they were
  have hnew : (s'.pcb b).pid = s.lastPid := by rw [hc.pid, if_pos rfl]
  have hnotExited : s.lastPid ∉ exitedPids (history s.trace) := fun hm =>
    lt_irrefl _ (h.exitedBound _ hm)
  have hold : ∀ k, s'.pcbs.InUse k → k ≠ b → s.pcbs.InUse k ∧ (s'.pcb k).pid = (s.pcb k).pid ∧
      (s'.pcb k).returnValue = (s.pcb k).returnValue := by
    intro k hk hkb
    exact ⟨((hc.inUse k).mp hk).resolve_right hkb, by rw [hc.pid, if_neg hkb],
      by rw [hc.returnValue, if_neg hkb]⟩
  have hzombies : (s'.procs .zombie).items = (s.procs .zombie).items := by rw [hc.zombies]
  constructor
  case created =>
    rw [hcr]
    exact List.nodup_cons.mpr ⟨fun hm => lt_irrefl _ (h.createdBound _ hm), h.created⟩
  case createdBound =>
    rw [hcr, hlast]
    intro c hm
    rcases List.mem_cons.mp hm with rfl | hm
    · omega
    · have := h.createdBound c hm
      omega
  case exited => exact hex ▸ h.exited
  case exitedBound =>
    intro c hm
    have := h.exitedBound c (hex ▸ hm)
    omega
  case collected => exact hco ▸ h.collected
  case afterExit =>
    rw [hhist]
    exact h.afterExit.cons fun c w r he => by cases he
  case zombie =>
    intro k hk
    rw [hex, hzombies]
    by_cases hkb : k = b
    · subst hkb
      rw [hnew]
      exact ⟨fun hm => absurd hm hnotExited, fun hm => absurd (hproc.inUse_of_mem hm) hc.fresh⟩
    · obtain ⟨hu, hp, -⟩ := hold k hk hkb
      rw [hp]
      exact h.zombie k hu
  case value =>
    intro k v hk hv
    rw [hhist] at hv
    have hv' : .exited (s'.pcb k).pid v ∈ history s.trace := by simpa using hv
    by_cases hkb : k = b
    · subst hkb
      rw [hnew] at hv'
      exact absurd (mem_exitedPids.mpr ⟨v, hv'⟩) hnotExited
    · obtain ⟨hu, hp, hr⟩ := hold k hk hkb
      rw [hr]
      exact h.value k v hu (hp ▸ hv')
  case gone =>
    intro k hk
    rw [hco]
    by_cases hkb : k = b
    · subst hkb
      rw [hnew]
      exact fun hm => hnotExited (h.collectedExited hm)
    · obtain ⟨hu, hp, -⟩ := hold k hk hkb
      rw [hp]
      exact h.gone k hu

/-- The history after an exit of the process `p`. -/
theorem exits (h : HandoverInv s) (hpid : PidInv s) (hu : s.pcbs.InUse p)
    (hz : p ∉ (s.procs .zombie).items) (hinUse : ∀ k, s'.pcbs.InUse k ↔ s.pcbs.InUse k)
    (hlast : s'.lastPid = s.lastPid) (hp : ∀ k, (s'.pcb k).pid = (s.pcb k).pid)
    (hzombies : (s'.procs .zombie).items = (s.procs .zombie).items ++ [p])
    (hreturn : ∀ k, (s'.pcb k).returnValue =
      if k = p then toInt ((s.pcb p).syscallArgs 0) else (s.pcb k).returnValue)
    (hhist : history s'.trace =
      .exited (s.pcb p).pid (toInt ((s.pcb p).syscallArgs 0)) :: history s.trace) :
    HandoverInv s' := by
  have hcr : createdPids (history s'.trace) = createdPids (history s.trace) := by
    rw [hhist]
    rfl
  have hex : exitedPids (history s'.trace) =
      (s.pcb p).pid :: exitedPids (history s.trace) := by
    rw [hhist]
    rfl
  have hco : collectedPids (history s'.trace) = collectedPids (history s.trace) := by
    rw [hhist]
    rfl
  have hnew : (s.pcb p).pid ∉ exitedPids (history s.trace) := fun hm => hz ((h.zombie p hu).mp hm)
  constructor
  case created => exact hcr ▸ h.created
  case createdBound => exact hcr ▸ hlast ▸ h.createdBound
  case exited =>
    rw [hex]
    exact List.nodup_cons.mpr ⟨hnew, h.exited⟩
  case exitedBound =>
    rw [hex, hlast]
    intro c hm
    rcases List.mem_cons.mp hm with rfl | hm
    · exact (hpid.bounds p hu).2
    · exact h.exitedBound c hm
  case collected => exact hco ▸ h.collected
  case afterExit =>
    rw [hhist]
    exact h.afterExit.cons fun c w r he => by cases he
  case zombie =>
    intro k hk
    rw [hinUse] at hk
    rw [hex, hp, hzombies, List.mem_cons, List.mem_append, List.mem_singleton, h.zombie k hk]
    constructor
    · rintro (he | hm)
      · exact Or.inr (hpid.distinct k p hk hu he)
      · exact Or.inl hm
    · rintro (hm | rfl)
      · exact Or.inr hm
      · exact Or.inl rfl
  case value =>
    intro k v hk hv
    rw [hinUse] at hk
    rw [hhist, hp, List.mem_cons] at hv
    rw [hreturn]
    split_ifs with hkp
    · subst hkp
      rcases hv with hv | hv
      · exact (Event.exited.inj hv).2.symm
      · exact absurd (mem_exitedPids.mpr ⟨v, hv⟩) hnew
    · rcases hv with hv | hv
      · exact absurd (hpid.distinct k p hk hu (Event.exited.inj hv).1) hkp
      · exact h.value k v hk hv
  case gone =>
    intro k hk
    rw [hco, hp]
    exact h.gone k ((hinUse k).mp hk)

/-- The history after the zombie `b` has been collected. -/
theorem collects (h : HandoverInv s) (hpid : PidInv s) (hu : s.pcbs.InUse b) {w : ℕ}
    {r : Option ℤ} (hz : b ∈ (s.procs .zombie).items)
    (hr : r = none ∨ r = some (s.pcb b).returnValue)
    (hinUse : ∀ k, s'.pcbs.InUse k ↔ s.pcbs.InUse k ∧ k ≠ b)
    (hlast : s'.lastPid = s.lastPid) (hp : ∀ k, (s'.pcb k).pid = (s.pcb k).pid)
    (hzombies : ∀ k, k ∈ (s'.procs .zombie).items ↔ k ∈ (s.procs .zombie).items ∧ k ≠ b)
    (hreturn : ∀ k, (s'.pcb k).returnValue = (s.pcb k).returnValue)
    (hhist : history s'.trace = .collected (s.pcb b).pid w r :: history s.trace) :
    HandoverInv s' := by
  have hcr : createdPids (history s'.trace) = createdPids (history s.trace) := by
    rw [hhist]
    rfl
  have hex : exitedPids (history s'.trace) = exitedPids (history s.trace) := by
    rw [hhist]
    rfl
  have hco : collectedPids (history s'.trace) =
      (s.pcb b).pid :: collectedPids (history s.trace) := by
    rw [hhist]
    rfl
  constructor
  case created => exact hcr ▸ h.created
  case createdBound => exact hcr ▸ hlast ▸ h.createdBound
  case exited => exact hex ▸ h.exited
  case exitedBound => exact hex ▸ hlast ▸ h.exitedBound
  case collected =>
    rw [hco]
    exact List.nodup_cons.mpr ⟨h.gone b hu, h.collected⟩
  case afterExit =>
    rw [hhist]
    refine h.afterExit.cons fun c w' r' he => ?_
    obtain ⟨rfl, rfl, rfl⟩ := Event.collected.inj he
    obtain ⟨v, hv⟩ := mem_exitedPids.mp ((h.zombie b hu).mpr hz)
    exact ⟨v, hv, h.value b v hu hv ▸ hr⟩
  case zombie =>
    intro k hk
    obtain ⟨hk, hkb⟩ := (hinUse k).mp hk
    rw [hex, hp, hzombies, h.zombie k hk]
    exact ⟨fun hm => ⟨hm, hkb⟩, fun hm => hm.1⟩
  case value =>
    intro k v hk hv
    rw [hhist, hp, List.mem_cons] at hv
    rw [hreturn]
    exact h.value k v ((hinUse k).mp hk).1 (hv.resolve_left fun he => by cases he)
  case gone =>
    intro k hk
    obtain ⟨hk, hkb⟩ := (hinUse k).mp hk
    rw [hco, hp, List.mem_cons]
    rintro (he | hm)
    · exact hkb (hpid.distinct k b hk hu he)
    · exact h.gone k hk hm

theorem delivered (h : HandoverInv s) (hpid : PidInv s) (hk : ProcInv s)
    (hp : s.running = some p) (hd : Delivered s s' p a i q) : HandoverInv s' := by
  have hu := hk.inUse_of_running hp
  have hl := hk.not_linked hp
  simp only [Kernel.Linked, not_or] at hl
  -- the state in which `p` has exited but is not collected
  have hz := zombified_zombied s p i fun _ => 0
  have hmid := h.exits hpid hu hl.2.2 hz.inUse hz.lastPid hz.pid hz.zombies hz.returnValue hz.history
  have hpid' : PidInv (zombified s p i fun _ => 0) := by
    refine hpid.of_pid hz.lastPid ?_ (fun k => (hz.inUse k).mp) hz.pid
    rw [← createdCount_history, hz.history, ← createdCount_history s.trace]
    simp [createdCount]
  refine hmid.collects (b := p) (w := a)
    (r := if (s.pcb a).syscallArgs 1 = 0 then none else some (toInt ((s.pcb p).syscallArgs 0)))
    hpid' ((hz.inUse p).mpr hu) ?_ ?_ ?_ hd.lastPid ?_ ?_ ?_ ?_
  · rw [hz.zombies]
    exact List.mem_append_right _ (List.mem_singleton_self p)
  · rw [hz.returnValue, if_pos rfl]
    split_ifs
    · exact Or.inl rfl
    · exact Or.inr rfl
  · exact hd.inUse
  · exact fun k => (hd.pid k).trans (hz.pid k).symm
  · intro k
    rw [hd.zombies, hz.zombies, List.mem_append, List.mem_singleton]
    constructor
    · intro hm
      refine ⟨Or.inl hm, ?_⟩
      rintro rfl
      exact hl.2.2 hm
    · rintro ⟨hm, hkp⟩
      exact hm.resolve_right hkp
  · exact fun k => (hd.returnValue k).trans (hz.returnValue k).symm
  · rw [hd.history, hz.history, hz.pid]

theorem reaped (h : HandoverInv s) (hpid : PidInv s) (hk : ProcInv s) (hu : s.pcbs.InUse b)
    (hz : (s.pcb b).status = .zombie) : HandoverInv (reaped s p q b) := by
  refine h.collects hpid hu (w := p)
    (r := if (s.pcb p).syscallArgs 1 = 0 then none else some (s.pcb b).returnValue)
    ((hk.zombie b hu).mp hz) ?_ ?_ ?_ ?_ ?_ ?_ ?_
  · split_ifs
    · exact Or.inl rfl
    · exact Or.inr rfl
  · simp [DisastrOS.reaped]
  · simp [DisastrOS.reaped]
  · intro k
    by_cases hkp : k = p <;> simp [DisastrOS.reaped, hkp]
  · intro k
    simp only [DisastrOS.reaped, pcbFree_procs, Kernel.emit_procs, storeResult_procs,
      Kernel.setProcs_procs, if_true]
    rw [(hk.nodup .zombie).mem_erase_iff, and_comm]
  · intro k
    by_cases hkp : k = p <;> simp [DisastrOS.reaped, hkp]
  · simp [DisastrOS.reaped, history]

theorem move (h : HandoverInv s) (hpid : PidInv s) (hk : ProcInv s) (hc : ChildInv s)
    (hm : FamilyMove s s') (hlt : createdCount s'.trace < 2 ^ 31) : HandoverInv s' := by
  cases hm with
  | same same => exact h.family same
  | create p b q cpu _ created =>
    exact h.newProcess hk created.newProcess (hpid.newProcess_lastPid created.newProcess hlt)
  | zombie p a i running _ _ _ _ _ zombied =>
    have hl := hk.not_linked running
    simp only [Kernel.Linked, not_or] at hl
    exact h.exits hpid (hk.inUse_of_running running) hl.2.2 zombied.inUse zombied.lastPid
      zombied.pid zombied.zombies zombied.returnValue zombied.history
  | deliver p a i q running _ _ _ _ _ _ _ delivered => exact h.delivered hpid hk running delivered
  | collect p q _ _ mem zombie result =>
    exact result ▸ h.reaped hpid hk (hc.childInUse p q mem) zombie
  | start b _ started =>
    exact h.newProcess hk started.newProcess (hpid.newProcess_lastPid started.newProcess hlt)

theorem start : HandoverInv disastrOSStart := by
  obtain ⟨t, hu, hc, hs⟩ := disastrOSStart_eq
  have hprocs : ∀ b, b ∉ ((disastrOSStart).procs .zombie).items := fun b => by
    rw [hs]
    exact List.not_mem_nil
  rw [hs] at hprocs ⊢
  constructor
  case afterExit =>
    intro later earlier c w r hl
    have hm : Event.collected c w r ∈ history [.created 0] := by
      rw [hl]
      simp
    simp [history] at hm
  case zombie =>
    intro b hb
    exact ⟨fun hm => by simp [history, exitedPids] at hm, fun hm => absurd hm (hprocs b)⟩
  all_goals simp [history, createdPids, exitedPids, collectedPids]

end HandoverInv

theorem handover_reachable {s : Kernel} (h : kernel.Reachable s) :
    createdCount s.trace < 2 ^ 31 → HandoverInv s := by
  refine h.invariant (P := fun s => createdCount s.trace < 2 ^ 31 → HandoverInv s)
    (fun _ => .start) fun s act t hr hp hm hlt => ?_
  obtain ⟨u, hu, hk, hmove⟩ := step_move (KernelInv.reachable hr) hm
  have hle := PidInv.createdCount_move hmove
  rw [hu.createdCount] at hle
  obtain ⟨hch, hpid⟩ := child_pid_reachable hr (by omega)
  exact ((hp (by omega)).family hu).move (hpid.family hu) hk.proc (hch.family hu) hmove hlt

/-! ### One handover -/

variable {s s' t : Kernel} {p q a b i : ℕ} {c : ℤ} {w : ℕ} {r : Option ℤ}

/-- In going from `s` to `t` the process `w` has got the pid `c` of its child through `q` as the
result of its wait, and `r` through the result pointer. -/
structure HandsOver (s t : Kernel) (c : ℤ) (w : ℕ) (r : Option ℤ) (q : ℕ) : Prop where
  held : q ∈ children s w
  pid : (s.pcb (child s q)).pid = c
  retvalue : (t.pcb w).syscallRetvalue = c
  null : (t.pcb w).syscallArgs 1 = 0 → r = none
  stored : (t.pcb w).syscallArgs 1 ≠ 0 → ∃ v, r = some v ∧ .exited c v ∈ t.trace ∧
    t.memory ((t.pcb w).syscallArgs 1) = v
  freed : ¬ t.pcbs.InUse (child s q)
  unlinked : ∀ k, ∀ q' ∈ children t k, q' ≠ q ∧ child t q' ≠ child s q

theorem HandsOver.family (hs : SameFamily s s') (h : HandsOver s' t c w r q) :
    HandsOver s t c w r q := by
  have hch : child s q = child s' q := by rw [child, child, hs.pcbPtrs]
  refine { h with held := ?_, pid := ?_, freed := ?_, unlinked := ?_ }
  · rw [children, ← hs.children]
    exact h.held
  · rw [hch, ← hs.pid]
    exact h.pid
  · exact hch ▸ h.freed
  · exact hch ▸ h.unlinked

theorem unlinked_of_freed (h : ChildInv t) (hcell : t.pcbPtrs.cell = s.pcbPtrs.cell)
    (hfreed : ¬ t.pcbs.InUse (child s q)) :
    ∀ k, ∀ q' ∈ children t k, q' ≠ q ∧ child t q' ≠ child s q := by
  intro k q' hq'
  have hne : child t q' ≠ child s q := fun he => hfreed (he ▸ h.childInUse k q' hq')
  refine ⟨?_, hne⟩
  rintro rfl
  exact hne (by rw [child, child, hcell])

theorem mem_of_mem_history {e : Event} {l : List Event} (h : e ∈ history l) : e ∈ l :=
  List.mem_of_mem_filter h

theorem Delivered.handsOver (h : ChildInv s) (h' : ChildInv s') (hk : ProcInv s) (hpid : PidInv s)
    (hp : s.running = some p) (hpi : p ≠ i)
    (hq : pcbPtrByPid s (reparented s p i a) (s.pcb p).pid = some q)
    (hd : Delivered s s' p a i q) : HandsOver s s' (s.pcb p).pid a
      (if (s.pcb a).syscallArgs 1 = 0 then none else some (toInt ((s.pcb p).syscallArgs 0))) q := by
  have hself := hpid.finds_itself h hk hp hpi hq
  have hfreed : ¬ s'.pcbs.InUse (child s q) := by
    rw [hself, hd.inUse]
    exact fun hu => hu.2 rfl
  constructor
  case held =>
    rcases (ChildInv.mem_reparented hpi).mp (List.mem_of_find?_eq_some hq) with ⟨-, hm⟩ | ⟨-, hm⟩
    · exact hm
    · exact absurd hself (h.irrefl p q hm)
  case pid => rw [hself]
  case retvalue => exact hd.retvalue
  case null =>
    rw [hd.args]
    exact fun h0 => if_pos h0
  case stored =>
    rw [hd.args]
    intro h0
    refine ⟨_, if_neg h0, mem_of_mem_history ?_, hd.memory h0⟩
    rw [hd.history]
    simp
  case freed => exact hfreed
  case unlinked => exact unlinked_of_freed h' (congrArg Store.cell hd.pcbPtrs) hfreed

theorem reaped_handsOver (h : ChildInv s) (h' : ChildInv (reaped s p q (child s q)))
    (hk : ProcInv s) (ho : HandoverInv s) (hq : q ∈ children s p)
    (hz : (s.pcb (child s q)).status = .zombie) :
    HandsOver s (reaped s p q (child s q)) (s.pcb (child s q)).pid p
      (if (s.pcb p).syscallArgs 1 = 0 then none else some (s.pcb (child s q)).returnValue) q := by
  have hu := h.childInUse p q hq
  have hargs : ((reaped s p q (child s q)).pcb p).syscallArgs = (s.pcb p).syscallArgs := by
    simp [reaped]
  have hfreed : ¬ (reaped s p q (child s q)).pcbs.InUse (child s q) := by simp [reaped]
  constructor
  case held => exact hq
  case pid => rfl
  case retvalue => simp [reaped]
  case null =>
    rw [hargs]
    exact fun h0 => if_pos h0
  case stored =>
    rw [hargs]
    intro h0
    obtain ⟨v, hv⟩ := mem_exitedPids.mp ((ho.zombie _ hu).mpr ((hk.zombie _ hu).mp hz))
    obtain rfl := ho.value _ v hu hv
    refine ⟨_, if_neg h0, ?_, ?_⟩
    · simp [reaped, mem_of_mem_history hv]
    · simp [reaped, h0]
  case freed => exact hfreed
  case unlinked => exact unlinked_of_freed h' (by simp [reaped]) hfreed

/-- The history grows by what a move does, and what it collects is handed over. -/
theorem FamilyMove.handsOver (h : ChildInv s) (h' : ChildInv s') (hk : ProcInv s)
    (hpid : PidInv s) (ho : HandoverInv s) (hm : FamilyMove s s') :
    ∃ l, history s'.trace = l ++ history s.trace ∧
      ∀ c w r, .collected c w r ∈ l → ∃ q, HandsOver s s' c w r q := by
  cases hm with
  | same same => exact ⟨[], same.history, fun c w r hm => absurd hm List.not_mem_nil⟩
  | create p b q cpu _ created =>
    refine ⟨[.created s.lastPid], ?_, fun c w r hm => ?_⟩
    · rw [created.trace]
      rfl
    · simp at hm
  | zombie p a i _ _ _ _ _ _ zombied =>
    refine ⟨[.exited (s.pcb p).pid (toInt ((s.pcb p).syscallArgs 0))], zombied.history,
      fun c w r hm => ?_⟩
    simp at hm
  | deliver p a i q running _ _ _ differ _ _ found delivered =>
    refine ⟨[_, _], delivered.history, fun c w r hm => ⟨q, ?_⟩⟩
    simp only [List.mem_cons, reduceCtorEq, List.not_mem_nil, or_false] at hm
    obtain ⟨rfl, rfl, rfl⟩ := Event.collected.inj hm
    exact delivered.handsOver h h' hk hpid running differ found
  | collect p q _ _ mem zombie result =>
    subst result
    have hl : history (reaped s p q (child s q)).trace = .collected (s.pcb (child s q)).pid p
        (if (s.pcb p).syscallArgs 1 = 0 then none else some (s.pcb (child s q)).returnValue) ::
      history s.trace := by
      simp [reaped, history]
    refine ⟨[_], hl, fun c w r hm => ⟨q, ?_⟩⟩
    obtain ⟨rfl, rfl, rfl⟩ := Event.collected.inj (List.mem_singleton.mp hm)
    exact reaped_handsOver h h' hk ho mem zombie
  | start b _ started =>
    refine ⟨[.created s.lastPid], started.newProcess.history, fun c w r hm => ?_⟩
    simp at hm

/-! ### All handovers of a run -/

structure FamiliesKept (s : Kernel) : Prop where
  pids : ∀ b c, s.pcbs.InUse b → s.pcbs.InUse c → (s.pcb b).pid = (s.pcb c).pid → b = c
  entry : ∀ b, s.pcbs.InUse b → s.initPcb ≠ some b → ∃ a, ∃ q ∈ children s a, child s q = b ∧
    s.pcbs.InUse a ∧ (s.pcb a).status ≠ .zombie ∧
    ∀ a', ∀ q' ∈ children s a', child s q' = b → a' = a ∧ q' = q
  nodup : ∀ a, (children s a).Nodup
  createdOnce : (createdPids s.trace).Nodup
  exitedOnce : (exitedPids s.trace).Nodup
  collectedOnce : (collectedPids s.trace).Nodup
  afterExit : CollectedAfterExit s.trace
  gone : ∀ c ∈ collectedPids s.trace, ∀ b, s.pcbs.InUse b → (s.pcb b).pid ≠ c

theorem CollectedAfterExit.of_history {l : List Event} (h : CollectedAfterExit (history l)) :
    CollectedAfterExit l := by
  intro later earlier c w r hl
  obtain ⟨v, hv, hr⟩ := h (history later) (history earlier) c w r (by simp [hl, history])
  exact ⟨v, mem_of_mem_history hv, hr⟩

theorem HandoverInv.familiesKept (ho : HandoverInv s) (hc : ChildInv s) (hpid : PidInv s)
    (hk : ProcInv s) (honly : OnlyInitOrphan s) : FamiliesKept s where
  pids := hpid.distinct
  entry := by
    intro b hb hbi
    obtain ⟨a, q, hq, he⟩ := hc.complete b hb fun hpar => hbi (honly b hb hpar)
    obtain ⟨hu, hz⟩ := hc.owner a q hq
    refine ⟨a, q, hq, he, hu, fun h => hz ((hk.zombie a hu).mp h), fun a' q' hq' he' => ?_⟩
    obtain rfl := hc.unique a' q' hq' a q hq (he'.trans he.symm)
    exact ⟨hc.ptr.disjoint a' a q' hq' hq, rfl⟩
  nodup := hc.ptr.nodup
  createdOnce := createdPids_history ▸ ho.created
  exitedOnce := exitedPids_history ▸ ho.exited
  collectedOnce := collectedPids_history ▸ ho.collected
  afterExit := ho.afterExit.of_history
  gone := by
    rintro c hm b hb rfl
    rw [← collectedPids_history] at hm
    exact ho.gone b hb hm

/-- Up to the moment at which `running` becomes NULL every child has one entry in the list of one
living process. Its pid becomes the result of at most one wait, after it has exited, of the process
that had the entry, together with the value that it passed to exit; then its block and the entry
are gone. -/
theorem children_handed_over (h : kernel.ReachableBy NoRestart s)
    (hlt : createdCount s.trace < 2 ^ 31) :
    FamiliesKept s ∧ ∀ act t, kernel.step s act = .ok t → createdCount t.trace < 2 ^ 31 →
      ∃ l, history t.trace = l ++ history s.trace ∧
        ∀ c w r, .collected c w r ∈ l → ∃ q, HandsOver s t c w r q := by
  have hr := h.reachable
  have hk := KernelInv.reachable hr
  obtain ⟨hch, hpid⟩ := child_pid_reachable hr hlt
  have ho := handover_reachable hr hlt
  refine ⟨ho.familiesKept hch hpid hk.proc (.reachableBy h), fun act t hm hlt' => ?_⟩
  obtain ⟨hch', -⟩ := child_pid_reachable (hr.next hm) hlt'
  obtain ⟨u, hu, hku, hmove⟩ := step_move hk hm
  obtain ⟨l, hl, hands⟩ := hmove.handsOver (hch.family hu) hch' hku.proc (hpid.family hu)
    (ho.family hu)
  refine ⟨l, hu.history ▸ hl, fun c w r hcw => ?_⟩
  obtain ⟨q, hq⟩ := hands c w r hcw
  exact ⟨q, hq.family hu⟩

theorem children_handed_over_twice :
    let s := kernel.replayBy NoRestart [.syscall dsosCallSpawn [0, 0],
      .syscall dsosCallSpawn [0, 0], .syscall dsosCallWait [1, 4], .syscall dsosCallExit [7],
      .syscall dsosCallPreempt [], .syscall dsosCallExit [9], .syscall dsosCallWait [0, 5]]
    collectedPids s.trace = [2, 1] ∧ s.memory 4 = 7 ∧ s.memory 5 = 9 ∧ FamiliesKept s := by
  refine ⟨by decide +kernel, by decide +kernel, by decide +kernel, ?_⟩
  exact (children_handed_over (System.reachableBy_replayBy _) (by decide +kernel)).1

end DisastrOS
