import DisastrOS.Step

/-! Every block in use is in exactly one place: running, ready, waiting or zombie. -/
namespace DisastrOS
open BlockPool TransitionSystem

/-- How often the block `b` stands in one of the places of a process. -/
def occurrences (s : Kernel) (b : ℕ) : ℕ :=
  (if s.running = some b then 1 else 0) + (s.procs .ready).items.count b +
    (s.procs .waiting).items.count b + (s.procs .zombie).items.count b

structure ProcInv (s : Kernel) : Prop where
  once : ∀ b, occurrences s b = if s.pcbs.InUse b then 1 else 0
  waiting : ∀ b, (s.pcb b).status = .waiting ↔ b ∈ (s.procs .waiting).items
  zombie : ∀ b, s.pcbs.InUse b → ((s.pcb b).status = .zombie ↔ b ∈ (s.procs .zombie).items)
  init : ∃ i, s.initPcb = some i ∧ s.pcbs.InUse i ∧ (s.pcb i).status ≠ .zombie
  parent : ∀ b, s.initPcb = some b → (s.pcb b).parent = none

namespace ProcInv
variable {s s' : Kernel} {p q b a i d x w : ℕ} {rest : List ℕ}

/-! ### Where a block in use can be -/

theorem inUse_of_mem (h : ProcInv s) {l : ProcList} (hb : b ∈ (s.procs l).items) :
    s.pcbs.InUse b := by
  by_contra hn
  have h1 := h.once b
  rw [if_neg hn, occurrences] at h1
  have h2 := List.count_pos_iff.mpr hb
  cases l <;> omega

theorem inUse_of_running (h : ProcInv s) (hp : s.running = some p) : s.pcbs.InUse p := by
  by_contra hn
  have := h.once p
  simp [occurrences, hp, hn] at this

theorem not_linked (h : ProcInv s) (hp : s.running = some p) : ¬ s.Linked p := by
  have h1 := h.once p
  simp only [occurrences, hp, if_pos, h.inUse_of_running hp] at h1
  simp only [Kernel.Linked, ← List.count_pos_iff]
  omega

theorem nodup (h : ProcInv s) (l : ProcList) : (s.procs l).items.Nodup := by
  refine List.nodup_iff_count_le_one.mpr fun b => ?_
  have h1 := h.once b
  rw [occurrences] at h1
  split_ifs at h1 <;> cases l <;> omega

/-- A process is in at most one list, and in none while it runs. -/
theorem disjoint (h : ProcInv s) {l l' : ProcList} (hb : b ∈ (s.procs l).items)
    (hb' : b ∈ (s.procs l').items) : l = l' := by
  have h1 := h.once b
  rw [occurrences, if_pos (h.inUse_of_mem hb)] at h1
  have h2 := List.count_pos_iff.mpr hb
  have h3 := List.count_pos_iff.mpr hb'
  cases l <;> cases l' <;> first | rfl | omega

theorem running_ne (h : ProcInv s) (hp : s.running = some p) {l : ProcList}
    (hb : b ∈ (s.procs l).items) : b ≠ p := by
  rintro rfl
  have := h.not_linked hp
  cases l <;> simp_all [Kernel.Linked]

/-! ### The moves of processes -/

theorem congr (h : ProcInv s) (hinit : s'.initPcb = s.initPcb) (hrun : s'.running = s.running)
    (hprocs : ∀ l, s'.procs l = s.procs l) (hpool : s'.pcbs.pool = s.pcbs.pool)
    (hstatus : ∀ k, (s'.pcb k).status = (s.pcb k).status)
    (hparent : ∀ k, (s'.pcb k).parent = (s.pcb k).parent) : ProcInv s' := by
  have hu : ∀ k, s'.pcbs.InUse k ↔ s.pcbs.InUse k := fun k => by simp only [Store.InUse, hpool]
  refine ⟨fun b => ?_, fun b => ?_, fun b hb => ?_, ?_, fun b hb => ?_⟩
  · simpa only [occurrences, hrun, hprocs, hu] using h.once b
  · simpa only [hstatus, hprocs] using h.waiting b
  · simpa only [hstatus, hprocs] using h.zombie b ((hu b).mp hb)
  · simpa only [hinit, hu, hstatus] using h.init
  · simpa only [hparent] using h.parent b (hinit ▸ hb)

theorem frame (h : ProcInv s) (hs : SameProcesses s s') : ProcInv s' :=
  h.congr hs.initPcb hs.running hs.procs hs.pool hs.status hs.parent

/-- The running process blocks and the first ready process runs. -/
theorem dispatched (h : ProcInv s) (hp : s.running = some p)
    (hr : (s.procs .ready).items = q :: rest) :
    ProcInv (dispatched (suspended s p) q rest) := by
  have hu := h.inUse_of_running hp
  have hl := h.not_linked hp
  simp only [Kernel.Linked, not_or] at hl
  refine ⟨fun b => ?_, fun b => ?_, fun b hb => ?_, ?_, fun b hb => ?_⟩
  · have h1 := h.once b
    simp [occurrences, DisastrOS.dispatched, suspended, hr, List.count_cons, hp] at *
    omega
  · have h1 := h.waiting b
    simp [DisastrOS.dispatched, suspended] at *
    grind
  · have h1 := h.zombie b
    simp [DisastrOS.dispatched, suspended] at *
    grind
  · obtain ⟨i, hi, hui, hz⟩ := h.init
    refine ⟨i, hi, hui, ?_⟩
    by_cases hip : i = p <;> simp [DisastrOS.dispatched, suspended, hip, hz]
  · simpa [DisastrOS.dispatched, suspended] using h.parent b hb

/-- The running process blocks and no process runs. -/
theorem idle (h : ProcInv s) (hp : s.running = some p) :
    ProcInv ((suspended s p).setRunning none) := by
  have hl := h.not_linked hp
  simp only [Kernel.Linked, not_or] at hl
  refine ⟨fun b => ?_, fun b => ?_, fun b hb => ?_, ?_, fun b hb => ?_⟩
  · have h1 := h.once b
    simp [occurrences, suspended, List.count_cons, hp] at *
    omega
  · have h1 := h.waiting b
    simp [suspended] at *
    grind
  · have h1 := h.zombie b
    simp [suspended] at *
    grind
  · obtain ⟨i, hi, hui, hz⟩ := h.init
    refine ⟨i, hi, hui, ?_⟩
    by_cases hip : i = p <;> simp [suspended, hip, hz]
  · simpa [suspended] using h.parent b hb

/-- The running process goes behind the ready ones and the first of these runs. -/
theorem rotated (h : ProcInv s) (hp : s.running = some p)
    (hr : (s.procs .ready).items = q :: rest) : ProcInv (rotated s p q rest) := by
  have hl := h.not_linked hp
  simp only [Kernel.Linked, not_or] at hl
  have hq : q ∈ (s.procs .ready).items := by simp [hr]
  have hqw : q ∉ (s.procs .waiting).items := fun hw => by cases h.disjoint hq hw
  have hqz : q ∉ (s.procs .zombie).items := fun hw => by cases h.disjoint hq hw
  refine ⟨fun b => ?_, fun b => ?_, fun b hb => ?_, ?_, fun b hb => ?_⟩
  · have h1 := h.once b
    simp [occurrences, DisastrOS.rotated, hr, List.count_cons, hp] at *
    omega
  · have h1 := h.waiting b
    simp [DisastrOS.rotated] at *
    grind
  · have h1 := h.zombie b
    simp [DisastrOS.rotated] at *
    grind
  · obtain ⟨i, hi, hui, hz⟩ := h.init
    refine ⟨i, hi, hui, ?_⟩
    simp only [DisastrOS.rotated, Kernel.setStatus, Kernel.pcb_setRunning, Kernel.pcb_modPcb,
      Kernel.pcb_setProcs, PCB.status_ite]
    split_ifs <;> simp_all
  · simpa [DisastrOS.rotated] using h.parent b hb

/-- A waiting process becomes ready. -/
theorem woken (h : ProcInv s) (hb : b ∈ (s.procs .waiting).items)
    (hinit : s'.initPcb = s.initPcb) (hrun : s'.running = s.running)
    (hpool : s'.pcbs.pool = s.pcbs.pool)
    (hready : (s'.procs .ready).items.Perm (b :: (s.procs .ready).items))
    (hwaiting : (s'.procs .waiting).items = (s.procs .waiting).items.erase b)
    (hzombie : (s'.procs .zombie).items = (s.procs .zombie).items)
    (hstatus : ∀ k, (s'.pcb k).status = if k = b then .ready else (s.pcb k).status)
    (hparent : ∀ k, (s'.pcb k).parent = (s.pcb k).parent) : ProcInv s' := by
  have hu : ∀ k, s'.pcbs.InUse k ↔ s.pcbs.InUse k := fun k => by simp only [Store.InUse, hpool]
  have hbz : b ∉ (s.procs .zombie).items := fun hz => by cases h.disjoint hb hz
  refine ⟨fun k => ?_, fun k => ?_, fun k hk => ?_, ?_, fun k hk => ?_⟩
  · have h1 := h.once k
    have hc := hready.count_eq k
    have hbc := List.count_pos_iff.mpr hb
    simp only [occurrences, hrun, hwaiting, hzombie, hu, hc, List.count_cons,
      List.count_erase] at *
    by_cases hkb : b = k
    · subst hkb
      simp only [h.inUse_of_mem hb, if_true, beq_self_eq_true] at h1 ⊢
      omega
    · simp only [beq_iff_eq, hkb, if_false] at h1 ⊢
      omega
  · have h1 := h.waiting k
    rw [hstatus, hwaiting, (h.nodup .waiting).mem_erase_iff]
    split_ifs with hkb
    · simp [hkb]
    · simpa [hkb] using h1
  · have h1 := h.zombie k ((hu k).mp hk)
    rw [hstatus, hzombie]
    split_ifs with hkb
    · simp [hkb, hbz]
    · exact h1
  · obtain ⟨i, hi, hui, hz⟩ := h.init
    refine ⟨i, hinit ▸ hi, (hu i).mpr hui, ?_⟩
    rw [hstatus]
    split_ifs
    · simp
    · exact hz
  · simpa only [hparent] using h.parent k (hinit ▸ hk)

/-- A new process is ready. -/
theorem newChild {cpu : Option ℤ} (h : ProcInv s) (hp : s.running = some p)
    (hc : NewChild s s' p b q cpu) : ProcInv s' := by
  have hready : (s'.procs .ready).items = (s.procs .ready).items ++ [b] := by simp [hc.procs]
  have hwaiting : s'.procs .waiting = s.procs .waiting := by simp [hc.procs]
  have hzombie : s'.procs .zombie = s.procs .zombie := by simp [hc.procs]
  have hbw : b ∉ (s.procs .waiting).items := fun hw => hc.fresh (h.inUse_of_mem hw)
  have hbz : b ∉ (s.procs .zombie).items := fun hw => hc.fresh (h.inUse_of_mem hw)
  refine ⟨fun k => ?_, fun k => ?_, fun k hk => ?_, ?_, fun k hk => ?_⟩
  · have h1 := h.once k
    simp only [occurrences, hc.running, hready, hwaiting, hzombie, hc.inUse, List.count_append,
      List.count_singleton] at *
    by_cases hkb : k = b
    · subst hkb
      rw [if_neg hc.fresh] at h1
      simp only [hc.fresh, or_true, beq_self_eq_true, if_true]
      omega
    · simp [hkb, Ne.symm hkb] at *
      omega
  · rw [hwaiting, hc.pcb, ← h.waiting k]
    by_cases hkb : k = b
    · subst hkb
      simpa [childPCB, h.waiting k] using hbw
    · by_cases hkp : k = p
      · subst hkp
        simp [hkb]
      · simp [hkb, hkp]
  · rw [hzombie, hc.pcb]
    by_cases hkb : k = b
    · subst hkb
      simpa [childPCB] using hbz
    · have h1 := h.zombie k ((hc.inUse k).mp hk |>.resolve_right hkb)
      by_cases hkp : k = p
      · subst hkp
        simp [hkb, h1]
      · simp [hkb, hkp, h1]
  · obtain ⟨i, hi, hui, hz⟩ := h.init
    refine ⟨i, hc.initPcb ▸ hi, (hc.inUse i).mpr (Or.inl hui), ?_⟩
    have hib : i ≠ b := fun he => hc.fresh (he ▸ hui)
    rw [hc.pcb, if_neg hib]
    split_ifs <;> exact hz
  · rw [hc.initPcb] at hk
    have hkb : k ≠ b := by
      obtain ⟨i, hi, hui, -⟩ := h.init
      obtain rfl : i = k := Option.some.inj (hi.symm.trans hk)
      exact fun he => hc.fresh (he ▸ hui)
    rw [hc.pcb, if_neg hkb]
    split_ifs <;> exact h.parent k hk

/-- Another first process runs. -/
theorem started (h : ProcInv s) (hidle : s.running = none) (hc : Started s s' b) : ProcInv s' := by
  have hbw : b ∉ (s.procs .waiting).items := fun hw => hc.fresh (h.inUse_of_mem hw)
  have hbz : b ∉ (s.procs .zombie).items := fun hw => hc.fresh (h.inUse_of_mem hw)
  refine ⟨fun k => ?_, fun k => ?_, fun k hk => ?_, ?_, fun k hk => ?_⟩
  · have h1 := h.once k
    simp only [occurrences, hidle, hc.running, hc.procs, hc.inUse, Option.some.injEq] at *
    by_cases hkb : k = b
    · subst hkb
      rw [if_neg hc.fresh] at h1
      simp only [or_true, if_true]
      omega
    · simp only [hkb, Ne.symm hkb, or_false, if_false]
      simpa using h1
  · rw [hc.procs, hc.pcb, ← h.waiting k]
    by_cases hkb : k = b
    · subst hkb
      simpa [firstPCB, h.waiting k] using hbw
    · simp [hkb]
  · rw [hc.procs, hc.pcb]
    by_cases hkb : k = b
    · subst hkb
      simpa [firstPCB] using hbz
    · simpa [hkb] using h.zombie k ((hc.inUse k).mp hk |>.resolve_right hkb)
  · exact ⟨b, hc.initPcb, (hc.inUse b).mpr (Or.inr rfl), by simp [hc.pcb, firstPCB]⟩
  · obtain rfl : b = k := Option.some.inj (hc.initPcb.symm.trans hk)
    simp [hc.pcb, firstPCB]

/-- The running process becomes a zombie and the first ready process runs. -/
theorem resumed {sig : ℕ → BitVec 32} (h : ProcInv s) (hp : s.running = some p)
    (ha : (s.pcb p).parent = some a) (hr : (s.procs .ready).items = q :: rest) :
    ProcInv (resumed (zombified s p i sig) q rest) := by
  have hl := h.not_linked hp
  have hu := h.inUse_of_running hp
  simp only [Kernel.Linked, not_or] at hl
  have hq : q ∈ (s.procs .ready).items := by simp [hr]
  have hqw : q ∉ (s.procs .waiting).items := fun hw => by cases h.disjoint hq hw
  have hqz : q ∉ (s.procs .zombie).items := fun hw => by cases h.disjoint hq hw
  have hqp := h.running_ne hp hq
  refine ⟨fun b => ?_, fun b => ?_, fun b hb => ?_, ?_, fun b hb => ?_⟩
  · have h1 := h.once b
    simp only [occurrences, hr, List.count_cons, beq_iff_eq, hp, Option.some.injEq] at h1
    simp [occurrences, DisastrOS.resumed, zombified, List.count_cons]
    omega
  · have h1 := h.waiting b
    simp [DisastrOS.resumed, zombified] at *
    grind
  · have h1 := h.zombie b
    simp [DisastrOS.resumed, zombified] at *
    grind
  · obtain ⟨j, hj, huj, hz⟩ := h.init
    have hjp : j ≠ p := by
      rintro rfl
      rw [h.parent j hj] at ha
      cases ha
    refine ⟨j, by simpa [DisastrOS.resumed, zombified] using hj,
      by simpa [DisastrOS.resumed, zombified] using huj, ?_⟩
    simp only [DisastrOS.resumed, zombified, Kernel.setStatus, Kernel.pcb_setRunning,
      Kernel.pcb_modPcb, Kernel.pcb_setProcs, Kernel.pcb_emit, Kernel.pcb_mapPcbs,
      PCB.status_ite]
    split_ifs <;> simp_all
  · simpa [DisastrOS.resumed, zombified] using h.parent b hb

/-- The running process is freed and its waiting parent runs. -/
theorem exitToParent (h : ProcInv s) (hp : s.running = some p) (ha : (s.pcb p).parent = some a)
    (haw : a ∈ (s.procs .waiting).items)
    (hinit : s'.initPcb = s.initPcb) (hrun : s'.running = some a)
    (hinUse : ∀ k, s'.pcbs.InUse k ↔ s.pcbs.InUse k ∧ k ≠ p)
    (hready : (s'.procs .ready).items = (s.procs .ready).items)
    (hwaiting : (s'.procs .waiting).items = (s.procs .waiting).items.erase a)
    (hzombie : (s'.procs .zombie).items = (s.procs .zombie).items)
    (hstatus : ∀ k, (s'.pcb k).status =
      if k = a then .running else if k = p then .zombie else (s.pcb k).status)
    (hparent : ∀ k, (s'.pcb k).parent = (s.pcb k).parent) : ProcInv s' := by
  have hap := h.running_ne hp haw
  have hup := h.inUse_of_running hp
  have hua := h.inUse_of_mem haw
  have hl := h.not_linked hp
  simp only [Kernel.Linked, not_or] at hl
  have haz : a ∉ (s.procs .zombie).items := fun hz => by cases h.disjoint haw hz
  refine ⟨fun k => ?_, fun k => ?_, fun k hk => ?_, ?_, fun k hk => ?_⟩
  · have h1 := h.once k
    have hac := List.count_pos_iff.mpr haw
    simp only [occurrences, hp, hrun, hready, hwaiting, hzombie, hinUse, List.count_erase,
      Option.some.injEq, beq_iff_eq] at h1 ⊢
    by_cases hka : a = k
    · subst hka
      simp only [hap, Ne.symm hap, hua, if_true, if_false, ne_eq, not_false_eq_true, and_self]
        at h1 ⊢
      omega
    · by_cases hkp : k = p
      · subst hkp
        simp only [hka, hup, if_true, if_false, ne_eq, not_true, and_false] at h1 ⊢
        omega
      · simp only [hka, hkp, Ne.symm hkp, if_false, ne_eq, not_false_eq_true, and_true] at h1 ⊢
        omega
  · rw [hstatus, hwaiting, (h.nodup .waiting).mem_erase_iff, ← h.waiting k]
    have h2 := h.waiting p
    split_ifs with hka hkp
    · simp [hka]
    · subst hkp
      simp [hka, h.waiting k, hl.2.1]
    · simp [hka]
  · obtain ⟨hk, hkp⟩ := (hinUse k).mp hk
    rw [hstatus, hzombie, if_neg hkp]
    split_ifs with hka
    · simp [hka, haz]
    · exact h.zombie k hk
  · obtain ⟨j, hj, huj, hz⟩ := h.init
    have hjp : j ≠ p := by
      rintro rfl
      rw [h.parent j hj] at ha
      cases ha
    refine ⟨j, hinit ▸ hj, (hinUse j).mpr ⟨huj, hjp⟩, ?_⟩
    rw [hstatus, if_neg hjp]
    split_ifs
    · simp
    · exact hz
  · rw [hparent]
    exact h.parent k (hinit ▸ hk)

/-- A zombie is freed. -/
theorem reaped (h : ProcInv s) (hz : (s.pcb b).status = .zombie)
    (hinit : s'.initPcb = s.initPcb) (hrun : s'.running = s.running)
    (hinUse : ∀ k, s'.pcbs.InUse k ↔ s.pcbs.InUse k ∧ k ≠ b)
    (hready : (s'.procs .ready).items = (s.procs .ready).items)
    (hwaiting : (s'.procs .waiting).items = (s.procs .waiting).items)
    (hzombie : (s'.procs .zombie).items = (s.procs .zombie).items.erase b)
    (hstatus : ∀ k, (s'.pcb k).status = (s.pcb k).status)
    (hparent : ∀ k, (s'.pcb k).parent = (s.pcb k).parent) : ProcInv s' := by
  have hb : s.pcbs.InUse b → b ∈ (s.procs .zombie).items := fun hu => (h.zombie b hu).mp hz
  refine ⟨fun k => ?_, fun k => ?_, fun k hk => ?_, ?_, fun k hk => ?_⟩
  · have h1 := h.once k
    simp only [occurrences, hrun, hready, hwaiting, hzombie, hinUse, List.count_erase,
      beq_iff_eq] at h1 ⊢
    by_cases hkb : b = k
    · subst hkb
      by_cases hu : s.pcbs.InUse b
      · have hc := List.count_pos_iff.mpr (hb hu)
        simp only [hu, if_true, ne_eq, not_true, and_false, if_false] at h1 ⊢
        omega
      · simp only [hu, if_true, ne_eq, not_true, and_false, if_false] at h1 ⊢
        omega
    · simp only [hkb, Ne.symm hkb, if_false, ne_eq, not_false_eq_true, and_true]
      exact h1
  · rw [hstatus, hwaiting]
    exact h.waiting k
  · obtain ⟨hk, hkb⟩ := (hinUse k).mp hk
    rw [hstatus, h.zombie k hk, hzombie, (h.nodup .zombie).mem_erase_iff]
    exact (and_iff_right hkb).symm
  · obtain ⟨j, hj, huj, hjz⟩ := h.init
    have hjb : j ≠ b := by
      rintro rfl
      exact hjz hz
    exact ⟨j, hinit ▸ hj, (hinUse j).mpr ⟨huj, hjb⟩, by rw [hstatus]; exact hjz⟩
  · rw [hparent]
    exact h.parent k (hinit ▸ hk)

/-! ### The handlers -/

theorem wakeTimer {prev : Option ℕ} (h : ProcInv s) (hs : wakeTimer s prev b = .ok s') :
    ProcInv s' := by
  obtain ⟨hb, -, -, -, ready, i, rest, hr, -, rfl⟩ := wakeTimer_ok hs
  refine h.woken hb rfl rfl rfl ?_ rfl rfl (fun k => ?_) (fun k => ?_)
  · simpa [wokenState] using (listInsert_ok hr).2.1
  · by_cases hkb : k = b <;> simp [wokenState, hkb]
  · simp [wokenState]

theorem wakeElapsed {fuel : ℕ} {prev : Option ℕ} (h : ProcInv s)
    (hs : wakeElapsed fuel s prev = .ok s') : ProcInv s' :=
  wakeElapsed_induct (fun _ _ _ _ _ hp hr => hp.wakeTimer hr) hs h

theorem internalSchedule (h : ProcInv s) (hs : internalSchedule s = .ok s') : ProcInv s' := by
  obtain ⟨u, hu, ⟨-, rfl⟩ | ⟨p, q, rest, hp, hr, -, -, -, rfl⟩⟩ := internalSchedule_ok hs
  · exact h.wakeElapsed hu
  · exact (h.wakeElapsed hu).rotated hp hr

theorem internalSleep (h : ProcInv s) (hs : internalSleep s = .ok s') : ProcInv s' := by
  obtain ⟨p, hp, ⟨-, rfl⟩ | ⟨i, st, l, -, -, -, hd⟩⟩ := internalSleep_ok hs
  · exact h.frame (.setRetvalue s p _)
  · have ht : ProcInv (s.setTimers ⟨l, st⟩) :=
      h.congr rfl rfl (fun _ => rfl) rfl (fun _ => rfl) (fun _ => rfl)
    rcases hd with ⟨q, rest, hr, rfl⟩ | ⟨-, rfl⟩
    · exact ht.dispatched hp hr
    · exact ht.idle hp

theorem collectZombie (h : ProcInv s) (hz : (s.pcb b).status = .zombie)
    (hs : collectZombie s p q b = .ok s') : ProcInv s' := by
  obtain ⟨-, -, rfl⟩ := collectZombie_ok hs
  apply h.reaped hz
  all_goals simp [DisastrOS.reaped]

theorem internalWait (h : ProcInv s) (hs : internalWait s = .ok s') : ProcInv s' := by
  obtain ⟨p, hp, ⟨-, rfl⟩ | ⟨q, b, -, -, ⟨hz, hc⟩ | ⟨-, hw⟩⟩⟩ := internalWait_ok hs
  · exact h.frame (.setRetvalue s p _)
  · exact h.collectZombie hz hc
  · obtain ⟨-, q, rest, hr, rfl⟩ := waitBlock_ok.mp hw
    exact h.dispatched hp hr

theorem internalExit (h : ProcInv s) (hs : internalExit s = .ok s') : ProcInv s' := by
  obtain ⟨p, a, i, sig, hp, ha, -, -, ⟨hw, he⟩ | ⟨-, q, rest, hr, rfl⟩⟩ := internalExit_ok hs
  · have hpa : p ≠ a := by
      rintro rfl
      have := hw.1
      simp [zombified] at this
    obtain ⟨haw, q, t, u, -, -, hu, -, rfl⟩ := exitToParent_ok hpa he
    obtain ⟨l, T, rfl⟩ := releaseDescriptors_ok hu
    have hl := h.not_linked hp
    simp only [Kernel.Linked, not_or] at hl
    apply h.exitToParent hp ha (by simpa [zombified] using haw)
    case hzombie =>
      simp [reclaimed, handedToParent, zombified, List.erase_append_right, hl.2.2]
    case hstatus =>
      intro k
      by_cases hka : k = a <;> simp [reclaimed, handedToParent, zombified, hka]
    all_goals simp [reclaimed, handedToParent, zombified]
  · exact h.resumed hp ha hr

theorem internalSemWait (h : ProcInv s) (hs : internalSemWait s = .ok s') : ProcInv s' := by
  obtain ⟨p, hp, ⟨-, rfl⟩ | ⟨d, x, w, -, -, -, ⟨-, rfl⟩ | ⟨-, -, -, q, rest, hr, rfl⟩⟩⟩ :=
    internalSemWait_ok hs
  · exact h.frame (.setRetvalue s p _)
  · exact h.frame ((SameProcesses.setSems s _).trans (.setRetvalue _ p 0))
  · refine ProcInv.frame (ProcInv.dispatched (p := p) ?_ ?_ ?_) (.setRetvalue _ q 0)
    · exact h.frame (.setSems s _)
    · exact hp
    · exact hr

theorem internalSemPost (h : ProcInv s) (hs : internalSemPost s = .ok s') : ProcInv s' := by
  obtain ⟨p, hp, ⟨-, rfl⟩ | ⟨d, x, -, -, ⟨-, rfl⟩ | ⟨-, w, queue, b, -, -, hb, -, -, -, rfl⟩⟩⟩ :=
    internalSemPost_ok hs
  · exact h.frame (.setRetvalue s p _)
  · exact h.frame ((SameProcesses.setSems s _).trans (.setRetvalue _ p 0))
  · have hwoken : ProcInv (semWoken s x w b) := by
      refine h.woken hb rfl rfl rfl ?_ ?_ ?_ (fun k => ?_) (fun k => ?_)
      · simp [semWoken]
      · simp [semWoken]
      · simp [semWoken]
      · by_cases hkb : k = b <;> simp [semWoken, hkb]
      · simp [semWoken]
    exact hwoken.frame (.setRetvalue _ p 0)

theorem runHandler {hd : Handler} (h : ProcInv s) (hp : s.running = some p)
    (hs : runHandler hd s = .ok s') : ProcInv s' := by
  cases hd with
  | preempt => exact h.internalSchedule hs
  | fork =>
    obtain ⟨b, q, hc⟩ := internalFork_ok hp (h.inUse_of_running hp) hs
    exact h.newChild hp hc
  | wait => exact h.internalWait hs
  | exit => exact h.internalExit hs
  | spawn =>
    obtain ⟨b, q, hc⟩ := internalSpawn_ok hp (h.inUse_of_running hp) hs
    exact h.newChild hp hc
  | sleep => exact h.internalSleep hs
  | openResource => exact h.frame (internalOpenResource_frame hs).1
  | closeResource => exact h.frame (internalCloseResource_frame hs).1
  | destroyResource => exact h.frame (internalDestroyResource_frame hs).1
  | shutdown => cases hs
  | semOpen => exact h.frame (internalSemOpen_frame hs).1
  | semClose => exact h.frame (internalSemClose_frame hs).1
  | semWait => exact h.internalSemWait hs
  | semPost => exact h.internalSemPost hs

theorem start : ProcInv disastrOSStart := by
  obtain ⟨t, hu, hc, hs⟩ := disastrOSStart_eq
  rw [hs]
  have hlists (l : ProcList) : (emptyKernel.procs l).items = [] := rfl
  refine ⟨fun b => ?_, fun b => ?_, fun b hb => ?_, ⟨0, rfl, (hu 0).mpr rfl, ?_⟩, fun b hb => ?_⟩
  · simp [occurrences, hu, hlists, eq_comm]
  · by_cases hb : b = 0 <;> simp [Kernel.pcb, hc, hlists, hb, initPCB, zeroPCB]
  · by_cases hb : b = 0 <;> simp [Kernel.pcb, hc, hlists, hb, initPCB, zeroPCB]
  · simp [Kernel.pcb, hc, initPCB]
  · obtain rfl : 0 = b := Option.some.inj hb
    simp [Kernel.pcb, hc, initPCB, zeroPCB]

theorem enter {n : ℤ} {args : List ℤ} (h : ProcInv s) : ProcInv (enterSyscall s p n args) :=
  h.congr rfl rfl (fun _ => rfl) rfl (fun k => by simp [enterSyscall])
    (fun k => by simp [enterSyscall])

theorem ticked (h : ProcInv s) : ProcInv (ticked s p) := by
  refine h.congr rfl rfl (fun _ => rfl) rfl (fun k => ?_) (fun k => ?_)
  · simp [DisastrOS.ticked, Kernel.pcb]
  · simp [DisastrOS.ticked, Kernel.pcb]

theorem step {act : Action} (h : ProcInv s) (hs : step s act = .ok s') : ProcInv s' :=
  step_preserves (fun _ _ _ _ _ hi => hi.enter) (fun s p v hi => hi.frame (.setRetvalue s p v))
    (fun _ _ _ _ hp _ hi hr => hi.runHandler hp hr)
    (fun _ _ _ _ hi ht => hi.ticked.internalSchedule ht)
    (fun _ _ _ hidle hi hc => hi.started hidle hc) h hs

theorem reachable (h : kernel.Reachable s) : ProcInv s :=
  h.invariant start fun _ _ _ _ hi hs => hi.step hs

end ProcInv
end DisastrOS
