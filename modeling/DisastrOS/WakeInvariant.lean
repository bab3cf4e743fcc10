import DisastrOS.ProcessInvariant

/-! Every waiting process has what will wake it: a timer, a place in the queue of a semaphore,
or a call of wait; no other process has a timer or such a place. -/
namespace DisastrOS
open BlockPool TransitionSystem

/-- The descriptor pointers in the queue of the semaphore `x`. -/
def queue (s : Kernel) (x : ℕ) : List ℕ := (s.sems.semaphore.cell x).waitingDescriptors.items

/-- The process of a descriptor pointer. -/
def waiter (s : Kernel) (w : ℕ) : ℕ :=
  (s.sems.descriptor.cell (s.sems.descriptorPtr.cell w).descriptor).pcb

def sleeper (s : Kernel) (i : ℕ) : ℕ := (s.timers.item.cell i).pcb

structure WakeInv (s : Kernel) : Prop where
  timers : s.timers.list.items.Nodup
  timerInUse : ∀ i, i ∈ s.timers.list.items ↔ s.timers.item.InUse i
  sleeping : ∀ i ∈ s.timers.list.items, sleeper s i ∈ (s.procs .waiting).items ∧
    (s.pcb (sleeper s i)).syscallNum = dsosCallSleep
  oneTimer : ∀ i ∈ s.timers.list.items, ∀ j ∈ s.timers.list.items,
    sleeper s i = sleeper s j → i = j
  queued : ∀ x w, w ∈ queue s x → waiter s w ∈ (s.procs .waiting).items ∧
    (s.pcb (waiter s w)).syscallNum = dsosCallSemwait
  onePlace : ∀ x w y v, w ∈ queue s x → v ∈ queue s y → waiter s w = waiter s v → x = y ∧ w = v
  source : ∀ b ∈ (s.procs .waiting).items, (s.pcb b).syscallNum = dsosCallWait ∨
    (s.pcb b).syscallNum = dsosCallSleep ∧ (∃ i ∈ s.timers.list.items, sleeper s i = b) ∨
    (s.pcb b).syscallNum = dsosCallSemwait ∧ ∃ x w, w ∈ queue s x ∧ waiter s w = b

namespace WakeInv
variable {s s' : Kernel} {p q b a i d x w : ℕ} {rest : List ℕ}

/-- The waiting processes are the same, and so is what will wake them. -/
theorem congr (h : WakeInv s) (htimers : s'.timers = s.timers)
    (hwaiting : (s'.procs .waiting).items = (s.procs .waiting).items)
    (hnum : ∀ k ∈ (s.procs .waiting).items, (s'.pcb k).syscallNum = (s.pcb k).syscallNum)
    (hqueue : ∀ x, queue s' x = queue s x)
    (hwaiter : ∀ x w, w ∈ queue s x → waiter s' w = waiter s w) : WakeInv s' := by
  have hsl : ∀ i, sleeper s' i = sleeper s i := fun i => by rw [sleeper, sleeper, htimers]
  refine ⟨htimers ▸ h.timers, htimers ▸ h.timerInUse, ?_, ?_, ?_, ?_, ?_⟩
  · intro i hi
    rw [htimers] at hi
    obtain ⟨h1, h2⟩ := h.sleeping i hi
    rw [hsl, hwaiting, hnum _ h1]
    exact ⟨h1, h2⟩
  · intro i hi j hj
    rw [htimers] at hi hj
    rw [hsl, hsl]
    exact h.oneTimer i hi j hj
  · intro x w hw
    rw [hqueue] at hw
    obtain ⟨h1, h2⟩ := h.queued x w hw
    rw [hwaiter x w hw, hwaiting, hnum _ h1]
    exact ⟨h1, h2⟩
  · intro x w y v hw hv
    rw [hqueue] at hw hv
    rw [hwaiter x w hw, hwaiter y v hv]
    exact h.onePlace x w y v hw hv
  · intro b hb
    rw [hwaiting] at hb
    rw [hnum b hb, htimers]
    rcases h.source b hb with h1 | ⟨h1, i, hi, h2⟩ | ⟨h1, x, w, hw, h2⟩
    · exact Or.inl h1
    · exact Or.inr (Or.inl ⟨h1, i, hi, by rw [hsl, h2]⟩)
    · exact Or.inr (Or.inr ⟨h1, x, w, by rw [hqueue]; exact hw, by rw [hwaiter x w hw, h2]⟩)

/-- A process in wait leaves the waiting list. -/
theorem leaveWait (h : WakeInv s) (hnd : (s.procs .waiting).items.Nodup)
    (hb : (s.pcb b).syscallNum = dsosCallWait) (htimers : s'.timers = s.timers)
    (hwaiting : (s'.procs .waiting).items = (s.procs .waiting).items.erase b)
    (hnum : ∀ k, (s'.pcb k).syscallNum = (s.pcb k).syscallNum)
    (hsems : s'.sems = s.sems) : WakeInv s' := by
  have hsl : ∀ i, sleeper s' i = sleeper s i := fun i => by rw [sleeper, sleeper, htimers]
  have hq : ∀ x, queue s' x = queue s x := fun x => by rw [queue, queue, hsems]
  have hwt : ∀ w, waiter s' w = waiter s w := fun w => by rw [waiter, waiter, hsems]
  refine ⟨htimers ▸ h.timers, htimers ▸ h.timerInUse, ?_, ?_, ?_, ?_, ?_⟩
  · intro i hi
    rw [htimers] at hi
    obtain ⟨h1, h2⟩ := h.sleeping i hi
    rw [hsl, hwaiting, hnum, hnd.mem_erase_iff]
    refine ⟨⟨fun he => ?_, h1⟩, h2⟩
    rw [he, hb] at h2
    cases h2
  · simpa only [hsl, htimers] using h.oneTimer
  · intro x w hw
    rw [hq] at hw
    obtain ⟨h1, h2⟩ := h.queued x w hw
    rw [hwt, hwaiting, hnum, hnd.mem_erase_iff]
    refine ⟨⟨fun he => ?_, h1⟩, h2⟩
    rw [he, hb] at h2
    cases h2
  · simpa only [hwt, hq] using h.onePlace
  · intro k hk
    rw [hwaiting] at hk
    simpa only [hnum, hsl, hwt, hq, htimers] using h.source k (List.mem_of_mem_erase hk)

/-- The running process calls wait and blocks. -/
theorem enterWait (h : WakeInv s) (hp : p ∉ (s.procs .waiting).items)
    (hnum : (s.pcb p).syscallNum = dsosCallWait) : WakeInv (dispatched (suspended s p) q rest) := by
  have hsl : ∀ i, sleeper (dispatched (suspended s p) q rest) i = sleeper s i := fun _ => rfl
  have hq : ∀ x, queue (dispatched (suspended s p) q rest) x = queue s x := fun _ => rfl
  have hwt : ∀ w, waiter (dispatched (suspended s p) q rest) w = waiter s w := fun _ => rfl
  have hn : ∀ k, ((dispatched (suspended s p) q rest).pcb k).syscallNum = (s.pcb k).syscallNum := by
    simp [dispatched, suspended]
  have hw : ((dispatched (suspended s p) q rest).procs .waiting).items =
      (s.procs .waiting).items ++ [p] := by
    simp [dispatched, suspended]
  refine ⟨h.timers, h.timerInUse, ?_, h.oneTimer, ?_, h.onePlace, ?_⟩
  · intro i hi
    rw [hsl, hw, hn]
    obtain ⟨h1, h2⟩ := h.sleeping i hi
    exact ⟨List.mem_append_left _ h1, h2⟩
  · intro x w hw'
    rw [hwt, hw, hn]
    obtain ⟨h1, h2⟩ := h.queued x w hw'
    exact ⟨List.mem_append_left _ h1, h2⟩
  · intro b hb
    rw [hw, List.mem_append, List.mem_singleton] at hb
    rw [hn]
    rcases hb with hb | rfl
    · exact h.source b hb
    · exact Or.inl hnum

/-- The running process gets the new timer `i` and blocks. -/
theorem enterSleep {st : Store TimerItem} {time : ℤ} (h : WakeInv s)
    (hp : p ∉ (s.procs .waiting).items) (hnum : (s.pcb p).syscallNum = dsosCallSleep)
    (ha : Store.Allocated s.timers.item st i (fun _ => ⟨time, p⟩))
    (hitem : s'.timers.item = st) (hlist : s'.timers.list.items.Perm (i :: s.timers.list.items))
    (hwaiting : (s'.procs .waiting).items = (s.procs .waiting).items ++ [p])
    (hn : ∀ k, (s'.pcb k).syscallNum = (s.pcb k).syscallNum)
    (hsems : s'.sems = s.sems) : WakeInv s' := by
  have hi : i ∉ s.timers.list.items := fun hi => ha.fresh ((h.timerInUse i).mp hi)
  have hmem : ∀ j, j ∈ s'.timers.list.items ↔ j = i ∨ j ∈ s.timers.list.items := fun j => by
    rw [hlist.mem_iff, List.mem_cons]
  have hsl : ∀ j, sleeper s' j = if j = i then p else sleeper s j := fun j => by
    rw [sleeper, hitem, ha.cell]
    split_ifs <;> rfl
  have hold : ∀ j ∈ s.timers.list.items, sleeper s' j = sleeper s j := fun j hj => by
    have hji : j ≠ i := fun he => hi (he ▸ hj)
    rw [hsl, if_neg hji]
  have hq : ∀ x, queue s' x = queue s x := fun x => by rw [queue, queue, hsems]
  have hwt : ∀ w, waiter s' w = waiter s w := fun w => by rw [waiter, waiter, hsems]
  refine ⟨?_, ?_, ?_, ?_, ?_, ?_, ?_⟩
  · exact hlist.nodup_iff.mpr (List.nodup_cons.mpr ⟨hi, h.timers⟩)
  · intro j
    rw [hmem, hitem, ha.inUse, h.timerInUse, or_comm]
  · intro j hj
    rw [hwaiting, hn]
    rcases (hmem j).mp hj with rfl | hj
    · rw [hsl, if_pos rfl]
      exact ⟨by simp, hnum⟩
    · rw [hold j hj]
      obtain ⟨h1, h2⟩ := h.sleeping j hj
      exact ⟨List.mem_append_left _ h1, h2⟩
  · intro j hj k hk he
    have hne : ∀ m ∈ s.timers.list.items, sleeper s m ≠ p := fun m hm he =>
      hp (he ▸ (h.sleeping m hm).1)
    rcases (hmem j).mp hj with rfl | hj <;> rcases (hmem k).mp hk with rfl | hk
    · rfl
    · rw [hold k hk, hsl, if_pos rfl] at he
      exact absurd he.symm (hne k hk)
    · rw [hold j hj, hsl, if_pos rfl] at he
      exact absurd he (hne j hj)
    · rw [hold j hj, hold k hk] at he
      exact h.oneTimer j hj k hk he
  · intro x w hw
    rw [hq] at hw
    obtain ⟨h1, h2⟩ := h.queued x w hw
    rw [hwt, hwaiting, hn]
    exact ⟨List.mem_append_left _ h1, h2⟩
  · simpa only [hwt, hq] using h.onePlace
  · intro b hb
    rw [hwaiting, List.mem_append, List.mem_singleton] at hb
    simp only [hn, hq, hwt]
    rcases hb with hb | rfl
    · rcases h.source b hb with h1 | ⟨h1, j, hj, h2⟩ | h1
      · exact Or.inl h1
      · exact Or.inr (Or.inl ⟨h1, j, (hmem j).mpr (Or.inr hj), by rw [hold j hj, h2]⟩)
      · exact Or.inr (Or.inr h1)
    · exact Or.inr (Or.inl ⟨hnum, i, (hmem i).mpr (Or.inl rfl), by rw [hsl, if_pos rfl]⟩)

/-- The running process gets a place in the queue of `x` and blocks. -/
theorem enterQueue (h : WakeInv s) (hp : p ∉ (s.procs .waiting).items)
    (hnum : (s.pcb p).syscallNum = dsosCallSemwait) (hw : waiter s w = p)
    (htimers : s'.timers = s.timers)
    (hqueue : ∀ y, queue s' y = if y = x then queue s x ++ [w] else queue s y)
    (hwaiting : (s'.procs .waiting).items = (s.procs .waiting).items ++ [p])
    (hn : ∀ k, (s'.pcb k).syscallNum = (s.pcb k).syscallNum)
    (hwt : ∀ v, waiter s' v = waiter s v) : WakeInv s' := by
  have hsl : ∀ i, sleeper s' i = sleeper s i := fun i => by rw [sleeper, sleeper, htimers]
  have hmem : ∀ y v, v ∈ queue s' y ↔ v ∈ queue s y ∨ y = x ∧ v = w := by
    intro y v
    rw [hqueue]
    split_ifs with hy
    · simp [hy]
    · simp [hy]
  refine ⟨htimers ▸ h.timers, htimers ▸ h.timerInUse, ?_, ?_, ?_, ?_, ?_⟩
  · intro i hi
    rw [htimers] at hi
    obtain ⟨h1, h2⟩ := h.sleeping i hi
    rw [hsl, hwaiting, hn]
    exact ⟨List.mem_append_left _ h1, h2⟩
  · simpa only [hsl, htimers] using h.oneTimer
  · intro y v hv
    rw [hwt, hwaiting, hn]
    rcases (hmem y v).mp hv with hv | ⟨rfl, rfl⟩
    · obtain ⟨h1, h2⟩ := h.queued y v hv
      exact ⟨List.mem_append_left _ h1, h2⟩
    · rw [hw]
      exact ⟨by simp, hnum⟩
  · intro y v z u hv hu he
    rw [hwt, hwt] at he
    have hne : ∀ y v, v ∈ queue s y → waiter s v ≠ p := fun y v hv he =>
      hp (he ▸ (h.queued y v hv).1)
    rcases (hmem y v).mp hv with hv | ⟨rfl, rfl⟩ <;> rcases (hmem z u).mp hu with hu | ⟨rfl, rfl⟩
    · exact h.onePlace y v z u hv hu he
    · exact absurd (he.trans hw) (hne y v hv)
    · exact absurd (he.symm.trans hw) (hne z u hu)
    · exact ⟨rfl, rfl⟩
  · intro b hb
    rw [hwaiting, List.mem_append, List.mem_singleton] at hb
    simp only [hn, hsl, htimers, hwt]
    rcases hb with hb | rfl
    · rcases h.source b hb with h1 | h1 | ⟨h1, y, v, hv, h2⟩
      · exact Or.inl h1
      · exact Or.inr (Or.inl h1)
      · exact Or.inr (Or.inr ⟨h1, y, v, (hmem y v).mpr (Or.inl hv), h2⟩)
    · exact Or.inr (Or.inr ⟨hnum, x, w, (hmem x w).mpr (Or.inr ⟨rfl, rfl⟩), hw⟩)

/-- The first timer, which is `i`, goes and its process becomes ready. -/
theorem leaveSleep (h : WakeInv s) (hnd : (s.procs .waiting).items.Nodup)
    (hi : s.timers.list.items = i :: rest)
    (hlist : s'.timers.list.items = rest)
    (hitem : s'.timers.item = (s.timers.item.free i).2)
    (hwaiting : (s'.procs .waiting).items = (s.procs .waiting).items.erase (sleeper s i))
    (hn : ∀ k, (s'.pcb k).syscallNum = (s.pcb k).syscallNum)
    (hsems : s'.sems = s.sems) : WakeInv s' := by
  have hsl : ∀ j, sleeper s' j = sleeper s j := fun j => by
    rw [sleeper, hitem, Store.free_cell, sleeper]
  have hq : ∀ x, queue s' x = queue s x := fun x => by rw [queue, queue, hsems]
  have hwt : ∀ w, waiter s' w = waiter s w := fun w => by rw [waiter, waiter, hsems]
  have hmemi : i ∈ s.timers.list.items := by simp [hi]
  have hmem : ∀ j, j ∈ s'.timers.list.items ↔ j ∈ s.timers.list.items ∧ j ≠ i := by
    intro j
    have hnd := hi ▸ h.timers
    rw [List.nodup_cons] at hnd
    rw [hlist, hi, List.mem_cons]
    constructor
    · exact fun hj => ⟨Or.inr hj, fun he => hnd.1 (he ▸ hj)⟩
    · exact fun hj => hj.1.resolve_left hj.2
  refine ⟨?_, ?_, ?_, ?_, ?_, ?_, ?_⟩
  · rw [hlist]
    exact (List.nodup_cons.mp (hi ▸ h.timers)).2
  · intro j
    rw [hmem, hitem, Store.free_inUse, h.timerInUse]
  · intro j hj
    obtain ⟨hj, hji⟩ := (hmem j).mp hj
    obtain ⟨h1, h2⟩ := h.sleeping j hj
    rw [hsl, hwaiting, hn, hnd.mem_erase_iff]
    exact ⟨⟨fun he => hji (h.oneTimer j hj i hmemi he), h1⟩, h2⟩
  · intro j hj k hk he
    rw [hsl, hsl] at he
    exact h.oneTimer j ((hmem j).mp hj).1 k ((hmem k).mp hk).1 he
  · intro x w hw
    rw [hq] at hw
    obtain ⟨h1, h2⟩ := h.queued x w hw
    rw [hwt, hwaiting, hn, hnd.mem_erase_iff]
    refine ⟨⟨fun he => ?_, h1⟩, h2⟩
    rw [he, (h.sleeping i hmemi).2] at h2
    cases h2
  · simpa only [hwt, hq] using h.onePlace
  · intro b hb
    rw [hwaiting, hnd.mem_erase_iff] at hb
    simp only [hn, hq, hwt, hsl]
    rcases h.source b hb.2 with h1 | ⟨h1, j, hj, h2⟩ | h1
    · exact Or.inl h1
    · refine Or.inr (Or.inl ⟨h1, j, (hmem j).mpr ⟨hj, ?_⟩, h2⟩)
      rintro rfl
      exact hb.1 h2.symm
    · exact Or.inr (Or.inr h1)

/-- The first place in the queue of `x`, which is `w`, goes and its process becomes ready. -/
theorem leaveQueue (h : WakeInv s) (hnd : (s.procs .waiting).items.Nodup)
    (hndq : (queue s x).Nodup) (hw : w ∈ queue s x)
    (htimers : s'.timers = s.timers)
    (hqueue : ∀ y, queue s' y = if y = x then (queue s x).erase w else queue s y)
    (hwaiting : (s'.procs .waiting).items = (s.procs .waiting).items.erase (waiter s w))
    (hn : ∀ k, (s'.pcb k).syscallNum = (s.pcb k).syscallNum)
    (hwt : ∀ v, waiter s' v = waiter s v) : WakeInv s' := by
  have hsl : ∀ i, sleeper s' i = sleeper s i := fun i => by rw [sleeper, sleeper, htimers]
  have hmem : ∀ y v, v ∈ queue s' y ↔ v ∈ queue s y ∧ ¬ (y = x ∧ v = w) := by
    intro y v
    rw [hqueue]
    split_ifs with hy
    · subst hy
      rw [hndq.mem_erase_iff]
      tauto
    · simp [hy]
  refine ⟨htimers ▸ h.timers, htimers ▸ h.timerInUse, ?_, ?_, ?_, ?_, ?_⟩
  · intro i hi
    rw [htimers] at hi
    obtain ⟨h1, h2⟩ := h.sleeping i hi
    rw [hsl, hwaiting, hn, hnd.mem_erase_iff]
    refine ⟨⟨fun he => ?_, h1⟩, h2⟩
    rw [he, (h.queued x w hw).2] at h2
    cases h2
  · simpa only [hsl, htimers] using h.oneTimer
  · intro y v hv
    obtain ⟨hv, hne⟩ := (hmem y v).mp hv
    obtain ⟨h1, h2⟩ := h.queued y v hv
    rw [hwt, hwaiting, hn, hnd.mem_erase_iff]
    exact ⟨⟨fun he => hne (h.onePlace y v x w hv hw he), h1⟩, h2⟩
  · intro y v z u hv hu he
    rw [hwt, hwt] at he
    exact h.onePlace y v z u ((hmem y v).mp hv).1 ((hmem z u).mp hu).1 he
  · intro b hb
    rw [hwaiting, hnd.mem_erase_iff] at hb
    simp only [hn, htimers, hwt, hsl]
    rcases h.source b hb.2 with h1 | h1 | ⟨h1, y, v, hv, h2⟩
    · exact Or.inl h1
    · exact Or.inr (Or.inl h1)
    · refine Or.inr (Or.inr ⟨h1, y, v, (hmem y v).mpr ⟨hv, ?_⟩, h2⟩)
      rintro ⟨rfl, rfl⟩
      exact hb.1 h2.symm

end WakeInv
end DisastrOS
