import DisastrOS.Syscall

/-! What the elementary operations of the model do to the parts of a state, for simp, and
when the ones that may fail succeed. -/
namespace DisastrOS
open BlockPool

theorem bind_ok {ε α β : Type} {x : Except ε α} {f : α → Except ε β} {r : β} :
    (x >>= f) = .ok r ↔ ∃ a, x = .ok a ∧ f a = .ok r := by
  cases x with
  | error e => simp [bind, Except.bind]
  | ok a => simp [bind, Except.bind]

theorem deref_ok {o : Option ℕ} {b : ℕ} : deref o = .ok b ↔ o = some b := by
  cases o <;> simp [deref]

/-! ### Lists -/

@[simp] theorem ListHead.init_items : ListHead.init.items = [] := rfl

@[simp] theorem ListHead.init_size : ListHead.init.size = 0 := rfl

theorem insertAfter_last {l : List ℕ} {q b : ℕ} (h : l.getLast? = some q) :
    insertAfter q b l = l ++ [b] := by
  induction l with
  | nil => simp at h
  | cons k ks ih =>
    cases ks with
    | nil =>
      simp only [List.getLast?_singleton, Option.some.injEq] at h
      simp [insertAfter, h]
    | cons k' ks =>
      rw [List.getLast?_cons_cons] at h
      have hq : q ∈ k' :: ks := List.mem_of_getLast? h
      simp only [insertAfter, hq, if_true, List.cons_append]
      congr 1
      exact ih h

theorem insertAfter_perm {l : List ℕ} {q b : ℕ} (h : q ∈ l) :
    (insertAfter q b l).Perm (b :: l) := by
  induction l with
  | nil => simp at h
  | cons k ks ih =>
    simp only [insertAfter]
    split_ifs with hq hk
    · exact ((ih hq).cons k).trans (List.Perm.swap b k ks)
    · exact List.Perm.swap b k ks
    · rcases List.mem_cons.mp h with rfl | h
      · exact absurd rfl hk
      · exact absurd h hq

/-- Appending is what the kernel does with all but two of its insertions. -/
theorem listInsert_last_ok {h h' : ListHead} {b : ℕ} :
    listInsert h h.last b = .ok h' ↔ b ∉ h.items ∧ h' = ⟨h.items ++ [b], h.size + 1⟩ := by
  unfold listInsert
  split_ifs with hb
  · simp [hb]
  · cases hl : h.last with
    | none =>
      have hn : h.items = [] := List.getLast?_eq_none_iff.mp hl
      simp [hn, eq_comm]
    | some q =>
      have hq : q ∈ h.items := List.mem_of_getLast? hl
      simp [hq, hb, insertAfter_last hl, eq_comm]

/-- Wherever the new item is put, the other items keep their order. -/
theorem listInsert_ok {h h' : ListHead} {prev : Option ℕ} {b : ℕ}
    (hi : listInsert h prev b = .ok h') :
    b ∉ h.items ∧ h'.items.Perm (b :: h.items) ∧ h'.size = h.size + 1 := by
  unfold listInsert at hi
  split_ifs at hi with hb
  cases prev with
  | none =>
    obtain rfl := Except.ok.inj hi
    exact ⟨hb, List.Perm.refl _, rfl⟩
  | some q =>
    simp only at hi
    split_ifs at hi with hq
    obtain rfl := Except.ok.inj hi
    exact ⟨hb, insertAfter_perm hq, rfl⟩

theorem listDetach_ok {h h' : ListHead} {b : ℕ} :
    listDetach h b = .ok h' ↔ b ∈ h.items ∧ h' = ⟨h.items.erase b, h.size - 1⟩ := by
  unfold listDetach
  split_ifs with hb <;> simp [hb, eq_comm]

theorem ListHead.first_eq_some {h : ListHead} {q : ℕ} (hf : h.first = some q) :
    ∃ rest, h.items = q :: rest := by
  unfold ListHead.first at hf
  cases hi : h.items with
  | nil => simp [hi] at hf
  | cons k ks =>
    simp only [hi, List.head?_cons, Option.some.injEq] at hf
    exact ⟨ks, by rw [hf]⟩

theorem ListHead.first_eq_none {h : ListHead} (hf : h.first = none) : h.items = [] := by
  simpa [ListHead.first] using hf

/-! ### The fields of a changed PCB -/

section
variable {c : Prop} [Decidable c] (x y : PCB)

@[simp] theorem PCB.pid_ite : (if c then x else y).pid = if c then x.pid else y.pid :=
  apply_ite ..
@[simp] theorem PCB.returnValue_ite :
    (if c then x else y).returnValue = if c then x.returnValue else y.returnValue := apply_ite ..
@[simp] theorem PCB.status_ite :
    (if c then x else y).status = if c then x.status else y.status := apply_ite ..
@[simp] theorem PCB.parent_ite :
    (if c then x else y).parent = if c then x.parent else y.parent := apply_ite ..
@[simp] theorem PCB.children_ite :
    (if c then x else y).children = if c then x.children else y.children := apply_ite ..
@[simp] theorem PCB.cpuState_ite :
    (if c then x else y).cpuState = if c then x.cpuState else y.cpuState := apply_ite ..
@[simp] theorem PCB.timer_ite :
    (if c then x else y).timer = if c then x.timer else y.timer := apply_ite ..
@[simp] theorem PCB.lastFd_ite :
    (if c then x else y).lastFd = if c then x.lastFd else y.lastFd := apply_ite ..
@[simp] theorem PCB.descriptors_ite :
    (if c then x else y).descriptors = if c then x.descriptors else y.descriptors := apply_ite ..
@[simp] theorem PCB.lastSemFd_ite :
    (if c then x else y).lastSemFd = if c then x.lastSemFd else y.lastSemFd := apply_ite ..
@[simp] theorem PCB.semDescriptors_ite :
    (if c then x else y).semDescriptors = if c then x.semDescriptors else y.semDescriptors :=
  apply_ite ..
@[simp] theorem PCB.syscallNum_ite :
    (if c then x else y).syscallNum = if c then x.syscallNum else y.syscallNum := apply_ite ..
@[simp] theorem PCB.syscallArgs_ite :
    (if c then x else y).syscallArgs = if c then x.syscallArgs else y.syscallArgs := apply_ite ..
@[simp] theorem PCB.syscallRetvalue_ite :
    (if c then x else y).syscallRetvalue = if c then x.syscallRetvalue else y.syscallRetvalue :=
  apply_ite ..

end

/-! ### The PCBs of a changed state -/

namespace Kernel
variable (s : Kernel) (b k : ℕ)

@[simp] theorem pcb_modPcb (f : PCB → PCB) :
    (s.modPcb b f).pcb k = if k = b then f (s.pcb k) else s.pcb k := rfl
@[simp] theorem pcb_mapPcbs (f : ℕ → PCB → PCB) : (s.mapPcbs f).pcb k = f k (s.pcb k) := rfl
@[simp] theorem pcb_emit (e : Event) : (s.emit e).pcb k = s.pcb k := rfl
@[simp] theorem pcb_setRunning (o : Option ℕ) : (s.setRunning o).pcb k = s.pcb k := rfl
@[simp] theorem pcb_setSems (t : SemTable) : (s.setSems t).pcb k = s.pcb k := rfl
@[simp] theorem pcb_setResources (t : ResourceTable) : (s.setResources t).pcb k = s.pcb k := rfl
@[simp] theorem pcb_setTimers (t : TimerTable) : (s.setTimers t).pcb k = s.pcb k := rfl
@[simp] theorem pcb_setProcs (l : ProcList) (h : ListHead) : (s.setProcs l h).pcb k = s.pcb k :=
  rfl
@[simp] theorem pcb_storeResult (r v : ℤ) : (storeResult s r v).pcb k = s.pcb k := rfl
@[simp] theorem mapPcbs_inUse (f : ℕ → PCB → PCB) :
    (s.mapPcbs f).pcbs.InUse k ↔ s.pcbs.InUse k := Iff.rfl
@[simp] theorem modPcb_inUse (f : PCB → PCB) :
    (s.modPcb b f).pcbs.InUse k ↔ s.pcbs.InUse k := Iff.rfl
@[simp] theorem pcb_pcbFree : (pcbFree s b).pcb k = s.pcb k := rfl
@[simp] theorem pcb_pcbPtrFree : (pcbPtrFree s b).pcb k = s.pcb k := rfl

/-- States that differ at most in their PCBs are equal when these are. -/
theorem eq_of_pcb {s t : Kernel} (hrest : { s with pcbs := t.pcbs } = t)
    (hpool : s.pcbs.pool = t.pcbs.pool) (hpcb : ∀ k, s.pcb k = t.pcb k) : s = t := by
  have hcells : s.pcbs = t.pcbs := by
    cases hs : s.pcbs
    cases ht : t.pcbs
    simp only [Kernel.pcb, hs, ht] at hpool hpcb
    rw [hpool, funext hpcb]
  rw [← hrest, ← hcells]

end Kernel
end DisastrOS
