import DisastrOS.Progress
import DisastrOS.Handover

/-! The parent pointers and the lists of children agree as long as no process exits that has
children. -/
namespace DisastrOS
open BlockPool TransitionSystem

variable {s s' t : Kernel} {p q a b i : ℕ} {n : ℤ} {args : List ℤ}

/-- Every process but init has a living parent that has it in its list of children. -/
def TreeKept (s : Kernel) : Prop :=
  ∀ b, s.pcbs.InUse b → s.initPcb ≠ some b → ∃ a, (s.pcb b).parent = some a ∧
    s.pcbs.InUse a ∧ (s.pcb a).status ≠ .zombie ∧ ∃ q ∈ children s a, child s q = b

/-- The process `p` has no children, and a parent that waits for it finds it by its pid. -/
def Leaf (s : Kernel) (p : ℕ) : Prop :=
  (s.pcb p).children.items = [] ∧ ∀ a ∈ (s.pcb p).parent, WaitsFor s a p →
    ∀ q ∈ pcbPtrByPid s (s.pcb a).children (s.pcb p).pid, (s.pcbPtrs.cell q).pcb = p

instance (s : Kernel) (p : ℕ) : Decidable (Leaf s p) := inferInstanceAs (Decidable (_ ∧ _))

/-- The step is not an exit of a process with children, nor one whose parent takes another child
for it. -/
def LeafExit (s : Kernel) : Action → Prop
  | .syscall n _ => n = dsosCallExit → ∀ p ∈ s.running, Leaf s p
  | .tick | .returnToProcess => True

instance (s : Kernel) (act : Action) : Decidable (LeafExit s act) :=
  match act with
  | .syscall n _ => inferInstanceAs (Decidable (n = dsosCallExit → _))
  | .tick | .returnToProcess => inferInstanceAs (Decidable True)

/-- When `p`, a child of init, exits and init waits for it, init runs with its pid and value. -/
def InitWoken (s : Kernel) : Prop :=
  ∀ p i v, s.running = some p → s.initPcb = some i → (s.pcb p).parent = some i →
    WaitsFor s i p → Leaf s p → ∃ t, kernel.step s (.syscall dsosCallExit [v]) = .ok t ∧
      t.running = some i ∧ (t.pcb i).syscallRetvalue = (s.pcb p).pid ∧
      ((s.pcb i).syscallArgs 1 ≠ 0 → t.memory ((s.pcb i).syscallArgs 1) = toInt v)

/-- The process that a pointer in the list of `a` refers to has `a` as its parent. -/
def ParentInv (s : Kernel) : Prop :=
  ∀ a, ∀ q ∈ children s a, (s.pcb (child s q)).parent = some a

/-- A process without children hands nothing over. -/
theorem reparented_items (hp : (s.pcb p).children.items = []) (k : ℕ) :
    (reparented s p i k).items = children s k := by
  rw [reparented]
  split_ifs with hkp hki
  · rw [hkp, children, hp]
  · simp [hki, hp, children]
  · rfl

theorem pcbPtrByPid_reparented (hp : (s.pcb p).children.items = []) (v : ℤ) :
    pcbPtrByPid s (reparented s p i a) v = pcbPtrByPid s (s.pcb a).children v := by
  rw [pcbPtrByPid, reparented_items hp]
  rfl

namespace ParentInv

theorem of_subset (h : ParentInv s) (hc : ChildInv s)
    (hsub : ∀ a, ∀ q ∈ children s' a, q ∈ children s a) (hch : ∀ q, child s' q = child s q)
    (hpar : ∀ k, s.pcbs.InUse k → (s'.pcb k).parent = (s.pcb k).parent) : ParentInv s' := by
  intro a q hq
  rw [hch, hpar _ (hc.childInUse a q (hsub a q hq))]
  exact h a q (hsub a q hq)

theorem family (h : ParentInv s) (hc : ChildInv s) (hs : SameFamily s s') : ParentInv s' := by
  refine h.of_subset hc (fun a q hq => ?_) (fun q => ?_) fun k _ => hs.parent k
  · rwa [children, hs.children] at hq
  · rw [child, child, hs.pcbPtrs]

theorem newChild {cpu : Option ℤ} (h : ParentInv s) (hc : ChildInv s)
    (hn : NewChild s s' p b q cpu) : ParentInv s' := by
  have hch : ∀ r, child s' r = if r = q then b else child s r := by
    intro r
    rw [child, hn.cellPtr]
    split_ifs <;> rfl
  have hpar : ∀ k, k ≠ b → (s'.pcb k).parent = (s.pcb k).parent := by
    intro k hk
    rw [hn.pcb, if_neg hk]
    split_ifs <;> rfl
  have hold : ∀ k r, r ∈ children s k → (s'.pcb (child s' r)).parent = some k := by
    intro k r hr
    have hrq : r ≠ q := fun he => hn.freshPtr (he ▸ hc.ptr.inUse k r hr)
    have hrb : child s r ≠ b := fun he => hn.fresh (he ▸ hc.childInUse k r hr)
    rw [hch, if_neg hrq, hpar _ hrb]
    exact h k r hr
  intro k r hr
  rw [PtrInv.newChild_children hn] at hr
  split_ifs at hr with hkb hkp
  · cases hr
  · rcases List.mem_append.mp hr with hr | hr
    · exact hkp ▸ hold p r hr
    · obtain rfl := List.mem_singleton.mp hr
      rw [hch, if_pos rfl, hn.pcb, if_pos rfl, hkp]
      rfl
  · exact hold k r hr

/-- Another first process has no children and is nobody's child. -/
theorem started (h : ParentInv s) (hc : ChildInv s) (hst : Started s s' b) : ParentInv s' := by
  refine h.of_subset hc (fun k r hr => ?_) (fun r => ?_) fun k hk => ?_
  · rw [children, hst.pcb] at hr
    split_ifs at hr with hkb
    · cases hr
    · exact hr
  · rw [child, child, hst.pcbPtrs]
  · rw [hst.pcb, if_neg fun (hkb : k = b) => hst.fresh (hkb ▸ hk)]

theorem move (h : ParentInv s) (hc : ChildInv s) (hm : FamilyMove s s')
    (hleaf : ∀ p, s.running = some p → (s.pcb p).syscallNum = dsosCallExit →
      (s.pcb p).children.items = []) : ParentInv s' := by
  cases hm with
  | same same => exact h.family hc same
  | create p b q cpu _ created => exact h.newChild hc created
  | zombie p a i running number _ _ _ _ zombied =>
    have hp := hleaf p running number
    refine h.of_subset hc (fun k r hr => ?_) (fun r => ?_) fun k _ => zombied.parent k
    · rwa [children, zombied.children, reparented_items hp] at hr
    · rw [child, child, zombied.pcbPtrs]
  | deliver p a i q running number _ _ _ _ _ _ delivered =>
    have hp := hleaf p running number
    refine h.of_subset hc (fun k r hr => ?_) (fun r => ?_) fun k _ => delivered.parent k
    · rw [children, delivered.children, reparented_items hp, reparented_items hp] at hr
      split_ifs at hr with hk
      · exact hk ▸ List.mem_of_mem_erase hr
      · exact hr
    · rw [child, child, delivered.pcbPtrs]
  | collect p q _ _ _ _ result =>
    subst result
    refine h.of_subset hc (fun k r hr => ?_) (fun r => ?_) fun k _ => ?_
    · rw [PtrInv.reaped_children] at hr
      split_ifs at hr with hk
      · exact hk ▸ List.mem_of_mem_erase hr
      · exact hr
    · simp [reaped, child]
    · by_cases hk : k = p <;> simp [reaped, hk]
  | start b _ started => exact h.started hc started

end ParentInv

theorem tree_invariant (h : kernel.ReachableBy LeafExit s) : ChildInv s ∧ ParentInv s := by
  refine h.invariant (P := fun s => ChildInv s ∧ ParentInv s) ⟨.start, fun a q hq => ?_⟩
    fun s act t hr hp hG hm => ?_
  · rw [show kernel.start = disastrOSStart from rfl, children_start] at hq
    cases hq
  have hk := KernelInv.reachable hr.reachable
  rcases step_family hk hm with hsame | ⟨p, n, args, hrun, rfl, hke, hmove⟩ | ⟨b, -, -, hst⟩
  · exact ⟨hp.1.family hsame, hp.2.family hp.1 hsame⟩
  · have hc : ChildInv (enterSyscall s p n args) := hp.1.family enterSyscall_family
    -- the guard speaks about the state before the call, the move about the one inside it
    have hleaf : ∀ p', (enterSyscall s p n args).running = some p' →
        ((enterSyscall s p n args).pcb p').syscallNum = dsosCallExit → p' = p ∧ Leaf s p := by
      intro p' hp' hnum
      obtain rfl : p = p' := Option.some.inj (hrun ▸ hp')
      simp only [enterSyscall, Kernel.pcb_modPcb, if_true] at hnum
      exact ⟨rfl, hG hnum p hrun⟩
    have hch : ((enterSyscall s p n args).pcb p).children = (s.pcb p).children := by
      simp [enterSyscall]
    refine ⟨hc.move hke.proc hmove ?_, (hp.2.family hp.1 enterSyscall_family).move hc hmove ?_⟩
    · intro p' a i q hp' hnum hpar _ haw hw hq
      obtain ⟨rfl, hl⟩ := hleaf p' hp' hnum
      have hap := hke.proc.running_ne hp' haw
      have hnil : ((enterSyscall s p' n args).pcb p').children.items = [] := by rw [hch, hl.1]
      rw [pcbPtrByPid_reparented hnil, pcbPtrByPid_enterSyscall] at hq
      have hpar' : (s.pcb p').parent = some a := by simpa [enterSyscall] using hpar
      refine hl.2 a hpar' ((waitsFor_enterSyscall hap).mp hw) q ?_
      simpa [enterSyscall, hap] using hq
    · intro p' hp' hnum
      obtain ⟨rfl, hl⟩ := hleaf p' hp' hnum
      rw [hch, hl.1]
  · exact ⟨hp.1.started hst, hp.2.started hp.1 hst⟩

/-- As long as no process exits that has children, and no second process is made without a
parent, the parent of every process is alive and has it in its list, and init is woken by those
of its children that it waits for. -/
theorem tree_kept (h : kernel.ReachableBy (fun s act => LeafExit s act ∧ NoRestart s act) s) :
    TreeKept s ∧ InitWoken s := by
  have hk := KernelInv.reachable h.reachable
  obtain ⟨hc, hpar⟩ := tree_invariant (h.mono fun _ _ hG => hG.1)
  have honly := OnlyInitOrphan.reachableBy (h.mono fun _ _ hG => hG.2)
  have htree : TreeKept s := by
    intro b hb hbi
    obtain ⟨a, q, hq, rfl⟩ := hc.complete b hb fun hnone => hbi (honly b hb hnone)
    obtain ⟨hu, hz⟩ := hc.owner a q hq
    exact ⟨a, hpar a q hq, hu, fun h => hz ((hk.proc.zombie a hu).mp h), q, hq, rfl⟩
  refine ⟨htree, fun p i v hp hi ha hw hl => ?_⟩
  have hip := hk.proc.running_ne hp ((hk.proc.waiting i).mp hw.1)
  have hke : KernelInv (enterSyscall s p dsosCallExit [v]) := hk.enter hp
  have hres : ResInv (enterSyscall s p dsosCallExit [v]) :=
    (ResInv.reachable h.reachable).frame (by constructor <;> intros <;> simp [enterSyscall])
  -- `p` stands in the list of init, so that its pid is found there
  obtain ⟨q, hq⟩ : ∃ q, pcbPtrByPid s (s.pcb i).children (s.pcb p).pid = some q := by
    obtain ⟨a, ha', -, -, q, hq, he⟩ := htree p (hk.proc.inUse_of_running hp)
      fun h => hip (Option.some.inj (hi.symm.trans h))
    obtain rfl : i = a := Option.some.inj (ha ▸ ha')
    refine Option.isSome_iff_exists.mp (List.find?_isSome.mpr ⟨q, hq, ?_⟩)
    rw [decide_eq_true_eq, show (s.pcbPtrs.cell q).pcb = p from he]
  have hnil : ((enterSyscall s p dsosCallExit [v]).pcb p).children.items = [] := by
    simpa [enterSyscall] using hl.1
  obtain ⟨t, ht, hd⟩ := internalExit_toParent (q := q) hke (hc.ptr.family enterSyscall_family) hres
    hp (by simpa [enterSyscall] using ha) hi hip.symm ((waitsFor_enterSyscall hip).mpr hw)
    (by rw [pcbPtrByPid_reparented hnil, pcbPtrByPid_enterSyscall]; simpa [enterSyscall, hip] using hq)
  have hstep : step s (.syscall Handler.exit.number [v]) = _ := step_handler hp
  refine ⟨t, hstep.trans ht, hd.running, ?_, fun h0 => ?_⟩
  · rw [hd.retvalue]
    simp [enterSyscall]
  · have hm := hd.memory
    simp only [enterSyscall, Kernel.pcb_modPcb, hip, if_false, if_true] at hm
    exact hm h0

theorem tree_kept_grandchild :
    let s := kernel.replayBy (fun s act => LeafExit s act ∧ NoRestart s act) [
      .syscall dsosCallSpawn [0, 0], .syscall dsosCallPreempt [],
      .syscall dsosCallSpawn [0, 0], .syscall dsosCallSpawn [0, 0], .syscall dsosCallWait [0, 0],
      .syscall dsosCallPreempt [], .syscall dsosCallExit [7]]
    collectedPids s.trace = [2] ∧ TreeKept s ∧ InitWoken s := by
  exact ⟨by decide +kernel, tree_kept (System.reachableBy_replayBy _)⟩

/-- The child of a process that has exited still has it as its parent, and a first process that
falls asleep alone is not init any more. -/
theorem orphan_keeps_parent :
    ¬ TreeKept (kernel.replay [.syscall dsosCallSpawn [0, 0], .syscall dsosCallPreempt [],
      .syscall dsosCallSpawn [0, 0], .syscall dsosCallExit [7]]) ∧
    ¬ TreeKept (kernel.replay [.syscall dsosCallSleep [5], .returnToProcess]) := by
  constructor <;> intro h
  · obtain ⟨a, ha, -, hz, -⟩ := h 2 (by decide +kernel) (by decide +kernel)
    have hpar : (((kernel.replay [.syscall dsosCallSpawn [0, 0], .syscall dsosCallPreempt [],
      .syscall dsosCallSpawn [0, 0], .syscall dsosCallExit [7]]).pcb 2).parent) = some 1 := by
      decide +kernel
    obtain rfl := Option.some.inj (hpar.symm.trans ha)
    exact hz (by decide +kernel)
  · obtain ⟨a, ha, -⟩ := h 0 (by decide +kernel) (by decide +kernel)
    have hpar : ((kernel.replay [.syscall dsosCallSleep [5], .returnToProcess]).pcb 0).parent =
        none := by decide +kernel
    exact absurd (hpar.symm.trans ha) nofun

end DisastrOS
