import Mathlib.Data.Finset.Fold
import Mathlib.Data.Fintype.Powerset
import DisastrOS.FdNumbers
import DisastrOS.OpenAtomic

/-! What the flags of an open of a resource ask for, and what they come to. -/
namespace DisastrOS
open BlockPool TransitionSystem

/-- `DSOS_READ` -/
def dsosRead : BitVec 32 := 0x2

/-- `DSOS_WRITE` -/
def dsosWrite : BitVec 32 := 0x3

inductive OpenFlag
  | create
  | read
  | write
  | excl
  deriving DecidableEq, Repr

instance : Fintype OpenFlag where
  elems := {.create, .read, .write, .excl}
  complete := by rintro (_ | _ | _ | _) <;> decide

def OpenFlag.value : OpenFlag → BitVec 32
  | .create => dsosCreate
  | .read => dsosRead
  | .write => dsosWrite
  | .excl => dsosExcl

/-- The bitwise or of the flags. -/
def modeOf (F : Finset OpenFlag) : BitVec 32 := F.fold (· ||| ·) 0 OpenFlag.value

/-- `DSOS_WRITE` has the bit of `DSOS_CREATE`. -/
theorem modeOf_create (F : Finset OpenFlag) :
    modeOf F &&& dsosCreate ≠ 0 ↔ .create ∈ F ∨ .write ∈ F := by
  revert F
  decide

theorem modeOf_excl (F : Finset OpenFlag) : modeOf F &&& dsosExcl ≠ 0 ↔ .excl ∈ F := by
  revert F
  decide

variable {s t u : Kernel} {p r d e : ℕ} {id type v : ℤ} {F : Finset OpenFlag} {used : List ℤ}
  {w : ResourceTable} {l : List ℕ}

/-- The resource `r` is new, with the given id and type. -/
structure CreatesResource (s t : Kernel) (r : ℕ) (id type : ℤ) : Prop where
  fresh : ¬ s.resources.resource.InUse r
  inUse : t.resources.resource.InUse r
  list : t.resources.list.items = s.resources.list.items ++ [r]
  id : (t.resources.resource.cell r).id = id
  type : (t.resources.resource.cell r).type = type

/-- The process `p` and the resource `r`, which had the entries `l`, have one descriptor more; its
number is the result, and not among those that `p` has had. -/
structure GivesFd (s t : Kernel) (p r : ℕ) (l : List ℕ) (used : List ℤ) (d e : ℕ) : Prop where
  descriptors : (t.pcb p).descriptors.items = (s.pcb p).descriptors.items ++ [d]
  entries : (t.resources.resource.cell r).descriptors.items = l ++ [e]
  cell : t.resources.descriptor.cell d = ⟨p, r, (t.pcb p).syscallRetvalue, e⟩
  ptr : (t.resources.descriptorPtr.cell e).descriptor = d
  otherDescriptors : ∀ k ≠ p, (t.pcb k).descriptors = (s.pcb k).descriptors
  otherEntries : ∀ y ∈ s.resources.list.items, y ≠ r →
    (t.resources.resource.cell y).descriptors = (s.resources.resource.cell y).descriptors
  fresh : (t.pcb p).syscallRetvalue ∉ used

/-- What `p` gets in `t` is what it asks for in `s` with the flags `F`. -/
structure HonoursFlags (s t : Kernel) (p : ℕ) (id type : ℤ) (F : Finset OpenFlag)
    (used : List ℤ) : Prop where
  creates : (∃ r, CreatesResource s t r id type) ↔
    .create ∈ F ∧ resourceListById s.resources id = none
  keeps : ¬ (.create ∈ F ∧ resourceListById s.resources id = none) →
    t.resources.list = s.resources.list
  known : (t.pcb p).syscallRetvalue = dsosEresourcecreate ↔
    .create ∈ F ∧ resourceListById s.resources id ≠ none
  missing : .create ∉ F → (∀ r ∈ resourceListById s.resources id,
      (s.resources.resource.cell r).type ≠ type) →
    (t.pcb p).syscallRetvalue = dsosEresourceopen ∧ t.resources = s.resources
  opens : .create ∉ F → ∀ r ∈ resourceListById s.resources id,
    (s.resources.resource.cell r).type = type →
    (.excl ∉ F ∨ (s.resources.resource.cell r).descriptors.items = []) →
    ∃ d e, GivesFd s t p r (s.resources.resource.cell r).descriptors.items used d e
  opensNew : ∀ r, CreatesResource s t r id type → ∃ d e, GivesFd s t p r [] used d e
  one : (t.pcb p).descriptors ≠ (s.pcb p).descriptors → ∃ r l d e, GivesFd s t p r l used d e

/-- The flags ask for a resource that can be given. -/
def FlagsGrant (w : ResourceTable) (id type : ℤ) (F : Finset OpenFlag) : Prop :=
  .create ∈ F ∧ resourceListById w id = none ∨
    .create ∉ F ∧ ∃ r ∈ resourceListById w id, (w.resource.cell r).type = type ∧
      (.excl ∉ F ∨ (w.resource.cell r).descriptors.items = [])

theorem openRefusal_modeOf (hw : .write ∈ F → .create ∈ F) :
    openRefusal w id type (modeOf F) =
      if .create ∈ F then (resourceListById w id).map fun _ => dsosEresourcecreate
      else descriptorRefusal w (resourceListById w id) type (modeOf F) := by
  have hc : modeOf F &&& dsosCreate ≠ 0 ↔ .create ∈ F := by
    rw [modeOf_create]
    exact ⟨fun h => h.elim (·) hw, Or.inl⟩
  simp only [openRefusal, hc]

/-- With the pools not empty, what is not refused is granted. -/
theorem flagsGrant_iff (hl : Lockstep w) (hw : .write ∈ F → .create ∈ F)
    (hd : w.descriptor.pool.free ≠ []) :
    FlagsGrant w id type F ↔ openRefusal w id type (modeOf F) = none := by
  rw [openRefusal_modeOf hw, FlagsGrant]
  by_cases hc : .create ∈ F
  · simp [hc]
  · cases hf : resourceListById w id with
    | none => simp [hc, descriptorRefusal]
    | some r =>
      have hsize : (w.resource.cell r).descriptors.items = [] ↔
          (w.resource.cell r).descriptors.size = 0 := by
        rw [hl.size]
        simp
      simp only [hc, descriptorRefusal, modeOf_excl, hd]
      by_cases ht : (w.resource.cell r).type = type <;> by_cases hx : .excl ∈ F <;>
        simp [ht, hx, hsize]

theorem descriptorRefusal_ne {res : Option ℕ} {openMode : BitVec 32} :
    descriptorRefusal w res type openMode ≠ some dsosEresourcecreate := by
  cases res with
  | none =>
    change some dsosEresourceopen ≠ some dsosEresourcecreate
    decide
  | some r =>
    simp only [descriptorRefusal]
    split_ifs <;> decide

theorem CreatesResource.list_ne (h : CreatesResource s t r id type) :
    t.resources.list ≠ s.resources.list := fun he => by
  have hlist := h.list
  rw [he] at hlist
  simp at hlist

theorem honoursFlags_refused (hw : .write ∈ F → .create ∈ F)
    (hl : Lockstep s.resources) (hd : s.resources.descriptor.pool.free ≠ [])
    (hv : openRefusal s.resources id type (modeOf F) = some v) (hs : SameResources s t)
    (hret : (t.pcb p).syscallRetvalue = v) : HonoursFlags s t p id type F used := by
  have hlist : t.resources.list = s.resources.list := by rw [hs.resources]
  have hno : ¬ FlagsGrant s.resources id type F := fun hg => by
    rw [(flagsGrant_iff hl hw hd).mp hg] at hv
    cases hv
  have hnone : ∀ r, ¬ CreatesResource s t r id type := fun r hc => hc.list_ne hlist
  constructor
  case creates =>
    refine iff_of_false (fun ⟨r, hc⟩ => hnone r hc) fun hc => hno (Or.inl hc)
  case keeps => exact fun _ => hlist
  case known =>
    rw [hret]
    rw [openRefusal_modeOf hw] at hv
    split_ifs at hv with hc
    · obtain ⟨r, hr, rfl⟩ := Option.map_eq_some_iff.mp hv
      simp [hc, hr]
    · exact iff_of_false (fun he => descriptorRefusal_ne (he ▸ hv)) fun h => hc h.1
  case missing =>
    intro hc hmiss
    rw [openRefusal_modeOf hw, if_neg hc] at hv
    refine ⟨?_, hs.resources⟩
    rw [hret]
    cases hf : resourceListById s.resources id with
    | none =>
      rw [hf] at hv
      exact (Option.some.inj hv).symm
    | some r =>
      simp only [hf, descriptorRefusal, if_pos (hmiss r hf)] at hv
      exact (Option.some.inj hv).symm
  case opens =>
    intro hc r hr ht hx
    exact absurd (Or.inr ⟨hc, r, hr, ht, hx⟩) hno
  case opensNew => exact fun r hc => absurd hc (hnone r)
  case one => exact fun hne => absurd (hs.descriptors p) hne

/-- An open that succeeds gives the number `last_fd`. -/
theorem ResourceOpened.givesFd (ho : ResourceOpened u t p r d e)
    (hpcb : ∀ k, (u.pcb k).descriptors = (s.pcb k).descriptors)
    (hother : ∀ y ∈ s.resources.list.items, y ≠ r →
      (u.resources.resource.cell y).descriptors = (s.resources.resource.cell y).descriptors)
    (hfresh : (u.pcb p).lastFd ∉ used) :
    GivesFd s t p r (u.resources.resource.cell r).descriptors.items used d e := by
  have hret : (t.pcb p).syscallRetvalue = (u.pcb p).lastFd := by rw [ho.retvalue, if_pos rfl]
  constructor
  case descriptors => rw [ho.descriptors, if_pos rfl, hpcb]
  case entries => rw [ho.cell_resource, if_pos rfl]
  case cell => rw [ho.cell_new, hret]
  case ptr => rw [ho.cellPtr, if_pos rfl]
  case otherDescriptors =>
    intro k hk
    rw [ho.descriptors, if_neg hk, hpcb]
  case otherEntries =>
    intro y hy hyr
    rw [ho.cell_resource, if_neg hyr, hother y hy hyr]
  case fresh => rwa [hret]

/-- A resource that is there is opened. -/
theorem honoursFlags_known (hc : .create ∉ F) (hr : resourceListById s.resources id = some r)
    (ht : (s.resources.resource.cell r).type = type)
    (ho : ResourceOpened u t p r d e) (hs : SameResources s u) :
    HonoursFlags s t p id type F used ↔
      (s.pcb p).lastFd ∉ used ∧ (s.pcb p).lastFd ≠ dsosEresourcecreate := by
  have hret : (t.pcb p).syscallRetvalue = (s.pcb p).lastFd := by
    rw [ho.retvalue, if_pos rfl, hs.lastFd]
  have hlist : t.resources.list = s.resources.list := by rw [ho.list, hs.resources]
  have hne : (t.pcb p).descriptors ≠ (s.pcb p).descriptors := fun he => by
    have hitems := congrArg ListHead.items he
    rw [ho.descriptors, if_pos rfl, hs.descriptors] at hitems
    simp at hitems
  have hnone : ∀ r, ¬ CreatesResource s t r id type := fun r hc => hc.list_ne hlist
  constructor
  · intro h
    obtain ⟨r', l, d', e', hg⟩ := h.one hne
    refine ⟨hret ▸ hg.fresh, fun he => hc (h.known.mp (hret.trans he)).1⟩
  · rintro ⟨hfresh, hcode⟩
    have hgives : GivesFd s t p r (s.resources.resource.cell r).descriptors.items used d e := by
      rw [← hs.resources]
      exact ho.givesFd hs.descriptors (fun y _ _ => by rw [hs.resources]) (by rwa [hs.lastFd])
    constructor
    case creates => exact iff_of_false (fun ⟨r, hc⟩ => hnone r hc) fun h => hc h.1
    case keeps => exact fun _ => hlist
    case known => exact iff_of_false (fun he => hcode (hret ▸ he)) fun h => hc h.1
    case missing => exact fun _ hmiss => absurd ht (hmiss r hr)
    case opens =>
      intro _ r' hr' _ _
      obtain rfl : r = r' := Option.some.inj (hr.symm.trans hr')
      exact ⟨d, e, hgives⟩
    case opensNew => exact fun r hc => absurd hc (hnone r)
    case one => exact fun _ => ⟨r, _, d, e, hgives⟩

section New
variable {st : Store Resource} (hs : SameResources s u)
  (ha : Store.Allocated u.resources.resource st r (fun _ => ⟨id, type, .init⟩))
  (ho : ResourceOpened (resourceCreated u r st) t p r d e)
include hs ha

theorem resourceCreated_cell (y : ℕ) : (resourceCreated u r st).resources.resource.cell y =
    if y = r then ⟨id, type, .init⟩ else s.resources.resource.cell y := by
  rw [← hs.resources]
  exact ha.cell y

include ho

theorem createsResource_opened : CreatesResource s t r id type := by
  have hcell : (t.resources.resource.cell r).id = id ∧ (t.resources.resource.cell r).type = type := by
    rw [ho.cell_resource, if_pos rfl, resourceCreated_cell hs ha, if_pos rfl]
    exact ⟨rfl, rfl⟩
  refine ⟨?_, ?_, ?_, hcell.1, hcell.2⟩
  · rw [← hs.resources]
    exact ha.fresh
  · rw [ho.resource]
    exact (ha.inUse r).mpr (Or.inr rfl)
  · rw [ho.list, ← hs.resources]
    rfl

/-- A resource that is not there is made and opened. -/
theorem honoursFlags_new (hc : .create ∈ F) (hr : resourceListById s.resources id = none) :
    HonoursFlags s t p id type F used ↔
      (s.pcb p).lastFd ∉ used ∧ (s.pcb p).lastFd ≠ dsosEresourcecreate := by
  have hcreates := createsResource_opened hs ha ho
  have hret : (t.pcb p).syscallRetvalue = (s.pcb p).lastFd := by
    rw [ho.retvalue, if_pos rfl]
    exact hs.lastFd p
  have hne : (t.pcb p).descriptors ≠ (s.pcb p).descriptors := fun he => by
    have hitems := congrArg ListHead.items he
    rw [ho.descriptors, if_pos rfl] at hitems
    simp [resourceCreated, hs.descriptors] at hitems
  constructor
  · intro h
    obtain ⟨r', l, d', e', hg⟩ := h.one hne
    exact ⟨hret ▸ hg.fresh, fun he => (h.known.mp (hret.trans he)).2 hr⟩
  · rintro ⟨hfresh, hcode⟩
    have hgives : GivesFd s t p r [] used d e := by
      have hnil : ((resourceCreated u r st).resources.resource.cell r).descriptors.items = [] := by
        rw [resourceCreated_cell hs ha, if_pos rfl]
        rfl
      rw [← hnil]
      refine ho.givesFd hs.descriptors (fun y hy hyr => ?_) ?_
      · rw [resourceCreated_cell hs ha, if_neg hyr]
      · change (u.pcb p).lastFd ∉ used
        rwa [hs.lastFd]
    constructor
    case creates => exact iff_of_true ⟨r, hcreates⟩ ⟨hc, hr⟩
    case keeps => exact fun hno => absurd ⟨hc, hr⟩ hno
    case known => exact iff_of_false (fun he => hcode (hret ▸ he)) fun h => h.2 hr
    case missing => exact fun hno => absurd hc hno
    case opens => exact fun hno => absurd hc hno
    case opensNew =>
      intro r' hr'
      have hlist' := hr'.list
      rw [hcreates.list] at hlist'
      obtain rfl : r = r' := by simpa using hlist'
      exact ⟨d, e, hgives⟩
    case one => exact fun _ => ⟨r, _, d, e, hgives⟩

end New

/-- `last_fd` is new to a process, and not an error code, for the first 2^32 opens but one. -/
theorem lastFd_fresh {x : Kernel × (ℕ → List ℤ)} (h : fdKernel.Reachable x)
    (hu : x.1.pcbs.InUse p) :
    (x.1.pcb p).lastFd ∉ x.2 p ∧ (x.1.pcb p).lastFd ≠ dsosEresourcecreate ↔
      (x.2 p).length < 2 ^ 32 ∧ (x.2 p).length ≠ 2 ^ 32 - 8 := by
  obtain ⟨hL, hlast⟩ := FdsRecorded.reachable h p hu
  generalize (x.2 p).length = n at *
  rw [hL, hlast, toInt_mem_firstFds, not_le, and_congr_right_iff]
  intro hn
  unfold toInt dsosEresourcecreate
  rw [Int.bmod_def]
  omega

theorem step_openFlags {x : Except Fault Kernel} (hl : Lockstep s.resources)
    (hw : .write ∈ F → .create ∈ F) (hres : s.resources.resource.pool.free ≠ [])
    (hdesc : s.resources.descriptor.pool.free ≠ []) (hs : SameResources s u)
    (ho : OpenOutcome u p id type (modeOf F) x) :
    (∃ t, x = .ok t ∧ HonoursFlags s t p id type F used) ↔
      (FlagsGrant s.resources id type F →
        (s.pcb p).lastFd ∉ used ∧ (s.pcb p).lastFd ≠ dsosEresourcecreate) := by
  have hgrant : FlagsGrant s.resources id type F ↔
      openRefusal s.resources id type (modeOf F) = none := flagsGrant_iff hl hw hdesc
  rw [hgrant]
  cases ho with
  | refused v refusal =>
    rw [hs.resources] at refusal
    refine iff_of_true ⟨_, rfl, ?_⟩ fun hno => by simp [hno] at refusal
    exact honoursFlags_refused hw hl hdesc refusal (hs.trans (.setRetvalue u p v)) (by simp)
  | noResource findsNone => exact absurd (hs.resources ▸ findsNone.2.2) hres
  | leftBehind r st mode unknown alloc full => exact absurd (hs.resources ▸ full) hdesc
  | opened v t r d e begins allowed opened =>
    rw [hs.resources] at allowed
    simp only [Except.ok.injEq, exists_eq_left', allowed, forall_const]
    cases begins with
    | known mode found same =>
      subst same
      rw [hs.resources] at found
      have hc : .create ∉ F := fun hc => (modeOf_create F).mpr (Or.inl hc) mode
      have ht : (s.resources.resource.cell r).type = type := by
        by_contra ht
        simp [openRefusal_modeOf hw, hc, found, descriptorRefusal, ht] at allowed
      exact honoursFlags_known hc found ht opened hs
    | new st mode unknown alloc notListed result =>
      subst result
      rw [hs.resources] at unknown
      exact honoursFlags_new hs alloc opened (((modeOf_create F).mp mode).elim (·) hw) unknown

/-- `DSOS_WRITE` without `DSOS_CREATE` is taken for `DSOS_CREATE`. -/
theorem write_not_honoured (hw : .write ∈ F) (hc : .create ∉ F)
    (hdesc : s.resources.descriptor.pool.free ≠ []) (hs : SameResources s u)
    (ho : OpenOutcome u p id type (modeOf F) (.ok t)) : ¬ HonoursFlags s t p id type F used := by
  intro h
  have hbit : modeOf F &&& dsosCreate ≠ 0 := (modeOf_create F).mpr (Or.inr hw)
  cases ho with
  | refused v refusal =>
    rw [openRefusal, if_pos hbit] at refusal
    obtain ⟨r, -, rfl⟩ := Option.map_eq_some_iff.mp refusal
    exact hc (h.known.mp (by simp)).1
  | leftBehind r st mode unknown alloc full => exact hdesc (hs.resources ▸ full)
  | opened v _ r d e begins allowed opened =>
    cases begins with
    | known mode found same => exact hbit mode
    | new st mode unknown alloc notListed result =>
      subst result
      exact hc (h.creates.mp ⟨r, createsResource_opened hs alloc opened⟩).1

/-- The flags are honoured unless they are `DSOS_WRITE` without `DSOS_CREATE`, and unless they are
granted to a process with 2^32 opens, or with the 2^32 - 8 after which `last_fd` is
`DSOS_ERESOURCECREATE`. -/
theorem flags_honoured_iff {x : Kernel × (ℕ → List ℤ)} (h : fdKernel.Reachable x)
    (hp : x.1.running = some p) (hres : x.1.resources.resource.pool.free ≠ [])
    (hdesc : x.1.resources.descriptor.pool.free ≠ []) :
    (∃ t, kernel.step x.1 (.syscall dsosCallOpenResource [id, type, (modeOf F).toInt]) = .ok t ∧
        HonoursFlags x.1 t p (toInt id) (toInt type) F (x.2 p)) ↔
      (.write ∈ F → .create ∈ F) ∧ (FlagsGrant x.1.resources (toInt id) (toInt type) F →
        (x.2 p).length < 2 ^ 32 ∧ (x.2 p).length ≠ 2 ^ 32 - 8) := by
  have hrs : kernel.Reachable x.1 := System.withRecord_reachable h
  have hl := Lockstep.reachable hrs
  have hu := (KernelInv.reachable hrs).proc.inUse_of_running hp
  have hs := enterSyscall_resources x.1 p dsosCallOpenResource [id, type, (modeOf F).toInt]
  have ho := step_openResource hrs hp [id, type, (modeOf F).toInt]
  simp only [List.getD_cons_zero, List.getD_cons_succ, BitVec.ofInt_toInt] at ho
  rw [← lastFd_fresh h hu]
  by_cases hw : .write ∈ F → .create ∈ F
  · rw [step_openFlags hl hw hres hdesc hs ho]
    exact ⟨fun h => ⟨hw, h⟩, fun h => h.2⟩
  · refine iff_of_false ?_ fun hr => hw hr.1
    rintro ⟨t, ht, hhon⟩
    rw [ht] at ho
    obtain ⟨hwrite, hcreate⟩ := Classical.not_imp.mp hw
    exact write_not_honoured hwrite hcreate hdesc hs ho hhon

/-- With `DSOS_CREATE`, `DSOS_WRITE` does no harm. -/
theorem flags_honoured_start : ∃ t, kernel.step disastrOSStart (.syscall dsosCallOpenResource
      [4, 1, (modeOf {.create, .write}).toInt]) = .ok t ∧
    HonoursFlags disastrOSStart t 0 4 1 {.create, .write} [] :=
  (flags_honoured_iff (x := fdKernel.start) .start rfl (by decide +kernel) (by decide +kernel)).mpr
    ⟨by decide, fun _ => ⟨by decide, by decide⟩⟩

/-- An open for writing makes the resource that is not there. -/
theorem write_creates : ∃ t, kernel.step disastrOSStart (.syscall dsosCallOpenResource
      [4, 1, (modeOf {.write}).toInt]) = .ok t ∧
    resourceListById disastrOSStart.resources 4 = none ∧ t.resources.list.items = [0] ∧
    (t.pcb 0).syscallRetvalue = 0 ∧ ¬ HonoursFlags disastrOSStart t 0 4 1 {.write} [] := by
  have hx : kernel.step disastrOSStart (.syscall dsosCallOpenResource
      [4, 1, (modeOf {.write}).toInt]) = .ok (kernel.replay [.syscall dsosCallOpenResource
        [4, 1, (modeOf {.write}).toInt]]) := System.step_replayFrom (by decide +kernel)
  have hlist : (kernel.replay [.syscall dsosCallOpenResource
      [4, 1, (modeOf {.write}).toInt]]).resources.list.items = [0] := by decide +kernel
  refine ⟨_, hx, by decide +kernel, hlist, by decide +kernel, fun h => ?_⟩
  have hkeeps := h.keeps fun hc => absurd hc.1 (by decide)
  rw [hkeeps] at hlist
  exact absurd hlist (by decide +kernel)

end DisastrOS
