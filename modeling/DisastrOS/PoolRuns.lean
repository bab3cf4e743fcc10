import DisastrOS.PoolAllocator

/-! Whoever allocates and releases blocks cannot tell the allocator, with its addresses and its
array of links, from a pool of numbered blocks. -/
namespace DisastrOS
open BlockPool

inductive PoolOp
  | alloc
  | free (i : ℕ)
  deriving DecidableEq, Repr

/-- What the calls answer; blocks are numbers or addresses. -/
inductive PoolAnswer (β : Type)
  | block (b : Option β)
  | released (r : PoolAllocatorResult)
  deriving DecidableEq, Repr

def PoolAnswer.map {β γ : Type} (f : β → γ) : PoolAnswer β → PoolAnswer γ
  | .block b => .block (b.map f)
  | .released r => .released r

def poolAnswers (P : Pool) : List PoolOp → List (PoolAnswer ℕ) × Pool
  | [] => ([], P)
  | .alloc :: ops =>
    match P.getBlock with
    | none => let (l, Q) := poolAnswers P ops; (.block none :: l, Q)
    | some (i, R) => let (l, Q) := poolAnswers R ops; (.block (some i) :: l, Q)
  | .free i :: ops =>
    let (l, Q) := poolAnswers (P.releaseBlock i).2 ops
    (.released (releaseResult (P.releaseBlock i).1) :: l, Q)

/-- The same calls, with the address of the block that is released. -/
def allocatorAnswers (a : PoolAllocator) : List PoolOp → List (PoolAnswer ℤ) × PoolAllocator
  | [] => ([], a)
  | .alloc :: ops =>
    let (l, b) := allocatorAnswers (poolAllocatorGetBlock a).2 ops
    (.block (poolAllocatorGetBlock a).1 :: l, b)
  | .free i :: ops =>
    let r := poolAllocatorReleaseBlock a (blockAddress a i)
    let (l, b) := allocatorAnswers r.2 ops
    (.released r.1 :: l, b)

variable {a a0 : PoolAllocator} {P : Pool} {ops : List PoolOp}

theorem answers_agree (hl : Layout a) (hr : Represents a P)
    (hops : ∀ i, .free i ∈ ops → i < P.sizeMax) :
    (allocatorAnswers a ops).1 = (poolAnswers P ops).1.map (PoolAnswer.map (blockAddress a)) ∧
      Represents (allocatorAnswers a ops).2 (poolAnswers P ops).2 ∧
        SameMemory a (allocatorAnswers a ops).2 := by
  induction ops generalizing a P with
  | nil => exact ⟨rfl, hr, .refl a⟩
  | cons op ops ih =>
    have hmax := hr.sizeMax
    have hrest : ∀ i, .free i ∈ ops → i < P.sizeMax := fun i hi =>
      hops i (List.mem_cons_of_mem _ hi)
    cases op with
    | alloc =>
      by_cases hf : P.free = []
      · have hnone := (getBlock_none hr).mpr hf
        obtain ⟨h1, h2, h3⟩ := ih hl hr hrest
        simp only [allocatorAnswers, poolAnswers, hnone, getBlock_unchanged hnone,
          Pool.getBlock_eq_none.mpr hf, h1]
        exact ⟨rfl, h2, h3⟩
      · obtain ⟨i, Q, hg, hsome, hQ, hm⟩ := getBlock_some hl hr hf
        have hsize : Q.sizeMax = P.sizeMax := (Pool.getBlock_eq_some hg).2
        obtain ⟨h1, h2, h3⟩ := ih (hm.layout hl) hQ (by rwa [hsize])
        have haddr : blockAddress (poolAllocatorGetBlock a).2 = blockAddress a :=
          funext hm.blockAddress
        rw [haddr] at h1
        simp only [allocatorAnswers, poolAnswers, hsome, hg, h1]
        exact ⟨rfl, h2, hm.trans h3⟩
    | free i =>
      have hi := hops i List.mem_cons_self
      obtain ⟨h0, hlt, hle⟩ := hl.offset_lt (i := i) (by omega)
      have hitem := hl.itemSize
      have hoff : toInt (blockAddress a i - a.buffer) = i * a.itemSize := by
        rw [show blockAddress a i - a.buffer = i * a.itemSize by rw [blockAddress]; omega]
        exact toInt_of_mem (by omega) (by omega)
      obtain ⟨hres, hQ, hm⟩ := releaseBlock_index hitem (hl.sizeMax_lt (by omega)) hr hoff
      obtain ⟨h1, h2, h3⟩ := ih (hm.layout hl) hQ (by rwa [Pool.releaseBlock_sizeMax])
      have haddr : blockAddress (poolAllocatorReleaseBlock a (blockAddress a i)).2 =
          blockAddress a := funext hm.blockAddress
      rw [haddr] at h1
      simp only [allocatorAnswers, poolAnswers, hres, h1]
      exact ⟨rfl, h2, hm.trans h3⟩

/-- With a buffer of at least the size that is needed, as the kernel's modules declare theirs, the
initialisation succeeds, whatever the allocator held, and from then on every sequence of calls has
the answers of the pool. -/
theorem pool_stands_for_allocator {itemSize numItems memoryBlock memorySize : ℤ}
    (hitems : 1 ≤ numItems) (hsize : 1 ≤ itemSize)
    (hfits : numItems * (itemSize + sizeofInt) ≤ memorySize) (hint : memorySize < 2 ^ 31)
    (hops : ∀ i : ℕ, .free i ∈ ops → (i : ℤ) < numItems) :
    let r := poolAllocatorInit a0 itemSize numItems memoryBlock memorySize
    r.1 = .success ∧ (allocatorAnswers r.2 ops).1 =
      (poolAnswers (Pool.init numItems.toNat) ops).1.map
        (PoolAnswer.map fun i : ℕ => memoryBlock + i * itemSize) := by
  have h0 : 0 ≤ numItems * (itemSize + sizeofInt) := Int.mul_nonneg (by omega)
    (by simp only [sizeofInt]; omega)
  have hle : numItems * 1 ≤ numItems * (itemSize + sizeofInt) :=
    Int.mul_le_mul_of_nonneg_left (by simp only [sizeofInt]; omega) (by omega)
  have hok : (poolAllocatorInit a0 itemSize numItems memoryBlock memorySize).1 = .success := by
    rw [init_success, toInt_of_mem (by omega) (by omega)]
    exact hfits
  refine ⟨hok, ?_⟩
  have hlt : ∀ i, .free i ∈ ops → i < (Pool.init numItems.toNat).sizeMax := by
    intro i hi
    have := hops i hi
    change i < numItems.toNat
    omega
  rw [(answers_agree (init_layout hok hitems hsize (by omega)) (init_represents hok hitems (by omega))
    hlt).1]
  simp only [init_eq hok]
  rfl

/-- Two blocks are taken, the first is released, twice, and taken again; then none is left, although
the buffer is 32 times as large as is needed. -/
theorem pool_stands_for_allocator_two :
    let a0 : PoolAllocator := ⟨0, 0, fun _ => 7, 0, 0, 0, 0, 3⟩
    let r := poolAllocatorInit a0 24 2 4096 1792
    r.1 = .success ∧ (allocatorAnswers r.2
        [.alloc, .alloc, .free 0, .free 0, .alloc, .alloc]).1 =
      [.block (some 4096), .block (some 4120), .released .success, .released .doubleFree,
        .block (some 4096), .block none] := by
  refine ⟨by decide, ?_⟩
  refine (@pool_stands_for_allocator _ _ 24 2 4096 1792 (by decide) (by decide) (by decide)
    (by decide) ?_).2.trans (by decide)
  simp +decide

end DisastrOS
