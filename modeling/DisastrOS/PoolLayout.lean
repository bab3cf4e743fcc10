import DisastrOS.PoolAllocator

/-! The memory that `PoolAllocator_init` divides between the blocks and the array of their
links. -/
namespace DisastrOS
open BlockPool

/-- What `PoolAllocator_init` writes to the array: indices with their values, in order. -/
def initWrites (numItems : ℤ) : List (ℤ × ℤ) :=
  let last := toInt (numItems - 1)
  ((List.range last.toNat).map fun (i : ℕ) => ((i : ℤ), (i : ℤ) + 1)) ++ [(last, nullIdx)]

def writeLink (links : ℤ → ℤ) (w : ℤ × ℤ) : ℤ → ℤ := Function.update links w.1 w.2

theorem linkNext_eq_foldl (links : ℤ → ℤ) (n : ℕ) :
    linkNext links n =
      ((List.range n).map fun (i : ℕ) => ((i : ℤ), (i : ℤ) + 1)).foldl writeLink links := by
  induction n with
  | zero => rfl
  | succ n ih => rw [linkNext, ih, List.range_succ, List.map_append, List.foldl_append]; rfl

/-- What the first `n` calls of `PoolAllocator_getBlock` return. -/
def firstBlocks (a : PoolAllocator) : ℕ → List (Option ℤ)
  | 0 => []
  | n + 1 => (poolAllocatorGetBlock a).1 :: firstBlocks (poolAllocatorGetBlock a).2 n

variable {a : PoolAllocator} {P : Pool} {itemSize numItems memoryBlock memorySize : ℤ}

theorem init_links
    (h : (poolAllocatorInit a itemSize numItems memoryBlock memorySize).1 = .success) :
    (poolAllocatorInit a itemSize numItems memoryBlock memorySize).2.links =
      (initWrites numItems).foldl writeLink a.links := by
  rw [init_eq h]
  simp only [initWrites, List.foldl_append, linkNext_eq_foldl]
  rfl

theorem mem_initWrites {w : ℤ × ℤ} (hitems : 1 ≤ numItems) (hlt : numItems < 2 ^ 31)
    (hw : w ∈ initWrites numItems) : 0 ≤ w.1 ∧ w.1 < numItems := by
  have hlast : toInt (numItems - 1) = numItems - 1 := toInt_of_mem (by omega) (by omega)
  simp only [initWrites, hlast, List.mem_append, List.mem_map, List.mem_range,
    List.mem_singleton] at hw
  rcases hw with ⟨i, hi, rfl⟩ | rfl
  · simp only
    omega
  · simp only
    omega

/-- The blocks come out in the order of the chain. -/
theorem firstBlocks_eq {ks : List ℕ} (hl : Layout a) (hr : Represents a P) (hks : P.free = ks) :
    firstBlocks a ks.length = (ks.map (blockAddress a)).map some := by
  induction ks generalizing a P with
  | nil => rfl
  | cons k ks ih =>
    obtain ⟨i, Q, hg, hsome, hQ, hm⟩ := getBlock_some hl hr (by simp [hks])
    obtain ⟨rfl, rfl⟩ := List.cons.inj (hks.symm.trans (Pool.getBlock_eq_some hg).1)
    have hrest := ih (hm.layout hl) hQ rfl
    have haddr : blockAddress (poolAllocatorGetBlock a).2 = blockAddress a :=
      funext hm.blockAddress
    rw [haddr] at hrest
    rw [List.length_cons, firstBlocks, hsome, hrest]
    rfl

/-- The blocks and the array behind them lie in the memory, the array is written inside its
bounds, and each block is handed out once. -/
structure LayoutFits (a : PoolAllocator) (itemSize numItems memoryBlock memorySize : ℤ) :
    Prop where
  items : 1 ≤ numItems
  notEmpty : 1 ≤ itemSize
  enough : numItems * (itemSize + sizeofInt) ≤ memorySize
  buffer : a.buffer = memoryBlock
  disjoint : a.buffer + numItems * itemSize ≤ a.freeList
  inside : a.freeList + numItems * sizeofInt ≤ memoryBlock + memorySize
  writes : ∀ w ∈ initWrites numItems, a.freeList ≤ a.freeList + w.1 * sizeofInt ∧
    a.freeList + w.1 * sizeofInt + sizeofInt ≤ memoryBlock + memorySize
  blocks : ∃ out : List ℤ, firstBlocks a numItems.toNat = out.map some ∧
    (∀ b ∈ out, memoryBlock ≤ b ∧ b + itemSize ≤ a.freeList) ∧
    out.Pairwise fun b c => b + itemSize ≤ c ∨ c + itemSize ≤ b

/-- A call of `PoolAllocator_init` accepts a layout that fits, or fails and writes nothing. -/
def InitSafe (a : PoolAllocator) (itemSize numItems memoryBlock memorySize : ℤ) : Prop :=
  let r := poolAllocatorInit a itemSize numItems memoryBlock memorySize
  (r.1 = .success ∧ r.2.links = (initWrites numItems).foldl writeLink a.links ∧
      LayoutFits r.2 itemSize numItems memoryBlock memorySize) ∨
    (r.1 ≠ .success ∧ r.2 = a)

/-- The `int` to which the needed number of bytes is reduced is more than there is, or is that
number, of a positive number of blocks that are not empty. -/
def SizeRefusedOrExact (itemSize numItems memorySize : ℤ) : Prop :=
  memorySize < toInt (numItems * (itemSize + sizeofInt)) ∨
    (1 ≤ numItems ∧ 1 ≤ itemSize ∧ numItems * (itemSize + sizeofInt) < 2 ^ 31)

/-- `toInt x` is the only `int` that differs from `x` by a multiple of `2 ^ 32`. -/
theorem toInt_eq_iff {x r : ℤ} :
    toInt x = r ↔ -(2 ^ 31) ≤ r ∧ r < 2 ^ 31 ∧ 2 ^ 32 ∣ x - r := by
  rw [toInt, Int.bmod_def]
  omega

theorem sizeRefused_iff : memorySize < toInt (numItems * (itemSize + sizeofInt)) ↔
    (poolAllocatorInit a itemSize numItems memoryBlock memorySize).1 ≠ .success := by
  rw [ne_eq, init_success, not_le]

theorem init_layoutFits
    (h : (poolAllocatorInit a itemSize numItems memoryBlock memorySize).1 = .success)
    (hitems : 1 ≤ numItems) (hsize : 1 ≤ itemSize)
    (hfits : numItems * (itemSize + sizeofInt) < 2 ^ 31) :
    LayoutFits (poolAllocatorInit a itemSize numItems memoryBlock memorySize).2
      itemSize numItems memoryBlock memorySize := by
  have hmul : numItems * (itemSize + sizeofInt) = numItems * itemSize + numItems * 4 :=
    Int.mul_add _ _ _
  have hpos : 0 ≤ numItems * itemSize := Int.mul_nonneg (by omega) (by omega)
  have hmem : numItems * (itemSize + sizeofInt) ≤ memorySize := by
    have hreq := init_success.mp h
    rwa [toInt_of_mem (by omega) hfits] at hreq
  have hlay := init_layout h hitems hsize hfits
  have hrep := init_represents h hitems (by omega)
  have hblocks := firstBlocks_eq hlay hrep rfl
  rw [show (Pool.init numItems.toNat).free = upFrom 0 numItems.toNat from rfl,
    upFrom_length] at hblocks
  have heq := init_eq h
  generalize (poolAllocatorInit a itemSize numItems memoryBlock memorySize).2 = b at *
  have hbuf : b.buffer = memoryBlock := by rw [heq]
  have hmax : b.sizeMax = numItems := by rw [heq]
  have hitem : b.itemSize = itemSize := by rw [heq]
  have hfree := hlay.freeList
  rw [hbuf, hmax, hitem] at hfree
  refine ⟨hitems, hsize, hmem, hbuf, by omega, ?_, fun w hw => ?_, _, hblocks, ?_, ?_⟩
  · simp only [sizeofInt]
    omega
  · obtain ⟨h0, h1⟩ := mem_initWrites hitems (by omega) hw
    simp only [sizeofInt]
    omega
  · intro c hc
    obtain ⟨i, hi, rfl⟩ := List.mem_map.mp hc
    have hlt := (mem_upFrom.mp hi).2
    obtain ⟨-, hlow, hhigh⟩ := hlay.blockAddress_range (i := i) (by omega)
    rw [hbuf] at hlow
    rw [hitem] at hhigh
    exact ⟨hlow, hhigh⟩
  · rw [List.pairwise_map, ← hitem]
    exact (upFrom_nodup 0 _).imp fun hne => (Nat.lt_or_gt_of_ne hne).imp
      hlay.blockAddress_lt hlay.blockAddress_lt

/-- The initialisation is safe exactly when the size that it compares is the real one, or is
refused. -/
theorem poolAllocatorInit_safe_iff (a : PoolAllocator) (memoryBlock : ℤ)
    (hint : memorySize < 2 ^ 31) :
    InitSafe a itemSize numItems memoryBlock memorySize ↔
      SizeRefusedOrExact itemSize numItems memorySize := by
  have hrefused := @sizeRefused_iff a itemSize numItems memoryBlock memorySize
  rw [SizeRefusedOrExact, hrefused]
  constructor
  · rintro (⟨-, -, hfits⟩ | ⟨hfail, -⟩)
    · have := hfits.enough
      exact Or.inr ⟨hfits.items, hfits.notEmpty, by omega⟩
    · exact Or.inl hfail
  · intro h
    by_cases hs : (poolAllocatorInit a itemSize numItems memoryBlock memorySize).1 = .success
    · obtain ⟨hitems, hsize, hfits⟩ := h.resolve_left (not_not.mpr hs)
      exact Or.inl ⟨hs, init_links hs, init_layoutFits hs hitems hsize hfits⟩
    · exact Or.inr ⟨hs, by rw [init_unchanged hs]⟩

theorem poolAllocatorInit_safe_two :
    InitSafe ⟨0, 0, fun _ => 0, 0, 0, 0, 0, 0⟩ 3 2 100 14 ∧
      InitSafe ⟨0, 0, fun _ => 0, 0, 0, 0, 0, 0⟩ 3 2 100 13 :=
  ⟨(poolAllocatorInit_safe_iff _ 100 (by decide)).mpr (Or.inr (by decide)),
    (poolAllocatorInit_safe_iff _ 100 (by decide)).mpr (Or.inr (by decide))⟩

/-- The needed 2^32 bytes are reduced to none, and so are those of no blocks. -/
theorem init_accepts_wrapped :
    (poolAllocatorInit ⟨0, 0, fun _ => 0, 0, 0, 0, 0, 0⟩ 65532 65536 4096 0).1 = .success ∧
    ¬ InitSafe ⟨0, 0, fun _ => 0, 0, 0, 0, 0, 0⟩ 65532 65536 4096 0 ∧
      ¬ InitSafe ⟨0, 0, fun _ => 0, 0, 0, 0, 0, 0⟩ 8 0 4096 0 := by
  have hwrapped : (poolAllocatorInit ⟨0, 0, fun _ => 0, 0, 0, 0, 0, 0⟩ 65532 65536 4096 0).1 =
      .success := init_success.mpr (by decide)
  have hnone : (poolAllocatorInit ⟨0, 0, fun _ => 0, 0, 0, 0, 0, 0⟩ 8 0 4096 0).1 =
      .success := init_success.mpr (by decide)
  refine ⟨hwrapped, ?_, ?_⟩
  · rintro (⟨-, -, hfits⟩ | ⟨hfail, -⟩)
    · exact absurd hfits.enough (by decide)
    · exact hfail hwrapped
  · rintro (⟨-, -, hfits⟩ | ⟨hfail, -⟩)
    · exact absurd hfits.items (by decide)
    · exact hfail hnone

end DisastrOS
