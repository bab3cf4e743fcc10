import Mathlib.Algebra.Group.Basic
import Mathlib.Tactic.SplitIfs
import DisastrOS.Kernel
import DisastrOS.TransitionSystem

/-! The allocator of the kernel's objects, whose free blocks are linked through an array of
indices. It is what the pools of blocks of the kernel stand for. -/
namespace DisastrOS
open BlockPool TransitionSystem

def nullIdx : ℤ := -1
def detachedIdx : ℤ := -2

inductive PoolAllocatorResult
  | success
  | notEnoughMemory
  | unalignedFree
  | outOfRange
  | doubleFree
  deriving DecidableEq, Repr

/-- Pointers are byte addresses. The array at `freeList` holds `links`. -/
structure PoolAllocator where
  buffer : ℤ
  freeList : ℤ
  links : ℤ → ℤ
  bufferSize : ℤ
  size : ℤ
  sizeMax : ℤ
  itemSize : ℤ
  firstIdx : ℤ

/-- The number of bytes of an `int`. -/
def sizeofInt : ℤ := 4

/-- The loop of `PoolAllocator_init`: each of the first `n` indices is linked to the next. -/
def linkNext (links : ℤ → ℤ) : ℕ → ℤ → ℤ
  | 0 => links
  | n + 1 => Function.update (linkNext links n) n (n + 1)

/-- `PoolAllocator_init` -/
def poolAllocatorInit (a : PoolAllocator) (itemSize numItems memoryBlock memorySize : ℤ) :
    PoolAllocatorResult × PoolAllocator :=
  let requestedSize := toInt (numItems * (itemSize + sizeofInt))
  if memorySize < requestedSize then (.notEnoughMemory, a)
  else
    let last := toInt (numItems - 1)
    (.success, {
      itemSize := itemSize
      size := numItems
      bufferSize := toInt (itemSize * numItems)
      sizeMax := numItems
      buffer := memoryBlock
      freeList := memoryBlock + toInt (itemSize * numItems)
      links := Function.update (linkNext a.links last.toNat) last nullIdx
      firstIdx := 0 })

/-- `PoolAllocator_getBlock` -/
def poolAllocatorGetBlock (a : PoolAllocator) : Option ℤ × PoolAllocator :=
  if a.firstIdx = -1 then (none, a)
  else
    let detached := a.firstIdx
    (some (a.buffer + toInt (detached * a.itemSize)), { a with
      firstIdx := a.links a.firstIdx
      size := toInt (a.size - 1)
      links := Function.update a.links detached detachedIdx })

/-- `PoolAllocator_releaseBlock`. Division and remainder are those of C. -/
def poolAllocatorReleaseBlock (a : PoolAllocator) (block : ℤ) :
    PoolAllocatorResult × PoolAllocator :=
  let offset := toInt (block - a.buffer)
  if offset.tmod a.itemSize ≠ 0 then (.unalignedFree, a)
  else
    let idx := offset.tdiv a.itemSize
    if idx < 0 ∨ idx ≥ a.sizeMax then (.outOfRange, a)
    else if a.links idx ≠ detachedIdx then (.doubleFree, a)
    else
      (.success, { a with
        links := Function.update a.links idx a.firstIdx
        firstIdx := idx
        size := toInt (a.size + 1) })

/-! ### The chain of the free blocks -/

/-- Following the links from the index `i` visits `ks` and ends at the null index. -/
def Follows (links : ℤ → ℤ) : ℤ → List ℕ → Prop
  | i, [] => i = nullIdx
  | i, k :: ks => i = k ∧ Follows links (links k) ks

section
variable {links : ℤ → ℤ} {i v : ℤ} {k n : ℕ} {ks : List ℕ}

theorem Follows.update (h : Follows links i ks) (hk : k ∉ ks) :
    Follows (Function.update links k v) i ks := by
  induction ks generalizing i with
  | nil => exact h
  | cons j js ih =>
    obtain ⟨hi, hjs⟩ := h
    obtain ⟨hkj, hkjs⟩ := not_or.mp (List.mem_cons.not.mp hk)
    have hne : (j : ℤ) ≠ k := by omega
    refine ⟨hi, ?_⟩
    rw [Function.update_of_ne hne]
    exact ih hjs hkjs

theorem linkNext_of_lt (h : k < n) : linkNext links n k = k + 1 := by
  induction n with
  | zero => omega
  | succ n ih =>
    rw [linkNext]
    by_cases hk : k = n
    · rw [hk, Function.update_self]
    · have hne : (k : ℤ) ≠ n := by omega
      rw [Function.update_of_ne hne]
      exact ih (by omega)

/-- After the initialisation every index is free, and visited in order. -/
theorem follows_linkNext (m j : ℕ) (h : j + m = n) (hn : 0 < n) :
    Follows (Function.update (linkNext links (n - 1)) (n - 1 : ℕ) nullIdx)
      (if m = 0 then nullIdx else j) (upFrom j m) := by
  induction m generalizing j with
  | zero => exact if_pos rfl
  | succ m ih =>
    refine ⟨if_neg (by omega), ?_⟩
    have hnext := ih (j + 1) (by omega)
    by_cases hm : m = 0
    · obtain rfl : j = n - 1 := by omega
      subst hm
      rw [Function.update_self]
      simpa using hnext
    · rw [if_neg hm] at hnext
      rw [Function.update_of_ne (by omega), linkNext_of_lt (by omega)]
      exact hnext

end

/-! ### What an allocator stands for -/

/-- The address of the block with the index `i`. -/
def blockAddress (a : PoolAllocator) (i : ℕ) : ℤ := a.buffer + i * a.itemSize

/-- The blocks lie one behind the other in front of the array, and all sizes are inside int. -/
structure Layout (a : PoolAllocator) : Prop where
  itemSize : 1 ≤ a.itemSize
  fits : a.sizeMax * (a.itemSize + sizeofInt) < 2 ^ 31
  freeList : a.freeList = a.buffer + a.sizeMax * a.itemSize

/-- The allocator has the same blocks as the pool `P`, and the same free ones in the same
order. -/
structure Represents (a : PoolAllocator) (P : Pool) : Prop where
  chain : Follows a.links a.firstIdx P.free
  size : a.size = P.free.length
  sizeMax : a.sizeMax = P.sizeMax
  detached : ∀ i, P.InUse i → a.links i = detachedIdx

/-- The allocators use the same memory. -/
structure SameMemory (a a' : PoolAllocator) : Prop where
  buffer : a'.buffer = a.buffer
  freeList : a'.freeList = a.freeList
  sizeMax : a'.sizeMax = a.sizeMax
  itemSize : a'.itemSize = a.itemSize

variable {a a' : PoolAllocator} {P : Pool} {i : ℕ} {block : ℤ}

theorem SameMemory.refl (a : PoolAllocator) : SameMemory a a := ⟨rfl, rfl, rfl, rfl⟩

theorem SameMemory.blockAddress (h : SameMemory a a') (i : ℕ) :
    blockAddress a' i = blockAddress a i := by
  rw [DisastrOS.blockAddress, DisastrOS.blockAddress, h.buffer, h.itemSize]

theorem SameMemory.layout (h : SameMemory a a') (hl : Layout a) : Layout a' := by
  constructor
  · rw [h.itemSize]
    exact hl.itemSize
  · rw [h.sizeMax, h.itemSize]
    exact hl.fits
  · rw [h.freeList, h.buffer, h.sizeMax, h.itemSize]
    exact hl.freeList

namespace Layout

theorem offset_lt (h : Layout a) (hi : (i : ℤ) < a.sizeMax) :
    0 ≤ i * a.itemSize ∧ i * a.itemSize + a.itemSize ≤ a.sizeMax * a.itemSize ∧
      a.sizeMax * a.itemSize < 2 ^ 31 := by
  have h1 := h.itemSize
  have h2 := h.fits
  have hmul : a.sizeMax * (a.itemSize + sizeofInt) =
      a.sizeMax * a.itemSize + a.sizeMax * 4 := Int.mul_add _ _ _
  have hle : ((i : ℤ) + 1) * a.itemSize ≤ a.sizeMax * a.itemSize :=
    Int.mul_le_mul_of_nonneg_right (by omega) (by omega)
  rw [Int.add_mul, Int.one_mul] at hle
  exact ⟨Int.mul_nonneg (by omega) (by omega), hle, by omega⟩

theorem sizeMax_lt (h : Layout a) (h0 : 0 ≤ a.sizeMax) : a.sizeMax < 2 ^ 31 := by
  have h1 := h.itemSize
  have h2 := h.fits
  have hle : a.sizeMax * 1 ≤ a.sizeMax * (a.itemSize + sizeofInt) :=
    Int.mul_le_mul_of_nonneg_left (by simp only [sizeofInt]; omega) h0
  omega

theorem blockAddress_inj (h : Layout a) {j : ℕ} (he : blockAddress a i = blockAddress a j) :
    i = j := by
  have h1 := h.itemSize
  have hmul : (i : ℤ) * a.itemSize = j * a.itemSize := by
    rw [blockAddress, blockAddress] at he
    omega
  exact Int.ofNat.inj (Int.eq_of_mul_eq_mul_right (by omega) hmul)

theorem blockAddress_range (h : Layout a) (hi : (i : ℤ) < a.sizeMax) :
    a.itemSize ∣ blockAddress a i - a.buffer ∧ a.buffer ≤ blockAddress a i ∧
      blockAddress a i + a.itemSize ≤ a.freeList := by
  obtain ⟨h0, h1, -⟩ := h.offset_lt hi
  have hoff : blockAddress a i - a.buffer = i * a.itemSize := by
    rw [blockAddress]
    omega
  rw [hoff, h.freeList, blockAddress]
  exact ⟨Int.dvd_mul_left _ _, by omega, by omega⟩

theorem blockAddress_lt (h : Layout a) {j : ℕ} (hij : i < j) :
    blockAddress a i + a.itemSize ≤ blockAddress a j := by
  have hitem := h.itemSize
  have hle : ((i : ℤ) + 1) * a.itemSize ≤ j * a.itemSize :=
    Int.mul_le_mul_of_nonneg_right (by omega) (by omega)
  rw [Int.add_mul, Int.one_mul] at hle
  rw [blockAddress, blockAddress]
  omega

end Layout

/-! ### The operations -/

theorem getBlock_none (hr : Represents a P) :
    (poolAllocatorGetBlock a).1 = none ↔ P.free = [] := by
  have hchain := hr.chain
  unfold poolAllocatorGetBlock
  cases hf : P.free with
  | nil =>
    rw [hf] at hchain
    have h1 : a.firstIdx = -1 := hchain
    simp [h1]
  | cons k ks =>
    rw [hf] at hchain
    have h1 := hchain.1
    rw [if_neg (by omega)]
    simp

theorem getBlock_unchanged (h : (poolAllocatorGetBlock a).1 = none) :
    (poolAllocatorGetBlock a).2 = a := by
  unfold poolAllocatorGetBlock at h ⊢
  split_ifs at h ⊢ with h1
  rfl

/-- The index that is handed out is the one that the pool hands out. -/
theorem getBlock_index (hmaxlt : a.sizeMax < 2 ^ 31) (hr : Represents a P) (hf : P.free ≠ []) :
    ∃ i Q, P.getBlock = some (i, Q) ∧ a.firstIdx = i ∧
      (poolAllocatorGetBlock a).1 = some (a.buffer + toInt (i * a.itemSize)) ∧
      Represents (poolAllocatorGetBlock a).2 Q ∧ SameMemory a (poolAllocatorGetBlock a).2 := by
  obtain ⟨i, Q, hg⟩ := Pool.getBlock_isSome hf
  obtain ⟨hfree, hmax⟩ := Pool.getBlock_eq_some hg
  have hchain := hr.chain
  have hnd := P.nodup
  have hlen := hr.size
  rw [hfree] at hchain hnd hlen
  obtain ⟨hfirst, hrest⟩ := hchain
  obtain ⟨hiQ, -⟩ := List.nodup_cons.mp hnd
  have hcard := P.card_used_add_free
  rw [hfree, List.length_cons] at hcard
  rw [List.length_cons] at hlen
  have hsize : toInt (a.size - 1) = Q.free.length := by
    rw [toInt_of_mem (by omega) (by have := hr.sizeMax; omega)]
    omega
  unfold poolAllocatorGetBlock
  rw [if_neg (by omega)]
  simp only [hfirst, hsize]
  refine ⟨i, Q, hg, rfl, rfl, ⟨hrest.update hiQ, rfl, hr.sizeMax.trans (by rw [hmax]), ?_⟩,
    ⟨rfl, rfl, rfl, rfl⟩⟩
  intro j hj
  rcases (Pool.getBlock_inUse hg j).mp hj with hj | rfl
  · have hji : j ≠ i := fun he => Pool.getBlock_fresh hg (he ▸ hj)
    have hne : (j : ℤ) ≠ i := by omega
    simp only [Function.update_of_ne hne]
    exact hr.detached j hj
  · simp

/-- A block that is handed out is the one that the pool hands out. -/
theorem getBlock_some (hl : Layout a) (hr : Represents a P) (hf : P.free ≠ []) :
    ∃ i Q, P.getBlock = some (i, Q) ∧ (poolAllocatorGetBlock a).1 = some (blockAddress a i) ∧
      Represents (poolAllocatorGetBlock a).2 Q ∧ SameMemory a (poolAllocatorGetBlock a).2 := by
  have hmax := hr.sizeMax
  obtain ⟨i, Q, hg, -, hsome, hQ, hm⟩ := getBlock_index (hl.sizeMax_lt (by omega)) hr hf
  have hi := Pool.getBlock_lt hg
  obtain ⟨h0, h1, h2⟩ := hl.offset_lt (i := i) (by omega)
  have hitem := hl.itemSize
  rw [toInt_of_mem (by omega) (by omega)] at hsome
  exact ⟨i, Q, hg, hsome, hQ, hm⟩

/-- What the allocator answers to the release of the block with the index `i`. -/
def releaseResult : Pool.Release → PoolAllocatorResult
  | .success => .success
  | .outOfRange => .outOfRange
  | .doubleFree => .doubleFree

theorem Follows.not_detached {links : ℤ → ℤ} {j : ℤ} {k : ℕ} {ks : List ℕ}
    (h : Follows links j ks) (hk : k ∈ ks) : links k ≠ detachedIdx := by
  induction ks generalizing j with
  | nil => cases hk
  | cons l ls ih =>
    obtain ⟨-, hls⟩ := h
    rcases List.mem_cons.mp hk with rfl | hk
    · cases ls with
      | nil => exact fun he => absurd (hls.symm.trans he) (by decide)
      | cons m ms =>
        intro he
        have := hls.1.symm.trans he
        simp only [detachedIdx] at this
        omega
    · exact ih hls hk

theorem releaseBlock_unchanged (h : (poolAllocatorReleaseBlock a block).1 ≠ .success) :
    (poolAllocatorReleaseBlock a block).2 = a := by
  unfold poolAllocatorReleaseBlock at h ⊢
  simp only at h ⊢
  split_ifs at h ⊢ with h1 h2 h3
  · rfl
  · rfl
  · rfl
  · exact absurd rfl h

theorem releaseBlock_unaligned (hoff : ¬ a.itemSize ∣ toInt (block - a.buffer)) :
    poolAllocatorReleaseBlock a block = (.unalignedFree, a) := by
  unfold poolAllocatorReleaseBlock
  exact if_pos fun h0 => hoff (Int.dvd_of_tmod_eq_zero h0)

/-- The index that the division of C finds for a block boundary, also below the buffer. -/
theorem releaseBlock_aligned {k : ℤ} (hitem : 1 ≤ a.itemSize)
    (hoff : toInt (block - a.buffer) = k * a.itemSize) : poolAllocatorReleaseBlock a block =
    if k < 0 ∨ k ≥ a.sizeMax then (.outOfRange, a)
    else if a.links k ≠ detachedIdx then (.doubleFree, a)
    else (.success, { a with
      links := Function.update a.links k a.firstIdx
      firstIdx := k
      size := toInt (a.size + 1) }) := by
  have hmod : (k * a.itemSize).tmod a.itemSize = 0 := Int.mul_tmod_left k a.itemSize
  have hdiv : (k * a.itemSize).tdiv a.itemSize = k := Int.mul_tdiv_cancel k (by omega)
  simp only [poolAllocatorReleaseBlock, hoff, hmod, hdiv, ne_eq, not_true_eq_false, if_false]

/-- A release at the boundary of the index `i` is the release of that block of the pool. -/
theorem releaseBlock_index (hitem : 1 ≤ a.itemSize) (hmaxlt : a.sizeMax < 2 ^ 31)
    (hr : Represents a P) (hoff : toInt (block - a.buffer) = i * a.itemSize) :
    (poolAllocatorReleaseBlock a block).1 = releaseResult (P.releaseBlock i).1 ∧
      Represents (poolAllocatorReleaseBlock a block).2 (P.releaseBlock i).2 ∧
      SameMemory a (poolAllocatorReleaseBlock a block).2 := by
  have hmax := hr.sizeMax
  rw [releaseBlock_aligned hitem hoff]
  by_cases hi : i < P.sizeMax
  · rw [if_neg (by omega)]
    by_cases hf : i ∈ P.free
    · rw [if_pos (hr.chain.not_detached hf)]
      have hP : P.releaseBlock i = (.doubleFree, P) := by simp [Pool.releaseBlock, hi, hf]
      rw [hP]
      exact ⟨rfl, hr, .refl a⟩
    · have hu : P.InUse i := ⟨hi, hf⟩
      obtain ⟨hs, hfree⟩ := Pool.releaseBlock_success hu
      have hcard := (P.releaseBlock i).2.card_used_add_free
      rw [hfree, List.length_cons, Pool.releaseBlock_sizeMax] at hcard
      have hsize : toInt (a.size + 1) = a.size + 1 := by
        have := hr.size
        exact toInt_of_mem (by omega) (by omega)
      rw [if_neg (by simp [hr.detached i hu]), hs, hsize]
      refine ⟨rfl, ⟨?_, ?_, ?_, fun j hj => ?_⟩, ⟨rfl, rfl, rfl, rfl⟩⟩
      · rw [hfree]
        exact ⟨rfl, by simpa using hr.chain.update hf⟩
      · simp [hfree, hr.size]
      · rw [Pool.releaseBlock_sizeMax]
        exact hmax
      · obtain ⟨hj, hji⟩ := (Pool.releaseBlock_inUse P i j).mp hj
        have hne : (j : ℤ) ≠ i := by omega
        simp only [Function.update_of_ne hne]
        exact hr.detached j hj
  · have hP : P.releaseBlock i = (.outOfRange, P) := by simp [Pool.releaseBlock, hi]
    rw [if_pos (by omega), hP]
    exact ⟨rfl, hr, .refl a⟩

section
variable {a0 : PoolAllocator} {itemSize numItems memoryBlock memorySize : ℤ}

theorem init_success :
    (poolAllocatorInit a0 itemSize numItems memoryBlock memorySize).1 = .success ↔
      toInt (numItems * (itemSize + sizeofInt)) ≤ memorySize := by
  simp only [poolAllocatorInit]
  split_ifs with h
  · simpa using h
  · simpa using h

theorem init_unchanged
    (h : (poolAllocatorInit a0 itemSize numItems memoryBlock memorySize).1 ≠ .success) :
    poolAllocatorInit a0 itemSize numItems memoryBlock memorySize = (.notEnoughMemory, a0) := by
  simp only [poolAllocatorInit] at h ⊢
  split_ifs at h ⊢ with hlt
  · rfl
  · exact absurd rfl h

theorem init_eq
    (h : (poolAllocatorInit a0 itemSize numItems memoryBlock memorySize).1 = .success) :
    (poolAllocatorInit a0 itemSize numItems memoryBlock memorySize).2 = {
      itemSize := itemSize
      size := numItems
      bufferSize := toInt (itemSize * numItems)
      sizeMax := numItems
      buffer := memoryBlock
      freeList := memoryBlock + toInt (itemSize * numItems)
      links := Function.update (linkNext a0.links (toInt (numItems - 1)).toNat)
        (toInt (numItems - 1)) nullIdx
      firstIdx := 0 } := by
  rw [poolAllocatorInit, if_neg (Int.not_lt.mpr (init_success.mp h))]

theorem init_represents
    (h : (poolAllocatorInit a0 itemSize numItems memoryBlock memorySize).1 = .success)
    (hitems : 1 ≤ numItems) (hlt : numItems < 2 ^ 31) :
    Represents (poolAllocatorInit a0 itemSize numItems memoryBlock memorySize).2
      (Pool.init numItems.toNat) := by
  obtain ⟨n, rfl⟩ := Int.eq_ofNat_of_zero_le (show 0 ≤ numItems by omega)
  have hlast : toInt ((n : ℤ) - 1) = (n - 1 : ℕ) := by
    rw [toInt_of_mem (by omega) (by omega)]
    omega
  rw [init_eq h]
  simp only [hlast, Int.toNat_natCast]
  refine ⟨?_, ?_, ?_, fun i hi => ?_⟩
  · have hfollows := @follows_linkNext a0.links n n 0 (by omega) (by omega)
    rw [if_neg (by omega)] at hfollows
    exact hfollows
  · simp [Pool.init, upFrom_length]
  · simp
  · exact absurd hi (Pool.not_inUse_init _ i)

/-- What is asked for is not reduced modulo `2 ^ 32`. -/
theorem init_layout
    (h : (poolAllocatorInit a0 itemSize numItems memoryBlock memorySize).1 = .success)
    (hitems : 1 ≤ numItems) (hsize : 1 ≤ itemSize)
    (hfits : numItems * (itemSize + sizeofInt) < 2 ^ 31) :
    Layout (poolAllocatorInit a0 itemSize numItems memoryBlock memorySize).2 := by
  have hmul : numItems * (itemSize + sizeofInt) = numItems * itemSize + numItems * 4 :=
    Int.mul_add _ _ _
  have hpos : 0 ≤ numItems * itemSize := Int.mul_nonneg (by omega) (by omega)
  rw [init_eq h]
  refine ⟨hsize, hfits, ?_⟩
  simp only
  rw [Int.mul_comm, toInt_of_mem (by omega) (by omega)]

end

/-! ### Runs -/

inductive PoolCall
  | getBlock
  | releaseBlock (block : ℤ)

def poolStep (a : PoolAllocator) : PoolCall → PoolAllocator
  | .getBlock => (poolAllocatorGetBlock a).2
  | .releaseBlock block => (poolAllocatorReleaseBlock a block).2

/-- The blocks that have been handed out and not been released, the last one first. -/
def recordOut (a : PoolAllocator) (c : PoolCall) (_ : PoolAllocator) (out : List ℤ) : List ℤ :=
  match c with
  | .getBlock => (poolAllocatorGetBlock a).1.toList ++ out
  | .releaseBlock block =>
    if (poolAllocatorReleaseBlock a block).1 = .success then out.erase block else out

/-- An allocator with the record of the blocks that are out. -/
def allocator (a : PoolAllocator) : System (PoolAllocator × List ℤ) PoolCall Fault :=
  System.withRecord ⟨a, fun a c => .ok (poolStep a c)⟩ [] recordOut

/-- The distance of a released pointer from the buffer fits into an int. -/
def PointerFits (x : PoolAllocator × List ℤ) : PoolCall → Prop
  | .getBlock => True
  | .releaseBlock block => -(2 ^ 31) ≤ block - x.1.buffer ∧ block - x.1.buffer < 2 ^ 31

instance (x : PoolAllocator × List ℤ) : (c : PoolCall) → Decidable (PointerFits x c)
  | .getBlock => inferInstanceAs (Decidable True)
  | .releaseBlock _ => inferInstanceAs (Decidable (_ ∧ _))

/-- The blocks of `out` are those that are in use in the pool for which `a` stands. -/
structure AllocatorInv (a : PoolAllocator) (out : List ℤ) (P : Pool) : Prop where
  layout : Layout a
  represents : Represents a P
  nodup : out.Nodup
  mem : ∀ b, b ∈ out ↔ ∃ i, P.InUse i ∧ b = blockAddress a i

variable {out : List ℤ}

theorem AllocatorInv.sizeMax_lt (h : AllocatorInv a out P) : a.sizeMax < 2 ^ 31 :=
  h.layout.sizeMax_lt (by have := h.represents.sizeMax; omega)

theorem AllocatorInv.getBlock (h : AllocatorInv a out P) : ∃ Q,
    AllocatorInv (poolAllocatorGetBlock a).2 ((poolAllocatorGetBlock a).1.toList ++ out) Q ∧
      SameMemory a (poolAllocatorGetBlock a).2 := by
  by_cases hf : P.free = []
  · have hnone := (getBlock_none h.represents).mpr hf
    rw [hnone, getBlock_unchanged hnone]
    exact ⟨P, h, .refl a⟩
  · obtain ⟨i, Q, hg, hsome, hQ, hm⟩ := getBlock_some h.layout h.represents hf
    refine ⟨Q, ⟨hm.layout h.layout, hQ, ?_, fun b => ?_⟩, hm⟩
    · rw [hsome]
      refine List.nodup_cons.mpr ⟨fun hi => ?_, h.nodup⟩
      obtain ⟨j, hj, he⟩ := (h.mem _).mp hi
      exact Pool.getBlock_fresh hg (h.layout.blockAddress_inj he ▸ hj)
    · simp only [hsome, Option.toList_some, List.singleton_append, List.mem_cons, h.mem,
        hm.blockAddress, Pool.getBlock_inUse hg]
      constructor
      · rintro (rfl | ⟨j, hj, rfl⟩)
        · exact ⟨i, Or.inr rfl, rfl⟩
        · exact ⟨j, Or.inl hj, rfl⟩
      · rintro ⟨j, hj | rfl, rfl⟩
        · exact Or.inr ⟨j, hj, rfl⟩
        · exact Or.inl rfl

/-- The three kinds of offsets: those between two boundaries, those at a boundary below the
buffer, and those at the boundary of an index. -/
theorem offset_cases (v d : ℤ) : ¬ v ∣ d ∨ (∃ k < 0, d = k * v) ∨ ∃ i : ℕ, d = i * v := by
  by_cases hdvd : v ∣ d
  · obtain ⟨k, hk⟩ := hdvd
    rw [Int.mul_comm] at hk
    by_cases hneg : k < 0
    · exact Or.inr (Or.inl ⟨k, hneg, hk⟩)
    · refine Or.inr (Or.inr ⟨k.toNat, ?_⟩)
      rwa [Int.toNat_of_nonneg (by omega)]
  · exact Or.inl hdvd

theorem pointer_cases (a : PoolAllocator) (block : ℤ) :
    ¬ a.itemSize ∣ block - a.buffer ∨ (∃ k < 0, block - a.buffer = k * a.itemSize) ∨
      ∃ i : ℕ, block = blockAddress a i := by
  refine (offset_cases a.itemSize (block - a.buffer)).imp_right (Or.imp_right ?_)
  rintro ⟨i, hi⟩
  refine ⟨i, ?_⟩
  rw [blockAddress]
  omega

theorem AllocatorInv.releaseBlock (h : AllocatorInv a out P)
    (hfit : toInt (block - a.buffer) = block - a.buffer) : ∃ Q,
    AllocatorInv (poolAllocatorReleaseBlock a block).2
        (recordOut a (.releaseBlock block) (poolAllocatorReleaseBlock a block).2 out) Q ∧
      SameMemory a (poolAllocatorReleaseBlock a block).2 := by
  rcases pointer_cases a block with hoff | ⟨k, hk, hoff⟩ | ⟨i, rfl⟩
  · rw [recordOut, releaseBlock_unaligned (by rwa [hfit])]
    exact ⟨P, h, .refl a⟩
  · rw [recordOut, releaseBlock_aligned h.layout.itemSize (hfit.trans hoff), if_pos (Or.inl hk)]
    exact ⟨P, h, .refl a⟩
  · have hoff : toInt (blockAddress a i - a.buffer) = i * a.itemSize := by
      rw [hfit, blockAddress]
      omega
    obtain ⟨hres, hrep, hm⟩ :=
      releaseBlock_index h.layout.itemSize h.sizeMax_lt h.represents hoff
    refine ⟨_, ⟨hm.layout h.layout, hrep, ?_, fun b => ?_⟩, hm⟩
    · rw [recordOut]
      split_ifs
      · exact h.nodup.erase _
      · exact h.nodup
    · have hiff : (poolAllocatorReleaseBlock a (blockAddress a i)).1 = .success ↔ P.InUse i := by
        rw [hres, ← Pool.releaseBlock_eq_success]
        cases (P.releaseBlock i).1 <;> simp [releaseResult]
      simp only [recordOut, hiff, Pool.releaseBlock_inUse, hm.blockAddress]
      by_cases hu : P.InUse i
      · rw [if_pos hu, h.nodup.mem_erase_iff, h.mem]
        constructor
        · rintro ⟨hne, j, hj, rfl⟩
          exact ⟨j, ⟨hj, fun he => hne (he ▸ rfl)⟩, rfl⟩
        · rintro ⟨j, ⟨hj, hji⟩, rfl⟩
          exact ⟨fun he => hji (h.layout.blockAddress_inj he), j, hj, rfl⟩
      · rw [if_neg hu, h.mem]
        constructor
        · rintro ⟨j, hj, rfl⟩
          exact ⟨j, ⟨hj, fun he => hu (he ▸ hj)⟩, rfl⟩
        · rintro ⟨j, ⟨hj, -⟩, rfl⟩
          exact ⟨j, hj, rfl⟩

/-- What holds of an allocator with the blocks `out` out. -/
structure AllocatorSound (a : PoolAllocator) (out : List ℤ) : Prop where
  /-- The chain visits `size` distinct indices, and all others are detached. -/
  chain : ∃ free : List ℕ, Follows a.links a.firstIdx free ∧ free.Nodup ∧
    (free.length : ℤ) = a.size ∧ (∀ i ∈ free, (i : ℤ) < a.sizeMax ∧ a.links i ≠ detachedIdx) ∧
    ∀ i : ℕ, (i : ℤ) < a.sizeMax → i ∉ free → a.links i = detachedIdx
  nodup : out.Nodup
  outstanding : ∀ b, b ∈ out ↔ ∃ i : ℕ, (i : ℤ) < a.sizeMax ∧ a.links i = detachedIdx ∧
    b = blockAddress a i
  exhausted : (poolAllocatorGetBlock a).1 = none ↔ (out.length : ℤ) = a.sizeMax
  /-- A new block is aligned, and apart from the others and from the array of the links. -/
  handedOut : ∀ b, (poolAllocatorGetBlock a).1 = some b →
    a.itemSize ∣ b - a.buffer ∧ a.buffer ≤ b ∧ b + a.itemSize ≤ a.freeList ∧
      (∀ c ∈ out, b + a.itemSize ≤ c ∨ c + a.itemSize ≤ b) ∧
      (poolAllocatorGetBlock a).2.size = a.size - 1
  released : ∀ b, PointerFits (a, out) (.releaseBlock b) →
    ((poolAllocatorReleaseBlock a b).1 = .success ↔ b ∈ out) ∧
    (poolAllocatorReleaseBlock a b).1 =
      if ¬ a.itemSize ∣ b - a.buffer then .unalignedFree
      else if b < a.buffer ∨ a.freeList ≤ b then .outOfRange
      else if b ∈ out then .success else .doubleFree
  unchanged : ∀ b, (poolAllocatorReleaseBlock a b).1 ≠ .success →
    (poolAllocatorReleaseBlock a b).2 = a
  /-- The block released last is handed out first. -/
  lastOut : ∀ b, PointerFits (a, out) (.releaseBlock b) → b ∈ out →
    (poolAllocatorGetBlock (poolAllocatorReleaseBlock a b).2).1 = some b

namespace AllocatorInv

/-- The detached indices are the blocks in use. -/
theorem detached_iff (h : AllocatorInv a out P) :
    (i : ℤ) < a.sizeMax ∧ a.links i = detachedIdx ↔ P.InUse i := by
  have hmax := h.represents.sizeMax
  constructor
  · rintro ⟨hi, hd⟩
    exact ⟨by omega, fun hf => h.represents.chain.not_detached hf hd⟩
  · intro hu
    have := hu.1
    exact ⟨by omega, h.represents.detached i hu⟩

theorem length_eq (h : AllocatorInv a out P) : out.length = P.used.card := by
  have himage : out.toFinset = P.used.image (blockAddress a) := by
    ext b
    simp only [List.mem_toFinset, h.mem, Finset.mem_image, Pool.mem_used]
    constructor
    · rintro ⟨i, hi, rfl⟩
      exact ⟨i, hi, rfl⟩
    · rintro ⟨i, hi, rfl⟩
      exact ⟨i, hi, rfl⟩
  rw [← List.toFinset_card_of_nodup h.nodup, himage]
  exact Finset.card_image_of_injective _ fun i j he => h.layout.blockAddress_inj he

/-- The answers to a release, one for each kind of pointer. -/
theorem release_code (h : AllocatorInv a out P)
    (hfit : toInt (block - a.buffer) = block - a.buffer) :
    (poolAllocatorReleaseBlock a block).1 =
      if ¬ a.itemSize ∣ block - a.buffer then .unalignedFree
      else if block < a.buffer ∨ a.freeList ≤ block then .outOfRange
      else if block ∈ out then .success else .doubleFree := by
  have hitem := h.layout.itemSize
  have hmax := h.represents.sizeMax
  rcases pointer_cases a block with hoff | ⟨k, hk, hoff⟩ | ⟨i, rfl⟩
  · rw [releaseBlock_unaligned (by rwa [hfit]), if_pos hoff]
  · have hneg : k * a.itemSize < 0 := Int.mul_neg_of_neg_of_pos hk (by omega)
    have hdvd : a.itemSize ∣ block - a.buffer := hoff ▸ Int.dvd_mul_left _ _
    rw [releaseBlock_aligned h.layout.itemSize (hfit.trans hoff), if_pos (Or.inl hk),
      if_neg (not_not.mpr hdvd), if_pos (Or.inl (by omega))]
  · have hoff : blockAddress a i - a.buffer = i * a.itemSize := by
      rw [blockAddress]
      omega
    have hdvd : a.itemSize ∣ blockAddress a i - a.buffer := hoff ▸ Int.dvd_mul_left _ _
    rw [(releaseBlock_index hitem h.sizeMax_lt h.represents (hfit.trans hoff)).1,
      if_neg (not_not.mpr hdvd)]
    by_cases hi : i < P.sizeMax
    · obtain ⟨-, hlow, hhigh⟩ := h.layout.blockAddress_range (i := i) (by omega)
      rw [if_neg (by omega)]
      by_cases hu : P.InUse i
      · rw [if_pos ((h.mem _).mpr ⟨i, hu, rfl⟩), (Pool.releaseBlock_success hu).1]
        rfl
      · have hf : i ∈ P.free := by
          by_contra hf
          exact hu ⟨hi, hf⟩
        have hout : blockAddress a i ∉ out := fun hm => by
          obtain ⟨j, hj, he⟩ := (h.mem _).mp hm
          exact hu (h.layout.blockAddress_inj he ▸ hj)
        rw [if_neg hout]
        simp [Pool.releaseBlock, hi, hf, releaseResult]
    · have hge : a.sizeMax * a.itemSize ≤ i * a.itemSize :=
        Int.mul_le_mul_of_nonneg_right (by omega) (by omega)
      have hfree := h.layout.freeList
      rw [if_pos (Or.inr (by omega))]
      simp [Pool.releaseBlock, hi, releaseResult]

theorem mem_range (h : AllocatorInv a out P) {b : ℤ} (hb : b ∈ out) :
    a.itemSize ∣ b - a.buffer ∧ ¬ (b < a.buffer ∨ a.freeList ≤ b) := by
  have hitem := h.layout.itemSize
  obtain ⟨i, hi, rfl⟩ := (h.mem b).mp hb
  have hlt := hi.lt
  have hmax := h.represents.sizeMax
  obtain ⟨hdvd, hlow, hhigh⟩ := h.layout.blockAddress_range (i := i) (by omega)
  exact ⟨hdvd, by omega⟩

theorem disjoint (h : AllocatorInv a out P) (hi : ¬ P.InUse i) {c : ℤ} (hc : c ∈ out) :
    blockAddress a i + a.itemSize ≤ c ∨ c + a.itemSize ≤ blockAddress a i := by
  obtain ⟨j, hj, rfl⟩ := (h.mem c).mp hc
  have hne : i ≠ j := fun he => hi (he ▸ hj)
  rcases Nat.lt_or_gt_of_ne hne with hlt | hlt
  · exact Or.inl (h.layout.blockAddress_lt hlt)
  · exact Or.inr (h.layout.blockAddress_lt hlt)

end AllocatorInv

theorem SameMemory.trans {b c : PoolAllocator} (h : SameMemory a b) (h' : SameMemory b c) :
    SameMemory a c :=
  ⟨h'.buffer.trans h.buffer, h'.freeList.trans h.freeList, h'.sizeMax.trans h.sizeMax,
    h'.itemSize.trans h.itemSize⟩

theorem toInt_of_fits {b : ℤ} (hb : PointerFits (a, out) (.releaseBlock b)) :
    toInt (b - a.buffer) = b - a.buffer := toInt_of_mem hb.1 hb.2

/-- A call keeps the invariant, with another pool. -/
theorem AllocatorInv.step {x y : PoolAllocator × List ℤ} {c : PoolCall}
    (h : AllocatorInv x.1 x.2 P) (hfit : PointerFits x c) (hs : (allocator a).step x c = .ok y) :
    (∃ Q, AllocatorInv y.1 y.2 Q) ∧ SameMemory x.1 y.1 := by
  obtain ⟨ha, hout⟩ := System.withRecord_step.mp hs
  have hy : poolStep x.1 c = y.1 := Except.ok.inj ha
  rw [hout, ← hy]
  cases c with
  | getBlock =>
    obtain ⟨Q, hQ, hm⟩ := h.getBlock
    exact ⟨⟨Q, hQ⟩, hm⟩
  | releaseBlock block =>
    obtain ⟨Q, hQ, hm⟩ := h.releaseBlock (toInt_of_fits hfit)
    exact ⟨⟨Q, hQ⟩, hm⟩

theorem AllocatorInv.sound (h : AllocatorInv a out P) : AllocatorSound a out := by
  have hr := h.represents
  have hmax := hr.sizeMax
  constructor
  case chain =>
    refine ⟨P.free, hr.chain, P.nodup, hr.size.symm, fun i hi => ?_, fun i hi hf => ?_⟩
    · have := P.bound i hi
      exact ⟨by omega, hr.chain.not_detached hi⟩
    · exact hr.detached i ⟨by omega, hf⟩
  case nodup => exact h.nodup
  case outstanding =>
    intro b
    rw [h.mem]
    constructor
    · rintro ⟨i, hi, he⟩
      exact ⟨i, (h.detached_iff.mpr hi).1, (h.detached_iff.mpr hi).2, he⟩
    · rintro ⟨i, hi, hd, he⟩
      exact ⟨i, h.detached_iff.mp ⟨hi, hd⟩, he⟩
  case exhausted =>
    have hcard := P.card_used_add_free
    rw [getBlock_none hr, h.length_eq, ← List.length_eq_zero_iff]
    omega
  case handedOut =>
    intro b hb
    have hf : P.free ≠ [] := fun hf => by
      rw [(getBlock_none hr).mpr hf] at hb
      cases hb
    obtain ⟨i, Q, hg, hsome, hQ, -⟩ := getBlock_some h.layout hr hf
    obtain rfl : blockAddress a i = b := Option.some.inj (hsome.symm.trans hb)
    have hi := Pool.getBlock_lt hg
    obtain ⟨hdvd, hlow, hhigh⟩ := h.layout.blockAddress_range (i := i) (by omega)
    refine ⟨hdvd, hlow, hhigh, fun c hc => h.disjoint (Pool.getBlock_fresh hg) hc, ?_⟩
    rw [hQ.size, hr.size, (Pool.getBlock_eq_some hg).1, List.length_cons]
    omega
  case released =>
    intro b hb
    refine ⟨?_, h.release_code (toInt_of_fits hb)⟩
    rw [h.release_code (toInt_of_fits hb)]
    constructor
    · intro hs
      split_ifs at hs with hdvd hout hm
      exact hm
    · intro hm
      obtain ⟨hdvd, hin⟩ := h.mem_range hm
      rw [if_neg (not_not.mpr hdvd), if_neg hin, if_pos hm]
  case unchanged => exact fun b hb => releaseBlock_unchanged hb
  case lastOut =>
    intro b hb hm
    obtain ⟨i, hi, rfl⟩ := (h.mem b).mp hm
    have hoff : toInt (blockAddress a i - a.buffer) = i * a.itemSize := by
      rw [toInt_of_fits hb, blockAddress]
      omega
    obtain ⟨-, hrep, hsame⟩ := releaseBlock_index h.layout.itemSize h.sizeMax_lt hr hoff
    have hfree := (Pool.releaseBlock_success hi).2
    obtain ⟨j, Q, hg, hsome, -⟩ := getBlock_some (hsame.layout h.layout) hrep (by simp [hfree])
    have hj := (Pool.getBlock_eq_some hg).1
    rw [hfree] at hj
    rw [hsome, hsame.blockAddress, (List.cons.inj hj).1]

/-- An allocator that has been initialised with enough memory never hands out a block twice and
never loses one, whatever is released. -/
theorem allocator_sound {a0 : PoolAllocator} {itemSize numItems memoryBlock memorySize : ℤ}
    (hitems : 1 ≤ numItems) (hsize : 1 ≤ itemSize)
    (hmem : numItems * (itemSize + sizeofInt) ≤ memorySize) (hint : memorySize < 2 ^ 31)
    {x : PoolAllocator × List ℤ}
    (h : (allocator (poolAllocatorInit a0 itemSize numItems memoryBlock memorySize).2).ReachableBy
      PointerFits x) :
    (poolAllocatorInit a0 itemSize numItems memoryBlock memorySize).1 = .success ∧
      AllocatorSound x.1 x.2 ∧ x.1.buffer = memoryBlock ∧ x.1.sizeMax = numItems ∧
      x.1.itemSize = itemSize ∧ x.1.freeList = memoryBlock + numItems * itemSize := by
  have hpos : 0 ≤ numItems * itemSize := Int.mul_nonneg (by omega) (by omega)
  have hmul : numItems * (itemSize + sizeofInt) = numItems * itemSize + numItems * 4 :=
    Int.mul_add _ _ _
  have hinit : (poolAllocatorInit a0 itemSize numItems memoryBlock memorySize).1 = .success := by
    rw [init_success, toInt_of_mem (by omega) (by omega)]
    exact hmem
  have hlay := init_layout hinit hitems hsize (by omega)
  have hrep := init_represents hinit hitems (by omega)
  have hinit_eq := init_eq hinit
  have hstart : AllocatorInv (poolAllocatorInit a0 itemSize numItems memoryBlock memorySize).2 []
      (Pool.init numItems.toNat) :=
    ⟨hlay, hrep, List.nodup_nil, fun b => ⟨fun hb => absurd hb List.not_mem_nil,
      fun ⟨i, hi, _⟩ => absurd hi (Pool.not_inUse_init _ i)⟩⟩
  obtain ⟨⟨P, hP⟩, hsame⟩ := h.invariant (P := fun x => (∃ P, AllocatorInv x.1 x.2 P) ∧
      SameMemory (poolAllocatorInit a0 itemSize numItems memoryBlock memorySize).2 x.1)
    ⟨⟨_, hstart⟩, .refl _⟩ fun x c y _ ⟨⟨P, hP⟩, hm⟩ hfit hs => by
      obtain ⟨hQ, hxy⟩ := hP.step hfit hs
      exact ⟨hQ, hm.trans hxy⟩
  have hbuf := hsame.buffer
  have hmax := hsame.sizeMax
  have hitem := hsame.itemSize
  rw [hinit_eq] at hbuf hmax hitem
  refine ⟨hinit, hP.sound, hbuf, hmax, hitem, ?_⟩
  rw [hP.layout.freeList, hbuf, hmax, hitem]

theorem allocator_sound_released :
    let a := (poolAllocatorInit ⟨0, 0, fun _ => 0, 0, 0, 0, 0, 0⟩ 3 2 100 14).2
    let x := (allocator a).replayBy PointerFits
      [.getBlock, .getBlock, .releaseBlock 103, .releaseBlock 99, .releaseBlock 103]
    x.2 = [100] ∧ x.1.size = 1 ∧ AllocatorSound x.1 x.2 :=
  ⟨by decide +kernel, by decide +kernel, (allocator_sound (by decide) (by decide) (by decide)
    (by decide) (System.reachableBy_replayBy _)).2.1⟩

end DisastrOS
