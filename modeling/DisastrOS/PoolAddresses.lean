import DisastrOS.PoolLayout

/-! Which pointers `PoolAllocator_releaseBlock` accepts. The distance from the buffer is
narrowed to an int before the checks, so that pointers that differ by a multiple of `2 ^ 32`
are treated alike. -/
namespace DisastrOS
open BlockPool TransitionSystem

/-- The indices that have been handed out and not been put back, the last one first. -/
def recordIndices (a : PoolAllocator) (c : PoolCall) (a' : PoolAllocator) (out : List ℤ) :
    List ℤ :=
  match c with
  | .getBlock => if (poolAllocatorGetBlock a).1.isSome then a.firstIdx :: out else out
  | .releaseBlock block =>
    if (poolAllocatorReleaseBlock a block).1 = .success then out.erase a'.firstIdx else out

/-- An allocator with the record of the indices that are out. -/
def indexAllocator (a : PoolAllocator) : System (PoolAllocator × List ℤ) PoolCall Fault :=
  System.withRecord ⟨a, fun a c => .ok (poolStep a c)⟩ [] recordIndices

/-- The indices of `out` are those that are in use in the pool for which `a` stands. -/
structure IndexInv (a : PoolAllocator) (out : List ℤ) (P : Pool) : Prop where
  itemSize : 1 ≤ a.itemSize
  sizeMax : a.sizeMax < 2 ^ 31
  represents : Represents a P
  nodup : out.Nodup
  mem : ∀ i, i ∈ out ↔ ∃ k : ℕ, P.InUse k ∧ i = k

namespace IndexInv
variable {a : PoolAllocator} {P : Pool} {out : List ℤ} {block : ℤ}

theorem mem_natCast (h : IndexInv a out P) (k : ℕ) : (k : ℤ) ∈ out ↔ P.InUse k := by
  rw [h.mem]
  constructor
  · rintro ⟨j, hj, he⟩
    exact Int.ofNat.inj he ▸ hj
  · exact fun hk => ⟨k, hk, rfl⟩

/-- The memory is the same, the pool and the indices that are out may be others. -/
theorem sameMemory {a' : PoolAllocator} {Q : Pool} {out' : List ℤ} (h : IndexInv a out P)
    (hm : SameMemory a a') (hr : Represents a' Q) (hnd : out'.Nodup)
    (hmem : ∀ i, i ∈ out' ↔ ∃ k : ℕ, Q.InUse k ∧ i = k) : IndexInv a' out' Q :=
  ⟨hm.itemSize ▸ h.itemSize, hm.sizeMax ▸ h.sizeMax, hr, hnd, hmem⟩

theorem getBlock (h : IndexInv a out P) : ∃ Q, IndexInv (poolAllocatorGetBlock a).2
    (recordIndices a .getBlock (poolAllocatorGetBlock a).2 out) Q := by
  rw [recordIndices]
  by_cases hf : P.free = []
  · have hnone := (getBlock_none h.represents).mpr hf
    rw [hnone, getBlock_unchanged hnone]
    exact ⟨P, h⟩
  · obtain ⟨i, Q, hg, hfirst, hsome, hQ, hm⟩ := getBlock_index h.sizeMax h.represents hf
    rw [hsome, hfirst, if_pos Option.isSome_some]
    refine ⟨Q, h.sameMemory hm hQ (List.nodup_cons.mpr ⟨?_, h.nodup⟩) fun j => ?_⟩
    · rw [h.mem_natCast]
      exact Pool.getBlock_fresh hg
    · simp only [List.mem_cons, h.mem, Pool.getBlock_inUse hg]
      constructor
      · rintro (rfl | ⟨k, hk, rfl⟩)
        · exact ⟨i, Or.inr rfl, rfl⟩
        · exact ⟨k, Or.inl hk, rfl⟩
      · rintro ⟨k, hk | rfl, rfl⟩
        · exact Or.inr ⟨k, hk, rfl⟩
        · exact Or.inl rfl

/-- A release is accepted when the narrowed distance is that of an index that is out, which is
the one that is put back. -/
theorem release_success (h : IndexInv a out P) :
    (poolAllocatorReleaseBlock a block).1 = .success ↔
      ∃ k ∈ out, toInt (block - a.buffer) = k * a.itemSize := by
  have hitem := h.itemSize
  have hinj : ∀ {k l : ℤ}, k * a.itemSize = l * a.itemSize → k = l := fun he =>
    Int.eq_of_mul_eq_mul_right (by omega) he
  rcases offset_cases a.itemSize (toInt (block - a.buffer)) with hoff | ⟨k, hk, hoff⟩ | ⟨i, hoff⟩
  · rw [releaseBlock_unaligned hoff]
    refine ⟨fun he => (by cases he), ?_⟩
    rintro ⟨k, -, he⟩
    exact absurd (he ▸ Int.dvd_mul_left k a.itemSize) hoff
  · rw [releaseBlock_aligned hitem hoff, if_pos (Or.inl hk)]
    refine ⟨fun he => (by cases he), ?_⟩
    rintro ⟨l, hl, he⟩
    obtain ⟨j, -, rfl⟩ := (h.mem l).mp hl
    have := hinj (hoff.symm.trans he)
    omega
  · have hres := (releaseBlock_index hitem h.sizeMax h.represents hoff).1
    have hiff : (poolAllocatorReleaseBlock a block).1 = .success ↔ P.InUse i := by
      rw [hres, ← Pool.releaseBlock_eq_success]
      cases (P.releaseBlock i).1 <;> simp [releaseResult]
    rw [hiff, ← h.mem_natCast]
    constructor
    · exact fun hi => ⟨i, hi, hoff⟩
    · rintro ⟨k, hk, he⟩
      rwa [hinj (hoff.symm.trans he)]

theorem releaseBlock (h : IndexInv a out P) : ∃ Q, IndexInv (poolAllocatorReleaseBlock a block).2
    (recordIndices a (.releaseBlock block) (poolAllocatorReleaseBlock a block).2 out) Q := by
  rw [recordIndices]
  by_cases hs : (poolAllocatorReleaseBlock a block).1 = .success
  · obtain ⟨k, hk, hoff⟩ := h.release_success.mp hs
    obtain ⟨i, hi, rfl⟩ := (h.mem k).mp hk
    obtain ⟨-, hrep, hm⟩ := releaseBlock_index h.itemSize h.sizeMax h.represents hoff
    have hfirst : (poolAllocatorReleaseBlock a block).2.firstIdx = i := by
      have hchain := hrep.chain
      rw [(Pool.releaseBlock_success hi).2] at hchain
      exact hchain.1
    rw [if_pos hs, hfirst]
    refine ⟨_, h.sameMemory hm hrep (h.nodup.erase _) fun j => ?_⟩
    simp only [h.nodup.mem_erase_iff, h.mem, Pool.releaseBlock_inUse]
    constructor
    · rintro ⟨hne, k, hk, rfl⟩
      exact ⟨k, ⟨hk, fun he => hne (he ▸ rfl)⟩, rfl⟩
    · rintro ⟨k, ⟨hk, hki⟩, rfl⟩
      exact ⟨fun he => hki (Int.ofNat.inj he), k, hk, rfl⟩
  · rw [if_neg hs, releaseBlock_unchanged hs]
    exact ⟨P, h⟩

theorem step {a0 : PoolAllocator} {x y : PoolAllocator × List ℤ} {c : PoolCall}
    (h : IndexInv x.1 x.2 P) (hs : (indexAllocator a0).step x c = .ok y) :
    ∃ Q, IndexInv y.1 y.2 Q := by
  obtain ⟨ha, hout⟩ := System.withRecord_step.mp hs
  have hy : poolStep x.1 c = y.1 := Except.ok.inj ha
  rw [hout, ← hy]
  cases c with
  | getBlock => exact h.getBlock
  | releaseBlock block => exact h.releaseBlock

end IndexInv

variable {a : PoolAllocator} {itemSize numItems memoryBlock memorySize : ℤ}
  {x : PoolAllocator × List ℤ}

theorem IndexInv.reachable
    (hinit : (poolAllocatorInit a itemSize numItems memoryBlock memorySize).1 = .success)
    (hitems : 1 ≤ numItems) (hlt : numItems < 2 ^ 31) (hsize : 1 ≤ itemSize)
    (h : (indexAllocator
      (poolAllocatorInit a itemSize numItems memoryBlock memorySize).2).Reachable x) :
    ∃ P, IndexInv x.1 x.2 P := by
  refine h.invariant (P := fun x => ∃ P, IndexInv x.1 x.2 P) ?_ fun x c y _ hx hs => ?_
  · refine ⟨_, ?_, ?_, init_represents hinit hitems hlt, List.nodup_nil, fun i => ?_⟩
    · simp only [indexAllocator, System.withRecord]
      rw [init_eq hinit]
      exact hsize
    · simp only [indexAllocator, System.withRecord]
      rw [init_eq hinit]
      exact hlt
    · refine ⟨fun hi => absurd hi List.not_mem_nil, ?_⟩
      rintro ⟨k, hk, -⟩
      exact absurd hk (Pool.not_inUse_init _ k)
  · obtain ⟨P, hP⟩ := hx
    exact hP.step hs

/-- The release of `block` is accepted only if it is the address of a block that is out, and
otherwise changes nothing. -/
def Recognises (x : PoolAllocator × List ℤ) (block : ℤ) : Prop :=
  ((poolAllocatorReleaseBlock x.1 block).1 = .success →
    ∃ i ∈ x.2, block = x.1.buffer + i * x.1.itemSize) ∧
  ((poolAllocatorReleaseBlock x.1 block).1 ≠ .success →
    (poolAllocatorReleaseBlock x.1 block).2 = x.1)

/-- Only addresses of blocks that are out differ from such an address by a multiple of
`2 ^ 32`. -/
def NotAliased (x : PoolAllocator × List ℤ) (block : ℤ) : Prop :=
  ∀ k ∈ x.2, k * x.1.itemSize < 2 ^ 31 → 2 ^ 32 ∣ block - (x.1.buffer + k * x.1.itemSize) →
    ∃ i ∈ x.2, block = x.1.buffer + i * x.1.itemSize

instance (x : PoolAllocator × List ℤ) (block : ℤ) : Decidable (NotAliased x block) :=
  inferInstanceAs (Decidable (∀ k ∈ x.2, _))

theorem IndexInv.narrowed_iff {P : Pool} (h : IndexInv x.1 x.2 P) {k block : ℤ} (hk : k ∈ x.2) :
    toInt (block - x.1.buffer) = k * x.1.itemSize ↔
      k * x.1.itemSize < 2 ^ 31 ∧ 2 ^ 32 ∣ block - (x.1.buffer + k * x.1.itemSize) := by
  have hitem := h.itemSize
  obtain ⟨i, -, rfl⟩ := (h.mem k).mp hk
  have hpos : 0 ≤ (i : ℤ) * x.1.itemSize := Int.mul_nonneg (by omega) (by omega)
  rw [toInt_eq_iff, Int.sub_sub]
  constructor
  · exact fun hn => hn.2
  · exact fun hn => ⟨by omega, hn⟩

/-- Which pointers are told apart, in every state of every run of an allocator that has been
initialised. -/
theorem releaseBlock_recognises_iff
    (hinit : (poolAllocatorInit a itemSize numItems memoryBlock memorySize).1 = .success)
    (hitems : 1 ≤ numItems) (hlt : numItems < 2 ^ 31) (hsize : 1 ≤ itemSize)
    (h : (indexAllocator
      (poolAllocatorInit a itemSize numItems memoryBlock memorySize).2).Reachable x)
    (block : ℤ) : Recognises x block ↔ NotAliased x block := by
  obtain ⟨P, hP⟩ := IndexInv.reachable hinit hitems hlt hsize h
  constructor
  · intro hr k hk hlt hdvd
    exact hr.1 (hP.release_success.mpr ⟨k, hk, (hP.narrowed_iff hk).mpr ⟨hlt, hdvd⟩⟩)
  · intro hn
    refine ⟨fun hs => ?_, releaseBlock_unchanged⟩
    obtain ⟨k, hk, hoff⟩ := hP.release_success.mp hs
    obtain ⟨hlt, hdvd⟩ := (hP.narrowed_iff hk).mp hoff
    exact hn k hk hlt hdvd

/-- A pointer between the boundaries and the null pointer are refused, the block is accepted. -/
theorem releaseBlock_recognises_three :
    let x := (indexAllocator
      (poolAllocatorInit ⟨0, 0, fun _ => 0, 0, 0, 0, 0, 0⟩ 16 4 4096 80).2).replay
        [.getBlock, .getBlock, .releaseBlock 4096]
    x.2 = [1] ∧ Recognises x 4112 ∧ Recognises x 4113 ∧ Recognises x 0 := by
  refine ⟨by decide +kernel, ?_, ?_, ?_⟩
  · exact (releaseBlock_recognises_iff (init_success.mpr (by decide)) (by decide) (by decide)
      (by decide) (System.reachable_replay _) _).mpr (by decide +kernel)
  · exact (releaseBlock_recognises_iff (init_success.mpr (by decide)) (by decide) (by decide)
      (by decide) (System.reachable_replay _) _).mpr (by decide +kernel)
  · exact (releaseBlock_recognises_iff (init_success.mpr (by decide)) (by decide) (by decide)
      (by decide) (System.reachable_replay _) _).mpr (by decide +kernel)

/-- With the buffer at 2^32 the null pointer is taken for the first block, and so is every
pointer that lies a multiple of 2^32 behind it. -/
theorem releaseBlock_accepts_null :
    let x := (indexAllocator
      (poolAllocatorInit ⟨0, 0, fun _ => 0, 0, 0, 0, 0, 0⟩ 16 4 (2 ^ 32) 80).2).replay [.getBlock]
    x.2 = [0] ∧ (poolAllocatorReleaseBlock x.1 0).1 = .success ∧ ¬ Recognises x 0 ∧
      ¬ Recognises x (2 ^ 33) := by
  refine ⟨by decide +kernel, by decide +kernel, fun h => ?_, fun h => ?_⟩
  · exact absurd (h.1 (by decide +kernel)) (by decide +kernel)
  · exact absurd (h.1 (by decide +kernel)) (by decide +kernel)

end DisastrOS
