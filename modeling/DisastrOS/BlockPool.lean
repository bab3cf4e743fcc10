import Mathlib.Data.List.Nodup
import Mathlib.Data.List.Range
import Mathlib.Data.Finset.Card
import Mathlib.Data.Finset.Range

/-! Pools of equally sized blocks, named by their index. The free blocks form a stack:
the block released last is handed out first. A `Store` is a pool with the contents of its
blocks; releasing a block leaves its contents as they are. -/
namespace BlockPool

structure Pool where
  sizeMax : ℕ
  free : List ℕ
  nodup : free.Nodup
  bound : ∀ i ∈ free, i < sizeMax

def upFrom (i : ℕ) : ℕ → List ℕ
  | 0 => []
  | n + 1 => i :: upFrom (i + 1) n

theorem mem_upFrom {i n k : ℕ} : k ∈ upFrom i n ↔ i ≤ k ∧ k < i + n := by
  induction n generalizing i with
  | zero => simp [upFrom]
  | succ n ih =>
    simp only [upFrom, List.mem_cons, ih]
    omega

theorem upFrom_nodup (i n : ℕ) : (upFrom i n).Nodup := by
  induction n generalizing i with
  | zero => simp [upFrom]
  | succ n ih =>
    refine List.nodup_cons.mpr ⟨?_, ih (i + 1)⟩
    rw [mem_upFrom]
    omega

theorem upFrom_length (i n : ℕ) : (upFrom i n).length = n := by
  induction n generalizing i with
  | zero => rfl
  | succ n ih => simp [upFrom, ih]

namespace Pool

/-- All `n` blocks are free, the lowest first. -/
def init (n : ℕ) : Pool where
  sizeMax := n
  free := upFrom 0 n
  nodup := upFrom_nodup 0 n
  bound i hi := by have := mem_upFrom.mp hi; omega

def InUse (P : Pool) (i : ℕ) : Prop := i < P.sizeMax ∧ i ∉ P.free

instance (P : Pool) (i : ℕ) : Decidable (P.InUse i) := inferInstanceAs (Decidable (_ ∧ _))

/-- The blocks that are handed out. -/
def used (P : Pool) : Finset ℕ := (Finset.range P.sizeMax).filter (· ∉ P.free)

/-- Take the first free block; `none` when there is none. -/
def getBlock (P : Pool) : Option (ℕ × Pool) :=
  match h : P.free with
  | [] => none
  | i :: rest => some (i, {
      sizeMax := P.sizeMax
      free := rest
      nodup := (List.nodup_cons.mp (h ▸ P.nodup)).2
      bound := fun k hk => P.bound k (by rw [h]; exact List.mem_cons_of_mem i hk) })

/-- How a release ends. -/
inductive Release
  | success
  | outOfRange
  | doubleFree
  deriving DecidableEq, Repr

def releaseBlock (P : Pool) (i : ℕ) : Release × Pool :=
  if hi : i < P.sizeMax then
    if hf : i ∈ P.free then (.doubleFree, P)
    else (.success, {
      sizeMax := P.sizeMax
      free := i :: P.free
      nodup := List.nodup_cons.mpr ⟨hf, P.nodup⟩
      bound := fun k hk => by
        rcases List.mem_cons.mp hk with rfl | hk
        · exact hi
        · exact P.bound k hk })
  else (.outOfRange, P)

@[simp] theorem init_sizeMax (n : ℕ) : (init n).sizeMax = n := rfl

theorem not_inUse_init (n i : ℕ) : ¬ (init n).InUse i := by
  rintro ⟨hi, hf⟩
  exact hf (mem_upFrom.mpr ⟨by omega, by simpa using hi⟩)

@[simp] theorem mem_used {P : Pool} {i : ℕ} : i ∈ P.used ↔ P.InUse i := by
  simp [used, InUse]

theorem InUse.lt {P : Pool} {i : ℕ} (h : P.InUse i) : i < P.sizeMax := h.1

/-- Free and handed out blocks together are all blocks. -/
theorem card_used_add_free (P : Pool) : P.used.card + P.free.length = P.sizeMax := by
  have hfree : P.free.toFinset.card = P.free.length := List.toFinset_card_of_nodup P.nodup
  have hunion : (Finset.range P.sizeMax).filter (· ∈ P.free) = P.free.toFinset := by
    ext i
    simp only [Finset.mem_filter, Finset.mem_range, List.mem_toFinset]
    exact ⟨fun h => h.2, fun h => ⟨P.bound i h, h⟩⟩
  have hsplit := Finset.card_filter_add_card_filter_not (s := Finset.range P.sizeMax)
    (fun i => i ∈ P.free)
  rw [hunion, hfree, Finset.card_range] at hsplit
  rw [used]
  omega

/-- One block more is handed out. -/
theorem free_length_of_taken {P Q : Pool} {i : ℕ} (hi : ¬ P.InUse i)
    (hQ : ∀ k, Q.InUse k ↔ P.InUse k ∨ k = i) (hs : Q.sizeMax = P.sizeMax) :
    Q.free.length + 1 = P.free.length := by
  have hused : Q.used = insert i P.used := by
    ext k
    rw [Finset.mem_insert, mem_used, mem_used, hQ, or_comm]
  have hcard : Q.used.card = P.used.card + 1 := by
    rw [hused, Finset.card_insert_of_notMem (by rwa [mem_used])]
  have hP := P.card_used_add_free
  have hQ' := Q.card_used_add_free
  omega

theorem getBlock_eq_none {P : Pool} : P.getBlock = none ↔ P.free = [] := by
  unfold getBlock
  split <;> simp_all

theorem getBlock_eq_some {P Q : Pool} {i : ℕ} (h : P.getBlock = some (i, Q)) :
    P.free = i :: Q.free ∧ Q.sizeMax = P.sizeMax := by
  unfold getBlock at h
  split at h
  · cases h
  · rename_i k rest hf
    obtain ⟨rfl, rfl⟩ := Prod.mk.inj (Option.some.inj h)
    exact ⟨hf, rfl⟩

theorem getBlock_isSome {P : Pool} (h : P.free ≠ []) : ∃ i Q, P.getBlock = some (i, Q) := by
  cases hg : P.getBlock with
  | none => exact absurd (getBlock_eq_none.mp hg) h
  | some r => exact ⟨r.1, r.2, rfl⟩

/-- A block that is handed out was free, and is the only one whose state changes. -/
theorem getBlock_fresh {P Q : Pool} {i : ℕ} (h : P.getBlock = some (i, Q)) : ¬ P.InUse i := by
  obtain ⟨hf, -⟩ := getBlock_eq_some h
  rintro ⟨-, hn⟩
  exact hn (by simp [hf])

theorem getBlock_inUse {P Q : Pool} {i : ℕ} (h : P.getBlock = some (i, Q)) (k : ℕ) :
    Q.InUse k ↔ P.InUse k ∨ k = i := by
  obtain ⟨hf, hs⟩ := getBlock_eq_some h
  have hnd := P.nodup
  have hb := P.bound i (by simp [hf])
  rw [hf, List.nodup_cons] at hnd
  simp only [InUse, hf, hs, List.mem_cons, not_or]
  constructor
  · rintro ⟨hk, hq⟩
    by_cases he : k = i
    · exact Or.inr he
    · exact Or.inl ⟨hk, he, hq⟩
  · rintro (⟨hk, -, hq⟩ | rfl)
    · exact ⟨hk, hq⟩
    · exact ⟨hb, hnd.1⟩

theorem getBlock_lt {P Q : Pool} {i : ℕ} (h : P.getBlock = some (i, Q)) : i < P.sizeMax := by
  obtain ⟨hf, -⟩ := getBlock_eq_some h
  exact P.bound i (by simp [hf])

theorem releaseBlock_success {P : Pool} {i : ℕ} (h : P.InUse i) :
    (P.releaseBlock i).1 = .success ∧ (P.releaseBlock i).2.free = i :: P.free := by
  simp [releaseBlock, h.1, h.2]

theorem releaseBlock_sizeMax (P : Pool) (i : ℕ) :
    (P.releaseBlock i).2.sizeMax = P.sizeMax := by
  unfold releaseBlock
  split_ifs <;> rfl

theorem releaseBlock_of_not_inUse {P : Pool} {i : ℕ} (h : ¬ P.InUse i) :
    (P.releaseBlock i).2 = P ∧ (P.releaseBlock i).1 ≠ .success := by
  unfold releaseBlock
  split_ifs with hi hf
  · simp
  · exact absurd ⟨hi, hf⟩ h
  · simp

theorem releaseBlock_eq_success {P : Pool} {i : ℕ} :
    (P.releaseBlock i).1 = .success ↔ P.InUse i := by
  constructor
  · intro h
    by_contra hn
    exact (releaseBlock_of_not_inUse hn).2 h
  · exact fun h => (releaseBlock_success h).1

theorem releaseBlock_inUse (P : Pool) (i k : ℕ) :
    (P.releaseBlock i).2.InUse k ↔ P.InUse k ∧ k ≠ i := by
  by_cases hi : P.InUse i
  · simp only [InUse, releaseBlock_sizeMax, (releaseBlock_success hi).2, List.mem_cons, not_or]
    tauto
  · rw [(releaseBlock_of_not_inUse hi).1]
    constructor
    · exact fun h => ⟨h, fun he => hi (he ▸ h)⟩
    · exact fun h => h.1

end Pool

/-- A pool with the contents of its blocks. -/
structure Store (α : Type*) where
  cell : ℕ → α
  pool : Pool

namespace Store
variable {α : Type*}

def init (n : ℕ) (a : α) : Store α := ⟨fun _ => a, Pool.init n⟩

abbrev InUse (S : Store α) (i : ℕ) : Prop := S.pool.InUse i

/-- Change the contents of one block. -/
def modify (S : Store α) (i : ℕ) (f : α → α) : Store α where
  cell k := if k = i then f (S.cell k) else S.cell k
  pool := S.pool

/-- Take a free block and change its contents by `f`. -/
def alloc (S : Store α) (f : α → α) : Option (ℕ × Store α) :=
  match S.pool.getBlock with
  | none => none
  | some (i, Q) => some (i, ⟨fun k => if k = i then f (S.cell k) else S.cell k, Q⟩)

def free (S : Store α) (i : ℕ) : Pool.Release × Store α :=
  ((S.pool.releaseBlock i).1, ⟨S.cell, (S.pool.releaseBlock i).2⟩)

@[simp] theorem modify_pool (S : Store α) (i : ℕ) (f : α → α) : (S.modify i f).pool = S.pool :=
  rfl

@[simp] theorem modify_cell (S : Store α) (i k : ℕ) (f : α → α) :
    (S.modify i f).cell k = if k = i then f (S.cell k) else S.cell k := rfl

@[simp] theorem modify_inUse (S : Store α) (i k : ℕ) (f : α → α) :
    (S.modify i f).InUse k ↔ S.InUse k := Iff.rfl

@[simp] theorem free_cell (S : Store α) (i : ℕ) : (S.free i).2.cell = S.cell := rfl

@[simp] theorem free_sizeMax (S : Store α) (i : ℕ) :
    (S.free i).2.pool.sizeMax = S.pool.sizeMax := Pool.releaseBlock_sizeMax S.pool i

theorem free_free {S : Store α} {i : ℕ} (h : S.InUse i) :
    (S.free i).2.pool.free = i :: S.pool.free := (Pool.releaseBlock_success h).2

@[simp] theorem init_cell (n : ℕ) (a : α) (k : ℕ) : (init n a).cell k = a := rfl

theorem modify_congr {S : Store α} {i : ℕ} {f g : α → α} (h : f (S.cell i) = g (S.cell i)) :
    S.modify i f = S.modify i g := by
  have hcell : (S.modify i f).cell = (S.modify i g).cell := by
    funext k
    by_cases hk : k = i
    · subst hk
      simp [h]
    · simp [hk]
  exact congrArg (Store.mk · S.pool) hcell

theorem modify_modify (S : Store α) (i : ℕ) (f g : α → α) :
    (S.modify i f).modify i g = S.modify i (g ∘ f) := by
  have hcell : ((S.modify i f).modify i g).cell = (S.modify i (g ∘ f)).cell := by
    funext k
    by_cases hk : k = i <;> simp [hk]
  exact congrArg (Store.mk · S.pool) hcell

theorem not_inUse_init (n : ℕ) (a : α) (i : ℕ) : ¬ (init n a).InUse i := Pool.not_inUse_init n i

theorem free_eq_success {S : Store α} {i : ℕ} : (S.free i).1 = .success ↔ S.InUse i :=
  Pool.releaseBlock_eq_success

@[simp] theorem free_inUse (S : Store α) (i k : ℕ) : (S.free i).2.InUse k ↔ S.InUse k ∧ k ≠ i :=
  Pool.releaseBlock_inUse S.pool i k

theorem alloc_eq_none {S : Store α} {f : α → α} : S.alloc f = none ↔ S.pool.free = [] := by
  unfold alloc
  rw [← Pool.getBlock_eq_none]
  split <;> simp_all

/-- What an allocation that succeeds does. -/
structure Allocated (S T : Store α) (i : ℕ) (f : α → α) : Prop where
  fresh : ¬ S.InUse i
  inUse : ∀ k, T.InUse k ↔ S.InUse k ∨ k = i
  cell : ∀ k, T.cell k = if k = i then f (S.cell k) else S.cell k
  free : S.pool.free = i :: T.pool.free
  sizeMax : T.pool.sizeMax = S.pool.sizeMax

theorem alloc_eq_some {S T : Store α} {f : α → α} {i : ℕ} (h : S.alloc f = some (i, T)) :
    Allocated S T i f := by
  unfold alloc at h
  split at h
  · cases h
  · rename_i k Q hg
    obtain ⟨rfl, rfl⟩ := Prod.mk.inj (Option.some.inj h)
    obtain ⟨hf, hs⟩ := Pool.getBlock_eq_some hg
    exact ⟨Pool.getBlock_fresh hg, Pool.getBlock_inUse hg, fun _ => rfl, hf, hs⟩

end Store
end BlockPool
