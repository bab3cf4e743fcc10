import DisastrOS.ListSequences

/-! Which items `List_insert` refuses: those of a list with two items or more, but not the only
item of a list. -/
namespace DisastrOS.LinkedList
open PointerPath TransitionSystem

/-- The lists of all heads are well formed, and no item is in two of them. -/
structure Lists {H A : Type*} (m : Memory H A) (L : H → List A) : Prop where
  list : ∀ h, IsList m h (L h)
  disjoint : ∀ h k a, a ∈ L h → a ∈ L k → h = k

/-- The guard of `List_insert` sees exactly that an item of a list is not alone there. -/
theorem Lists.linked_iff {H A : Type*} {m : Memory H A} {L : H → List A} {k : H} {item : A}
    (hL : Lists m L) (hi : item ∈ L k) :
    (m.item item).next.isSome ∨ (m.item item).prev.isSome ↔ L k ≠ [item] := by
  obtain ⟨l1, l2, hsplit⟩ := List.append_of_mem hi
  have hl := (hL.list k).links
  rw [hsplit] at hl
  rw [hsplit, hl.next, hl.prev]
  cases l1 with
  | nil => cases l2 <;> simp
  | cons a l1 => simp

variable {H A : Type*} [DecidableEq H] [DecidableEq A] {m m' : Memory H A} {L : H → List A}
  {h k : H} {prev : Option A} {item : A}

/-- Runs of `List_insert`: the head, the place and the item of each call. -/
def insertSystem (m : Memory H A) : System (Memory H A) (H × Option A × A) Empty :=
  ⟨m, fun m c => .ok (listInsert m c.1 c.2.1 c.2.2).2⟩

/-- The place is the front or an item of the list, and the item is not alone in a list. -/
def NotAlone (m : Memory H A) (c : H × Option A × A) : Prop :=
  ∃ L, Lists m L ∧ (∀ q ∈ c.2.1, q ∈ L c.1) ∧ ∀ k, L k ≠ [c.2.2]

theorem Lists.insert (hL : Lists m L) (hprev : ∀ q ∈ prev, q ∈ L h) (hn : ∀ k, item ∉ L k)
    (hun : m.item item = ⟨none, none⟩) : Lists (listInsert m h prev item).2
      (Function.update L h (placed prev item (L h))) := by
  obtain ⟨m', hm, hl, hsame, hheads, -⟩ := (hL.list h).listInsert hprev (hn h) hun
  obtain ⟨l1, l2, hsplit, -, hplaced⟩ := placed_split item hprev
  rw [hm]
  have hmem : ∀ k a, a ∈ Function.update L h (placed prev item (L h)) k →
      a ∈ L k ∨ a = item ∧ k = h := fun k a ha => by
    by_cases hk : k = h
    · subst hk
      rw [Function.update_self, hplaced] at ha
      rcases List.mem_cons.mp (List.perm_middle.mem_iff.mp ha) with rfl | ha
      · exact Or.inr ⟨rfl, rfl⟩
      · exact Or.inl (hsplit ▸ ha)
    · rw [Function.update_of_ne hk] at ha
      exact Or.inl ha
  constructor
  case list =>
    intro k
    by_cases hk : k = h
    · subst hk
      rwa [Function.update_self]
    · rw [Function.update_of_ne hk]
      refine (hL.list k).congr (hheads k hk) fun a ha => hsame a ?_ fun he => hn k (he ▸ ha)
      exact fun hah => hk (hL.disjoint k h a ha hah)
  case disjoint =>
    intro k k' a ha ha'
    rcases hmem k a ha with hak | ⟨rfl, rfl⟩
    · rcases hmem k' a ha' with hak' | ⟨rfl, -⟩
      · exact hL.disjoint k k' a hak hak'
      · exact absurd hak (hn k)
    · rcases hmem k' a ha' with hak' | ⟨-, rfl⟩
      · exact absurd hak' (hn k')
      · rfl

theorem Lists.step {c : H × Option A × A} (hc : NotAlone m c) :
    ∃ L, Lists (listInsert m c.1 c.2.1 c.2.2).2 L := by
  obtain ⟨L, hL, hprev, halone⟩ := hc
  obtain ⟨h, prev, item⟩ := c
  by_cases hg : (m.item item).next.isSome ∨ (m.item item).prev.isSome
  · refine ⟨L, ?_⟩
    rwa [listInsert, if_pos hg]
  · refine ⟨_, hL.insert hprev (fun k hk => hg ((hL.linked_iff hk).mpr (halone k))) ?_⟩
    simp only [not_or, Option.not_isSome_iff_eq_none] at hg
    exact ListItem.ext hg.2 hg.1

/-- `List_insert` refuses an item of a list exactly if it is not alone there; and a run that
never inserts the only item of a list keeps all lists well formed and apart. -/
theorem insert_refuses_iff (hL : Lists m L) :
    (∀ k item, item ∈ L k → ∀ h prev, (∀ q ∈ prev, q ∈ L h) →
      (listInsert m h prev item = (none, m) ↔ L k ≠ [item])) ∧
    ∀ m', (insertSystem m).ReachableBy NotAlone m' → ∃ L', Lists m' L' := by
  refine ⟨fun k item hi h prev _ => ?_, fun m' hr => ?_⟩
  · rw [← hL.linked_iff hi, listInsert]
    split_ifs with hg
    · exact ⟨fun _ => hg, fun _ => rfl⟩
    · simp [hg]
  · refine hr.invariant (P := fun m => ∃ L, Lists m L) ⟨L, hL⟩ fun m1 c m2 _ _ hc hm => ?_
    rw [← Except.ok.inj hm]
    exact Lists.step hc

/-- A list of two items. -/
def couple : Memory Unit ℕ :=
  ⟨fun _ => ⟨some 0, some 1, 2⟩, fun a =>
    if a = 0 then ⟨none, some 1⟩ else if a = 1 then ⟨some 0, none⟩ else ⟨none, none⟩⟩

theorem insert_refuses_couple : listInsert couple () none 1 = (none, couple) ∧
    listInsert couple () (some 1) 0 = (none, couple) := by
  have hL : Lists couple fun _ => [0, 1] := by
    refine ⟨fun _ => ⟨⟨⟨rfl, rfl, rfl⟩, ⟨rfl, rfl, rfl⟩⟩, ?_⟩, fun _ _ _ _ _ => rfl⟩
    simp [couple, toInt]
  have hr := (insert_refuses_iff hL).1 ()
  exact ⟨(hr 1 (by decide) () none (by simp)).mpr (by decide),
    (hr 0 (by decide) () (some 1) (by simp)).mpr (by decide)⟩

/-- A list of one item and an empty list. -/
def lone : Memory Bool ℕ :=
  ⟨fun h => if h then ⟨none, none, 0⟩ else ⟨some 0, some 0, 1⟩, fun _ => ⟨none, none⟩⟩

/-- The only item of a list is put into another list as well, or behind itself. -/
theorem lone_item_shared : Lists lone (fun h => if h then [] else [0]) ∧
    (listInsert lone true none 0).1 = some 0 ∧
    ((listInsert lone true none 0).2.head true).first = some 0 ∧
    ((listInsert lone true none 0).2.head false).first = some 0 ∧
    (listInsert lone false (some 0) 0).1 = some 0 ∧
    ((listInsert lone false (some 0) 0).2.item 0).next = some 0 := by
  refine ⟨⟨fun h => ?_, fun h k a hh hk => ?_⟩, by decide⟩
  · cases h with
    | false => exact ⟨⟨⟨rfl, rfl⟩, ⟨rfl, rfl⟩⟩, by simp [lone, toInt]⟩
    | true => exact ⟨⟨rfl, rfl⟩, by simp [lone, toInt]⟩
  · cases h <;> cases k <;> simp_all

end DisastrOS.LinkedList
