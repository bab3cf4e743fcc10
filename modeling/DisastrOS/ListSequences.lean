import DisastrOS.LinkedList
import DisastrOS.TransitionSystem

/-! The lists of `linked_list.c` implement sequences, over every run of insertions and removals. -/
namespace DisastrOS.LinkedList
open PointerPath TransitionSystem

/-- A heap of items that are in no list. -/
def emptyMemory (H A : Type*) : Memory H A := ⟨fun _ => ⟨none, none, 0⟩, fun _ => ⟨none, none⟩⟩

variable {H A : Type*} [DecidableEq H]

/-- `List_init` makes an empty list, whatever the head held. -/
theorem isList_listInit (m : Memory H A) (h : H) : IsList (listInit m h) h [] := by
  refine ⟨⟨?_, ?_⟩, ?_⟩
  · simp [listInit]
  · simp [listInit]
  · simp [listInit, toInt]

/-- All heads are as `List_init` leaves them. -/
theorem isList_empty {h : H} : IsList (emptyMemory H A) h [] := by
  have hinit : listInit (emptyMemory H A) h = emptyMemory H A := by
    simp [listInit, Memory.modHead, emptyMemory]
  exact hinit ▸ isList_listInit _ h

variable [DecidableEq A]

inductive ListOp (A : Type*)
  | insert (prev : Option A) (item : A)
  | detach (item : A)

namespace ListOp

/-- The operation on the links of the list `h`. -/
def run (m : Memory H A) (h : H) : ListOp A → Memory H A
  | insert prev item => (listInsert m h prev item).2
  | detach item => (listDetach m h item).2

/-- The operation on a sequence. -/
def apply (l : List A) : ListOp A → List A
  | insert prev item => placed prev item l
  | detach item => l.erase item

/-- What a caller may ask for; the items of the other lists are `others`. -/
def Permitted (others : Set A) (m : Memory H A) (l : List A) : ListOp A → Prop
  | insert prev item =>
    (∀ q ∈ prev, q ∈ l) ∧ item ∉ l ∧ item ∉ others ∧ m.item item = ⟨none, none⟩
  | detach item => item ∈ l

end ListOp

/-- A list with the sequence that it stands for. -/
def listSystem (h : H) (m : Memory H A) (l : List A) :
    System (Memory H A × List A) (ListOp A) Empty :=
  ⟨(m, l), fun y op => .ok (op.run y.1 h, op.apply y.2)⟩

/-- The list of the head `h` behaves like the sequence `l`. -/
structure Implements (others : Set A) (m : Memory H A) (h : H) (l : List A) : Prop where
  list : IsList m h l
  first : (m.head h).first = none ↔ l = []
  last : (m.head h).last = none ↔ l = []
  find : ∀ fuel item, l.length < fuel →
    listFind fuel m h item = .ok (if item ∈ l then some item else none)
  insert : ∀ prev item, (ListOp.insert prev item).Permitted others m l →
    (listInsert m h prev item).1 = some item ∧
      listDetach (listInsert m h prev item).2 h item = (item, m)
  detach : ∀ item, (ListOp.detach item).Permitted others m l →
    (listDetach m h item).1 = item ∧ (listDetach m h item).2.item item = ⟨none, none⟩

variable {m m' : Memory H A} {h : H} {l l' : List A} {others : Set A} {op : ListOp A}

theorem IsList.implements (hl : IsList m h l) : Implements others m h l where
  list := hl
  first := by rw [hl.links.first_eq, List.head?_eq_none_iff]
  last := by rw [hl.links.last_eq, List.getLast?_eq_none_iff]
  find := fun _ _ => hl.listFind
  insert := by
    rintro prev item ⟨hprev, hn, -, hun⟩
    obtain ⟨m', hm, -, -, -, hback⟩ := hl.listInsert hprev hn hun
    rw [hm]
    exact ⟨rfl, hback⟩
  detach := by
    intro item hi
    obtain ⟨m', hm, -, hun, -⟩ := hl.listDetach hi
    rw [hm]
    exact ⟨rfl, hun⟩

/-- Only the head and its items differ. -/
structure Frame (others : Set A) (m m' : Memory H A) (h : H) : Prop where
  others : ∀ a ∈ others, m'.item a = m.item a
  heads : ∀ k ≠ h, m'.head k = m.head k

theorem ListOp.run_frame (hl : IsList m h l) (hdis : ∀ a ∈ l, a ∉ others)
    (hop : op.Permitted others m l) :
    IsList (op.run m h) h (op.apply l) ∧ (∀ a ∈ op.apply l, a ∉ others) ∧
      Frame others m (op.run m h) h := by
  cases op with
  | insert prev item =>
    obtain ⟨hprev, hn, hno, hun⟩ := hop
    obtain ⟨m', hm, hl', hsame, hheads, -⟩ := hl.listInsert hprev hn hun
    rw [ListOp.run, hm]
    refine ⟨hl', fun a ha => ?_, fun a ha => ?_, hheads⟩
    · obtain ⟨l1, l2, rfl, -, hplaced⟩ := placed_split item hprev
      rw [ListOp.apply, hplaced] at ha
      rcases List.mem_cons.mp (List.perm_middle.mem_iff.mp ha) with rfl | ha
      · exact hno
      · exact hdis a ha
    · exact hsame a (fun hal => hdis a hal ha) fun he => hno (he ▸ ha)
  | detach item =>
    obtain ⟨m', hm, hl', -, hsame, hheads⟩ := hl.listDetach hop
    rw [ListOp.run, hm]
    refine ⟨hl', fun a ha => hdis a (List.mem_of_mem_erase ha), fun a ha => ?_, hheads⟩
    exact hsame a fun hal => hdis a hal ha

theorem run_isList (hl : IsList m h l) (hdis : ∀ a ∈ l, a ∉ others)
    (hr : (listSystem h m l).ReachableBy (fun y op => op.Permitted others y.1 y.2) (m', l')) :
    IsList m' h l' ∧ (∀ a ∈ l', a ∉ others) ∧ Frame others m m' h := by
  refine hr.invariant (P := fun y => IsList y.1 h y.2 ∧ (∀ a ∈ y.2, a ∉ others) ∧
    Frame others m y.1 h) ⟨hl, hdis, fun _ _ => rfl, fun _ _ => rfl⟩ ?_
  rintro ⟨m1, l1⟩ op y - ⟨hl1, hdis1, hframe⟩ hop hm
  obtain rfl := Except.ok.inj hm
  obtain ⟨hl2, hdis2, hframe2⟩ := ListOp.run_frame hl1 hdis1 hop
  refine ⟨hl2, hdis2, fun a ha => ?_, fun k hk => ?_⟩
  · rw [hframe2.others a ha, hframe.others a ha]
  · rw [hframe2.heads k hk, hframe.heads k hk]

/-- Every run of permitted insertions and removals on a well-formed list does to it what it does
to the sequence, and leaves the other lists as they are. -/
theorem list_implements_sequence (hl : IsList m h l) (hdis : ∀ a ∈ l, a ∉ others)
    (hr : (listSystem h m l).ReachableBy (fun y op => op.Permitted others y.1 y.2) (m', l')) :
    Implements others m' h l' ∧ Frame others m m' h := by
  obtain ⟨hl', -, hframe⟩ := run_isList hl hdis hr
  exact ⟨hl'.implements, hframe⟩

/-- Two items are put in at the front, and a third behind the first of them. -/
theorem list_implements_sequence_three :
    ∃ m, Implements ∅ m () [2, 3, 1] ∧ Frame ∅ (emptyMemory Unit ℕ) m () := by
  refine ⟨_, list_implements_sequence isList_empty (by simp)
    (.step (a := .insert (some 2) 3) (.step (a := .insert none 2) (.step (a := .insert none 1)
      .start ?_ rfl) ?_ rfl) ?_ rfl)⟩
  · simp [ListOp.Permitted, listSystem, emptyMemory]
  · refine ⟨by simp, by decide, by simp, by decide⟩
  · refine ⟨by decide, by decide, by simp, by decide⟩

/-- After `n` insertions at the front. -/
theorem filled (n : ℕ) : ∃ m, (listSystem () (emptyMemory Unit ℕ) []).ReachableBy
    (fun y op => op.Permitted ∅ y.1 y.2) (m, (List.range n).reverse) ∧
      ∀ a, n ≤ a → m.item a = ⟨none, none⟩ := by
  induction n with
  | zero => exact ⟨_, .start, fun _ _ => rfl⟩
  | succ n ih =>
    obtain ⟨m, hm, hun⟩ := ih
    have hop : (ListOp.insert none n).Permitted ∅ m (List.range n).reverse :=
      ⟨by simp, by simp, by simp, hun n le_rfl⟩
    obtain ⟨hl, -⟩ := run_isList isList_empty (by simp) hm
    obtain ⟨m', hm', -, hsame, -⟩ := hl.listInsert hop.1 hop.2.1 hop.2.2.2
    refine ⟨m', hm.step hop ?_, fun a ha => ?_⟩
    · simp [listSystem, ListOp.run, ListOp.apply, hm', List.range_succ, placed]
    · rw [hsame a (by simp; omega) (by omega)]
      exact hun a (by omega)

/-- The size is an `int`, and wraps when the list gets its item number 2 ^ 31. -/
theorem size_wraps : ∃ (m : Memory Unit ℕ) (l : List ℕ),
    (listSystem () (emptyMemory Unit ℕ) []).ReachableBy
      (fun y op => op.Permitted ∅ y.1 y.2) (m, l) ∧ (m.head ()).size ≠ l.length := by
  obtain ⟨m, hm, -⟩ := filled (2 ^ 31)
  obtain ⟨hl, -⟩ := run_isList isList_empty (by simp) hm
  refine ⟨m, _, hm, ?_⟩
  rw [hl.size, List.length_reverse, List.length_range]
  decide

end DisastrOS.LinkedList
