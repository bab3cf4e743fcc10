import DisastrOS.Kernel
import DisastrOS.PointerPath

/-! The lists of `linked_list.c`, with their links. -/
namespace DisastrOS.LinkedList
open PointerPath

@[ext] structure ListItem (A : Type*) where
  prev : Option A
  next : Option A
  deriving DecidableEq

@[ext] structure ListHead (A : Type*) where
  first : Option A
  last : Option A
  size : ℤ
  deriving DecidableEq

/-- The heads and the items, by their addresses. -/
@[ext] structure Memory (H A : Type*) where
  head : H → ListHead A
  item : A → ListItem A

variable {H A : Type*}

/-- The item before which `List_insert` puts the new one. -/
def following (m : Memory H A) (h : H) (prev : Option A) : Option A :=
  match prev with
  | some q => (m.item q).next
  | none => (m.head h).first

section Code
variable [DecidableEq H] [DecidableEq A]

namespace Memory

@[simps] def modItem (m : Memory H A) (a : A) (f : ListItem A → ListItem A) : Memory H A :=
  { m with item := fun b => if b = a then f (m.item b) else m.item b }

@[simps] def modHead (m : Memory H A) (h : H) (f : ListHead A → ListHead A) : Memory H A :=
  { m with head := fun k => if k = h then f (m.head k) else m.head k }

end Memory

/-- `List_init` -/
def listInit (m : Memory H A) (h : H) : Memory H A := m.modHead h fun _ => ⟨none, none, 0⟩

/-- The loop of `List_find`, from the item `aux` on. -/
def findFrom (m : Memory H A) (item : A) : ℕ → Option A → Except Fault (Option A)
  | 0, _ => .error .endless
  | _ + 1, none => .ok none
  | fuel + 1, some a =>
    if a = item then .ok (some item) else findFrom m item fuel (m.item a).next

/-- `List_find` -/
def listFind (fuel : ℕ) (m : Memory H A) (h : H) (item : A) : Except Fault (Option A) :=
  findFrom m item fuel (m.head h).first

/-- The assignments of `List_insert`. -/
def linkIn (m : Memory H A) (h : H) (prev next : Option A) (item : A) : Memory H A :=
  let m :=
    match prev with
    | some q => (m.modItem item fun c => { c with prev := some q }).modItem q
        fun c => { c with next := some item }
    | none => m
  let m :=
    match next with
    | some n => (m.modItem item fun c => { c with next := some n }).modItem n
        fun c => { c with prev := some item }
    | none => m
  let m := m.modHead h fun c => if prev.isNone then { c with first := some item } else c
  let m := m.modHead h fun c => if next.isNone then { c with last := some item } else c
  m.modHead h fun c => { c with size := toInt (c.size + 1) }

/-- `List_insert` -/
def listInsert (m : Memory H A) (h : H) (prev : Option A) (item : A) : Option A × Memory H A :=
  if (m.item item).next.isSome ∨ (m.item item).prev.isSome then (none, m)
  else (some item, linkIn m h prev (following m h prev) item)

/-- The assignments of `List_detach`. -/
def linkOut (m : Memory H A) (h : H) (prev next : Option A) (item : A) : Memory H A :=
  let m :=
    match prev with
    | some q => m.modItem q fun c => { c with next := next }
    | none => m
  let m :=
    match next with
    | some n => m.modItem n fun c => { c with prev := prev }
    | none => m
  let m := m.modHead h fun c => if c.first = some item then { c with first := next } else c
  let m := m.modHead h fun c => if c.last = some item then { c with last := prev } else c
  let m := m.modHead h fun c => { c with size := toInt (c.size - 1) }
  m.modItem item fun _ => ⟨none, none⟩

/-- `List_detach` -/
def listDetach (m : Memory H A) (h : H) (item : A) : A × Memory H A :=
  (item, linkOut m h (m.item item).prev (m.item item).next item)

end Code

/-! ### Sequences -/

/-- Put `item` right behind `q`. -/
def placedBehind [DecidableEq A] (q item : A) : List A → List A
  | [] => []
  | a :: l => if a = q then a :: item :: l else a :: placedBehind q item l

/-- Put `item` right behind `prev`, or at the front. -/
def placed [DecidableEq A] (prev : Option A) (item : A) (l : List A) : List A :=
  match prev with
  | none => item :: l
  | some q => placedBehind q item l

variable {m m' : Memory H A} {h h' : H} {prev next : Option A} {item a q : A} {l l1 l2 : List A}

theorem placedBehind_split [DecidableEq A] (hq : q ∈ l) :
    ∃ l1 l2, l = l1 ++ l2 ∧ l1.getLast? = some q ∧
      placedBehind q item l = l1 ++ item :: l2 := by
  induction l with
  | nil => cases hq
  | cons a l ih =>
    by_cases ha : a = q
    · exact ⟨[a], l, rfl, by simp [ha], by simp [placedBehind, ha]⟩
    · have hql : q ∈ l := by simpa [Ne.symm ha] using hq
      obtain ⟨l1, l2, rfl, hlast, hl⟩ := ih hql
      refine ⟨a :: l1, l2, rfl, ?_, by simp [placedBehind, ha, hl]⟩
      cases l1 with
      | nil => cases hlast
      | cons b l1 => rwa [List.getLast?_cons_cons]

theorem placed_split [DecidableEq A] (item : A) (hprev : ∀ q ∈ prev, q ∈ l) :
    ∃ l1 l2, l = l1 ++ l2 ∧ l1.getLast? = prev ∧ placed prev item l = l1 ++ item :: l2 := by
  cases prev with
  | none => exact ⟨[], l, rfl, rfl, rfl⟩
  | some q => exact placedBehind_split (hprev q rfl)

theorem placed_last [DecidableEq A] (hnd : l.Nodup) :
    placed l.getLast? item l = l ++ [item] := by
  induction l with
  | nil => rfl
  | cons a l ih =>
    obtain ⟨ha, hnd⟩ := List.nodup_cons.mp hnd
    cases l with
    | nil => simp [placed, placedBehind]
    | cons b l =>
      rw [List.getLast?_cons_cons]
      cases hq : (b :: l).getLast? with
      | none => simp at hq
      | some q =>
        have hqa : a ≠ q := fun he => ha (he ▸ List.mem_of_getLast? hq)
        have hl := ih hnd
        rw [hq, placed] at hl
        rw [placed, placedBehind, if_neg hqa, hl]
        rfl

/-! ### Well-formed lists -/

/-- The list of the head `h` consists of the items `l`. -/
structure IsList (m : Memory H A) (h : H) (l : List A) : Prop where
  links : BothWays (fun a => (m.item a).next) (fun a => (m.item a).prev) (m.head h).first
    (m.head h).last l
  size : (m.head h).size = toInt l.length

/-- The item and its two neighbours are three different items. -/
structure Apart (prev next : Option A) (item : A) : Prop where
  notPrev : item ∉ prev
  notNext : item ∉ next
  differ : ∀ q ∈ prev, q ∉ next

theorem Apart.of_nodup (hnd : (l1 ++ l2).Nodup) (hn : item ∉ l1 ++ l2) :
    Apart l1.getLast? l2.head? item where
  notPrev := fun hi => hn (List.mem_append_left _ (List.mem_of_getLast? hi))
  notNext := fun hi => hn (List.mem_append_right _ (List.mem_of_head? hi))
  differ := fun q h1 h2 => (List.nodup_append.mp hnd).2.2 q (List.mem_of_getLast? h1) q
    (List.mem_of_head? h2) rfl

namespace IsList

theorem nodup (hl : IsList m h l) : l.Nodup := hl.links.nodup

/-- The head of an empty list is as `List_init` leaves it. -/
theorem head_nil (hl : IsList m h []) : m.head h = ⟨none, none, 0⟩ :=
  ListHead.ext hl.links.first_eq hl.links.last_eq (by simp [hl.size, toInt])

theorem next_of_last (hl : IsList m h (l1 ++ l2)) (ha : l1.getLast? = some a) :
    (m.item a).next = l2.head? := by
  obtain ⟨l1, rfl⟩ := List.getLast?_eq_some_iff.mp ha
  rw [List.append_assoc, List.singleton_append] at hl
  exact hl.links.next

theorem prev_of_head (hl : IsList m h (l1 ++ l2)) (ha : l2.head? = some a) :
    (m.item a).prev = l1.getLast? := by
  obtain ⟨l2, rfl⟩ := List.head?_eq_some_iff.mp ha
  exact hl.links.prev

/-- What `List_insert` finds behind the items `l1`. -/
theorem following_eq (hl : IsList m h (l1 ++ l2)) : following m h l1.getLast? = l2.head? := by
  cases hq : l1.getLast? with
  | none =>
    rw [List.getLast?_eq_none_iff] at hq
    subst hq
    exact hl.links.first_eq
  | some q => exact hl.next_of_last hq

/-- The memory differs only where no item of the list is. -/
theorem congr (hl : IsList m h l) (hhead : m'.head h = m.head h)
    (hitem : ∀ a ∈ l, m'.item a = m.item a) : IsList m' h l := by
  refine ⟨?_, hhead ▸ hl.size⟩
  rw [hhead]
  exact hl.links.congr (fun a ha => by rw [hitem a ha]) fun a ha => by rw [hitem a ha]

theorem findFrom [DecidableEq A] {fuel : ℕ} {o : Option A}
    (hp : Path (fun a => (m.item a).next) o l none)
    (hf : l.length < fuel) :
    findFrom m item fuel o = .ok (if item ∈ l then some item else none) := by
  induction l generalizing fuel o with
  | nil =>
    obtain ⟨fuel, rfl⟩ := Nat.exists_eq_succ_of_ne_zero (Nat.ne_zero_of_lt hf)
    obtain rfl : o = none := hp
    rfl
  | cons a l ih =>
    obtain ⟨fuel, rfl⟩ := Nat.exists_eq_succ_of_ne_zero (Nat.ne_zero_of_lt hf)
    obtain ⟨rfl, hp⟩ := hp
    rw [LinkedList.findFrom]
    by_cases ha : a = item
    · simp [ha]
    · rw [if_neg ha, ih hp (Nat.lt_of_succ_lt_succ hf)]
      simp [Ne.symm ha]

/-- The scan of `List_find` ends. -/
theorem listFind [DecidableEq A] {fuel : ℕ} (hl : IsList m h l) (hf : l.length < fuel) :
    listFind fuel m h item = .ok (if item ∈ l then some item else none) :=
  findFrom hl.links.forth hf

end IsList

/-! ### Insertion and removal -/

section Code
variable [DecidableEq H] [DecidableEq A]

theorem linkIn_head (k : H) : (linkIn m h prev next item).head k =
    if k = h then ⟨if prev = none then some item else (m.head h).first,
      if next = none then some item else (m.head h).last, toInt ((m.head h).size + 1)⟩
    else m.head k := by
  by_cases hk : k = h
  · subst hk
    cases prev <;> cases next <;> simp [linkIn]
  · cases prev <;> cases next <;> simp [linkIn, hk]

theorem linkOut_head (k : H) : (linkOut m h prev next item).head k =
    if k = h then ⟨if (m.head h).first = some item then next else (m.head h).first,
      if (m.head h).last = some item then prev else (m.head h).last,
      toInt ((m.head h).size - 1)⟩
    else m.head k := by
  by_cases hk : k = h
  · subst hk
    by_cases hf : (m.head k).first = some item <;> by_cases hl : (m.head k).last = some item <;>
      cases prev <;> cases next <;> simp [linkOut, hf, hl]
  · cases prev <;> cases next <;> simp [linkOut, hk]

theorem linkIn_item (hd : Apart prev next item) (hun : m.item item = ⟨none, none⟩) (a : A) :
    (linkIn m h prev next item).item a =
      if a = item then ⟨prev, next⟩
      else if some a = next then { m.item a with prev := some item }
      else if some a = prev then { m.item a with next := some item }
      else m.item a := by
  obtain ⟨hp, hn, hpn⟩ := hd
  simp only [Option.mem_def] at hp hn hpn
  cases prev <;> cases next <;>
    simp only [linkIn, Memory.modHead_item, Memory.modItem_item] <;> grind

theorem linkOut_item (hd : Apart prev next item) (a : A) :
    (linkOut m h prev next item).item a =
      if a = item then ⟨none, none⟩
      else if some a = next then { m.item a with prev := prev }
      else if some a = prev then { m.item a with next := next }
      else m.item a := by
  obtain ⟨hp, hn, hpn⟩ := hd
  simp only [Option.mem_def] at hp hn hpn
  cases prev <;> cases next <;>
    simp only [linkOut, Memory.modHead_item, Memory.modItem_item] <;> grind

theorem linkIn_next (hd : Apart prev next item) (hun : m.item item = ⟨none, none⟩) (a : A) :
    ((linkIn m h prev next item).item a).next =
      if a = item then next else if some a = prev then some item else (m.item a).next := by
  have hpn : some a = prev → some a ≠ next := fun h1 h2 => hd.differ a h1.symm h2.symm
  rw [linkIn_item hd hun]
  grind

theorem linkIn_prev (hd : Apart prev next item) (hun : m.item item = ⟨none, none⟩) (a : A) :
    ((linkIn m h prev next item).item a).prev =
      if a = item then prev else if some a = next then some item else (m.item a).prev := by
  rw [linkIn_item hd hun]
  grind

theorem linkOut_next (hd : Apart prev next item) (a : A) :
    ((linkOut m h prev next item).item a).next =
      if a = item then none else if some a = prev then next else (m.item a).next := by
  have hpn : some a = prev → some a ≠ next := fun h1 h2 => hd.differ a h1.symm h2.symm
  rw [linkOut_item hd]
  grind

theorem linkOut_prev (hd : Apart prev next item) (a : A) :
    ((linkOut m h prev next item).item a).prev =
      if a = item then none else if some a = next then prev else (m.item a).prev := by
  rw [linkOut_item hd]
  grind

namespace IsList

theorem linkIn (hl : IsList m h (l1 ++ l2)) (hn : item ∉ l1 ++ l2)
    (hun : m.item item = ⟨none, none⟩) :
    IsList (linkIn m h l1.getLast? l2.head? item) h (l1 ++ item :: l2) := by
  have hd := Apart.of_nodup hl.nodup hn
  have hne : ∀ a ∈ l1 ++ l2, a ≠ item := fun a ha he => hn (he ▸ ha)
  constructor
  case size =>
    rw [linkIn_head, if_pos rfl, hl.size, toInt_toInt_add, List.length_append,
      List.length_append, List.length_cons]
    push_cast
    rw [add_assoc]
  case links =>
    rw [linkIn_head, if_pos rfl]
    simp only [List.getLast?_eq_none_iff, List.head?_eq_none_iff, linkIn_next hd hun,
      linkIn_prev hd hun]
    apply hl.links.insert
    · simp
    · simp
    · intro q hq
      have hqi : q ≠ item := fun he => hd.notPrev (he ▸ hq)
      rw [if_neg hqi, if_pos hq.symm]
    · intro q hq
      have hqi : q ≠ item := fun he => hd.notNext (he ▸ hq)
      rw [if_neg hqi, if_pos hq.symm]
    · intro a ha hna
      rw [if_neg (hne a ha), if_neg fun he => hna he.symm]
    · intro a ha hna
      rw [if_neg (hne a ha), if_neg fun he => hna he.symm]

theorem linkOut (hl : IsList m h (l1 ++ item :: l2)) :
    IsList (linkOut m h l1.getLast? l2.head? item) h (l1 ++ l2) := by
  have hnd := List.nodup_middle.mp hl.nodup
  obtain ⟨hn, hnd'⟩ := List.nodup_cons.mp hnd
  have hd := Apart.of_nodup hnd' hn
  have hne : ∀ a ∈ l1 ++ l2, a ≠ item := fun a ha he => hn (he ▸ ha)
  have hfirst : (m.head h).first = some item ↔ l1 = [] := by
    rw [hl.links.first_eq]
    cases l1 with
    | nil => simp
    | cons a l1 => simpa using hne a (by simp)
  have hlast : (m.head h).last = some item ↔ l2 = [] := by
    rw [hl.links.last_eq, List.getLast?_append, List.getLast?_cons]
    cases hq : l2.getLast? with
    | none => simpa using List.getLast?_eq_none_iff.mp hq
    | some q =>
      have hq2 : q ∈ l2 := List.mem_of_getLast? hq
      simp [hne q (List.mem_append_right l1 hq2), List.ne_nil_of_mem hq2]
  constructor
  case size =>
    rw [linkOut_head, if_pos rfl, hl.size, toInt_toInt_sub, List.length_append,
      List.length_append, List.length_cons]
    push_cast
    congr 1
    omega
  case links =>
    rw [linkOut_head, if_pos rfl]
    simp only [hfirst, hlast, linkOut_next hd, linkOut_prev hd]
    apply hl.links.erase
    · intro q hq
      have hqi : q ≠ item := fun he => hd.notPrev (he ▸ hq)
      rw [if_neg hqi, if_pos hq.symm]
    · intro q hq
      have hqi : q ≠ item := fun he => hd.notNext (he ▸ hq)
      rw [if_neg hqi, if_pos hq.symm]
    · intro a ha hna
      rw [if_neg (hne a ha), if_neg fun he => hna he.symm]
    · intro a ha hna
      rw [if_neg (hne a ha), if_neg fun he => hna he.symm]

theorem end_restored {o e : Option A} {p : Option A} (he : o = none → e = p)
    (hne : e ≠ some item) :
    (if (if o = none then some item else e) = some item then p
      else if o = none then some item else e) = e := by
  by_cases ho : o = none
  · simp [ho, he ho]
  · simp [ho, hne]

/-- The assignments of `List_detach` undo those of `List_insert`. -/
theorem linkOut_linkIn (hl : IsList m h (l1 ++ l2)) (hn : item ∉ l1 ++ l2)
    (hun : m.item item = ⟨none, none⟩) :
    LinkedList.linkOut (LinkedList.linkIn m h l1.getLast? l2.head? item) h l1.getLast? l2.head?
      item = m := by
  have hd := Apart.of_nodup hl.nodup hn
  refine Memory.ext (funext fun k => ?_) (funext fun a => ?_)
  · rw [linkOut_head]
    by_cases hk : k = h
    · subst hk
      rw [if_pos rfl, linkIn_head, if_pos rfl]
      have hfirst := hl.links.first_eq
      have hlast := hl.links.last_eq
      have hsize : toInt (toInt ((m.head k).size + 1) - 1) = (m.head k).size := by
        rw [toInt_toInt_sub, add_sub_cancel_right, hl.size]
        simpa using toInt_toInt_add ((l1 ++ l2).length : ℤ) 0
      rw [end_restored (e := (m.head k).first), end_restored (e := (m.head k).last), hsize]
      · intro he
        rw [hlast, List.head?_eq_none_iff.mp he, List.append_nil]
      · exact fun he => hn (List.mem_of_getLast? (hlast.symm.trans he))
      · intro he
        rw [hfirst, List.getLast?_eq_none_iff.mp he, List.nil_append]
      · exact fun he => hn (List.mem_of_head? (hfirst.symm.trans he))
    · rw [if_neg hk, linkIn_head, if_neg hk]
  · rw [linkOut_item hd, linkIn_item hd hun]
    split_ifs with hai hnext hprev
    · rw [hai, hun]
    · have hp := hl.prev_of_head hnext.symm
      rw [← hp]
    · have hp := hl.next_of_last hprev.symm
      rw [← hp]
    · rfl

/-! ### The operations on a well-formed list -/

/-- The item is put in, and detaching it at once restores the memory. -/
theorem listInsert (hl : IsList m h l) (hprev : ∀ q ∈ prev, q ∈ l) (hn : item ∉ l)
    (hun : m.item item = ⟨none, none⟩) : ∃ m', listInsert m h prev item = (some item, m') ∧
      IsList m' h (placed prev item l) ∧ (∀ a ∉ l, a ≠ item → m'.item a = m.item a) ∧
      (∀ k ≠ h, m'.head k = m.head k) ∧ listDetach m' h item = (item, m) := by
  obtain ⟨l1, l2, rfl, rfl, hplaced⟩ := placed_split item hprev
  have hd := Apart.of_nodup hl.nodup hn
  refine ⟨LinkedList.linkIn m h l1.getLast? l2.head? item, ?_, ?_, ?_, ?_, ?_⟩
  · rw [LinkedList.listInsert, if_neg (by simp [hun]), hl.following_eq]
  · rw [hplaced]
    exact hl.linkIn hn hun
  · intro a ha hai
    have h1 : some a ≠ l1.getLast? := fun he =>
      ha (List.mem_append_left l2 (List.mem_of_getLast? he.symm))
    have h2 : some a ≠ l2.head? := fun he =>
      ha (List.mem_append_right l1 (List.mem_of_head? he.symm))
    rw [linkIn_item hd hun, if_neg hai, if_neg h2, if_neg h1]
  · intro k hk
    rw [linkIn_head, if_neg hk]
  · rw [LinkedList.listDetach, linkIn_item hd hun, if_pos rfl]
    exact congrArg (item, ·) (hl.linkOut_linkIn hn hun)

theorem listDetach (hl : IsList m h l) (hi : item ∈ l) : ∃ m', listDetach m h item = (item, m') ∧
    IsList m' h (l.erase item) ∧ m'.item item = ⟨none, none⟩ ∧
    (∀ a ∉ l, m'.item a = m.item a) ∧ ∀ k ≠ h, m'.head k = m.head k := by
  obtain ⟨l1, l2, rfl⟩ := List.append_of_mem hi
  obtain ⟨hn, hnd⟩ := List.nodup_cons.mp (List.nodup_middle.mp hl.nodup)
  have hd := Apart.of_nodup hnd hn
  refine ⟨LinkedList.linkOut m h l1.getLast? l2.head? item, ?_, ?_, ?_, ?_, ?_⟩
  · rw [LinkedList.listDetach, hl.links.next, hl.links.prev]
  · rw [List.erase_append_right _ fun h1 => hn (List.mem_append_left l2 h1), List.erase_cons_head]
    exact hl.linkOut
  · rw [linkOut_item hd, if_pos rfl]
  · intro a ha
    simp only [List.mem_append, List.mem_cons, not_or] at ha
    have h1 : some a ≠ l1.getLast? := fun he => ha.1 (List.mem_of_getLast? he.symm)
    have h2 : some a ≠ l2.head? := fun he => ha.2.2 (List.mem_of_head? he.symm)
    rw [linkOut_item hd, if_neg ha.2.1, if_neg h2, if_neg h1]
  · intro k hk
    rw [linkOut_head, if_neg hk]

end IsList
end Code
end DisastrOS.LinkedList
