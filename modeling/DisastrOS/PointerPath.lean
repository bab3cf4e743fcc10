import Mathlib.Logic.Basic
import Mathlib.Data.List.Basic

/-! Paths along a pointer that each node of a heap holds: what a path visits, that it visits it
once, and how the path changes when a node is put in or taken out. -/
namespace PointerPath

variable {α : Type*} {f g : α → Option α} {o p r : Option α} {a b : α} {l l1 l2 : List α}

/-- The pointer `o` leads along `f` through the nodes `l` to the pointer `p`. -/
def Path (f : α → Option α) (o : Option α) : List α → Option α → Prop
  | [], p => o = p
  | a :: l, p => o = some a ∧ Path f (f a) l p

@[simp] theorem path_nil : Path f o [] p ↔ o = p := Iff.rfl

@[simp] theorem path_cons : Path f o (a :: l) p ↔ o = some a ∧ Path f (f a) l p := Iff.rfl

namespace Path

theorem congr (h : Path f o l p) (hfg : ∀ a ∈ l, g a = f a) : Path g o l p := by
  induction l generalizing o with
  | nil => exact h
  | cons a l ih =>
    obtain ⟨rfl, h⟩ := h
    refine ⟨rfl, ?_⟩
    rw [hfg a List.mem_cons_self]
    exact ih h fun b hb => hfg b (List.mem_cons_of_mem a hb)

/-- A path to the null pointer starts at its first node. -/
theorem start (h : Path f o l none) : o = l.head? := by
  cases l with
  | nil => exact h
  | cons a l => exact h.1

theorem append : Path f o (l1 ++ l2) p ↔ ∃ r, Path f o l1 r ∧ Path f r l2 p := by
  induction l1 generalizing o with
  | nil => simp
  | cons a l1 ih =>
    simp only [List.cons_append, path_cons, ih]
    constructor
    · rintro ⟨rfl, r, h1, h2⟩
      exact ⟨r, ⟨rfl, h1⟩, h2⟩
    · rintro ⟨r, ⟨rfl, h1⟩, h2⟩
      exact ⟨rfl, r, h1, h2⟩

/-- The nodes of a path to the null pointer are determined by where it starts. -/
theorem unique {l' : List α} (h : Path f o l none) (h' : Path f o l' none) : l = l' := by
  induction l generalizing o l' with
  | nil =>
    obtain rfl : o = none := h
    cases l' with
    | nil => rfl
    | cons b l' => cases h'.1
  | cons a l ih =>
    obtain ⟨rfl, h⟩ := h
    cases l' with
    | nil => cases h'
    | cons b l' =>
      obtain ⟨hb, h'⟩ := h'
      obtain rfl := Option.some.inj hb
      rw [ih h h']

/-- A path to the null pointer does not come back to a node. -/
theorem nodup (h : Path f o l none) : l.Nodup := by
  induction l generalizing o with
  | nil => exact List.nodup_nil
  | cons a l ih =>
    refine List.nodup_cons.mpr ⟨fun ha => ?_, ih h.2⟩
    obtain ⟨x, y, rfl⟩ := List.append_of_mem ha
    obtain ⟨r, -, hr⟩ := append.mp h.2
    -- the path from the second visit of the node on is the one from the first
    have hy : x ++ a :: y = y := unique h.2 hr.2
    have := congrArg List.length hy
    simp at this
    omega

/-- What a node of a path points to. -/
theorem next (h : Path f o (l1 ++ a :: l2) none) : f a = l2.head? := by
  obtain ⟨r, -, h⟩ := append.mp h
  exact h.2.start

/-- What comes behind `l1` is replaced: the last node of `l1` points to the new rest. -/
theorem splice {l' : List α} (h : Path f o l1 p) (hnd : l1.Nodup) (h' : Path g r l' none)
    (hlast : ∀ q ∈ l1.getLast?, g q = r) (hsame : ∀ a ∈ l1, a ∉ l1.getLast? → g a = f a) :
    Path g (if l1 = [] then r else o) (l1 ++ l') none := by
  induction l1 generalizing o with
  | nil => exact h'
  | cons a l1 ih =>
    obtain ⟨ha, hnd⟩ := List.nodup_cons.mp hnd
    obtain ⟨rfl, h⟩ := h
    refine ⟨rfl, ?_⟩
    cases l1 with
    | nil =>
      rw [hlast a rfl]
      exact h'
    | cons a' l1 =>
      rw [List.getLast?_cons_cons] at hlast hsame
      rw [hsame a List.mem_cons_self fun hl => ha (List.mem_of_getLast? hl)]
      exact ih h hnd hlast fun c hc => hsame c (List.mem_cons_of_mem a hc)

/-- A node is put in behind `l1`. -/
theorem insert (h : Path f o (l1 ++ l2) none) (hb : g b = l2.head?)
    (hlast : ∀ q ∈ l1.getLast?, g q = some b)
    (hsame : ∀ a ∈ l1 ++ l2, a ∉ l1.getLast? → g a = f a) :
    Path g (if l1 = [] then some b else o) (l1 ++ b :: l2) none := by
  obtain ⟨hnd1, -, hdis⟩ := List.nodup_append.mp h.nodup
  obtain ⟨r, h1, h2⟩ := append.mp h
  refine h1.splice hnd1 ⟨rfl, ?_⟩ hlast fun a ha => hsame a (List.mem_append_left _ ha)
  rw [hb, ← h2.start]
  refine h2.congr fun a ha => hsame a (List.mem_append_right _ ha) fun hl => ?_
  exact hdis a (List.mem_of_getLast? hl) a ha rfl

/-- The node behind `l1` is taken out. -/
theorem erase (h : Path f o (l1 ++ b :: l2) none) (hlast : ∀ q ∈ l1.getLast?, g q = l2.head?)
    (hsame : ∀ a ∈ l1 ++ l2, a ∉ l1.getLast? → g a = f a) :
    Path g (if l1 = [] then l2.head? else o) (l1 ++ l2) none := by
  obtain ⟨hnd1, -, hdis⟩ := List.nodup_append.mp h.nodup
  obtain ⟨r, h1, -, h2⟩ := append.mp h
  refine h1.splice hnd1 ?_ hlast fun a ha => hsame a (List.mem_append_left _ ha)
  rw [← h2.start]
  refine h2.congr fun a ha => hsame a (List.mem_append_right _ ha) fun hl => ?_
  exact hdis a (List.mem_of_getLast? hl) a (List.mem_cons_of_mem b ha) rfl

end Path

/-- A path there along `f` and back along `g`. -/
structure BothWays (f g : α → Option α) (first last : Option α) (l : List α) : Prop where
  forth : Path f first l none
  back : Path g last l.reverse none

namespace BothWays
variable {first last : Option α} {f' g' : α → Option α}

theorem nodup (h : BothWays f g first last l) : l.Nodup := h.forth.nodup

theorem first_eq (h : BothWays f g first last l) : first = l.head? := h.forth.start

theorem last_eq (h : BothWays f g first last l) : last = l.getLast? := by
  rw [h.back.start, List.head?_reverse]

theorem next (h : BothWays f g first last (l1 ++ a :: l2)) : f a = l2.head? := h.forth.next

theorem prev (h : BothWays f g first last (l1 ++ a :: l2)) : g a = l1.getLast? := by
  have hb := h.back
  rw [List.reverse_append, List.reverse_cons, List.append_assoc, List.singleton_append] at hb
  rw [hb.next, List.head?_reverse]

theorem congr (h : BothWays f g first last l) (hf : ∀ a ∈ l, f' a = f a)
    (hg : ∀ a ∈ l, g' a = g a) : BothWays f' g' first last l :=
  ⟨h.forth.congr hf, h.back.congr fun a ha => hg a (List.mem_reverse.mp ha)⟩

theorem insert (h : BothWays f g first last (l1 ++ l2)) (hfb : f' b = l2.head?)
    (hgb : g' b = l1.getLast?) (hflast : ∀ q ∈ l1.getLast?, f' q = some b)
    (hghead : ∀ q ∈ l2.head?, g' q = some b)
    (hf : ∀ a ∈ l1 ++ l2, a ∉ l1.getLast? → f' a = f a)
    (hg : ∀ a ∈ l1 ++ l2, a ∉ l2.head? → g' a = g a) :
    BothWays f' g' (if l1 = [] then some b else first) (if l2 = [] then some b else last)
      (l1 ++ b :: l2) := by
  refine ⟨h.forth.insert hfb hflast hf, ?_⟩
  have hb := h.back
  rw [List.reverse_append] at hb
  have := hb.insert (b := b) (g := g') (by rw [hgb, List.head?_reverse])
    (by rwa [List.getLast?_reverse])
    fun a ha hn => hg a (by rw [← List.reverse_append, List.mem_reverse] at ha; exact ha)
      (by rwa [List.getLast?_reverse] at hn)
  simpa using this

theorem erase (h : BothWays f g first last (l1 ++ b :: l2))
    (hflast : ∀ q ∈ l1.getLast?, f' q = l2.head?) (hghead : ∀ q ∈ l2.head?, g' q = l1.getLast?)
    (hf : ∀ a ∈ l1 ++ l2, a ∉ l1.getLast? → f' a = f a)
    (hg : ∀ a ∈ l1 ++ l2, a ∉ l2.head? → g' a = g a) :
    BothWays f' g' (if l1 = [] then l2.head? else first) (if l2 = [] then l1.getLast? else last)
      (l1 ++ l2) := by
  refine ⟨h.forth.erase hflast hf, ?_⟩
  have hb := h.back
  rw [List.reverse_append, List.reverse_cons, List.append_assoc, List.singleton_append] at hb
  have := hb.erase (g := g') (by rwa [List.getLast?_reverse, List.head?_reverse])
    fun a ha hn => hg a (by rw [← List.reverse_append, List.mem_reverse] at ha; exact ha)
      (by rwa [List.getLast?_reverse] at hn)
  simpa using this

end BothWays
end PointerPath
