import DisastrOS.BufferLedger
import DisastrOS.CircularBuffer

/-! Which slots of the buffer the processes use: around the buffer, one after the other. -/
namespace DisastrOS
open BlockPool TransitionSystem

variable {w w' : World} {p m : ℕ} {th th' : Thread} {r r' : Role}

/-! ### Slots -/

/-- The slots of the first `m` items. -/
def circular (m : ℕ) : List ℤ :=
  (CircularBuffer.slots bufferLength.toNat m).map fun j : ℕ => (j : ℤ)

theorem circular_succ (m : ℕ) : circular (m + 1) = circular m ++ [(m : ℤ) % bufferLength] := by
  rw [circular, CircularBuffer.slots_succ, List.map_append]
  rfl

theorem count_circular (m j : ℕ) : (circular m).count ((j : ℤ) % bufferLength) =
    (CircularBuffer.slots bufferLength.toNat m).count (j % bufferLength.toNat) :=
  List.count_map_of_injective _ _ Nat.cast_injective (j % bufferLength.toNat)

theorem circular_prefix {c : ℕ} (h : c ≤ m) : circular c <+: circular m :=
  (CircularBuffer.slots_prefix h).map _

/-- The line comes between the use of the slot and the write of the next index. -/
def Line.updates : Line → Bool
  | .advance | .writeIndex => true
  | _ => false

/-- What a process that has come to the line has in `n`, if the index is `index` and `m` slots
have been used. -/
def ReadIndex (m : ℕ) (index : ℤ) : Line → ℤ → Prop
  | .store, n => n = index
  | .advance, n => ∃ j : ℕ, m = j + 1 ∧ n = (j : ℤ) % bufferLength
  | .writeIndex, n => ∃ j : ℕ, m = j + 1 ∧ n = (j : ℤ) % bufferLength + 1
  | _, _ => True

namespace World

/-- The processes of role `r` use the slots around the buffer. -/
structure Indexed (w : World) (r : Role) : Prop where
  slots : w.slots r = circular (w.slots r).length
  index : (∀ p th, w.thread p = some th → th.role = r → th.line.updates = false) →
    r.function.index w.data = ((w.slots r).length : ℤ) % bufferLength
  reads : ∀ p th, w.thread p = some th → th.role = r →
    ReadIndex (w.slots r).length (r.function.index w.data) th.line th.n

end World

theorem readIndex_of_not_holds {n index : ℤ} {l : Line} (h : l.holds .me = false) :
    ReadIndex m index l n := by
  cases l with
  | store | advance | writeIndex => cases h
  | _ => trivial

theorem holds_of_updates {l : Line} (h : l.updates = true) : l.holds .me = true := by
  cases l with
  | advance | writeIndex => rfl
  | _ => cases h

theorem index_setIndex (r : Role) (cd : ChildData) (n : ℤ) :
    r.function.index (r.function.setIndex cd n) = n := by
  cases r <;> rfl

theorem index_setIndex_of_ne (h : r ≠ r') (cd : ChildData) (n : ℤ) :
    r.function.index (r'.function.setIndex cd n) = r.function.index cd := by
  revert h
  cases r <;> cases r' <;> simp [Role.function, prodFunction, consFunction]

theorem index_cBuffer (r : Role) (cd : ChildData) (c : ℤ → ℤ) :
    r.function.index { cd with cBuffer := c } = r.function.index cd := by
  cases r <;> rfl

/-- A process that goes on reads the index and moves it on. -/
theorem readIndex_goesOn (hgoes : GoesOn w th th')
    (hold : ReadIndex m (th.role.function.index w.data) th.line th.n) :
    ReadIndex m (th.role.function.index w.data) th'.line th'.n := by
  obtain ⟨-, -, hnext, -, hread, hadvance, -⟩ := hgoes
  generalize th.line = l at *
  generalize th'.line = l' at *
  cases hnext with
  | read => exact hread rfl
  | advanced =>
    obtain ⟨j, hj, hn⟩ := hold
    refine ⟨j, hj, ?_⟩
    rw [hadvance rfl, hn]
    unfold bufferLength
    exact Int.bmod_eq_of_le (by omega) (by omega)
  | _ => trivial

namespace World.Indexed

/-- The process `p` does not use the index of `r`. -/
theorem calm (h : w.Indexed r) (hindex : r.function.index w'.data = r.function.index w.data)
    (hslots : w'.slots r = w.slots r) (hthread : ∀ q, q ≠ p → w'.thread q = w.thread q)
    (hold : ∀ th, w.thread p = some th → th.role = r → th.line.updates = false)
    (hnew : ∀ th, w'.thread p = some th → th.role = r → th.line.holds .me = false ∨
      ReadIndex (w.slots r).length (r.function.index w.data) th.line th.n) : w'.Indexed r := by
  refine ⟨by rw [hslots]; exact h.slots, fun hidle => ?_, fun q th hq hr => ?_⟩
  · rw [hindex, hslots]
    refine h.index fun q th hq hr => ?_
    by_cases hqp : q = p
    · subst hqp
      exact hold th hq hr
    · exact hidle q th ((hthread q hqp).trans hq) hr
  · rw [hindex, hslots]
    by_cases hqp : q = p
    · subst hqp
      exact (hnew th hq hr).elim readIndex_of_not_holds id
    · exact h.reads q th ((hthread q hqp).symm.trans hq) hr

/-- A line of `p` that uses neither the data nor the slots. -/
theorem goesOn (h : w.Indexed r) (hth : w.thread p = some th) (hgoes : GoesOn w th th') :
    (w.setThread p (some th')).Indexed r := by
  have hrole := hgoes.role
  have hnext := hgoes.next
  refine ⟨h.slots, fun hidle => ?_, fun q tq hq hr => ?_⟩
  · refine h.index fun q tq hq hr => ?_
    by_cases hqp : q = p
    · subst hqp
      obtain rfl : th = tq := Option.some.inj (hth.symm.trans hq)
      have hnew := hidle q th' (setThread_self w q _) (hrole.trans hr)
      generalize th.line = l at *
      generalize th'.line = l' at *
      cases hnext <;> simp [Line.updates] at hnew ⊢
    · exact hidle q tq ((setThread_of_ne w _ hqp).trans hq) hr
  · by_cases hqp : q = p
    · subst hqp
      obtain rfl : th' = tq := Option.some.inj ((setThread_self w q _).symm.trans hq)
      obtain rfl : th.role = r := hrole.symm.trans hr
      have hreads := readIndex_goesOn hgoes (h.reads q th hth rfl)
      exact hreads
    · exact h.reads q tq ((setThread_of_ne w _ hqp).symm.trans hq) hr

/-- Who is to use a slot has the next one, if nobody else of its role is there. -/
theorem slot_eq (h : w.Indexed th.role) (hth : w.thread p = some th) (hline : th.line = .store)
    (hexcl : ∀ q tq, w.thread q = some tq → tq.role = th.role → tq.line.holds .me = true → q = p) :
    th.n = ((w.slots th.role).length : ℤ) % bufferLength := by
  have hread := h.reads p th hth rfl
  rw [hline] at hread
  refine hread.trans (h.index fun q tq hq hr => ?_)
  by_contra hup
  obtain rfl := hexcl q tq hq hr (holds_of_updates (by simpa using hup))
  obtain rfl : th = tq := Option.some.inj (hth.symm.trans hq)
  simp [hline, Line.updates] at hup

/-- The process `p` has used the slot of its index. -/
theorem stores (h : w.Indexed th.role) (hth : w.thread p = some th) (hline : th.line = .store)
    (hexcl : ∀ q tq, w.thread q = some tq → tq.role = th.role → tq.line.holds .me = true → q = p) :
    ((w.stored p th).setThread p (some (th.at .advance))).Indexed th.role := by
  have hn := h.slot_eq hth hline hexcl
  have hslots : (w.stored p th).slots th.role = w.slots th.role ++ [th.n] := by simp [stored]
  refine ⟨?_, fun hidle => ?_, fun q tq hq hr => ?_⟩
  · rw [setThread_slots, hslots, List.length_append, List.length_singleton, circular_succ,
      ← h.slots, hn]
  · have hup := hidle p _ (setThread_self _ p _) rfl
    cases hup
  · by_cases hqp : q = p
    · subst hqp
      obtain rfl := Option.some.inj ((setThread_self _ q _).symm.trans hq)
      rw [setThread_slots, hslots, List.length_append, List.length_singleton]
      exact ⟨_, rfl, hn⟩
    · rw [setThread_of_ne _ _ hqp] at hq
      refine readIndex_of_not_holds ?_
      by_contra hholds
      exact hqp (hexcl q tq hq hr (by simpa using hholds))

/-- The process `p` writes the next index. -/
theorem writes (h : w.Indexed th.role) (hth : w.thread p = some th) (hline : th.line = .writeIndex)
    (hexcl : ∀ q tq, w.thread q = some tq → tq.role = th.role → tq.line.holds .me = true → q = p) :
    ((w.indexed th).setThread p (some (th.at (.post .me)))).Indexed th.role := by
  have hread := h.reads p th hth rfl
  rw [hline] at hread
  obtain ⟨j, hj, hn⟩ := hread
  refine ⟨h.slots, fun _ => ?_, fun q tq hq hr => ?_⟩
  · rw [setThread_data, indexed, index_setIndex]
    change th.n.tmod bufferLength = ((w.slots th.role).length : ℤ) % bufferLength
    rw [hj, hn]
    unfold bufferLength
    rw [Int.tmod_eq_emod_of_nonneg (by omega)]
    omega
  · by_cases hqp : q = p
    · subst hqp
      obtain rfl := Option.some.inj ((setThread_self _ q _).symm.trans hq)
      trivial
    · rw [setThread_of_ne _ _ hqp] at hq
      refine readIndex_of_not_holds ?_
      by_contra hholds
      exact hqp (hexcl q tq hq hr (by simpa using hholds))

end World.Indexed

end DisastrOS
