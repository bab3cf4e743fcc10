import Mathlib.Data.List.Rotate
import DisastrOS.SleepOrder
import DisastrOS.ListSequences

/-! Calls of the scheduler while no timer elapses: the processes take turns. -/
namespace DisastrOS
open TransitionSystem LinkedList

/-! ### The lists of the kernel and their links -/

section Links
variable {H : Type*} [DecidableEq H] {m : Memory H ℕ} {k : H} {l l' : ListHead} {item : ℕ}

/-- What `listDetach` does to a list of the kernel, `List_detach` does to the links. -/
theorem listDetach_links (hm : IsList m k l.items) (hs : listDetach l item = .ok l') :
    ∃ m', LinkedList.listDetach m k item = (item, m') ∧ IsList m' k l'.items ∧
      m'.item item = ⟨none, none⟩ := by
  have hi : item ∈ l.items := by
    by_contra hn
    rw [listDetach, if_neg hn] at hs
    cases hs
  obtain ⟨m', hm', hl, hun, -⟩ := hm.listDetach hi
  rw [listDetach, if_pos hi] at hs
  exact ⟨m', hm', Except.ok.inj hs ▸ hl, hun⟩

end Links

/-! ### Turns -/

/-- The process `p` runs, and no process is in two places. -/
structure TakesTurns (s : Kernel) (p : ℕ) : Prop where
  running : s.running = some p
  nodup : (p :: (s.procs .ready).items).Nodup
  apart : ∀ b ∈ p :: (s.procs .ready).items,
    b ∉ (s.procs .waiting).items ∧ b ∉ (s.procs .zombie).items

/-- Calls of `internal_schedule` at the given times, one after the other. -/
def scheduleAll (s : Kernel) (times : List ℤ) : Except Fault Kernel :=
  times.foldlM (fun s time => internalSchedule (atTime s time)) s

/-- The lists in which no process is moved are the same. -/
structure OthersUntouched (s t : Kernel) : Prop where
  waiting : t.procs .waiting = s.procs .waiting
  zombie : t.procs .zombie = s.procs .zombie
  timers : t.timers = s.timers

/-- What `internal_schedule` does to the links of the PCBs when no timer has elapsed; the second
component is the running process. -/
def turnLinks (y : Memory ProcList ℕ × ℕ) : Memory ProcList ℕ × ℕ :=
  match (y.1.head .ready).first with
  | none => y
  | some q =>
    let m := (LinkedList.listDetach y.1 .ready q).2
    ((LinkedList.listInsert m .ready (m.head .ready).last y.2).2, q)

/-- The links of the PCBs when the lists are those of `s` and `p` runs. -/
structure LinksOf (m : Memory ProcList ℕ) (s : Kernel) (p : ℕ) : Prop where
  lists : ∀ l, IsList m l (s.procs l).items
  running : m.item p = ⟨none, none⟩

variable {s t : Kernel} {p q : ℕ} {rest : List ℕ} {m : Memory ProcList ℕ} {times : List ℤ}

theorem ProcInv.takesTurns (h : ProcInv s) (hp : s.running = some p) : TakesTurns s p := by
  have hnl := h.not_linked hp
  simp only [Kernel.Linked, not_or] at hnl
  refine ⟨hp, List.nodup_cons.mpr ⟨hnl.1, h.nodup .ready⟩, fun b hb => ?_⟩
  rcases List.mem_cons.mp hb with rfl | hb
  · exact hnl.2
  · refine ⟨fun hw => ?_, fun hz => ?_⟩
    · have := h.disjoint hb hw
      cases this
    · have := h.disjoint hb hz
      cases this

/-- One call: the first ready process runs and the one that ran is the last ready one. -/
theorem TakesTurns.schedule (h : TakesTurns s p)
    (ht : timerListCurrent s.timers s.time = none) :
    ∃ t q rest, internalSchedule s = .ok t ∧ (s.procs .ready).items ++ [p] = q :: rest ∧
      t.running = some q ∧ t.procs .ready = ⟨rest, (s.procs .ready).size⟩ ∧
      OthersUntouched s t := by
  have hwake : wakeElapsed (s.timers.list.items.length + 1) s none = .ok s := by
    rw [wakeElapsed, ht]
  cases hr : (s.procs .ready).items with
  | nil =>
    have hf : (s.procs .ready).first = none := by rw [ListHead.first, hr, List.head?_nil]
    refine ⟨s, p, [], ?_, rfl, h.running, ?_, rfl, rfl, rfl⟩
    · rw [internalSchedule, bind_ok]
      exact ⟨s, hwake, by rw [hf]⟩
    · rw [← hr]
  | cons q rest =>
    have hf : (s.procs .ready).first = some q := by rw [ListHead.first, hr, List.head?_cons]
    have hnl : p ∉ rest := by
      have hnd := h.nodup
      rw [hr] at hnd
      exact fun hm => (List.nodup_cons.mp hnd).1 (List.mem_cons_of_mem q hm)
    obtain ⟨hpw, hpz⟩ := h.apart p List.mem_cons_self
    refine ⟨rotated s p q rest, q, rest ++ [p], ?_, rfl, rfl, ?_, ?_⟩
    · rw [internalSchedule, bind_ok]
      refine ⟨s, hwake, ?_⟩
      rw [hf]
      simp only [bind_ok, Kernel.detachProc_first_ok hr, deref_ok, Kernel.insertProc_last_ok]
      refine ⟨_, rfl, p, h.running, _, ⟨?_, rfl⟩, ?_⟩
      · simp [Kernel.Linked, hnl, hpw, hpz]
      · simp [rotated]
    · simp [rotated]
    · constructor <;> simp [rotated]

theorem OthersUntouched.trans {u : Kernel} (h : OthersUntouched s t) (h' : OthersUntouched t u) :
    OthersUntouched s u :=
  ⟨h'.waiting.trans h.waiting, h'.zombie.trans h.zombie, h'.timers.trans h.timers⟩

/-- The process `q` runs and those of `rest` are ready, where before `p` ran. -/
theorem TakesTurns.next (h : TakesTurns s p) (hq : (s.procs .ready).items ++ [p] = q :: rest)
    (hrun : t.running = some q) (hready : (t.procs .ready).items = rest)
    (ho : OthersUntouched s t) : TakesTurns t q := by
  have hperm : (q :: (t.procs .ready).items).Perm (p :: (s.procs .ready).items) := by
    rw [hready, ← hq]
    exact List.perm_append_singleton p _
  refine ⟨hrun, hperm.nodup_iff.mpr h.nodup, fun b hb => ?_⟩
  rw [ho.waiting, ho.zombie]
  exact h.apart b (hperm.mem_iff.mp hb)

/-- The links after one call. -/
theorem TakesTurns.turnLinks (h : TakesTurns s p) (hm : LinksOf m s p)
    (hq : (s.procs .ready).items ++ [p] = q :: rest) (hready : (t.procs .ready).items = rest)
    (ho : OthersUntouched s t) :
    (turnLinks (m, p)).2 = q ∧ LinksOf (turnLinks (m, p)).1 t q := by
  have hl := hm.lists .ready
  have hfirst := hl.links.first_eq
  cases hr : (s.procs .ready).items with
  | nil =>
    rw [hr] at hfirst hq
    obtain ⟨rfl, rfl⟩ := List.cons.inj hq
    have hturn : DisastrOS.turnLinks (m, p) = (m, p) := by
      simp only [DisastrOS.turnLinks, hfirst, List.head?_nil]
    rw [hturn]
    refine ⟨rfl, fun l => ?_, hm.running⟩
    cases l with
    | ready => exact hready ▸ hr ▸ hl
    | waiting => exact ho.waiting ▸ hm.lists .waiting
    | zombie => exact ho.zombie ▸ hm.lists .zombie
  | cons q' rest' =>
    rw [hr] at hfirst hq hl
    obtain ⟨rfl, rfl⟩ := List.cons.inj hq
    have hnd := h.nodup
    rw [hr] at hnd
    obtain ⟨hp, hnd⟩ := List.nodup_cons.mp hnd
    obtain ⟨hq', hnd⟩ := List.nodup_cons.mp hnd
    obtain ⟨m1, hm1, hl1, hun1, hsame1, hheads1⟩ := hl.listDetach List.mem_cons_self
    rw [List.erase_cons_head] at hl1
    have hpr : p ∉ rest' := fun hpr => hp (List.mem_cons_of_mem q' hpr)
    have hlast : ∀ a ∈ rest'.getLast?, a ∈ rest' := fun a ha => List.mem_of_getLast? ha
    obtain ⟨m2, hm2, hl2, hsame2, hheads2, -⟩ :=
      hl1.listInsert hlast hpr ((hsame1 p hp).trans hm.running)
    rw [placed_last hnd] at hl2
    have hturn : DisastrOS.turnLinks (m, p) = (m2, q') := by
      simp only [DisastrOS.turnLinks, hfirst, List.head?_cons, hm1, hl1.links.last_eq, hm2]
    rw [hturn]
    -- the other lists have none of these processes
    have hother : ∀ l ≠ ProcList.ready, IsList m2 l (s.procs l).items := fun l hne => by
      refine (hm.lists l).congr ((hheads2 l hne).trans (hheads1 l hne)) fun a ha => ?_
      have hapart : a ∉ p :: (s.procs .ready).items := fun hmem => by
        obtain ⟨hw, hz⟩ := h.apart a hmem
        cases l with
        | ready => exact hne rfl
        | waiting => exact hw ha
        | zombie => exact hz ha
      rw [hr, List.mem_cons, not_or] at hapart
      rw [hsame2 a (fun har => hapart.2 (List.mem_cons_of_mem q' har)) hapart.1,
        hsame1 a hapart.2]
    refine ⟨rfl, fun l => ?_, ?_⟩
    · cases l with
      | ready => exact hready ▸ hl2
      | waiting => exact ho.waiting ▸ hother .waiting (by decide)
      | zombie => exact ho.zombie ▸ hother .zombie (by decide)
    · have hne : q' ≠ p := fun he => hp (he ▸ List.mem_cons_self)
      rw [hsame2 q' hq' hne, hun1]

/-- Any number of calls. -/
theorem TakesTurns.scheduleAll (h : TakesTurns s p)
    (ht : ∀ time ∈ times, timerListCurrent s.timers time = none) :
    ∃ t q rest, scheduleAll s times = .ok t ∧
      (p :: (s.procs .ready).items).rotate times.length = q :: rest ∧
      t.running = some q ∧ t.procs .ready = ⟨rest, (s.procs .ready).size⟩ ∧
      OthersUntouched s t ∧ ∀ m, LinksOf m s p →
        (DisastrOS.turnLinks^[times.length] (m, p)).2 = q ∧
          LinksOf (DisastrOS.turnLinks^[times.length] (m, p)).1 t q := by
  induction times generalizing s p with
  | nil =>
    exact ⟨s, p, _, rfl, List.rotate_zero _, h.running, rfl, ⟨rfl, rfl, rfl⟩, fun m hm => ⟨rfl, hm⟩⟩
  | cons time times ih =>
    have hat : TakesTurns (atTime s time) p := ⟨h.running, h.nodup, h.apart⟩
    obtain ⟨u, r, l, hu, hrl, hrun, hready, ho⟩ := hat.schedule (ht time List.mem_cons_self)
    have hou : OthersUntouched s u := ⟨ho.waiting, ho.zombie, ho.timers⟩
    have hul : (u.procs .ready).items = l := by rw [hready]
    obtain ⟨t, q, rest, hs, hrot, htrun, htready, hot, hlinks⟩ :=
      ih (h.next hrl hrun hul hou) fun time' hmem => by
        rw [hou.timers]
        exact ht time' (List.mem_cons_of_mem time hmem)
    refine ⟨t, q, rest, ?_, ?_, htrun, ?_, hou.trans hot, fun m hm => ?_⟩
    · exact bind_ok.mpr ⟨u, hu, hs⟩
    · rw [List.length_cons, List.rotate_cons_succ, ← hrot, hul]
      exact congrArg (List.rotate · times.length) hrl
    · rw [htready, hready]
      rfl
    · obtain ⟨h2, hm1⟩ := h.turnLinks hm hrl hul hou
      have hpair : DisastrOS.turnLinks (m, p) = ((DisastrOS.turnLinks (m, p)).1, r) :=
        Prod.ext rfl h2
      rw [List.length_cons, Function.iterate_succ_apply, hpair]
      exact hlinks _ hm1

/-- While no timer elapses, as many calls of the scheduler as there are processes that run or are
ready make each of them run once, in the order of the ready list and the one that ran last, and
end where they began. -/
theorem preemption_rotates (h : TakesTurns s p)
    (ht : ∀ time ∈ times, timerListCurrent s.timers time = none)
    (hn : times.length = (s.procs .ready).items.length + 1) :
    (∀ k ≤ (s.procs .ready).items.length, ∃ t, scheduleAll s (times.take (k + 1)) = .ok t ∧
      t.running = ((s.procs .ready).items ++ [p])[k]? ∧ OthersUntouched s t) ∧
    ((s.procs .ready).items ++ [p]).Nodup ∧
    (∃ t, scheduleAll s times = .ok t ∧ t.running = some p ∧ t.procs .ready = s.procs .ready ∧
      OthersUntouched s t) ∧
    ∀ m, LinksOf m s p → (turnLinks^[times.length] (m, p)).2 = p ∧
      LinksOf (turnLinks^[times.length] (m, p)).1 s p := by
  refine ⟨fun k hk => ?_, ?_, ?_⟩
  · have htake : ∀ time ∈ times.take (k + 1), timerListCurrent s.timers time = none :=
      fun time hmem => ht time (List.mem_of_mem_take hmem)
    obtain ⟨t, q, rest, hs, hrot, hrun, -, ho, -⟩ := h.scheduleAll htake
    refine ⟨t, hs, ?_, ho⟩
    have hlen : (times.take (k + 1)).length = k + 1 := by
      rw [List.length_take]
      omega
    rw [hlen, List.rotate_cons_succ] at hrot
    rw [hrun, ← List.head?_rotate (by simpa using Nat.lt_succ_of_le hk), hrot, List.head?_cons]
  · exact (List.perm_append_singleton p _).nodup_iff.mpr h.nodup
  · obtain ⟨t, q, rest, hs, hrot, hrun, hready, ho, hlinks⟩ := h.scheduleAll ht
    have hlen : times.length = (p :: (s.procs .ready).items).length := hn
    rw [hlen, List.rotate_length] at hrot
    obtain ⟨rfl, rfl⟩ := List.cons.inj hrot
    refine ⟨⟨t, hs, hrun, hready, ho⟩, fun m hm => ?_⟩
    obtain ⟨h2, hl⟩ := hlinks m hm
    refine ⟨h2, fun l => ?_, hl.running⟩
    have hsame : t.procs l = s.procs l := by
      cases l with
      | ready => exact hready
      | waiting => exact ho.waiting
      | zombie => exact ho.zombie
    exact hsame ▸ hl.lists l

/-- Two children take turns with the first process. -/
theorem preemption_rotates_three :
    let s := kernel.replay [.syscall dsosCallSpawn [0, 0], .syscall dsosCallSpawn [0, 0]]
    (s.procs .ready).items = [1, 2] ∧ ∃ t, scheduleAll s [0, 0, 0] = .ok t ∧
      t.running = some 0 ∧ t.procs .ready = s.procs .ready ∧ OthersUntouched s t := by
  intro s
  have h : TakesTurns s 0 := (ProcInv.reachable (System.reachable_replay _)).takesTurns
    (by decide +kernel)
  have ht : ∀ time ∈ ([0, 0, 0] : List ℤ), timerListCurrent s.timers time = none := by
    decide +kernel
  exact ⟨by decide +kernel, (preemption_rotates h ht (by decide +kernel)).2.2.1⟩

end DisastrOS
