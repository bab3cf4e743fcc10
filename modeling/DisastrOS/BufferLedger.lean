import Mathlib.Algebra.BigOperators.Group.Finset.Piecewise
import Mathlib.Algebra.Order.BigOperators.Group.Finset
import DisastrOS.ProducerConsumer

/-! What the producers and the consumers have in their hands of the four semaphores: no more than
the semaphores have given out. -/
namespace DisastrOS
open BlockPool TransitionSystem

variable {k k' : Kernel} {w w' : World} {p q b : ℕ} {th th' : Thread} {o : Option Thread}
  {r r' : Role} {g g' : Gate} {v : FdName} {fails : Bool}

/-- The block of the semaphore that a variable of a process of role `r` stands for. -/
def FdName.sem (r : Role) : FdName → ℕ
  | .fill => 0
  | .empty => 1
  | .me =>
    match r with
    | .prod => 2
    | .cons => 3

/-- The semaphore for which the processes of role `r` wait. -/
def Role.sem (r : Role) (g : Gate) : ℕ := (r.function.waitFd g).sem r

/-- The role whose processes wait for the semaphore that `r` posts. -/
def Role.lets (r : Role) : Gate → Role
  | .item => r.other
  | .me => r

theorem postFd_sem (r : Role) (g : Gate) : (r.function.postFd g).sem r = (r.lets g).sem g := by
  cases r <;> cases g <;> rfl

theorem sem_inj (h : r.sem g = r'.sem g') : r = r' ∧ g = g' := by
  revert h
  cases r <;> cases g <;> cases r' <;> cases g' <;> decide

theorem fdName_sem_lt (v : FdName) (r : Role) : v.sem r < 4 := by
  cases v <;> cases r <;> decide

theorem Role.other_ne (r : Role) : r.other ≠ r := by cases r <;> decide

theorem Role.eq_other (h : r ≠ r') : r = r'.other := by
  revert h
  cases r <;> cases r' <;> decide

/-! ### Tokens in the hands of the processes -/

/-- A process that has come to this line has the token of the gate. -/
def Line.holds : Gate → Line → Bool
  | .item, .wait .me | .item, .waited .me | .item, .readIndex | .item, .store => true
  | .me, .readIndex | .me, .store | .me, .advance | .me, .writeIndex | .me, .post .me => true
  | _, _ => false

/-- A process that has come to this line has used its item and not posted that yet. -/
def Line.owes : Line → Bool
  | .advance | .writeIndex | .post .me | .posted .me | .post .item => true
  | _ => false

/-- The wait at the gate has been granted, and has not returned an error. -/
def Granted (k : Kernel) (p : ℕ) (th : Thread) (g : Gate) : Prop :=
  th.line = .waited g ∧ p ∉ waiters k (th.role.sem g) ∧ th.ret.getD 0 = 0

instance (k : Kernel) (p : ℕ) (th : Thread) (g : Gate) : Decidable (Granted k p th g) :=
  inferInstanceAs (Decidable (_ ∧ _))

def Holds (k : Kernel) (p : ℕ) (th : Thread) (g : Gate) : Prop :=
  th.line.holds g = true ∨ Granted k p th g

instance (k : Kernel) (p : ℕ) (th : Thread) (g : Gate) : Decidable (Holds k p th g) :=
  inferInstanceAs (Decidable (_ ∨ _))

/-- How many tokens of the semaphore of `r` at `g` the process has. An item that the other role
has used and not posted yet is one. -/
def tokens (k : Kernel) (r : Role) (g : Gate) (p : ℕ) : Option Thread → ℕ
  | none => 0
  | some th =>
    if th.role = r then if Holds k p th g then 1 else 0
    else if g = .item ∧ th.line.owes = true then 1 else 0

namespace World

def value (w : World) (r : Role) (g : Gate) : ℤ := max (count w.kernel (r.sem g)) 0

def inHands (w : World) (r : Role) (g : Gate) : ℕ :=
  ∑ p ∈ Finset.range maxNumProcesses, tokens w.kernel r g p (w.thread p)

/-- The tokens that are used up. -/
def used (w : World) (r : Role) : Gate → ℕ
  | .item => (w.slots r).length
  | .me => 0

/-- The tokens that there have been. -/
def given (w : World) (r : Role) : Gate → ℤ
  | .item => (match r with | .prod => bufferLength | .cons => 0) + (w.slots r.other).length
  | .me => 1

/-- No token has been made out of nothing. -/
def Balanced (w : World) : Prop :=
  ∀ r g, w.value r g + w.inHands r g + w.used r g ≤ w.given r g

end World

/-- A sum over the processes in which `p` loses `c` and `b` gets `d`. -/
theorem sum_moves {N p b c d : ℕ} {f f' : ℕ → ℕ} (hp : p < N)
    (h : ∀ q, f' q + (if q = p then c else 0) ≤ f q + if q = b then d else 0) :
    ∑ q ∈ Finset.range N, f' q + c ≤ ∑ q ∈ Finset.range N, f q + d := by
  have hsum := Finset.sum_le_sum fun q (_ : q ∈ Finset.range N) => h q
  rw [Finset.sum_add_distrib, Finset.sum_add_distrib, Finset.sum_ite_eq', Finset.sum_ite_eq',
    if_pos (Finset.mem_range.mpr hp)] at hsum
  split_ifs at hsum
  · exact hsum
  · omega

theorem tokens_own (hr : th.role = r) :
    tokens k r g p (some th) = if Holds k p th g then 1 else 0 := if_pos hr

theorem tokens_other (hr : th.role ≠ r) :
    tokens k r g p (some th) = if g = .item ∧ th.line.owes = true then 1 else 0 := if_neg hr

/-- What a process has in its hands depends on the semaphore only. -/
theorem tokens_congr (h : (p ∈ waiters k' (r.sem g) ↔ p ∈ waiters k (r.sem g)))
    (o : Option Thread) : tokens k' r g p o = tokens k r g p o := by
  cases o with
  | none => rfl
  | some th =>
    by_cases hr : th.role = r
    · have hholds : Holds k' p th g ↔ Holds k p th g := by
        unfold Holds Granted
        rw [hr, h]
      simp only [tokens_own hr, hholds]
    · rw [tokens_other hr, tokens_other hr]

theorem tokens_same (h : SameSem k k' (r.sem g)) (p : ℕ) (o : Option Thread) :
    tokens k' r g p o = tokens k r g p o := tokens_congr (by rw [h.waiters]) o

namespace World

theorem value_same (h : SameSem w.kernel w'.kernel (r.sem g)) : w'.value r g = w.value r g := by
  rw [value, value, count, h.count, count]

/-- Only `p` changes what it has in its hands. -/
theorem inHands_le {c d : ℕ} (hp : p < maxNumProcesses)
    (hthread : ∀ q, q ≠ p → w'.thread q = w.thread q)
    (hwait : ∀ q, q ≠ p → (q ∈ waiters w'.kernel (r.sem g) ↔ q ∈ waiters w.kernel (r.sem g)))
    (h : tokens w'.kernel r g p (w'.thread p) + c ≤ tokens w.kernel r g p (w.thread p) + d) :
    w'.inHands r g + c ≤ w.inHands r g + d := by
  refine @sum_moves maxNumProcesses p p c d _ _ hp fun q => ?_
  by_cases hq : q = p
  · subst hq
    simpa using h
  · rw [if_neg hq, if_neg hq, hthread q hq, tokens_congr (hwait q hq)]

/-- No item is used, and no more tokens are there than before. -/
theorem Balanced.mono (h : w.Balanced) (hslots : w'.slots = w.slots)
    (hle : ∀ r g, w'.value r g + w'.inHands r g ≤ w.value r g + w.inHands r g) :
    w'.Balanced := by
  intro r g
  have hbal := h r g
  have hsum := hle r g
  have hused : w'.used r g = w.used r g := by
    cases g <;> simp [used, hslots]
  have hgiven : w'.given r g = w.given r g := by
    cases g <;> simp [given, hslots]
  omega

/-- Nobody waits for or posts a semaphore, no item is used, and `p` gets nothing. -/
theorem Balanced.calm (h : w.Balanced) (hp : p < maxNumProcesses) (hslots : w'.slots = w.slots)
    (hsame : ∀ r g, SameSem w.kernel w'.kernel (Role.sem r g))
    (hthread : ∀ q, q ≠ p → w'.thread q = w.thread q)
    (htokens : ∀ r g, tokens w.kernel r g p (w'.thread p) ≤ tokens w.kernel r g p (w.thread p)) :
    w'.Balanced := by
  refine h.mono hslots fun r g => ?_
  have hval := value_same (hsame r g)
  have hhands : w'.inHands r g + 0 ≤ w.inHands r g + 0 := by
    refine inHands_le hp hthread (fun q _ => by rw [(hsame r g).waiters]) ?_
    rw [tokens_same (hsame r g)]
    exact htokens r g
  omega

end World

/-! ### What a line does to the tokens -/

theorem tokens_le_one (k : Kernel) (r : Role) (g : Gate) (p : ℕ) (o : Option Thread) :
    tokens k r g p o ≤ 1 := by
  cases o with
  | none => exact Nat.zero_le 1
  | some th =>
    by_cases hr : th.role = r
    · rw [tokens_own hr]
      split_ifs <;> omega
    · rw [tokens_other hr]
      split_ifs <;> omega

theorem one_if_le {P Q : Prop} [Decidable P] [Decidable Q] (h : P → Q) :
    (if P then 1 else 0) ≤ if Q then 1 else 0 := by
  by_cases hp : P
  · rw [if_pos hp, if_pos (h hp)]
  · rw [if_neg hp]
    exact Nat.zero_le _

/-- A line that is not that of a call leaves the tokens of the process as they are, or gives some
up. -/
theorem tokens_goesOn (hgoes : GoesOn w th th') (hp : ∀ r g, p ∉ waiters k (Role.sem r g)) :
    tokens k r g p (some th') ≤ tokens k r g p (some th) := by
  obtain ⟨hrole, -, hnext, hgranted, -, -, -⟩ := hgoes
  by_cases hr : th.role = r
  · rw [tokens_own hr, tokens_own (hrole.trans hr)]
    apply one_if_le
    unfold Holds Granted
    generalize th.line = l at *
    generalize th'.line = l' at *
    cases hnext <;> cases g <;> simp [Line.holds, hp] <;> exact hgranted _ rfl
  · rw [tokens_other hr, tokens_other (hrole ▸ hr)]
    have howes : th'.line.owes = th.line.owes := by
      generalize th.line = l at *
      generalize th'.line = l' at *
      cases hnext <;> rfl
    rw [howes]

/-- A wait gives a token of its own gate at most, and none while the process is blocked. -/
theorem tokens_wait (hline : th.line = .wait g) (hline' : th'.line = .waited g)
    (hrole : th'.role = th.role) :
    tokens k' r g' p (some th') ≤ tokens k r g' p (some th) +
      if (th.role = r ∧ g = g') ∧ Granted k' p th' g then 1 else 0 := by
  by_cases hr : th.role = r
  · rw [tokens_own hr, tokens_own (hrole.trans hr)]
    by_cases hg : g = g'
    · subst hg
      have hholds : Holds k' p th' g ↔ Granted k' p th' g := by
        unfold Holds
        rw [hline']
        cases g <;> simp [Line.holds]
      simp only [hholds, hr, true_and, and_self]
      omega
    · have hholds : Holds k' p th' g' → Holds k p th g' := by
        unfold Holds Granted
        rw [hline, hline']
        cases g <;> cases g' <;> simp [Line.holds] at hg ⊢
      have hle := one_if_le hholds
      omega
  · rw [tokens_other hr, tokens_other (hrole ▸ hr), hline, hline']
    simp [Line.owes]

/-- At a line at which it does not wait, a process has the tokens of the line. -/
theorem tokens_line (h : ∀ g, th.line ≠ .waited g) : tokens k r g p (some th) =
    if th.role = r then (th.line.holds g).toNat
    else if g = .item then th.line.owes.toNat else 0 := by
  by_cases hr : th.role = r
  · have hholds : Holds k p th g ↔ th.line.holds g = true :=
      or_iff_left fun hgranted => h g hgranted.1
    rw [tokens_own hr, if_pos hr]
    simp only [hholds]
    cases th.line.holds g <;> rfl
  · rw [tokens_other hr, if_neg hr]
    cases th.line.owes <;> simp

/-- A post takes the token of the semaphore away. -/
theorem tokens_post (hline : th.line = .post g) (hline' : th'.line = .posted g)
    (hrole : th'.role = th.role) :
    tokens k r g' p (some th') + (if th.role.lets g = r ∧ g = g' then 1 else 0) ≤
      tokens k' r g' p (some th) := by
  rw [tokens_line (by simp [hline']), tokens_line (by simp [hline]), hline, hline', hrole]
  generalize th.role = r0
  cases r0 <;> cases r <;> cases g <;> cases g' <;> decide

/-- A store uses an item up, for which the process owes one to the other role. -/
theorem tokens_store (hline : th.line = .store) (hline' : th'.line = .advance)
    (hrole : th'.role = th.role) :
    tokens k r g p (some th') + (if th.role = r ∧ g = .item then 1 else 0) ≤
      tokens k r g p (some th) + if th.role ≠ r ∧ g = .item then 1 else 0 := by
  rw [tokens_line (by simp [hline']), tokens_line (by simp [hline]), hline, hline', hrole]
  generalize th.role = r0
  cases r0 <;> cases r <;> cases g <;> decide

/-! ### The calls, and the stores -/

namespace World

theorem used_stored (w : World) (p : ℕ) (th : Thread) (r : Role) (g : Gate) :
    (w.stored p th).used r g = w.used r g + if th.role = r ∧ g = .item then 1 else 0 := by
  cases g with
  | item =>
    by_cases hr : r = th.role
    · subst hr
      simp [used, stored]
    · simp [used, stored, hr, Ne.symm hr]
  | me => simp [used]

theorem given_stored (w : World) (p : ℕ) (th : Thread) (r : Role) (g : Gate) :
    (w.stored p th).given r g =
      w.given r g + (if th.role ≠ r ∧ g = .item then 1 else 0 : ℕ) := by
  cases g with
  | item =>
    by_cases hr : th.role = r
    · subst hr
      simp [given, stored, Role.other_ne]
    · obtain hother : th.role = r.other := Role.eq_other hr
      simp [given, stored, hr, ← hother]
      omega
  | me => simp [given]

/-- The process `p` stores an item or clears one. -/
theorem Balanced.stores (h : w.Balanced) (hp : p < maxNumProcesses) (hth : w.thread p = some th)
    (hline : th.line = .store) :
    ((w.stored p th).setThread p (some (th.at .advance))).Balanced := by
  intro r g
  have hbal := h r g
  have hhands : ((w.stored p th).setThread p (some (th.at .advance))).inHands r g +
      (if th.role = r ∧ g = .item then 1 else 0) ≤
        w.inHands r g + if th.role ≠ r ∧ g = .item then 1 else 0 := by
    refine inHands_le hp (fun q hq => setThread_of_ne _ _ hq) (fun _ _ => Iff.rfl) ?_
    rw [hth, setThread_self]
    apply tokens_store hline
    · rfl
    · rfl
  have hused := used_stored w p th r g
  have hgiven := given_stored w p th r g
  change w.value r g + _ + ((w.stored p th).used r g : ℤ) ≤ (w.stored p th).given r g
  rw [hused, hgiven]
  omega

/-- The process `p` waits, and gets a token if there is one. -/
theorem Balanced.waits (h : w.Balanced) (hp : p < maxNumProcesses) (hslots : w'.slots = w.slots)
    (hthread : ∀ q, q ≠ p → w'.thread q = w.thread q) (hth : w.thread p = some th)
    (hth' : w'.thread p = some th') (hline : th.line = .wait g) (hline' : th'.line = .waited g)
    (hrole : th'.role = th.role)
    (hsame : ∀ r g', Role.sem r g' ≠ th.role.sem g → SameSem w.kernel w'.kernel (r.sem g'))
    (hcount : count w'.kernel (th.role.sem g) = count w.kernel (th.role.sem g) - 1)
    (hwaiters : waiters w'.kernel (th.role.sem g) =
      if 0 < count w.kernel (th.role.sem g) then waiters w.kernel (th.role.sem g)
      else waiters w.kernel (th.role.sem g) ++ [p]) : w'.Balanced := by
  refine h.mono hslots fun r g' => ?_
  have htokens := @tokens_wait w.kernel w'.kernel p th th' r g g' hline hline' hrole
  by_cases hx : r.sem g' = th.role.sem g
  · obtain ⟨rfl, rfl⟩ := sem_inj hx
    split_ifs at hwaiters with hpos
    · have hhands : w'.inHands th.role g' + 0 ≤ w.inHands th.role g' + 1 := by
        refine inHands_le hp hthread (fun q _ => by rw [hwaiters]) ?_
        rw [hth, hth']
        split_ifs at htokens <;> omega
      unfold value
      omega
    · have hhands : w'.inHands th.role g' + 0 ≤ w.inHands th.role g' + 0 := by
        refine inHands_le hp hthread (fun q hq => ?_) ?_
        · rw [hwaiters, List.mem_append, List.mem_singleton]
          exact or_iff_left hq
        · have hnot : ¬ Granted w'.kernel p th' g' := fun hgranted =>
            hgranted.2.1 (by rw [hrole, hwaiters]; simp)
          rw [if_neg fun hg => hnot hg.2] at htokens
          rwa [hth, hth']
      unfold value
      omega
  · have hhands : w'.inHands r g' + 0 ≤ w.inHands r g' + 0 := by
      refine inHands_le hp hthread (fun q _ => by rw [(hsame r g' hx).waiters]) ?_
      rw [if_neg fun hg => hx (by rw [hg.1.1, hg.1.2])] at htokens
      rwa [hth, hth']
    have hval := value_same (hsame r g' hx)
    omega

/-- The process `p` posts, and whoever waits gets the token. -/
theorem Balanced.posts (h : w.Balanced) (hp : p < maxNumProcesses) (hslots : w'.slots = w.slots)
    (hthread : ∀ q, q ≠ p → w'.thread q = w.thread q) (hth : w.thread p = some th)
    (hth' : w'.thread p = some th') (hline : th.line = .post g) (hline' : th'.line = .posted g)
    (hrole : th'.role = th.role)
    (hsame : ∀ r g', Role.sem r g' ≠ (th.role.lets g).sem g →
      SameSem w.kernel w'.kernel (r.sem g'))
    (hcount : count w'.kernel ((th.role.lets g).sem g) =
      count w.kernel ((th.role.lets g).sem g) + 1)
    (hwaiters : waiters w'.kernel ((th.role.lets g).sem g) =
      if count w.kernel ((th.role.lets g).sem g) < 0 then
        (waiters w.kernel ((th.role.lets g).sem g)).tail
      else waiters w.kernel ((th.role.lets g).sem g)) : w'.Balanced := by
  refine h.mono hslots fun r g' => ?_
  have htokens := @tokens_post w'.kernel w.kernel p th th' r g g' hline hline' hrole
  by_cases hx : r.sem g' = (th.role.lets g).sem g
  · obtain ⟨hr, rfl⟩ := sem_inj hx
    rw [if_pos ⟨hr.symm, rfl⟩] at htokens
    rw [← hr] at hcount hwaiters
    split_ifs at hwaiters with hneg
    · have hhands : w'.inHands r g' + 1 ≤ w.inHands r g' + 1 := by
        refine @sum_moves maxNumProcesses p ((waiters w.kernel (r.sem g')).headD 0) 1 1 _ _ hp
          fun q => ?_
        by_cases hq : q = p
        · subst hq
          rw [hth, hth', if_pos rfl]
          omega
        · rw [if_neg hq, hthread q hq]
          split_ifs with hb
          · have hle := tokens_le_one w'.kernel r g' q (w.thread q)
            omega
          · rw [tokens_congr]
            rw [hwaiters]
            cases hw : waiters w.kernel (r.sem g') with
            | nil => rfl
            | cons b rest =>
              rw [hw, List.headD_cons] at hb
              simp [hb]
      unfold value
      omega
    · have hhands : w'.inHands r g' + 1 ≤ w.inHands r g' + 0 := by
        refine inHands_le hp hthread (fun q _ => by rw [hwaiters]) ?_
        rwa [hth, hth']
      unfold value
      omega
  · have hhands : w'.inHands r g' + 0 ≤ w.inHands r g' + 0 := by
      refine inHands_le hp hthread (fun q _ => by rw [(hsame r g' hx).waiters]) ?_
      rw [hth, hth']
      omega
    have hval := value_same (hsame r g' hx)
    omega

end World

/-! ### Who has what -/

namespace World.Balanced

theorem le_inHands (hp : p < maxNumProcesses) (hth : w.thread p = some th)
    (hholds : Holds w.kernel p th g) : 1 ≤ w.inHands th.role g := by
  have htokens : tokens w.kernel th.role g p (w.thread p) = 1 := by
    rw [hth, tokens_own rfl, if_pos hholds]
  rw [← htokens]
  exact Finset.single_le_sum (f := fun q => tokens w.kernel th.role g q (w.thread q))
    (fun _ _ => Nat.zero_le _) (Finset.mem_range.mpr hp)

/-- No two processes have the token of the same mutex. -/
theorem exclusive (h : w.Balanced) (hp : p < maxNumProcesses) (hq : q < maxNumProcesses)
    (hth : w.thread p = some th) (hth' : w.thread q = some th') (hrole : th'.role = th.role)
    (hholds : Holds w.kernel p th .me) (hholds' : Holds w.kernel q th' .me) : q = p := by
  by_contra hne
  have hsum : tokens w.kernel th.role .me p (w.thread p) +
      tokens w.kernel th.role .me q (w.thread q) ≤ w.inHands th.role .me := by
    have hsub : ({p, q} : Finset ℕ) ⊆ Finset.range maxNumProcesses := by
      intro i hi
      rcases Finset.mem_insert.mp hi with rfl | hi
      · exact Finset.mem_range.mpr hp
      · exact Finset.mem_range.mpr (Finset.mem_singleton.mp hi ▸ hq)
    have hpair := Finset.sum_pair (f := fun i => tokens w.kernel th.role .me i (w.thread i))
      (Ne.symm hne)
    exact hpair.symm.trans_le (Finset.sum_le_sum_of_subset hsub)
  rw [hth, hth', tokens_own rfl, tokens_own hrole, if_pos hholds, if_pos hholds'] at hsum
  have hbal := h th.role .me
  have hvalue : 0 ≤ w.value th.role .me := le_max_right _ _
  simp only [used, given] at hbal
  omega

/-- There are never more items cleared than stored, nor more in the buffer than it has slots. -/
theorem lengths (h : w.Balanced) : (w.slots .cons).length ≤ (w.slots .prod).length ∧
    (w.slots .prod).length ≤ (w.slots .cons).length + bufferLength.toNat := by
  have hprod := h .prod .item
  have hcons := h .cons .item
  have hvalue : 0 ≤ w.value .prod .item := le_max_right _ _
  have hvalue' : 0 ≤ w.value .cons .item := le_max_right _ _
  simp only [used, given, Role.other, bufferLength] at hprod hcons ⊢
  omega

theorem count_lt (h : w.Balanced) (r : Role) (g : Gate) :
    count w.kernel (r.sem g) < 2 ^ 31 - 1 := by
  have hbal := h r g
  have hlengths := h.lengths
  have hvalue : count w.kernel (r.sem g) ≤ w.value r g := le_max_left _ _
  cases g with
  | me =>
    simp only [used, given] at hbal
    omega
  | item =>
    unfold bufferLength at hlengths
    cases r <;> simp only [used, given, Role.other, bufferLength] at hbal <;> omega

/-- Who stores has a place, and who clears has an item. -/
theorem room (h : w.Balanced) (hp : p < maxNumProcesses) (hth : w.thread p = some th)
    (hline : th.line = .store) : (w.slots th.role).length + 1 ≤
      (w.slots th.role.other).length + if th.role = .prod then bufferLength.toNat else 0 := by
  have hhands : 1 ≤ w.inHands th.role .item :=
    le_inHands hp hth (Or.inl (by rw [hline]; rfl))
  have hbal := h th.role .item
  have hvalue : 0 ≤ w.value th.role .item := le_max_right _ _
  generalize th.role = r at *
  cases r with
  | prod =>
    simp only [used, given, Role.other, bufferLength, if_true] at hbal ⊢
    omega
  | cons =>
    simp only [used, given, Role.other, reduceCtorEq, if_false] at hbal ⊢
    omega

end World.Balanced

end DisastrOS
