import DisastrOS.BufferProgress

/-! No token of the four semaphores gets lost, as long as no call fails. -/
namespace DisastrOS
open BlockPool TransitionSystem

variable {k k' : Kernel} {w w' : World} {p q b : ℕ} {th th' : Thread} {r : Role} {g g' : Gate}
  {v : FdName} {act : Action} {args : List ℤ} {move : World.Move}

namespace World

/-- All tokens are in a semaphore or in the hands of a process, or used up. -/
def Conserved (w : World) : Prop :=
  ∀ r g, w.given r g ≤ w.value r g + w.inHands r g + w.used r g

/-- The processes that wait for a semaphore are those that have come to its gate. -/
def Queued (w : World) : Prop := ∀ r g, ∀ b ∈ waiters w.kernel (Role.sem r g),
  ∃ th, w.thread b = some th ∧ th.role = r ∧ th.line = .waited g ∧ th.ret = none

end World

/-! ### What a line does to the tokens -/

theorem tokens_goesOn_ge (hgoes : GoesOn w th th') (hp : ∀ r g, p ∉ waiters k (Role.sem r g)) :
    tokens k r g p (some th) ≤ tokens k r g p (some th') := by
  obtain ⟨hrole, -, hnext, -, -, -, -⟩ := hgoes
  by_cases hr : th.role = r
  · rw [tokens_own hr, tokens_own (hrole.trans hr)]
    apply one_if_le
    unfold Holds Granted
    generalize th.line = l at *
    generalize th'.line = l' at *
    cases hnext <;> cases g <;> simp [Line.holds, hp]
  · rw [tokens_other hr, tokens_other (hrole ▸ hr)]
    have howes : th'.line.owes = th.line.owes := by
      generalize th.line = l at *
      generalize th'.line = l' at *
      cases hnext <;> rfl
    rw [howes]

/-- A wait keeps the tokens of the process, and one that is granted gives it the token of the
gate. -/
theorem tokens_wait_ge (hline : th.line = .wait g) (hline' : th'.line = .waited g)
    (hrole : th'.role = th.role) : tokens k r g' p (some th) +
      (if (th.role = r ∧ g = g') ∧ Granted k' p th' g then 1 else 0) ≤
        tokens k' r g' p (some th') := by
  rw [tokens_line (by simp [hline]), hline]
  by_cases hr : th.role = r
  · rw [tokens_own (hrole.trans hr), if_pos hr]
    by_cases hg : g = g'
    · subst hg
      have hold : (Line.wait g).holds g = false := by cases g <;> rfl
      rw [hold]
      by_cases hgranted : Granted k' p th' g
      · have hholds : Holds k' p th' g := Or.inr hgranted
        rw [if_pos ⟨⟨hr, rfl⟩, hgranted⟩, if_pos hholds]
        exact le_rfl
      · rw [if_neg fun hand => hgranted hand.2]
        exact Nat.zero_le _
    · rw [if_neg fun hand => hg hand.1.2]
      have hsame : th'.line.holds g' = (Line.wait g).holds g' := by
        rw [hline']
        revert hg
        cases g <;> cases g' <;> decide
      cases hh : (Line.wait g).holds g' with
      | false => exact Nat.zero_le _
      | true =>
        have hholds : Holds k' p th' g' := Or.inl (hsame.trans hh)
        rw [if_pos hholds]
        exact le_rfl
  · have hnone : ¬ ((th.role = r ∧ g = g') ∧ Granted k' p th' g) := fun hand => hr hand.1.1
    rw [if_neg hr, if_neg hnone]
    simp [Line.owes]

/-- A post takes no more than the token of the semaphore away. -/
theorem tokens_post_ge (hline : th.line = .post g) (hline' : th'.line = .posted g)
    (hrole : th'.role = th.role) : tokens k r g' p (some th) ≤
      tokens k' r g' p (some th') + if th.role.lets g = r ∧ g = g' then 1 else 0 := by
  rw [tokens_line (by simp [hline]), tokens_line (by simp [hline']), hline, hline', hrole]
  generalize th.role = r0
  cases r0 <;> cases r <;> cases g <;> cases g' <;> decide

theorem tokens_store_ge (hline : th.line = .store) (hline' : th'.line = .advance)
    (hrole : th'.role = th.role) :
    tokens k r g p (some th) + (if th.role ≠ r ∧ g = .item then 1 else 0) ≤
      tokens k r g p (some th') + if th.role = r ∧ g = .item then 1 else 0 := by
  rw [tokens_line (by simp [hline]), tokens_line (by simp [hline']), hline, hline', hrole]
  generalize th.role = r0
  cases r0 <;> cases r <;> cases g <;> decide

/-! ### The moves of a process -/

namespace World.Conserved

/-- No item is used, and no fewer tokens are there than before. -/
theorem mono (h : w.Conserved) (hslots : w'.slots = w.slots)
    (hle : ∀ r g, w.value r g + w.inHands r g ≤ w'.value r g + w'.inHands r g) :
    w'.Conserved := by
  intro r g
  have hcons := h r g
  have hsum := hle r g
  have hused : w'.used r g = w.used r g := by
    cases g <;> simp [used, hslots]
  have hgiven : w'.given r g = w.given r g := by
    cases g <;> simp [given, hslots]
  omega

/-- Nobody waits for or posts a semaphore, no item is used, and `p` gives nothing up. -/
theorem calm (h : w.Conserved) (hp : p < maxNumProcesses) (hslots : w'.slots = w.slots)
    (hsame : ∀ r g, SameSem w.kernel w'.kernel (Role.sem r g))
    (hthread : ∀ q, q ≠ p → w'.thread q = w.thread q)
    (htokens : ∀ r g, tokens w.kernel r g p (w.thread p) ≤ tokens w.kernel r g p (w'.thread p)) :
    w'.Conserved := by
  refine h.mono hslots fun r g => ?_
  have hval := value_same (hsame r g)
  have hhands : w.inHands r g + 0 ≤ w'.inHands r g + 0 := by
    refine inHands_le hp (fun q hq => (hthread q hq).symm)
      (fun q _ => by rw [(hsame r g).waiters]) ?_
    rw [tokens_same (hsame r g)]
    exact htokens r g
  omega

theorem stores (h : w.Conserved) (hp : p < maxNumProcesses) (hth : w.thread p = some th)
    (hline : th.line = .store) :
    ((w.stored p th).setThread p (some (th.at .advance))).Conserved := by
  intro r g
  have hcons := h r g
  have hhands : w.inHands r g + (if th.role ≠ r ∧ g = .item then 1 else 0) ≤
      ((w.stored p th).setThread p (some (th.at .advance))).inHands r g +
        if th.role = r ∧ g = .item then 1 else 0 := by
    refine inHands_le hp (fun q hq => (setThread_of_ne _ _ hq).symm) (fun _ _ => Iff.rfl) ?_
    rw [hth, setThread_self]
    apply tokens_store_ge hline
    · rfl
    · rfl
  have hused := used_stored w p th r g
  have hgiven := given_stored w p th r g
  change (w.stored p th).given r g ≤ w.value r g + _ + ((w.stored p th).used r g : ℤ)
  rw [hused, hgiven]
  omega

/-- The process `p` waits, and has the token if it is not put off. -/
theorem waits (h : w.Conserved) (hp : p < maxNumProcesses) (hslots : w'.slots = w.slots)
    (hthread : ∀ q, q ≠ p → w'.thread q = w.thread q) (hth : w.thread p = some th)
    (hth' : w'.thread p = some th') (hline : th.line = .wait g) (hline' : th'.line = .waited g)
    (hrole : th'.role = th.role) (hret : th'.ret.getD 0 = 0)
    (hidle : p ∉ waiters w.kernel (th.role.sem g))
    (hsame : ∀ r g', Role.sem r g' ≠ th.role.sem g → SameSem w.kernel w'.kernel (r.sem g'))
    (hcount : count w'.kernel (th.role.sem g) = count w.kernel (th.role.sem g) - 1)
    (hwaiters : waiters w'.kernel (th.role.sem g) =
      if 0 < count w.kernel (th.role.sem g) then waiters w.kernel (th.role.sem g)
      else waiters w.kernel (th.role.sem g) ++ [p]) : w'.Conserved := by
  refine h.mono hslots fun r g' => ?_
  have htokens := @tokens_wait_ge w.kernel w'.kernel p th th' r g g' hline hline' hrole
  by_cases hx : r.sem g' = th.role.sem g
  · obtain ⟨rfl, rfl⟩ := sem_inj hx
    split_ifs at hwaiters with hpos
    · have hgranted : Granted w'.kernel p th' g' := by
        refine ⟨hline', ?_, hret⟩
        rw [hrole, hwaiters]
        exact hidle
      have hhands : w.inHands th.role g' + 1 ≤ w'.inHands th.role g' + 0 := by
        refine inHands_le hp (fun q hq => (hthread q hq).symm) (fun q _ => by rw [hwaiters]) ?_
        rw [hth, hth']
        rwa [if_pos ⟨⟨rfl, rfl⟩, hgranted⟩] at htokens
      unfold value
      omega
    · have hhands : w.inHands th.role g' + 0 ≤ w'.inHands th.role g' + 0 := by
        refine inHands_le hp (fun q hq => (hthread q hq).symm) (fun q hq => ?_) ?_
        · rw [hwaiters, List.mem_append, List.mem_singleton]
          exact (or_iff_left hq).symm
        · rw [hth, hth']
          omega
      unfold value
      omega
  · have hhands : w.inHands r g' + 0 ≤ w'.inHands r g' + 0 := by
      refine inHands_le hp (fun q hq => (hthread q hq).symm)
        (fun q _ => by rw [(hsame r g' hx).waiters]) ?_
      rw [hth, hth']
      omega
    have hval := value_same (hsame r g' hx)
    omega

/-- The process `p` posts, and whoever has waited the longest has the token. -/
theorem posts (h : w.Conserved) (hq : w.Queued) (hp : p < maxNumProcesses)
    (hlt : ∀ b th, w.thread b = some th → b < maxNumProcesses) (hslots : w'.slots = w.slots)
    (hthread : ∀ q, q ≠ p → w'.thread q = w.thread q) (hth : w.thread p = some th)
    (hth' : w'.thread p = some th') (hline : th.line = .post g) (hline' : th'.line = .posted g)
    (hrole : th'.role = th.role)
    (hnodup : (waiters w.kernel ((th.role.lets g).sem g)).Nodup)
    (hneg : count w.kernel ((th.role.lets g).sem g) < 0 →
      waiters w.kernel ((th.role.lets g).sem g) ≠ [])
    (hsame : ∀ r g', Role.sem r g' ≠ (th.role.lets g).sem g →
      SameSem w.kernel w'.kernel (r.sem g'))
    (hcount : count w'.kernel ((th.role.lets g).sem g) =
      count w.kernel ((th.role.lets g).sem g) + 1)
    (hwaiters : waiters w'.kernel ((th.role.lets g).sem g) =
      if count w.kernel ((th.role.lets g).sem g) < 0 then
        (waiters w.kernel ((th.role.lets g).sem g)).tail
      else waiters w.kernel ((th.role.lets g).sem g)) : w'.Conserved := by
  refine h.mono hslots fun r g' => ?_
  have htokens := @tokens_post_ge w.kernel w'.kernel p th th' r g g' hline hline' hrole
  by_cases hx : r.sem g' = (th.role.lets g).sem g
  · obtain ⟨hr, rfl⟩ := sem_inj hx
    rw [if_pos ⟨hr.symm, rfl⟩] at htokens
    rw [← hr] at hcount hwaiters hnodup hneg
    split_ifs at hwaiters with hlow
    · obtain ⟨b, rest, hb⟩ := List.exists_cons_of_ne_nil (hneg hlow)
      rw [hb, List.nodup_cons] at hnodup
      obtain ⟨tb, htb, hrb, hlb, hretb⟩ := hq r g' b (hb ▸ List.mem_cons_self)
      have hbp : b ≠ p := by
        rintro rfl
        rw [hth] at htb
        rw [← Option.some.inj htb, hline] at hlb
        cases hlb
      have hhands : w.inHands r g' + 1 ≤ w'.inHands r g' + 1 := by
        refine @sum_moves maxNumProcesses b p 1 1 _ _ (hlt b tb htb) fun q => ?_
        by_cases hqp : q = p
        · subst hqp
          rw [if_neg (Ne.symm hbp), if_pos rfl, hth, hth']
          exact htokens
        · rw [if_neg hqp, hthread q hqp]
          by_cases hqb : q = b
          · subst hqb
            have hold : ¬ Holds w.kernel q tb g' := by
              rintro (hl | ⟨-, hnot, -⟩)
              · rw [hlb] at hl
                cases g' <;> cases hl
              · exact hnot (by rw [hrb, hb]; exact List.mem_cons_self)
            have hnew : Holds w'.kernel q tb g' := by
              refine Or.inr ⟨hlb, ?_, by rw [hretb]; rfl⟩
              rw [hrb, hwaiters, hb]
              exact hnodup.1
            rw [if_pos rfl, htb, tokens_own hrb, tokens_own hrb, if_neg hold, if_pos hnew]
          · rw [if_neg hqb, tokens_congr]
            rw [hwaiters, hb]
            simp [hqb]
      unfold value
      omega
    · have hhands : w.inHands r g' + 0 ≤ w'.inHands r g' + 1 := by
        refine inHands_le hp (fun q hq => (hthread q hq).symm) (fun q _ => by rw [hwaiters]) ?_
        rwa [hth, hth']
      unfold value
      omega
  · have hhands : w.inHands r g' + 0 ≤ w'.inHands r g' + 0 := by
      refine inHands_le hp (fun q hq => (hthread q hq).symm)
        (fun q _ => by rw [(hsame r g' hx).waiters]) ?_
      rw [hth, hth']
      rw [if_neg] at htokens
      · exact htokens
      · rintro ⟨hr, rfl⟩
        exact hx (by rw [hr])
    have hval := value_same (hsame r g' hx)
    omega

end World.Conserved

/-! ### Runs -/

theorem KernelInv.waiters_nodup (h : KernelInv k) (x : ℕ) : (waiters k x).Nodup :=
  (h.sem.queueNodup x).map_on fun i hi j hj he => (h.wake.onePlace x i x j hi hj he).2

theorem step_semPost_unknown (hp : k.running = some p)
    (hx : calledSemaphore k p (toInt (args.getD 0 0)) = none)
    (hs : kernel.step k (.syscall dsosCallSempost args) = .ok k') :
    k'.running = some p ∧ (k'.pcb p).syscallRetvalue = dsosEnotmysem := by
  have hrun : runHandler .semPost (enterSyscall k p dsosCallSempost args) = .ok k' :=
    (step_handler hp).symm.trans hs
  have hp' : (enterSyscall k p dsosCallSempost args).running = some p := hp
  obtain ⟨p', hq, hcase⟩ := internalSemPost_ok hrun
  obtain rfl : p = p' := Option.some.inj (hp'.symm.trans hq)
  rcases hcase with ⟨-, rfl⟩ | ⟨d, y, hd, -⟩
  · exact ⟨hp, by simp⟩
  · have hcall : calledSemaphore (enterSyscall k p dsosCallSempost args) p
        (toInt (args.getD 0 0)) = some (k.sems.descriptor.cell d).semaphore := by
      rw [enterSyscall_arg (by decide)] at hd
      rw [calledSemaphore, hd]
      rfl
    rw [calledSemaphore_enter, hx] at hcall
    cases hcall

/-- A process that posts reads the result of its call if it still runs. -/
theorem runLine_post {fails : Bool} (hl : th.line = .post g)
    (h : w.runLine p th fails = .ok w') : ∃ k,
      kernel.step w.kernel (.syscall dsosCallSempost [th.fd (th.role.function.postFd g)]) = .ok k ∧
      w' = (w.entered k).setThread p (some { th with
        ret := if k.running = some p then some (k.pcb p).syscallRetvalue else none
        line := .posted g }) := by
  unfold World.runLine at h
  simp only [hl] at h
  exact call_ok h

structure TokensInv (w : World) : Prop where
  conserved : w.Conserved
  queued : w.Queued

namespace TokensInv
open World

/-- A move that neither waits nor posts, and changes nobody but `p`, who does not wait. -/
theorem calm (h : TokensInv w) (hp : p < maxNumProcesses) (hslots : w'.slots = w.slots)
    (hsame : ∀ r g, SameSem w.kernel w'.kernel (Role.sem r g))
    (hthread : ∀ q, q ≠ p → w'.thread q = w.thread q)
    (hidle : w'.thread p = w.thread p ∨ ∀ r g, p ∉ waiters w.kernel (Role.sem r g))
    (htokens : ∀ r g, tokens w.kernel r g p (w.thread p) ≤ tokens w.kernel r g p (w'.thread p)) :
    TokensInv w' := by
  refine ⟨h.conserved.calm hp hslots hsame hthread htokens, fun r g b hb => ?_⟩
  rw [(hsame r g).waiters] at hb
  have hthreads : w'.thread b = w.thread b := by
    by_cases hbp : b = p
    · subst hbp
      exact hidle.resolve_right fun hnot => hnot r g hb
    · exact hthread b hbp
  rw [hthreads]
  exact h.queued r g b hb

/-- A call of the process `p` that neither waits nor posts. -/
theorem calls {o : Option Thread} (h : TokensInv w) (hw : WorldInv w)
    (hp : w.kernel.running = some p) (hth : w.thread p = some th)
    (hs : kernel.step w.kernel act = .ok k) (hwait : ∀ args, act ≠ .syscall dsosCallSemwait args)
    (hpost : ∀ args, act ≠ .syscall dsosCallSempost args)
    (htokens : ∀ r g, tokens w.kernel r g p (some th) ≤ tokens w.kernel r g p o) :
    TokensInv ((w.entered k).setThread p o) := by
  obtain ⟨f, hf⟩ := hw.father
  refine h.calm (hw.thread_lt hth) rfl
    (hf.calm hw.kernelInv hs (fun _ _ => semEvent_ne_wait hwait) fun _ => semEvent_ne_post hpost)
    (fun q hq => setThread_of_ne _ _ hq)
    (Or.inr fun r g => running_not_waiter hw.kernelInv hp _) fun r g => ?_
  rw [setThread_self, hth]
  exact htokens r g

theorem waits (h : TokensInv w) (hw : WorldInv w) (hp : w.kernel.running = some p)
    (hth : w.thread p = some th) (hline : th.line = .wait g)
    (hs : kernel.step w.kernel
      (.syscall dsosCallSemwait [th.fd (th.role.function.waitFd g)]) = .ok k)
    (hth' : th' = { th with
      ret := if k.running = some p then some (k.pcb p).syscallRetvalue else none
      line := .waited g }) (hok : th'.Succeeded) :
    TokensInv ((w.entered k).setThread p (some th')) := by
  have hthread := hw.threads p th hth
  have hmade : th.role.function.waitFd g ∈ th.line.made := by
    rw [hline]
    cases g <;> cases th.role <;> decide
  have hline' : th'.line = .waited g := by rw [hth']
  have hrole : th'.role = th.role := by rw [hth']
  have hret : th'.ret.getD 0 = 0 := by
    unfold Thread.Succeeded at hok
    rwa [hline'] at hok
  have hk : KernelInv k := .reachable (hw.kernelReachable.reachable.next hs)
  rcases hthread.called (by rw [hline]; rfl) hmade with hx | hnone
  · have hev : semEvent w.kernel (.syscall dsosCallSemwait [th.fd (th.role.function.waitFd g)]) =
      .wait (th.role.sem g) p := semEvent_semWait hp hx
    have hstep : SemStep w.kernel k (semEvent w.kernel
      (.syscall dsosCallSemwait [th.fd (th.role.function.waitFd g)])) :=
        step_semEvent hw.kernelInv hs
    rw [hev] at hstep
    cases hstep with
    | wait _ _ v listed list id hcount queue hwaiters same =>
      obtain ⟨f, hf⟩ := hw.father
      have hsame : ∀ r g', Role.sem r g' ≠ th.role.sem g → SameSem w.kernel k (r.sem g') :=
        fun r g' hne => same _ (hf.listed hw.kernelInv (fdName_sem_lt _ r)) hne
      refine ⟨h.conserved.waits (hw.thread_lt hth) rfl (fun q hq => setThread_of_ne _ _ hq) hth
        (setThread_self _ p _) hline hline' hrole hret (running_not_waiter hw.kernelInv hp _) hsame
        ?_ hwaiters, fun r g' b hb => ?_⟩
      · exact hcount.trans ((CountInv.reachableBy hw.kernelReachable).wait_count hw.kernelInv.sem
          (.reachable hw.kernelReachable.reachable) listed)
      · change b ∈ waiters k (r.sem g') at hb
        by_cases hbp : b = p
        · subst hbp
          have hx' : r.sem g' = th.role.sem g := by
            by_contra hne
            rw [(hsame r g' hne).waiters] at hb
            exact running_not_waiter hw.kernelInv hp _ hb
          obtain ⟨rfl, rfl⟩ := sem_inj hx'
          have hrun : k.running ≠ some b := fun hrun => running_not_waiter hk hrun _ hb
          refine ⟨th', setThread_self _ b _, hrole, hline', ?_⟩
          rw [hth', if_neg hrun]
        · rw [setThread_of_ne _ _ hbp]
          refine h.queued r g' b ?_
          by_cases hx' : r.sem g' = th.role.sem g
          · rw [hx'] at hb ⊢
            rw [hwaiters] at hb
            split_ifs at hb
            · exact hb
            · exact (List.mem_append.mp hb).resolve_right (by simpa using hbp)
          · rwa [← (hsame r g' hx').waiters]
  · obtain ⟨hrun, hval⟩ := @step_semWait_unknown _ _ p
      [th.fd (th.role.function.waitFd g)] hp hnone hs
    rw [hth', if_pos hrun, Option.getD_some, hval] at hret
    exact absurd hret (by decide)

theorem posts (h : TokensInv w) (hw : WorldInv w) (hp : w.kernel.running = some p)
    (hth : w.thread p = some th) (hline : th.line = .post g)
    (hs : kernel.step w.kernel
      (.syscall dsosCallSempost [th.fd (th.role.function.postFd g)]) = .ok k)
    (hth' : th' = { th with
      ret := if k.running = some p then some (k.pcb p).syscallRetvalue else none
      line := .posted g }) (hok : th'.Succeeded) :
    TokensInv ((w.entered k).setThread p (some th')) := by
  have hthread := hw.threads p th hth
  have hmade : th.role.function.postFd g ∈ th.line.made := by
    rw [hline]
    cases g <;> cases th.role <;> decide
  have hline' : th'.line = .posted g := by rw [hth']
  have hrole : th'.role = th.role := by rw [hth']
  rcases hthread.called (by rw [hline]; rfl) hmade with hx | hnone
  · rw [postFd_sem] at hx
    have hev : semEvent w.kernel (.syscall dsosCallSempost [th.fd (th.role.function.postFd g)]) =
      .post ((th.role.lets g).sem g) := semEvent_semPost hp hx
    have hstep : SemStep w.kernel k (semEvent w.kernel
      (.syscall dsosCallSempost [th.fd (th.role.function.postFd g)])) :=
        step_semEvent hw.kernelInv hs
    rw [hev] at hstep
    cases hstep with
    | post _ listed list id hcount queue hwaiters same =>
      obtain ⟨f, hf⟩ := hw.father
      have hc := CountInv.reachableBy hw.kernelReachable
      have hsame : ∀ r g', Role.sem r g' ≠ (th.role.lets g).sem g → SameSem w.kernel k (r.sem g') :=
        fun r g' hne => same _ (hf.listed hw.kernelInv (fdName_sem_lt _ r)) hne
      have hneg : count w.kernel ((th.role.lets g).sem g) < 0 →
          waiters w.kernel ((th.role.lets g).sem g) ≠ [] := fun hlow hnil => by
        have hlen := (hc _ listed).1
        rw [List.map_eq_nil_iff.mp hnil, List.length_nil] at hlen
        omega
      refine ⟨h.conserved.posts h.queued (hw.thread_lt hth) (fun b tb => hw.thread_lt) rfl
        (fun q hq => setThread_of_ne _ _ hq) hth (setThread_self _ p _) hline hline' hrole
        (hw.kernelInv.waiters_nodup _) hneg hsame ?_ hwaiters, fun r g' b hb => ?_⟩
      · exact hcount.trans (hc.post_count hw.kernelInv.sem
          (.reachable hw.kernelReachable.reachable) listed (hw.balanced.count_lt _ g))
      · change b ∈ waiters k (r.sem g') at hb
        have hold : b ∈ waiters w.kernel (r.sem g') := by
          by_cases hx' : r.sem g' = (th.role.lets g).sem g
          · rw [hx'] at hb ⊢
            rw [hwaiters] at hb
            split_ifs at hb
            · exact List.mem_of_mem_tail hb
            · exact hb
          · rwa [← (hsame r g' hx').waiters]
        have hbp : b ≠ p := fun he => running_not_waiter hw.kernelInv hp _ (he ▸ hold)
        rw [setThread_of_ne _ _ hbp]
        exact h.queued r g' b hold
  · obtain ⟨hrun, hval⟩ := @step_semPost_unknown _ _ p
      [th.fd (th.role.function.postFd g)] hp hnone hs
    unfold Thread.Succeeded at hok
    rw [hth', if_pos hrun] at hok
    simp only [Option.getD_some, hval] at hok
    exact absurd hok (by decide)

theorem runs (h : TokensInv w) (hw : WorldInv w) (hp : w.kernel.running = some p)
    (hth : w.thread p = some th) (hrun : w.runLine p th false = .ok w')
    (hok : ∀ th', w'.thread p = some th' → th'.Succeeded)
    (hend : w'.thread p = none → th.line = .exit) : TokensInv w' := by
  have hidle : ∀ r g, p ∉ waiters w.kernel (Role.sem r g) := fun r g =>
    running_not_waiter hw.kernelInv hp _
  have hlt := hw.thread_lt hth
  cases runLine_ran hrun with
  | goesOn th' goes result =>
    subst result
    refine h.calm hlt rfl (fun r g => .of_sems rfl _) (fun q hq => setThread_of_ne _ _ hq)
      (Or.inr hidle) fun r g => ?_
    rw [setThread_self, hth]
    exact tokens_goesOn_ge goes hidle
  | stores line result =>
    subst result
    refine ⟨h.conserved.stores hlt hth line, fun r g b hb => ?_⟩
    have hbp : b ≠ p := fun he => hidle r g (he ▸ hb)
    rw [setThread_of_ne _ _ hbp]
    exact h.queued r g b hb
  | writes line result =>
    subst result
    refine h.calm hlt rfl (fun r g => .of_sems rfl _) (fun q hq => setThread_of_ne _ _ hq)
      (Or.inr hidle) fun r g => ?_
    rw [setThread_self, hth, tokens_line (by simp [line]), tokens_line (by simp [Thread.at]), line]
    cases g <;> exact le_rfl
  | exits k line step result =>
    subst result
    have hexit := hend (setThread_self _ p _)
    refine h.calls hw hp hth step (fun _ => syscall_ne (by decide))
      (fun _ => syscall_ne (by decide)) fun r g => ?_
    rw [tokens_line (by simp [hexit]), hexit]
    cases g <;> simp [Line.holds, Line.owes]
  | opens v k th' line step thread result =>
    subst result thread
    refine h.calls hw hp hth step (fun _ => syscall_ne (by decide))
      (fun _ => syscall_ne (by decide)) fun r g => ?_
    rw [tokens_line (by simp [line]), line]
    cases g <;> simp [Line.holds, Line.owes]
  | waits g k th' line step thread result =>
    subst result
    exact h.waits hw hp hth line step thread (hok th' (setThread_self _ p _))
  | posts g k ret line step result =>
    clear step result
    obtain ⟨k, hs, rfl⟩ := runLine_post line hrun
    exact h.posts hw hp hth line hs rfl (hok _ (setThread_self _ p _))
  | closes v k ret line step result =>
    subst result
    refine h.calls hw hp hth step (fun _ => syscall_ne (by decide))
      (fun _ => syscall_ne (by decide)) fun r g => ?_
    rw [tokens_line (by simp [line]), line]
    cases g <;> simp [Line.holds, Line.owes]

/-- A timer signal, or a wait of the father. -/
theorem acts (h : TokensInv w) (hw : WorldInv w) (hs : kernel.step w.kernel act = .ok k)
    (hwait : ∀ args, act ≠ .syscall dsosCallSemwait args)
    (hpost : ∀ args, act ≠ .syscall dsosCallSempost args) : TokensInv (w.entered k) := by
  obtain ⟨f, hf⟩ := hw.father
  exact h.calm (hw.lt hf.alive) rfl
    (hf.calm hw.kernelInv hs (fun _ _ => semEvent_ne_wait hwait) fun _ => semEvent_ne_post hpost)
    (fun _ _ => rfl) (Or.inl rfl) fun _ _ => le_rfl

/-- The new process is in the block `b`. -/
theorem spawns (h : TokensInv w) (hw : WorldInv w) (hp : w.kernel.running = some p)
    (hs : kernel.step w.kernel (.syscall dsosCallSpawn args) = .ok k)
    (hlast : (k.procs .ready).items.getLast? = some b) (hb : b < maxNumProcesses) (r : Role) :
    TokensInv ((w.entered k).setThread b (some (newThread r))) := by
  obtain ⟨hnone, -⟩ := hw.spawn_creates hp hs hlast
  obtain ⟨f, hf⟩ := hw.father
  refine h.calm hb rfl (hf.calm hw.kernelInv hs
    (fun _ _ => semEvent_ne_wait fun _ => syscall_ne (by decide))
    fun _ => semEvent_ne_post fun _ => syscall_ne (by decide))
    (fun q hq => setThread_of_ne _ _ hq) (Or.inr fun r g hmem => ?_) fun r g => ?_
  · obtain ⟨th, hth, -⟩ := h.queued r g b hmem
    cases hnone.symm.trans hth
  · rw [hnone]
    exact Nat.zero_le _

theorem step {n : Work} (h : TokensInv w) (hw : WorldInv w) (hn : ProgressInv w n)
    (hok : CallsSucceed w move) (hs : w.step move = .ok w') : TokensInv w' := by
  cases move with
  | tick =>
    obtain ⟨k, hk, hs⟩ := bind_ok.mp hs
    obtain rfl := Except.ok.inj hs
    exact h.acts hw (enterKernel_ok hk) (by simp) (by simp)
  | wait =>
    simp only [World.step] at hs
    split_ifs at hs
    obtain ⟨k, hk, hs⟩ := bind_ok.mp hs
    obtain rfl := Except.ok.inj hs
    exact h.acts hw (enterKernel_ok hk) (fun _ => syscall_ne (by decide))
      fun _ => syscall_ne (by decide)
  | spawn r =>
    have hw' := hw.step hs
    simp only [World.step] at hs
    split_ifs at hs with hf
    obtain ⟨p, hp⟩ := Option.ne_none_iff_exists'.mp hf.1
    obtain ⟨k, hk, hs⟩ := bind_ok.mp hs
    split at hs
    · cases hs
    rename_i b hb
    obtain rfl := Except.ok.inj hs
    exact h.spawns hw hp (enterKernel_ok hk) hb (hw'.thread_lt (setThread_self _ b _)) r
  | run fails =>
    cases fails with
    | true => exact absurd rfl hok.1
    | false =>
      have hsucc := fun p th => @CallsSucceed.succeeded w w' p th (.run false) hok hs
      simp only [World.step] at hs
      split at hs
      · cases hs
      rename_i p hp
      split at hs
      · cases hs
      rename_i th hth
      have hsucc' : ∀ th', w'.thread p = some th' → th'.Succeeded := fun th' => hsucc p th' hp
      refine h.runs hw hp hth hs hsucc' fun hnone => ?_
      cases runLine_progress (hn.fine p th hth) hs hsucc' with
      | ends line thread slots => exact line
      | goes th' thread role fine own others => cases hnone.symm.trans thread

theorem start : TokensInv World.start := by
  refine ⟨fun r g => ?_, fun r g b hb => ?_⟩
  · have hcount := WorldInv.start_counts r g
    have hused : World.start.used r g = 0 := by cases g <;> rfl
    rw [hused, value, hcount]
    have hnat : (0 : ℤ) ≤ World.start.inHands r g := Int.natCast_nonneg _
    have hmax := le_max_left (World.start.given r g) 0
    push_cast
    omega
  · have hnil : waiters World.start.kernel (Role.sem r g) = [] := by
      cases r <;> cases g <;> decide +kernel
    rw [hnil] at hb
    cases hb

end TokensInv

end DisastrOS
