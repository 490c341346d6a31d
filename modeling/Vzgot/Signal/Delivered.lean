import Vzgot.Library.Transition
import Vzgot.Signal.Checksig

/-!
# Calls of `apl_checksig` one after the other

A run is made of calls of `apl_checksig` (`lib/utlapl.c`), of their single accesses, and
of handlers, which may run between any two accesses and also between two calls. A counter
is a `sig_atomic_t` of 32 bits that begins again at its end.

A handler that runs between the test of its counter and the clearing has its count wiped
out, but then the switch is still ahead (`owed_step`). `deliver_reflected` is what this
gives for whole runs in which no counter of a stop signal comes back to zero by counting
(`Counted`). A signal that is counted `2^32` times in a row is forgotten
(`deliver_forgotten`).
-/

set_option autoImplicit false

namespace Vzgot.Signal

open Transition

/-- `sig_atomic_t` -/
abbrev SigAtomic := BitVec 32

/-- What may happen next. -/
inductive Event where
  | access
  | trap (sig : Nat)
  | call
  deriving DecidableEq

/-- A call makes accesses until it has returned; another one begins behind it. -/
def Check.next (c : Check SigAtomic) : Event → Option (Check SigAtomic)
  | .access => if c.pc = .done then none else some c.step
  | .trap sig => if sig < nsig then some (c.trap sig) else none
  | .call => if c.pc = .done then some (.start c.signals) else none

/-- Signals that stop the container. -/
def stopSignals : List Nat := [sigInt, sigHup, sigTerm, sigQuit]

/-- A handler of a stop signal does not bring its counter back to zero. -/
def Counted (c : Check SigAtomic) : Event → Prop
  | .trap sig => sig ∈ stopSignals → c.signals.counts sig + 1 ≠ 0
  | _ => True

/-- No flag of a stop signal that is up in `f` is down in `g`. -/
structure Flags.Kept (f g : Flags) : Prop where
  sigint : f.sigint = true → g.sigint = true
  sighup : f.sighup = true → g.sighup = true
  sigterm : f.sigterm = true → g.sigterm = true
  sigquit : f.sigquit = true → g.sigquit = true

/-- Accesses that a call can still make. -/
def CheckPc.left : CheckPc → Nat
  | .test i => 5 * (nsig - i) + 1
  | .sum i => 5 * (nsig - (i + 1)) + 5
  | .several i => 5 * (nsig - (i + 1)) + 4
  | .clear i => 5 * (nsig - (i + 1)) + 3
  | .latch i => 5 * (nsig - (i + 1)) + 2
  | .done => 0

section Steps

variable {sig : Nat} {c d : Check SigAtomic} {e : Event} {es : List Event} {f g k : Flags}

theorem Event.next_cases (h : c.next e = some d) :
    (e = .access ∧ c.pc ≠ .done ∧ d = c.step) ∨
      (∃ i, e = .trap i ∧ d = c.trap i) ∨
      (e = .call ∧ c.pc = .done ∧ d = .start c.signals) := by
  cases e with
  | access =>
      by_cases hdone : c.pc = .done
      · rw [Check.next, if_pos hdone] at h
        cases h
      · rw [Check.next, if_neg hdone] at h
        exact .inl ⟨rfl, hdone, (Option.some.inj h).symm⟩
  | trap i =>
      rw [Check.next] at h
      split at h
      · exact .inr (.inl ⟨i, rfl, (Option.some.inj h).symm⟩)
      · cases h
  | call =>
      by_cases hdone : c.pc = .done
      · rw [Check.next, if_pos hdone] at h
        exact .inr (.inr ⟨rfl, hdone, (Option.some.inj h).symm⟩)
      · rw [Check.next, if_neg hdone] at h
        cases h

/-! ## Flags -/

theorem Flags.Kept.refl (f : Flags) : f.Kept f := ⟨id, id, id, id⟩

theorem Flags.Kept.trans (h : f.Kept g) (h' : g.Kept k) : f.Kept k where
  sigint := h'.sigint ∘ h.sigint
  sighup := h'.sighup ∘ h.sighup
  sigterm := h'.sigterm ∘ h.sigterm
  sigquit := h'.sigquit ∘ h.sigquit

theorem kept_latch (f : Flags) (i : Nat) : f.Kept (f.latch i) := by
  unfold Flags.latch
  split <;> constructor <;> intro h <;> first | exact h | rfl

theorem kept_step (c : Check SigAtomic) : c.signals.flags.Kept c.step.signals.flags := by
  unfold Check.step
  split
  · split
    · exact .refl _
    · split <;> exact .refl _
  · exact .refl _
  · exact .refl _
  · exact .refl _
  · exact kept_latch _ _
  · exact .refl _

theorem kept_next (h : c.next e = some d) : c.signals.flags.Kept d.signals.flags := by
  rcases Event.next_cases h with ⟨rfl, -, rfl⟩ | ⟨i, rfl, rfl⟩ | ⟨rfl, -, rfl⟩
  · exact kept_step c
  · exact .refl _
  · exact .refl _

/-- No run takes a flag back. -/
theorem kept_run (h : run Check.next c es = some d) : c.signals.flags.Kept d.signals.flags := by
  have hkeep : ∀ m e n, c.signals.flags.Kept m.signals.flags → Check.next m e = some n →
      c.signals.flags.Kept n.signals.flags := fun _ _ _ hkept hnext => hkept.trans (kept_next hnext)
  exact run_invariant hkeep (.refl _) h

/-! ## Deliveries -/

theorem lt_nsig_of_stop (h : sig ∈ stopSignals) : sig < nsig := by
  simp only [stopSignals, List.mem_cons, List.not_mem_nil, or_false] at h
  rcases h with rfl | rfl | rfl | rfl <;> decide

theorem owed_next (hsig : sig ∈ stopSignals) (howed : Owed sig c) (hcounted : Counted c e)
    (h : c.next e = some d) : Owed sig d := by
  rcases Event.next_cases h with ⟨rfl, -, rfl⟩ | ⟨i, rfl, rfl⟩ | ⟨rfl, hdone, rfl⟩
  · exact owed_step howed
  · exact owed_trap (fun heq => hcounted (heq ▸ hsig)) howed
  · exact (howed.noted_start hdone).owed

theorem noted_next (hsig : sig ∈ stopSignals) (hnoted : Noted sig c) (hcounted : Counted c e)
    (h : c.next e = some d) : Noted sig d := by
  rcases Event.next_cases h with ⟨rfl, -, rfl⟩ | ⟨i, rfl, rfl⟩ | ⟨rfl, hdone, rfl⟩
  · exact noted_step (lt_nsig_of_stop hsig) hnoted
  · exact noted_trap (fun heq => hcounted (heq ▸ hsig)) hnoted
  · exact hnoted.owed.noted_start hdone

/-- What is owed when a call begins is raised when it has returned. -/
theorem raised_of_call {post : List Event} (hsig : sig ∈ stopSignals) (howed : Owed sig c)
    (hcounted : Meets Check.next Counted c (.call :: post))
    (hrun : run Check.next c (.call :: post) = some d) (hdone : d.pc = .done) :
    d.signals.flags.raised sig := by
  obtain ⟨n, hcall, hrest⟩ := run_cons_eq_some.1 hrun
  have hn : Noted sig n := by
    rcases Event.next_cases hcall with ⟨h, -⟩ | ⟨i, h, -⟩ | ⟨-, hreturned, rfl⟩
    · cases h
    · cases h
    · exact howed.noted_start hreturned
  have hkeep : ∀ m e n, Noted sig m → Counted m e → Check.next m e = some n → Noted sig n :=
    fun _ _ _ => noted_next hsig
  exact (meets_invariant hkeep hn (hcounted.2 n hcall) hrest).raised hdone

/-! ## The end of a call -/

theorem left_step (h : c.pc ≠ .done) : c.step.pc.left < c.pc.left := by
  cases hpc : c.pc with
  | test i =>
      simp only [Check.step, hpc]
      split
      · simp [CheckPc.left]
      · split <;> simp only [CheckPc.left] <;> omega
  | sum i => simp [Check.step, hpc, CheckPc.left]
  | several i => simp [Check.step, hpc, CheckPc.left]
  | clear i => simp [Check.step, hpc, CheckPc.left]
  | latch i => simp [Check.step, hpc, CheckPc.left]
  | done => exact absurd hpc h

/-- A call ends, whatever handlers run. -/
theorem count_access_le (h : run Check.next c es = some d) (hes : Event.call ∉ es) :
    es.count .access + d.pc.left ≤ c.pc.left := by
  induction es generalizing c with
  | nil =>
      obtain rfl : c = d := Option.some.inj h
      simp
  | cons e es ih =>
      obtain ⟨m, hm, hrest⟩ := run_cons_eq_some.1 h
      have hlater := ih hrest fun hmem => hes (List.mem_cons_of_mem e hmem)
      rcases Event.next_cases hm with ⟨rfl, hpc, rfl⟩ | ⟨i, rfl, rfl⟩ | ⟨rfl, -⟩
      · have hless := left_step hpc
        rw [List.count_cons_self]
        omega
      · rw [List.count_cons_of_ne (by simp)]
        exact hlater
      · exact absurd List.mem_cons_self hes

theorem access_of_ne_done (h : c.pc ≠ .done) : c.next .access = some c.step := if_neg h

end Steps

/-- In a run of calls and handlers where no counter of a stop signal is counted back to zero, a
stop signal is reflected in its flags when a call has returned that began behind the handler.
In every run no flag is taken back, and a call returns: it can go on until it has, and it makes
at most `left` accesses. -/
theorem deliver_reflected (s t : Check SigAtomic) (es : List Event)
    (h : run Check.next s es = some t) (hcounted : Meets Check.next Counted s es) :
    (∀ sig ∈ stopSignals, ∀ pre mid post, es = pre ++ .trap sig :: (mid ++ .call :: post) →
      t.pc = .done → t.signals.flags.raised sig) ∧
    s.signals.flags.Kept t.signals.flags ∧
    (t.pc ≠ .done → t.next .access = some t.step) ∧
    (.call ∉ es → es.count .access ≤ s.pc.left) := by
  refine ⟨?_, kept_run h, access_of_ne_done, fun hes => ?_⟩
  · rintro sig hsig pre mid post rfl hdone
    obtain ⟨a, hpre, hrest⟩ := run_append_eq_some.1 h
    obtain ⟨b, htrap, hrest⟩ := run_cons_eq_some.1 hrest
    obtain ⟨m, hmid, hcall⟩ := run_append_eq_some.1 hrest
    -- the guard along the three parts of the run
    have htail := ((meets_append hpre).1 hcounted).2
    obtain ⟨hmeetsMid, hmeetsCall⟩ := (meets_append hmid).1 (htail.2 b htrap)
    have howed : Owed sig b := by
      rcases Event.next_cases htrap with ⟨he, -⟩ | ⟨i, he, rfl⟩ | ⟨he, -⟩
      · cases he
      · cases he
        exact owed_trap_self (htail.1 hsig)
      · cases he
    have hkeep : ∀ m e n, Owed sig m → Counted m e → Check.next m e = some n → Owed sig n :=
      fun _ _ _ => owed_next hsig
    exact raised_of_call hsig (meets_invariant hkeep howed hmeetsMid hmid) hmeetsCall hcall hdone
  · exact Nat.le_trans (Nat.le_add_right _ _) (count_access_le h hes)

/-- No signal and no call yet. -/
def quiet : Check SigAtomic := ⟨⟨fun _ => 0, ⟨false, false, false, false, false, 0⟩⟩, .done, 0⟩

/-- `SIGQUIT` is counted a second time just before its counter is cleared. -/
def twiceQuit : List Event :=
  .trap sigQuit :: ([] ++ .call :: (List.replicate 5 .access ++ .trap sigQuit :: List.replicate 65 .access))

/-- `Counted`, as a test. -/
def countedTest (c : Check SigAtomic) : Event → Bool
  | .trap sig => c.signals.counts sig + 1 ≠ 0
  | _ => true

theorem deliver_reflected_sigquit :
    ∃ t, run Check.next quiet twiceQuit = some t ∧ t.pc = .done ∧
      t.signals.flags.sigquit = true ∧ t.signals.flags.sigterm = true := by
  have hrun : ∃ t, run Check.next quiet twiceQuit = some t ∧ t.pc = .done := exists_run (by decide)
  obtain ⟨t, ht, hdone⟩ := hrun
  have hcounted : Meets Check.next Counted quiet twiceQuit := by
    have htest : checkMeets Check.next countedTest quiet twiceQuit = true := by decide
    refine (meets_of_check htest).mono ?_
    rintro c (_ | sig | _) h
    · trivial
    · exact fun _ => of_decide_eq_true h
    · trivial
  have hraised := (deliver_reflected quiet t twiceQuit ht hcounted).1 sigQuit (by decide) [] [] _ rfl hdone
  exact ⟨t, ht, hdone, hraised⟩

/-- So many handlers of one signal. -/
theorem run_replicate_trap {sig : Nat} (hsig : sig < nsig) (c : Check SigAtomic) (n : Nat) :
    run Check.next c (List.replicate n (.trap sig)) = some { c with
      signals.counts := Function.update c.signals.counts sig
        (c.signals.counts sig + BitVec.ofNat 32 n) } := by
  induction n generalizing c with
  | zero => simp
  | succ n ih =>
      have hnext : c.next (.trap sig) = some (c.trap sig) := if_pos hsig
      have hcount : c.signals.counts sig + 1 + BitVec.ofNat 32 n =
          c.signals.counts sig + BitVec.ofNat 32 (n + 1) := by
        rw [BitVec.ofNat_add, BitVec.add_assoc, BitVec.add_comm 1]
        rfl
      rw [List.replicate_succ, run_cons, hnext, Option.bind_some, ih]
      simp only [Check.trap, Signals.trap, Function.update_self, Function.update_idem, hcount]

/-- Handlers that bring the counter of `SIGTERM` back to zero, then a call. -/
def manyTerm : List Event :=
  List.replicate (2 ^ 32) (.trap sigTerm) ++ .call :: List.replicate 66 .access

/-- `SIGTERM` has been delivered before the call, and its flag is down when the call returns. -/
theorem deliver_forgotten :
    ∃ pre post t, manyTerm = pre ++ .trap sigTerm :: ([] ++ .call :: post) ∧
      run Check.next quiet manyTerm = some t ∧ t.pc = .done ∧ ¬ t.signals.flags.raised sigTerm := by
  have hmany : run Check.next quiet (List.replicate (2 ^ 32) (.trap sigTerm)) = some quiet := by
    have hcount : (0 : SigAtomic) + BitVec.ofNat 32 (2 ^ 32) = 0 := by decide
    have hsame : Function.update (fun _ => (0 : SigAtomic)) sigTerm 0 = fun _ => 0 :=
      Function.update_eq_self sigTerm _
    rw [run_replicate_trap (by decide)]
    simp only [quiet, hcount, hsame]
  have hcall : ∃ t, run Check.next quiet (.call :: List.replicate 66 .access) = some t ∧
      (t.pc = .done ∧ t.signals.flags.sigterm = false) := exists_run (by decide)
  obtain ⟨t, ht, hdone, hdown⟩ := hcall
  refine ⟨List.replicate (2 ^ 32 - 1) (.trap sigTerm), List.replicate 66 .access, t, ?_, ?_, hdone, ?_⟩
  · have hsplit : List.replicate (2 ^ 32) (Event.trap sigTerm) =
        List.replicate (2 ^ 32 - 1) (.trap sigTerm) ++ [.trap sigTerm] := List.replicate_succ'
    rw [manyTerm, hsplit, List.append_assoc]
    rfl
  · exact run_append_eq_some.2 ⟨quiet, hmany, ht⟩
  · intro hraised
    have hup : t.signals.flags.sigterm = true := hraised
    rw [hdown] at hup
    cases hup

end Vzgot.Signal
