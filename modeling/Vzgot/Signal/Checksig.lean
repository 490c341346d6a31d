import Mathlib.Algebra.GroupWithZero.Nat
import Mathlib.Data.BitVec
import Mathlib.Logic.Function.Basic

/-!
# Signals

`trapsig` (`lib/utlapl.c`) counts a signal; `apl_checksig` looks at the counters one
after the other, clears those that are not zero, and latches the flag of each such
signal. A handler can run between any two reads or writes of `apl_checksig`, so the
function is modelled by its single accesses (`Check.step`), and a signal is counted at
any point of it (`Check.trap`). The type `κ` of the counters is left open: 32 bits, or a
number where no counter comes to its end. A count is lost when it makes its counter zero
again (`noted_trap`).

`Noted` says that a call of `apl_checksig` will have raised the flag of a signal when it
returns, `Owed` that a later call will at the latest.
-/

set_option autoImplicit false

namespace Vzgot.Signal

/-- `_NSIG`. -/
def nsig : Nat := 65

/-! Signals of the switch in `apl_checksig`. -/

@[match_pattern] abbrev sigHup : Nat := 1
@[match_pattern] abbrev sigInt : Nat := 2
@[match_pattern] abbrev sigQuit : Nat := 3
@[match_pattern] abbrev sigUsr1 : Nat := 10
@[match_pattern] abbrev sigUsr2 : Nat := 12
@[match_pattern] abbrev sigTerm : Nat := 15
@[match_pattern] abbrev sigCont : Nat := 18

/-- Flags set by `apl_checksig`. -/
structure Flags where
  sigterm : Bool
  sigquit : Bool
  sigint : Bool
  sighup : Bool
  sigcont : Bool
  debug : Nat

/-- The switch of `apl_checksig`; the other signals are only logged. -/
def Flags.latch (f : Flags) : Nat → Flags
  | sigInt => { f with sigint := true }
  | sigHup => { f with sighup := true }
  | sigQuit => { f with sigquit := true, sigterm := true }
  | sigUsr1 => { f with debug := f.debug + 1 }
  | sigUsr2 => { f with debug := f.debug - 1 }
  | sigTerm => { f with sigterm := true }
  | sigCont => { f with sigcont := true }
  | _ => f

/-- `signal_counts` and the flags. -/
structure Signals (κ : Type) where
  counts : Nat → κ
  flags : Flags

/-- Next access of `apl_checksig` to the counter `i`: the test for zero, the addition to
`count`, the test for several, the clearing, the switch; or the return. -/
inductive CheckPc where
  | test (i : Nat)
  | sum (i : Nat)
  | several (i : Nat)
  | clear (i : Nat)
  | latch (i : Nat)
  | done
  deriving DecidableEq

/-- A call of `apl_checksig` in progress. -/
structure Check (κ : Type) where
  signals : Signals κ
  pc : CheckPc
  count : κ

section Code

variable {κ : Type}

/-- `trapsig`. -/
def Signals.trap [One κ] [Add κ] (s : Signals κ) (sig : Nat) : Signals κ :=
  { s with counts := Function.update s.counts sig (s.counts sig + 1) }

/-- `apl_checksig` is called. -/
def Check.start [Zero κ] (s : Signals κ) : Check κ := ⟨s, .test 0, 0⟩

/-- One access of `apl_checksig`. -/
def Check.step [Zero κ] [Add κ] [DecidableEq κ] (c : Check κ) : Check κ :=
  match c.pc with
  | .test i =>
      if nsig ≤ i then { c with pc := .done }
      else if c.signals.counts i = 0 then { c with pc := .test (i + 1) }
      else { c with pc := .sum i }
  | .sum i => { c with count := c.count + c.signals.counts i, pc := .several i }
  | .several i => { c with pc := .clear i }
  | .clear i =>
      { c with signals.counts := Function.update c.signals.counts i 0, pc := .latch i }
  | .latch i => { c with signals.flags := c.signals.flags.latch i, pc := .test (i + 1) }
  | .done => c

/-- A handler runs during the call. -/
def Check.trap [One κ] [Add κ] (c : Check κ) (sig : Nat) : Check κ :=
  { c with signals := c.signals.trap sig }

end Code

/-- The flags of a signal are raised; the other signals have none. -/
def Flags.raised (f : Flags) : Nat → Prop
  | sigInt => f.sigint = true
  | sigHup => f.sighup = true
  | sigQuit => f.sigquit = true ∧ f.sigterm = true
  | sigTerm => f.sigterm = true
  | sigCont => f.sigcont = true
  | _ => True

/-- The call has still to look at the counter. -/
def CheckPc.reaches (sig : Nat) : CheckPc → Prop
  | .test i | .sum i | .several i | .clear i => i ≤ sig
  | .latch i => i < sig
  | .done => False

section Calls

variable {κ : Type} [Zero κ] {sig : Nat} {c : Check κ} {f : Flags}

/-- The flag of the signal will be raised when the call returns. -/
def Noted (sig : Nat) (c : Check κ) : Prop :=
  c.signals.flags.raised sig ∨ c.pc = .latch sig ∨ (c.signals.counts sig ≠ 0 ∧ c.pc.reaches sig)

/-- The flag of the signal is raised, or this call or the next one will raise it. -/
def Owed (sig : Nat) (c : Check κ) : Prop :=
  c.signals.flags.raised sig ∨ c.pc = .latch sig ∨ c.signals.counts sig ≠ 0

theorem raised_latch_self (f : Flags) (sig : Nat) : (f.latch sig).raised sig := by
  unfold Flags.raised
  split <;> simp [Flags.latch]

/-- A flag is never lowered. -/
theorem raised_latch (h : f.raised sig) (i : Nat) : (f.latch i).raised sig := by
  unfold Flags.latch
  split <;> unfold Flags.raised at h ⊢ <;> split <;> simp_all

/-- When the call returns, the flag is raised. -/
theorem Noted.raised (h : Noted sig c) (hdone : c.pc = .done) : c.signals.flags.raised sig := by
  rcases h with hraised | hlatch | ⟨-, hreach⟩
  · exact hraised
  · rw [hdone] at hlatch
    cases hlatch
  · rw [hdone] at hreach
    exact hreach.elim

theorem Noted.owed (h : Noted sig c) : Owed sig c :=
  h.imp_right (Or.imp_right (·.1))

/-- What is owed when no call is in progress is noted by the next call. -/
theorem Owed.noted_start (h : Owed sig c) (hdone : c.pc = .done) : Noted sig (.start c.signals) := by
  rcases h with hraised | hlatch | hcount
  · exact .inl hraised
  · rw [hdone] at hlatch
    cases hlatch
  · exact .inr (.inr ⟨hcount, Nat.zero_le _⟩)

/-! ## A handler -/

section Trap

variable [One κ] [Add κ] {i : Nat}

/-- A handler takes no count away, unless its own counter comes back to zero. -/
theorem counts_trap (hend : i = sig → c.signals.counts i + 1 ≠ 0) (h : c.signals.counts sig ≠ 0) :
    (c.trap i).signals.counts sig ≠ 0 := by
  simp only [Check.trap, Signals.trap, Function.update_apply]
  split
  · rename_i heq
    exact hend heq.symm
  · exact h

theorem noted_trap (hend : i = sig → c.signals.counts i + 1 ≠ 0) (h : Noted sig c) :
    Noted sig (c.trap i) := by
  rcases h with hraised | hlatch | ⟨hcount, hreach⟩
  · exact .inl hraised
  · exact .inr (.inl hlatch)
  · exact .inr (.inr ⟨counts_trap hend hcount, hreach⟩)

theorem owed_trap (hend : i = sig → c.signals.counts i + 1 ≠ 0) (h : Owed sig c) :
    Owed sig (c.trap i) := by
  rcases h with hraised | hlatch | hcount
  · exact .inl hraised
  · exact .inr (.inl hlatch)
  · exact .inr (.inr (counts_trap hend hcount))

theorem owed_trap_self (hend : c.signals.counts sig + 1 ≠ 0) : Owed sig (c.trap sig) := by
  refine .inr (.inr ?_)
  simp only [Check.trap, Signals.trap, Function.update_self]
  exact hend

end Trap

/-! ## An access -/

section Step

variable [Add κ] [DecidableEq κ]

theorem raised_step (h : c.signals.flags.raised sig) : c.step.signals.flags.raised sig := by
  unfold Check.step
  split
  · split
    · exact h
    · split <;> exact h
  · exact h
  · exact h
  · exact h
  · exact raised_latch h _
  · exact h

theorem noted_step (hsig : sig < nsig) (h : Noted sig c) : Noted sig c.step := by
  rcases h with hraised | hlatch | ⟨hcount, hreach⟩
  · exact .inl (raised_step hraised)
  · left
    simp only [Check.step, hlatch]
    exact raised_latch_self _ _
  · unfold Check.step
    split <;> rename_i i hpc <;> rw [hpc] at hreach
    · have hi : i ≤ sig := hreach
      rw [if_neg (by omega)]
      split
      · rename_i hzero
        have hne : i ≠ sig := by
          rintro rfl
          exact hcount hzero
        exact .inr (.inr ⟨hcount, by show i + 1 ≤ sig; omega⟩)
      · exact .inr (.inr ⟨hcount, hi⟩)
    · exact .inr (.inr ⟨hcount, hreach⟩)
    · exact .inr (.inr ⟨hcount, hreach⟩)
    · -- the counter itself is cleared, or one before it
      have hi : i ≤ sig := hreach
      rcases Nat.lt_or_eq_of_le hi with hlt | rfl
      · refine .inr (.inr ⟨?_, hlt⟩)
        simpa only [Function.update_of_ne (Nat.ne_of_gt hlt)] using hcount
      · exact .inr (.inl rfl)
    · have hi : i < sig := hreach
      exact .inr (.inr ⟨hcount, hi⟩)
    · exact hreach.elim

theorem owed_step (h : Owed sig c) : Owed sig c.step := by
  rcases h with hraised | hlatch | hcount
  · exact .inl (raised_step hraised)
  · left
    simp only [Check.step, hlatch]
    exact raised_latch_self _ _
  · unfold Check.step
    split
    · split
      · exact .inr (.inr hcount)
      · split <;> exact .inr (.inr hcount)
    · exact .inr (.inr hcount)
    · exact .inr (.inr hcount)
    · rename_i i _
      by_cases hi : sig = i
      · exact .inr (.inl (by rw [hi]))
      · refine .inr (.inr ?_)
        simpa only [Function.update_of_ne hi] using hcount
    · exact .inr (.inr hcount)
    · exact .inr (.inr hcount)

end Step

end Calls

end Vzgot.Signal
