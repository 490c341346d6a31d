import Mathlib.Logic.Function.Basic
import Vzgot.Boot.History

/-!
# The clearance of the container process

`boot` creates the container process in phase 8 and writes one byte into the pipe in
phase 12. `start_clone`, in the container process, closes its end for writing, reads
one byte, and goes to `doboot` only with it. The machine of this module is the
supervisor together with the container processes of all its attempts, in any
interleaving.

The byte stands for the boot script, the cgroup, the move to the containers cgroup, the
id maps and the network script. Phases 2 and 11 look at `pclose` only for an error, and
phase 10 drops both its results, so the byte is sent behind a script that failed and
behind a container that was not moved or not mapped.
-/

set_option autoImplicit false

namespace Vzgot.Boot

open Transition

/-- What a clearance stands for, in the attempt `k`. -/
structure Confined (k : Nat) (ops : List (Nat × BootOp)) : Prop where
  bootScript : (k, .script .vzboot (.exited 0)) ∈ ops
  cgroup : (k, .setCgroup true) ∈ ops
  moved : (k, .moveToCgroup .containers true) ∈ ops
  mapped : (k, .mapcontids true) ∈ ops
  netScript : (k, .script .vzethup (.exited 0)) ∈ ops

/-- Failures that `boot` does not look at. -/
def BootOp.dropped : BootOp → Bool
  | .script .vzboot (.exited status) | .script .vzethup (.exited status) => status ≠ 0
  | .moveToCgroup .containers ok | .mapcontids ok => !ok
  | _ => false

/-- The clearance is not sent in an attempt with a dropped failure. -/
def NoDrop (s : BootState) (a : BootAnswer) : Prop :=
  a = .clearance true → ∀ op, (s.attempt, op) ∈ s.ops → op.dropped = false

/-! ## The container process -/

/-- Where a container process stands: not created, in the phases 0 and 1 of
`start_clone`, in `doboot`, or gone. -/
inductive ClonePc where
  | absent
  | closing
  | reading
  | booting
  | exited
  deriving DecidableEq

/-- A container process, with the descriptor that the supervisor writes to. -/
structure Clone where
  pc : ClonePc
  writeEnd : Int

/-- Step of a container process. The read gives the byte, the end of the pipe, or an
error. -/
inductive CloneEvent where
  | close
  | readByte
  | readEnd
  | readError
  | down

/-- `start_clone`, in the process of the attempt `k`. -/
def startClone (k : Nat) (ops : List (Nat × BootOp)) (c : Clone) : CloneEvent → Option ClonePc
  | .close => if c.pc = .closing then some .reading else none
  | .readByte => if c.pc = .reading ∧ (k, .clearance true) ∈ ops then some .booting else none
  | .readEnd =>
      if c.pc = .reading ∧ (k, .clearance true) ∉ ops ∧ (k, .close c.writeEnd) ∈ ops then
        some .exited
      else none
  | .readError => if c.pc = .reading then some .exited else none
  | .down => if c.pc = .absent ∨ c.pc = .exited then none else some .exited

/-- The supervisor and the container process of each attempt. -/
structure Pair where
  boot : BootState
  clones : Nat → Clone

/-- Step of the supervisor, or of the container process of the attempt `k`. -/
inductive PairEvent where
  | boot (a : BootAnswer)
  | clone (k : Nat) (e : CloneEvent)

/-- Container processes behind a step of the supervisor. -/
def clonesAfter (s : Pair) : BootAnswer → Nat → Clone
  | .clone (some _) => Function.update s.clones s.boot.attempt ⟨.closing, s.boot.vars.syncPipe1⟩
  | _ => s.clones

/-- One step of the two parties. -/
def pairStep (name : List Char) (s : Pair) : PairEvent → Option Pair
  | .boot a => (bootStep name s.boot a).map fun b => ⟨b, clonesAfter s a⟩
  | .clone k e =>
      (startClone k s.boot.ops (s.clones k) e).map fun pc =>
        { s with clones := Function.update s.clones k { s.clones k with pc := pc } }

/-- Before `boot`. -/
def pairInit : Pair := ⟨bootInit, fun _ => ⟨.absent, 0⟩⟩

/-- Step of the supervisor, if it is one. -/
def PairEvent.answer : PairEvent → Option BootAnswer
  | .boot a => some a
  | .clone _ _ => none

/-- The attempt is over. -/
def Pair.over (s : Pair) (k : Nat) : Prop := s.boot.returned ∨ k < s.boot.attempt

/-- A container process is in `doboot` only behind the steps its clearance stands for. Behind
an attempt without one of them it is gone, or it finds the pipe closed and empty. -/
def ClearanceSafe (s : Pair) : Prop :=
  ∀ k, ((s.clones k).pc = .booting → Confined k s.boot.ops) ∧
    (s.over k → ¬ Confined k s.boot.ops →
      (s.clones k).pc = .absent ∨ (s.clones k).pc = .exited ∨
        ((k, .close (s.clones k).writeEnd) ∈ s.boot.ops ∧ (k, .clearance true) ∉ s.boot.ops))

/-! ## What the supervisor has done at phase 12 -/

/-- Place of the steps that a clearance stands for and that may fail unseen. -/
def BootOp.slot : BootOp → Option Nat
  | .script .vzboot _ => some 0
  | .moveToCgroup .containers _ => some 1
  | .mapcontids _ => some 2
  | .script .vzethup _ => some 3
  | _ => none

/-- Each of these steps has one result in an attempt. -/
def Once (ops : List (Nat × BootOp)) : Prop :=
  ∀ k op op' n, (k, op) ∈ ops → (k, op') ∈ ops → op.slot = some n → op'.slot = some n → op = op'

/-- What is known to have succeeded, or to have a result, before phase 12. -/
structure Prepared (s : BootState) : Prop where
  booted : 3 ≤ s.phase → s.phase ≤ 12 →
    ∃ status, (s.attempt, .script .vzboot (.exited status)) ∈ s.ops
  cgroup : 6 ≤ s.phase → s.phase ≤ 12 → (s.attempt, .setCgroup true) ∈ s.ops
  moved : 11 ≤ s.phase → s.phase ≤ 12 → ∃ ok, (s.attempt, .moveToCgroup .containers ok) ∈ s.ops
  mapped : 11 ≤ s.phase → s.phase ≤ 12 → ∃ ok, (s.attempt, .mapcontids ok) ∈ s.ops
  network : s.phase = 12 → ∃ status, (s.attempt, .script .vzethup (.exited status)) ∈ s.ops

section Supervisor

variable {name : List Char} {s t : BootState} {a : BootAnswer} {w : Work}

/-- Phase of such a step. -/
def slotHome : Nat → Nat
  | 0 => 2
  | 3 => 11
  | _ => 10

theorem slot_home {op : BootOp} {n : Nat} (h : op.slot = some n) : op.home = some (slotHome n) := by
  unfold BootOp.slot at h
  split at h <;> cases h <;> rfl

theorem bootPhase_slot {phase : Nat} {v : BootVars} (h : bootPhase name phase v a = some w)
    {op op' : BootOp} (hop : op ∈ w.ops) (hop' : op' ∈ w.ops) {n : Nat}
    (hn : op.slot = some n) (hn' : op'.slot = some n) : op = op' := by
  have hphase := bootPhase_mem h (slot_home hn) hop
  have hphases : phase = 2 ∨ phase = 10 ∨ phase = 11 := by
    rw [hphase]
    unfold slotHome
    split <;> simp
  rcases hphases with rfl | rfl | rfl
  · obtain ⟨fate, rfl⟩ := bootPhase_script h
    cases hfate : cntInitscript fate <;>
      simp only [Work.check, hfate, Work.done, Work.bad] at hop hop' <;>
      grind [BootOp.slot]
  · obtain ⟨moved, mapped, rfl⟩ := bootPhase_confine h
    simp only [Work.done] at hop hop'
    grind [BootOp.slot]
  · obtain ⟨fate, -, rfl⟩ := bootPhase_network h
    cases hfate : cntInitscript fate <;>
      simp only [Work.check, hfate, Work.done, Work.bad] at hop hop' <;>
      grind [BootOp.slot]

theorem once_step (hc : Chronicled s) (hs : Once s.ops) (h : bootStep name s a = some t) :
    Once t.ops := by
  obtain ⟨-, w, hw, rfl⟩ := bootStep_eq_some.1 h
  intro k op op' n hop hop' hn hn'
  have hp := slot_home hn
  have hp' := slot_home hn'
  -- an operation of this phase and one of the past belong to different phases
  rcases mem_after_ops hop with ⟨heq, hnew⟩ | hold <;>
    rcases mem_after_ops hop' with ⟨heq', hnew'⟩ | hold'
  · exact bootPhase_slot hw hnew hnew' hn hn'
  · simp only at heq
    subst heq
    have := hc.behind op' _ hold' hp'
    exact absurd (bootPhase_mem hw hp hnew) (by omega)
  · simp only at heq'
    subst heq'
    have := hc.behind op _ hold hp
    exact absurd (bootPhase_mem hw hp' hnew') (by omega)
  · exact hs k op op' n hold hold' hn hn'

theorem once_run (hs : Chronicled s ∧ Once s.ops) (h : bootStep name s a = some t) :
    Chronicled t ∧ Once t.ops :=
  ⟨hs.1.step h, once_step hs.1 hs.2 h⟩

/-- A dropped failure is never made good in its attempt. -/
theorem dropped_not_confined (hs : Once s.ops) {k : Nat} {op : BootOp} (hop : (k, op) ∈ s.ops)
    (hd : op.dropped = true) : ¬ Confined k s.ops := by
  intro hc
  unfold BootOp.dropped at hd
  split at hd
  · have := hs k _ _ 0 hop hc.bootScript rfl rfl
    simp_all
  · have := hs k _ _ 3 hop hc.netScript rfl rfl
    simp_all
  · have := hs k _ _ 1 hop hc.moved rfl rfl
    simp_all
  · have := hs k _ _ 2 hop hc.mapped rfl rfl
    simp_all
  · cases hd

theorem cntInitscript_eq_true {fate : ScriptRun} (h : cntInitscript fate = true) :
    ∃ status, fate = .exited status := by
  cases fate with
  | exited status => exact ⟨status, rfl⟩
  | _ => cases h

/-- Between the phases 3 and 12 a step is the next phase of the same attempt. -/
theorem next_after (hw : bootPhase name s.phase s.vars a = some w) (hge : 3 ≤ (s.after w).phase)
    (hle : (s.after w).phase ≤ 12) :
    w.jump = .next ∧ (s.after w).phase = s.phase + 1 ∧ (s.after w).attempt = s.attempt := by
  have hphase : (s.after w).phase = w.jump.target s.phase := rfl
  rcases bootPhase_target hw with ⟨hj, h⟩ | ⟨-, -, h⟩ | ⟨-, -, h⟩ | ⟨-, -, h⟩ | ⟨-, hp, h⟩
  · exact ⟨hj, h, by simp [hj]⟩
  all_goals omega

theorem prepared_step (hs : Prepared s) (h : bootStep name s a = some t) : Prepared t := by
  obtain ⟨-, w, hw, rfl⟩ := bootStep_eq_some.1 h
  have hkeep : ∀ e, e ∈ s.ops → e ∈ (s.after w).ops := fun e he => List.mem_append_right _ he
  have hnew : ∀ op, op ∈ w.ops → (s.attempt, op) ∈ (s.after w).ops := fun op hop =>
    List.mem_append_left _ (List.mem_map_of_mem hop)
  refine ⟨fun hge hle => ?_, fun hge hle => ?_, fun hge hle => ?_, fun hge hle => ?_,
    fun heq => ?_⟩
  · -- the boot script has run in phase 2
    obtain ⟨hj, hphase, hattempt⟩ := next_after hw (by omega) hle
    rw [hattempt]
    by_cases h₂ : s.phase = 2
    · rw [h₂] at hw
      obtain ⟨fate, rfl⟩ := bootPhase_script hw
      obtain ⟨hok, hdone⟩ := check_jump (by rw [hj]; decide)
      obtain ⟨status, rfl⟩ := cntInitscript_eq_true hok
      exact ⟨status, hnew _ (by simp [hdone, Work.done])⟩
    · obtain ⟨status, hold⟩ := hs.booted (by omega) (by omega)
      exact ⟨status, hkeep _ hold⟩
  · -- the cgroup is set up in phase 5
    obtain ⟨hj, hphase, hattempt⟩ := next_after hw (by omega) hle
    rw [hattempt]
    by_cases h₅ : s.phase = 5
    · rw [h₅] at hw
      obtain ⟨ok, rfl⟩ := bootPhase_cgroup hw
      obtain ⟨rfl, hdone⟩ := check_jump (by rw [hj]; decide)
      exact hnew _ (by simp [hdone, Work.done])
    · exact hkeep _ (hs.cgroup (by omega) (by omega))
  · obtain ⟨hj, hphase, hattempt⟩ := next_after hw (by omega) hle
    rw [hattempt]
    by_cases h₁₀ : s.phase = 10
    · rw [h₁₀] at hw
      obtain ⟨moved, mapped, rfl⟩ := bootPhase_confine hw
      exact ⟨moved, hnew _ (by simp [Work.done])⟩
    · obtain ⟨ok, hold⟩ := hs.moved (by omega) (by omega)
      exact ⟨ok, hkeep _ hold⟩
  · obtain ⟨hj, hphase, hattempt⟩ := next_after hw (by omega) hle
    rw [hattempt]
    by_cases h₁₀ : s.phase = 10
    · rw [h₁₀] at hw
      obtain ⟨moved, mapped, rfl⟩ := bootPhase_confine hw
      exact ⟨mapped, hnew _ (by simp [Work.done])⟩
    · obtain ⟨ok, hold⟩ := hs.mapped (by omega) (by omega)
      exact ⟨ok, hkeep _ hold⟩
  · -- the network script has run in phase 11
    obtain ⟨hj, hphase, hattempt⟩ := next_after hw (by omega) (by omega)
    rw [hattempt]
    have h₁₁ : s.phase = 11 := by omega
    rw [h₁₁] at hw
    obtain ⟨fate, -, rfl⟩ := bootPhase_network hw
    obtain ⟨hok, hdone⟩ := check_jump (by rw [hj]; decide)
    obtain ⟨status, rfl⟩ := cntInitscript_eq_true hok
    exact ⟨status, hnew _ (by simp [hdone, Work.done])⟩

theorem confined_of_noDrop (hs : Prepared s) (h₁₂ : s.phase = 12)
    (hd : ∀ op, (s.attempt, op) ∈ s.ops → op.dropped = false) : Confined s.attempt s.ops := by
  obtain ⟨st, hboot⟩ := hs.booted (by omega) (by omega)
  obtain ⟨ok, hmove⟩ := hs.moved (by omega) (by omega)
  obtain ⟨ok', hmap⟩ := hs.mapped (by omega) (by omega)
  obtain ⟨st', hnet⟩ := hs.network h₁₂
  have hst := hd _ hboot
  have hok := hd _ hmove
  have hok' := hd _ hmap
  have hst' := hd _ hnet
  simp only [BootOp.dropped, ne_eq, decide_not, Bool.not_eq_false', decide_eq_true_eq] at *
  subst hst hok hok' hst'
  exact ⟨hboot, hs.cgroup (by omega) (by omega), hmove, hmap, hnet⟩

theorem Confined.append {k : Nat} {ops : List (Nat × BootOp)} (h : Confined k ops)
    (new : List (Nat × BootOp)) : Confined k (new ++ ops) :=
  ⟨List.mem_append_right _ h.bootScript, List.mem_append_right _ h.cgroup,
    List.mem_append_right _ h.moved, List.mem_append_right _ h.mapped,
    List.mem_append_right _ h.netScript⟩

theorem prepared_init : Prepared bootInit := by
  refine ⟨?_, ?_, ?_, ?_, ?_⟩ <;> intro hge <;> exact absurd hge (by decide)

theorem once_init : Once bootInit.ops := by simp [Once, bootInit]

end Supervisor

/-! ## The two parties -/

/-- Container processes and their pipes: one process for each attempt that has passed
phase 8, and its pipe closed by the supervisor from phase 17 on. -/
structure Paired (s : Pair) : Prop where
  chronicle : Chronicled s.boot
  later : ∀ k, s.boot.attempt < k → (s.clones k).pc = .absent
  early : s.boot.phase ≤ 8 → (s.clones s.boot.attempt).pc = .absent
  cleared : ∀ k, (s.clones k).pc = .booting → (k, .clearance true) ∈ s.boot.ops
  piped : 4 ≤ s.boot.phase → s.boot.phase ≤ 8 → 0 ≤ s.boot.vars.syncPipe0
  kept : s.boot.phase ≤ 16 → (s.clones s.boot.attempt).pc ≠ .absent →
    0 ≤ s.boot.vars.syncPipe0 ∧ s.boot.vars.syncPipe1 = (s.clones s.boot.attempt).writeEnd
  closed : 17 ≤ s.boot.phase → (s.clones s.boot.attempt).pc ≠ .absent →
    (s.boot.attempt, .close (s.clones s.boot.attempt).writeEnd) ∈ s.boot.ops
  past : ∀ k, k < s.boot.attempt → (s.clones k).pc ≠ .absent →
    (k, .close (s.clones k).writeEnd) ∈ s.boot.ops

section Pairs

variable {name : List Char} {s t : Pair}

theorem startClone_spec {k : Nat} {ops : List (Nat × BootOp)} {c : Clone} {e : CloneEvent}
    {pc : ClonePc} (h : startClone k ops c e = some pc) :
    c.pc ≠ .absent ∧ pc ≠ .absent ∧ (pc = .booting → (k, .clearance true) ∈ ops) := by
  cases e with
  | close =>
      simp only [startClone, Option.ite_none_right_eq_some, Option.some.injEq] at h
      obtain ⟨hc, rfl⟩ := h
      simp [hc]
  | readByte =>
      simp only [startClone, Option.ite_none_right_eq_some, Option.some.injEq] at h
      obtain ⟨⟨hc, hbyte⟩, rfl⟩ := h
      simp [hc, hbyte]
  | readEnd =>
      simp only [startClone, Option.ite_none_right_eq_some, Option.some.injEq] at h
      obtain ⟨⟨hc, -⟩, rfl⟩ := h
      simp [hc]
  | readError =>
      simp only [startClone, Option.ite_none_right_eq_some, Option.some.injEq] at h
      obtain ⟨hc, rfl⟩ := h
      simp [hc]
  | down =>
      simp only [startClone, Option.ite_none_left_eq_some, Option.some.injEq] at h
      obtain ⟨hc, rfl⟩ := h
      exact ⟨fun habs => hc (.inl habs), by decide, fun hb => nomatch hb⟩

/-- A step of a container process. -/
theorem paired_clone (hs : Paired s) {k : Nat} {e : CloneEvent}
    (h : pairStep name s (.clone k e) = some t) : Paired t := by
  simp only [pairStep, Option.map_eq_some_iff] at h
  obtain ⟨pc, hpc, rfl⟩ := h
  obtain ⟨hbefore, hafter, hbyte⟩ := startClone_spec hpc
  -- a step moves its process alone, which keeps its write end and its existence
  have hend : ∀ k', (Function.update s.clones k { s.clones k with pc := pc } k').writeEnd =
      (s.clones k').writeEnd := by
    intro k'
    by_cases hk : k' = k
    · rw [hk, Function.update_self]
    · rw [Function.update_of_ne hk]
  have habsent : ∀ k', (Function.update s.clones k { s.clones k with pc := pc } k').pc = .absent ↔
      (s.clones k').pc = .absent := by
    intro k'
    by_cases hk : k' = k
    · rw [hk, Function.update_self]
      exact iff_of_false hafter hbefore
    · rw [Function.update_of_ne hk]
  refine ⟨hs.chronicle, fun k' hk' => (habsent k').2 (hs.later k' hk'),
    fun hle => (habsent _).2 (hs.early hle), fun k' hb => ?_, hs.piped, fun hle hne => ?_,
    fun hge hne => ?_, fun k' hk' hne => ?_⟩
  · by_cases hk : k' = k
    · subst hk
      simp only [Function.update_self] at hb
      exact hbyte hb
    · simp only [Function.update_of_ne hk] at hb
      exact hs.cleared k' hb
  · rw [hend]
    exact hs.kept hle ((habsent _).not.1 hne)
  · rw [hend]
    exact hs.closed hge ((habsent _).not.1 hne)
  · rw [hend]
    exact hs.past k' hk' ((habsent _).not.1 hne)

theorem clonesAfter_of_ne {a : BootAnswer} (h : ∀ pid, a ≠ .clone (some pid)) :
    clonesAfter s a = s.clones := by
  unfold clonesAfter
  split
  · exact absurd rfl (h _)
  · rfl

/-- The supervisor leaves the container processes that exist alone. -/
theorem clonesAfter_of_present (hs : Paired s) {a : BootAnswer} {w : Work}
    (hw : bootPhase name s.boot.phase s.boot.vars a = some w) {k : Nat}
    (hk : (s.clones k).pc ≠ .absent) : clonesAfter s a k = s.clones k := by
  unfold clonesAfter
  split
  · have h₈ := (bootPhase_clone hw).1
    refine Function.update_of_ne ?_ _ _
    rintro rfl
    exact hk (hs.early (by omega))
  · rfl

/-- The step of the supervisor that creates a container process. -/
theorem paired_created (hs : Paired s) {pid : Nat} {w : Work}
    (hc : Chronicled (s.boot.after w))
    (hw : bootPhase name s.boot.phase s.boot.vars (.clone (some pid)) = some w) :
    Paired ⟨s.boot.after w, clonesAfter s (.clone (some pid))⟩ := by
  obtain ⟨h₈, rfl⟩ := bootPhase_clone hw
  have hpiped := hs.piped (by omega) (by omega)
  -- the new process is the one of this attempt, with the pipe that is open
  have hother : ∀ k, k ≠ s.boot.attempt →
      clonesAfter s (.clone (some pid)) k = s.clones k := fun k hk => Function.update_of_ne hk _ _
  have hself : clonesAfter s (.clone (some pid)) s.boot.attempt =
      ⟨.closing, s.boot.vars.syncPipe1⟩ := Function.update_self ..
  have hphase : (s.boot.after (.done { s.boot.vars with childPid := pid }
      [.close s.boot.vars.syncPipe0, .clone (some pid)])).phase = 9 := by
    simp [Work.done, Jump.target, h₈]
  have hattempt : (s.boot.after (.done { s.boot.vars with childPid := pid }
      [.close s.boot.vars.syncPipe0, .clone (some pid)])).attempt = s.boot.attempt :=
    attempt_after (by simp [Work.done])
  constructor <;> simp only [hphase, hattempt]
  · exact hc
  · intro k hk
    rw [hother k (Nat.ne_of_gt hk)]
    exact hs.later k hk
  · omega
  · intro k hb
    by_cases hk : k = s.boot.attempt
    · rw [hk, hself] at hb
      cases hb
    · rw [hother k hk] at hb
      exact List.mem_append_right _ (hs.cleared k hb)
  · omega
  · intro _ _
    rw [hself]
    exact ⟨hpiped, rfl⟩
  · omega
  · intro k hk hne
    rw [hother k (Nat.ne_of_lt hk)] at hne ⊢
    exact List.mem_append_right _ (hs.past k hk hne)

/-- The other steps of the supervisor. -/
theorem paired_boot (hs : Paired s) {a : BootAnswer} {w : Work}
    (hc : Chronicled (s.boot.after w))
    (hw : bootPhase name s.boot.phase s.boot.vars a = some w) :
    Paired ⟨s.boot.after w, s.clones⟩ := by
  have hkeep : ∀ e, e ∈ s.boot.ops → e ∈ (s.boot.after w).ops :=
    fun e he => List.mem_append_right _ he
  by_cases hj : w.jump = .reboot
  · -- an attempt begins, without a container process
    have hphase : (s.boot.after w).phase = 2 := by simp [hj, Jump.target]
    have hattempt : (s.boot.after w).attempt = s.boot.attempt + 1 := by
      rw [after_attempt, if_pos hj]
    have hjump := bootPhase_jump hw
    rw [hj] at hjump
    have habsent := hs.later (s.boot.attempt + 1) (Nat.lt_succ_self _)
    constructor <;> simp only [hphase, hattempt]
    · exact hc
    · exact fun k hk => hs.later k (Nat.lt_of_succ_lt hk)
    · exact fun _ => habsent
    · exact fun k hb => hkeep _ (hs.cleared k hb)
    · omega
    · exact fun _ hne => absurd habsent hne
    · omega
    · intro k hk hne
      rcases Nat.lt_succ_iff_lt_or_eq.1 hk with hlt | rfl
      · exact hkeep _ (hs.past k hlt hne)
      · exact hkeep _ (hs.closed (by omega) hne)
  · have hattempt : (s.boot.after w).attempt = s.boot.attempt := attempt_after hj
    have hphase := phase_after hw hj
    constructor <;> simp only [hattempt]
    · exact hc
    · exact hs.later
    · exact fun hle => hs.early (by omega)
    · exact fun k hb => hkeep _ (hs.cleared k hb)
    · intro hge hle
      by_cases h₃ : s.boot.phase = 3
      · -- the pipe is opened
        rw [h₃] at hw
        rcases bootPhase_opening hw with hbad | hopen
        · simp [hbad, Jump.target] at hle
        · exact hopen
      · rw [after_vars, (bootPhase_pipe hw h₃ (by omega)).1]
        exact hs.piped (by omega) (by omega)
    · intro hle hne
      have hlt : 8 < s.boot.phase := Nat.lt_of_not_le fun h => hne (hs.early h)
      obtain ⟨hread, hwrite⟩ := hs.kept (by omega) hne
      obtain ⟨h₀, h₁⟩ := bootPhase_pipe hw (by omega) (by omega)
      rw [after_vars, h₀, h₁]
      exact ⟨hread, hwrite⟩
    · intro hge hne
      by_cases h₁₆ : s.boot.phase = 16
      · -- the end for writing is closed
        obtain ⟨hread, hwrite⟩ := hs.kept (by omega) hne
        rw [h₁₆] at hw
        have hclose := closeSyncPipe_closes hread
        rw [← hwrite, bootPhase_closing hw]
        simp [Work.done, hclose]
      · exact hkeep _ (hs.closed (by omega) hne)
    · exact fun k hk hne => hkeep _ (hs.past k hk hne)

theorem paired_step {e : PairEvent} (hs : Paired s) (h : pairStep name s e = some t) :
    Paired t := by
  cases e with
  | clone k e => exact paired_clone hs h
  | boot a =>
      simp only [pairStep, Option.map_eq_some_iff] at h
      obtain ⟨b, hb, rfl⟩ := h
      have hc := hs.chronicle.step hb
      obtain ⟨-, w, hw, rfl⟩ := bootStep_eq_some.1 hb
      by_cases ha : ∃ pid, a = .clone (some pid)
      · obtain ⟨pid, rfl⟩ := ha
        exact paired_created hs hc hw
      · rw [clonesAfter_of_ne fun pid hpid => ha ⟨pid, hpid⟩]
        exact paired_boot hs hc hw

theorem paired_init : Paired pairInit := by
  refine ⟨chronicled_init, fun _ _ => rfl, fun _ => rfl, (by intro k hb; cases hb), ?_,
    fun _ hne => absurd rfl hne, fun _ hne => absurd rfl hne, fun _ _ hne => absurd rfl hne⟩
  intro hge
  exact absurd hge (by decide)

/-! ## Clearances without dropped failures -/

/-- What a guarded run keeps: every clearance so far stands for what it should. -/
structure Vouched (s : Pair) : Prop where
  paired : Paired s
  prepared : Prepared s.boot
  clearance : ∀ k, (k, .clearance true) ∈ s.boot.ops → Confined k s.boot.ops

/-- The guard on the steps of the supervisor. -/
def PairNoDrop (s : Pair) (e : PairEvent) : Prop := ∀ a, e.answer = some a → NoDrop s.boot a

theorem vouched_step {e : PairEvent} (hs : Vouched s) (hg : PairNoDrop s e)
    (h : pairStep name s e = some t) : Vouched t := by
  have hpaired := paired_step hs.paired h
  cases e with
  | clone k e =>
      simp only [pairStep, Option.map_eq_some_iff] at h
      obtain ⟨pc, -, rfl⟩ := h
      exact ⟨hpaired, hs.prepared, hs.clearance⟩
  | boot a =>
      simp only [pairStep, Option.map_eq_some_iff] at h
      obtain ⟨b, hb, rfl⟩ := h
      refine ⟨hpaired, prepared_step hs.prepared hb, fun k hk => ?_⟩
      obtain ⟨-, w, hw, rfl⟩ := bootStep_eq_some.1 hb
      refine Confined.append ?_ _
      rcases mem_after_ops hk with ⟨rfl, hnew⟩ | hold
      · -- the clearance is sent in this phase
        have h₁₂ := bootPhase_mem hw rfl hnew
        rw [h₁₂] at hw
        obtain ⟨sent, rfl, rfl⟩ := bootPhase_clearance hw
        have hsent : sent = true := by simpa [Work.done, eq_comm] using hnew
        exact confined_of_noDrop hs.prepared h₁₂ (hg _ rfl (by rw [hsent]))
      · exact hs.clearance k hold

theorem Vouched.safe (hs : Vouched s) : ClearanceSafe s := by
  intro k
  refine ⟨fun hb => hs.clearance k (hs.paired.cleared k hb), fun hover hno => ?_⟩
  by_cases habsent : (s.clones k).pc = .absent
  · exact .inl habsent
  · refine .inr (.inr ⟨?_, fun hbyte => hno (hs.clearance k hbyte)⟩)
    -- an earlier attempt, the current one of a run that has returned, or none
    rcases Nat.lt_trichotomy k s.boot.attempt with hlt | rfl | hgt
    · exact hs.paired.past k hlt habsent
    · have hret : s.boot.returned := hover.resolve_right (Nat.lt_irrefl _)
      refine hs.paired.closed ?_ habsent
      rcases hs.paired.chronicle.stopped hret with h₂ | h₂₃
      · exact absurd (hs.paired.early (by omega)) habsent
      · omega
    · exact absurd (hs.paired.later k hgt) habsent

theorem meets_pair {es : List PairEvent} {s : Pair}
    (h : Meets (bootStep name) NoDrop s.boot (es.filterMap PairEvent.answer)) :
    Meets (pairStep name) PairNoDrop s es := by
  induction es generalizing s with
  | nil => trivial
  | cons e es ih =>
      cases e with
      | boot a =>
          refine ⟨fun a' ha' => ?_, fun t ht => ih ?_⟩
          · cases ha'
            exact h.1
          · simp only [pairStep, Option.map_eq_some_iff] at ht
            obtain ⟨b, hb, rfl⟩ := ht
            exact h.2 b hb
      | clone k e =>
          refine ⟨fun a' ha' => (by cases ha'), fun t ht => ih ?_⟩
          simp only [pairStep, Option.map_eq_some_iff] at ht
          obtain ⟨pc, -, rfl⟩ := ht
          exact h

/-! ## The interleaving behind a dropped failure -/

/-- The container process of the attempt has not been scheduled yet. -/
def Waiting (s : Pair) : Prop :=
  9 ≤ s.boot.phase → s.boot.phase ≤ 12 → (s.clones s.boot.attempt).pc = .closing

theorem waiting_boot (hs : Waiting s) {a : BootAnswer} {b : BootState}
    (hb : bootStep name s.boot a = some b) : Waiting ⟨b, clonesAfter s a⟩ := by
  obtain ⟨-, w, hw, rfl⟩ := bootStep_eq_some.1 hb
  intro (hge : 9 ≤ (s.boot.after w).phase) (hle : (s.boot.after w).phase ≤ 12)
  obtain ⟨hj, hphase, hattempt⟩ := next_after hw (by omega) hle
  show (clonesAfter s a (s.boot.after w).attempt).pc = .closing
  rw [hattempt]
  by_cases h₈ : s.boot.phase = 8
  · rw [h₈] at hw
    rcases bootPhase_cloning hw with hbad | ⟨pid, rfl⟩
    · rw [hj] at hbad
      cases hbad
    · simp [clonesAfter]
  · rw [clonesAfter_of_ne]
    · exact hs (by omega) (by omega)
    · rintro pid rfl
      exact h₈ (bootPhase_clone hw).1

/-- The supervisor alone. -/
theorem lift_run {as : List BootAnswer} {b : BootState} (hs : Paired s)
    (h : run (bootStep name) s.boot as = some b) :
    ∃ t, run (pairStep name) s (as.map .boot) = some t ∧ t.boot = b ∧ (Waiting s → Waiting t) ∧
      ∀ k, (s.clones k).pc ≠ .absent → t.clones k = s.clones k := by
  induction as generalizing s with
  | nil => exact ⟨s, rfl, Option.some.inj h, id, fun _ _ => rfl⟩
  | cons a as ih =>
      obtain ⟨m, hm, hrun⟩ := run_cons_eq_some.1 h
      have hstep : pairStep name s (.boot a) = some ⟨m, clonesAfter s a⟩ := by
        simp [pairStep, hm]
      obtain ⟨t, ht, hboot, hwait, hkeep⟩ := ih (paired_step hs hstep) hrun
      refine ⟨t, run_cons_eq_some.2 ⟨_, hstep, ht⟩, hboot, fun hw => hwait (waiting_boot hw hm),
        fun k hk => ?_⟩
      obtain ⟨-, w, hw, rfl⟩ := bootStep_eq_some.1 hm
      have hpresent := clonesAfter_of_present hs hw hk
      exact (hkeep k (by simpa only [hpresent] using hk)).trans hpresent

/-- The container process of phase 12 goes to `doboot` as soon as the byte is sent. -/
theorem run_to_doboot {s : Pair} {n : BootState} (h₁₂ : s.boot.phase = 12)
    (hclosing : (s.clones s.boot.attempt).pc = .closing)
    (hn : bootStep name s.boot (.clearance true) = some n) :
    ∃ t, run (pairStep name) s [.boot (.clearance true), .clone s.boot.attempt .close,
        .clone s.boot.attempt .readByte] = some t ∧
      t.boot = n ∧ (t.clones s.boot.attempt).pc = .booting := by
  have hbyte : (s.boot.attempt, .clearance true) ∈ n.ops := by
    obtain ⟨-, w, hw, rfl⟩ := bootStep_eq_some.1 hn
    rw [h₁₂] at hw
    obtain ⟨sent, heq, rfl⟩ := bootPhase_clearance hw
    cases heq
    simp [Work.done]
  refine ⟨⟨n, Function.update s.clones s.boot.attempt
    ⟨.booting, (s.clones s.boot.attempt).writeEnd⟩⟩, ?_, rfl, by simp⟩
  simp [run_cons, pairStep, hn, clonesAfter, startClone, hclosing, hbyte]

theorem filterMap_answer (as : List BootAnswer) :
    (as.map PairEvent.boot).filterMap PairEvent.answer = as := by
  rw [List.filterMap_map]
  exact List.filterMap_some

/-- The interleaving in which the container process of a clearance is in `doboot` at the
end of the run. -/
theorem run_with_doboot {pre post : List BootAnswer} {m b : BootState}
    (hpre : run (bootStep name) bootInit pre = some m)
    (hpost : run (bootStep name) m (.clearance true :: post) = some b) :
    ∃ es t, es.filterMap PairEvent.answer = pre ++ .clearance true :: post ∧
      run (pairStep name) pairInit es = some t ∧ t.boot = b ∧
      (t.clones m.attempt).pc = .booting := by
  obtain ⟨n, hn, hrest⟩ := run_cons_eq_some.1 hpost
  obtain ⟨s, hs, rfl, hwait, -⟩ := lift_run paired_init hpre
  have hpaired := run_invariant (fun _ _ _ => paired_step) paired_init hs
  have hwaiting : Waiting s := hwait fun hge => absurd hge (by decide)
  have h₁₂ : s.boot.phase = 12 := by
    obtain ⟨-, w, hw, -⟩ := bootStep_eq_some.1 hn
    exact bootPhase_answer hw rfl
  obtain ⟨u, hu, rfl, hbooting⟩ := run_to_doboot h₁₂ (hwaiting (by omega) (by omega)) hn
  have hpaired' := run_invariant (fun _ _ _ => paired_step) hpaired hu
  obtain ⟨t, ht, hboot, -, hkeep⟩ := lift_run hpaired' hrest
  refine ⟨_, t, ?_, run_append_eq_some.2 ⟨s, hs, run_append_eq_some.2 ⟨u, hu, ht⟩⟩, hboot, ?_⟩
  · simp only [List.filterMap_append, filterMap_answer]
    rfl
  · rw [hkeep _ (by rw [hbooting]; decide), hbooting]

/-- Every interleaving of a run of `boot` with its container processes is safe if and only if the
run sends no clearance in an attempt with a dropped failure. -/
theorem boot_clearance_safe {as : List BootAnswer} {b : BootState}
    (h : run (bootStep name) bootInit as = some b) :
    (∀ es t, es.filterMap PairEvent.answer = as → run (pairStep name) pairInit es = some t →
      ClearanceSafe t) ↔ Meets (bootStep name) NoDrop bootInit as := by
  constructor
  · intro hall
    apply meets_of_forall
    intro pre a post m heq hm ha op hop
    subst heq ha
    obtain ⟨m', hm', hpost⟩ := run_append_eq_some.1 h
    obtain rfl : m = m' := Option.some.inj (hm.symm.trans hm')
    obtain ⟨es, t, hes, ht, rfl, hbooting⟩ := run_with_doboot hm hpost
    cases hd : op.dropped with
    | false => rfl
    | true =>
        have honce := run_invariant (fun _ _ _ hs => once_run hs) ⟨chronicled_init, once_init⟩ h
        have hop' := run_ops_mono hop hpost
        exact absurd ((hall es t hes ht m.attempt).1 hbooting)
          (dropped_not_confined honce.2 hop' hd)
  · rintro hm es t rfl ht
    have hinit : Vouched pairInit :=
      ⟨paired_init, prepared_init, fun k hk => absurd hk (by simp [pairInit, bootInit])⟩
    exact (meets_invariant (fun _ _ _ => vouched_step) hinit (meets_pair hm) ht).safe

end Pairs

/-- The run without failures: no interleaving of it is unsafe. -/
theorem boot_clearance_safe_plain : ∃ b,
    run (bootStep ['w', 'e', 'b']) bootInit plainBoot = some b ∧
      ((∀ es t, es.filterMap PairEvent.answer = plainBoot →
          run (pairStep ['w', 'e', 'b']) pairInit es = some t → ClearanceSafe t) ↔
        Meets (bootStep ['w', 'e', 'b']) NoDrop bootInit plainBoot) := by
  obtain ⟨b, h, -⟩ := plainBoot_run ['w', 'e', 'b']
  exact ⟨b, h, boot_clearance_safe h⟩

/-- The boot script ends with status 1, the container process is not moved to its
cgroup, and it is in `doboot`. -/
theorem clone_boots_unconfined : ∃ t,
    run (pairStep ['w', 'e', 'b']) pairInit
      [.boot (.config true), .boot (.lock true), .boot (.script (.exited 1)),
        .boot (.pipe (some (3, 4))), .boot (.pty (.ready 5)), .boot (.setCgroup true),
        .boot (.setSupDevices true), .boot (.console (.tracked 6 100)),
        .boot (.clone (some 101)), .clone 0 .close, .boot (.record .written true),
        .boot (.confine .noFile .written .written .written), .boot (.script (.exited 0)),
        .boot (.clearance true), .clone 0 .readByte] = some t ∧
      ¬ ClearanceSafe t := by
  have hrun : ∃ t, run (pairStep ['w', 'e', 'b']) pairInit
      [.boot (.config true), .boot (.lock true), .boot (.script (.exited 1)),
        .boot (.pipe (some (3, 4))), .boot (.pty (.ready 5)), .boot (.setCgroup true),
        .boot (.setSupDevices true), .boot (.console (.tracked 6 100)),
        .boot (.clone (some 101)), .clone 0 .close, .boot (.record .written true),
        .boot (.confine .noFile .written .written .written), .boot (.script (.exited 0)),
        .boot (.clearance true), .clone 0 .readByte] = some t ∧
      (t.clones 0).pc = .booting ∧ (0, .moveToCgroup .containers true) ∉ t.boot.ops :=
    exists_run (by decide)
  obtain ⟨t, h, hbooting, hmoved⟩ := hrun
  exact ⟨t, h, fun hs => hmoved ((hs 0).1 hbooting).moved⟩

end Vzgot.Boot
