import Vzgot.Boot.History
import Vzgot.Library.Serial
import Vzgot.Lock.Exclusion

/-!
# The supervisors of one container

Any number of processes execute `boot` for the same container, and they take turns in any
order, one call to the system at a time. A process comes behind phase 1 when its
`lck_locking` has returned true, and calls `LCK_UNLOCK` in phase 20. What it does between is
done to the container.

`supervisors_exclusive`: no two of them are there at the same time, and in the history of all
of them nobody else does anything to the container between two acts of one supervisor.
The runs are those of `lck_locking_exclusive`, with configurations that load: `TOOBAD` of
phase 0 leads to the clean-up without the lock (`supervisors_exclusive_unconfigured`).
-/

set_option autoImplicit false

namespace Vzgot.Supervisors

open Vzgot.Transition Vzgot.Boot Vzgot.Lock Vzgot.Marks

/-! ## The processes -/

/-- What a supervisor is seen to do: its process starts, or it executes an operation. -/
inductive Act where
  | started
  | did (op : BootOp)

/-- The lock of the container, the loop of `boot` of each process, and what all of them have
done, newest first. -/
structure Hall where
  lock : Lock.World
  boot : Nat → Option BootState
  acts : List (Nat × Act)

/-- A process starts `boot`, ends, or makes a call inside `lck_locking`; or the loop of `boot`
takes the result of a call. -/
inductive Event where
  | lock (e : LockEvent)
  | boot (pid : Nat) (a : BootAnswer)

/-- `lck_locking` is called with `LCK_LOCK` in phase 1, with 5 for `tentative`, and with
`LCK_UNLOCK` in phase 20. -/
def mayCall (b : Option BootState) : LockEvent → Bool
  | .lock _ tentative => b.any fun b => b.proceed && b.phase = 1 && tentative = 5
  | .unlock _ => b.any fun b => b.proceed && b.phase = 20
  | _ => true

/-- The results of `lck_locking` are those it has come to. -/
def agrees (pc : LckPc) : BootAnswer → Bool
  | .lock granted => pc = if granted then .granted else .refused
  | .unlock mkdir _ => pc = if mkdir then .outside else .granted
  | _ => true

/-- A process starts or ends with `boot`. -/
def bootOf (boot : Nat → Option BootState) : LockEvent → Nat → Option BootState
  | .fork p => Function.update boot p (some bootInit)
  | .exit p => Function.update boot p none
  | _ => boot

/-- What is seen of an event of the lock. -/
def seenOf : LockEvent → List (Nat × Act)
  | .fork p => [(p, .started)]
  | _ => []

/-- One event. -/
def step (name : List Char) (h : Hall) : Event → Option Hall
  | .lock e =>
      if mayCall (h.boot e.actor) e then
        (lockStep h.lock e).map fun w => ⟨w, bootOf h.boot e, seenOf e ++ h.acts⟩
      else none
  | .boot p a =>
      match h.boot p with
      | none => none
      | some b =>
          if h.lock.alive p && b.proceed && agrees (h.lock.pc p) a then
            (bootPhase name b.phase b.vars a).map fun w =>
              ⟨h.lock, Function.update h.boot p (some (b.after w)),
                w.ops.map (fun op => (p, .did op)) ++ h.acts⟩
          else none

/-- The supervisor is between its lock and its `LCK_UNLOCK`. -/
def Hall.Busy (h : Hall) (p : Nat) : Prop :=
  h.lock.alive p = true ∧ ∃ b, h.boot p = some b ∧ b.proceed = true ∧ 2 ≤ b.phase ∧ b.phase ≤ 19

theorem Hall.busy_iff (h : Hall) (p : Nat) :
    (h.lock.alive p = true ∧
      (h.boot p).any (fun b => b.proceed && decide (2 ≤ b.phase) && decide (b.phase ≤ 19)) = true) ↔
        h.Busy p := by
  simp [Hall.Busy, Option.any_eq_true, and_assoc]

instance (h : Hall) (p : Nat) : Decidable (h.Busy p) := decidable_of_iff _ (h.busy_iff p)

/-- The operation belongs to a phase between the lock and `LCK_UNLOCK`. -/
def touches (op : BootOp) : Bool := op.home.any fun phase => 2 ≤ phase && phase ≤ 19

/-- The mark that an act leaves in the history. -/
def markOf : Nat × Act → Option (Mark Nat)
  | (p, .started) => some (.start p)
  | (p, .did op) => if touches op then some (.act p) else none

/-- History of what is done to the container. -/
def Hall.marks (h : Hall) : List (Mark Nat) := h.acts.filterMap markOf

/-- Nobody has started yet. -/
structure Empty (h : Hall) : Prop where
  quiet : Quiet h.lock
  boot : ∀ p, h.boot p = none
  acts : h.acts = []

/-- An act of the lock agrees with what was examined, and a configuration loads. -/
def Sound (h : Hall) : Event → Prop
  | .lock e => StillValid h.lock e
  | .boot _ (.config loaded) => loaded = true
  | .boot _ _ => True

/-- An act of the lock agrees with what was examined; a configuration may not load. -/
def Locked (h : Hall) : Event → Prop
  | .lock e => StillValid h.lock e
  | .boot _ _ => True

/-! ## One event -/

/-- What holds in every state. -/
structure Inv (h : Hall) : Prop where
  lock : LockInv h.lock
  /-- A busy supervisor has been given the lock. -/
  granted : ∀ p, h.Busy p → h.lock.pc p = .granted
  serial : Serial h.marks
  /-- In front of the lock nothing is done to the container. -/
  fresh : ∀ p b, h.boot p = some b → b.phase ≤ 1 → Fresh p h.marks
  alone : ∀ p, h.Busy p → AloneSince p h.marks

section Step

variable {name : List Char} {h h' : Hall}

/-- An event of the lock leaves the other processes in their places. -/
theorem lockStep_others {w w' : World} {e : LockEvent} (hs : lockStep w e = some w') {q : Nat}
    (hq : q ≠ e.actor) : w'.alive q = w.alive q ∧ w'.pc q = w.pc q := by
  cases e with
  | lock p t =>
      simp only [lockStep, Option.ite_none_right_eq_some, Option.some.injEq] at hs
      exact hs.2 ▸ ⟨rfl, World.goto_pc_of_ne w _ hq⟩
  | unlock p =>
      simp only [lockStep, Option.ite_none_right_eq_some, Option.some.injEq] at hs
      exact hs.2 ▸ ⟨rfl, World.goto_pc_of_ne w _ hq⟩
  | call p r =>
      simp only [lockStep, Option.ite_none_right_eq_some] at hs
      obtain ⟨d, f, c, rfl⟩ := World.perform_eq hs.2
      exact ⟨rfl, World.goto_pc_of_ne _ c hq⟩
  | exit p =>
      simp only [lockStep, Option.ite_none_right_eq_some, Option.some.injEq] at hs
      rw [← hs.2]
      exact ⟨Function.update_of_ne hq .., World.goto_pc_of_ne _ _ hq⟩
  | fork p =>
      simp only [lockStep, Option.ite_none_left_eq_some, Option.some.injEq] at hs
      rw [← hs.2]
      exact ⟨Function.update_of_ne hq .., World.goto_pc_of_ne _ _ hq⟩

theorem bootOf_others (boot : Nat → Option BootState) {e : LockEvent} {q : Nat}
    (hq : q ≠ e.actor) : bootOf boot e q = boot q := by
  cases e with
  | fork p => exact Function.update_of_ne hq ..
  | exit p => exact Function.update_of_ne hq ..
  | lock p t => rfl
  | unlock p => rfl
  | call p r => rfl

/-- Behind an event of the lock its own process is not busy. -/
theorem not_busy_actor (hi : Inv h) {e : LockEvent} {w' : World}
    (hcall : mayCall (h.boot e.actor) e = true) (hs : lockStep h.lock e = some w') :
    ¬ Hall.Busy ⟨w', bootOf h.boot e, seenOf e ++ h.acts⟩ e.actor := by
  rintro ⟨-, b, hb, hproceed, hlow, hhigh⟩
  cases e with
  | lock p t =>
      -- `LCK_LOCK` belongs to phase 1
      change h.boot p = some b at hb
      simp [mayCall, LockEvent.actor, hb, hproceed] at hcall
      omega
  | unlock p =>
      change h.boot p = some b at hb
      simp [mayCall, LockEvent.actor, hb, hproceed] at hcall
      omega
  | call p r =>
      -- who has been given the lock makes no call inside `lck_locking`
      change h.boot p = some b at hb
      simp only [lockStep, Option.ite_none_right_eq_some] at hs
      have hpc := hi.granted p ⟨hs.1, b, hb, hproceed, hlow, hhigh⟩
      simp only [World.perform, hpc] at hs
      cases hs.2
  | exit p =>
      change Function.update h.boot p none p = some b at hb
      rw [Function.update_self] at hb
      cases hb
  | fork p =>
      change Function.update h.boot p (some bootInit) p = some b at hb
      rw [Function.update_self] at hb
      cases hb
      exact absurd hlow (by decide)

theorem Inv.unique (hi : Inv h) {p q : Nat} (hp : h.Busy p) (hq : h.Busy q) : p = q := by
  have howns : ∀ r, h.Busy r → h.lock.Owning r := by
    intro r hr
    refine ⟨hr.1, ?_⟩
    rw [hi.granted r hr]
    rfl
  exact hi.lock.unique p q (howns p hp) (howns q hq)

theorem inv_empty (he : Empty h) : Inv h where
  lock := lockInv_quiet he.quiet
  granted p hp := by
    obtain ⟨-, b, hb, -⟩ := hp
    rw [he.boot p] at hb
    cases hb
  serial := by
    rw [Hall.marks, he.acts]
    trivial
  fresh p b hb := by
    rw [he.boot p] at hb
    cases hb
  alone p hp := by
    obtain ⟨-, b, hb, -⟩ := hp
    rw [he.boot p] at hb
    cases hb

/-- An event of the lock leaves the other supervisors busy or not, as they are. -/
theorem busy_others {e : LockEvent} {w' : World} (hs : lockStep h.lock e = some w') {q : Nat}
    (hq : q ≠ e.actor) (acts : List (Nat × Act)) :
    Hall.Busy ⟨w', bootOf h.boot e, acts⟩ q ↔ h.Busy q := by
  change (w'.alive q = true ∧ ∃ b, bootOf h.boot e q = some b ∧ _) ↔ _
  rw [(lockStep_others hs hq).1, bootOf_others h.boot hq]
  rfl

/-- An event of the lock does nothing to the container. -/
theorem marks_lock (h : Hall) (e : LockEvent) (w' : World) :
    (e = .fork e.actor ∧
        Hall.marks ⟨w', bootOf h.boot e, seenOf e ++ h.acts⟩ = .start e.actor :: h.marks) ∨
      Hall.marks ⟨w', bootOf h.boot e, seenOf e ++ h.acts⟩ = h.marks := by
  cases e with
  | fork p => exact .inl ⟨rfl, rfl⟩
  | _ => exact .inr rfl

theorem inv_lock (hi : Inv h) {e : LockEvent} {w' : World}
    (hcall : mayCall (h.boot e.actor) e = true) (hv : StillValid h.lock e)
    (hs : lockStep h.lock e = some w') :
    Inv ⟨w', bootOf h.boot e, seenOf e ++ h.acts⟩ := by
  -- the actor is not busy, so nobody is busy who was not
  have hbusy : ∀ q, Hall.Busy ⟨w', bootOf h.boot e, seenOf e ++ h.acts⟩ q →
      q ≠ e.actor ∧ h.Busy q := by
    intro q hq
    have hne : q ≠ e.actor := by
      rintro rfl
      exact not_busy_actor hi hcall hs hq
    exact ⟨hne, (busy_others hs hne _).1 hq⟩
  constructor
  · exact lockInv_step hi.lock hv hs
  · intro q hq
    obtain ⟨hne, hq⟩ := hbusy q hq
    change w'.pc q = .granted
    rw [(lockStep_others hs hne).2]
    exact hi.granted q hq
  · rcases marks_lock h e w' with ⟨-, hm⟩ | hm
    · rw [hm]
      exact hi.serial
    · rw [hm]
      exact hi.serial
  · intro q b hb hphase
    change bootOf h.boot e q = some b at hb
    by_cases hne : q = e.actor
    · -- only a process that was just forked begins its `boot` here
      subst hne
      cases e with
      | fork p => exact fresh_start p h.marks
      | exit p =>
          change Function.update h.boot p none p = some b at hb
          rw [Function.update_self] at hb
          cases hb
      | lock p t => exact hi.fresh p b hb hphase
      | unlock p => exact hi.fresh p b hb hphase
      | call p r => exact hi.fresh p b hb hphase
    · rw [bootOf_others h.boot hne] at hb
      have hfresh := hi.fresh q b hb hphase
      rcases marks_lock h e w' with ⟨-, hm⟩ | hm
      · rw [hm]
        exact hfresh.start (Ne.symm hne)
      · rw [hm]
        exact hfresh
  · intro q hq
    obtain ⟨hne, hq⟩ := hbusy q hq
    have halone := hi.alone q hq
    rcases marks_lock h e w' with ⟨-, hm⟩ | hm
    · rw [hm]
      exact halone.start (Ne.symm hne)
    · rw [hm]
      exact halone

/-! ### A turn of the loop -/

/-- The marks of a turn are acts of its process. -/
theorem marks_turn (p : Nat) (ops : List BootOp) :
    (ops.map fun op => (p, Act.did op)).filterMap markOf =
      List.replicate (ops.countP touches) (.act p) := by
  induction ops with
  | nil => rfl
  | cons op ops ih =>
      rw [List.map_cons, List.countP_cons]
      cases ht : touches op with
      | true =>
          rw [List.filterMap_cons_some (b := .act p) (by rw [markOf, if_pos ht]), ih, if_pos rfl,
            List.replicate_succ]
      | false =>
          rw [List.filterMap_cons_none (by rw [markOf, ht]; rfl), ih]
          rfl

/-- Outside of the phases between the lock and `LCK_UNLOCK` nothing is done to the container. -/
theorem countP_touches {phase : Nat} {v : BootVars} {a : BootAnswer} {w : Work}
    (hw : bootPhase name phase v a = some w) (hphase : phase ≤ 1 ∨ 20 ≤ phase) :
    w.ops.countP touches = 0 := by
  rw [List.countP_eq_zero]
  intro op hop
  rcases bootPhase_home hw op hop with hhome | hhome
  · rw [touches, hhome]
    simp
  · rw [touches, hhome]
    simp
    omega

/-- A phase behind the lock is never followed by phase 0 or 1, and phase 20 by none before it. -/
theorem target_behind {phase : Nat} {v : BootVars} {a : BootAnswer} {w : Work}
    (hw : bootPhase name phase v a = some w) (hphase : 2 ≤ phase) :
    2 ≤ w.jump.target phase ∧ (20 ≤ phase → 20 ≤ w.jump.target phase) := by
  rcases bootPhase_target hw with ⟨-, h⟩ | ⟨-, hp, h⟩ | ⟨-, hp, h⟩ | ⟨-, hp, h⟩ | ⟨-, -, h⟩ <;>
    rw [h] <;> omega

/-- Phase 0 leads to phase 1 when the configuration loads. -/
theorem target_front {v : BootVars} {a : BootAnswer} {w : Work}
    (hw : bootPhase name 0 v a = some w) {p : Nat} (hv : Sound h (.boot p a)) :
    w.jump.target 0 = 1 := by
  cases a with
  | config loaded =>
      obtain rfl : loaded = true := hv
      simp only [bootPhase, Option.some.injEq] at hw
      subst hw
      rfl
  | _ => simp [bootPhase] at hw

section Turn

variable {p : Nat} {a : BootAnswer} {b : BootState} {w : Work}

/-- A supervisor that a turn leaves busy has been given the lock, and was alone so far. -/
theorem turn_busy (hi : Inv h) (hv : Sound h (.boot p a)) (hb : h.boot p = some b)
    (hok : h.lock.alive p = true ∧ b.proceed = true ∧ agrees (h.lock.pc p) a = true)
    (hw : bootPhase name b.phase b.vars a = some w)
    (hbusy : (b.after w).proceed = true ∧ 2 ≤ (b.after w).phase ∧ (b.after w).phase ≤ 19) :
    h.lock.pc p = .granted ∧ AloneSince p h.marks := by
  obtain ⟨halive, hproceed, hagrees⟩ := hok
  obtain ⟨hgo, hlow, hhigh⟩ := hbusy
  rw [after_phase] at hlow hhigh
  have hfront : b.phase = 0 ∨ b.phase = 1 ∨ 2 ≤ b.phase := by omega
  rcases hfront with hphase | hphase | hphase
  · rw [hphase] at hw hlow
    rw [target_front hw hv] at hlow
    omega
  · rw [hphase] at hw
    rcases bootPhase_locking hw with ⟨rfl, rfl⟩ | ⟨rfl, rfl⟩
    · refine ⟨?_, AloneSince.of_fresh (hi.fresh p b hb hphase.le)⟩
      simpa [agrees] using hagrees
    · -- `proceed=false`
      cases hgo
  · have hlast : b.phase ≤ 19 := by
      have htarget := (target_behind hw hphase).2
      omega
    have hp : h.Busy p := ⟨halive, b, hb, hproceed, hphase, hlast⟩
    exact ⟨hi.granted p hp, hi.alone p hp⟩

/-- The acts of a turn come from a supervisor that was alone so far. -/
theorem turn_acts (hb : h.boot p = some b)
    (hok : h.lock.alive p = true ∧ b.proceed = true)
    (hw : bootPhase name b.phase b.vars a = some w) :
    w.ops.countP touches = 0 ∨ h.Busy p := by
  by_cases hphase : b.phase ≤ 1 ∨ 20 ≤ b.phase
  · exact .inl (countP_touches hw hphase)
  · exact .inr ⟨hok.1, b, hb, hok.2, by omega, by omega⟩

theorem inv_boot (hi : Inv h) (hv : Sound h (.boot p a)) (hb : h.boot p = some b)
    (hok : h.lock.alive p = true ∧ b.proceed = true ∧ agrees (h.lock.pc p) a = true)
    (hw : bootPhase name b.phase b.vars a = some w) :
    Inv ⟨h.lock, Function.update h.boot p (some (b.after w)),
      w.ops.map (fun op => (p, .did op)) ++ h.acts⟩ := by
  have hmarks : Hall.marks ⟨h.lock, Function.update h.boot p (some (b.after w)),
      w.ops.map (fun op => (p, .did op)) ++ h.acts⟩ =
        List.replicate (w.ops.countP touches) (.act p) ++ h.marks := by
    rw [Hall.marks, List.filterMap_append, marks_turn]
    rfl
  have hacts := turn_acts hb ⟨hok.1, hok.2.1⟩ hw
  have hothers : ∀ q, q ≠ p → Hall.Busy ⟨h.lock, Function.update h.boot p (some (b.after w)),
      w.ops.map (fun op => (p, .did op)) ++ h.acts⟩ q → h.Busy q := by
    rintro q hq ⟨halive, b', hb', hrest⟩
    change Function.update h.boot p (some (b.after w)) q = some b' at hb'
    rw [Function.update_of_ne hq] at hb'
    exact ⟨halive, b', hb', hrest⟩
  have hself : Hall.Busy ⟨h.lock, Function.update h.boot p (some (b.after w)),
      w.ops.map (fun op => (p, .did op)) ++ h.acts⟩ p →
        h.lock.pc p = .granted ∧ AloneSince p h.marks := by
    rintro ⟨-, b', hb', hrest⟩
    change Function.update h.boot p (some (b.after w)) p = some b' at hb'
    rw [Function.update_self] at hb'
    cases hb'
    exact turn_busy hi hv hb hok hw hrest
  constructor
  · exact hi.lock
  · intro q hq
    by_cases hqp : q = p
    · subst hqp
      exact (hself hq).1
    · exact hi.granted q (hothers q hqp hq)
  · rw [hmarks]
    rcases hacts with hnone | hp
    · rw [hnone]
      exact hi.serial
    · exact hi.serial.acts (hi.alone p hp) _
  · intro q b' hb' hphase
    rw [hmarks]
    change Function.update h.boot p (some (b.after w)) q = some b' at hb'
    by_cases hqp : q = p
    · -- a turn that leads to phase 0 or 1 was in front of the lock
      subst hqp
      rw [Function.update_self] at hb'
      cases hb'
      rw [after_phase] at hphase
      have hfront : b.phase ≤ 1 := by
        by_contra hbehind
        have htarget := (target_behind hw (by omega)).1
        omega
      rw [countP_touches hw (.inl hfront)]
      exact hi.fresh q b hb hfront
    · rw [Function.update_of_ne hqp] at hb'
      exact (hi.fresh q b' hb' hphase).acts (Ne.symm hqp) _
  · intro q hq
    rw [hmarks]
    by_cases hqp : q = p
    · subst hqp
      exact (hself hq).2.acts _
    · have hq' := hothers q hqp hq
      rcases hacts with hnone | hp
      · rw [hnone]
        exact hi.alone q hq'
      · exact absurd (hi.unique hq' hp) hqp

end Turn

/-! ## Runs -/

theorem inv_step (hi : Inv h) {e : Event} (hv : Sound h e) (hs : step name h e = some h') :
    Inv h' := by
  cases e with
  | lock e =>
      simp only [step, Option.ite_none_right_eq_some, Option.map_eq_some_iff] at hs
      obtain ⟨hcall, w', hw', rfl⟩ := hs
      exact inv_lock hi hcall hv hw'
  | boot p a =>
      simp only [step] at hs
      cases hb : h.boot p with
      | none =>
          rw [hb] at hs
          cases hs
      | some b =>
          rw [hb] at hs
          simp only [Option.ite_none_right_eq_some, Option.map_eq_some_iff, Bool.and_eq_true] at hs
          obtain ⟨⟨⟨halive, hproceed⟩, hagrees⟩, w, hw, rfl⟩ := hs
          exact inv_boot hi hv hb ⟨halive, hproceed, hagrees⟩ hw

/-- The invariant along a run. -/
theorem inv_run {es : List Event} (he : Empty h) (hv : Meets (step name) Sound h es)
    (hr : run (step name) h es = some h') : Inv h' :=
  meets_invariant (fun _ _ _ hi hg hs => inv_step hi hg hs) (inv_empty he) hv hr

end Step

/-- In every run from a host without supervisors, whose acts on the lock file agree with what was
examined and whose configurations load, two supervisors between their lock and their
`LCK_UNLOCK` are one, and whatever is done to the container between two acts of one run of a
supervisor is done by that supervisor. -/
theorem supervisors_exclusive {name : List Char} {h h' : Hall} {es : List Event} (he : Empty h)
    (hv : Meets (step name) Sound h es) (hr : run (step name) h es = some h') :
    (∀ p q, h'.Busy p → h'.Busy q → p = q) ∧
      ∀ p q new mid old, h'.marks = new ++ .act p :: mid ++ .act p :: old →
        .start p ∉ mid → .act q ∈ mid → q = p := by
  have hi := inv_run he hv hr
  refine ⟨fun p q hp hq => hi.unique hp hq, ?_⟩
  intro p q new mid old hm hstart hq
  have hserial := hi.serial
  rw [hm] at hserial
  exact hserial.between hstart hq

/-- A host without supervisors and without a lock file. -/
def nobody : Hall where
  lock := { twoProcesses none with alive := fun _ => false }
  boot := fun _ => none
  acts := []

theorem nobody_empty : Empty nobody := ⟨fun _ => rfl, fun _ => rfl, rfl⟩

/-- A process starts, loads its configuration and is given the lock. -/
def arrival (p : Nat) : List Event :=
  [.lock (.fork p), .boot p (.config true), .lock (.lock p 5)] ++
    List.replicate 6 (.lock (.call p .done)) ++ [.boot p (.lock true)]

/-- Process 2 prepares its cgroup while process 3 examines its lock. -/
theorem supervisors_exclusive_beside :
    ∃ h', run (step "c".toList) nobody (arrival 2 ++ [.lock (.fork 3), .boot 3 (.config true),
        .lock (.lock 3 5), .boot 2 (.script (.exited 0)), .lock (.call 3 .done)]) = some h' ∧
      h'.Busy 2 ∧ ∀ p q, h'.Busy p → h'.Busy q → p = q := by
  have hrun : (run (step "c".toList) nobody (arrival 2 ++ [.lock (.fork 3), .boot 3 (.config true),
      .lock (.lock 3 5), .boot 2 (.script (.exited 0)), .lock (.call 3 .done)])).any
        (fun h => decide (h.Busy 2)) = true := by decide +kernel
  obtain ⟨h', hr, hbusy⟩ := exists_run hrun
  refine ⟨h', hr, hbusy, (supervisors_exclusive nobody_empty ?_ hr).1⟩
  refine Meets.cons trivial rfl (Meets.cons rfl rfl (Meets.cons trivial rfl ?_))
  -- `mkdir` and `stat`, then the `creat` of a file that is not there, up to the whole line
  refine Meets.cons trivial rfl (Meets.cons trivial rfl (Meets.cons (Or.inr rfl) rfl
    (Meets.cons trivial rfl (Meets.cons rfl rfl (Meets.cons trivial rfl ?_)))))
  exact Meets.cons trivial rfl (Meets.cons trivial rfl (Meets.cons rfl rfl (Meets.cons trivial rfl
    (Meets.cons trivial rfl (Meets.cons trivial rfl trivial)))))

/-- Beside a supervisor another one cleans up whose configuration does not load. -/
theorem supervisors_exclusive_unconfigured :
    ¬ ∀ (name : List Char) (h h' : Hall) (es : List Event), Empty h →
      Meets (step name) Locked h es → run (step name) h es = some h' →
        ∀ p q, h'.Busy p → h'.Busy q → p = q := by
  intro hall
  have hrun : (run (step "c".toList) nobody
      (arrival 2 ++ [.lock (.fork 3), .boot 3 (.config false)])).any
        (fun h => decide (h.Busy 2 ∧ h.Busy 3)) = true := by decide +kernel
  obtain ⟨h', hr, hbusy⟩ := exists_run hrun
  refine absurd (hall _ _ h' _ nobody_empty ?_ hr 2 3 hbusy.1 hbusy.2) (by decide)
  refine Meets.cons trivial rfl (Meets.cons trivial rfl (Meets.cons trivial rfl ?_))
  refine Meets.cons trivial rfl (Meets.cons trivial rfl (Meets.cons (Or.inr rfl) rfl
    (Meets.cons trivial rfl (Meets.cons rfl rfl (Meets.cons trivial rfl ?_)))))
  exact Meets.cons trivial rfl (Meets.cons trivial rfl (Meets.cons trivial rfl trivial))

end Vzgot.Supervisors
