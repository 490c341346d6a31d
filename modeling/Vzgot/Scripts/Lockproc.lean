import Mathlib.Logic.Function.Basic

/-!
# Runs of the scripts that call `lockproc`

`vzgot.create`, `vzgot.boot` and `vzgot.rebuild` carry the same `lockproc` and the
same `abort`. `Script` holds what differs: the path of `LOCKFILE`, the tests made
before `lockproc`, and the ways out of the work behind it. `Run.next` and
`Run.effect` say where a run goes with the result of its next command and what
this command does to a lock file; a host (`hostStep`) interleaves any number of
runs. Commands that never touch `LOCKFILE` take no step of their own, and a test
stands for the commands in front of it.
-/

set_option autoImplicit false

namespace Vzgot.Scripts

/-- What the work behind `lockproc` does when a test fails: `exit 1`, or `abort`. -/
inductive WayOut where
  | exit
  | abort
  deriving DecidableEq

/-- A script that calls `lockproc`. -/
structure Script where
  /-- `basename $0`. -/
  base : String
  /-- Directory of `LOCKFILE`. -/
  dir : String
  /-- Suffix of `LOCKFILE`. -/
  suffix : String
  /-- `CONTNAME`, from the argument that names the container. -/
  contname : List Char → List Char
  /-- The script goes on with the next argument once a container is done. -/
  loops : Bool
  /-- Number of tests before `lockproc`, each followed by `exit 1`. -/
  checks : Nat
  /-- Tests behind `lockproc`, in their order. -/
  body : List WayOut

/-- `vzgot.create`: a missing name, an invalid number; then no entry in
`vzgot_list`, the distribution `"*"`, no number found, `vzgot.build` and
`vzgot.create.${FLINUX}` failing. -/
def vzgotCreate : Script where
  base := "vzgot.create"
  dir := "/var/run/"
  suffix := ".pid"
  contname := List.takeWhile (· ≠ '.')
  loops := false
  checks := 2
  body := [.abort, .abort, .abort, .abort, .abort]

/-- `vzgot.boot`: a missing argument; then a missing name file, a missing `HOMEFS`,
the distribution `"*"` and `vzgot.boot.${FLINUX}` failing. -/
def vzgotBoot : Script where
  base := "vzgot.boot"
  dir := "/var/run/"
  suffix := ".pid"
  contname := id
  loops := false
  checks := 1
  body := [.exit, .exit, .abort, .abort]

/-- `vzgot.rebuild`: `vzgot_config` twice, the name file, `FULLNAME` and `HOMEFS`;
the work behind `lockproc` ignores the results of its commands. -/
def vzgotRebuild : Script where
  base := "vzgot.rebuild"
  dir := "/var/lock/"
  suffix := ".lck"
  contname := id
  loops := true
  checks := 5
  body := []

/-- The three scripts. -/
inductive ScriptName where
  | create
  | boot
  | rebuild
  deriving DecidableEq

def ScriptName.script : ScriptName → Script
  | .create => vzgotCreate
  | .boot => vzgotBoot
  | .rebuild => vzgotRebuild

/-- `LOCKFILE` of `lockproc`. -/
def ScriptName.lockfile (s : ScriptName) (cont : List Char) : List Char :=
  s.script.dir.toList ++ s.script.base.toList ++ '.' :: cont ++ s.script.suffix.toList

/-- Next command of a run: a test before `lockproc`; in `lockproc` the assignment
of `LOCKFILE`, the `trap`, the creation under `set -C`, the `echo` of the number,
and the `rm` behind a creation that failed; a test behind `lockproc` or the last
`rm`; the `rm` of `abort`; an `exit` with the lock file left in place; an `exit`
once it is removed. -/
inductive ScriptPc where
  | idle
  | check (left : Nat)
  | setTrap
  | create
  | append
  | refused
  | body (left : List WayOut)
  | abort
  | quit
  | leaving
  deriving DecidableEq

/-- A run of a script. `handler` is set when the commands of the trap come next;
`lockfile` is `$LOCKFILE`, empty before it is set, and `trap` the path written into
the trap. -/
structure Run where
  script : ScriptName
  cont : List Char
  todo : List (List Char)
  lockfile : List Char
  trap : Option (List Char)
  handler : Bool
  pc : ScriptPc

/-- What a command does to a lock file. -/
inductive Effect where
  | nothing
  | create (path : List Char)
  | append (path : List Char)
  | remove (path : List Char)

/-- The effect of the next command. -/
def Run.effect (r : Run) : Effect :=
  if r.handler then
    match r.trap with
    | some path => .remove path
    | none => .nothing
  else
    match r.pc with
    | .create => .create r.lockfile
    | .append => .append r.lockfile
    | .refused | .abort | .body [] => .remove r.lockfile
    | _ => .nothing

/-- The next container, or the end of the script. -/
def Run.nextContainer (r : Run) : Run :=
  match r.todo with
  | [] => { r with pc := .leaving }
  | c :: rest =>
      { r with cont := r.script.script.contname c, todo := rest,
               pc := .check r.script.script.checks }

/-- The run after its next command, which succeeds or fails. -/
def Run.next (r : Run) (ok : Bool) : Run :=
  if r.handler then { r with handler := false, pc := .leaving }
  else
    match r.pc with
    | .idle => r
    | .check 0 => { r with lockfile := r.script.lockfile r.cont, pc := .setTrap }
    | .check (n + 1) => { r with pc := if ok then .check n else .leaving }
    | .setTrap => { r with trap := some r.lockfile, pc := .create }
    | .create => { r with pc := if ok then .append else .refused }
    | .append => { r with pc := .body r.script.script.body }
    | .refused => { r with pc := .leaving }
    | .body [] => r.nextContainer
    | .body (.exit :: rest) => { r with pc := if ok then .body rest else .quit }
    | .body (.abort :: rest) => { r with pc := if ok then .body rest else .abort }
    | .abort => { r with pc := .leaving }
    | .quit => { r with pc := .idle }
    | .leaving => { r with pc := .idle }

/-- A script called with `args`. -/
def Run.started (s : ScriptName) (args : List (List Char)) : Run :=
  Run.nextContainer {
    script := s
    cont := []
    todo := if s.script.loops then args else args.take 1
    lockfile := []
    trap := none
    handler := false
    pc := .idle }

/-- A host: which lock files exist, and the run behind each process number. -/
structure Host where
  file : List Char → Bool
  run : Nat → Run

/-- One event: a script is called, a run executes its next command, a signal of the
`trap` arrives, or a run is killed by a signal that no trap catches. -/
inductive ScriptEvent where
  | start (p : Nat) (s : ScriptName) (args : List (List Char))
  | step (p : Nat) (ok : Bool)
  | signal (p : Nat)
  | kill (p : Nat)

/-- Result of the next command: under `set -C` a file that exists is an error. -/
def Host.result (w : Host) (r : Run) (ok : Bool) : Bool :=
  match r.effect with
  | .create path => ok && !w.file path
  | _ => ok

/-- The lock files after a command with the result `ok`. -/
def Effect.apply (file : List Char → Bool) (ok : Bool) : Effect → List Char → Bool
  | .nothing => file
  | .create path | .append path => if ok then Function.update file path true else file
  | .remove path => if ok then Function.update file path false else file

/-- Replaces the run of `p`. -/
def Host.setRun (w : Host) (p : Nat) (r : Run) : Host :=
  { w with run := Function.update w.run p r }

def hostStep (w : Host) : ScriptEvent → Option Host
  | .start p s args =>
      if (w.run p).pc = .idle then some (w.setRun p (Run.started s args)) else none
  | .step p ok =>
      if (w.run p).pc = .idle then none
      else
        let ok' := w.result (w.run p) ok
        some ({ w with file := (w.run p).effect.apply w.file ok' }.setRun p ((w.run p).next ok'))
  | .signal p =>
      if (w.run p).pc = .idle then none
      -- without a trap the signal ends the script
      else if (w.run p).trap = none then some (w.setRun p { w.run p with pc := .idle })
      else some (w.setRun p { w.run p with handler := true })
  | .kill p =>
      if (w.run p).pc = .idle then none
      else some (w.setRun p { w.run p with pc := .idle })

/-- No script runs; lock files may have been left behind. -/
def Host.Quiet (w : Host) : Prop := ∀ p, (w.run p).pc = .idle

/-- The run has created its lock file, and has not executed an `rm` or an `exit` since. -/
def ScriptPc.owning : ScriptPc → Bool
  | .append | .body _ | .abort | .quit => true
  | _ => false

/-- `lockproc` has returned, and the run has not executed an `rm` or an `exit` since. -/
def ScriptPc.inside : ScriptPc → Bool
  | .body _ | .abort | .quit => true
  | _ => false

/-- `p` has created the lock file `path` and has not given it up. -/
def Host.Owns (w : Host) (path : List Char) (p : Nat) : Prop :=
  (w.run p).pc.owning = true ∧ (w.run p).lockfile = path

/-- `p` is a run of `s` that got past `lockproc` for the container `cont`. -/
def Host.Inside (w : Host) (s : ScriptName) (cont : List Char) (p : Nat) : Prop :=
  (w.run p).script = s ∧ (w.run p).cont = cont ∧ (w.run p).pc.inside = true

instance (w : Host) (s : ScriptName) (cont : List Char) (p : Nat) :
    Decidable (w.Inside s cont p) :=
  inferInstanceAs (Decidable (_ ∧ _ ∧ _))

/-- No two runs of one script for one container are past `lockproc`. -/
def Host.Exclusive (w : Host) : Prop :=
  ∀ s cont p q, w.Inside s cont p → w.Inside s cont q → p = q

theorem ScriptPc.owning_of_inside {c : ScriptPc} (h : c.inside = true) : c.owning = true := by
  cases c with
  | body left => rfl
  | abort => rfl
  | quit => rfl
  | idle => cases h
  | check left => cases h
  | setTrap => cases h
  | create => cases h
  | append => cases h
  | refused => cases h
  | leaving => cases h

@[simp] theorem Host.setRun_file (w : Host) (p : Nat) (r : Run) : (w.setRun p r).file = w.file := rfl
@[simp] theorem Host.setRun_run_self (w : Host) (p : Nat) (r : Run) : (w.setRun p r).run p = r :=
  Function.update_self ..
@[simp] theorem Host.setRun_run_of_ne (w : Host) {p q : Nat} (r : Run) (h : q ≠ p) :
    (w.setRun p r).run q = w.run q :=
  Function.update_of_ne h ..

/-! ## The place of a run in its script -/

/-- Places between the assignment of `LOCKFILE` and the next container. -/
def ScriptPc.locking : ScriptPc → Bool
  | .setTrap | .create | .append | .refused | .body _ | .abort | .quit => true
  | _ => false

theorem ScriptPc.locking_of_owning {c : ScriptPc} (h : c.owning = true) : c.locking = true := by
  cases c <;> simp_all [ScriptPc.owning, ScriptPc.locking]

/-- In `lockproc` and behind it `LOCKFILE` is the path for the script and the
container. -/
def Run.Named (r : Run) : Prop :=
  r.pc.locking = true → r.lockfile = r.script.lockfile r.cont

theorem Run.named_of_not_locking {r : Run} (h : r.pc.locking = false) : r.Named := by
  intro hl
  rw [h] at hl
  cases hl

theorem Run.nextContainer_named (r : Run) : r.nextContainer.Named := by
  apply Run.named_of_not_locking
  unfold Run.nextContainer
  split <;> rfl

theorem Run.started_named (s : ScriptName) (args : List (List Char)) :
    (Run.started s args).Named := Run.nextContainer_named _

theorem Run.next_named {r : Run} (h : r.Named) (ok : Bool) : (r.next ok).Named := by
  unfold Run.next
  split
  · exact Run.named_of_not_locking rfl
  · -- one case for each command; `LOCKFILE` and the container change only outside `locking`
    split
    next => exact h
    next => exact fun _ => rfl
    next hpc =>
      cases ok <;> exact Run.named_of_not_locking rfl
    next hpc => exact fun _ => h (by rw [hpc]; rfl)
    next hpc => exact fun _ => h (by rw [hpc]; rfl)
    next hpc => exact fun _ => h (by rw [hpc]; rfl)
    next => exact Run.named_of_not_locking rfl
    next => exact r.nextContainer_named
    next hpc => exact fun _ => h (by rw [hpc]; rfl)
    next hpc => exact fun _ => h (by rw [hpc]; rfl)
    next => exact Run.named_of_not_locking rfl
    next => exact Run.named_of_not_locking rfl
    next => exact Run.named_of_not_locking rfl

/-- A run owns a lock file after a command only when it owned that file before, and
the command removed nothing, or when it has just created it. -/
theorem Run.next_owning {r : Run} {ok : Bool} (h : (r.next ok).pc.owning = true) :
    (r.next ok).lockfile = r.lockfile ∧
      ((r.effect = .create r.lockfile ∧ ok = true) ∨
        (r.pc.owning = true ∧ ∀ path, r.effect ≠ .remove path)) := by
  cases hh : r.handler with
  | true =>
      simp only [Run.next, hh, if_true] at h
      cases h
  | false =>
      simp only [Run.next, Run.effect, hh, Bool.false_eq_true, if_false] at h ⊢
      have hkeep : ∀ path, Effect.nothing ≠ .remove path := fun path hp => by cases hp
      have happend : ∀ path, Effect.append r.lockfile ≠ .remove path := fun path hp => by cases hp
      cases hpc : r.pc with
      | idle => simp [hpc, ScriptPc.owning] at h
      | check n => cases n <;> cases ok <;> simp [hpc, ScriptPc.owning] at h
      | setTrap => simp [hpc, ScriptPc.owning] at h
      | create =>
          cases ok with
          | true => exact ⟨rfl, .inl ⟨rfl, rfl⟩⟩
          | false => simp [hpc, ScriptPc.owning] at h
      | append => exact ⟨rfl, .inr ⟨rfl, happend⟩⟩
      | refused => simp [hpc, ScriptPc.owning] at h
      | body left =>
          cases left with
          | nil =>
              simp only [hpc, Run.nextContainer] at h
              split at h <;> cases h
          | cons way rest => cases way <;> exact ⟨rfl, .inr ⟨rfl, hkeep⟩⟩
      | abort => simp [hpc, ScriptPc.owning] at h
      | quit => simp [hpc, ScriptPc.owning] at h
      | leaving => simp [hpc, ScriptPc.owning] at h

/-- The process an event is about. -/
def ScriptEvent.actor : ScriptEvent → Nat
  | .start p _ _ | .step p _ | .signal p | .kill p => p

/-- What an event does: it replaces the run of its process, and only a command
changes the lock files. -/
theorem hostStep_cases {w w' : Host} {e : ScriptEvent} (h : hostStep w e = some w') :
    (∃ r, w' = w.setRun e.actor r ∧ ((w.run e.actor).Named → r.Named) ∧
      (r.pc.owning = true →
        (w.run e.actor).pc.owning = true ∧ r.lockfile = (w.run e.actor).lockfile)) ∨
    (∃ ok ok', e = .step e.actor ok ∧ ok' = w.result (w.run e.actor) ok ∧
      w' = { w with file := (w.run e.actor).effect.apply w.file ok' }.setRun e.actor
        ((w.run e.actor).next ok')) := by
  cases e with
  | start p s args =>
      simp only [hostStep, Option.ite_none_right_eq_some, Option.some.injEq] at h
      refine .inl ⟨_, h.2.symm, fun _ => Run.started_named s args, fun ho => ?_⟩
      unfold Run.started Run.nextContainer at ho
      split at ho <;> cases ho
  | step p ok =>
      simp only [hostStep, Option.ite_none_left_eq_some, Option.some.injEq] at h
      exact .inr ⟨ok, _, rfl, rfl, h.2.symm⟩
  | signal p =>
      simp only [hostStep, Option.ite_none_left_eq_some] at h
      obtain ⟨-, h⟩ := h
      split at h <;> cases h
      · exact .inl ⟨_, rfl, fun _ => Run.named_of_not_locking rfl, fun ho => by cases ho⟩
      · exact .inl ⟨_, rfl, id, fun ho => ⟨ho, rfl⟩⟩
  | kill p =>
      simp only [hostStep, Option.ite_none_left_eq_some, Option.some.injEq] at h
      exact .inl ⟨_, h.2.symm, fun _ => Run.named_of_not_locking rfl, fun ho => by cases ho⟩

end Vzgot.Scripts
