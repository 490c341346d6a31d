import Mathlib.Tactic.Set
import Vzgot.Library.Mutex
import Vzgot.Library.Transition
import Vzgot.Scripts.Lockproc

/-!
# Mutual exclusion of the script lock

A run that fails to create `LOCKFILE` removes it all the same, and so does the trap
of a run that is not past `lockproc`, or no longer. In every run of the host in which
no command removes the lock file of another run (`Spares`) at most one run owns a
lock file (`lockHeld_run`), and the owner moves as in an abstract lock
(`lockproc_refines_mutex`). Once another run has removed the lock file, any further
run of the script gets past `lockproc` beside the owner (`lockproc_opened`).
-/

set_option autoImplicit false

namespace Vzgot.Scripts

open Vzgot.Transition

/-- A command that removes a lock file is executed by the run that owns it, or while
no run does. -/
def Spares (w : Host) : ScriptEvent → Prop
  | .step p true => ∀ path, (w.run p).effect = .remove path →
      w.Owns path p ∨ ∀ q, ¬ w.Owns path q
  | _ => True

/-- Invariant of the runs that spare each other's lock files. -/
structure LockHeld (w : Host) : Prop where
  named : ∀ p, (w.run p).Named
  /-- The lock file of an owner exists. -/
  present : ∀ path p, w.Owns path p → w.file path = true
  /-- There is at most one owner. -/
  unique : ∀ path p q, w.Owns path p → w.Owns path q → p = q

theorem lockHeld_quiet {w : Host} (h : w.Quiet) : LockHeld w where
  named p := Run.named_of_not_locking (by rw [h p]; rfl)
  present path p hp := by
    have howning := hp.1
    rw [h p] at howning
    cases howning
  unique path p q hp := by
    have howning := hp.1
    rw [h p] at howning
    cases howning

section Steps

variable {w w' : Host} {e : ScriptEvent}

theorem owns_setRun_of_ne {path : List Char} {p q : Nat} {r : Run} (hqp : q ≠ p) :
    (w.setRun p r).Owns path q ↔ w.Owns path q := by
  simp [Host.Owns, hqp]

/-- An event leaves every other run where it is. -/
theorem hostStep_run (h : hostStep w e = some w') {q : Nat} (hq : q ≠ e.actor) :
    w'.run q = w.run q := by
  rcases hostStep_cases h with ⟨r, rfl, -, -⟩ | ⟨ok, ok', -, -, rfl⟩
  · exact Host.setRun_run_of_ne w r hq
  · exact Host.setRun_run_of_ne _ _ hq

theorem hostStep_owns (h : hostStep w e = some w') {q : Nat} (hq : q ≠ e.actor)
    (path : List Char) : w'.Owns path q ↔ w.Owns path q := by
  rw [Host.Owns, Host.Owns, hostStep_run h hq]

/-- Making one file leaves every file that exists. -/
theorem update_true_kept {file : List Char → Bool} {path : List Char} (l : List Char)
    (hfile : file path = true) : Function.update file l true path = true := by
  rcases eq_or_ne path l with rfl | hl
  · rw [Function.update_self]
  · rwa [Function.update_of_ne hl]

/-- A command takes away no lock file but the one it removes. -/
theorem Effect.apply_kept {file : List Char → Bool} {eff : Effect} {ok : Bool} {path : List Char}
    (hfile : file path = true) (h : ok = true → eff ≠ .remove path) :
    eff.apply file ok path = true := by
  cases ok with
  | false => cases eff <;> exact hfile
  | true =>
      cases eff with
      | nothing => exact hfile
      | create l => exact update_true_kept l hfile
      | append l => exact update_true_kept l hfile
      | remove l =>
          have hl : path ≠ l := fun hl => h rfl (hl ▸ rfl)
          rwa [Effect.apply, if_pos rfl, Function.update_of_ne hl]

theorem named_setRun {p : Nat} {r : Run} (h : ∀ q, (w.run q).Named) (hr : r.Named) (q : Nat) :
    ((w.setRun p r).run q).Named := by
  rcases eq_or_ne q p with rfl | hqp
  · rwa [Host.setRun_run_self]
  · rw [Host.setRun_run_of_ne w r hqp]
    exact h q

/-- Events other than commands change neither lock files nor owners, but for a run
that ends. -/
theorem LockHeld.setRun (h : LockHeld w) {p : Nat} {r : Run} (hnamed : r.Named)
    (howning : r.pc.owning = true →
      (w.run p).pc.owning = true ∧ r.lockfile = (w.run p).lockfile) :
    LockHeld (w.setRun p r) := by
  have hown : ∀ path q, (w.setRun p r).Owns path q → w.Owns path q := by
    intro path q hq
    by_cases hqp : q = p
    · subst hqp
      rw [Host.Owns, Host.setRun_run_self] at hq
      obtain ⟨ho, hl⟩ := howning hq.1
      exact ⟨ho, hl ▸ hq.2⟩
    · exact (owns_setRun_of_ne hqp).1 hq
  constructor
  · exact named_setRun h.named hnamed
  · exact fun path q hq => h.present path q (hown path q hq)
  · exact fun path q r hq hr => h.unique path q r (hown path q hq) (hown path r hr)

/-- A command keeps the invariant when it spares the lock files of the others. -/
theorem LockHeld.command (h : LockHeld w) {p : Nat} {ok ok' : Bool}
    (hok : ok' = w.result (w.run p) ok) (hspares : Spares w (.step p ok)) :
    LockHeld ({ w with file := (w.run p).effect.apply w.file ok' }.setRun p
      ((w.run p).next ok')) := by
  set v : Host := { w with file := (w.run p).effect.apply w.file ok' }.setRun p
    ((w.run p).next ok') with hv
  have hrun : v.run p = (w.run p).next ok' := Host.setRun_run_self _ _ _
  have hothers : ∀ path q, q ≠ p → (v.Owns path q ↔ w.Owns path q) := by
    intro path q hqp
    exact owns_setRun_of_ne (w := { w with file := _ }) hqp
  -- the run of `p` has just created the file, or owned it before and removes nothing
  have hself : ∀ path, v.Owns path p →
      ((w.run p).effect = .create path ∧ ok' = true) ∨
        (w.Owns path p ∧ ∀ l, (w.run p).effect ≠ .remove l) := by
    intro path hp
    rw [Host.Owns, hrun] at hp
    obtain ⟨hl, hcase⟩ := Run.next_owning hp.1
    have hpath : (w.run p).lockfile = path := hl ▸ hp.2
    rcases hcase with ⟨heff, ho⟩ | ⟨hown, hkeep⟩
    · exact .inl ⟨hpath ▸ heff, ho⟩
    · exact .inr ⟨⟨hown, hpath⟩, hkeep⟩
  -- under `set -C` a file is created only where there was none
  have hfresh : ∀ path, (w.run p).effect = .create path → ok' = true → w.file path = false := by
    intro path heff ho
    rw [hok, Host.result, heff, Bool.and_eq_true, Bool.not_eq_true'] at ho
    exact ho.2
  constructor
  · exact named_setRun h.named (Run.next_named (h.named p) ok')
  · -- the file of an owner has just been made, or nobody else removes it
    intro path q hq
    by_cases hqp : q = p
    · subst hqp
      rcases hself path hq with ⟨heff, ho⟩ | ⟨hown, hkeep⟩
      · have hnew : (w.run q).effect.apply w.file ok' path = true := by
          rw [heff, ho, Effect.apply, if_pos rfl, Function.update_self]
        exact hnew
      · exact Effect.apply_kept (h.present path q hown) fun _ => hkeep path
    · have hown := (hothers path q hqp).1 hq
      apply Effect.apply_kept (h.present path q hown)
      intro ho heff
      have hstep : ok = true := by
        rw [hok, Host.result, heff] at ho
        exact ho
      subst hstep
      rcases hspares path heff with hp | hnone
      · exact hqp (h.unique path q p hown hp)
      · exact hnone q hown
  · -- a second owner would have made a file that exists
    intro path
    apply Mutex.unique_step (h.unique path) p fun q hqp => (hothers path q hqp).1
    intro hp q hqp hown
    rcases hself path hp with ⟨heff, ho⟩ | ⟨hownp, -⟩
    · have hnone := hfresh path heff ho
      rw [h.present path q hown] at hnone
      cases hnone
    · exact hqp (h.unique path q p hown hownp)

theorem lockHeld_step (h : LockHeld w) (hspares : Spares w e) (hs : hostStep w e = some w') :
    LockHeld w' := by
  rcases hostStep_cases hs with ⟨r, rfl, hnamed, howning⟩ | ⟨ok, ok', he, hok, rfl⟩
  · exact h.setRun (hnamed (h.named _)) howning
  · rw [he] at hspares
    exact h.command hok hspares

/-- The invariant along a run. -/
theorem lockHeld_run {es : List ScriptEvent} (h : w.Quiet) (hm : Meets hostStep Spares w es)
    (hr : run hostStep w es = some w') : LockHeld w' :=
  meets_invariant (fun _ _ _ hi hg hs => lockHeld_step hi hg hs) (lockHeld_quiet h) hm hr

/-- The owner of each lock file moves as the owner of an abstract lock. -/
theorem lockproc_refines_mutex {es : List ScriptEvent} (h : w.Quiet)
    (hm : Meets hostStep Spares w es) (hr : run hostStep w es = some w') (path : List Char) :
    Relation.ReflTransGen Mutex.Step (Mutex.ownerOf (w.Owns path))
      (Mutex.ownerOf (w'.Owns path)) := by
  refine meets_refines LockHeld (fun v => Mutex.ownerOf (v.Owns path))
    (fun _ _ _ hi hg hs => lockHeld_step hi hg hs) ?_ (lockHeld_quiet h) hm hr
  intro v e v' hi hg hs
  apply Mutex.ownerOf_step (hi.unique path) ((lockHeld_step hi hg hs).unique path) e.actor
  exact fun q hq => hostStep_owns hs hq path

end Steps

/-! ## At most one run is past `lockproc` -/

theorem LockHeld.exclusive {w : Host} (h : LockHeld w) : w.Exclusive := by
  have hown : ∀ s cont p, w.Inside s cont p → w.Owns (s.lockfile cont) p := by
    rintro s cont p ⟨rfl, rfl, hp⟩
    have howning := ScriptPc.owning_of_inside hp
    exact ⟨howning, h.named p (ScriptPc.locking_of_owning howning)⟩
  exact fun s cont p q hp hq => h.unique _ p q (hown s cont p hp) (hown s cont q hq)

/-- Two runs of one script for one container are never both past `lockproc`, in every
state of every run in which the lock files of the others are spared. -/
theorem lockproc_exclusive {w : Host} {es : List ScriptEvent} (h : w.Quiet)
    (hm : Meets hostStep Spares w es) : Always hostStep Host.Exclusive w es :=
  always_of_meets (fun _ hi => LockHeld.exclusive hi)
    (fun _ _ _ hi hg hs => lockHeld_step hi hg hs) (lockHeld_quiet h) hm

/-- A host with no lock file on which nothing runs. -/
def idleHost : Host where
  file _ := false
  run _ := {
    script := .boot
    cont := []
    todo := []
    lockfile := []
    trap := none
    handler := false
    pc := .idle }

theorem idleHost_quiet : idleHost.Quiet := fun _ => rfl

/-- Two calls of `vzgot.boot web`. Run 2 reaches the creation while run 1 is past
`lockproc`, and comes to its `rm` when run 1 has executed its own. -/
def bootTwice : List ScriptEvent :=
  [.start 1 .boot ["web".toList], .start 2 .boot ["web".toList]] ++
    List.replicate 5 (.step 1 true) ++ List.replicate 4 (.step 2 true) ++
    List.replicate 5 (.step 1 true) ++ [.step 2 true]

theorem lockproc_exclusive_twice :
    (∃ w', run hostStep idleHost bootTwice = some w' ∧ (w'.run 1).pc = .leaving ∧
      (w'.run 2).trap = some (ScriptName.boot.lockfile "web".toList)) ∧
      Always hostStep Host.Exclusive idleHost bootTwice := by
  refine ⟨exists_run (by decide +kernel), lockproc_exclusive idleHost_quiet ?_⟩
  iterate 2 refine Meets.cons trivial rfl ?_
  -- thirteen commands that remove nothing
  iterate 13 refine Meets.cons (fun path heff => by cases heff) rfl ?_
  -- the last `rm` of run 1, which owns the file, and that of run 2, when nobody does
  refine Meets.cons (fun path heff => .inl ⟨rfl, by cases heff; rfl⟩) rfl ?_
  refine Meets.cons (fun path heff => .inr fun q hq => ?_) rfl trivial
  rcases eq_or_ne q 1 with rfl | h1
  · exact absurd hq.1 (by decide +kernel)
  rcases eq_or_ne q 2 with rfl | h2
  · exact absurd hq.1 (by decide +kernel)
  have hidle := hq.1
  simp only [Host.setRun, Function.update_of_ne h1, Function.update_of_ne h2] at hidle
  cases hidle

/-! ## A lock file that is not spared -/

/-- An event that misses the condition leaves an owner without its lock file. -/
theorem not_spares_file {w w' : Host} {e : ScriptEvent} (h : ¬ Spares w e)
    (hs : hostStep w e = some w') :
    ∃ path q, q ≠ e.actor ∧ w'.Owns path q ∧ w'.file path = false := by
  cases e with
  | start p s args => exact absurd trivial h
  | signal p => exact absurd trivial h
  | kill p => exact absurd trivial h
  | step p ok =>
      cases ok with
      | false => exact absurd trivial h
      | true =>
          simp only [Spares, not_forall, not_or, not_not] at h
          obtain ⟨path, heff, hp, q, hq⟩ := h
          have hqp : q ≠ p := fun hqp => hp (hqp ▸ hq)
          refine ⟨path, q, hqp, (hostStep_owns hs hqp path).2 hq, ?_⟩
          simp only [hostStep, Option.ite_none_left_eq_some, Option.some.injEq] at hs
          rw [← hs.2, Host.setRun_file]
          simp [Host.result, heff, Effect.apply]

/-- The lock file of every owner exists all along a run exactly when the run spares them. -/
theorem lockFile_kept_iff {w w' : Host} {es : List ScriptEvent} (h : w.Quiet)
    (hr : run hostStep w es = some w') :
    Always hostStep (fun v => ∀ path p, v.Owns path p → v.file path = true) w es ↔
      Meets hostStep Spares w es := by
  refine always_iff_meets (fun _ hi => LockHeld.present hi)
    (fun _ _ _ hi hg hs => lockHeld_step hi hg hs) ?_ (lockHeld_quiet h) hr
  intro v e v' hmiss hs hkept
  obtain ⟨path, q, -, hq, hfile⟩ := not_spares_file hmiss hs
  rw [hkept path q hq] at hfile
  cases hfile

section Third

variable {w : Host} {s : ScriptName} {r : Nat}

/-- One command of a run without a signal. -/
theorem hostStep_next {a : Run} (hr : w.run r = a) (hpc : a.pc ≠ .idle) (ok : Bool) :
    hostStep w (.step r ok) = some ({ w with
      file := a.effect.apply w.file (w.result a ok) }.setRun r (a.next (w.result a ok))) := by
  subst hr
  rw [hostStep, if_neg hpc]

/-- The tests before `lockproc`, all of them passed. -/
theorem run_checks {n : Nat} {a : Run} (ha : a.handler = false) (hpc : a.pc = .check n)
    (hr : w.run r = a) :
    run hostStep w (List.replicate n (.step r true)) =
      some (w.setRun r { a with pc := .check 0 }) := by
  induction n generalizing w a with
  | zero =>
      have hsame : ({ a with pc := .check 0 } : Run) = w.run r := by
        rw [hr, ← hpc]
      rw [List.replicate_zero, run_nil, hsame, Host.setRun, Function.update_eq_self]
  | succ n ih =>
      have heff : a.effect = .nothing := by simp [Run.effect, ha, hpc]
      have hnext : a.next true = { a with pc := .check n } := by simp [Run.next, ha, hpc]
      have hstep := hostStep_next hr (by simp [hpc]) true
      rw [Host.result, heff] at hstep
      simp only [Effect.apply, hnext] at hstep
      rw [List.replicate_succ, run_cons, hstep, Option.bind_some]
      rw [ih (a := { a with pc := .check n }) ha rfl (Host.setRun_run_self ..)]
      simp [Host.setRun]

/-- A run of `s` that has just got past `lockproc` for `cont`. -/
def Run.entered (a : Run) : Run :=
  { a with
    lockfile := a.script.lockfile a.cont
    trap := some (a.script.lockfile a.cont)
    pc := .body a.script.script.body }

/-- `lockproc` without a lock file in the way. -/
theorem run_lockproc {a : Run} (ha : a.handler = false) (hpc : a.pc = .check 0)
    (hr : w.run r = a) (hfile : w.file (a.script.lockfile a.cont) = false) :
    ∃ file, run hostStep w (List.replicate 4 (.step r true)) =
      some ({ w with file := file }.setRun r a.entered) := by
  refine ⟨Function.update w.file (a.script.lockfile a.cont) true, ?_⟩
  simp [List.replicate, run_cons, hostStep, Host.result, Run.effect, Run.next, Effect.apply,
    Host.setRun, Run.entered, hr, ha, hpc, hfile]

/-- Once the lock file of a run past `lockproc` is gone, a further run of the script for
that container gets past `lockproc` beside it. -/
theorem lockproc_opened {cont arg : List Char} {q : Nat} (hq : w.Inside s cont q)
    (hfile : w.file (s.lockfile cont) = false) (harg : s.script.contname arg = cont)
    (hr : (w.run r).pc = .idle) :
    ∃ es u, run hostStep w es = some u ∧ u.Inside s cont q ∧ u.Inside s cont r := by
  have hqr : q ≠ r := by
    rintro rfl
    have hin := hq.2.2
    rw [hr] at hin
    cases hin
  -- the new run, in front of the tests, then in front of `lockproc`
  set a : Run := {
    script := s, cont := cont, todo := [], lockfile := [], trap := none, handler := false,
    pc := .check s.script.checks } with ha
  set b : Run := { a with pc := .check 0 } with hb
  have hstart : hostStep w (.start r s [arg]) = some (w.setRun r a) := by
    have hstarted : Run.started s [arg] = a := by
      cases s <;> simp [Run.started, Run.nextContainer, ha, ← harg, ScriptName.script,
        vzgotCreate, vzgotBoot, vzgotRebuild]
    rw [hostStep, if_pos hr, hstarted]
  have hchecks : run hostStep (w.setRun r a) (List.replicate s.script.checks (.step r true)) =
      some (w.setRun r b) := by
    rw [run_checks (a := a) rfl rfl (Host.setRun_run_self ..)]
    simp [Host.setRun, hb]
  obtain ⟨file, hlock⟩ := run_lockproc (w := w.setRun r b) (a := b) rfl rfl
    (Host.setRun_run_self ..) hfile
  have hrun : run hostStep w (.start r s [arg] :: (List.replicate s.script.checks (.step r true) ++
      List.replicate 4 (.step r true))) = some ({ w.setRun r b with file := file }.setRun r b.entered) :=
    run_cons_eq_some.2 ⟨_, hstart, run_append_eq_some.2 ⟨_, hchecks, hlock⟩⟩
  refine ⟨_, _, hrun, ?_, ?_⟩
  · simpa [Host.Inside, Host.setRun, hqr] using hq
  · simp [Host.Inside, Run.entered, hb, ha, ScriptPc.inside]

end Third

/-- Three runs of `vzgot.boot web`: the first is past `lockproc`, the second fails to
create the lock file and removes it, the third creates it again. -/
def bootThrice : List ScriptEvent :=
  [.start 1 .boot ["web".toList]] ++ List.replicate 5 (.step 1 true) ++
    [.start 2 .boot ["web".toList]] ++ List.replicate 5 (.step 2 true) ++
    [.start 3 .boot ["web".toList]] ++ List.replicate 5 (.step 3 true)

theorem lockproc_not_exclusive :
    ¬ ∀ (w : Host) (es : List ScriptEvent), w.Quiet → Always hostStep Host.Exclusive w es := by
  intro hall
  have hboth : ∃ w', run hostStep idleHost bootThrice = some w' ∧
      (w'.Inside .boot "web".toList 1 ∧ w'.Inside .boot "web".toList 3) :=
    exists_run (by decide +kernel)
  obtain ⟨w', hr, hfirst, hthird⟩ := hboth
  have hexcl := hall idleHost bootThrice idleHost_quiet bootThrice [] w' (by simp) hr
  exact absurd (hexcl _ _ 1 3 hfirst hthird) (by decide)

end Vzgot.Scripts
