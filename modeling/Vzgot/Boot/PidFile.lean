import Vzgot.Attend.Remove
import Vzgot.Boot.History

/-!
# `first.pid` over a run of `boot`

Phase 9 of `boot` writes the file, and phase 13 calls `cont_attend`, which removes it. A
`Supervision` is `boot` with the `cont_attend` that it is in, whose state also holds what
is common to all attempts: the signals, the container process and the file.

The error exits of `boot` and of `cont_attend` between the writing and the removal leave
the file, and two removals may find the container alive. `FileKept` is the condition
that none of this happens; the file then matches the life of the container
(`boot_pid_file_matches`).
-/

set_option autoImplicit false

namespace Vzgot.Boot

open Transition Signal Attend

/-- `boot`, with `cont_attend` when it is `inside`. `made` says that `cnt_set_cont_pid` has
made the file. -/
structure Supervision where
  boot : BootState
  attend : Attend.State
  inside : Bool
  made : Bool

/-- A turn of the loop of `boot`, the call of `cont_attend`, or a step of it. A signal and
the end of the container process are steps of it that may come at any time. -/
inductive SupervisionEvent where
  | turn (a : BootAnswer)
  | enter
  | attend (e : Attend.Event)

/-- `cnt_set_cont_pid` has opened the file for writing. -/
def BootAnswer.makesFile : BootAnswer → Bool
  | .record .noFile _ => false
  | .record _ _ => true
  | _ => false

/-- A container process is cloned. -/
def BootAnswer.startsContainer : BootAnswer → Bool
  | .clone (some _) => true
  | _ => false

/-- `REBOOT` forgets two of the flags. -/
def rebooted (s : Signals Nat) : Signals Nat :=
  { s with flags := { s.flags with sighup := false, sigint := false } }

/-- One turn of the loop of `boot`. -/
def Supervision.turn (name : List Char) (s : Supervision) (a : BootAnswer) : Option Supervision :=
  (bootStep name s.boot a).map fun b =>
    { boot := b
      attend := { s.attend with
        signals := if b.attempt = s.boot.attempt then s.attend.signals else rebooted s.attend.signals
        alive := s.attend.alive || a.startsContainer
        pidFile := s.attend.pidFile || a.makesFile }
      inside := false
      made := s.made || a.makesFile }

/-- `cont_attend` has returned this status. -/
def Supervision.attended (s : Supervision) (status : Int) : Bool :=
  s.inside && (match s.attend.pc with | .returned => true | _ => false) &&
    s.attend.status == status

/-- One step. -/
def Supervision.step (name : List Char) (s : Supervision) : SupervisionEvent → Option Supervision
  | .turn (.attend status) =>
      if s.attended status then s.turn name (.attend status) else none
  | .turn a => s.turn name a
  | .enter =>
      if s.boot.proceed && s.boot.phase == 13 && !s.inside then
        some { s with
          inside := true
          attend := { attendInit s.attend.signals s.attend.alive s.attend.pidFile with
            removedAlive := s.attend.removedAlive } }
      else none
  | .attend e => (attendStep name s.attend e).map fun t => { s with attend := t }

/-- `boot` is called; an earlier run may have left a file. -/
def Supervision.init (signals : Signals Nat) (pidFile : Bool) : Supervision where
  boot := bootInit
  attend := { attendInit signals false pidFile with pc := .returned }
  inside := false
  made := false

/-- Once made the file has not been removed from a live container, and it is gone when
`boot` returns. -/
def PidFileMatches (s : Supervision) : Prop :=
  s.attend.removedAlive = false ∧
    (s.boot.returned → s.made = true → s.attend.pidFile = false)

/-- Phase 9 fails only before it has opened the file, the network script of phase 11
runs, and `cont_attend` removes the file of a dead container. -/
def FileKept (s : Supervision) : SupervisionEvent → Bool
  | .turn (.record pidfile start) => pidfile = .noFile ∨ (pidfile = .written ∧ start = true)
  | .turn (.script fate) => s.boot.phase ≠ 11 ∨ cntInitscript fate = true
  | .attend e => RemovesDead s.attend e
  | _ => true

/-- Between the phases 9 and 14 the file may exist. -/
structure Matching (s : Supervision) : Prop where
  boot : Chronicled s.boot
  inside : s.inside = true → s.boot.phase = 13 ∧ s.boot.proceed = true ∧ Kept s.attend
  outside : s.inside = false → s.attend.pc.leaving = true ∧ s.attend.removedAlive = false ∧
    (s.made = true → s.attend.pidFile = true → 10 ≤ s.boot.phase ∧ s.boot.phase ≤ 13)

section Step

variable {name : List Char} {s t : Supervision} {e : SupervisionEvent} {a : BootAnswer}

theorem matching_init (signals : Signals Nat) (pidFile : Bool) :
    Matching (.init signals pidFile) :=
  ⟨chronicled_init, (fun h => nomatch h), fun _ => ⟨rfl, rfl, fun h => nomatch h⟩⟩

theorem Matching.removedAlive (hs : Matching s) : s.attend.removedAlive = false := by
  cases hi : s.inside with
  | true => exact (hs.inside hi).2.2.kept
  | false => exact (hs.outside hi).2.1

theorem Matching.matches (hs : Matching s) : PidFileMatches s := by
  refine ⟨hs.removedAlive, fun hret hmade => ?_⟩
  cases hi : s.inside with
  | true =>
      have hgo := (hs.inside hi).2.1
      rw [hret] at hgo
      cases hgo
  | false =>
      have hstopped := hs.boot.stopped hret
      by_contra hfile
      have := (hs.outside hi).2.2 hmade (by simpa using hfile)
      omega

/-- The phases between the writing and `cont_attend`. -/
theorem bootStep_window {b b' : BootState} (h : bootStep name b a = some b')
    (hphase : 10 ≤ b.phase ∧ b.phase ≤ 12)
    (hscript : ∀ fate, a = .script fate → b.phase = 11 → cntInitscript fate = true) :
    b'.phase = b.phase + 1 := by
  obtain ⟨-, w, hw, rfl⟩ := bootStep_eq_some.1 h
  have hnext : w.jump = .next := by
    obtain h₁₀ | h₁₁ | h₁₂ : b.phase = 10 ∨ b.phase = 11 ∨ b.phase = 12 := by omega
    · rw [h₁₀] at hw
      obtain ⟨_, _, rfl⟩ := bootPhase_confine hw
      rfl
    · rw [h₁₁] at hw
      obtain ⟨fate, rfl, rfl⟩ := bootPhase_network hw
      rw [Work.check, if_pos (hscript fate rfl h₁₁)]
      rfl
    · rw [h₁₂] at hw
      obtain ⟨_, -, rfl⟩ := bootPhase_clearance hw
      rfl
  rw [after_phase, hnext, Jump.target]

/-- Phase 9 without a failure behind the opening of the file. -/
theorem bootStep_record {b b' : BootState} {pidfile : PidWrite} {start : Bool}
    (h : bootStep name b (.record pidfile start) = some b') :
    b.phase = 9 ∧ (pidfile = .written → start = true → b'.phase = 10) := by
  obtain ⟨-, w, hw, rfl⟩ := bootStep_eq_some.1 h
  have h₉ : b.phase = 9 := bootPhase_answer hw rfl
  refine ⟨h₉, ?_⟩
  rintro rfl rfl
  rw [h₉] at hw
  simp only [bootPhase, cntSetContPid, if_true, Option.some.injEq] at hw
  rw [after_phase, ← hw, h₉]
  rfl

theorem matching_turn (hs : Matching s) (hg : FileKept s (.turn a) = true)
    (hattend : ∀ status, a = .attend status → s.inside = true ∧ s.attend.pc.leaving = true)
    (h : s.turn name a = some t) : Matching t := by
  obtain ⟨b, hb, rfl⟩ := Option.map_eq_some_iff.1 h
  have hphase := (bootStep_eq_some.1 hb).2
  refine ⟨hs.boot.step hb, (fun hi => nomatch hi), fun _ => ?_⟩
  -- `boot` goes on only with `cont_attend` not called or returned
  have hpc : s.attend.pc.leaving = true := by
    cases hi : s.inside with
    | false => exact (hs.outside hi).1
    | true =>
        obtain ⟨h₁₃, -, -⟩ := hs.inside hi
        obtain ⟨w, hw, -⟩ := hphase
        rw [h₁₃] at hw
        obtain ⟨status, rfl, -⟩ := bootPhase_attending hw
        exact (hattend status rfl).2
  refine ⟨hpc, hs.removedAlive, fun hmade hfile => ?_⟩
  change (s.made || a.makesFile) = true at hmade
  change (s.attend.pidFile || a.makesFile) = true at hfile
  change 10 ≤ b.phase ∧ b.phase ≤ 13
  cases hi : s.inside with
  | true =>
      -- `cont_attend` has returned: the file is gone
      obtain ⟨h₁₃, -, hkept⟩ := hs.inside hi
      obtain ⟨w, hw, -⟩ := hphase
      rw [h₁₃] at hw
      obtain ⟨status, rfl, -⟩ := bootPhase_attending hw
      simp [hkept.gone hpc, BootAnswer.makesFile] at hfile
  | false =>
      have hwindow := (hs.outside hi).2.2
      cases hm : a.makesFile with
      | true =>
          -- phase 9 makes the file
          cases a with
          | record pidfile start =>
              obtain ⟨-, h₁₀⟩ := bootStep_record hb
              cases pidfile with
              | written =>
                  have hstart : start = true := by simpa [FileKept] using hg
                  have := h₁₀ rfl hstart
                  omega
              | noFile => cases hm
              | notWritten => simp [FileKept] at hg
          | _ => cases hm
      | false =>
          -- the file was there: the phases up to `cont_attend` follow each other
          rw [hm, Bool.or_false] at hmade hfile
          obtain ⟨hlow, hhigh⟩ := hwindow hmade hfile
          by_cases h₁₃ : s.boot.phase = 13
          · obtain ⟨w, hw, -⟩ := hphase
            rw [h₁₃] at hw
            obtain ⟨status, rfl, -⟩ := bootPhase_attending hw
            have := (hattend status rfl).1
            rw [hi] at this
            cases this
          · have hscript : ∀ fate, a = .script fate → s.boot.phase = 11 →
                cntInitscript fate = true := by
              rintro fate rfl h₁₁
              simpa [FileKept, h₁₁] using hg
            have := bootStep_window hb ⟨hlow, by omega⟩ hscript
            omega

theorem matching_attend (hs : Matching s) {e : Attend.Event} (hg : RemovesDead s.attend e = true)
    {u : Attend.State} (h : attendStep name s.attend e = some u) :
    Matching { s with attend := u } := by
  refine ⟨hs.boot, fun hi => ?_, fun hi => ?_⟩
  · -- a step of `cont_attend`
    obtain ⟨h₁₃, hgo, hkept⟩ := hs.inside hi
    exact ⟨h₁₃, hgo, kept_step hkept hg h⟩
  · -- outside only a handler or the end of the container
    obtain ⟨hpc, hkept, hwindow⟩ := hs.outside hi
    obtain ⟨hpc', hfile, hremoved⟩ := leaving_step hpc h
    exact ⟨hpc', hremoved.trans hkept, fun hmade hu => hwindow hmade (hfile ▸ hu)⟩

theorem matching_step (hs : Matching s) (hg : FileKept s e = true) (h : s.step name e = some t) :
    Matching t := by
  cases e with
  | turn a =>
      by_cases hattend : ∃ status, a = .attend status
      · obtain ⟨status, rfl⟩ := hattend
        simp only [Supervision.step] at h
        split at h
        · rename_i hdone
          simp only [Supervision.attended, Bool.and_eq_true] at hdone
          refine matching_turn hs hg (fun _ _ => ⟨hdone.1.1, ?_⟩) h
          have hpc := hdone.1.2
          split at hpc
          · rename_i hret
            rw [hret]
            rfl
          · cases hpc
        · cases h
      · have hturn : s.turn name a = some t := by
          cases a with
          | attend status => exact absurd ⟨status, rfl⟩ hattend
          | _ => exact h
        exact matching_turn hs hg (fun status ha => absurd ⟨status, ha⟩ hattend) hturn
  | enter =>
      simp only [Supervision.step] at h
      split at h
      · rename_i hcan
        simp only [Bool.and_eq_true, beq_iff_eq] at hcan
        cases h
        refine ⟨hs.boot, fun _ => ⟨hcan.1.2, hcan.1.1, ?_⟩, fun hi => nomatch hi⟩
        exact ⟨hs.removedAlive, (fun hr => nomatch hr), fun hl => nomatch hl⟩
      · cases h
  | attend e =>
      obtain ⟨u, hu, rfl⟩ := Option.map_eq_some_iff.1 h
      exact matching_attend hs hg hu

/-- In a run whose steps are all `FileKept`, `first.pid` matches the life of the container. -/
theorem boot_pid_file_matches {signals : Signals Nat} {pidFile : Bool} {es : List SupervisionEvent}
    (hm : Meets (Supervision.step name) (fun s e => FileKept s e = true) (.init signals pidFile) es) :
    Always (Supervision.step name) PidFileMatches (.init signals pidFile) es :=
  always_of_meets (fun _ hs => hs.matches) (fun _ _ _ hs hg ht => matching_step hs hg ht)
    (matching_init signals pidFile) hm

end Step

/-- `boot` up to the call of `cont_attend`, and steps of `cont_attend`. -/
def attending (es : List Attend.Event) : List SupervisionEvent :=
  (plainBoot.take 13).map SupervisionEvent.turn ++ SupervisionEvent.enter :: es.map .attend

/-- `boot` behind `cont_attend`. -/
def attended (status : Int) : List SupervisionEvent :=
  .turn (.attend status) :: (plainBoot.drop 14).map .turn

/-- The container powers off during the first poll. -/
def poweroff : List Attend.Event :=
  toPoll ++ [Attend.Event.ends, .poll .exited, .run, .wait (.signaled 2), .run, .removed true, .run]

theorem boot_pid_file_matches_poweroff : ∃ s,
    run (Supervision.step ['w', 'e', 'b']) (.init noSignals false) (attending poweroff ++ attended 2)
      = some s ∧ s.boot.returned ∧ s.made = true ∧ PidFileMatches s := by
  have hrun : ∃ s, run (Supervision.step ['w', 'e', 'b']) (.init noSignals false)
      (attending poweroff ++ attended 2) = some s ∧ s.boot.returned ∧ s.made = true :=
    exists_run (by decide +kernel)
  obtain ⟨s, h, hret, hmade⟩ := hrun
  have hcheck : checkMeets (Supervision.step ['w', 'e', 'b']) FileKept (.init noSignals false)
      (attending poweroff ++ attended 2) = true := by decide +kernel
  exact ⟨s, h, hret, hmade, boot_pid_file_matches (meets_of_check hcheck) _ [] s (by simp) h⟩

/-- The monitoring process is not found. -/
def unmonitored : List Attend.Event :=
  (List.replicate 5 (List.replicate 68 Attend.Event.run ++ [.monitor 0])).flatten ++ [.run]

/-- SIGTERM, and the command that `cont_shutdown` runs in the container fails. -/
def poweroffFails : List Attend.Event :=
  toPoll ++ [Attend.Event.poll (.interrupted sigTerm)] ++ List.replicate 72 Attend.Event.run ++
    [Attend.Event.shutdown (.config true), .shutdown (.pid 101), .shutdown .none, .shutdown (.config true),
      .shutdown (.pid 101), .shutdown (.inject (some 256)), .shutdown .none,
      .shutdown (.removed true)]

/-- `boot` returns and leaves the file; the file of a live container is removed. -/
theorem boot_pid_file_mismatches :
    (∃ s, run (Supervision.step ['w', 'e', 'b']) (.init noSignals false)
      (attending unmonitored ++ attended 0) = some s ∧ s.boot.returned ∧ ¬ PidFileMatches s) ∧
    ∃ s, run (Supervision.step ['w', 'e', 'b']) (.init noSignals false) (attending poweroffFails)
      = some s ∧ s.attend.alive = true ∧ ¬ PidFileMatches s := by
  constructor
  · have hrun : ∃ s, run (Supervision.step ['w', 'e', 'b']) (.init noSignals false)
        (attending unmonitored ++ attended 0) = some s ∧ s.boot.returned ∧ s.made = true ∧
          s.attend.pidFile = true := exists_run (by decide +kernel)
    obtain ⟨s, h, hret, hmade, hfile⟩ := hrun
    refine ⟨s, h, hret, fun hs => ?_⟩
    rw [hs.2 hret hmade] at hfile
    cases hfile
  · have hrun : ∃ s, run (Supervision.step ['w', 'e', 'b']) (.init noSignals false)
        (attending poweroffFails) = some s ∧ s.attend.alive = true ∧ s.attend.removedAlive = true :=
      exists_run (by decide +kernel)
    obtain ⟨s, h, halive, hremoved⟩ := hrun
    refine ⟨s, h, halive, fun hs => ?_⟩
    rw [hs.1] at hremoved
    cases hremoved

end Vzgot.Boot
