import Vzgot.Boot.History

/-!
# The device directory of a container

`cnt_set_sup_devices` mounts a tmpfs on the directory `dev` of the container in phase 6, and
`cnt_unset_sup_devices` unmounts what is on top there in phase 18. Mounts stack, and a
supervisor that is killed leaves its own behind.

`boot_mounts`: where phase 18 can unmount what is mounted, `boot` ends with no more mounts than
it has found. Where it has found none it
ends with none, and it comes to `LCK_UNLOCK` exactly when its last attempt had mounted the
directory: an attempt that fails before finds nothing to unmount, and `phase=999` skips the
phase that removes the lock. `series_mounts`: over the boots of a container the mounts are at
most as many as the supervisors that were killed.
-/

set_option autoImplicit false

namespace Vzgot.Devices

open Vzgot.Transition Vzgot.Boot

/-! ## The two procedures -/

/-- `mount` of the tmpfs: it is mounted, `EBUSY`, or another error. -/
inductive MountRun where
  | mounted
  | busy
  | refused
  deriving DecidableEq

/-- `symlink` of `fd`: it is there now, `EBUSY`, or another error. -/
inductive LinkRun where
  | linked
  | busy
  | refused
  deriving DecidableEq

/-- What the calls of `cnt_set_sup_devices` come to; `cp` is the status of `system`, and
`refused` says that `umount2` fails although something is mounted. -/
structure Setup where
  mkdir : Bool
  mount : MountRun
  cp : Int
  refused : Bool
  symlink : LinkRun

/-- `umount2` with `MNT_DETACH`: whether it succeeds, and the number of mounts. Nothing can be
unmounted where nothing is mounted. -/
def umount2 (refused : Bool) (mounts : Nat) : Bool × Nat :=
  if refused ∨ mounts = 0 then (false, mounts) else (true, mounts - 1)

/-- Phases 2 to 5 of `cnt_set_sup_devices`, with the number of mounts. -/
def fillDevices (s : Setup) (mounts : Nat) : Bool × Nat :=
  -- a `cp` that fails is followed by `umount2`, whose result is dropped
  if s.cp ≠ 0 then (false, (umount2 s.refused mounts).2)
  else match s.symlink with
    | .linked | .busy => (true, mounts)
    | .refused => (false, mounts)

/-- `cnt_set_sup_devices`: its result, and the number of mounts on the directory. -/
def cntSetSupDevices (s : Setup) (mounts : Nat) : Bool × Nat :=
  if s.mkdir then
    match s.mount with
    | .mounted => fillDevices s (mounts + 1)
    -- taken for a directory that is mounted already
    | .busy => fillDevices s mounts
    | .refused => (false, mounts)
  else (false, mounts)

/-- `cnt_unset_sup_devices` -/
def cntUnsetSupDevices (refused : Bool) (mounts : Nat) : Bool × Nat := umount2 refused mounts

/-- `cnt_set_sup_devices` leaves a mount of its own, whatever it returns. -/
def Setup.keeps (s : Setup) : Bool := s.mkdir && s.mount = .mounted && (s.cp = 0 || s.refused)

theorem umount2_refused (mounts : Nat) : umount2 true mounts = (false, mounts) := if_pos (.inl rfl)

theorem umount2_mounts_le (refused : Bool) (mounts : Nat) : (umount2 refused mounts).2 ≤ mounts := by
  unfold umount2
  split
  · exact Nat.le_refl mounts
  · exact Nat.sub_le mounts 1

theorem fillDevices_mounts (s : Setup) (mounts : Nat) :
    (fillDevices s mounts).2 = if s.cp = 0 then mounts else (umount2 s.refused mounts).2 := by
  by_cases hcp : s.cp = 0
  · rw [fillDevices, if_neg (not_not.2 hcp), if_pos hcp]
    cases s.symlink <;> rfl
  · rw [fillDevices, if_pos hcp, if_neg hcp]

theorem cntSetSupDevices_keeps {s : Setup} (h : s.keeps = true) (mounts : Nat) :
    (cntSetSupDevices s mounts).2 = mounts + 1 := by
  simp only [Setup.keeps, Bool.and_eq_true, Bool.or_eq_true, decide_eq_true_eq] at h
  obtain ⟨⟨hmkdir, hmount⟩, hcp⟩ := h
  rw [cntSetSupDevices, if_pos hmkdir, hmount]
  refine (fillDevices_mounts s (mounts + 1)).trans ?_
  split
  · rfl
  · rename_i hfailed
    rw [hcp.resolve_left hfailed, umount2_refused]

theorem cntSetSupDevices_drops {s : Setup} (h : s.keeps = false) (mounts : Nat) :
    (cntSetSupDevices s mounts).2 ≤ mounts := by
  by_cases hmkdir : s.mkdir = true
  · rw [cntSetSupDevices, if_pos hmkdir]
    cases hmount : s.mount with
    | mounted =>
        -- the mount is taken away behind the `cp` that has failed
        simp only [Setup.keeps, hmkdir, hmount, decide_true, Bool.and_self, Bool.true_and,
          Bool.or_eq_false_iff, decide_eq_false_iff_not] at h
        obtain ⟨hcp, hrefused⟩ := h
        have hunset : umount2 false (mounts + 1) = (true, mounts) := if_neg (by simp)
        exact Nat.le_of_eq (by rw [fillDevices_mounts, if_neg hcp, hrefused, hunset])
    | busy =>
        rw [fillDevices_mounts]
        split
        · exact Nat.le_refl mounts
        · exact umount2_mounts_le s.refused mounts
    | refused => exact Nat.le_refl mounts
  · simp [cntSetSupDevices, hmkdir]

/-! ## The loop with the mounts -/

/-- The loop of `boot`, the number of mounts on the device directory, and whether one of them
was left by `cnt_set_sup_devices` of this attempt. -/
structure House where
  boot : BootState
  mounts : Nat
  own : Bool

/-- The calls of phase 6, that of phase 18, or the results of another phase. -/
inductive Event where
  | setup (s : Setup)
  | teardown (refused : Bool)
  | other (a : BootAnswer)

/-- One turn of the loop. -/
def step (name : List Char) (h : House) : Event → Option House
  | .setup s =>
      let r := cntSetSupDevices s h.mounts
      (bootStep name h.boot (.setSupDevices r.1)).map fun b => ⟨b, r.2, s.keeps⟩
  | .teardown refused =>
      let r := cntUnsetSupDevices refused h.mounts
      (bootStep name h.boot (.unsetSupDevices r.1)).map fun b => ⟨b, r.2, h.own⟩
  | .other a =>
      if a.home = some 6 ∨ a.home = some 18 then none
      -- `REBOOT` begins the next attempt
      else (bootStep name h.boot a).map fun b => ⟨b, h.mounts, h.own && decide (b.phase ≠ 2)⟩

/-- `boot` is called where `mounts` mounts are found. -/
def start (mounts : Nat) : House := ⟨bootInit, mounts, false⟩

/-- Phase 18 can unmount what is mounted. -/
def Sound (_ : House) : Event → Prop
  | .teardown refused => refused = false
  | _ => True

/-- `LCK_UNLOCK` has been called. -/
def Unlocked (b : BootState) : Prop := ∃ attempt removed, (attempt, .unlock removed) ∈ b.ops

/-- What holds in every state when `d` mounts were found. -/
structure Inv (d : Nat) (b : BootState) (mounts : Nat) (own : Bool) : Prop where
  bound : mounts ≤ d + 1
  /-- One mount more is the own one, up to phase 18. -/
  others : own = false ∨ 19 ≤ b.phase → mounts ≤ d
  mine : own = true → b.phase ≤ 18 → 0 < mounts
  early : b.phase ≤ 6 → own = false
  /-- `phase=999` is for those that have found nothing to unmount. -/
  skipped : 1000 ≤ b.phase → mounts = 0 ∧ own = false
  /-- Who gets behind phase 18 has unmounted something. -/
  passed : d = 0 → 19 ≤ b.phase → b.phase < 1000 → own = true
  unlocked : Unlocked b ↔ 21 ≤ b.phase ∧ b.phase < 1000
  range : ¬ b.returned → b.phase ≤ 22 ∨ b.phase = 1000
  ended : b.returned → b.phase = 2 ∨ b.phase = 23 ∨ b.phase = 1001

/-! ## One turn -/

section Step

variable {name : List Char} {d : Nat} {b : BootState} {mounts : Nat} {own : Bool}
  {a : BootAnswer} {w : Work}

theorem inv_start (d : Nat) : Inv d bootInit d false where
  bound := Nat.le_succ d
  others _ := Nat.le_refl d
  mine h := nomatch h
  early _ := rfl
  skipped h := nomatch h
  passed _ h := nomatch h
  unlocked := by
    constructor
    · rintro ⟨attempt, removed, h⟩
      cases h
    · rintro ⟨h, -⟩
      cases h
  range _ := .inl (Nat.zero_le 22)
  ended h := nomatch h

/-- The safe guard ends the loop. -/
theorem bootPhase_guard {phase : Nat} {v : BootVars} (hw : bootPhase name phase v a = some w)
    (hphase : 22 ≤ phase) : w.jump = .stop := by
  obtain ⟨n, rfl⟩ := Nat.exists_eq_add_of_le' hphase
  cases a with
  | none =>
      simp only [bootPhase, Option.some.injEq] at hw
      subst hw
      rfl
  | _ => simp [bootPhase] at hw

/-- Phase 6 takes the result of `cnt_set_sup_devices`. -/
theorem bootPhase_setup {v : BootVars} (hw : bootPhase name 6 v a = some w) :
    a.home = some 6 := by
  cases a with
  | setSupDevices ok => rfl
  | _ => simp [bootPhase] at hw

/-- Only phase 20 calls `LCK_UNLOCK`. -/
theorem unlocked_after (hw : bootPhase name b.phase b.vars a = some w) :
    Unlocked (b.after w) ↔ Unlocked b ∨ b.phase = 20 := by
  constructor
  · rintro ⟨attempt, removed, hmem⟩
    rw [after_ops, List.mem_append, List.mem_map] at hmem
    rcases hmem with ⟨op, hop, heq⟩ | hmem
    · cases heq
      exact .inr (bootPhase_mem hw rfl hop)
    · exact .inl ⟨attempt, removed, hmem⟩
  · rintro (⟨attempt, removed, hmem⟩ | hphase)
    · exact ⟨attempt, removed, List.mem_append_right _ hmem⟩
    · rw [hphase] at hw
      obtain ⟨mkdir, unlink, -, rfl⟩ := bootPhase_unlocking hw
      refine ⟨b.attempt, mkdir && unlink, ?_⟩
      exact List.mem_append_left _ (List.mem_map_of_mem List.mem_cons_self)

/-- Where a turn leads, and whether it is the last one. -/
theorem turn_cases (hw : bootPhase name b.phase b.vars a = some w) :
    (¬ (b.after w).returned ∧ b.phase ≤ 21 ∧ (b.after w).phase = b.phase + 1) ∨
      (¬ (b.after w).returned ∧ (b.phase < 13 ∨ b.phase = 14) ∧ (b.after w).phase = 16) ∨
      (¬ (b.after w).returned ∧ b.phase = 19 ∧ (b.after w).phase = 2) ∨
      (¬ (b.after w).returned ∧ b.phase = 18 ∧ (b.after w).phase = 1000) ∨
      ((b.after w).returned ∧ (b.phase = 1 ∨ 22 ≤ b.phase) ∧
        (b.after w).phase = b.phase + 1) := by
  rw [after_returned, after_phase]
  rcases bootPhase_target hw with ⟨hj, ht⟩ | ⟨hj, hp, ht⟩ | ⟨hj, hp, ht⟩ | ⟨hj, hp, ht⟩ | ⟨hj, hp, ht⟩
  · have hphase : b.phase ≤ 21 := by
      by_contra hbehind
      rw [bootPhase_guard hw (by omega)] at hj
      cases hj
    exact .inl ⟨by simp [hj], hphase, ht⟩
  · exact .inr (.inl ⟨by simp [hj], hp, ht⟩)
  · exact .inr (.inr (.inl ⟨by simp [hj], hp, ht⟩))
  · exact .inr (.inr (.inr (.inl ⟨by simp [hj], hp, ht⟩)))
  · exact .inr (.inr (.inr (.inr ⟨hj, hp, ht⟩)))

/-- The part of the invariant that does not read the mounts. -/
theorem Inv.turn (hi : Inv d b mounts own) (hgo : ¬ b.returned)
    (hw : bootPhase name b.phase b.vars a = some w) :
    (Unlocked (b.after w) ↔ 21 ≤ (b.after w).phase ∧ (b.after w).phase < 1000) ∧
      (¬ (b.after w).returned → (b.after w).phase ≤ 22 ∨ (b.after w).phase = 1000) ∧
      ((b.after w).returned → (b.after w).phase = 2 ∨ (b.after w).phase = 23 ∨
        (b.after w).phase = 1001) := by
  have hrange := hi.range hgo
  rw [unlocked_after hw, hi.unlocked]
  rcases turn_cases hw with ⟨hret, hp, ht⟩ | ⟨hret, hp, ht⟩ | ⟨hret, hp, ht⟩ | ⟨hret, hp, ht⟩ |
    ⟨hret, hp, ht⟩
  all_goals
    rw [ht]
    refine ⟨by omega, fun hnot => ?_, fun hend => ?_⟩
  all_goals
    first
    | omega
    | contradiction

/-- Phase 6: at most one mount more, and that is an own one. -/
theorem inv_setup (hi : Inv d b mounts own) {s : Setup} (hgo : ¬ b.returned)
    (hw : bootPhase name b.phase b.vars (.setSupDevices (cntSetSupDevices s mounts).1) = some w) :
    Inv d (b.after w) (cntSetSupDevices s mounts).2 s.keeps := by
  have hphase : b.phase = 6 := bootPhase_answer hw rfl
  have hnext : (b.after w).phase = 7 ∨ (b.after w).phase = 16 := by
    rcases turn_cases hw with ⟨-, -, ht⟩ | ⟨-, -, ht⟩ | ⟨-, hp, -⟩ | ⟨-, hp, -⟩ | ⟨-, hp, -⟩ <;> omega
  have hfound : mounts ≤ d := hi.others (.inl (hi.early (by omega)))
  have hdrops : s.keeps = false → (cntSetSupDevices s mounts).2 ≤ mounts :=
    fun h => cntSetSupDevices_drops h mounts
  have hkeeps : s.keeps = true → (cntSetSupDevices s mounts).2 = mounts + 1 :=
    fun h => cntSetSupDevices_keeps h mounts
  obtain ⟨hunlocked, hrange, hended⟩ := hi.turn hgo hw
  constructor
  · cases hk : s.keeps with
    | true => have := hkeeps hk; omega
    | false => have := hdrops hk; omega
  · rintro (hk | hbehind)
    · have := hdrops hk
      omega
    · omega
  · intro hk _
    have := hkeeps hk
    omega
  all_goals first | assumption | (intros; omega)

/-- Phase 18: one mount less, or none was there. -/
theorem inv_teardown (hi : Inv d b mounts own) (hgo : ¬ b.returned)
    (hw : bootPhase name b.phase b.vars (.unsetSupDevices (cntUnsetSupDevices false mounts).1) =
      some w) :
    Inv d (b.after w) (cntUnsetSupDevices false mounts).2 own := by
  have hphase : b.phase = 18 := bootPhase_answer hw rfl
  obtain ⟨hunlocked, hrange, hended⟩ := hi.turn hgo hw
  have hbound := hi.bound
  have hothers := hi.others
  have hmine := hi.mine
  have hw' := hw
  rw [hphase] at hw' hmine
  obtain ⟨ok, hok, hwork⟩ := bootPhase_devices hw'
  injection hok with hok
  by_cases hzero : mounts = 0
  · -- nothing is unmounted, and the loop goes to its end
    have hunset : cntUnsetSupDevices false mounts = (false, mounts) := if_pos (.inr hzero)
    have hnext : (b.after w).phase = 1000 := by
      rw [hwork, ← hok, hunset]
      rfl
    have hnone : own = false := by
      cases hown : own with
      | false => rfl
      | true =>
          have hsome := hmine hown (Nat.le_refl 18)
          omega
    rw [hunset]
    change Inv d (b.after w) mounts own
    constructor
    · exact hbound
    · intro _
      omega
    · intro hown
      rw [hnone] at hown
      cases hown
    · intro _
      exact hnone
    · intro _
      exact ⟨hzero, hnone⟩
    · omega
    · exact hunlocked
    · exact hrange
    · exact hended
  · have hunset : cntUnsetSupDevices false mounts = (true, mounts - 1) := by
      rw [cntUnsetSupDevices, umount2, if_neg (by simpa using hzero)]
    have hnext : (b.after w).phase = 19 := by
      rw [hwork, ← hok, hunset, after_phase, hphase]
      rfl
    rw [hunset]
    change Inv d (b.after w) (mounts - 1) own
    have hown : d = 0 → own = true := by
      intro hd
      by_contra hnone
      have := hothers (.inl (by simpa using hnone))
      omega
    constructor
    · omega
    · intro _
      omega
    · intro _ hlow
      omega
    · intro hlow
      omega
    · intro hhigh
      omega
    · exact fun hd _ _ => hown hd
    · exact hunlocked
    · exact hrange
    · exact hended

/-- The other phases do not read the mounts. -/
theorem inv_other (hi : Inv d b mounts own) (hgo : ¬ b.returned)
    (ha : ¬ (a.home = some 6 ∨ a.home = some 18)) (hw : bootPhase name b.phase b.vars a = some w) :
    Inv d (b.after w) mounts (own && decide ((b.after w).phase ≠ 2)) := by
  have h₆ : b.phase ≠ 6 := by
    intro hphase
    rw [hphase] at hw
    exact ha (.inl (bootPhase_setup hw))
  have h₁₈ : b.phase ≠ 18 := by
    intro hphase
    rw [hphase] at hw
    obtain ⟨ok, rfl, -⟩ := bootPhase_devices hw
    exact ha (.inr rfl)
  obtain ⟨hunlocked, hrange, hended⟩ := hi.turn hgo hw
  have hbound := hi.bound
  have hothers := hi.others
  have hmine := hi.mine
  have hearly := hi.early
  have hskipped := hi.skipped
  have hpassed := hi.passed
  have hplace := hi.range hgo
  have hturn := turn_cases hw
  by_cases hsecond : (b.after w).phase = 2
  · -- the next attempt begins, or the lock was not given
    have hown : (own && decide ((b.after w).phase ≠ 2)) = false := by
      rw [decide_eq_false (not_not.2 hsecond), Bool.and_false]
    have hfound : mounts ≤ d := by
      apply hothers
      by_cases hphase : b.phase ≤ 6
      · exact .inl (hearly hphase)
      · right
        omega
    rw [hown]
    constructor
    · exact hbound
    · exact fun _ => hfound
    · intro h
      cases h
    · exact fun _ => rfl
    · intro hhigh
      omega
    · intro _ hhigh
      omega
    · exact hunlocked
    · exact hrange
    · exact hended
  · have hown : (own && decide ((b.after w).phase ≠ 2)) = own := by
      rw [decide_eq_true hsecond, Bool.and_true]
    rw [hown]
    constructor
    · exact hbound
    · rintro (hnone | hbehind)
      · exact hothers (.inl hnone)
      · exact hothers (.inr (by omega))
    · intro hmine' hlow
      exact hmine hmine' (by omega)
    · intro hlow
      exact hearly (by omega)
    · intro hhigh
      exact hskipped (by omega)
    · intro hd hhigh hlow
      exact hpassed hd (by omega) (by omega)
    · exact hunlocked
    · exact hrange
    · exact hended

end Step

/-! ## Runs -/

section Runs

variable {name : List Char} {d : Nat} {h h' t : House}

theorem inv_step {e : Event} (hi : Inv d h.boot h.mounts h.own) (hv : Sound h e)
    (hs : step name h e = some h') : Inv d h'.boot h'.mounts h'.own := by
  cases e with
  | setup s =>
      simp only [step, Option.map_eq_some_iff, bootStep_eq_some] at hs
      obtain ⟨b, ⟨hgo, w, hw, rfl⟩, rfl⟩ := hs
      exact inv_setup hi (by simp [BootState.returned, hgo]) hw
  | teardown refused =>
      obtain rfl : refused = false := hv
      simp only [step, Option.map_eq_some_iff, bootStep_eq_some] at hs
      obtain ⟨b, ⟨hgo, w, hw, rfl⟩, rfl⟩ := hs
      exact inv_teardown hi (by simp [BootState.returned, hgo]) hw
  | other a =>
      simp only [step, Option.ite_none_left_eq_some, Option.map_eq_some_iff, bootStep_eq_some] at hs
      obtain ⟨ha, b, ⟨hgo, w, hw, rfl⟩, rfl⟩ := hs
      exact inv_other hi (by simp [BootState.returned, hgo]) ha hw

/-- The invariant along a run. -/
theorem inv_run {es : List Event} (hv : Meets (step name) Sound (start d) es)
    (hr : run (step name) (start d) es = some t) : Inv d t.boot t.mounts t.own :=
  meets_invariant (fun _ _ _ hi hg hs => inv_step hi hg hs) (inv_start d) hv hr

theorem Inv.mounts_le {b : BootState} {mounts : Nat} {own : Bool} (hi : Inv d b mounts own)
    (hret : b.returned) : mounts ≤ d := by
  have hended := hi.ended hret
  by_cases hphase : b.phase = 2
  · exact hi.others (.inl (hi.early (by omega)))
  · exact hi.others (.inr (by omega))

/-- When `boot` returns, no more is mounted on the device directory than before. It has called
`LCK_UNLOCK`, or nothing is mounted, or the lock was not given. Where nothing was mounted before,
nothing is mounted, and it has called `LCK_UNLOCK` exactly when `cnt_set_sup_devices` of its last
attempt had left a mount. -/
theorem boot_mounts {es : List Event} (hv : Meets (step name) Sound (start d) es)
    (hr : run (step name) (start d) es = some t) (hret : t.boot.returned) :
    t.mounts ≤ d ∧ (Unlocked t.boot ∨ t.mounts = 0 ∨ t.boot.phase = 2) ∧
      (d = 0 → t.mounts = 0 ∧ (Unlocked t.boot ↔ t.own = true)) := by
  have hi := inv_run hv hr
  have hended := hi.ended hret
  have hothers := hi.others
  have hearly := hi.early
  have hskipped := hi.skipped
  have hpassed := hi.passed
  rw [hi.unlocked]
  refine ⟨hi.mounts_le hret, ?_, ?_⟩
  · by_cases hlow : t.boot.phase < 1000
    · omega
    · exact .inr (.inl (hskipped (by omega)).1)
  · intro hd
    rcases hended with hphase | hphase | hphase
    · have hnone := hearly (by omega)
      have hfound := hothers (.inl hnone)
      rw [hnone]
      exact ⟨by omega, by simp; omega⟩
    · have hfound := hothers (.inr (by omega))
      rw [hpassed hd (by omega) (by omega)]
      exact ⟨by omega, by simp; omega⟩
    · obtain ⟨hzero, hnone⟩ := hskipped (by omega)
      rw [hnone]
      exact ⟨hzero, by simp; omega⟩

/-- A boot whose clone fails behind the mount of its devices. -/
def noClone : List Event :=
  [.other (.config true), .other (.lock true), .other (.script (.exited 0)),
    .other (.pipe (some (3, 4))), .other (.pty (.ready 5)), .other (.setCgroup true),
    .setup ⟨true, .mounted, 0, false, .linked⟩, .other (.console (.tracked 6 70)),
    .other (.clone none), .other .none, .other (.cleaned .moved true true), .teardown false,
    .other .none, .other (.unlock true true), .other .none, .other .none]

/-- It unmounts its devices and calls `LCK_UNLOCK`. -/
theorem boot_mounts_unmounted :
    ∃ t, run (step "c".toList) (start 0) noClone = some t ∧
      t.boot.returned ∧ t.mounts = 0 ∧ Unlocked t.boot := by
  have hrun : (run (step "c".toList) (start 0) noClone).any
      (fun t => decide (t.boot.returned ∧ t.own = true)) = true := by decide +kernel
  obtain ⟨t, hr, hret, hown⟩ := exists_run hrun
  have hmeets : Meets (step "c".toList) Sound (start 0) noClone := by
    apply meets_of_forall
    intro pre e post h hsplit _
    have hmem : e ∈ noClone := by simp [hsplit]
    cases e with
    | setup s => trivial
    | other a => trivial
    | teardown refused =>
        simp only [noClone, List.mem_cons, List.not_mem_nil, reduceCtorEq, false_or, or_false] at hmem
        injection hmem
  obtain ⟨hzero, hiff⟩ := (boot_mounts hmeets hr hret).2.2 rfl
  exact ⟨t, hr, hret, hzero, hiff.mpr hown⟩

end Runs

/-! ## The boots of a container -/

/-- Boots one after the other: what was mounted before and is mounted now, and how many of their
supervisors were killed. -/
inductive Series (name : List Char) (d : Nat) : Nat → Nat → Prop where
  | none : Series name d d 0
  | returned {m k : Nat} {es : List Event} {t : House} (h : Series name d m k)
      (hv : Meets (step name) Sound (start m) es) (hr : run (step name) (start m) es = some t)
      (hret : t.boot.returned) : Series name d t.mounts k
  | killed {m k : Nat} {es : List Event} {t : House} (h : Series name d m k)
      (hv : Meets (step name) Sound (start m) es) (hr : run (step name) (start m) es = some t) :
      Series name d t.mounts (k + 1)

/-- A supervisor that is killed leaves one mount at most, and the others leave none. -/
theorem series_mounts {name : List Char} {d m k : Nat} (h : Series name d m k) : m ≤ d + k := by
  induction h with
  | none => exact Nat.le_refl d
  | returned _ hv hr hret ih =>
      have hfound := (inv_run hv hr).mounts_le hret
      omega
  | killed _ hv hr ih =>
      have hbound := (inv_run hv hr).bound
      omega

end Vzgot.Devices
