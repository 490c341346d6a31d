import Mathlib.Algebra.Order.Ring.Int
import Vzgot.Library.While

/-!
# The end of the processes of a list

`prc_childkill` (`lib/subprc.c`) sends `SIGTERM` to the processes of a list, looks at them
once a second for `delay` seconds, and sends `SIGKILL` to those that are left. Which
processes are alive is a trace: every step of a loop over the list and every second of
waiting is an instant.

`delay` is counted down and compared with zero behind each round, so that a delay of zero
or less is never over: the function then goes on until all processes have ended. It is right
exactly for a positive delay, or when all are dead at `SIGTERM` or after the first second
(`prcChildkill_right_iff`).
-/

set_option autoImplicit false

namespace Vzgot.Process

open While

/-- The processes that are alive at an instant. -/
abbrev Trace := Nat → Int → Bool

/-- Signals of `kill`. -/
inductive Signal where
  | sigTerm
  | sigCheck
  | sigKill
  deriving DecidableEq

/-- A loop over the list: `overkill`, and the calls of `kill`. -/
structure Pass where
  found : Bool
  sent : List (Int × Signal)

section Code

variable (alive : Trace)

/-- The signal to every process of the list, the first one at the instant `t`. -/
def killAll (sig : Signal) : Nat → List Int → Pass
  | _, [] => ⟨false, []⟩
  | t, pid :: pids =>
      let r := killAll sig (t + 1) pids
      -- no way to kill admin process
      if pid ≤ 1 then r else ⟨alive t pid || r.found, (pid, sig) :: r.sent⟩

/-- `SIGKILL` to those that are alive. -/
def overkillAll : Nat → List Int → List (Int × Signal)
  | _, [] => []
  | t, pid :: pids =>
      let r := overkillAll (t + 1) pids
      if pid ≤ 1 then r
      else if alive t pid then (pid, .sigCheck) :: (pid, .sigKill) :: r
      else (pid, .sigCheck) :: r

/-- Variables of the loop, the instant, the rounds and the calls of `kill` so far. -/
structure Waiting where
  overkill : Bool
  delay : Int
  time : Nat
  rounds : Nat
  sent : List (Int × Signal)

variable (pids : List Int)

/-- The first loop. -/
def waitStart (delay : Int) : Waiting :=
  let r := killAll alive .sigTerm 0 pids
  ⟨r.found, delay, pids.length, 0, r.sent⟩

/-- A second of waiting, and a look at every process. -/
def Waiting.round (s : Waiting) : Waiting :=
  let r := killAll alive .sigCheck (s.time + 1) pids
  ⟨r.found, s.delay - 1, s.time + 1 + pids.length, s.rounds + 1, s.sent ++ r.sent⟩

/-- A turn of the loop. -/
def Waiting.turn (s : Waiting) : Turn Waiting :=
  if s.overkill then
    let s' := s.round alive pids
    if s'.delay = 0 then .leave s' else .again s'
  else .leave s

/-- What `prc_childkill` has done: the rounds of waiting, the instant when they were over,
and the calls of `kill`. -/
structure Outcome where
  rounds : Nat
  deadline : Nat
  sent : List (Int × Signal)

/-- The last loop. -/
def Waiting.outcome (s : Waiting) : Outcome :=
  ⟨s.rounds, s.time, s.sent ++ if s.overkill then overkillAll alive s.time pids else []⟩

end Code

/-- `prc_childkill`. -/
def prcChildkill (alive : Trace) (fuel : Nat) (prclst : Option (List Int)) (delay : Int) :
    Option Outcome :=
  match prclst with
  | none => some ⟨0, 0, []⟩
  | some pids =>
      (whileLoop (Waiting.turn alive pids) fuel (waitStart alive pids delay)).map
        (Waiting.outcome alive pids)

/-- No process of the list is alive when it is looked at from the instant `t` on. -/
def NoneAlive (alive : Trace) (t : Nat) (pids : List Int) : Prop :=
  ∀ i pid, pids[i]? = some pid → 1 < pid → alive (t + i) pid = false

/-- What `prc_childkill` is for: it comes to an end, signals no administrative process,
waits for at most `max delay 1` rounds, for less only when it has found every process dead in
the last one, and kills every process that it finds alive in the last round and behind it. -/
structure Outcome.Right (alive : Trace) (pids : List Int) (delay : Int) (o : Outcome) : Prop where
  allowed : ∀ k ∈ o.sent, 1 < k.1
  rounds : (o.rounds : Int) ≤ max delay 1
  early : (o.rounds : Int) < max delay 1 → NoneAlive alive (o.deadline - pids.length) pids
  killed : ∀ i pid, pids[i]? = some pid → 1 < pid →
    alive (o.deadline - pids.length + i) pid = true → alive (o.deadline + i) pid = true →
      (pid, .sigKill) ∈ o.sent

section Loops

variable {alive : Trace} {sig : Signal} {pids : List Int} {t : Nat}

theorem noneAlive_cons {pid : Int} :
    NoneAlive alive t (pid :: pids) ↔
      (1 < pid → alive t pid = false) ∧ NoneAlive alive (t + 1) pids := by
  constructor
  · intro h
    refine ⟨h 0 pid rfl, fun i p hp => ?_⟩
    rw [Nat.add_assoc, Nat.add_comm 1 i]
    exact h (i + 1) p hp
  · rintro ⟨hfirst, hrest⟩ i p hp
    cases i with
    | zero =>
        obtain rfl : pid = p := Option.some.inj hp
        exact hfirst
    | succ i =>
        have hlater := hrest i p hp
        rwa [Nat.add_assoc, Nat.add_comm 1 i] at hlater

theorem killAll_found : (killAll alive sig t pids).found = false ↔ NoneAlive alive t pids := by
  induction pids generalizing t with
  | nil => exact ⟨fun _ i pid hp => absurd hp (Option.some_ne_none pid).symm, fun _ => rfl⟩
  | cons pid pids ih =>
      rw [noneAlive_cons, ← ih, killAll]
      by_cases hpid : pid ≤ 1
      · rw [if_pos hpid]
        exact ⟨fun h => ⟨fun hlt => absurd hpid (Int.not_le.mpr hlt), h⟩, fun h => h.2⟩
      · rw [if_neg hpid]
        show (alive t pid || (killAll alive sig (t + 1) pids).found) = false ↔ _
        rw [Bool.or_eq_false_iff]
        exact and_congr_left fun _ => ⟨fun h _ => h, fun h => h (Int.not_le.mp hpid)⟩

theorem killAll_allowed : ∀ k ∈ (killAll alive sig t pids).sent, 1 < k.1 := by
  induction pids generalizing t with
  | nil => exact fun k hk => absurd hk List.not_mem_nil
  | cons pid pids ih =>
      rw [killAll]
      by_cases hpid : pid ≤ 1
      · rw [if_pos hpid]
        exact ih
      · rw [if_neg hpid]
        intro k hk
        rcases List.mem_cons.mp hk with rfl | hk
        · exact Int.not_le.mp hpid
        · exact ih k hk

theorem overkillAll_allowed : ∀ k ∈ overkillAll alive t pids, 1 < k.1 := by
  induction pids generalizing t with
  | nil => exact fun k hk => absurd hk List.not_mem_nil
  | cons pid pids ih =>
      rw [overkillAll]
      by_cases hpid : pid ≤ 1
      · rw [if_pos hpid]
        exact ih
      · have hlt := Int.not_le.mp hpid
        rw [if_neg hpid]
        intro k hk
        split at hk
        · rcases List.mem_cons.mp hk with rfl | hk
          · exact hlt
          · rcases List.mem_cons.mp hk with rfl | hk
            · exact hlt
            · exact ih k hk
        · rcases List.mem_cons.mp hk with rfl | hk
          · exact hlt
          · exact ih k hk

theorem mem_overkillAll {i : Nat} {pid : Int} (hp : pids[i]? = some pid) (hpid : 1 < pid)
    (halive : alive (t + i) pid = true) : (pid, .sigKill) ∈ overkillAll alive t pids := by
  induction pids generalizing t i with
  | nil => cases hp
  | cons p pids ih =>
      rw [overkillAll]
      cases i with
      | zero =>
          obtain rfl : p = pid := Option.some.inj hp
          rw [Nat.add_zero] at halive
          rw [if_neg (Int.not_le.mpr hpid), if_pos halive]
          exact List.mem_cons_of_mem _ List.mem_cons_self
      | succ i =>
          have hrest : (pid, Signal.sigKill) ∈ overkillAll alive (t + 1) pids := by
            apply ih hp
            rwa [Nat.add_assoc, Nat.add_comm 1 i]
          split
          · exact hrest
          · split
            · exact List.mem_cons_of_mem _ (List.mem_cons_of_mem _ hrest)
            · exact List.mem_cons_of_mem _ hrest

end Loops

/-! ## The rounds -/

/-- What the rounds keep: `overkill` is what the last look at the processes has found. -/
structure Waiting.Looked (alive : Trace) (pids : List Int) (delay : Int) (s : Waiting) : Prop where
  time : pids.length ≤ s.time
  found : s.overkill = false ↔ NoneAlive alive (s.time - pids.length) pids
  left : s.delay = delay - s.rounds
  allowed : ∀ k ∈ s.sent, 1 < k.1

section Rounds

variable {alive : Trace} {pids : List Int} {delay : Int} {s t : Waiting}

theorem looked_start (alive : Trace) (pids : List Int) (delay : Int) :
    (waitStart alive pids delay).Looked alive pids delay where
  time := Nat.le_refl _
  found := by
    show (killAll alive .sigTerm 0 pids).found = false ↔ NoneAlive alive (pids.length - pids.length) pids
    rw [Nat.sub_self]
    exact killAll_found
  left := by
    show delay = delay - ((0 : Nat) : Int)
    omega
  allowed := killAll_allowed

theorem looked_round (h : s.Looked alive pids delay) : (s.round alive pids).Looked alive pids delay where
  time := by
    show pids.length ≤ s.time + 1 + pids.length
    omega
  found := by
    show (killAll alive .sigCheck (s.time + 1) pids).found = false ↔
      NoneAlive alive (s.time + 1 + pids.length - pids.length) pids
    rw [Nat.add_sub_cancel]
    exact killAll_found
  left := by
    have hleft := h.left
    show s.delay - 1 = delay - ((s.rounds + 1 : Nat) : Int)
    omega
  allowed := by
    intro k hk
    rcases List.mem_append.mp hk with hk | hk
    · exact h.allowed k hk
    · exact killAll_allowed k hk

/-- A turn that goes on is a round behind which there is time left, or more than that. -/
theorem turn_again (h : s.turn alive pids = .again t) :
    s.overkill = true ∧ t = s.round alive pids ∧ t.delay ≠ 0 := by
  unfold Waiting.turn at h
  split at h
  · rename_i hover
    dsimp only at h
    split at h
    · cases h
    · rename_i hdelay
      cases h
      exact ⟨hover, rfl, hdelay⟩
  · cases h

/-- The loop is left when all are dead, or behind a round when the time is over. -/
theorem turn_leave (h : s.turn alive pids = .leave t) :
    (s.overkill = false ∧ t = s) ∨
      (s.overkill = true ∧ t = s.round alive pids ∧ t.delay = 0) := by
  unfold Waiting.turn at h
  split at h
  · rename_i hover
    dsimp only at h
    split at h
    · rename_i hdelay
      cases h
      exact .inr ⟨hover, rfl, hdelay⟩
    · cases h
  · rename_i hover
    cases h
    exact .inl ⟨Bool.eq_false_iff.mpr hover, rfl⟩

/-- When the loop is left, all are dead or the time is exactly over. -/
theorem looked_leave (h : s.Looked alive pids delay) (hleave : s.turn alive pids = .leave t) :
    t.Looked alive pids delay ∧ (t.overkill = false ∨ 0 < t.rounds ∧ delay = t.rounds) := by
  rcases turn_leave hleave with ⟨hover, rfl⟩ | ⟨-, rfl, hdelay⟩
  · exact ⟨h, .inl hover⟩
  · have hround := looked_round h
    have hleft := hround.left
    exact ⟨hround, .inr ⟨Nat.succ_pos s.rounds, by omega⟩⟩

/-- What has been done is right when not too many rounds were waited for. -/
theorem outcome_right (h : t.Looked alive pids delay)
    (hend : t.overkill = false ∨ 0 < t.rounds ∧ delay = t.rounds)
    (hrounds : (t.rounds : Int) ≤ max delay 1) : (t.outcome alive pids).Right alive pids delay where
  allowed := by
    intro k hk
    rcases List.mem_append.mp hk with hk | hk
    · exact h.allowed k hk
    · split at hk
      · exact overkillAll_allowed k hk
      · exact absurd hk List.not_mem_nil
  rounds := hrounds
  early := by
    intro hearly
    apply h.found.mp
    rcases hend with hover | ⟨hpos, hover⟩
    · exact hover
    · have hless : (t.rounds : Int) < max delay 1 := hearly
      omega
  killed := by
    intro i pid hp hpid hlast halive
    -- without the overkill every child was dead at the last look
    have hover : t.overkill = true := by
      cases hfound : t.overkill with
      | true => rfl
      | false =>
          have hdead := h.found.mp hfound i pid hp hpid
          have hlook : alive (t.time - pids.length + i) pid = true := hlast
          rw [hdead] at hlook
          cases hlook
    show (pid, Signal.sigKill) ∈ t.sent ++ if t.overkill then overkillAll alive t.time pids else []
    rw [if_pos hover]
    exact List.mem_append_right _ (mem_overkillAll hp hpid halive)

/-- With a positive delay the loop ends in time. -/
theorem ends_of_pos (hdelay : 1 ≤ delay) :
    ∃ t, Ends (Waiting.turn alive pids) (waitStart alive pids delay) t ∧
      (t.outcome alive pids).Right alive pids delay := by
  have hstart : (waitStart alive pids delay).Looked alive pids delay ∧
      0 < (waitStart alive pids delay).delay := ⟨looked_start alive pids delay, hdelay⟩
  have hagain : ∀ s t : Waiting, s.Looked alive pids delay ∧ 0 < s.delay →
      s.turn alive pids = .again t →
      (t.Looked alive pids delay ∧ 0 < t.delay) ∧ t.delay.toNat < s.delay.toNat := by
    rintro s t ⟨hs, hpos⟩ hturn
    obtain ⟨-, rfl, hne⟩ := turn_again hturn
    have hnext : (s.round alive pids).delay = s.delay - 1 := rfl
    exact ⟨⟨looked_round hs, by omega⟩, by omega⟩
  obtain ⟨t, hends⟩ := endsIn_of_measure (fun s : Waiting => s.delay.toNat) hagain hstart
  refine ⟨t, ⟨_, hends⟩, ?_⟩
  refine @Ends.behind _ _ _ _ (fun s => s.Looked alive pids delay ∧ 0 < s.delay)
    (fun t => (t.outcome alive pids).Right alive pids delay) ?_ ?_ hstart ⟨_, hends⟩
  · exact fun s t hs hturn => (hagain s t hs hturn).1
  · rintro s t ⟨hs, hpos⟩ hturn
    obtain ⟨ht, hend⟩ := looked_leave hs hturn
    refine outcome_right ht hend ?_
    have hleft := ht.left
    have hrest : 0 ≤ t.delay := by
      rcases turn_leave hturn with ⟨-, rfl⟩ | ⟨-, -, hzero⟩
      · exact Int.le_of_lt hpos
      · exact Int.le_of_eq hzero.symm
    omega

theorem turn_dead (h : s.overkill = false) : s.turn alive pids = .leave s := by
  rw [Waiting.turn, h]
  rfl

theorem turn_alive (h : s.overkill = true) (hdelay : s.delay - 1 ≠ 0) :
    s.turn alive pids = .again (s.round alive pids) := by
  unfold Waiting.turn
  rw [if_pos h]
  exact if_neg hdelay

/-- Without a positive delay the loop ends in time when all are dead after one second. -/
theorem ends_of_dead (hdelay : delay ≤ 0)
    (hdead : NoneAlive alive 0 pids ∨ NoneAlive alive (pids.length + 1) pids) :
    ∃ t, Ends (Waiting.turn alive pids) (waitStart alive pids delay) t ∧
      (t.outcome alive pids).Right alive pids delay := by
  have hstart := looked_start alive pids delay
  cases hfound : (waitStart alive pids delay).overkill with
  | false =>
      refine ⟨_, ⟨_, endsIn_leave (turn_dead hfound)⟩, outcome_right hstart (.inl hfound) ?_⟩
      show ((0 : Nat) : Int) ≤ max delay 1
      omega
  | true =>
      have hlater : NoneAlive alive (pids.length + 1) pids := by
        refine hdead.resolve_left fun hnone => ?_
        have hover : (waitStart alive pids delay).overkill = false := killAll_found.mpr hnone
        rw [hfound] at hover
        cases hover
      have hover : ((waitStart alive pids delay).round alive pids).overkill = false :=
        killAll_found.mpr hlater
      have hleft : (waitStart alive pids delay).delay = delay := rfl
      refine ⟨_, ⟨_, (endsIn_leave (turn_dead hover)).again (turn_alive hfound (by omega))⟩,
        outcome_right (looked_round hstart) (.inl hover) ?_⟩
      show ((1 : Nat) : Int) ≤ max delay 1
      omega

/-- Without a positive delay more than one round is waited for while a process is alive. -/
theorem rounds_of_alive (hdelay : delay ≤ 0) (hfirst : ¬ NoneAlive alive 0 pids)
    (hsecond : ¬ NoneAlive alive (pids.length + 1) pids)
    (hends : Ends (Waiting.turn alive pids) (waitStart alive pids delay) t) : 2 ≤ t.rounds := by
  -- at the head of the loop a process is alive, until two rounds are over
  refine @Ends.behind _ _ _ _
    (fun s => s.delay ≤ 0 ∧
      ((s = waitStart alive pids delay ∨ s = (waitStart alive pids delay).round alive pids) ∨
        2 ≤ s.rounds)) (fun t => 2 ≤ t.rounds) ?_ ?_ ⟨hdelay, .inl (.inl rfl)⟩ hends
  · rintro s t ⟨hs, hcases⟩ hturn
    obtain ⟨-, rfl, -⟩ := turn_again hturn
    have hnext : (s.round alive pids).delay = s.delay - 1 := rfl
    refine ⟨by omega, ?_⟩
    rcases hcases with (rfl | rfl) | hrounds
    · exact .inl (.inr rfl)
    · exact .inr (Nat.le_refl 2)
    · exact .inr (Nat.le_succ_of_le hrounds)
  · rintro s t ⟨hs, hcases⟩ hturn
    rcases turn_leave hturn with ⟨hover, rfl⟩ | ⟨-, rfl, hzero⟩
    · rcases hcases with (rfl | rfl) | hrounds
      · exact absurd (killAll_found.mp hover) hfirst
      · exact absurd (killAll_found.mp hover) hsecond
      · exact hrounds
    · have hnext : (s.round alive pids).delay = s.delay - 1 := rfl
      omega

end Rounds

/-- `prc_childkill` ends, and what it has done is right, exactly when the delay is positive,
or no process of the list is alive at `SIGTERM`, or none is alive after one second. -/
theorem prcChildkill_right_iff (alive : Trace) (prclst : Option (List Int)) (delay : Int) :
    (∃ turns o, (∀ fuel, turns ≤ fuel → prcChildkill alive fuel prclst delay = some o) ∧
      o.Right alive (prclst.getD []) delay) ↔
    1 ≤ delay ∨ NoneAlive alive 0 (prclst.getD []) ∨
      NoneAlive alive ((prclst.getD []).length + 1) (prclst.getD []) := by
  cases prclst with
  | none =>
      have hnone : NoneAlive alive 0 [] := fun i pid hp => absurd hp (Option.some_ne_none pid).symm
      refine ⟨fun _ => .inr (.inl hnone), fun _ => ⟨0, ⟨0, 0, []⟩, fun _ _ => rfl, ?_⟩⟩
      have hrounds : ((0 : Nat) : Int) ≤ max delay 1 := by omega
      exact ⟨fun k hk => absurd hk List.not_mem_nil, hrounds, fun _ => hnone,
        fun i pid hp => absurd hp (Option.some_ne_none pid).symm⟩
  | some pids =>
      constructor
      · rintro ⟨turns, o, ho, hright⟩
        by_contra hnot
        obtain ⟨hdelay, hfirst, hsecond⟩ := not_or.mp hnot |>.imp_right not_or.mp
        obtain ⟨t, hloop, rfl⟩ := Option.map_eq_some_iff.mp (ho turns (Nat.le_refl turns))
        have hrounds := rounds_of_alive (by omega) hfirst hsecond ⟨_, endsIn_of_whileLoop hloop⟩
        have hmax : (t.rounds : Int) ≤ max delay 1 := hright.rounds
        omega
      · intro h
        have hends : ∃ t, Ends (Waiting.turn alive pids) (waitStart alive pids delay) t ∧
            (t.outcome alive pids).Right alive pids delay := by
          by_cases hdelay : 1 ≤ delay
          · exact ends_of_pos hdelay
          · exact ends_of_dead (by omega) (h.resolve_left hdelay)
        obtain ⟨t, ⟨turns, hloop⟩, hright⟩ := hends
        refine ⟨turns, _, fun fuel hfuel => ?_, hright⟩
        rw [prcChildkill, hloop fuel hfuel]
        rfl

/-- With a delay of zero a process that stays alive is waited for without end, and it is not
killed. -/
theorem prcChildkill_zero :
    (∀ fuel, prcChildkill (fun _ _ => true) fuel (some [2]) 0 = none) ∧
      ¬ ∃ turns o, (∀ fuel, turns ≤ fuel → prcChildkill (fun _ _ => true) fuel (some [2]) 0 = some o) ∧
        o.Right (fun _ _ => true) [2] 0 := by
  have hagain : ∀ s : Waiting, s.overkill = true ∧ s.delay ≤ 0 →
      ∃ t, s.turn (fun _ _ => true) [2] = .again t ∧ t.overkill = true ∧ t.delay ≤ 0 := by
    rintro s ⟨hover, hdelay⟩
    refine ⟨_, turn_alive hover (by omega), rfl, ?_⟩
    show s.delay - 1 ≤ 0
    omega
  have hnone : ∀ fuel, prcChildkill (fun _ _ => true) fuel (some [2]) 0 = none := by
    intro fuel
    cases hloop : whileLoop (Waiting.turn (fun _ _ => true) [2]) fuel
        (waitStart (fun _ _ => true) [2] 0) with
    | none => simp only [prcChildkill, hloop, Option.map_none]
    | some t => exact absurd ⟨fuel, endsIn_of_whileLoop hloop⟩ (not_ends hagain ⟨rfl, Int.le_refl 0⟩)
  refine ⟨hnone, ?_⟩
  rintro ⟨turns, o, ho, -⟩
  have hsome := ho turns (Nat.le_refl turns)
  rw [hnone turns] at hsome
  cases hsome

end Vzgot.Process
