import Mathlib.Tactic.IntervalCases
import Vzgot.Library.Pipe
import Vzgot.Library.Transition

/-!
# The handshake of `syspvt`

`main` (`utilities/syspvt.c`), the supervisor, opens two pipes and starts the container
process (`container_main`). The two exchange three characters: the supervisor sends `START`,
the container answers `DEV_READY` when its devices are there (`dev_now_ready`), and the
supervisor sends `PTY_DONE` when the console is mounted. Each gives up at the first call that
fails.

`read_pipe` knows the end of file (`SYNC_ERR`), but no process closes an end of a pipe
before it exits, and each holds the end for writing of the pipe that it reads: a party whose
peer has given up before sending waits for ever. This happens to nobody exactly when every
character that a party gets to wait for is sent (`handshake_right_iff`).
-/

set_option autoImplicit false

namespace Vzgot.Syspvt

open Pipe Transition

/-! ## The two processes -/

inductive Party where
  | supervisor
  | container
  deriving DecidableEq

instance : Fintype Party := ⟨{.supervisor, .container}, fun p => by cases p <;> decide⟩

/-- `CON_PIPE` and `SUP_PIPE`, named after the process that reads them. -/
inductive Channel where
  | conPipe
  | supPipe
  deriving DecidableEq

/-- `sync_start_t`, but for `SYNC_ERR`, which is never written. -/
inductive Sync where
  | start
  | devReady
  | ptyDone
  deriving DecidableEq

/-- The calls of both programs whose failure makes the process give up. -/
inductive Call where
  | openSynchro
  | doSysCgroup
  | openTarget
  | openpty
  | setNonblock
  | clone3
  | writePipe (channel : Channel) (cmd : Sync)
  | readPipe (channel : Channel) (want : Sync)
  | mountingPty
  | checkContainer
  | undoSysCgroup
  | unshareCgroup
  | doSysmount
  | makePrivate
  | bindRootfs
  | doDir
  | pivotRoot
  | chdirRoot
  | umountOldRoot
  | rmdirOldRoot
  | execve
  | init
  deriving DecidableEq

/-- The phases of `main`, and those of `container_main` with `dev_now_ready` in phase 2, but
for its phases 10 to 13, which cannot fail. Behind `execve` the container runs its `init`
until it ends. -/
def calls : Party → List Call
  | .supervisor =>
      [.openSynchro, .doSysCgroup, .openTarget, .openpty, .setNonblock, .clone3,
        .writePipe .conPipe .start, .readPipe .supPipe .devReady, .mountingPty,
        .writePipe .conPipe .ptyDone, .checkContainer, .undoSysCgroup]
  | .container =>
      [.readPipe .conPipe .start, .unshareCgroup, .doSysmount, .writePipe .supPipe .devReady,
        .readPipe .conPipe .ptyDone, .makePrivate, .bindRootfs, .doDir, .pivotRoot, .chdirRoot,
        .umountOldRoot, .rmdirOldRoot, .execve, .init]

inductive Life where
  | notStarted
  | running
  | exited
  deriving DecidableEq

/-- The two processes: how many of its calls each has behind it, the pipes, and the
characters got so far by `read_pipe`, oldest first. -/
structure State where
  life : Party → Life
  done : Party → Nat
  pipes : Pipes Party Channel Sync
  heard : List (Party × Sync)

/-- The supervisor before phase 0. -/
def start : State where
  life := fun
    | .supervisor => .running
    | .container => .notStarted
  done := fun _ => 0
  pipes := ⟨fun _ => [], fun _ => []⟩
  heard := []

/-- `synchro` behind `open_synchro`. -/
def allEnds : List (Channel × Side) :=
  [(.conPipe, .reading), (.conPipe, .writing), (.supPipe, .reading), (.supPipe, .writing)]

/-- The process exits, and the kernel closes its ends. -/
def State.exit (s : State) (p : Party) : State :=
  { s with life := Function.update s.life p .exited, pipes := s.pipes.hold p [] }

/-- On to the next phase. -/
def State.advance (s : State) (p : Party) : State :=
  { s with done := Function.update s.done p (s.done p + 1) }

/-- The container process gets a copy of every descriptor. -/
def State.fork (s : State) (p : Party) : State :=
  { s with
    life := Function.update s.life .container .running
    pipes := s.pipes.hold .container (s.pipes.ends p) }

/-- A character got from the channel. -/
def State.hear (s : State) (p : Party) (k : Channel) (a : Sync) : State :=
  { s with pipes := s.pipes.take k, heard := s.heard ++ [(p, a)] }

/-- A call that does not fail, or `none` while it waits. -/
def perform (s : State) (p : Party) : Call → Option State
  | .openSynchro => some ({ s with pipes := s.pipes.hold p allEnds }.advance p)
  | .clone3 => some ((s.fork p).advance p)
  | .writePipe k a =>
      -- without a reader left the process gets SIGPIPE
      if s.pipes.Open k .reading then some ({ s with pipes := s.pipes.put k a }.advance p)
      else some (s.exit p)
  | .readPipe k want =>
      match s.pipes.read k with
      | .blocked => none
      | .endOfFile => some (s.exit p)
      | .got a =>
          if a = want then some ((s.hear p k a).advance p) else some ((s.hear p k a).exit p)
  | .checkContainer => if s.life .container = .exited then some (s.advance p) else none
  | _ => some (s.advance p)

/-- Which of its calls fail, for each process. One that is killed fails in the call that it
is in, also in `check_container` and in its `init`. -/
abbrev Plan := Party → Nat → Bool

/-- The process goes on by one call: it gives up when the call fails, and exits behind the
last one. -/
def step (fails : Plan) (s : State) (p : Party) : Option State :=
  if s.life p = .running then
    match (calls p)[s.done p]? with
    | none => some (s.exit p)
    | some c => if fails p (s.done p) then some (s.exit p) else perform s p c
  else none

/-- The process waits in `read_pipe`. -/
def Blocked (fails : Plan) (s : State) (p : Party) : Prop :=
  s.life p = .running ∧ fails p (s.done p) = false ∧
    ∃ k a, (calls p)[s.done p]? = some (.readPipe k a) ∧ s.pipes.read k = .blocked

def peer : Party → Party
  | .supervisor => .container
  | .container => .supervisor

/-- A process waits in `read_pipe` for one that has exited. -/
def Stuck (fails : Plan) (s : State) : Prop :=
  ∃ p, Blocked fails s p ∧ s.life (peer p) = .exited

/-- The characters in the order in which they are to be got. -/
def sequence : List (Party × Sync) :=
  [(.container, .start), (.supervisor, .devReady), (.container, .ptyDone)]

/-- What the handshake is for, under one plan of failures: no order of steps leaves a process
waiting for one that has exited, and without failures every run is finite and gets exactly
the sequence. -/
structure Right (fails : Plan) : Prop where
  never_stuck : ∀ es s, run (step fails) start es = some s → ¬ Stuck fails s
  delivered : (∀ p n, fails p n = false) → ∀ es s, run (step fails) start es = some s →
    es.length ≤ (calls .supervisor).length + (calls .container).length + 2 ∧
      s.heard <+: sequence ∧ ((∀ p, step fails s p = none) → s.heard = sequence)

/-- The first calls of the process do not fail. -/
def Passes (fails : Plan) (p : Party) (n : Nat) : Prop := ∀ i < n, fails p i = false

/-- When the container is started, every character that a party gets to wait for is sent:
`START` unless the container's read fails, `DEV_READY` unless phase 6 or 7 of the supervisor
fails, and `PTY_DONE` when the container has come to wait for it. -/
structure EveryAwaitedSent (fails : Plan) : Prop where
  start : Passes fails .supervisor 6 → Passes fails .container 1 → Passes fails .supervisor 7
  devReady : Passes fails .supervisor 8 → Passes fails .container 4
  ptyDone : Passes fails .supervisor 7 → Passes fails .container 5 → Passes fails .supervisor 10

/-! ## Where the calls stand in the two programs -/

/-- The process that writes to the channel. -/
def writer : Channel → Party
  | .conPipe => .supervisor
  | .supPipe => .container

/-- The process that reads from the channel. -/
def reader : Channel → Party
  | .conPipe => .container
  | .supPipe => .supervisor

/-- What some calls write to the channel. -/
def written (k : Channel) : List Call → List Sync :=
  List.filterMap fun
    | .writePipe k' a => if k' = k then some a else none
    | _ => none

/-- What some calls read from the channel. -/
def taken (k : Channel) : List Call → List Sync :=
  List.filterMap fun
    | .readPipe k' a => if k' = k then some a else none
    | _ => none

section Places

variable {p : Party} {n : Nat} {c : Call} {k : Channel} {a : Sync}

theorem place (h : (calls p)[n]? = some c) : c ∈ calls p ∧ n = (calls p).idxOf c := by
  obtain ⟨hn, rfl⟩ := List.getElem?_eq_some_iff.1 h
  have hnodup : (calls p).Nodup := by cases p <;> decide
  exact ⟨List.getElem_mem hn, (hnodup.idxOf_getElem n hn).symm⟩

/-- A call that the container never makes. -/
theorem place_of_supervisor (h : (calls p)[n]? = some c) (hc : c ∉ calls .container) :
    p = .supervisor ∧ n = (calls .supervisor).idxOf c := by
  obtain ⟨hmem, hn⟩ := place h
  cases p with
  | supervisor => exact ⟨rfl, hn⟩
  | container => exact absurd hmem hc

theorem place_of_openSynchro (h : (calls p)[n]? = some .openSynchro) :
    p = .supervisor ∧ n = 0 := place_of_supervisor h (by decide)

theorem place_of_clone3 (h : (calls p)[n]? = some .clone3) : p = .supervisor ∧ n = 5 :=
  place_of_supervisor h (by decide)

theorem place_of_checkContainer (h : (calls p)[n]? = some .checkContainer) :
    p = .supervisor ∧ n = 10 := place_of_supervisor h (by decide)

theorem place_of_writePipe (h : (calls p)[n]? = some (.writePipe k a)) : p = writer k := by
  obtain ⟨hmem, -⟩ := place h
  cases p with
  | supervisor =>
      obtain ⟨rfl, -⟩ | ⟨rfl, -⟩ : k = .conPipe ∧ a = .start ∨ k = .conPipe ∧ a = .ptyDone := by
        simpa [calls] using hmem
      all_goals rfl
  | container =>
      obtain ⟨rfl, -⟩ : k = .supPipe ∧ a = .devReady := by simpa [calls] using hmem
      rfl

theorem place_of_readPipe (h : (calls p)[n]? = some (.readPipe k a)) :
    (p = .supervisor ∧ n = 7 ∧ k = .supPipe ∧ a = .devReady) ∨
      (p = .container ∧ k = .conPipe ∧ (n = 0 ∧ a = .start ∨ n = 4 ∧ a = .ptyDone)) := by
  obtain ⟨hmem, rfl⟩ := place h
  cases p with
  | supervisor =>
      obtain ⟨rfl, rfl⟩ : k = .supPipe ∧ a = .devReady := by simpa [calls] using hmem
      exact .inl ⟨rfl, rfl, rfl, rfl⟩
  | container =>
      obtain ⟨rfl, rfl⟩ | ⟨rfl, rfl⟩ : k = .conPipe ∧ a = .start ∨ k = .conPipe ∧ a = .ptyDone := by
        simpa [calls] using hmem
      · exact .inr ⟨rfl, rfl, .inl ⟨rfl, rfl⟩⟩
      · exact .inr ⟨rfl, rfl, .inr ⟨rfl, rfl⟩⟩

theorem take_calls (h : (calls p)[n]? = some c) :
    (calls p).take (n + 1) = (calls p).take n ++ [c] := by
  rw [List.take_add_one, h]
  rfl

theorem written_con : written .conPipe ((calls .supervisor).take n) =
    if n ≤ 6 then [] else if n ≤ 9 then [.start] else [.start, .ptyDone] := by
  by_cases hn : n < 12
  · interval_cases n <;> rfl
  · rw [List.take_of_length_le (Nat.le_of_not_lt hn), if_neg (by omega), if_neg (by omega)]
    rfl

theorem taken_con : taken .conPipe ((calls .container).take n) =
    if n = 0 then [] else if n ≤ 4 then [.start] else [.start, .ptyDone] := by
  by_cases hn : n < 14
  · interval_cases n <;> rfl
  · rw [List.take_of_length_le (Nat.le_of_not_lt hn), if_neg (by omega), if_neg (by omega)]
    rfl

theorem written_sup : written .supPipe ((calls .container).take n) =
    if n ≤ 3 then [] else [.devReady] := by
  by_cases hn : n < 14
  · interval_cases n <;> rfl
  · rw [List.take_of_length_le (Nat.le_of_not_lt hn), if_neg (by omega)]
    rfl

theorem taken_sup : taken .supPipe ((calls .supervisor).take n) =
    if n ≤ 7 then [] else [.devReady] := by
  by_cases hn : n < 12
  · interval_cases n <;> rfl
  · rw [List.take_of_length_le (Nat.le_of_not_lt hn), if_neg (by omega)]
    rfl

end Places

/-! ## What a step does -/

section Steps

variable {fails : Plan} {s t : State} {p q : Party} {c : Call}

@[simp] theorem exit_life_self : (s.exit p).life p = .exited := Function.update_self ..

theorem exit_life_of_ne (h : q ≠ p) : (s.exit p).life q = s.life q := Function.update_of_ne h ..

theorem exit_ends_of_ne (h : q ≠ p) : (s.exit p).pipes.ends q = s.pipes.ends q :=
  Function.update_of_ne h ..

/-- A call that went as it should. -/
def State.after (s : State) (p : Party) (c : Call) : State where
  life := if c = .clone3 then Function.update s.life .container .running else s.life
  done := Function.update s.done p (s.done p + 1)
  pipes :=
    match c with
    | .openSynchro => s.pipes.hold p allEnds
    | .clone3 => s.pipes.hold .container (s.pipes.ends p)
    | .writePipe k a => s.pipes.put k a
    | .readPipe k _ => s.pipes.take k
    | _ => s.pipes
  heard :=
    match c with
    | .readPipe _ a => s.heard ++ [(p, a)]
    | _ => s.heard

/-- A step either exits, with a call that failed or behind the last one, or performs a call
that does not fail. -/
theorem step_cases (h : step fails s p = some t) :
    s.life p = .running ∧
      ((s.done p < (calls p).length → fails p (s.done p) = true) ∧ t = s.exit p ∨
        ∃ c, (calls p)[s.done p]? = some c ∧ fails p (s.done p) = false ∧
          perform s p c = some t) := by
  unfold step at h
  split at h
  · next hrunning =>
      refine ⟨hrunning, ?_⟩
      split at h
      · next hnone =>
          have hover := List.getElem?_eq_none_iff.1 hnone
          cases h
          exact .inl ⟨fun hlt => absurd hlt (Nat.not_lt.2 hover), rfl⟩
      · next c hc =>
          split at h
          · next hfails =>
              cases h
              exact .inl ⟨fun _ => hfails, rfl⟩
          · next hfails => exact .inr ⟨c, hc, eq_false_of_ne_true hfails, h⟩
  · cases h

/-- A call waits at an empty pipe, or for the container to end. -/
theorem perform_waits (h : perform s p c = none) :
    (∃ k a, c = .readPipe k a ∧ s.pipes.read k = .blocked) ∨
      c = .checkContainer ∧ s.life .container ≠ .exited := by
  cases c with
  | writePipe k a =>
      simp only [perform] at h
      split at h <;> cases h
  | readPipe k want =>
      simp only [perform] at h
      split at h
      · next hread => exact .inl ⟨k, want, rfl, hread⟩
      · cases h
      · split at h <;> cases h
  | checkContainer =>
      simp only [perform] at h
      split at h
      · cases h
      · next hlife => exact .inr ⟨rfl, hlife⟩
  | _ => cases h

end Steps

/-! ## What holds in every state -/

/-- The calls that a process has behind it. -/
def State.behind (s : State) (p : Party) : List Call := (calls p).take (s.done p)

/-- What the two processes and their pipes have in every state. -/
structure Inv (fails : Plan) (s : State) : Prop where
  passed : ∀ p, Passes fails p (s.done p)
  within : ∀ p, s.done p ≤ (calls p).length
  gone : ∀ p, s.life p = .exited → s.done p < (calls p).length → fails p (s.done p) = true
  supervisor : s.life .supervisor ≠ .notStarted
  unborn : s.life .container = .notStarted ↔ s.done .supervisor ≤ 5
  untouched : s.life .container = .notStarted → s.done .container = 0
  ends : ∀ p, s.life p = .running → 0 < s.done .supervisor → s.pipes.ends p = allEnds
  traffic : ∀ k, written k (s.behind (writer k)) = taken k (s.behind (reader k)) ++ s.pipes.queue k
  attended : 10 < s.done .supervisor → s.life .container = .exited

section Invariant

variable {fails : Plan} {s t : State} {p q : Party} {c : Call} {k : Channel} {a : Sync} {n : Nat}

theorem inv_start : Inv fails start where
  passed := fun _ i hi => absurd hi (Nat.not_lt_zero i)
  within := fun _ => Nat.zero_le _
  gone := by
    intro p hp
    cases p <;> cases hp
  supervisor := by decide
  unborn := by decide
  untouched := fun _ => rfl
  ends := fun _ _ h => absurd h (Nat.lt_irrefl 0)
  traffic := fun _ => rfl
  attended := fun h => absurd h (by decide)

theorem Inv.exit (h : Inv fails s) (hrunning : s.life p = .running)
    (hgone : s.done p < (calls p).length → fails p (s.done p) = true) : Inv fails (s.exit p) where
  passed := h.passed
  within := h.within
  gone := by
    intro q hq hlt
    by_cases hqp : q = p
    · exact hqp ▸ hgone (hqp ▸ hlt)
    · exact h.gone q (exit_life_of_ne hqp ▸ hq) hlt
  supervisor := by
    by_cases hp : Party.supervisor = p
    · simp [hp]
    · rw [exit_life_of_ne hp]
      exact h.supervisor
  unborn := by
    by_cases hp : Party.container = p
    · have hborn : ¬ s.done .supervisor ≤ 5 := by
        rw [← h.unborn, hp, hrunning]
        decide
      rw [hp, exit_life_self]
      exact iff_of_false (by decide) hborn
    · rw [exit_life_of_ne hp]
      exact h.unborn
  untouched := by
    by_cases hp : Party.container = p
    · simp [hp]
    · rw [exit_life_of_ne hp]
      exact h.untouched
  ends := by
    intro q hq hpos
    by_cases hqp : q = p
    · simp [hqp] at hq
    · rw [exit_ends_of_ne hqp]
      exact h.ends q (exit_life_of_ne hqp ▸ hq) hpos
  traffic := h.traffic
  attended := by
    intro hlate
    by_cases hp : Party.container = p
    · rw [hp, exit_life_self]
    · rw [exit_life_of_ne hp]
      exact h.attended hlate

theorem Inv.opened (h : Inv fails s) (hrunning : s.life p = .running)
    (hc : (calls p)[s.done p]? = some c) (hne : c ≠ .openSynchro) : 0 < s.done .supervisor := by
  by_contra hzero
  have hdone : s.done .supervisor = 0 := Nat.eq_zero_of_not_pos hzero
  cases p with
  | supervisor =>
      rw [hdone] at hc
      exact hne (Option.some.inj hc).symm
  | container =>
      have hlife := h.unborn.2 (by omega)
      rw [hlife] at hrunning
      cases hrunning

/-- A character that is there is the one that the reader wants. -/
theorem Inv.wanted {want : Sync} {rest : List Sync} (h : Inv fails s)
    (hc : (calls p)[s.done p]? = some (.readPipe k want)) (hgot : s.pipes.queue k = a :: rest) :
    a = want := by
  have htraffic := h.traffic k
  rw [hgot] at htraffic
  simp only [State.behind] at htraffic
  obtain ⟨rfl, hdone, rfl, rfl⟩ | ⟨rfl, rfl, ⟨hdone, rfl⟩ | ⟨hdone, rfl⟩⟩ := place_of_readPipe hc
  · simp only [writer, reader, written_sup, taken_sup, hdone] at htraffic
    split at htraffic <;> simp_all
  · simp only [writer, reader, written_con, taken_con, hdone] at htraffic
    split at htraffic
    · simp at htraffic
    · split at htraffic <;> simp_all
  · simp only [writer, reader, written_con, taken_con, hdone] at htraffic
    split at htraffic
    · simp at htraffic
    · split at htraffic <;> simp_all

/-- A call that does not wait and does not fail goes as it should. -/
theorem Inv.perform (h : Inv fails s) (hrunning : s.life p = .running)
    (hc : (calls p)[s.done p]? = some c) (ht : perform s p c = some t) :
    t = s.after p c ∧ (c = .checkContainer → s.life .container = .exited) ∧
      ∀ k a, c = .readPipe k a → s.pipes.queue k = a :: (s.pipes.queue k).tail := by
  have hends : c ≠ .openSynchro → s.pipes.ends p = allEnds :=
    fun hne => h.ends p hrunning (h.opened hrunning hc hne)
  cases c with
  | writePipe k a =>
      have hopen : s.pipes.Open k .reading := by
        refine ⟨p, ?_⟩
        rw [hends (by simp)]
        cases k <;> decide
      simp only [Syspvt.perform, if_pos hopen, Option.some.injEq] at ht
      exact ⟨ht.symm, by simp, by simp⟩
  | readPipe k want =>
      have hwriting : (k, Side.writing) ∈ s.pipes.ends p := by
        rw [hends (by simp)]
        cases k <;> decide
      simp only [Syspvt.perform] at ht
      split at ht
      · cases ht
      · next hread => exact absurd hread (Pipes.read_ne_endOfFile hwriting)
      · next a hread =>
          have hgot := Pipes.read_eq_got.1 hread
          obtain rfl := h.wanted hc hgot
          simp only [if_true, Option.some.injEq] at ht
          refine ⟨ht.symm, by simp, ?_⟩
          rintro k' a' hk
          cases hk
          exact hgot
  | checkContainer =>
      simp only [Syspvt.perform] at ht
      split at ht
      · next hexited =>
          cases ht
          exact ⟨rfl, fun _ => hexited, by simp⟩
      · cases ht
  | _ =>
      cases ht
      exact ⟨rfl, by simp, by simp⟩

theorem behind_after_self (hc : (calls p)[s.done p]? = some c) :
    (s.after p c).behind p = s.behind p ++ [c] := by
  simp only [State.behind, State.after, Function.update_self]
  exact take_calls hc

theorem behind_after_of_ne (hq : q ≠ p) : (s.after p c).behind q = s.behind q := by
  simp only [State.behind, State.after, Function.update_of_ne hq]

/-- The channel behind a call: what it has read is gone, and what it has written is there. -/
theorem queue_after (hget : ∀ k a, c = .readPipe k a → s.pipes.queue k = a :: (s.pipes.queue k).tail) :
    s.pipes.queue k ++ written k [c] = taken k [c] ++ (s.after p c).pipes.queue k := by
  cases c with
  | writePipe k' a =>
      by_cases hk : k' = k
      · subst hk
        simp [State.after, written, taken]
      · simp [State.after, written, taken, hk, Function.update_of_ne (Ne.symm hk)]
  | readPipe k' a =>
      by_cases hk : k' = k
      · subst hk
        simpa [State.after, written, taken] using hget k' a rfl
      · simp [State.after, written, taken, hk, Function.update_of_ne (Ne.symm hk)]
  | _ => simp [State.after, written, taken]

theorem written_of_ne (hc : (calls p)[n]? = some c) (hp : writer k ≠ p) : written k [c] = [] := by
  cases c with
  | writePipe k' a =>
      have hk : k' ≠ k := by
        rintro rfl
        exact hp (place_of_writePipe hc).symm
      simp [written, hk]
  | _ => rfl

theorem taken_of_ne (hc : (calls p)[n]? = some c) (hp : reader k ≠ p) : taken k [c] = [] := by
  cases c with
  | readPipe k' a =>
      have hk : k' ≠ k := by
        rintro rfl
        obtain ⟨rfl, -, rfl, -⟩ | ⟨rfl, rfl, -⟩ := place_of_readPipe hc <;> exact hp rfl
      simp [taken, hk]
  | _ => rfl

theorem Inv.traffic_after (h : Inv fails s) (hc : (calls p)[s.done p]? = some c)
    (hget : ∀ k a, c = .readPipe k a → s.pipes.queue k = a :: (s.pipes.queue k).tail) (k : Channel) :
    written k ((s.after p c).behind (writer k)) =
      taken k ((s.after p c).behind (reader k)) ++ (s.after p c).pipes.queue k := by
  have hqueue := queue_after (p := p) (k := k) hget
  have htraffic := h.traffic k
  have hne : reader k ≠ writer k := by cases k <;> decide
  by_cases hw : writer k = p
  · have hr : reader k ≠ p := hw ▸ hne
    rw [taken_of_ne hc hr, List.nil_append] at hqueue
    rw [← hqueue, behind_after_of_ne hr, hw, behind_after_self hc, written, List.filterMap_append,
      ← written, ← List.append_assoc, ← htraffic, hw]
  · rw [written_of_ne hc hw, List.append_nil] at hqueue
    rw [behind_after_of_ne hw, htraffic, hqueue]
    by_cases hr : reader k = p
    · rw [hr, behind_after_self hc, taken, List.filterMap_append, ← taken, List.append_assoc]
    · rw [behind_after_of_ne hr, taken_of_ne hc hr, List.nil_append]

theorem life_after (hne : c ≠ .clone3) : (s.after p c).life = s.life := if_neg hne

theorem ends_after (hopen : c ≠ .openSynchro) (hclone : c ≠ .clone3) :
    (s.after p c).pipes.ends = s.pipes.ends := by
  cases c with
  | openSynchro => exact absurd rfl hopen
  | clone3 => exact absurd rfl hclone
  | _ => rfl

theorem done_after_self : (s.after p c).done p = s.done p + 1 := Function.update_self ..

theorem done_after_of_ne (hq : q ≠ p) : (s.after p c).done q = s.done q :=
  Function.update_of_ne hq ..

/-- Only `clone3` starts a process. -/
theorem life_after_cases (q : Party) :
    (s.after p c).life q = s.life q ∨
      c = .clone3 ∧ q = .container ∧ (s.after p c).life q = .running := by
  by_cases hc : c = .clone3
  · subst hc
    cases q with
    | supervisor => exact .inl rfl
    | container => exact .inr ⟨rfl, rfl, rfl⟩
  · exact .inl (by rw [life_after hc])

theorem Inv.after (h : Inv fails s) (hrunning : s.life p = .running)
    (hc : (calls p)[s.done p]? = some c) (hok : fails p (s.done p) = false)
    (hcheck : c = .checkContainer → s.life .container = .exited)
    (hget : ∀ k a, c = .readPipe k a → s.pipes.queue k = a :: (s.pipes.queue k).tail) :
    Inv fails (s.after p c) where
  passed := by
    intro q i hi
    by_cases hq : q = p
    · subst hq
      rw [done_after_self] at hi
      rcases Nat.lt_succ_iff_lt_or_eq.1 hi with hlt | rfl
      · exact h.passed q i hlt
      · exact hok
    · exact h.passed q i (done_after_of_ne hq ▸ hi)
  within := by
    intro q
    by_cases hq : q = p
    · subst hq
      rw [done_after_self]
      exact (List.getElem?_eq_some_iff.1 hc).1
    · rw [done_after_of_ne hq]
      exact h.within q
  gone := by
    intro q hq hlt
    -- the clone makes the container run, so it has not ended
    rcases @life_after_cases s p c q with hlife | ⟨-, -, hlife⟩
    · rw [hlife] at hq
      have hne : q ≠ p := by
        rintro rfl
        rw [hrunning] at hq
        cases hq
      rw [done_after_of_ne hne] at hlt ⊢
      exact h.gone q hq hlt
    · rw [hlife] at hq
      cases hq
  supervisor := by
    rcases @life_after_cases s p c .supervisor with hlife | ⟨-, hq, -⟩
    · exact hlife ▸ h.supervisor
    · cases hq
  unborn := by
    -- the container is unborn as long as the clone has not been done
    by_cases hclone : c = .clone3
    · subst hclone
      obtain ⟨rfl, hdone⟩ := place_of_clone3 hc
      rw [done_after_self, hdone]
      exact iff_of_false (by simp [State.after]) (by decide)
    · rw [life_after hclone, h.unborn]
      cases p with
      | supervisor =>
          have hne : s.done .supervisor ≠ 5 := by
            intro hdone
            rw [hdone] at hc
            exact hclone (Option.some.inj hc).symm
          rw [done_after_self]
          omega
      | container => exact Iff.rfl
  untouched := by
    intro hlife
    rcases @life_after_cases s p c .container with hsame | ⟨-, -, hnew⟩
    · rw [hsame] at hlife
      have hne : Party.container ≠ p := by
        rintro rfl
        rw [hrunning] at hlife
        cases hlife
      rw [done_after_of_ne hne]
      exact h.untouched hlife
    · rw [hnew] at hlife
      cases hlife
  ends := by
    intro q hq _
    -- only the opening gives ends to a process, and only the clone copies them
    by_cases hopen : c = .openSynchro
    · subst hopen
      obtain ⟨rfl, hdone⟩ := place_of_openSynchro hc
      cases q with
      | supervisor => rfl
      | container =>
          have hunborn := h.unborn.2 (by omega)
          rw [life_after (by decide), hunborn] at hq
          cases hq
    · have hends : ∀ q, s.life q = .running → s.pipes.ends q = allEnds :=
        fun q hq => h.ends q hq (h.opened hrunning hc hopen)
      by_cases hclone : c = .clone3
      · subst hclone
        obtain ⟨rfl, -⟩ := place_of_clone3 hc
        cases q <;> exact hends .supervisor hrunning
      · rw [life_after hclone] at hq
        rw [ends_after hopen hclone]
        exact hends q hq
  traffic := h.traffic_after hc hget
  attended := by
    intro hlate
    cases p with
    | container =>
        have hexited := h.attended hlate
        rw [hrunning] at hexited
        cases hexited
    | supervisor =>
        rw [done_after_self] at hlate
        have hclone : c ≠ .clone3 := by
          rintro rfl
          have hdone := (place_of_clone3 hc).2
          omega
        rw [life_after hclone]
        -- the check of the container is the call in question, or it is behind
        by_cases hdone : s.done .supervisor = 10
        · rw [hdone] at hc
          exact hcheck (Option.some.inj hc).symm
        · exact h.attended (by omega)

/-- A step of one of the processes keeps the invariant. -/
theorem Inv.step (h : Inv fails s) (ht : step fails s p = some t) : Inv fails t := by
  obtain ⟨hrunning, ⟨hgone, rfl⟩ | ⟨c, hc, hok, hperform⟩⟩ := step_cases ht
  · exact h.exit hrunning hgone
  · obtain ⟨rfl, hcheck, hget⟩ := h.perform hrunning hc hperform
    exact h.after hrunning hc hok hcheck hget

theorem inv_of_run {es : List Party} (hr : run (Syspvt.step fails) start es = some s) :
    Inv fails s :=
  run_invariant (fun _ _ _ h hs => Inv.step h hs) inv_start hr

/-- How many characters of either channel have been written, and are read or still there. -/
theorem Inv.counts (h : Inv fails s) :
    (if s.done .supervisor ≤ 6 then 0 else if s.done .supervisor ≤ 9 then 1 else 2) =
        (if s.done .container = 0 then 0 else if s.done .container ≤ 4 then 1 else 2) +
          (s.pipes.queue .conPipe).length ∧
      (if s.done .container ≤ 3 then 0 else 1) =
        (if s.done .supervisor ≤ 7 then 0 else 1) + (s.pipes.queue .supPipe).length := by
  have hcon := congrArg List.length (h.traffic .conPipe)
  have hsup := congrArg List.length (h.traffic .supPipe)
  simp only [State.behind, writer, reader, written_con, taken_con, written_sup, taken_sup,
    List.length_append, apply_ite List.length, List.length_nil, List.length_cons] at hcon hsup
  exact ⟨hcon, hsup⟩

/-- A process is behind the read of a character only when its peer is behind the write. -/
theorem Inv.order (h : Inv fails s) :
    (0 < s.done .container → 6 < s.done .supervisor) ∧
      (7 < s.done .supervisor → 3 < s.done .container) ∧
        (4 < s.done .container → 9 < s.done .supervisor) := by
  obtain ⟨hcon, hsup⟩ := h.counts
  refine ⟨?_, ?_, ?_⟩ <;> grind

/-- When a process waits, its pipe is empty. -/
theorem Inv.empty_of_blocked (h : Inv fails s) (hrunning : s.life p = .running)
    (hc : (calls p)[s.done p]? = some (.readPipe k a)) :
    s.pipes.read k = .blocked ↔ s.pipes.queue k = [] := by
  refine Pipes.read_eq_blocked (p := p) ?_
  rw [h.ends p hrunning (h.opened hrunning hc (by simp))]
  cases k <;> decide

/-- A process that has exited has failed at the call behind those that it has done. -/
theorem Inv.passes_exited (h : Inv fails s) {n : Nat} (hexited : s.life p = .exited)
    (hn : s.done p < n) (hlt : s.done p < (calls p).length) : ¬ Passes fails p n := by
  intro hpasses
  have hfails := h.gone p hexited hlt
  rw [hpasses _ hn] at hfails
  cases hfails

theorem Inv.passes (h : Inv fails s) {n : Nat} (hn : n ≤ s.done p) : Passes fails p n :=
  fun i hi => h.passed p i (Nat.lt_of_lt_of_le hi hn)

/-- The calls that a waiting process has behind it, and its read. -/
theorem Inv.passes_succ (h : Inv fails s) (hok : fails p (s.done p) = false) :
    Passes fails p (s.done p + 1) := by
  intro i hi
  rcases Nat.lt_succ_iff_lt_or_eq.1 hi with hlt | rfl
  · exact h.passed p i hlt
  · exact hok

theorem Inv.not_stuck (h : Inv fails s) (hsent : EveryAwaitedSent fails) : ¬ Stuck fails s := by
  rintro ⟨p, ⟨hrunning, hok, k, a, hc, hread⟩, hexited⟩
  have hempty := (h.empty_of_blocked hrunning hc).1 hread
  have hpasses := h.passes_succ hok
  obtain ⟨hcon, hsup⟩ := h.counts
  obtain ⟨rfl, hdone, rfl, rfl⟩ | ⟨rfl, rfl, hplace⟩ := place_of_readPipe hc
  · -- the supervisor waits for `DEV_READY`
    rw [hempty, List.length_nil] at hsup
    rw [hdone] at hpasses
    have hle : s.done .container < 4 := by grind
    have hlt : s.done .container < (calls .container).length := Nat.lt_trans hle (by decide)
    exact h.passes_exited hexited hle hlt (hsent.devReady hpasses)
  · have hborn : 6 ≤ s.done .supervisor := by
      by_contra hlt
      have hunborn := h.unborn.2 (by omega)
      rw [hunborn] at hrunning
      cases hrunning
    rw [hempty, List.length_nil] at hcon
    rcases hplace with ⟨hdone, rfl⟩ | ⟨hdone, rfl⟩ <;> rw [hdone] at hpasses
    · -- the container waits for `START`
      have hle : s.done .supervisor < 7 := by grind
      have hlt : s.done .supervisor < (calls .supervisor).length := Nat.lt_trans hle (by decide)
      exact h.passes_exited hexited hle hlt (hsent.start (h.passes hborn) hpasses)
    · -- the container waits for `PTY_DONE`
      have hle : s.done .supervisor < 10 := by grind
      have hlt : s.done .supervisor < (calls .supervisor).length := Nat.lt_trans hle (by decide)
      have hstarted : 7 ≤ s.done .supervisor := h.order.1 (by omega)
      exact h.passes_exited hexited hle hlt (hsent.ptyDone (h.passes hstarted) hpasses)

/-- A call that does not fail goes as it should unless it waits. -/
theorem Inv.step_after (h : Inv fails s) (hrunning : s.life p = .running)
    (hc : (calls p)[s.done p]? = some c) (hok : fails p (s.done p) = false)
    (hcheck : c = .checkContainer → s.life .container = .exited)
    (hget : ∀ k a, c = .readPipe k a → s.pipes.queue k ≠ []) :
    Syspvt.step fails s p = some (s.after p c) := by
  have hstep : Syspvt.step fails s p = Syspvt.perform s p c := by
    rw [Syspvt.step, if_pos hrunning, hc]
    simp [hok]
  cases hperform : Syspvt.perform s p c with
  | some t => rw [hstep, hperform, (h.perform hrunning hc hperform).1]
  | none =>
      rcases perform_waits hperform with ⟨k, a, rfl, hread⟩ | ⟨hc', hlife⟩
      · exact absurd ((h.empty_of_blocked hrunning hc).1 hread) (hget k a rfl)
      · exact absurd (hcheck hc') hlife

end Invariant

/-! ## Where the processes can get to -/

/-- A run can bring the supervisor to phase `m` and the container behind `n` of its calls,
with neither having exited. -/
structure At (fails : Plan) (m n : Nat) (s : State) : Prop where
  reached : ∃ es, run (step fails) start es = some s
  sup : s.done .supervisor = m
  con : s.done .container = n
  running : s.life .supervisor = .running
  alive : s.life .container ≠ .exited

section Schedules

variable {fails : Plan} {s t : State} {m n : Nat} {p : Party} {c : Call} {k : Channel} {a : Sync}

theorem at_start : At fails 0 0 start := ⟨⟨[], rfl⟩, rfl, rfl, rfl, by decide⟩

theorem At.inv (h : At fails m n s) : Inv fails s := by
  obtain ⟨es, hr⟩ := h.reached
  exact inv_of_run hr

/-- Behind `clone3` both processes run. -/
theorem At.runs (h : At fails m n s) (hm : 5 < m) (p : Party) : s.life p = .running := by
  cases p with
  | supervisor => exact h.running
  | container =>
      cases hlife : s.life .container with
      | notStarted =>
          have hle := h.inv.unborn.1 hlife
          rw [h.sup] at hle
          omega
      | running => rfl
      | exited => exact absurd hlife h.alive

theorem reached_step (h : ∃ es, run (step fails) start es = some s) (ht : step fails s p = some t) :
    ∃ es, run (step fails) start es = some t := by
  obtain ⟨es, hr⟩ := h
  exact ⟨es ++ [p], run_concat_eq_some.2 ⟨s, hr, ht⟩⟩

/-- A call leaves both processes alive. -/
theorem At.lives (h : At fails m n s) :
    (s.after p c).life .supervisor = .running ∧ (s.after p c).life .container ≠ .exited := by
  constructor
  · rcases @life_after_cases s p c .supervisor with hlife | ⟨-, hq, -⟩
    · rw [hlife, h.running]
    · cases hq
  · rcases @life_after_cases s p c .container with hlife | ⟨-, -, hlife⟩
    · rw [hlife]
      exact h.alive
    · rw [hlife]
      decide

/-- The supervisor goes on to its next phase. -/
theorem At.sup_step (h : At fails m n s) (hm : m < 10) (hok : fails .supervisor m = false)
    (hget : m = 7 → s.pipes.queue .supPipe ≠ []) : ∃ t, At fails (m + 1) n t := by
  obtain rfl := h.sup
  have hlt : s.done .supervisor < (calls .supervisor).length := Nat.lt_trans hm (by decide)
  obtain ⟨c, hc⟩ : ∃ c, (calls .supervisor)[s.done .supervisor]? = some c :=
    ⟨_, List.getElem?_eq_getElem hlt⟩
  have hcheck : c = .checkContainer → s.life .container = .exited := by
    rintro rfl
    have hdone := (place_of_checkContainer hc).2
    omega
  have hread : ∀ k a, c = .readPipe k a → s.pipes.queue k ≠ [] := by
    rintro k a rfl
    obtain ⟨-, hdone, rfl, -⟩ | ⟨hp, -⟩ := place_of_readPipe hc
    · exact hget hdone
    · cases hp
  have ht := h.inv.step_after h.running hc hok hcheck hread
  refine ⟨s.after .supervisor c, reached_step h.reached ht, done_after_self, ?_, h.lives.1, h.lives.2⟩
  rw [done_after_of_ne (by decide), h.con]

/-- The container goes on by a call. -/
theorem At.con_step (h : At fails m n s) (hm : 5 < m) (hn : n < 14)
    (hok : fails .container n = false) (hget : n = 0 ∨ n = 4 → s.pipes.queue .conPipe ≠ []) :
    ∃ t, At fails m (n + 1) t := by
  obtain rfl := h.con
  have hrunning := h.runs hm .container
  obtain ⟨c, hc⟩ : ∃ c, (calls .container)[s.done .container]? = some c :=
    ⟨_, List.getElem?_eq_getElem hn⟩
  have hcheck : c = .checkContainer → s.life .container = .exited := by
    rintro rfl
    cases (place_of_checkContainer hc).1
  have hread : ∀ k a, c = .readPipe k a → s.pipes.queue k ≠ [] := by
    rintro k a rfl
    obtain ⟨hp, -⟩ | ⟨-, rfl, ⟨hdone, -⟩ | ⟨hdone, -⟩⟩ := place_of_readPipe hc
    · cases hp
    · exact hget (.inl hdone)
    · exact hget (.inr hdone)
  have ht := h.inv.step_after hrunning hc hok hcheck hread
  refine ⟨s.after .container c, reached_step h.reached ht, ?_, done_after_self,
    h.lives.1, h.lives.2⟩
  rw [done_after_of_ne (by decide), h.sup]

/-- The supervisor gets to phase 7 while the container does nothing. -/
theorem at_sup (hm : m ≤ 7) (hpasses : Passes fails .supervisor m) : ∃ s, At fails m 0 s := by
  induction m with
  | zero => exact ⟨start, at_start⟩
  | succ m ih =>
      obtain ⟨s, hs⟩ := ih (by omega) fun i hi => hpasses i (by omega)
      exact hs.sup_step (by omega) (hpasses m (Nat.lt_succ_self m)) (by omega)

/-- The container then gets to its second read. -/
theorem at_con (hn : n ≤ 4) (hsup : Passes fails .supervisor 7) (hcon : Passes fails .container n) :
    ∃ s, At fails 7 n s := by
  induction n with
  | zero => exact at_sup (Nat.le_refl 7) hsup
  | succ n ih =>
      obtain ⟨s, hs⟩ := ih (by omega) fun i hi => hcon i (by omega)
      refine hs.con_step (by decide) (by omega) (hcon n (Nat.lt_succ_self n)) fun hread hempty => ?_
      obtain rfl : n = 0 := by omega
      have hcounts := hs.inv.counts.1
      simp [hs.sup, hs.con, hempty] at hcounts

/-- The supervisor then gets to phase 10. -/
theorem at_late (hm : 7 ≤ m) (hm' : m ≤ 10) (hsup : Passes fails .supervisor m)
    (hcon : Passes fails .container 4) : ∃ s, At fails m 4 s := by
  induction m, hm using Nat.le_induction with
  | base => exact at_con (Nat.le_refl 4) hsup hcon
  | succ m hm ih =>
      obtain ⟨s, hs⟩ := ih (by omega) fun i hi => hsup i (by omega)
      refine hs.sup_step (by omega) (hsup m (Nat.lt_succ_self m)) fun hread hempty => ?_
      have hcounts := hs.inv.counts.2
      simp [hs.sup, hs.con, hread, hempty] at hcounts

/-- A process at a read of an empty pipe waits for ever once its peer has failed. -/
theorem At.stuck (h : At fails m n s) (hm : 5 < m) (hok : fails p (s.done p) = false)
    (hc : (calls p)[s.done p]? = some (.readPipe k a)) (hempty : s.pipes.queue k = [])
    (hfails : fails (peer p) (s.done (peer p)) = true)
    (hlt : s.done (peer p) < (calls (peer p)).length) :
    ∃ es t, run (step fails) start es = some t ∧ Stuck fails t := by
  have hexit : step fails s (peer p) = some (s.exit (peer p)) := by
    rw [step, if_pos (h.runs hm _), List.getElem?_eq_getElem hlt]
    simp [hfails]
  obtain ⟨es, hr⟩ := reached_step h.reached hexit
  have hne : p ≠ peer p := by cases p <;> decide
  have hrunning : (s.exit (peer p)).life p = .running := by rw [exit_life_of_ne hne, h.runs hm]
  refine ⟨es, s.exit (peer p), hr, p, ⟨hrunning, hok, k, a, hc, ?_⟩, exit_life_self⟩
  exact ((inv_of_run hr).empty_of_blocked hrunning hc).2 hempty

/-- The first call that fails. -/
theorem exists_fails (h : ¬ Passes fails p n) : ∃ i < n, Passes fails p i ∧ fails p i = true := by
  induction n with
  | zero => exact absurd (fun i hi => absurd hi (Nat.not_lt_zero i)) h
  | succ n ih =>
      by_cases hn : Passes fails p n
      · refine ⟨n, Nat.lt_succ_self n, hn, ?_⟩
        by_contra hok
        refine h fun i hi => ?_
        rcases Nat.lt_succ_iff_lt_or_eq.1 hi with hlt | rfl
        · exact hn i hlt
        · exact eq_false_of_ne_true hok
      · obtain ⟨i, hi, hfirst⟩ := ih hn
        exact ⟨i, Nat.lt_succ_of_lt hi, hfirst⟩

/-- A plan under which no run is ever stuck sends every character that is waited for. -/
theorem everyAwaitedSent_of_never_stuck
    (h : ∀ es s, run (step fails) start es = some s → ¬ Stuck fails s) : EveryAwaitedSent fails where
  start := by
    intro hsup hcon
    by_contra hmiss
    obtain ⟨i, hi, hpasses, hfails⟩ := exists_fails hmiss
    obtain rfl : i = 6 := by
      by_contra hne
      rw [hsup i (by omega)] at hfails
      cases hfails
    obtain ⟨s, hs⟩ := at_sup (by decide) hpasses
    have hempty : s.pipes.queue .conPipe = [] := by
      have hcounts := hs.inv.counts.1
      simpa [hs.sup, hs.con, @eq_comm _ 0] using hcounts
    obtain ⟨es, t, hr, hstuck⟩ := hs.stuck (p := .container) (k := .conPipe) (a := .start) (by decide)
      (by rw [hs.con]; exact hcon 0 (by decide)) (by rw [hs.con]; rfl) hempty
      (by simpa only [peer, hs.sup] using hfails) (by rw [peer, hs.sup]; decide)
    exact h es t hr hstuck
  devReady := by
    intro hsup
    by_contra hmiss
    obtain ⟨i, hi, hpasses, hfails⟩ := exists_fails hmiss
    obtain ⟨s, hs⟩ := at_con (Nat.le_of_lt hi) (fun j hj => hsup j (by omega)) hpasses
    have hempty : s.pipes.queue .supPipe = [] := by
      have hcounts := hs.inv.counts.2
      rw [hs.sup, hs.con, if_pos (by omega)] at hcounts
      simpa [@eq_comm _ 0] using hcounts
    have hlt : s.done .container < (calls .container).length := by
      rw [hs.con]
      exact Nat.lt_trans hi (by decide)
    obtain ⟨es, t, hr, hstuck⟩ := hs.stuck (p := .supervisor) (k := .supPipe) (a := .devReady)
      (by decide) (by rw [hs.sup]; exact hsup 7 (by decide)) (by rw [hs.sup]; rfl) hempty
      (by simpa only [peer, hs.con] using hfails) hlt
    exact h es t hr hstuck
  ptyDone := by
    intro hsup hcon
    by_contra hmiss
    obtain ⟨i, hi, hpasses, hfails⟩ := exists_fails hmiss
    have hseven : 7 ≤ i := by
      by_contra hlt
      rw [hsup i (by omega)] at hfails
      cases hfails
    obtain ⟨s, hs⟩ := at_late hseven (Nat.le_of_lt hi) hpasses fun j hj => hcon j (by omega)
    have hempty : s.pipes.queue .conPipe = [] := by
      have hcounts := hs.inv.counts.1
      rw [hs.sup, hs.con, if_neg (by omega), if_pos (by omega)] at hcounts
      simpa using hcounts
    have hlt : s.done .supervisor < (calls .supervisor).length := by
      rw [hs.sup]
      exact Nat.lt_trans hi (by decide)
    obtain ⟨es, t, hr, hstuck⟩ := hs.stuck (p := .container) (k := .conPipe) (a := .ptyDone)
      (by omega) (by rw [hs.con]; exact hcon 4 (by decide)) (by rw [hs.con]; rfl) hempty
      (by simpa only [peer, hs.sup] using hfails) hlt
    exact h es t hr hstuck

end Schedules

/-! ## The characters that are got -/

section Heard

variable {fails : Plan} {s t : State} {p : Party} {c : Call}

/-- The characters got by processes that have so many of their calls behind them. -/
def heardAt (sup con : Nat) : List (Party × Sync) :=
  (if 0 < con then [(.container, .start)] else []) ++
    ((if 7 < sup then [(.supervisor, .devReady)] else []) ++
      (if 4 < con then [(.container, .ptyDone)] else []))

theorem heardAt_sup_succ {m n : Nat} (hm : m ≠ 7) : heardAt (m + 1) n = heardAt m n := by
  have hlt : 7 < m + 1 ↔ 7 < m := by omega
  simp only [heardAt, hlt]

theorem heardAt_con_succ {m n : Nat} (hn : n ≠ 0) (hn' : n ≠ 4) :
    heardAt m (n + 1) = heardAt m n := by
  have hfirst : 0 < n + 1 ↔ 0 < n := by omega
  have hlast : 4 < n + 1 ↔ 4 < n := by omega
  simp only [heardAt, hfirst, hlast]

theorem heard_of_read {k : Channel} {a : Sync} (h : Inv fails s)
    (ht : Inv fails (s.after p (.readPipe k a))) (hc : (calls p)[s.done p]? = some (.readPipe k a)) :
    heardAt (s.done .supervisor) (s.done .container) ++ [(p, a)] =
      heardAt ((s.after p (.readPipe k a)).done .supervisor)
        ((s.after p (.readPipe k a)).done .container) := by
  have hbefore := h.order
  have hafter := ht.order
  obtain ⟨rfl, hdone, -, rfl⟩ | ⟨rfl, -, hplace⟩ := place_of_readPipe hc
  · rw [done_after_self, done_after_of_ne (by decide), hdone] at hafter ⊢
    rw [hdone] at hbefore
    have hfirst : 0 < s.done .container := by omega
    have hlast : ¬ 4 < s.done .container := by omega
    simp [heardAt, hfirst, hlast]
  · rw [done_after_self, done_after_of_ne (by decide)] at hafter ⊢
    rcases hplace with ⟨hdone, rfl⟩ | ⟨hdone, rfl⟩ <;> rw [hdone] at hbefore hafter ⊢
    · have hnot : ¬ 7 < s.done .supervisor := by omega
      simp [heardAt, hnot]
    · have hlate : 7 < s.done .supervisor := by omega
      simp [heardAt, hlate]

theorem heard_after (h : Inv fails s) (ht : Inv fails (s.after p c))
    (hc : (calls p)[s.done p]? = some c)
    (hheard : s.heard = heardAt (s.done .supervisor) (s.done .container)) :
    (s.after p c).heard =
      heardAt ((s.after p c).done .supervisor) ((s.after p c).done .container) := by
  by_cases hread : ∃ k a, c = .readPipe k a
  · obtain ⟨k, a, rfl⟩ := hread
    rw [← heard_of_read h ht hc, ← hheard]
    rfl
  · have hsame : (s.after p c).heard = s.heard := by
      cases c with
      | readPipe k a => exact absurd ⟨k, a, rfl⟩ hread
      | _ => rfl
    -- the reads stand behind 7 calls of the supervisor, and behind 0 and 4 of the container
    have hne : ∀ n k a, (calls p)[n]? = some (.readPipe k a) → s.done p ≠ n := by
      rintro n k a hn rfl
      rw [hc] at hn
      exact hread ⟨k, a, Option.some.inj hn⟩
    rw [hsame, hheard]
    cases p with
    | supervisor =>
        rw [done_after_self, done_after_of_ne (by decide), heardAt_sup_succ (hne 7 _ _ rfl)]
    | container =>
        rw [done_after_self, done_after_of_ne (by decide),
          heardAt_con_succ (hne 0 _ _ rfl) (hne 4 _ _ rfl)]

/-- What has been got is what the two processes have read on their way. -/
theorem heard_of_run {es : List Party} (hr : run (step fails) start es = some s) :
    s.heard = heardAt (s.done .supervisor) (s.done .container) := by
  have hkeep : ∀ s p t, (Inv fails s ∧ s.heard = heardAt (s.done .supervisor) (s.done .container)) →
      step fails s p = some t →
      Inv fails t ∧ t.heard = heardAt (t.done .supervisor) (t.done .container) := by
    rintro s p t ⟨h, hheard⟩ ht
    have hinv := h.step ht
    refine ⟨hinv, ?_⟩
    obtain ⟨hrunning, ⟨-, rfl⟩ | ⟨c, hc, -, hperform⟩⟩ := step_cases ht
    · exact hheard
    · obtain ⟨rfl, -⟩ := h.perform hrunning hc hperform
      exact heard_after h hinv hc hheard
  exact (run_invariant hkeep ⟨inv_start, rfl⟩ hr).2

theorem heard_isPrefix {es : List Party} (hr : run (step fails) start es = some s) :
    s.heard <+: sequence := by
  have horder := (inv_of_run hr).order
  rw [heard_of_run hr]
  by_cases hfirst : 0 < s.done .container
  · by_cases hsecond : 7 < s.done .supervisor
    · by_cases hthird : 4 < s.done .container
      · simp [heardAt, sequence, hfirst, hsecond, hthird]
      · simp [heardAt, sequence, hfirst, hsecond, hthird]
    · have hthird : ¬ 4 < s.done .container := by omega
      simp [heardAt, sequence, hfirst, hsecond, hthird]
  · have hsecond : ¬ 7 < s.done .supervisor := by omega
    have hthird : ¬ 4 < s.done .container := by omega
    simp [heardAt, sequence, hfirst, hsecond, hthird]

/-- The calls made and the exits: one a step. -/
def State.steps (s : State) : Nat :=
  (s.done .supervisor + if s.life .supervisor = .exited then 1 else 0) +
    (s.done .container + if s.life .container = .exited then 1 else 0)

theorem steps_exit (hrunning : s.life p = .running) : (s.exit p).steps = s.steps + 1 := by
  cases p with
  | supervisor =>
      have hother : (s.exit .supervisor).life .container = s.life .container :=
        exit_life_of_ne (by decide)
      simp only [State.steps, exit_life_self, hother, hrunning]
      simp only [State.exit, reduceCtorEq, if_true, if_false]
      omega
  | container =>
      have hother : (s.exit .container).life .supervisor = s.life .supervisor :=
        exit_life_of_ne (by decide)
      simp only [State.steps, exit_life_self, hother, hrunning]
      simp only [State.exit, reduceCtorEq, if_true, if_false]
      omega

theorem exited_after (h : Inv fails s) (hc : (calls p)[s.done p]? = some c) (q : Party) :
    (s.after p c).life q = .exited ↔ s.life q = .exited := by
  rcases @life_after_cases s p c q with hlife | ⟨rfl, rfl, hlife⟩
  · rw [hlife]
  · obtain ⟨rfl, hdone⟩ := place_of_clone3 hc
    have hunborn := h.unborn.2 (Nat.le_of_eq hdone)
    rw [hlife, hunborn]
    decide

theorem steps_after (h : Inv fails s) (hc : (calls p)[s.done p]? = some c) :
    (s.after p c).steps = s.steps + 1 := by
  simp only [State.steps, exited_after h hc]
  cases p with
  | supervisor =>
      rw [done_after_self, done_after_of_ne (by decide)]
      omega
  | container =>
      rw [done_after_self, done_after_of_ne (by decide)]
      omega

/-- Every step counts, and neither process has more calls than its own and an exit. -/
theorem length_le_of_run {es : List Party} (hr : run (step fails) start es = some s) :
    es.length ≤ (calls .supervisor).length + (calls .container).length + 2 := by
  have hsteps : ∀ (es : List Party) (s t : State), Inv fails s → run (step fails) s es = some t →
      t.steps = s.steps + es.length := by
    intro es
    induction es with
    | nil =>
        intro s t _ hr
        obtain rfl := Option.some.inj hr
        rfl
    | cons p es ih =>
        intro s t h hr
        obtain ⟨m, hm, hrest⟩ := run_cons_eq_some.1 hr
        rw [ih m t (h.step hm) hrest, List.length_cons]
        obtain ⟨hrunning, ⟨-, rfl⟩ | ⟨c, hc, -, hperform⟩⟩ := step_cases hm
        · rw [steps_exit hrunning]
          omega
        · obtain ⟨rfl, -⟩ := h.perform hrunning hc hperform
          rw [steps_after h hc]
          omega
  have hinv := inv_of_run hr
  have hsup := hinv.within .supervisor
  have hcon := hinv.within .container
  have htotal : s.steps = 0 + es.length := hsteps es start s inv_start hr
  have hle : s.steps ≤ (calls .supervisor).length + (calls .container).length + 2 := by
    unfold State.steps
    split <;> split <;> omega
  omega

/-- A process that cannot go on waits in `read_pipe`, waits for the container, has exited, or
has not been started. -/
theorem waits_of_no_step (hok : fails p (s.done p) = false) (h : step fails s p = none) :
    s.life p ≠ .running ∨
      (∃ k a, (calls p)[s.done p]? = some (.readPipe k a) ∧ s.pipes.read k = .blocked) ∨
        (calls p)[s.done p]? = some .checkContainer ∧ s.life .container ≠ .exited := by
  by_cases hrunning : s.life p = .running
  · rw [step, if_pos hrunning] at h
    cases hc : (calls p)[s.done p]? with
    | none =>
        rw [hc] at h
        cases h
    | some c =>
        rw [hc] at h
        simp only [hok, Bool.false_eq_true, if_false] at h
        rcases perform_waits h with ⟨k, a, rfl, hread⟩ | ⟨rfl, hlife⟩
        · exact .inr (.inl ⟨k, a, rfl, hread⟩)
        · exact .inr (.inr ⟨rfl, hlife⟩)
  · exact .inl hrunning

/-- The container only waits while it is the turn of the supervisor. -/
theorem Inv.con_turn (h : Inv fails s) (hok : ∀ p n, fails p n = false)
    (hwaits : Syspvt.step fails s .container = none) :
    s.done .supervisor ≤ 9 ∧ s.done .container ≤ 4 ∧
        (s.done .container = 4 ∨ s.done .supervisor ≤ 6) ∨ s.life .container = .exited := by
  by_cases hrunning : s.life .container = .running
  · rcases waits_of_no_step (hok _ _) hwaits with hlife | ⟨k, a, hc, hread⟩ | ⟨hc, -⟩
    · exact absurd hrunning hlife
    · have hempty := (h.empty_of_blocked hrunning hc).1 hread
      obtain ⟨hp, -⟩ | ⟨-, rfl, hplace⟩ := place_of_readPipe hc
      · cases hp
      · have hcon := h.counts.1
        rw [hempty, List.length_nil] at hcon
        rcases hplace with ⟨hdone, -⟩ | ⟨hdone, -⟩ <;> rw [hdone] at hcon ⊢ <;> left <;> grind
    · cases (place_of_checkContainer hc).1
  · cases hlife : s.life .container with
    | notStarted =>
        have hle := h.unborn.1 hlife
        rw [h.untouched hlife]
        exact .inl ⟨by omega, by omega, .inr (by omega)⟩
    | running => exact absurd hlife hrunning
    | exited => exact .inr rfl

theorem Inv.done_of_exited (h : Inv fails s) (hok : ∀ p n, fails p n = false)
    (hexited : s.life p = .exited) : s.done p = (calls p).length := by
  refine Nat.le_antisymm (h.within p) (Nat.le_of_not_lt fun hlt => ?_)
  have hfails := h.gone p hexited hlt
  rw [hok] at hfails
  cases hfails

/-- Without failures, both processes are through when neither can go on. -/
theorem Inv.through (h : Inv fails s) (hok : ∀ p n, fails p n = false)
    (hwaits : ∀ p, Syspvt.step fails s p = none) :
    s.done .supervisor = 12 ∧ s.done .container = 14 := by
  have hturn := h.con_turn hok (hwaits .container)
  have hdone : s.life .container = .exited → s.done .container = 14 := h.done_of_exited hok
  by_cases hrunning : s.life .supervisor = .running
  · rcases waits_of_no_step (hok _ _) (hwaits .supervisor) with hlife | ⟨k, a, hc, hread⟩ | ⟨hc, hlife⟩
    · exact absurd hrunning hlife
    · have hempty := (h.empty_of_blocked hrunning hc).1 hread
      obtain ⟨-, hseven, rfl, -⟩ | ⟨hp, -⟩ := place_of_readPipe hc
      · have hsup := h.counts.2
        rw [hempty, List.length_nil, hseven] at hsup
        grind
      · cases hp
    · have hten := (place_of_checkContainer hc).2
      rcases hturn with hturn | hexited
      · omega
      · exact absurd hexited hlife
  · have hexited : s.life .supervisor = .exited := by
      cases hlife : s.life .supervisor with
      | notStarted => exact absurd hlife h.supervisor
      | running => exact absurd hlife hrunning
      | exited => rfl
    have htwelve : s.done .supervisor = 12 := h.done_of_exited hok hexited
    exact ⟨htwelve, hdone (h.attended (by omega))⟩

end Heard

/-- Under a plan of failures, no order of steps leaves a process waiting in `read_pipe` for
one that has exited exactly when every character that a party gets to wait for is sent.
Without failures, every run is finite and gets `START`, `DEV_READY` and `PTY_DONE` in this
order. -/
theorem handshake_right_iff (fails : Plan) : Right fails ↔ EveryAwaitedSent fails := by
  constructor
  · exact fun h => everyAwaitedSent_of_never_stuck h.never_stuck
  · intro hsent
    refine ⟨fun es s hr => (inv_of_run hr).not_stuck hsent, fun hok es s hr => ?_⟩
    refine ⟨length_le_of_run hr, heard_isPrefix hr, fun hwaits => ?_⟩
    obtain ⟨hsup, hcon⟩ := (inv_of_run hr).through hok hwaits
    rw [heard_of_run hr, hsup, hcon]
    rfl

/-- The container cannot unshare its cgroup. -/
def unshareFails : Plan := fun p n => decide (p = .container ∧ n = 1)

/-- The supervisor waits for `DEV_READY` when the container gives up. -/
theorem handshake_stuck :
    ∃ es s, run (step unshareFails) start es = some s ∧ Stuck unshareFails s ∧
      ¬ Right unshareFails := by
  let es : List Party := List.replicate 7 .supervisor ++ List.replicate 2 .container
  have hstuck : ∃ s, run (step unshareFails) start es = some s ∧ Stuck unshareFails s :=
    ⟨_, rfl, .supervisor, ⟨rfl, rfl, .supPipe, .devReady, rfl, rfl⟩, rfl⟩
  obtain ⟨s, hr, hstuck⟩ := hstuck
  exact ⟨es, s, hr, hstuck, fun h => h.never_stuck es s hr hstuck⟩

end Vzgot.Syspvt
