import Mathlib.Data.Set.Operations
import Vzgot.Command.Target

/-!
# Commands reach the named container

`Reached` says that the commands have touched processes of their own container only.
`first.pid` is believed whatever has become of its number: a process of anyone else that
is given the number is entered and killed. `Given` is the condition on the events: such a
number is not given away. The invariant `Sound` says that the numbers in the files and
those in the hands of the commands are then free or the container's, as long as no two of
the containers have one directory.
-/

set_option autoImplicit false

namespace Vzgot.Command

open Transition

/-- The commands have touched processes of their own container only. -/
def Reached (w : World) : Prop := ∀ h ∈ w.hits, h.owner = some h.cont

/-- A process of `owner` may be given the number: a file that has it is the one of the owner's
directory, and a command that has it is called for the owner. -/
structure World.Spares (l : Layout) (w : World) (owner : Option (List Char)) (pid : Nat) : Prop where
  file : ∀ dir, cntGetContPid (w.pidFile dir) = pid →
    ∃ name, owner = some name ∧ l.sysGetContPath name = dir
  held : ∀ id c, w.calls id = some c → (pid : Int) ∈ c.body.targets → owner = some c.name

/-- Only the containers `names` are booted and named by commands; no process is given a number
that the file or a command of another container has; and the bytes that reach `first.pid` are
those of the number or of none. -/
def Given (l : Layout) (names : Set (List Char)) (w : World) : Event → Prop
  | .supervise _ name | .vzexec _ name | .contShutdown _ name => name ∈ names
  | .clone id pid => ∀ sup, w.sups id = some sup → w.Spares l (some sup.name) pid
  | .fork parent pid => ∀ proc, w.procs parent = some proc → w.Spares l proc.owner pid
  | .record id kept => ∀ sup pid, w.sups id = some sup → sup.child = some pid →
      cntGetContPid (some ((cntSetContPid pid).take kept)) = 0 ∨
        cntGetContPid (some ((cntSetContPid pid).take kept)) = pid
  | _ => True

/-- A process with this number, if there is one, belongs to the container. -/
def World.Owns (w : World) (cont : List Char) (pid : Int) : Prop :=
  0 < pid ∧ ∀ proc, w.procs pid.toNat = some proc → proc.owner = some cont

/-- A process of the container is alive. -/
def World.Alive (w : World) (cont : List Char) : Prop :=
  ∃ pid proc, w.procs pid = some proc ∧ proc.live = true ∧ proc.owner = some cont

/-- The child of a supervisor has not been reaped. -/
def World.Child (w : World) (id : Nat) (sup : Sup) (pid : Nat) : Prop :=
  0 < pid ∧ ∃ proc, w.procs pid = some proc ∧ proc.owner = some sup.name ∧ proc.parent = some id

/-- The numbers in the files and in the hands of the commands are free or the
container's. -/
structure Sound (l : Layout) (names : Set (List Char)) (w : World) : Prop where
  file : ∀ name ∈ names, cntGetContPid (w.pidFile (l.sysGetContPath name)) = 0 ∨
    w.Owns name (cntGetContPid (w.pidFile (l.sysGetContPath name)))
  held : ∀ id c, w.calls id = some c → c.name ∈ names ∧ ∀ p ∈ c.body.targets, w.Owns c.name p
  child : ∀ id sup, w.sups id = some sup →
    sup.name ∈ names ∧ ∀ pid, sup.child = some pid → w.Child id sup pid
  owner : ∀ pid proc, w.procs pid = some proc → ∀ name ∈ proc.owner, name ∈ names
  hits : Reached w

section Steps

variable {l : Layout} {names : Set (List Char)} {w v : World} {cont : List Char}

theorem sound_init (l : Layout) (names : Set (List Char)) : Sound l names .init where
  file := fun _ _ => .inl rfl
  held := fun _ _ h => nomatch h
  child := fun _ _ h => nomatch h
  owner := by
    intro pid proc hproc name hname
    simp only [World.init, Function.update_apply] at hproc
    split at hproc
    · rw [← Option.some.inj hproc] at hname
      cases hname
    · cases hproc
  hits := fun _ h => nomatch h

/-! ### The process table -/

/-- A process is added or replaced by one of the container that has its number. -/
theorem Sound.start (hw : Sound l names w) {pid : Nat} {proc : Proc}
    (hfile : ∀ name ∈ names, 0 < pid →
      cntGetContPid (w.pidFile (l.sysGetContPath name)) = pid → proc.owner = some name)
    (hheld : ∀ id c, w.calls id = some c → (pid : Int) ∈ c.body.targets → proc.owner = some c.name)
    (hchild : ∀ id sup, w.sups id = some sup → sup.child = some pid →
      proc.owner = some sup.name ∧ proc.parent = some id)
    (howner : ∀ name ∈ proc.owner, name ∈ names) :
    Sound l names (w.start pid proc) := by
  have howns : ∀ name p, (0 < pid → p = (pid : Int) → proc.owner = some name) → w.Owns name p →
      (w.start pid proc).Owns name p := by
    intro name p hp h
    refine ⟨h.1, fun q hq => ?_⟩
    simp only [World.start, Function.update_apply] at hq
    split at hq
    · rename_i heq
      have hpos := h.1
      rw [← Option.some.inj hq]
      exact hp (by omega) (by omega)
    · exact h.2 q hq
  constructor
  · -- the files
    intro name hname
    exact (hw.file name hname).imp_right (howns name _ (hfile name hname))
  · -- the commands
    intro id c hc
    refine ⟨(hw.held id c hc).1, fun p hp => ?_⟩
    exact howns _ p (fun _ heq => hheld id c hc (heq ▸ hp)) ((hw.held id c hc).2 p hp)
  · -- the children: one that is replaced keeps its owner and its supervisor
    intro id sup hsup
    refine ⟨(hw.child id sup hsup).1, fun p hp => ?_⟩
    obtain ⟨hpos, old, hold, hkept, hparent⟩ := (hw.child id sup hsup).2 p hp
    refine ⟨hpos, ?_⟩
    by_cases heq : p = pid
    · subst heq
      exact ⟨proc, by simp [World.start], hchild id sup hsup hp⟩
    · exact ⟨old, by simp [World.start, heq, hold], hkept, hparent⟩
  · -- the owners
    intro p q hq
    simp only [World.start, Function.update_apply] at hq
    split at hq
    · rw [← Option.some.inj hq]
      exact howner
    · exact hw.owner p q hq
  · exact hw.hits

/-- A number that is spared is given to a process of the owner. -/
theorem Sound.start_spared (hdirs : Set.InjOn l.sysGetContPath names) (hw : Sound l names w)
    {pid : Nat} {proc : Proc} (hfree : w.free pid = true)
    (howner : ∀ name ∈ proc.owner, name ∈ names) (hspare : w.Spares l proc.owner pid) :
    Sound l names (w.start pid proc) := by
  refine hw.start (fun name hname _ hread => ?_) hspare.held (fun id sup hsup hp => ?_) howner
  · -- the file of the owner's directory is that of no other container
    obtain ⟨other, hother, hdir⟩ := hspare.file _ hread
    rw [hother, hdirs (howner other hother) hname hdir]
  · obtain ⟨-, old, hold, -⟩ := (hw.child id sup hsup).2 pid hp
    simp [World.free, hold] at hfree

/-- A process that no supervisor waits for is removed. -/
theorem Sound.drop (hw : Sound l names w) {pid : Nat}
    (hchild : ∀ id sup, w.sups id = some sup → sup.child ≠ some pid) :
    Sound l names { w with procs := Function.update w.procs pid none } := by
  have hkept : ∀ {p q}, Function.update w.procs pid none p = some q → w.procs p = some q := by
    intro p q hq
    simp only [Function.update_apply] at hq
    split at hq
    · cases hq
    · exact hq
  have howns : ∀ name p, w.Owns name p →
      World.Owns { w with procs := Function.update w.procs pid none } name p :=
    fun name p h => ⟨h.1, fun q hq => h.2 q (hkept hq)⟩
  constructor
  · exact fun name hname => (hw.file name hname).imp_right (howns name _)
  · intro id c hc
    exact ⟨(hw.held id c hc).1, fun p hp => howns _ p ((hw.held id c hc).2 p hp)⟩
  · intro id sup hsup
    refine ⟨(hw.child id sup hsup).1, fun p hp => ?_⟩
    obtain ⟨hpos, old, hold, hrest⟩ := (hw.child id sup hsup).2 p hp
    have hne : p ≠ pid := by
      rintro rfl
      exact hchild id sup hsup hp
    exact ⟨hpos, old, by simp [hne, hold], hrest⟩
  · exact fun p q hq => hw.owner p q (hkept hq)
  · exact hw.hits

theorem Sound.setSup (hw : Sound l names w) {id : Nat} {new : Option Sup}
    (hnew : ∀ sup, new = some sup →
      sup.name ∈ names ∧ ∀ pid, sup.child = some pid → w.Child id sup pid) :
    Sound l names (w.setSup id new) := by
  refine ⟨hw.file, hw.held, fun k sup hsup => ?_, hw.owner, hw.hits⟩
  simp only [World.setSup, Function.update_apply] at hsup
  split at hsup
  · rename_i heq
    exact heq ▸ hnew sup hsup
  · exact hw.child k sup hsup

theorem Sound.reap (hw : Sound l names w) {pid : Nat} {proc : Proc}
    (hproc : w.procs pid = some proc) : Sound l names (w.reap pid proc) := by
  have hparent : ∀ id sup, w.sups id = some sup → sup.child = some pid → proc.parent = some id := by
    intro id sup hsup hp
    obtain ⟨-, old, hold, -, h⟩ := (hw.child id sup hsup).2 pid hp
    rw [hproc] at hold
    exact Option.some.inj hold ▸ h
  unfold World.reap
  split
  · rename_i hnone
    apply hw.drop
    intro id sup hsup hp
    rw [hparent id sup hsup hp] at hnone
    cases hnone
  · rename_i id hid
    have hsame : ∀ k sup, w.sups k = some sup → sup.child = some pid → k = id := by
      intro k sup hsup hp
      exact Option.some.inj ((hparent k sup hsup hp).symm.trans hid)
    dsimp only
    split
    · rename_i sup hsup
      split
      · -- the supervisor no longer waits for it
        have hcleared : Sound l names (w.setSup id (some { sup with child := none })) := by
          apply hw.setSup
          intro s hs
          rw [← Option.some.inj hs]
          exact ⟨(hw.child id sup hsup).1, fun _ hp => nomatch hp⟩
        apply hcleared.drop
        intro k s hs hp
        simp only [World.setSup, Function.update_apply] at hs
        split at hs
        · rw [← Option.some.inj hs] at hp
          cases hp
        · rename_i hne
          exact hne (hsame k s hs hp)
      · rename_i hne
        apply hw.drop
        intro k s hs hp
        have hk := hsame k s hs hp
        subst hk
        rw [hs] at hsup
        exact hne (Option.some.inj hsup ▸ hp)
    · rename_i hnone
      apply hw.drop
      intro k s hs hp
      rw [hsame k s hs hp] at hs
      exact absurd (hs.symm.trans hnone) (by simp)

/-! ### The files and the commands -/

theorem Sound.setFile (hdirs : Set.InjOn l.sysGetContPath names) (hw : Sound l names w)
    (hcont : cont ∈ names) {bytes : Option (List Char)}
    (hnew : cntGetContPid bytes = 0 ∨ w.Owns cont (cntGetContPid bytes)) :
    Sound l names (w.setFile (l.sysGetContPath cont) bytes) := by
  refine ⟨fun name hname => ?_, hw.held, hw.child, hw.owner, hw.hits⟩
  simp only [World.setFile, Function.update_apply]
  split
  · rename_i heq
    exact hdirs hname hcont heq ▸ hnew
  · exact hw.file name hname

theorem Sound.setCall (hw : Sound l names w) {id : Nat} {c : Call} (hname : c.name ∈ names)
    (hnew : ∀ p ∈ c.body.targets, w.Owns c.name p) :
    Sound l names { w with calls := Function.update w.calls id (some c) } := by
  refine ⟨hw.file, fun k d hd => ?_, hw.child, hw.owner, hw.hits⟩
  simp only [Function.update_apply] at hd
  split at hd
  · rw [← Option.some.inj hd]
    exact ⟨hname, hnew⟩
  · exact hw.held k d hd

/-- What is done to a number that the container owns is done to a live process of it, or
to none. -/
theorem World.hit_eq {pid : Int} (howns : w.Owns cont pid) :
    w.hit cont pid = w ∨
      (w.hit cont pid = { w with hits := ⟨cont, some cont⟩ :: w.hits } ∧ w.Alive cont) := by
  obtain ⟨hpos, howner⟩ := howns
  unfold World.hit
  rw [if_neg (by omega)]
  split
  · rename_i proc hproc
    split
    · rename_i hlive
      exact .inr ⟨by rw [howner proc hproc], pid.toNat, proc, hproc, hlive, howner proc hproc⟩
    · exact .inl rfl
  · exact .inl rfl

/-- What a turn leaves alone, and the condition on what it does to processes. -/
structure Does (w v : World) (cont : List Char) : Prop where
  procs : v.procs = w.procs
  hits : v.hits = w.hits ∨ w.Alive cont

theorem Sound.does (hdirs : Set.InjOn l.sysGetContPath names) (hw : Sound l names w)
    (hcont : cont ∈ names) {op : Op} (howns : ∀ p, op.target = some p → w.Owns cont p)
    (h : w.does l cont op = some v) : Sound l names v ∧ Does w v cont := by
  have hhit : ∀ pid, w.Owns cont pid →
      Sound l names (w.hit cont pid) ∧ Does w (w.hit cont pid) cont := by
    intro pid hpid
    rcases World.hit_eq hpid with heq | ⟨heq, halive⟩
    · rw [heq]
      exact ⟨hw, rfl, .inl rfl⟩
    · rw [heq]
      refine ⟨⟨hw.file, hw.held, hw.child, hw.owner, fun hit hmem => ?_⟩, rfl, .inr halive⟩
      rcases List.mem_cons.1 hmem with rfl | hold
      · rfl
      · exact hw.hits hit hold
  cases op with
  | inject pid =>
      obtain rfl : w.hit cont pid = v := Option.some.inj h
      exact hhit pid (howns pid rfl)
  | kill pid =>
      obtain rfl : w.hit cont pid = v := Option.some.inj h
      exact hhit pid (howns pid rfl)
  | removePid ok =>
      simp only [World.does] at h
      split at h
      · split at h
        · rw [← Option.some.inj h]
          exact ⟨hw.setFile hdirs hcont (.inl rfl), rfl, .inl rfl⟩
        · cases h
      · rw [← Option.some.inj h]
        exact ⟨hw, rfl, .inl rfl⟩

theorem Sound.does_all (hdirs : Set.InjOn l.sysGetContPath names) (hcont : cont ∈ names)
    {ops : List Op} : ∀ {w : World}, Sound l names w →
    (∀ op ∈ ops, ∀ p, op.target = some p → w.Owns cont p) →
    ops.foldlM (World.does l cont) w = some v → Sound l names v ∧ Does w v cont := by
  induction ops with
  | nil =>
      intro w hw _ h
      rw [← Option.some.inj h]
      exact ⟨hw, rfl, .inl rfl⟩
  | cons op ops ih =>
      intro w hw howns h
      rw [List.foldlM_cons] at h
      obtain ⟨m, hm, hrest⟩ := Option.bind_eq_some_iff.1 h
      obtain ⟨hsound, hprocs, hhits⟩ := hw.does hdirs hcont (howns op (List.mem_cons_self ..)) hm
      have howns' : ∀ op ∈ ops, ∀ p, op.target = some p → m.Owns cont p := by
        intro o ho p hp
        have := howns o (List.mem_cons_of_mem _ ho) p hp
        exact ⟨this.1, by rw [hprocs]; exact this.2⟩
      obtain ⟨hv, hprocs', hhits'⟩ := ih hsound howns' hrest
      refine ⟨hv, hprocs'.trans hprocs, ?_⟩
      rcases hhits' with heq | halive
      · exact hhits.imp_left heq.trans
      · exact .inr (by rw [World.Alive, hprocs] at halive; exact halive)

/-- A turn of a command. -/
theorem Sound.turn (hdirs : Set.InjOn l.sysGetContPath names) (hw : Sound l names w) {id : Nat}
    {a : Answer} {c : Call} (hc : w.calls id = some c) (h : w.turn l id a = some v) :
    Sound l names v ∧ Does w v c.name := by
  unfold World.turn at h
  rw [hc, Option.bind_some] at h
  split at h
  case isFalse => cases h
  rename_i hanswer
  obtain ⟨⟨d, ops⟩, hd, hops⟩ := Option.bind_eq_some_iff.1 h
  -- the command acts on what it had, and what it has now it had or has read
  obtain ⟨hname, hact, hnew⟩ := Call.step_targets hd
  obtain ⟨hcont, hheld⟩ := hw.held id c hc
  have hcalls : Sound l names { w with calls := Function.update w.calls id (some d) } := by
    apply hw.setCall (hname ▸ hcont)
    intro p hp
    rw [hname]
    rcases hnew p hp with hold | ⟨rfl, hne⟩
    · exact hheld p hold
    · -- the number has just been read
      have hread : p = cntGetContPid (w.pidFile (l.sysGetContPath c.name)) := by
        simpa [World.answers, hne] using hanswer
      rw [hread] at hne ⊢
      exact (hw.file _ hcont).resolve_left hne
  obtain ⟨hv, hprocs, hhits⟩ :=
    hcalls.does_all hdirs hcont (fun op hop p hp => hheld p (hact op hop p hp)) hops
  exact ⟨hv, hprocs, hhits⟩

/-- One step: what every event does that is `Given`. -/
theorem Sound.step (hdirs : Set.InjOn l.sysGetContPath names) (hw : Sound l names w) {e : Event}
    (hg : Given l names w e) (h : w.step l e = some v) : Sound l names v := by
  have hcall : ∀ id c, c.name ∈ names → c.body.targets = [] → w.call id c = some v →
      Sound l names v := by
    intro id c hname hnone hcall
    unfold World.call at hcall
    split at hcall
    · rw [← Option.some.inj hcall]
      exact hw.setCall hname fun p hp => by simp [hnone] at hp
    · cases hcall
  cases e with
  | supervise id name =>
      simp only [World.step] at h
      split at h
      · rw [← Option.some.inj h]
        apply hw.setSup
        intro sup hsup
        rw [← Option.some.inj hsup]
        exact ⟨hg, fun _ hp => nomatch hp⟩
      · cases h
  | clone id pid =>
      obtain ⟨sup, hsup, h⟩ := Option.bind_eq_some_iff.1 h
      split at h
      case isFalse => cases h
      rename_i hfree
      rw [← Option.some.inj h]
      obtain ⟨hname, -⟩ := hw.child id sup hsup
      have hstart : Sound l names (w.start pid ⟨some sup.name, some id, true⟩) :=
        hw.start_spared hdirs hfree (fun _ hmem => Option.some.inj hmem ▸ hname) (hg sup hsup)
      apply hstart.setSup
      intro s hs
      obtain rfl := Option.some.inj hs
      refine ⟨hname, fun p hp => ?_⟩
      obtain rfl := Option.some.inj hp
      have hpos : 0 < pid := by simp [World.free] at hfree; exact hfree.1
      exact ⟨hpos, ⟨some sup.name, some id, true⟩, by simp [World.start], rfl, rfl⟩
  | record id kept =>
      obtain ⟨sup, hsup, h⟩ := Option.bind_eq_some_iff.1 h
      obtain ⟨pid, hpid, rfl⟩ := Option.map_eq_some_iff.1 h
      -- the child has not been reaped, so its number is still its own
      obtain ⟨hname, hchild⟩ := hw.child id sup hsup
      obtain ⟨hpos, proc, hproc, howner, -⟩ := hchild pid hpid
      refine hw.setFile hdirs hname ((hg sup pid hsup hpid).imp_right fun hread => ?_)
      rw [hread]
      refine ⟨by omega, fun q hq => ?_⟩
      rw [Int.toNat_natCast, hproc] at hq
      exact Option.some.inj hq ▸ howner
  | unlink id =>
      obtain ⟨sup, hsup, rfl⟩ := Option.map_eq_some_iff.1 h
      exact hw.setFile hdirs (hw.child id sup hsup).1 (.inl rfl)
  | gone id =>
      rw [← Option.some.inj h]
      exact hw.setSup fun _ hnone => nomatch hnone
  | fork parent pid =>
      obtain ⟨proc, hproc, h⟩ := Option.bind_eq_some_iff.1 h
      split at h
      case isFalse => cases h
      rename_i hcan
      rw [← Option.some.inj h]
      exact hw.start_spared hdirs hcan.2 (hw.owner parent proc hproc) (hg proc hproc)
  | ends pid =>
      obtain ⟨proc, hproc, rfl⟩ := Option.map_eq_some_iff.1 h
      have hsame : ∀ {name p}, w.Owns name p → p = (pid : Int) → proc.owner = some name := by
        rintro name p howns rfl
        exact howns.2 proc hproc
      refine hw.start (fun name hname hpos hread => ?_) (fun id c hc hmem => ?_)
        (fun id sup hsup hp => ?_) (hw.owner pid proc hproc)
      · exact hsame ((hw.file name hname).resolve_left (by omega)) hread
      · exact hsame ((hw.held id c hc).2 pid hmem) rfl
      · obtain ⟨-, old, hold, howner, hparent⟩ := (hw.child id sup hsup).2 pid hp
        rw [hproc] at hold
        exact Option.some.inj hold ▸ ⟨howner, hparent⟩
  | reap pid =>
      obtain ⟨proc, hproc, h⟩ := Option.bind_eq_some_iff.1 h
      split at h
      · cases h
      · rw [← Option.some.inj h]
        exact hw.reap hproc
  | vzexec id name => exact hcall id ⟨name, .exec execInit⟩ hg rfl h
  | contShutdown id name => exact hcall id ⟨name, .shutdown shutdownInit⟩ hg rfl h
  | turn id a =>
      obtain ⟨c, hc, -⟩ := Option.bind_eq_some_iff.1 h
      exact (hw.turn hdirs hc h).1

/-! ### Runs -/

/-- A line written whole is that of the number. -/
theorem given_record {id kept : Nat} (h : ∀ sup pid, w.sups id = some sup → sup.child = some pid →
    pid ≤ pidMax ∧ (cntSetContPid pid).length ≤ kept) : Given l names w (.record id kept) := by
  intro sup pid hsup hpid
  obtain ⟨hmax, hkept⟩ := h sup pid hsup hpid
  exact .inr (by rw [List.take_of_length_le hkept, cntGetContPid_cntSetContPid hmax])

/-- A number that no file and no command has. -/
theorem spares_of_unused {owner : Option (List Char)} {pid : Nat}
    (hfile : ∀ dir, cntGetContPid (w.pidFile dir) ≠ pid) (hcalls : ∀ id, w.calls id = none) :
    w.Spares l owner pid where
  file := fun dir hread => absurd hread (hfile dir)
  held := fun id c hc => by rw [hcalls id] at hc; cases hc

/-- Turns of commands, ends of processes and supervisors give nothing away. -/
def Event.quiet : Event → Bool
  | .unlink _ | .gone _ | .ends _ | .reap _ | .turn _ _ => true
  | _ => false

theorem meets_of_quiet {es : List Event} (h : ∀ e ∈ es, e.quiet = true) :
    Meets (World.step l) (Given l names) w es := by
  apply meets_of_forall
  intro pre e post m heq _
  have hquiet := h e (by simp [heq])
  cases e with
  | supervise _ _ | clone _ _ | record _ _ | fork _ _ | vzexec _ _ | contShutdown _ _ => cases hquiet
  | unlink _ | gone _ | ends _ | reap _ | turn _ _ => trivial

/-- In a history of `Given` events over containers with directories of their own, the commands
reach processes of their own container only, and nothing is done to any process for a container
that has none alive. -/
theorem commands_reach_container {es : List Event} (hdirs : Set.InjOn l.sysGetContPath names)
    (hm : Meets (World.step l) (Given l names) .init es) :
    Always (World.step l) Reached .init es ∧
      ∀ pre post id a c w v, es = pre ++ .turn id a :: post →
        run (World.step l) .init pre = some w → w.step l (.turn id a) = some v →
        w.calls id = some c → ¬ w.Alive c.name → v.hits = w.hits := by
  have hkeep : ∀ s e t, Sound l names s → Given l names s e → s.step l e = some t →
      Sound l names t :=
    fun _ _ _ hs hg ht => hs.step hdirs hg ht
  refine ⟨always_of_meets (fun _ hs => hs.hits) hkeep (sound_init l names) hm, ?_⟩
  rintro pre post id a c w v rfl hw hv hc halive
  have hsound := meets_invariant hkeep (sound_init l names) ((meets_append hw).1 hm).1 hw
  exact (hsound.turn hdirs hc hv).2.hits.resolve_right halive

end Steps

/-- Containers below one directory. -/
def plainLayout : Layout := ⟨"/vzgot".toList, fun _ => none⟩

/-- Turns of `vzexec` that run the command. -/
def execTurns (id : Nat) : List Event :=
  [.turn id .none, .turn id (.config true), .turn id (.pid 300), .turn id (.inject (some 0))]

/-- Two containers run, and a command is called for the first one. -/
def bothRun : List Event :=
  [.supervise 0 ['c'], .supervise 1 ['d'], .clone 0 300, .clone 1 400, .record 0 4, .record 1 4,
    .vzexec 0 ['c']]

/-- The command reaches the process of `c`. -/
theorem commands_reach_container_runs : ∃ w,
    run (World.step plainLayout) .init (bothRun ++ execTurns 0) = some w ∧
      w.hits = [⟨['c'], some ['c']⟩] ∧ Reached w := by
  have hrun : ∃ w, run (World.step plainLayout) .init (bothRun ++ execTurns 0) = some w ∧
      w.hits = [⟨['c'], some ['c']⟩] := exists_run (by decide)
  obtain ⟨w, hw, hhits⟩ := hrun
  have hdirs : Set.InjOn plainLayout.sysGetContPath {['c'], ['d']} := by
    rintro a (rfl | rfl) b (rfl | rfl) hdir
    · rfl
    · exact absurd hdir (by decide)
    · exact absurd hdir (by decide)
    · rfl
  have hmeets : Meets (World.step plainLayout) (Given plainLayout {['c'], ['d']}) .init
      (bothRun ++ execTurns 0) := by
    refine ⟨.inl rfl, fun w₁ h₁ => ⟨.inr rfl, fun w₂ h₂ => ⟨?_, fun w₃ h₃ => ⟨?_, fun w₄ h₄ =>
      ⟨?_, fun w₅ h₅ => ⟨?_, fun w₆ h₆ => ⟨.inl rfl, fun _ _ => meets_of_quiet (by decide)⟩⟩⟩⟩⟩⟩⟩
    all_goals obtain rfl := Option.some.inj h₁
    all_goals obtain rfl := Option.some.inj h₂
    · exact fun _ _ => spares_of_unused (fun _ => (by decide : (0 : Int) ≠ 300)) fun _ => rfl
    all_goals obtain rfl := Option.some.inj h₃
    · exact fun _ _ => spares_of_unused (fun _ => (by decide : (0 : Int) ≠ 400)) fun _ => rfl
    all_goals obtain rfl := Option.some.inj h₄
    · apply given_record
      intro sup pid hsup hpid
      obtain rfl := Option.some.inj hsup
      obtain rfl := Option.some.inj hpid
      decide
    · obtain rfl := Option.some.inj h₅
      apply given_record
      intro sup pid hsup hpid
      obtain rfl := Option.some.inj hsup
      obtain rfl := Option.some.inj hpid
      decide
  exact ⟨w, hw, hhits, (commands_reach_container hdirs hmeets).1 _ [] w (by simp) hw⟩

/-- A supervisor has written 300 and is killed, the container ends, and another process
of the host is given the number. -/
def reused : List Event :=
  [.supervise 0 ['c'], .clone 0 300, .record 0 4, .gone 0, .ends 300, .reap 300, .fork 1 300]

/-- Turns of `cont_shutdown` up to the SIGKILL. -/
def shutdownTurns (id : Nat) : List Event :=
  [Event.turn id (.config true), .turn id (.pid 300)] ++ execTurns id ++
    [Event.turn id .none, .turn id .none, .turn id .none, .turn id (.remaining (some 1)), .turn id .none]

/-- A process of the host is entered by `vzexec` and killed by `cont_shutdown`. -/
theorem commands_reach_host : ∃ w,
    run (World.step plainLayout) .init
      (reused ++ [Event.vzexec 0 ['c']] ++ execTurns 0 ++ [Event.contShutdown 1 ['c']] ++ shutdownTurns 1)
        = some w ∧
      w.hits = List.replicate 3 ⟨['c'], none⟩ ∧ ¬ Reached w := by
  have hrun : ∃ w, run (World.step plainLayout) .init
      (reused ++ [Event.vzexec 0 ['c']] ++ execTurns 0 ++ [Event.contShutdown 1 ['c']] ++ shutdownTurns 1)
        = some w ∧ w.hits = List.replicate 3 ⟨['c'], none⟩ :=
    exists_run (by decide)
  obtain ⟨w, hw, hhits⟩ := hrun
  refine ⟨w, hw, hhits, fun h => ?_⟩
  have := h ⟨['c'], none⟩ (by simp [hhits])
  simp at this

end Vzgot.Command
