import Vzgot.Boot.Doboot

/-!
# The sealed root

The program of the container is executed only behind the calls of `sealing`, each of them
with success and in this order (`doboot_sealed`). Every phase makes the calls that it has
to contribute and goes on only if they succeed (`Contributes`), so that the loop comes to
the last phase only with all of them.
-/

set_option autoImplicit false

namespace Vzgot.Boot

open Vzgot.Calls

/-! ## What has to be done -/

/-- The call succeeded. -/
def done (c : SysCall) : Event := ⟨.sys c, true⟩

/-- The calls that seal the root of the container, in their order. -/
def sealing (cont : Cont) : List Event :=
  [done .unshareCgroupTime,
    done (.mount "none".toList "/".toList none [.recursive, .makePrivate]),
    done (.mount cont.rootfs cont.rootfs none [.bind, .recursive]),
    done (.mount "proc".toList (cont.rootfs ++ '/' :: "proc".toList) (some "proc".toList)
      [.nosuid, .nodev, .noexec]),
    done (.mount "sysfs".toList (cont.rootfs ++ '/' :: "sys".toList) (some "sysfs".toList)
      [.nosuid, .nodev, .noexec]),
    done (.mount "tmpfs".toList (cont.rootfs ++ '/' :: "run".toList) (some "tmpfs".toList)
      [.nosuid, .nodev, .noexec]),
    done (.mount (cont.contpath ++ "/dev".toList) (cont.rootfs ++ "/dev".toList) none
      [.bind, .recursive]),
    done (.mount "cgroup2".toList (cont.rootfs ++ "/sys/fs/cgroup".toList)
      (some "cgroup2".toList) [.nosuid, .nodev, .noexec]),
    done (.chdir cont.rootfs),
    done (.pivotRoot ".".toList "old_root".toList),
    done (.chdir "/".toList),
    done (.umountDetach "/old_root".toList),
    done (.rmdir "/old_root".toList),
    ⟨.fork, .parent⟩]

/-- The calls that a phase contributes. -/
def contributes (cont : Cont) : Nat → List Event
  | 2 => (sealing cont).take 1
  | 5 => ((sealing cont).drop 1).take 1
  | 7 => ((sealing cont).drop 2).take 1
  | 8 => ((sealing cont).drop 3).take 3
  | 10 => ((sealing cont).drop 6).take 1
  | 12 => ((sealing cont).drop 7).take 1
  | 14 => ((sealing cont).drop 8).take 3
  | 15 => ((sealing cont).drop 11).take 2
  | 16 => (sealing cont).drop 13
  | _ => []

/-- The calls that the phases from `phase` on contribute. -/
def contributed (cont : Cont) (phase : Nat) : List Event :=
  (List.range' phase (17 - phase)).flatMap (contributes cont)

/-- No program is executed. -/
def NoExec (h : List Event) : Prop := ∀ e ∈ h, ∀ args, e.1 ≠ .sys (.execvpe args)

/-- How a turn before the last phase ends: it goes on with its calls made, or ends with
trouble, or in the child that becomes the monitor. -/
def After (calls : List Event) (s : Vars) (h : List Event) (t : Turn) : Prop :=
  NoExec h ∧
    match t with
    | .next s' => s'.phase = s.phase + 1 ∧
        ((s'.proceed = s.proceed ∧ calls.Sublist h) ∨ (s'.proceed = false ∧ s'.status = 1))
    | .ended o => o = .monitor

/-! ## Phases -/

section Phases

variable {cont : Cont} {s : Vars} {calls h h' : List Event}

theorem contributed_zero (cont : Cont) : contributed cont 0 = sealing cont := rfl

theorem contributed_succ (cont : Cont) {phase : Nat} (h : phase < 17) :
    contributed cont phase = contributes cont phase ++ contributed cont (phase + 1) := by
  have hsub : 17 - phase = (17 - (phase + 1)) + 1 := by omega
  rw [contributed, hsub, List.range'_succ, List.flatMap_cons]
  rfl

theorem noExec_nil : NoExec [] := fun _ he => nomatch he

theorem NoExec.append (h₁ : NoExec h) (h₂ : NoExec h') : NoExec (h ++ h') := by
  intro e he
  rcases List.mem_append.mp he with he | he
  · exact h₁ e he
  · exact h₂ e he

theorem NoExec.cons {c : Call} {r : Result c} (hc : ∀ args, c ≠ .sys (.execvpe args))
    (hh : NoExec h) : NoExec (⟨c, r⟩ :: h) := by
  intro e he
  rcases List.mem_cons.mp he with rfl | he
  · exact hc
  · exact hh e he

theorem after_pass : Meets s.pass (After [] s) :=
  meets_ret ⟨noExec_nil, rfl, Or.inl ⟨rfl, List.Sublist.refl _⟩⟩

theorem after_tooBad : Meets s.tooBad (After calls s) :=
  meets_ret ⟨noExec_nil, rfl, Or.inr ⟨rfl, rfl⟩⟩

/-- More calls in front. -/
theorem After.front {t : Turn} (hh : NoExec h) (ha : After calls s h' t) :
    After calls s (h ++ h') t := by
  refine ⟨hh.append ha.1, ?_⟩
  cases t with
  | next s' =>
      refine ⟨ha.2.1, ha.2.2.imp_left ?_⟩
      exact fun hnext => ⟨hnext.1, hnext.2.trans (List.sublist_append_right h h')⟩
  | ended o => exact ha.2

/-- Fewer calls. -/
theorem After.sublist {calls' : List Event} {t : Turn} (ha : After calls s h t)
    (hsub : calls'.Sublist calls) : After calls' s h t := by
  refine ⟨ha.1, ?_⟩
  cases t with
  | next s' =>
      refine ⟨ha.2.1, ha.2.2.imp_left ?_⟩
      exact fun hnext => ⟨hnext.1, hsub.trans hnext.2⟩
  | ended o => exact ha.2

/-- A call that has to succeed is contributed. -/
theorem after_require {c : SysCall} {k : Process Turn} (hc : ∀ args, c ≠ .execvpe args)
    (hk : Meets k (After calls s)) : Meets (require c s k) (After (done c :: calls) s) := by
  have hcall : ∀ args, Call.sys c ≠ .sys (.execvpe args) := fun args heq => hc args (Call.sys.inj heq)
  apply meets_call
  intro ok
  cases ok with
  | false =>
      apply after_tooBad.mono
      exact fun h' t ht => ht.front (NoExec.cons hcall noExec_nil)
  | true =>
      apply hk.mono
      intro h' t ht
      refine ⟨ht.1.cons hcall, ?_⟩
      cases t with
      | next s' =>
          refine ⟨ht.2.1, ht.2.2.imp_left ?_⟩
          exact fun hnext => ⟨hnext.1, hnext.2.cons_cons _⟩
      | ended o => exact ht.2

/-- A helper whose result is looked at. -/
theorem after_check {p : Process Bool} (hp : Meets p fun h _ => NoExec h) :
    Meets (p.bind fun isok => if isok then s.pass else s.tooBad) (After [] s) := by
  apply hp.bind
  intro h isok hh
  cases isok with
  | true => exact after_pass.mono fun h' t ht => ht.front hh
  | false => exact after_tooBad.mono fun h' t ht => ht.front hh

/-! ## Helpers -/

theorem noExec_sys {α : Type} {c : SysCall} {k : Bool → Process α} (hc : ∀ args, c ≠ .execvpe args)
    (hk : ∀ ok, Meets (k ok) fun h _ => NoExec h) : Meets (sys c k) fun h _ => NoExec h := by
  apply meets_call
  intro ok
  apply (hk ok).mono
  exact fun h' t ht => ht.cons fun args heq => hc args (Call.sys.inj heq)

theorem noExec_ret {α : Type} (a : α) : Meets (.ret a : Process α) fun h _ => NoExec h :=
  meets_ret noExec_nil

theorem setarch_noExec (arch : List Char) : Meets (setarch arch) fun h _ => NoExec h := by
  rw [setarch]
  split
  · exact noExec_sys (by simp) noExec_ret
  · split
    · exact noExec_sys (by simp) noExec_ret
    · exact noExec_ret false

theorem sysSetBootTime_noExec : Meets sysSetBootTime fun h _ => NoExec h := by
  rw [sysSetBootTime]
  apply noExec_sys (by simp)
  intro known
  cases known with
  | false => exact noExec_ret false
  | true =>
      apply noExec_sys (by simp)
      intro opened
      cases opened with
      | false => exact noExec_ret false
      | true => exact noExec_sys (by simp) noExec_ret

theorem setDirs_noExec (contpath : List Char) (dirs : List (List Char × Nat)) (isok : Bool) :
    Meets (setDirs contpath dirs isok) fun h _ => NoExec h := by
  induction dirs generalizing isok with
  | nil => exact noExec_ret isok
  | cons dir dirs ih =>
      have hmkdir : Meets (doMkdir (contpath ++ "/rootfs/".toList ++ dir.1) dir.2)
          fun h _ => NoExec h := by
        apply meets_call
        intro r
        have hcons : ∀ {h : List Event} (r : MkdirResult), NoExec h →
            NoExec (⟨.mkdir (contpath ++ "/rootfs/".toList ++ dir.1) dir.2, r⟩ :: h) :=
          fun r hh => hh.cons fun _ heq => nomatch heq
        cases r with
        | made => exact meets_ret (hcons _ noExec_nil)
        | error => exact meets_ret (hcons _ noExec_nil)
        | «exists» =>
            apply (noExec_sys (by simp) noExec_ret).mono
            exact fun h' a hh => hcons _ hh
      apply hmkdir.bind
      intro h made hh
      exact (ih (isok && made)).mono fun h' a hh' => hh.append hh'

theorem after_monitoring : Meets ((monitoring s.mfd cont.contname).bind fun
      | some true => s.pass
      | some false => s.tooBad
      | none => .ret (.ended .monitor)) (After [⟨.fork, .parent⟩] s) := by
  have hfork : ∀ {h : List Event} (r : ForkResult), NoExec h → NoExec (⟨.fork, r⟩ :: h) :=
    fun r hh => hh.cons (by simp)
  have hmonitoring : Meets (monitoring s.mfd cont.contname) fun h isok =>
      NoExec h ∧ (isok = some true → h = [⟨.fork, .parent⟩]) := by
    apply meets_call
    intro r
    cases r with
    | failed => exact meets_ret ⟨hfork _ noExec_nil, by simp⟩
    | parent => exact meets_ret ⟨hfork _ noExec_nil, fun _ => rfl⟩
    | child =>
        -- the child of `fork` never comes back to the phases
        have hchild : ∀ mrk, Meets (monitorChild s.mfd mrk) fun h _ => NoExec h := by
          intro mrk
          apply noExec_sys (by simp)
          intro alone
          cases alone with
          | false => exact noExec_ret ()
          | true =>
              exact noExec_sys (by simp) fun _ => noExec_sys (by simp) fun _ => noExec_ret ()
        apply (hchild _).bind
        intro h _ hh
        exact meets_ret ⟨hfork _ (hh.append noExec_nil), by simp⟩
  apply hmonitoring.bind
  rintro h isok ⟨hh, hparent⟩
  match isok with
  | some true =>
      rw [hparent rfl]
      exact meets_ret ⟨NoExec.append (hfork _ noExec_nil) noExec_nil, rfl,
        Or.inl ⟨rfl, List.Sublist.refl _⟩⟩
  | some false => exact after_tooBad.mono fun h' t ht => ht.front hh
  | none => exact meets_ret ⟨hh.append noExec_nil, rfl⟩

/-- The turns before the last phase. -/
theorem turn_after (hphase : s.phase < 17) :
    Meets (dobootTurn cont s) (After (contributes cont s.phase) s) := by
  obtain ⟨phase, proceed, status, mfd⟩ := s
  match phase, hphase with
  | 0, _ => exact after_pass
  | 1, _ => exact after_check (setarch_noExec cont.contarch)
  | 2, _ =>
      apply meets_call
      intro ok
      cases ok with
      | false => exact meets_ret ⟨noExec_nil.cons (by simp), rfl, Or.inr ⟨rfl, rfl⟩⟩
      | true =>
          exact meets_ret ⟨noExec_nil.cons (by simp), rfl, Or.inl ⟨rfl, List.Sublist.refl _⟩⟩
  | 3, _ =>
      exact (after_require (by simp) after_pass).mono fun _ _ ht => ht.sublist (List.nil_sublist _)
  | 4, _ => exact after_check sysSetBootTime_noExec
  | 5, _ => exact after_require (by simp) after_pass
  | 6, _ => exact after_check (setDirs_noExec cont.contpath needed true)
  | 7, _ => exact after_require (by simp) after_pass
  | 8, _ =>
      exact after_require (by simp) (after_require (by simp) (after_require (by simp) after_pass))
  | 9, _ =>
      apply meets_call
      intro r
      cases r with
      | none => exact meets_ret ⟨noExec_nil.cons (by simp), rfl, Or.inr ⟨rfl, rfl⟩⟩
      | some mfd =>
          exact meets_ret ⟨noExec_nil.cons (by simp), rfl, Or.inl ⟨rfl, List.nil_sublist _⟩⟩
  | 10, _ => exact after_require (by simp) after_pass
  | 11, _ => exact after_pass
  | 12, _ => exact after_require (by simp) after_pass
  | 13, _ => exact after_pass
  | 14, _ =>
      exact after_require (by simp) (after_require (by simp) (after_require (by simp) after_pass))
  | 15, _ => exact after_require (by simp) (after_require (by simp) after_pass)
  | 16, _ => exact after_monitoring
  | phase + 17, hphase => exact absurd hphase (by simp)

/-- The turn of the last phase: behind other calls the program is executed, and if that fails
there is trouble. -/
theorem turn_exec (hphase : s.phase = 17) :
    Meets (dobootTurn cont s) fun h t => ∃ (a : List Event) (ok : Bool), NoExec a ∧
      h = a ++ [⟨.sys (.execvpe cont.execArgs), ok⟩] ∧
      t = if ok then .ended .executed
        else .next { s with status := 1, proceed := false, phase := s.phase + 1 } := by
  obtain ⟨phase, proceed, status, mfd⟩ := s
  obtain rfl : phase = 17 := hphase
  have hexec : Meets (sys (.execvpe cont.execArgs) fun executed =>
      if executed then .ret (.ended .executed) else Vars.tooBad ⟨17, proceed, status, mfd⟩)
      fun h t => ∃ ok : Bool, h = [⟨.sys (.execvpe cont.execArgs), ok⟩] ∧
        t = if ok then .ended .executed else .next ⟨18, false, 1, mfd⟩ := by
    apply meets_call
    intro ok
    cases ok with
    | false => exact meets_ret ⟨false, rfl, rfl⟩
    | true => exact meets_ret ⟨true, rfl, rfl⟩
  -- the console, and the null device without it
  apply meets_call
  intro console
  cases console with
  | true =>
      apply hexec.mono
      rintro h t ⟨ok, rfl, rfl⟩
      exact ⟨[⟨.sys (.openDevice "/dev/console".toList), true⟩], ok, noExec_nil.cons (by simp), rfl, rfl⟩
  | false =>
      apply meets_call
      intro null
      apply hexec.mono
      rintro h t ⟨ok, rfl, rfl⟩
      exact ⟨[⟨.sys (.openDevice "/dev/console".toList), false⟩,
        ⟨.sys (.openDevice "/dev/null".toList), null⟩], ok,
        NoExec.cons (by simp) (noExec_nil.cons (by simp)), rfl, rfl⟩

end Phases

/-! ## The loop -/

/-- The program is executed only behind the calls. -/
def Guarded (calls h : List Event) : Prop :=
  ∀ a args ok b, h = a ++ ⟨.sys (.execvpe args), ok⟩ :: b → calls.Sublist a

/-- The process has become the program of the container. -/
def Executes (h : List Event) : Prop := ∃ args, ⟨.sys (.execvpe args), true⟩ ∈ h

/-- How `doboot` ends: the process has become the program of the container, or it has not, and
`doboot` returns 1 or the process was the monitor. -/
def Ending (h : List Event) (o : Option Outcome) : Prop :=
  (o = some .executed ∧ Executes h) ∨
    ((o = some (.returned 1) ∨ o = some .monitor) ∧ ¬ Executes h)

theorem NoExec.not_executes {h : List Event} (hh : NoExec h) : ¬ Executes h :=
  fun ⟨args, hmem⟩ => hh _ hmem args rfl

theorem executes_append {h h' : List Event} (hh : NoExec h) :
    Executes (h ++ h') ↔ Executes h' := by
  constructor
  · rintro ⟨args, hmem⟩
    rcases List.mem_append.mp hmem with hmem | hmem
    · exact absurd rfl (hh _ hmem args)
    · exact ⟨args, hmem⟩
  · exact fun ⟨args, hmem⟩ => ⟨args, List.mem_append_right h hmem⟩

theorem NoExec.guarded {h : List Event} (hh : NoExec h) (calls : List Event) : Guarded calls h := by
  rintro a args ok b rfl
  exact absurd rfl (hh _ (List.mem_append_right a List.mem_cons_self) args)

theorem Guarded.front {calls calls' h h' : List Event} (hh : NoExec h) (hcalls : calls.Sublist h)
    (hg : Guarded calls' h') : Guarded (calls ++ calls') (h ++ h') := by
  intro a args ok b heq
  rcases List.append_eq_append_iff.mp heq with ⟨c, rfl, hc⟩ | ⟨c, rfl, hc⟩
  · exact hcalls.append (hg c args ok b hc)
  · cases c with
    | nil =>
        rw [List.append_nil] at hcalls
        have hnil := hg [] args ok b hc.symm
        rw [List.sublist_nil.mp hnil, List.append_nil]
        exact hcalls
    | cons e c =>
        obtain ⟨rfl, -⟩ := List.cons.inj hc
        exact absurd rfl (hh _ (List.mem_append_right a List.mem_cons_self) args)

theorem loop_sealed (cont : Cont) (fuel : Nat) {s : Vars} (hfuel : 20 ≤ fuel + s.phase)
    (hphase : s.phase ≤ 17) (hproceed : s.proceed = true) :
    Meets (dobootLoop cont fuel s) fun h o =>
      Guarded (contributed cont s.phase) h ∧ Ending h o := by
  -- on the fuel: a turn goes to the next phase, or to a turn that returns 1
  induction fuel generalizing s with
  | zero => omega
  | succ fuel ih =>
      have hstop : ∀ {t : Vars}, t.phase = s.phase + 1 → t.proceed = false → t.status = 1 →
          Meets (dobootLoop cont fuel t) fun h o => h = [] ∧ o = some (.returned 1) := by
        intro t hnext hend hstatus
        obtain ⟨m, rfl⟩ : ∃ m, fuel = m + 1 := ⟨fuel - 1, by omega⟩
        rw [dobootLoop, hend, hstatus]
        exact meets_ret ⟨rfl, rfl⟩
      rw [dobootLoop, if_pos hproceed]
      rcases Nat.lt_or_eq_of_le hphase with hbefore | hlast
      · apply (turn_after hbefore).bind
        rintro h t ⟨hh, ht⟩
        cases t with
        | ended o =>
            obtain rfl : o = .monitor := ht
            have hnone := hh.append noExec_nil
            exact meets_ret ⟨hnone.guarded _, Or.inr ⟨Or.inr rfl, hnone.not_executes⟩⟩
        | next t =>
            obtain ⟨hnext, ⟨hgo, hcalls⟩ | ⟨hend, hstatus⟩⟩ := ht
            · apply (ih (by omega) (by omega) (hgo.trans hproceed)).mono
              rintro h' o ⟨hguarded, hending⟩
              rw [contributed_succ cont hbefore, ← hnext]
              refine ⟨hguarded.front hh hcalls, ?_⟩
              rwa [Ending, executes_append hh]
            · apply (hstop hnext hend hstatus).mono
              rintro h' o ⟨rfl, rfl⟩
              have hnone := hh.append noExec_nil
              exact ⟨hnone.guarded _, Or.inr ⟨Or.inl rfl, hnone.not_executes⟩⟩
      · -- the last phase: `exec`, and if it fails one more turn
        have hnone : contributed cont s.phase = [] := by
          rw [hlast]
          rfl
        have hguarded : ∀ h, Guarded [] h := fun h a args ok b heq => List.nil_sublist a
        rw [hnone]
        apply (turn_exec hlast).bind
        rintro h t ⟨a, ok, hh, rfl, rfl⟩
        cases ok with
        | true =>
            refine meets_ret ⟨hguarded _, Or.inl ⟨rfl, cont.execArgs, ?_⟩⟩
            exact List.mem_append_left _ (List.mem_append_right a (List.mem_singleton_self _))
        | false =>
            apply (hstop rfl rfl rfl).mono
            rintro h' o ⟨rfl, rfl⟩
            refine ⟨hguarded _, Or.inr ⟨Or.inl rfl, ?_⟩⟩
            rw [List.append_nil, executes_append hh]
            rintro ⟨args, hmem⟩
            cases List.mem_singleton.mp hmem

/-- The program of the container is executed only in a sealed root, and otherwise `doboot`
returns 1 or the process ends as the monitor of the container. -/
theorem doboot_sealed (cont : Cont) {h : List Event} {o : Option Outcome}
    (hrun : Runs (doboot cont) h o) : Guarded (sealing cont) h ∧ Ending h o := by
  rw [← contributed_zero]
  exact (loop_sealed cont 20 (by simp) (by simp) rfl).of_runs h o hrun

/-- Every call succeeds. -/
def succeed : (c : Call) → Result c
  | .sys _ => true
  | .mkdir _ _ => .made
  | .getMemfd _ _ => some 3
  | .fork => .parent

/-- A run where every call succeeds executes the program. -/
theorem doboot_sealed_succeed :
    (exec succeed (doboot ⟨['c'], "x86_64".toList, [['i']], ['d']⟩)).2 = some .executed ∧
      Guarded (sealing ⟨['c'], "x86_64".toList, [['i']], ['d']⟩)
        (exec succeed (doboot ⟨['c'], "x86_64".toList, [['i']], ['d']⟩)).1 ∧
      Ending (exec succeed (doboot ⟨['c'], "x86_64".toList, [['i']], ['d']⟩)).1
        (exec succeed (doboot ⟨['c'], "x86_64".toList, [['i']], ['d']⟩)).2 :=
  ⟨by decide +kernel, doboot_sealed _ (runs_exec succeed _)⟩

end Vzgot.Boot
