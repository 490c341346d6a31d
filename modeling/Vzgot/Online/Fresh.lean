import Vzgot.Library.Transition
import Vzgot.Online.Resolve

/-!
# Updates and displays in any order

`cfg_update_online` stores the converted lines in the template, `cfg_flush_online` prints
them and removes them (`lib/unicfg.c`). `vzstat` calls the one and then the other without
end (`app/vzstat.c`), but both may be called in any order.

`cfg_update_online` sets no result, so that it returns `false` also when it has stored new
lines (`reports_iff`). When the status cannot be read it leaves the lines of an earlier
update where they are, and these are printed next (`fresh_iff`). The printing itself is
right in every order (`flush_run`), and the loop of `vzstat` never prints an old line
(`vzstat_fresh`).
-/

set_option autoImplicit false

namespace Vzgot.Online

open Vzgot.Stdio Transition

/-- A call with a template. `status` is what `sys_update_cont_status` leaves, if it does not
fail, and `stack` what `work` contains before it is written. -/
inductive Call where
  | update (status : Option Content) (stack : Nat → Work)
  | flush

/-- `cfg_flush_online`: its result, the lines it prints, and the structure. -/
def cfgFlushOnline (tpl : Tpl) : Bool × List (List Char) × Tpl :=
  if tpl.updated = [] then (false, [], tpl)
  else (true, tpl.updated, { tpl with updated := [] })

/-- The structure behind a call. -/
def next (printf : List Char → Argument → List Char) (tpl : Tpl) : Call → Option Tpl
  | .update status stack => (cfgUpdateOnline printf status stack tpl).map Prod.snd
  | .flush => some (cfgFlushOnline tpl).2.2

/-- There is no line to convert, or the status cannot be read. -/
def Call.Fails (tpl : Tpl) : Call → Prop
  | .update status _ => tpl.lines = [] ∨ status = none
  | .flush => True

section Calls

variable (printf : List Char → Argument → List Char)

/-- The lines are the ones of the template, converted with the status of the call. -/
def Converted (status : Option Content) (stack : Nat → Work) (tpl : Tpl)
    (lines : List (List Char)) : Prop :=
  tpl.lines ≠ [] ∧ ∃ st, status = some st ∧ convertLines printf st tpl stack 0 tpl.lines = some lines

/-- An update tells whether the lines that are stored then are its own. -/
def Reports (tpl : Tpl) : Call → Prop
  | .update status stack => ∀ isok tpl', cfgUpdateOnline printf status stack tpl = some (isok, tpl') →
      (isok = true ↔ Converted printf status stack tpl tpl'.updated)
  | .flush => True

/-- Behind an update that returns `false` no line is printed but its own. -/
def Fresh (tpl : Tpl) : Call → Prop
  | .update status stack => ∀ tpl', cfgUpdateOnline printf status stack tpl = some (false, tpl') →
      (cfgFlushOnline tpl').2.1 = [] ∨ Converted printf status stack tpl (cfgFlushOnline tpl').2.1
  | .flush => True

/-- The lines of an update are printed once and in order, also behind updates that fail;
until another update has stored lines, nothing is printed behind them. -/
def Flushed (tpl : Tpl) : Call → Prop
  | .update status stack => ∀ lines tpl' calls tpl'', Converted printf status stack tpl lines →
      next printf tpl (.update status stack) = some tpl' → Meets (next printf) Call.Fails tpl' calls →
      .flush ∉ calls → run (next printf) tpl' calls = some tpl'' →
      cfgFlushOnline tpl'' = (true, lines, { tpl'' with updated := [] })
  | .flush => ∀ calls tpl', Meets (next printf) Call.Fails (cfgFlushOnline tpl).2.2 calls →
      run (next printf) (cfgFlushOnline tpl).2.2 calls = some tpl' →
      cfgFlushOnline tpl' = (false, [], tpl')

end Calls

/-! ## One call -/

section Steps

variable {printf : List Char → Argument → List Char} {tpl tpl' : Tpl} {status : Option Content}
variable {stack : Nat → Work} {c : Call} {calls : List Call}

theorem convertLines_length {st : Content} {n : Nat} {lines updated : List (List Char)}
    (h : convertLines printf st tpl stack n lines = some updated) :
    updated.length = lines.length := by
  induction lines generalizing n updated with
  | nil =>
      obtain rfl : [] = updated := Option.some.inj h
      rfl
  | cons line lines ih =>
      obtain ⟨first, -, hrest⟩ := Option.bind_eq_some_iff.mp h
      obtain ⟨rest, hlines, rfl⟩ := Option.map_eq_some_iff.mp hrest
      rw [List.length_cons, List.length_cons, ih hlines]

/-- A template with a line has a converted one. -/
theorem Converted.ne_nil {lines : List (List Char)} (h : Converted printf status stack tpl lines) :
    lines ≠ [] := by
  obtain ⟨hne, st, -, hlines⟩ := h
  rintro rfl
  exact hne (List.length_eq_zero_iff.mp (convertLines_length hlines).symm)

/-- What an update does: nothing, or it stores its lines. It returns `false`. -/
theorem cfgUpdateOnline_cases {isok : Bool}
    (h : cfgUpdateOnline printf status stack tpl = some (isok, tpl')) :
    isok = false ∧ (((tpl.lines = [] ∨ status = none) ∧ tpl' = tpl) ∨
      ∃ lines, Converted printf status stack tpl lines ∧ tpl' = { tpl with updated := lines }) := by
  unfold cfgUpdateOnline at h
  by_cases hnil : tpl.lines = []
  · rw [if_pos hnil] at h
    cases h
    exact ⟨rfl, .inl ⟨.inl hnil, rfl⟩⟩
  · rw [if_neg hnil] at h
    cases status with
    | none =>
        cases h
        exact ⟨rfl, .inl ⟨.inr rfl, rfl⟩⟩
    | some st =>
        obtain ⟨lines, hlines, heq⟩ := Option.map_eq_some_iff.mp h
        cases heq
        exact ⟨rfl, .inr ⟨lines, ⟨hnil, st, rfl, hlines⟩, rfl⟩⟩

/-- An update that fails stores no lines of its own. -/
theorem Converted.not_fails {lines : List (List Char)}
    (h : Converted printf status stack tpl lines) : ¬ (tpl.lines = [] ∨ status = none) := by
  obtain ⟨hne, st, rfl, -⟩ := h
  rintro (hnil | hnone)
  · exact hne hnil
  · cases hnone

theorem cfgFlushOnline_nil (h : tpl.updated = []) : cfgFlushOnline tpl = (false, [], tpl) := if_pos h

theorem cfgFlushOnline_cons (h : tpl.updated ≠ []) :
    cfgFlushOnline tpl = (true, tpl.updated, { tpl with updated := [] }) := if_neg h

/-- What is printed is what is stored. -/
theorem printed_eq (tpl : Tpl) : (cfgFlushOnline tpl).2.1 = tpl.updated := by
  by_cases h : tpl.updated = []
  · rw [cfgFlushOnline_nil h, h]
  · rw [cfgFlushOnline_cons h]

/-- Nothing is stored behind a display. -/
theorem updated_flush (tpl : Tpl) : (cfgFlushOnline tpl).2.2.updated = [] := by
  by_cases h : tpl.updated = []
  · rw [cfgFlushOnline_nil h, h]
  · rw [cfgFlushOnline_cons h]

/-- The lines of the template do not change. -/
theorem lines_next (h : next printf tpl c = some tpl') : tpl'.lines = tpl.lines := by
  cases c with
  | update status stack =>
      obtain ⟨⟨isok, t⟩, hupdate, rfl⟩ := Option.map_eq_some_iff.mp h
      obtain ⟨-, ⟨-, rfl⟩ | ⟨lines, -, rfl⟩⟩ := cfgUpdateOnline_cases hupdate
      · rfl
      · rfl
  | flush =>
      obtain rfl : (cfgFlushOnline tpl).2.2 = tpl' := Option.some.inj h
      by_cases hnil : tpl.updated = []
      · rw [cfgFlushOnline_nil hnil]
      · rw [cfgFlushOnline_cons hnil]

/-- An update that fails changes nothing, a display removes what is stored. -/
theorem updated_next_fails (hfails : c.Fails tpl) (h : next printf tpl c = some tpl') :
    tpl'.updated = tpl.updated ∨ (c = .flush ∧ tpl'.updated = []) := by
  cases c with
  | update status stack =>
      obtain ⟨⟨isok, t⟩, hupdate, rfl⟩ := Option.map_eq_some_iff.mp h
      obtain ⟨-, ⟨-, rfl⟩ | ⟨lines, hlines, -⟩⟩ := cfgUpdateOnline_cases hupdate
      · exact .inl rfl
      · exact absurd hfails hlines.not_fails
  | flush =>
      obtain rfl : (cfgFlushOnline tpl).2.2 = tpl' := Option.some.inj h
      exact .inr ⟨rfl, updated_flush tpl⟩

/-- The result of an update is right exactly when it fails. -/
theorem reports_iff (h : (next printf tpl c).isSome) : Reports printf tpl c ↔ c.Fails tpl := by
  cases c with
  | flush => exact Iff.rfl
  | update status stack =>
      obtain ⟨tpl', hnext⟩ := Option.isSome_iff_exists.mp h
      obtain ⟨⟨isok, t⟩, hupdate, -⟩ := Option.map_eq_some_iff.mp hnext
      obtain ⟨rfl, hcases⟩ := cfgUpdateOnline_cases hupdate
      constructor
      · intro hreports
        rcases hcases with ⟨hfails, -⟩ | ⟨lines, hlines, rfl⟩
        · exact hfails
        · exact absurd ((hreports false _ hupdate).mpr hlines) Bool.false_ne_true
      · intro hfails isok' t' hupdate'
        obtain ⟨rfl, -⟩ := cfgUpdateOnline_cases hupdate'
        exact ⟨fun htrue => absurd htrue Bool.false_ne_true,
          fun hlines => absurd hfails hlines.not_fails⟩

/-- No old line can be printed exactly when a failing update finds none. -/
theorem fresh_iff (h : (next printf tpl c).isSome) :
    Fresh printf tpl c ↔ (c ≠ .flush → c.Fails tpl → tpl.updated = []) := by
  cases c with
  | flush => exact ⟨fun _ hne => absurd rfl hne, fun _ => trivial⟩
  | update status stack =>
      obtain ⟨tpl', hnext⟩ := Option.isSome_iff_exists.mp h
      obtain ⟨⟨isok, t⟩, hupdate, -⟩ := Option.map_eq_some_iff.mp hnext
      obtain ⟨rfl, hcases⟩ := cfgUpdateOnline_cases hupdate
      constructor
      · intro hfresh _ hfails
        rcases hcases with ⟨-, rfl⟩ | ⟨lines, hlines, -⟩
        · rw [← printed_eq]
          exact (hfresh _ hupdate).resolve_right fun hold => hold.not_fails hfails
        · exact absurd hfails hlines.not_fails
      · intro hnone t' hupdate'
        rw [printed_eq]
        obtain ⟨-, ⟨hfails, rfl⟩ | ⟨lines, hlines, rfl⟩⟩ := cfgUpdateOnline_cases hupdate'
        · exact .inl (hnone Call.noConfusion hfails)
        · exact .inr hlines

/-! ## Runs -/

/-- A guard that is a condition on the calls that happen. -/
theorem meets_congr {guard guard' : Tpl → Call → Prop}
    (hguard : ∀ m c, (next printf m c).isSome → (guard m c ↔ guard' m c))
    (h : run (next printf) tpl calls = some tpl') :
    Meets (next printf) guard tpl calls ↔ Meets (next printf) guard' tpl calls := by
  induction calls generalizing tpl with
  | nil => exact Iff.rfl
  | cons c calls ih =>
      obtain ⟨m, hm, hrest⟩ := run_cons_eq_some.1 h
      have hc := hguard tpl c (by rw [hm]; rfl)
      have hcalls := ih hrest
      constructor
      · rintro ⟨hfirst, hlater⟩
        exact Meets.cons (hc.mp hfirst) hm (hcalls.mp (hlater m hm))
      · rintro ⟨hfirst, hlater⟩
        exact Meets.cons (hc.mpr hfirst) hm (hcalls.mpr (hlater m hm))

/-- Updates that fail leave the lines for the next display. -/
theorem updated_run_fails (hfails : Meets (next printf) Call.Fails tpl calls)
    (h : run (next printf) tpl calls = some tpl') (hnone : .flush ∈ calls → tpl.updated = []) :
    tpl'.updated = tpl.updated := by
  induction calls generalizing tpl with
  | nil =>
      obtain rfl : tpl = tpl' := Option.some.inj h
      rfl
  | cons c calls ih =>
      obtain ⟨m, hm, hrest⟩ := run_cons_eq_some.1 h
      have hkept : m.updated = tpl.updated := by
        rcases updated_next_fails hfails.1 hm with hkept | ⟨rfl, hnil⟩
        · exact hkept
        · rw [hnil, hnone List.mem_cons_self]
      rw [← hkept]
      apply ih (hfails.2 m hm) hrest
      intro hflush
      rw [hkept]
      exact hnone (List.mem_cons_of_mem c hflush)

/-- A display is right in every structure. -/
theorem flush_run (printf : List Char → Argument → List Char) (tpl : Tpl) (c : Call) :
    Flushed printf tpl c := by
  cases c with
  | update status stack =>
      intro lines tpl' calls tpl'' hlines hnext hfails hflush hrun
      have hstored : tpl'.updated = lines := by
        obtain ⟨⟨isok, t⟩, hupdate, rfl⟩ := Option.map_eq_some_iff.mp hnext
        obtain ⟨-, ⟨hold, -⟩ | ⟨own, hown, rfl⟩⟩ := cfgUpdateOnline_cases hupdate
        · exact absurd hold hlines.not_fails
        · obtain ⟨-, st, rfl, hconvert⟩ := hlines
          obtain ⟨-, st', hst, hconvert'⟩ := hown
          cases hst
          exact Option.some.inj (hconvert'.symm.trans hconvert)
      have hleft := updated_run_fails hfails hrun fun h => absurd h hflush
      have hne : tpl''.updated ≠ [] := by
        rw [hleft, hstored]
        exact hlines.ne_nil
      rw [cfgFlushOnline_cons hne, hleft, hstored]
  | flush =>
      intro calls tpl' hfails hrun
      have hempty := updated_flush tpl
      have hleft := updated_run_fails hfails hrun fun _ => hempty
      exact cfgFlushOnline_nil (hleft.trans hempty)

/-- Every update of a run fails. -/
theorem meets_fails_iff (h : run (next printf) tpl calls = some tpl') :
    Meets (next printf) Call.Fails tpl calls ↔
      tpl.lines = [] ∨ ∀ status stack, .update status stack ∈ calls → status = none := by
  induction calls generalizing tpl with
  | nil => exact ⟨fun _ => .inr fun _ _ hmem => absurd hmem List.not_mem_nil, fun _ => trivial⟩
  | cons c calls ih =>
      obtain ⟨m, hm, hrest⟩ := run_cons_eq_some.1 h
      have hlines : m.lines = tpl.lines := lines_next hm
      have hcalls := ih hrest
      rw [hlines] at hcalls
      constructor
      · rintro ⟨hc, hlater⟩
        by_cases hnil : tpl.lines = []
        · exact .inl hnil
        · have hnone := (hcalls.mp (hlater m hm)).resolve_left hnil
          refine .inr fun status stack hmem => ?_
          rcases List.mem_cons.mp hmem with rfl | hmem
          · exact hc.resolve_left hnil
          · exact hnone status stack hmem
      · intro hnone
        have hlater : Meets (next printf) Call.Fails m calls := by
          apply hcalls.mpr
          exact hnone.imp_right fun h status stack hmem => h status stack (List.mem_cons_of_mem c hmem)
        refine Meets.cons ?_ hm hlater
        cases c with
        | update status stack => exact hnone.imp_right fun h => h status stack List.mem_cons_self
        | flush => trivial

end Steps

/-! ## From `cfg_open_online` on -/

theorem updated_scanLine (isok : Bool) (tpl : Tpl) (piece : List Char) :
    (scanLine isok tpl piece).2.updated = tpl.updated := by
  unfold scanLine
  split <;> rfl

theorem updated_foldl_scanLine (pieces : List (List Char)) (r : Bool × Tpl) :
    (pieces.foldl (fun r piece => scanLine r.1 r.2 piece) r).2.updated = r.2.updated := by
  induction pieces generalizing r with
  | nil => rfl
  | cons piece pieces ih => rw [List.foldl_cons, ih, updated_scanLine]

/-- A template is opened without converted lines. -/
theorem updated_open {named : Bool} {bytes : Option (List Char)} {status : Bool} {tpl : Tpl}
    (h : cfgOpenOnline named bytes status = some tpl) : tpl.updated = [] := by
  unfold cfgOpenOnline at h
  split at h
  · obtain ⟨text, -, h⟩ := Option.bind_eq_some_iff.mp h
    split at h
    · dsimp only at h
      split at h
      · obtain rfl := Option.some.inj h
        exact updated_foldl_scanLine _ _
      · cases h
    · obtain rfl := Option.some.inj h
      rfl
  · cases h

/-- In a run of calls from `cfg_open_online` on, every update tells whether it has stored
its lines, no update that returns `false` leaves an old line to be printed, and the lines
are printed once, exactly when no update stores any: there is no line in the template, or
the status can never be read. No old line can be printed exactly when every update that
fails finds none left, and in every run the lines are printed once and in order. -/
theorem online_display_iff (printf : List Char → Argument → List Char) (named : Bool)
    (bytes : Option (List Char)) (status : Bool) (tpl tpl' : Tpl) (calls : List Call)
    (hopen : cfgOpenOnline named bytes status = some tpl)
    (hrun : run (next printf) tpl calls = some tpl') :
    ((Meets (next printf) (Reports printf) tpl calls ∧ Meets (next printf) (Fresh printf) tpl calls ∧
        Meets (next printf) (Flushed printf) tpl calls) ↔
      tpl.lines = [] ∨ ∀ status stack, .update status stack ∈ calls → status = none) ∧
    (Meets (next printf) (Fresh printf) tpl calls ↔
      Meets (next printf) (fun m c => c ≠ .flush → c.Fails m → m.updated = []) tpl calls) ∧
    Meets (next printf) (Flushed printf) tpl calls := by
  have hreports := meets_congr (fun _ _ => reports_iff) hrun
  have hfresh := meets_congr (fun _ _ => fresh_iff) hrun
  have hflushed : Meets (next printf) (Flushed printf) tpl calls :=
    meets_of_forall fun _ c _ m _ _ => flush_run printf m c
  refine ⟨?_, hfresh, hflushed⟩
  rw [← meets_fails_iff hrun, ← hreports]
  constructor
  · exact fun h => h.1
  · intro h
    refine ⟨h, hfresh.mpr (meets_of_forall fun pre c post m hcalls hm _ _ => ?_), hflushed⟩
    -- nothing has been stored so far
    have hfails := hreports.mp h
    rw [hcalls] at hfails
    have hpre := ((meets_append hm).mp hfails).1
    rw [updated_run_fails hpre hm fun _ => updated_open hopen, updated_open hopen]

/-- A template of one line without a key. -/
def lineTpl : Tpl := ⟨[], ["load".toList], []⟩

theorem lineTpl_open : cfgOpenOnline true (some ">load\n".toList) true = some lineTpl := by decide

/-- What `work` contains does not matter for it. -/
def blankWork : Work := ⟨List.replicate workSize ' ', List.length_replicate⟩

/-- The status can be read for the first update and not for the second one. -/
def staleCalls : List Call :=
  [.update (some Content.zero) fun _ => blankWork, .update none fun _ => blankWork]

set_option maxRecDepth 4000 in
theorem lineTpl_update :
    cfgUpdateOnline printText (some Content.zero) (fun _ => blankWork) lineTpl =
      some (false, { lineTpl with updated := ["load".toList] }) := by decide

theorem lineTpl_next :
    next printText lineTpl (.update (some Content.zero) fun _ => blankWork) =
      some { lineTpl with updated := ["load".toList] } := by
  rw [next, lineTpl_update]
  rfl

theorem staleCalls_run :
    run (next printText) lineTpl staleCalls = some { lineTpl with updated := ["load".toList] } :=
  run_cons_eq_some.2 ⟨_, lineTpl_next, rfl⟩

/-- The first update stores its line and returns `false`, and the second one leaves it to be
printed. -/
theorem online_display_stale :
    cfgOpenOnline true (some ">load\n".toList) true = some lineTpl ∧
      run (next printText) lineTpl staleCalls = some { lineTpl with updated := ["load".toList] } ∧
      ¬ Meets (next printText) (Reports printText) lineTpl staleCalls ∧
      ¬ Meets (next printText) (Fresh printText) lineTpl staleCalls := by
  refine ⟨lineTpl_open, staleCalls_run, fun hreports => ?_, fun hfresh => ?_⟩
  · rcases (reports_iff (by rw [lineTpl_next]; rfl)).mp hreports.1 with hnil | hnone
    · exact absurd hnil (by decide)
    · cases hnone
  · have hsecond := (hfresh.2 _ lineTpl_next).1
    exact absurd ((fresh_iff rfl).mp hsecond Call.noConfusion (.inr rfl)) (by decide)

theorem online_display_iff_stale :
    ¬ (Meets (next printText) (Reports printText) lineTpl staleCalls ∧
        Meets (next printText) (Fresh printText) lineTpl staleCalls ∧
        Meets (next printText) (Flushed printText) lineTpl staleCalls) ∧
      Meets (next printText) (Flushed printText) lineTpl staleCalls := by
  obtain ⟨hall, -, hflushed⟩ := online_display_iff printText true _ true lineTpl _ staleCalls
    lineTpl_open staleCalls_run
  refine ⟨fun h => ?_, hflushed⟩
  rcases hall.mp h with hnil | hnone
  · exact absurd hnil (by decide)
  · exact absurd (hnone _ _ List.mem_cons_self) (Option.some_ne_none _)

/-- `vzstat` displays behind every update. -/
def vzstatCalls (updates : List (Option Content × (Nat → Work))) : List Call :=
  updates.flatMap fun u => [.update u.1 u.2, .flush]

/-- The loop of `vzstat` never prints an old line. -/
theorem vzstat_fresh {printf : List Char → Argument → List Char}
    (updates : List (Option Content × (Nat → Work))) {tpl tpl' : Tpl} (hnone : tpl.updated = [])
    (hrun : run (next printf) tpl (vzstatCalls updates) = some tpl') :
    Meets (next printf) (Fresh printf) tpl (vzstatCalls updates) := by
  induction updates generalizing tpl with
  | nil => trivial
  | cons u updates ih =>
      obtain ⟨m, hm, hrest⟩ := run_cons_eq_some.1 hrun
      obtain ⟨n, hn, hlater⟩ := run_cons_eq_some.1 hrest
      have hfresh : Fresh printf tpl (.update u.1 u.2) :=
        (fresh_iff (by rw [hm]; rfl)).mpr fun _ _ => hnone
      have hflushed : n.updated = [] := by
        obtain rfl : (cfgFlushOnline m).2.2 = n := Option.some.inj hn
        exact updated_flush m
      exact Meets.cons hfresh hm (Meets.cons trivial hn (ih hflushed hlater))

end Vzgot.Online
