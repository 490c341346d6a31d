import Vzgot.Online.Resolve

/-!
# Accesses of `do_resolv`

`do_resolv` (`lib/unicfg.c`) compares the length that `snprintf` returns with the length of
the key, with the room left in `work` and with the rest of the line, but never with the
size of `replace`. An execution stays inside its arrays exactly when the printed value fits
(`safe_iff_fits`): it has at most sixty characters, leaves room for the NUL, and is not
shorter than a key that has lost its colon at the end of the line.
-/

set_option autoImplicit false

namespace Vzgot.Online

open Vzgot.Stdio Vzgot.Buffer

/-! ## One execution -/

/-- Every access is inside its array, and `work` is ended by a NUL. -/
def Execution.Safe (e : Execution) : Prop := ∃ work, e.run = some work ∧ work.Ended e.marker

/-- The printed value fits. -/
def Execution.Fits (e : Execution) : Prop :=
  e.printed = [] ∨
    e.printed.length ≤ 60 ∧ e.printed.length < e.remain ∧
      (e.printed.length < e.keyLen → e.keyLen ≤ (e.work.text e.marker).length)

section Execution

variable {e : Execution} {pre t : List Char}

theorem replace_length (e : Execution) : e.replace.length = min 59 e.printed.length + 1 := by
  rw [Execution.replace, List.length_append, List.length_take, List.length_singleton]

/-- A value that is not longer than fifty-nine characters is stored as it is. -/
theorem replace_take (h : e.printed.length ≤ 59) :
    e.replace.take e.printed.length = e.printed := by
  rw [Execution.replace, List.take_of_length_le h, List.take_left]

variable (h : e.work.Holds pre t) (ht : '\x00' ∉ t) (hmarker : pre.length = e.marker)
include h ht hmarker

/-- After the end of the key is removed, the line goes on behind the value as it shall. -/
theorem shortened_spec (hkey : e.printed.length < e.keyLen → e.keyLen ≤ t.length) :
    ∃ work t', e.shortened = some work ∧ work.Holds pre t' ∧ '\x00' ∉ t' ∧
      t'.drop e.printed.length = t.drop (max e.printed.length e.keyLen) := by
  by_cases hnum : e.printed.length < e.keyLen
  · -- `memmove`
    obtain ⟨work, hstore, hwork⟩ := h.store_tail (Nat.le_of_lt hnum) (hkey hnum)
    refine ⟨work, _, ?_, hwork, ?_, ?_⟩
    · rw [Execution.shortened, if_pos hnum, ← hmarker, h.behind ht (hkey hnum),
        Option.bind_some, hstore]
    · apply List.not_mem_append
      · exact fun hmem => ht (List.mem_of_mem_take hmem)
      · exact fun hmem => ht (List.mem_of_mem_drop hmem)
    · have hlen : (t.take e.printed.length).length = e.printed.length := by
        rw [List.length_take, Nat.min_eq_left]
        exact (Nat.le_of_lt hnum).trans (hkey hnum)
      rw [Nat.max_eq_right (Nat.le_of_lt hnum), List.drop_append, hlen, Nat.sub_self,
        List.drop_zero, List.drop_of_length_le (Nat.le_of_eq hlen), List.nil_append]
  · refine ⟨e.work, t, ?_, h, ht, ?_⟩
    · rw [Execution.shortened, if_neg hnum]
    · rw [Nat.max_eq_left (Nat.le_of_not_lt hnum)]

/-- What an execution leaves when its value fits: the stored value, and the line behind
the key or behind the value, whichever is longer. -/
theorem run_eq_some (hne : e.printed ≠ []) (hreplace : e.printed.length ≤ 60)
    (hroom : e.printed.length < e.remain)
    (hkey : e.printed.length < e.keyLen → e.keyLen ≤ t.length) :
    ∃ work, e.run = some work ∧
      work.Holds pre (e.replace.take e.printed.length ++
        t.drop (max e.printed.length e.keyLen)) := by
  obtain ⟨work, t', hshort, hwork, ht', htail⟩ := shortened_spec h ht hmarker hkey
  have hmin : min e.printed.length e.remain = e.printed.length :=
    Nat.min_eq_left (Nat.le_of_lt hroom)
  have hstored : e.printed.length ≤ e.replace.length := by
    rw [replace_length]
    omega
  have hdata : (e.replace.take e.printed.length).length = e.printed.length := by
    rw [List.length_take, Nat.min_eq_left hstored]
  have hstrlen := hwork.strlen ht'
  rw [hmarker] at hstrlen
  simp only [Execution.run, if_neg hne, hshort, Option.bind_some, hstrlen, hmin, if_pos hstored]
  by_cases hmax : t'.length ≤ e.printed.length
  · -- the value reaches over the end of the line
    have hsize : pre.length + (e.replace.take e.printed.length).length < workSize := by
      rw [Execution.remain] at hroom
      omega
    obtain ⟨work₁, work₂, hstore, hend, hholds⟩ := hwork.store_end hsize
    rw [hmarker] at hstore hend
    rw [hdata] at hend
    refine ⟨work₂, ?_, ?_⟩
    · rw [hstore, Option.bind_some, if_pos hmax, hend]
    · rwa [← htail, List.drop_of_length_le hmax, List.append_nil]
  · have hle : (e.replace.take e.printed.length).length ≤ t'.length := by omega
    obtain ⟨work', hstore, hholds⟩ := hwork.store_le hle
    rw [hmarker] at hstore
    rw [hdata] at hholds
    refine ⟨work', ?_, ?_⟩
    · rw [hstore, Option.bind_some, if_neg hmax]
    · rwa [← htail]

/-- The three ways to leave an array. -/
theorem run_eq_none (hne : e.printed ≠ [])
    (hout : 60 < e.printed.length ∨ e.remain ≤ e.printed.length ∨
      (e.printed.length < e.keyLen ∧ t.length < e.keyLen)) :
    e.run = none := by
  have hlt : pre.length + t.length < workSize := h.length_lt
  by_cases hkey : e.printed.length < e.keyLen → e.keyLen ≤ t.length
  · obtain ⟨work, t', hshort, hwork, ht', -⟩ := shortened_spec h ht hmarker hkey
    have hstrlen := hwork.strlen ht'
    have hlt' : pre.length + t'.length < workSize := hwork.length_lt
    rw [hmarker] at hstrlen hlt'
    simp only [Execution.run, if_neg hne, hshort, Option.bind_some, hstrlen]
    split
    · rename_i hstored
      rw [replace_length] at hstored
      -- the value fills the room, and its NUL falls behind the array
      have hfull : e.remain ≤ e.printed.length := by omega
      rw [Nat.min_eq_right hfull]
      rw [Option.bind_eq_none_iff]
      intro work' _
      rw [if_pos (by rw [Execution.remain]; omega)]
      apply CharArray.store_eq_none
      rw [List.length_singleton, Execution.remain]
      omega
    · -- more characters than are stored
      rfl
  · -- the key ends behind the line
    rw [Classical.not_imp, Nat.not_le] at hkey
    have hbehind := h.behind_eq_none ht hkey.2
    rw [hmarker] at hbehind
    rw [Execution.run, if_neg hne, Execution.shortened, if_pos hkey.1, hbehind]
    rfl

end Execution

section Safe

variable {e : Execution} (hend : e.work.Ended e.marker)
include hend

theorem Execution.Fits.safe (h : e.Fits) : e.Safe := by
  rcases h with hnil | ⟨hreplace, hroom, hkey⟩
  · exact ⟨e.work, if_pos hnil, hend⟩
  · by_cases hne : e.printed = []
    · exact ⟨e.work, if_pos hne, hend⟩
    · obtain ⟨work, hrun, hwork⟩ := run_eq_some hend.holds (nul_not_mem_cstr _) hend.length_take
        hne hreplace hroom hkey
      refine ⟨work, hrun, ?_⟩
      rw [← hend.length_take]
      exact hwork.ended

theorem fits_of_run {work : Work} (hrun : e.run = some work) : e.Fits := by
  by_cases hne : e.printed = []
  · exact Or.inl hne
  · refine Or.inr ?_
    by_contra hout
    have hnone : e.run = none :=
      run_eq_none hend.holds (nul_not_mem_cstr _) hend.length_take hne (by omega)
    rw [hnone] at hrun
    cases hrun

/-- An execution on an ended string is safe exactly when its value fits. -/
theorem safe_iff_fits : e.Safe ↔ e.Fits := by
  constructor
  · rintro ⟨work, hrun, -⟩
    exact fits_of_run hend hrun
  · intro h
    exact h.safe hend

theorem ended_of_run {work : Work} (hrun : e.run = some work) : work.Ended e.marker := by
  obtain ⟨work', hrun', hended⟩ := (fits_of_run hend hrun).safe hend
  rw [hrun] at hrun'
  rwa [Option.some.inj hrun']

end Safe

/-! ## Runs -/

section Runs

variable {printf : List Char → Argument → List Char} {st : Content} {tpl : Tpl}

/-- The key of a declared variable. -/
theorem adjusting_declared {marker : Nat} {work : Work} {code : TplEnum} {var : VarTyp}
    {arg : Argument} (hname : lookup (varName (work.text marker)) = some code)
    (hvar : tpl.variable code = some var) (harg : argument st var.code = some arg) :
    let e : Execution := ⟨work, marker, (varName (work.text marker)).length + 2,
      printf var.format arg⟩
    adjusting printf st tpl marker work = ([e], e.run.map fun after => (true, after)) := by
  simp only [adjusting, hname, hvar, doResolv, harg, if_true, Option.map_eq_bind]
  rfl

variable (printf st tpl) in
/-- Either no variable is found and a part of the key is overwritten, or `do_resolv` is
executed once, at the key. -/
theorem adjusting_cases (marker : Nat) (work : Work) :
    (∃ c, adjusting printf st tpl marker work =
        ([], spoil work marker c (varName (work.text marker)).length)) ∨
      ∃ (e : Execution) (isok : Bool), e.work = work ∧ e.marker = marker ∧
        (isok = false → e.printed = []) ∧
        adjusting printf st tpl marker work = ([e], e.run.bind fun after =>
          if isok then some (true, after)
          else spoil after marker 'Z' (varName (work.text marker)).length) := by
  cases hname : lookup (varName (work.text marker)) with
  | none => exact Or.inl ⟨'X', by simp only [adjusting, hname]⟩
  | some found =>
      cases hvar : tpl.variable found with
      | none => exact Or.inl ⟨'Y', by simp only [adjusting, hname, hvar]⟩
      | some var =>
          right
          let keyLen := (varName (work.text marker)).length + 2
          cases harg : argument st var.code with
          | none =>
              refine ⟨⟨work, marker, keyLen, []⟩, false, rfl, rfl, fun _ => rfl, ?_⟩
              simp only [adjusting, hname, hvar, doResolv, harg, keyLen]
          | some arg =>
              refine ⟨⟨work, marker, keyLen, printf var.format arg⟩, true, rfl, rfl, nofun, ?_⟩
              simp only [adjusting, hname, hvar, doResolv, harg, keyLen]

theorem spoil_ne_true {work work' : Work} {marker n : Nat} {c : Char} :
    spoil work marker c n ≠ some (true, work') := by
  intro h
  obtain ⟨work₁, -, heq⟩ := Option.map_eq_some_iff.mp h
  cases heq

theorem varName_length_le (line : List Char) : (varName line).length ≤ line.length := by
  unfold varName
  split
  · rename_i rest
    rw [List.length_cons, scanUntil]
    split
    · simp
    · rename_i w _
      have hle := (List.takeWhile_prefix (fun c => decide (c ≠ ':'))
        (l := rest.take taille)).length_le
      simp only [Option.map_some, Option.getD_some]
      rw [List.length_take] at hle
      omega
  · simp

/-- A key is overwritten inside of its line. -/
theorem spoil_eq_some {work : Work} {marker : Nat} (hend : work.Ended marker) (c : Char) :
    ∃ work', spoil work marker c (varName (work.text marker)).length = some (false, work') := by
  have hlen : (List.replicate (varName (work.text marker)).length c).length ≤
      (work.text marker).length := by
    rw [List.length_replicate]
    exact varName_length_le _
  obtain ⟨work', hstore, -⟩ := hend.holds.store_le hlen
  rw [hend.length_take] at hstore
  exact ⟨work', by rw [spoil, hstore]; rfl⟩

section Adjusting

variable {marker : Nat} {work : Work} (hend : work.Ended marker)
include hend

/-- Every execution is on an ended string. -/
theorem ended_of_mem_adjusting {e : Execution}
    (he : e ∈ (adjusting printf st tpl marker work).1) : e.work.Ended e.marker := by
  rcases adjusting_cases printf st tpl marker work with
    ⟨c, h⟩ | ⟨e', isok, hwork, hmarker, -, h⟩
  · rw [h] at he
    cases he
  · rw [h] at he
    rw [List.mem_singleton.mp he, hwork, hmarker]
    exact hend

/-- A call that succeeds leaves an ended string. -/
theorem ended_of_adjusting {work' : Work}
    (hresult : (adjusting printf st tpl marker work).2 = some (true, work')) :
    work'.Ended marker := by
  rcases adjusting_cases printf st tpl marker work with
    ⟨c, h⟩ | ⟨e, isok, rfl, rfl, -, h⟩
  · rw [h] at hresult
    exact absurd hresult spoil_ne_true
  · rw [h] at hresult
    obtain ⟨work₁, hrun, hresult⟩ := Option.bind_eq_some_iff.mp hresult
    split at hresult
    · obtain rfl : work₁ = work' := (Prod.mk.inj (Option.some.inj hresult)).2
      exact ended_of_run hend hrun
    · exact absurd hresult spoil_ne_true

/-- A call comes back exactly when the value that it prints fits. -/
theorem adjusting_isSome_iff :
    (adjusting printf st tpl marker work).2.isSome ↔
      ∀ e ∈ (adjusting printf st tpl marker work).1, e.Fits := by
  rcases adjusting_cases printf st tpl marker work with
    ⟨c, h⟩ | ⟨e, isok, rfl, rfl, hprinted, h⟩
  · obtain ⟨work', hspoil⟩ := spoil_eq_some hend c
    rw [h, hspoil]
    simp
  · rw [h, List.forall_mem_singleton]
    constructor
    · intro hsome
      obtain ⟨r, hr⟩ := Option.isSome_iff_exists.mp hsome
      obtain ⟨work₁, hrun, -⟩ := Option.bind_eq_some_iff.mp hr
      exact fits_of_run hend hrun
    · intro hfits
      obtain ⟨work₁, hrun, -⟩ := hfits.safe hend
      rw [hrun, Option.bind_some]
      cases isok with
      | true => rfl
      | false =>
          -- nothing was printed, and the array is the same
          have hsame : e.run = some e.work := if_pos (hprinted rfl)
          rw [hsame] at hrun
          obtain ⟨work', hspoil⟩ := spoil_eq_some hend 'Z'
          rw [← Option.some.inj hrun, if_neg Bool.false_ne_true, hspoil]
          rfl

end Adjusting

/-- The key that is found next is on an ended string. -/
theorem ended_ptr {work : Work} {scan : Nat} (hend : work.Ended scan) :
    work.Ended (scan + ((work.text scan).takeWhile (· ≠ '$')).length) := by
  have hended := (hend.holds.shift ((work.text scan).takeWhile (· ≠ '$')).length).ended
  have hle := (List.takeWhile_prefix (fun c => decide (c ≠ '$')) (l := work.text scan)).length_le
  rwa [List.length_append, hend.length_take, List.length_take, Nat.min_eq_left hle] at hended

/-- What is executed for the first key of the rest of a line is executed for the line. -/
theorem mem_adjustKeys {numvar scan : Nat} {work : Work} {e : Execution}
    (hkey : '$' ∈ work.text scan)
    (he : e ∈ (adjusting printf st tpl
      (scan + ((work.text scan).takeWhile (· ≠ '$')).length) work).1) :
    e ∈ (adjustKeys printf st tpl (numvar + 1) scan work).1 := by
  rw [adjustKeys, if_pos hkey]
  simp only
  split
  · exact he
  · exact he
  · exact List.mem_append_left _ he

section Loop

variable {numvar scan : Nat} {work : Work} (hend : work.Ended scan)
include hend

/-- Every execution of the loop is on an ended string. -/
theorem ended_of_mem_adjustKeys {e : Execution}
    (he : e ∈ (adjustKeys printf st tpl numvar scan work).1) : e.work.Ended e.marker := by
  induction numvar generalizing scan work with
  | zero => cases he
  | succ numvar ih =>
      have hptr := ended_ptr hend
      rw [adjustKeys] at he
      split at he
      · simp only at he
        split at he
        · exact ended_of_mem_adjusting hptr he
        · exact ended_of_mem_adjusting hptr he
        · rename_i work' hresult
          -- the next search begins where the value was put
          rcases List.mem_append.mp he with he | he
          · exact ended_of_mem_adjusting hptr he
          · exact ih (ended_of_adjusting hptr hresult) he
      · cases he

/-- The loop comes to its end exactly when every value fits. -/
theorem adjustKeys_isSome_iff :
    (adjustKeys printf st tpl numvar scan work).2.isSome ↔
      ∀ e ∈ (adjustKeys printf st tpl numvar scan work).1, e.Fits := by
  induction numvar generalizing scan work with
  | zero => simp [adjustKeys]
  | succ numvar ih =>
      have hptr := ended_ptr hend
      have hcall : (adjusting printf st tpl _ work).2.isSome ↔
          ∀ e ∈ (adjusting printf st tpl _ work).1, e.Fits := adjusting_isSome_iff hptr
      rw [adjustKeys]
      split
      · simp only
        split
        · rename_i hresult
          rw [hresult] at hcall
          exact hcall
        · rename_i work' hresult
          rw [hresult] at hcall
          exact hcall
        · rename_i work' hresult
          rw [hresult] at hcall
          rw [List.forall_mem_append, ih (ended_of_adjusting hptr hresult)]
          exact ⟨fun h => ⟨hcall.mp rfl, h⟩, fun h => h.2⟩
      · simp

end Loop

variable (printf st tpl) in
/-- The loop begins with the line in the array, cut to its size. -/
theorem convertLine_eq (stack : Work) (line : List Char) :
    ∃ work : Work, work.Holds [] ((cstr line).take (workSize - 1)) ∧
      convertLine printf st tpl stack line =
        ((adjustKeys printf st tpl 10 0 work).1,
          (adjustKeys printf st tpl 10 0 work).2.map fun work => work.text 0) := by
  have hlen : ((cstr line).take (workSize - 1)).length < workSize := by
    rw [List.length_take, workSize]
    omega
  obtain ⟨work, hstore, hwork⟩ := stack.exists_store_string hlen
  refine ⟨work, hwork, ?_⟩
  simp only [convertLine, hstore]

/-- Every execution for a line is on an ended string. -/
theorem ended_of_mem_convertLine {stack : Work} {line : List Char} {e : Execution}
    (he : e ∈ (convertLine printf st tpl stack line).1) : e.work.Ended e.marker := by
  obtain ⟨work, hwork, hconvert⟩ := convertLine_eq printf st tpl stack line
  rw [hconvert] at he
  exact ended_of_mem_adjustKeys hwork.ended he

/-- A line is stored exactly when every value that is printed for it fits. -/
theorem convertLine_isSome_iff (stack : Work) (line : List Char) :
    (convertLine printf st tpl stack line).2.isSome ↔
      ∀ e ∈ (convertLine printf st tpl stack line).1, e.Fits := by
  obtain ⟨work, hwork, hconvert⟩ := convertLine_eq printf st tpl stack line
  rw [hconvert, Option.isSome_map]
  exact adjustKeys_isSome_iff hwork.ended

end Runs

/-- While a line is converted, every execution of `do_resolv` keeps inside its arrays and
leaves a string exactly when every printed value fits. -/
theorem doResolv_in_bounds_iff (printf : List Char → Argument → List Char) (st : Content)
    (tpl : Tpl) (stack : Work) (line : List Char) :
    (∀ e ∈ (convertLine printf st tpl stack line).1, e.Safe) ↔
      ∀ e ∈ (convertLine printf st tpl stack line).1, e.Fits := by
  constructor
  · intro h e he
    exact (safe_iff_fits (ended_of_mem_convertLine he)).mp (h e he)
  · intro h e he
    exact (safe_iff_fits (ended_of_mem_convertLine he)).mpr (h e he)

/-- A template with the list of the assigned CPUs. -/
def lstassTemplate : List Char := "$LSTASS=<%s>\n>$LSTASS:\n".toList

/-- Every second of fifty CPUs. -/
def evenCpus : List Char :=
  "0,2,4,6,8,10,12,14,16,18,20,22,24,26,28,30,32,34,36,38,40,42,44,46,48".toList

/-- A list of sixty-nine characters is read from an array that holds sixty of them. -/
theorem doResolv_reads_behind_replace :
    ¬ ∀ (bytes : List Char) (tpl : Tpl) (line : List Char) (st : Content) (stack : Work),
      cfgOpenOnline true (some bytes) true = some tpl → line ∈ tpl.lines →
        ∀ e ∈ (convertLine printText st tpl stack line).1, e.Safe := by
  intro h
  let tpl : Tpl := ⟨[⟨.lstass, "%s".toList⟩], ["$LSTASS:".toList], []⟩
  let st : Content := { Content.zero with cpuassigned := some evenCpus }
  let stack : Work := ⟨List.replicate workSize ' ', List.length_replicate⟩
  have hopen : cfgOpenOnline true (some lstassTemplate) true = some tpl := by decide
  obtain ⟨work, hwork, hconvert⟩ := convertLine_eq printText st tpl stack "$LSTASS:".toList
  have htext : work.text 0 = "$LSTASS:".toList := hwork.text (by decide)
  have hname : lookup (varName (work.text 0)) = some .lstass := by
    rw [htext]
    decide
  have hkey : '$' ∈ work.text 0 := by
    rw [htext]
    decide
  have hptr : 0 + ((work.text 0).takeWhile (· ≠ '$')).length = 0 := by
    rw [htext]
    decide
  let e : Execution := ⟨work, 0, (varName (work.text 0)).length + 2, evenCpus⟩
  have hcall : e ∈ (adjusting printText st tpl 0 work).1 := by
    have hvar : tpl.variable .lstass = some ⟨.lstass, "%s".toList⟩ := rfl
    rw [adjusting_declared hname hvar rfl]
    exact List.mem_singleton.mpr rfl
  have he : e ∈ (convertLine printText st tpl stack "$LSTASS:".toList).1 := by
    rw [hconvert]
    refine mem_adjustKeys hkey ?_
    rwa [hptr]
  have hsafe := h lstassTemplate tpl _ st stack hopen (List.mem_singleton_self _) e he
  rcases (safe_iff_fits hwork.ended).mp hsafe with hnil | ⟨hlen, -⟩
  · exact absurd (show evenCpus = [] from hnil) (by decide)
  · exact absurd (show evenCpus.length ≤ 60 from hlen) (by decide)

end Vzgot.Online
