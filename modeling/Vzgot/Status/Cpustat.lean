import Mathlib.Data.List.Perm.Basic
import Vzgot.Library.Pieces
import Vzgot.Library.Scanf
import Vzgot.Status.Update

/-!
# CPU statistics

`sys_get_cpustat` (`lib/utlsys.c`) takes three values out of the file `cpu.stat` of a control
group and the total of the line `some` out of its file `cpu.pressure`. What it stores is a
list of stores, in their order (`sysGetCpustat`).

Whatever the order of the lines, the three values are stored when the file has fewer lines
than the procedure has room for; with as many as that nothing is. The result is set before
the file `cpu.pressure` is read, and says nothing about it (`sysGetCpustat_extracts_iff`).
-/

set_option autoImplicit false

namespace Vzgot.Status

open Vzgot.Stdio Vzgot.Pieces

/-! ## The procedure -/

/-- `CPUINF` with all of its fields. -/
structure CpuCounters extends CpuInf where
  throttled : UVlong
  nrThrottled : BitVec 32

/-- The value of a field of `CPUINF`. -/
inductive Store where
  | usage (v : UVlong)
  | nrThrottled (v : BitVec 32)
  | throttled (v : UVlong)
  | pressure (v : UVlong)
  deriving DecidableEq

/-- The record after a store. -/
def CpuCounters.put (c : CpuCounters) : Store → CpuCounters
  | .usage v => { c with usage := v }
  | .nrThrottled v => { c with nrThrottled := v }
  | .throttled v => { c with throttled := v }
  | .pressure v => { c with pressure := v }

/-- The files of a control group, when they can be opened. -/
structure CpuFiles where
  cpuStat : Option (List Char)
  cpuPressure : Option (List Char)

/-- `CPTS` -/
def cpts : Nat := 15

/-- `sscanf(lines[i],"%49[^ ] %llu",keys[i],&(values[i]))`, when it converts both. -/
def scanStat (line : List Char) : Option (List Char × UVlong) :=
  (scanUntil 49 ' ' (cstr line)).bind fun key =>
    (scanUlong (skipSpace key.2)).map fun value => (key.1, value.1)

/-- The store that belongs to a key of `vocstat`. -/
def vocstat (key : List Char) (value : UVlong) : Option Store :=
  if key = "usage_usec".toList then some (.usage value)
  else if key = "nr_throttled".toList then some (.nrThrottled (value.setWidth 32))
  else if key = "throttled_usec".toList then some (.throttled value)
  else none

/-- Phase 3 from a line on, with the number of values found so far: whether all of them have
been, and the stores. -/
def storeLoop : Nat → List (List Char × List Char × UVlong) → Bool × List Store
  | _, [] => (false, [])
  | count, (line, key, value) :: rest =>
      if line.head? = some '\x00' then (false, [])
      else
        let found := (vocstat key value).toList
        let count := count + found.length
        if count = 3 then (true, found)
        else
          let r := storeLoop count rest
          (r.1, found ++ r.2)

/-- `sscanf(lines[0],PRESFMT,&(cpuinf->pressure))` -/
def scanPressure (line : List Char) : Option UVlong :=
  (scanLit "some".toList line).bind fun s =>
    (scanLit "avg10=".toList (skipSpace s)).bind fun s =>
      (skipFloat s).bind fun s =>
        (scanLit "avg60=".toList (skipSpace s)).bind fun s =>
          (skipFloat s).bind fun s =>
            (scanLit "avg300=".toList (skipSpace s)).bind fun s =>
              (skipFloat s).bind fun s =>
                (scanLit "total=".toList (skipSpace s)).bind fun s =>
                  (scanUlong s).map Prod.fst

/-- Phase 5: the total of the first line that begins with `some`. -/
def readPressure (text : List Char) : Option UVlong :=
  ((piecesOf 99 text).find? fun line => "some".toList.isPrefixOf (cstr line)).bind fun line =>
    scanPressure (cstr line)

/-- `sys_get_cpustat`: its result, and what it stores. -/
def sysGetCpustat (files : CpuFiles) : Bool × List Store :=
  match files.cpuStat with
  | none => (false, [])
  | some text =>
      let lines := (piecesOf 99 text).take cpts
      -- `lines` is full: the file counts as too large
      if cpts ≤ lines.length then (false, [])
      else
        match lines.mapM fun line => (scanStat line).map (line, ·) with
        | none => (false, [])
        | some values =>
            let r := storeLoop 0 values
            (r.1, r.2 ++ ((files.cpuPressure.bind readPressure).map Store.pressure).toList)

/-! ## Well-formed files -/

/-- A line `key value` of `cpu.stat`, without its newline. -/
structure Stat where
  key : List Char
  digits : List Char
  key_ne : key ≠ []
  plain : ∀ c ∈ key, c ≠ ' ' ∧ c ≠ '\n' ∧ c ≠ '\x00'
  key_short : key.length < 50
  digits_ne : digits ≠ []
  decimal : ∀ c ∈ digits, c.isDigit
  value_lt : Nat.ofDigitChars 10 digits 0 < 2 ^ 64
  short : key.length + 1 + digits.length < 99

namespace Stat

def text (s : Stat) : List Char := s.key ++ ' ' :: s.digits

def value (s : Stat) : UVlong := BitVec.ofNat 64 (Nat.ofDigitChars 10 s.digits 0)

end Stat

/-- The lines with their newlines; the last one may have none. -/
def statLines (closed : Bool) : List Stat → List (List Char)
  | [] => []
  | [s] => [s.text ++ if closed then ['\n'] else []]
  | s :: t :: ss => (s.text ++ ['\n']) :: statLines closed (t :: ss)

/-- A file `cpu.stat`: at most `cpts` lines, with the three keys once each. -/
structure StatFile where
  stats : List Stat
  closed : Bool
  few : stats.length ≤ cpts
  once : ∀ k ∈ ["usage_usec".toList, "nr_throttled".toList, "throttled_usec".toList],
    (stats.filter fun s => s.key = k).length = 1

namespace StatFile

def text (f : StatFile) : List Char := (statLines f.closed f.stats).flatten

/-- The value beside a key. -/
def value (f : StatFile) (k : List Char) : UVlong :=
  ((f.stats.find? fun s => s.key = k).map Stat.value).getD 0

/-- The three values, as they are to be stored. -/
def wanted (f : StatFile) : List Store :=
  [.usage (f.value "usage_usec".toList),
   .nrThrottled ((f.value "nr_throttled".toList).setWidth 32),
   .throttled (f.value "throttled_usec".toList)]

end StatFile

def Store.isPressure : Store → Bool
  | .pressure _ => true
  | _ => false

/-- Of `cpu.stat` the three values have been stored, each once, and nothing else. -/
def Extracted (f : StatFile) (stores : List Store) : Prop :=
  (stores.filter fun s => !s.isPressure).Perm f.wanted

/-! ## Reading the lines -/

section Line

variable (s : Stat)

theorem Stat.newline_not_mem : '\n' ∉ s.text := by
  rw [text, List.mem_append, List.mem_cons]
  rintro (h | h | h)
  · exact (s.plain _ h).2.1 rfl
  · exact absurd h (by decide)
  · exact absurd (s.decimal _ h) (by decide)

theorem Stat.nul_not_mem : '\x00' ∉ s.text := by
  rw [text, List.mem_append, List.mem_cons]
  rintro (h | h | h)
  · exact (s.plain _ h).2.2 rfl
  · exact absurd h (by decide)
  · exact absurd (s.decimal _ h) (by decide)

theorem Stat.length_text : s.text.length = s.key.length + 1 + s.digits.length := by
  rw [text, List.length_append, List.length_cons]
  omega

theorem Stat.text_ne_nil : s.text ≠ [] :=
  List.append_ne_nil_of_left_ne_nil s.key_ne _

/-- The format reads the line, with or without its newline. -/
theorem scanStat_text {nl : List Char} (hnl : nl = [] ∨ nl = ['\n']) :
    scanStat (s.text ++ nl) = some (s.key, s.value) := by
  have hnul : '\x00' ∉ s.text ++ nl := by
    rw [List.mem_append, not_or]
    refine ⟨s.nul_not_mem, ?_⟩
    rcases hnl with rfl | rfl <;> decide
  have hrest : ∀ c ∈ nl.head?, ¬ c.isDigit := by
    rcases hnl with rfl | rfl <;> simp
  have htext : s.text ++ nl = s.key ++ ' ' :: (s.digits ++ nl) := by
    rw [Stat.text, List.append_assoc, List.cons_append]
  have hkey : scanUntil 49 ' ' (s.text ++ nl) = some (s.key, ' ' :: (s.digits ++ nl)) := by
    rw [htext]
    exact scanUntil_append s.key_ne (fun h => (s.plain _ h).1 rfl) (Nat.le_of_lt_succ s.key_short) _
  have hspace : skipSpace (' ' :: (s.digits ++ nl)) = s.digits ++ nl := by
    obtain ⟨d, ds, hds⟩ := List.exists_cons_of_ne_nil s.digits_ne
    have hd : d.isDigit := s.decimal d (hds ▸ List.mem_cons_self)
    rw [hds]
    exact skipSpace_of_not (isSpace_of_isDigit hd) _
  rw [scanStat, cstr_of_not_mem hnul, hkey]
  simp only [Option.bind_some, hspace, scanUlong_append s.decimal hrest s.digits_ne s.value_lt,
    Option.map_some, Stat.value]

end Line

theorem mem_statLines {closed : Bool} {ss : List Stat} {l : List Char}
    (h : l ∈ statLines closed ss) :
    ∃ s ∈ ss, ∃ nl, (nl = [] ∨ nl = ['\n']) ∧ l = s.text ++ nl := by
  induction ss using statLines.induct with
  | case1 => cases h
  | case2 s =>
      refine ⟨s, List.mem_cons_self, _, ?_, List.mem_singleton.mp h⟩
      cases closed
      · exact Or.inl rfl
      · exact Or.inr rfl
  | case3 s t ss ih =>
      rcases List.mem_cons.mp h with rfl | h
      · exact ⟨s, List.mem_cons_self, ['\n'], Or.inr rfl, rfl⟩
      · obtain ⟨u, hu, hl⟩ := ih h
        exact ⟨u, List.mem_cons_of_mem s hu, hl⟩

theorem length_statLines (closed : Bool) (ss : List Stat) :
    (statLines closed ss).length = ss.length := by
  induction ss using statLines.induct with
  | case1 => rfl
  | case2 s => rfl
  | case3 s t ss ih => rw [statLines, List.length_cons, ih, List.length_cons (a := s)]

/-- The pieces that are read are the lines. -/
theorem piecesOf_statLines (closed : Bool) (ss : List Stat) :
    piecesOf 99 (statLines closed ss).flatten = statLines closed ss := by
  have hshort : ∀ s : Stat, s.text.length < 99 := fun s => s.length_text ▸ s.short
  induction ss using statLines.induct with
  | case1 => exact piecesOf_nil
  | case2 s =>
      rw [statLines, List.flatten_singleton]
      cases closed with
      | false =>
          rw [if_neg Bool.false_ne_true, List.append_nil]
          exact piecesOf_last (by decide) s.text_ne_nil s.newline_not_mem (hshort s).le
      | true =>
          rw [if_pos rfl, piecesOf_line (by decide) s.newline_not_mem (hshort s), piecesOf_nil]
  | case3 s t ss ih =>
      rw [statLines, List.flatten_cons, List.append_assoc, List.singleton_append,
        piecesOf_line (by decide) s.newline_not_mem (hshort s), ih]

/-- Phase 2 on the lines. -/
theorem mapM_statLines (closed : Bool) (ss : List Stat) :
    ((statLines closed ss).mapM fun line => (scanStat line).map (line, ·)) =
      some (((statLines closed ss).zip ss).map fun p => (p.1, p.2.key, p.2.value)) := by
  induction ss using statLines.induct with
  | case1 => rfl
  | case2 s =>
      have hnl : (if closed then ['\n'] else []) = [] ∨ (if closed then ['\n'] else []) = ['\n'] := by
        cases closed <;> simp
      rw [statLines, List.mapM_cons, scanStat_text s hnl]
      rfl
  | case3 s t ss ih =>
      rw [statLines, List.mapM_cons, scanStat_text s (Or.inr rfl), ih]
      rfl

/-! ## Storing the values -/

/-- The stores that belong to the lines. -/
def found (ss : List Stat) : List Store := ss.filterMap fun s => vocstat s.key s.value

theorem found_cons (s : Stat) (ss : List Stat) :
    found (s :: ss) = (vocstat s.key s.value).toList ++ found ss := by
  rw [found, List.filterMap_cons, found]
  cases vocstat s.key s.value <;> rfl

/-- As long as the count stays below three, phase 3 goes through the lines. -/
theorem storeLoop_eq {values : List (List Char × Stat)}
    (hline : ∀ p ∈ values, p.1.head? ≠ some '\x00') {count : Nat}
    (hcount : count + (found (values.map Prod.snd)).length = 3) (hlt : count < 3) :
    storeLoop count (values.map fun p => (p.1, p.2.key, p.2.value)) =
      (true, found (values.map Prod.snd)) := by
  induction values generalizing count with
  | nil => exact absurd hcount (by simp [found]; omega)
  | cons p values ih =>
      rw [List.forall_mem_cons] at hline
      rw [List.map_cons, found_cons, List.length_append] at hcount
      rw [List.map_cons, List.map_cons, storeLoop, if_neg hline.1, found_cons]
      have hone : (vocstat p.2.key p.2.value).toList.length ≤ 1 := Option.length_toList_le
      by_cases hthree : count + (vocstat p.2.key p.2.value).toList.length = 3
      · have hnone : found (values.map Prod.snd) = [] := List.length_eq_zero_iff.mp (by omega)
        simp only [if_pos hthree, hnone, List.append_nil]
      · have hcount' : count + (vocstat p.2.key p.2.value).toList.length +
            (found (values.map Prod.snd)).length = 3 := by omega
        have hrest := ih hline.2 hcount' (by omega)
        simp only [if_neg hthree, hrest]

theorem length_vocstat (key : List Char) (value : UVlong) :
    (vocstat key value).toList.length =
      (if key = "usage_usec".toList then 1 else 0) +
        (if key = "nr_throttled".toList then 1 else 0) +
          if key = "throttled_usec".toList then 1 else 0 := by
  have hnr : "usage_usec".toList ≠ "nr_throttled".toList := by decide
  have hthrottled : "usage_usec".toList ≠ "throttled_usec".toList := by decide
  have hnr' : "nr_throttled".toList ≠ "throttled_usec".toList := by decide
  unfold vocstat
  by_cases hkey : key = "usage_usec".toList
  · rw [← hkey] at hnr hthrottled
    rw [if_pos hkey, if_pos hkey, if_neg hnr, if_neg hthrottled]
    rfl
  · rw [if_neg hkey, if_neg hkey]
    by_cases hkey' : key = "nr_throttled".toList
    · rw [← hkey'] at hnr'
      rw [if_pos hkey', if_pos hkey', if_neg hnr']
      rfl
    · rw [if_neg hkey', if_neg hkey']
      split <;> rfl

/-- One store for each of the keys. -/
theorem length_found (ss : List Stat) :
    (found ss).length =
      (ss.filter fun s => s.key = "usage_usec".toList).length +
        (ss.filter fun s => s.key = "nr_throttled".toList).length +
          (ss.filter fun s => s.key = "throttled_usec".toList).length := by
  simp only [← List.countP_eq_length_filter]
  induction ss with
  | nil => rfl
  | cons s ss ih =>
      rw [found_cons, List.length_append, ih, length_vocstat]
      simp only [List.countP_cons, decide_eq_true_iff]
      omega

namespace StatFile

variable (f : StatFile)

theorem length_found : (found f.stats).length = 3 := by
  rw [Status.length_found, f.once _ (by simp), f.once _ (by simp), f.once _ (by simp)]

/-- The line of a key. -/
theorem exists_stat {k : List Char}
    (hk : k ∈ ["usage_usec".toList, "nr_throttled".toList, "throttled_usec".toList]) :
    ∃ s ∈ f.stats, s.key = k ∧ s.value = f.value k := by
  cases hfind : f.stats.find? fun s => s.key = k with
  | none =>
      have hempty : (f.stats.filter fun s => s.key = k) = [] := by
        rw [List.filter_eq_nil_iff]
        exact List.find?_eq_none.mp hfind
      exact absurd (f.once k hk) (by rw [hempty]; decide)
  | some s =>
      refine ⟨s, List.mem_of_find?_eq_some hfind, ?_, ?_⟩
      · simpa using List.find?_some hfind
      · rw [value, hfind]
        rfl

/-- The order of the lines does not count. -/
theorem wanted_eq_of_perm {f g : StatFile} (h : f.stats.Perm g.stats) : f.wanted = g.wanted := by
  have hvalue : ∀ k ∈ ["usage_usec".toList, "nr_throttled".toList, "throttled_usec".toList],
      f.value k = g.value k := by
    intro k hk
    obtain ⟨s, hs, hskey, hsvalue⟩ := f.exists_stat hk
    obtain ⟨t, ht, htkey, htvalue⟩ := g.exists_stat hk
    obtain ⟨u, hu⟩ := List.length_eq_one_iff.mp (f.once k hk)
    have hsu : s ∈ f.stats.filter fun s => s.key = k := by simp [hs, hskey]
    have htu : t ∈ f.stats.filter fun s => s.key = k := by simp [h.mem_iff.mpr ht, htkey]
    rw [hu, List.mem_singleton] at hsu htu
    rw [← hsvalue, ← htvalue, hsu, htu]
  rw [wanted, wanted, hvalue _ (by simp), hvalue _ (by simp), hvalue _ (by simp)]

theorem mem_found {k : List Char} {v : Store}
    (hk : k ∈ ["usage_usec".toList, "nr_throttled".toList, "throttled_usec".toList])
    (hv : vocstat k (f.value k) = some v) : v ∈ found f.stats := by
  obtain ⟨s, hs, hkey, hvalue⟩ := f.exists_stat hk
  refine List.mem_filterMap.mpr ⟨s, hs, ?_⟩
  rw [hkey, hvalue, hv]

/-- What is found is what is wanted, in the order of the lines. -/
theorem found_perm : (found f.stats).Perm f.wanted := by
  have hsubset : f.wanted ⊆ found f.stats := by
    intro v hv
    simp only [wanted, List.mem_cons, List.not_mem_nil, or_false] at hv
    rcases hv with rfl | rfl | rfl
    · exact f.mem_found (k := "usage_usec".toList) (by simp) rfl
    · exact f.mem_found (k := "nr_throttled".toList) (by simp) rfl
    · exact f.mem_found (k := "throttled_usec".toList) (by simp) rfl
  have hnodup : f.wanted.Nodup := by simp [wanted]
  have hlen : (found f.stats).length ≤ f.wanted.length := f.length_found.le
  exact ((List.subperm_of_subset hnodup hsubset).perm_of_length_le hlen).symm

end StatFile

theorem isPressure_of_mem_found {ss : List Stat} {v : Store} (hv : v ∈ found ss) :
    v.isPressure = false := by
  obtain ⟨s, -, hs⟩ := List.mem_filterMap.mp hv
  unfold vocstat at hs
  split at hs
  · cases hs; rfl
  · split at hs
    · cases hs; rfl
    · split at hs
      · cases hs; rfl
      · cases hs

/-! ## The pressure file -/

/-- Digits with a fraction. -/
structure Decimal where
  whole : List Char
  frac : List Char
  whole_ne : whole ≠ []
  digits : (∀ c ∈ whole, c.isDigit) ∧ ∀ c ∈ frac, c.isDigit

def Decimal.text (d : Decimal) : List Char := d.whole ++ '.' :: d.frac

/-- A line of a pressure file, up to its total. -/
def psiLine (avg10 avg60 avg300 : Decimal) (total : List Char) : List Char :=
  "some".toList ++ ' ' :: ("avg10=".toList ++ (avg10.text ++ ' ' :: ("avg60=".toList ++
    (avg60.text ++ ' ' :: ("avg300=".toList ++ (avg300.text ++ ' ' :: ("total=".toList ++ total)))))))

theorem skipFloat_decimal (d : Decimal) (rest : List Char) :
    skipFloat (d.text ++ ' ' :: rest) = some (' ' :: rest) := by
  rw [Decimal.text, List.append_assoc, List.cons_append]
  refine skipFloat_append d.whole_ne d.digits.1 d.digits.2 ?_
  intro c hc
  obtain rfl := Option.some.inj hc
  decide

/-- A word of the format behind a blank. -/
theorem scanLit_blank (lit s : List Char) (hlit : lit.head?.map isSpace = some false) :
    scanLit lit (skipSpace (' ' :: (lit ++ s))) = some s := by
  obtain ⟨c, hc, hspace⟩ := Option.map_eq_some_iff.mp hlit
  obtain ⟨cs, rfl⟩ := List.head?_eq_some_iff.mp hc
  have hskip : skipSpace (' ' :: (c :: cs ++ s)) = c :: cs ++ s := skipSpace_of_not hspace (cs ++ s)
  rw [hskip, scanLit_append]

/-- The format of the code reads the line, whatever its averages. -/
theorem scanPressure_psiLine (avg10 avg60 avg300 : Decimal) {total rest : List Char}
    (hne : total ≠ []) (htotal : ∀ c ∈ total, c.isDigit) (hrest : ∀ c ∈ rest.head?, ¬ c.isDigit)
    (hlt : Nat.ofDigitChars 10 total 0 < 2 ^ 64) :
    scanPressure (psiLine avg10 avg60 avg300 (total ++ rest)) =
      some (BitVec.ofNat 64 (Nat.ofDigitChars 10 total 0)) := by
  have h10 := fun s => scanLit_blank "avg10=".toList s rfl
  have h60 := fun s => scanLit_blank "avg60=".toList s rfl
  have h300 := fun s => scanLit_blank "avg300=".toList s rfl
  have htot := fun s => scanLit_blank "total=".toList s rfl
  rw [scanPressure, psiLine, scanLit_append]
  simp only [Option.bind_some, h10, h60, h300, htot, skipFloat_decimal,
    scanUlong_append htotal hrest hne hlt, Option.map_some]

/-! ## The result -/

section Result

variable (f : StatFile) (cpuPressure : Option (List Char))

/-- A full array: nothing is stored. -/
theorem sysGetCpustat_full (hfull : f.stats.length = cpts) :
    sysGetCpustat ⟨some f.text, cpuPressure⟩ = (false, []) := by
  have hlines : ((piecesOf 99 f.text).take cpts).length = cpts := by
    rw [StatFile.text, piecesOf_statLines, List.length_take, length_statLines, hfull, Nat.min_self]
  rw [sysGetCpustat]
  simp only [hlines, le_refl, if_true]

/-- A line less: what is found is stored, and the total of the other file if it is read. -/
theorem sysGetCpustat_eq (hless : f.stats.length < cpts) :
    sysGetCpustat ⟨some f.text, cpuPressure⟩ =
      (true, found f.stats ++ ((cpuPressure.bind readPressure).map Store.pressure).toList) := by
  have hlen := length_statLines f.closed f.stats
  have hlines : (piecesOf 99 f.text).take cpts = statLines f.closed f.stats := by
    rw [StatFile.text, piecesOf_statLines, List.take_of_length_le (hlen.le.trans hless.le)]
  have hsnd : ((statLines f.closed f.stats).zip f.stats).map Prod.snd = f.stats :=
    List.map_snd_zip hlen.ge
  have hloop : storeLoop 0 (((statLines f.closed f.stats).zip f.stats).map
      fun p => (p.1, p.2.key, p.2.value)) = (true, found f.stats) := by
    have hline : ∀ p ∈ (statLines f.closed f.stats).zip f.stats, p.1.head? ≠ some '\x00' := by
      intro p hp
      obtain ⟨s, -, nl, -, hl⟩ := mem_statLines (List.of_mem_zip (a := p.1) (b := p.2) hp).1
      rw [hl, List.head?_append_of_ne_nil _ s.text_ne_nil]
      exact fun h => s.nul_not_mem (List.mem_of_mem_head? h)
    have hthree : 0 + (found (((statLines f.closed f.stats).zip f.stats).map Prod.snd)).length = 3 := by
      rw [hsnd, f.length_found]
    rw [storeLoop_eq hline hthree (by decide), hsnd]
  rw [sysGetCpustat]
  simp only [hlines, if_neg (Nat.not_le.mpr (hlen ▸ hless)), mapM_statLines, hloop]

end Result

/-- What the record comes to, with a line less than the array has room for. -/
theorem foldl_put_sysGetCpustat (f : StatFile) (cpuPressure : Option (List Char))
    (hless : f.stats.length < cpts) (c : CpuCounters) :
    (sysGetCpustat ⟨some f.text, cpuPressure⟩).2.foldl CpuCounters.put c =
      { usage := f.value "usage_usec".toList
        pressure := (cpuPressure.bind readPressure).getD c.pressure
        throttled := f.value "throttled_usec".toList
        nrThrottled := (f.value "nr_throttled".toList).setWidth 32 } := by
  have hcomm : ∀ x ∈ f.wanted, ∀ y ∈ f.wanted, ∀ c : CpuCounters,
      (c.put x).put y = (c.put y).put x := by
    simp [StatFile.wanted, CpuCounters.put]
  have hwanted : ∀ c : CpuCounters,
      (found f.stats).foldl CpuCounters.put c = f.wanted.foldl CpuCounters.put c :=
    fun c => (f.found_perm.symm.foldl_eq' hcomm c).symm
  rw [sysGetCpustat_eq f cpuPressure hless, List.foldl_append, hwanted]
  cases cpuPressure.bind readPressure <;> rfl

theorem mem_stores_pressure {ss : List Stat} {read : Option UVlong} :
    (∃ total, Store.pressure total ∈ found ss ++ (read.map Store.pressure).toList) ↔
      ∃ total, read = some total := by
  refine exists_congr fun total => ?_
  rw [List.mem_append]
  constructor
  · rintro (h | h)
    · have hfalse : true = false := isPressure_of_mem_found h
      exact Bool.noConfusion hfalse
    · obtain ⟨v, hv, heq⟩ := Option.map_eq_some_iff.mp (Option.mem_toList.mp h)
      rw [hv, Store.pressure.inj heq]
  · rintro rfl
    exact Or.inr List.mem_cons_self

theorem extracted_found (f : StatFile) (read : Option UVlong) :
    Extracted f (found f.stats ++ (read.map Store.pressure).toList) := by
  have hstat : ((found f.stats).filter fun s => !s.isPressure) = found f.stats := by
    rw [List.filter_eq_self]
    intro v hv
    rw [isPressure_of_mem_found hv]
    rfl
  have hpressure : ((read.map Store.pressure).toList.filter fun s => !s.isPressure) = [] := by
    cases read <;> rfl
  rw [Extracted, List.filter_append, hstat, hpressure, List.append_nil]
  exact f.found_perm

/-- The three values are stored and the result says whether these and the total of the line
`some` have been, exactly when the file has fewer lines than the array and the total can be
read. -/
theorem sysGetCpustat_extracts_iff (f : StatFile) (cpuPressure : Option (List Char)) :
    (Extracted f (sysGetCpustat ⟨some f.text, cpuPressure⟩).2 ∧
        ((sysGetCpustat ⟨some f.text, cpuPressure⟩).1 = true ↔
          Extracted f (sysGetCpustat ⟨some f.text, cpuPressure⟩).2 ∧
            ∃ total, Store.pressure total ∈ (sysGetCpustat ⟨some f.text, cpuPressure⟩).2)) ↔
      f.stats.length < cpts ∧ ∃ total, cpuPressure.bind readPressure = some total := by
  rcases f.few.lt_or_eq with hless | hfull
  · have hextracted := extracted_found f (cpuPressure.bind readPressure)
    rw [sysGetCpustat_eq f cpuPressure hless, and_iff_right hextracted, and_iff_right hextracted,
      mem_stores_pressure, and_iff_right hless]
    exact ⟨fun h => h.mp rfl, fun h => ⟨fun _ => h, fun _ => rfl⟩⟩
  · have hnone : ¬ Extracted f [] := fun h => absurd h.length_eq (by simp [StatFile.wanted])
    rw [sysGetCpustat_full f cpuPressure hfull]
    exact iff_of_false (fun h => hnone h.1) fun h => absurd hfull h.1.ne

/-- The characters of a word that is known are checked one by one. -/
theorem forall_mem_of_all {p : Char → Prop} [DecidablePred p] {s : List Char}
    (h : (s.all fun c => decide (p c)) = true) : ∀ c ∈ s, p c :=
  fun c hc => of_decide_eq_true (List.all_eq_true.mp h c hc)

/-- A file with the lines that a kernel writes. -/
def kernelFile : StatFile where
  stats :=
    [⟨"usage_usec".toList, "1200".toList, by decide, forall_mem_of_all (by decide), by decide,
        by decide, forall_mem_of_all (by decide), by decide, by decide⟩,
     ⟨"user_usec".toList, "700".toList, by decide, forall_mem_of_all (by decide), by decide,
        by decide, forall_mem_of_all (by decide), by decide, by decide⟩,
     ⟨"nr_throttled".toList, "3".toList, by decide, forall_mem_of_all (by decide), by decide,
        by decide, forall_mem_of_all (by decide), by decide, by decide⟩,
     ⟨"throttled_usec".toList, "40".toList, by decide, forall_mem_of_all (by decide), by decide,
        by decide, forall_mem_of_all (by decide), by decide, by decide⟩]
  closed := true
  few := by decide
  once := by decide

/-- Without a pressure file the result is true all the same. -/
theorem sysGetCpustat_no_pressure :
    (sysGetCpustat ⟨some kernelFile.text, none⟩).1 = true ∧
      ¬ ∃ total, Store.pressure total ∈ (sysGetCpustat ⟨some kernelFile.text, none⟩).2 := by
  have hresult : sysGetCpustat ⟨some kernelFile.text, none⟩ =
      (true, [.usage 1200, .nrThrottled 3, .throttled 40]) := by decide
  rw [hresult]
  simp

end Vzgot.Status
