import Mathlib.Data.List.Find
import Vzgot.Config.Getstr
import Vzgot.Library.Scanf

/-!
# The monitoring process

`cnt_get_monitoring_pid` (`lib/unicnt.c`) looks for the process that is number 2 in the
container: it goes through the children of the container process and reads the status file
of each up to the line `NSpid:`. Its result is the variable that the children are read into.

It returns the number of a child whose status file cannot be opened, and behind an empty
status file it looks at an array that has not been written (`garbage`). Both happen to
children that end meanwhile. `cntGetMonitoringPid_iff` says which children it judges right.
-/

set_option autoImplicit false

namespace Vzgot.Attend

open Vzgot.Stdio Vzgot.Pieces Vzgot.Getstr

/-! ## The procedure -/

/-- `MONPID` -/
def monpid : Int := 2

/-- `sscanf(line,"NSpid:\t%d\t%d",&h_pid,&ns_pid)`: the second number, when both are read. -/
def scanNspid (line : List Char) : Option Int :=
  (scanLit "NSpid:".toList line).bind fun s =>
    (scanInteger (skipSpace s)).bind fun h =>
      (scanInteger (skipSpace h.2)).map Prod.fst

/-- The string in the array `line` behind the loop over the pieces of a status file, with
what it has been before. -/
def readStatus : List Char → List (List Char) → List Char
  | line, [] => line
  | _, piece :: pieces =>
      if "NSpid:".toList.isPrefixOf (cstr piece) then cstr piece else readStatus [] pieces

/-- What the code takes for the monitoring process. -/
def isMonitoring (line : List Char) : Bool := line ≠ [] && scanNspid line = some monpid

/-- The loop over the children, with the number of its turn. -/
def childLoop (status : Int → Option (List Char)) (garbage : Nat → List Char) : Nat → List Int → Int
  | _, [] => 0
  | turn, mpid :: rest =>
      match status mpid with
      -- the loop ends with `mpid` as it has been read
      | none => mpid
      | some text =>
          if isMonitoring (readStatus (garbage turn) (piecesOf 255 text)) then mpid
          else childLoop status garbage (turn + 1) rest

/-- The numbers that `fscanf(cfile,"%d",&mpid)` reads, call after call. -/
def scanChildren : Nat → List Char → List Int
  | 0, _ => []
  | fuel + 1, text =>
      match scanInteger text with
      | none => []
      | some (mpid, rest) => mpid :: scanChildren fuel rest

/-- `cnt_get_monitoring_pid`; `garbage turn` is the string that the array `line` holds when the
turn begins. -/
def cntGetMonitoringPid (children : Option (List Char)) (status : Int → Option (List Char))
    (garbage : Nat → List Char) : Int :=
  match children with
  | none => 0
  | some text => childLoop status garbage 0 (scanChildren text.length text)

/-! ## The monitoring process -/

/-- The file of the children, as the kernel writes it. -/
def childrenText (children : List Nat) : List Char :=
  children.flatMap fun pid => Nat.toDigits 10 pid ++ [' ']

/-- The file has a line `NSpid:` whose second number is 2. -/
def IsMonitor (text : List Char) : Prop := ∃ l ∈ fileLines text, scanNspid l = some monpid

instance (text : List Char) : Decidable (IsMonitor text) :=
  inferInstanceAs (Decidable (∃ l ∈ fileLines text, scanNspid l = some monpid))

/-- The child has a readable status file with such a line. -/
def Monitors (status : Int → Option (List Char)) (pid : Nat) : Prop :=
  ∃ text ∈ status pid, IsMonitor text

instance (status : Int → Option (List Char)) (pid : Nat) : Decidable (Monitors status pid) :=
  inferInstanceAs (Decidable (∃ text ∈ status pid, IsMonitor text))

/-- The first child that does, or 0. -/
def monitorOf (status : Int → Option (List Char)) (children : List Nat) : Nat :=
  (children.find? fun pid => Monitors status pid).getD 0

/-- What the code finds in a status file that is not empty. -/
def Found (text : List Char) : Prop := isMonitoring (readStatus [] (piecesOf 255 text)) = true

/-- The status file of a child can be opened and read, and its first piece that begins with
`NSpid:` has the second number 2 exactly when one of its lines has. -/
def Judged (status : Int → Option (List Char)) (pid : Nat) : Prop :=
  ∃ text, status pid = some text ∧ text ≠ [] ∧ (Found text ↔ IsMonitor text)

/-- The children up to the monitoring process are judged right. -/
def Clear (status : Int → Option (List Char)) (children : List Nat) : Prop :=
  ∀ pre pid post, children = pre ++ pid :: post → (∀ q ∈ pre, ¬ Monitors status q) → Judged status pid

/-! ## Reading the files -/

theorem scanInteger_blank (s : List Char) : scanInteger (' ' :: s) = scanInteger s := rfl

theorem scanInteger_toDigits (pid : Nat) (rest : List Char) :
    scanInteger (Nat.toDigits 10 pid ++ ' ' :: rest) = some ((pid : Int), ' ' :: rest) := by
  have hblank : ∀ c ∈ (' ' :: rest).head?, ¬ c.isDigit := by
    intro c hc
    obtain rfl := Option.some.inj hc
    decide
  have hdigits : ∀ c ∈ Nat.toDigits 10 pid, c.isDigit := fun _ => isDigit_of_mem_toDigits
  have hscan := scanInteger_append hdigits hblank Nat.toDigits_ne_nil
  rwa [Nat.ofDigitChars_ten_toDigits] at hscan

/-- All children are read; the blank that is left in front of a number is passed over. -/
theorem scanChildren_blank (children : List Nat) {fuel : Nat} (hfuel : children.length ≤ fuel) :
    scanChildren fuel (' ' :: childrenText children) = children.map Int.ofNat := by
  induction children generalizing fuel with
  | nil => cases fuel <;> rfl
  | cons pid children ih =>
      obtain ⟨fuel, rfl⟩ : ∃ k, fuel = k + 1 := ⟨fuel - 1, by rw [List.length_cons] at hfuel; omega⟩
      have htext : childrenText (pid :: children) =
          Nat.toDigits 10 pid ++ ' ' :: childrenText children := by
        rw [childrenText, List.flatMap_cons, List.append_assoc]
        rfl
      rw [scanChildren, scanInteger_blank, htext, scanInteger_toDigits]
      exact congrArg _ (ih (Nat.le_of_succ_le_succ hfuel))

theorem length_le_childrenText (children : List Nat) :
    children.length ≤ (childrenText children).length := by
  induction children with
  | nil => exact le_rfl
  | cons pid children ih =>
      rw [childrenText, List.flatMap_cons, ← childrenText, List.length_append, List.length_append,
        List.length_singleton, List.length_cons]
      omega

theorem scanChildren_childrenText (children : List Nat) :
    scanChildren (childrenText children).length (childrenText children) = children.map Int.ofNat := by
  have hlen := length_le_childrenText children
  rw [← scanChildren_blank children hlen]
  generalize (childrenText children).length = fuel
  cases fuel with
  | zero => rfl
  | succ fuel => rw [scanChildren, scanChildren, scanInteger_blank]

/-- What the array was before does not matter when a piece is read. -/
theorem readStatus_of_ne_nil {text : List Char} (hne : text ≠ []) (line : List Char) :
    readStatus line (piecesOf 255 text) = readStatus [] (piecesOf 255 text) := by
  rw [piecesOf_cons (by decide) hne, readStatus, readStatus]

theorem isMonitor_nil : ¬ IsMonitor [] := by
  rintro ⟨l, hl, -⟩
  cases hl

/-! ## The result -/

section Result

variable {status : Int → Option (List Char)}

theorem monitorOf_cons_of_monitors {pid : Nat} (h : Monitors status pid) (rest : List Nat) :
    monitorOf status (pid :: rest) = pid := by
  rw [monitorOf, List.find?_cons_of_pos (by simpa using h), Option.getD_some]

theorem monitorOf_cons_of_not {pid : Nat} (h : ¬ Monitors status pid) (rest : List Nat) :
    monitorOf status (pid :: rest) = monitorOf status rest := by
  rw [monitorOf, List.find?_cons_of_neg (by simpa using h), ← monitorOf]

/-- No other child is the monitoring process. -/
theorem monitorOf_ne {pid : Nat} (hpos : 0 < pid) (h : ¬ Monitors status pid) (children : List Nat) :
    monitorOf status children ≠ pid := by
  rw [monitorOf]
  cases hfind : children.find? fun pid => Monitors status pid with
  | none => exact hpos.ne
  | some q =>
      rintro rfl
      exact h (by simpa using List.find?_some hfind)

section Child

variable {pid : Nat} {text : List Char} (hstatus : status pid = some text)
include hstatus

theorem monitors_iff : Monitors status pid ↔ IsMonitor text := by
  rw [Monitors, hstatus]
  constructor
  · rintro ⟨_, ⟨⟩, h⟩
    exact h
  · intro h
    exact ⟨text, rfl, h⟩

theorem judged_iff : Judged status pid ↔ text ≠ [] ∧ (Found text ↔ IsMonitor text) := by
  rw [Judged, hstatus]
  constructor
  · rintro ⟨_, ⟨⟩, h⟩
    exact h
  · intro h
    exact ⟨text, rfl, h⟩

variable (garbage : Nat → List Char) (turn : Nat) (rest : List Nat)

/-- The turn of a child whose status file is not empty, when the loop ends with it. -/
theorem childLoop_of_found (hne : text ≠ []) (h : Found text) :
    childLoop status garbage turn ((pid :: rest).map Int.ofNat) = pid := by
  have hfound : isMonitoring (readStatus (garbage turn) (piecesOf 255 text)) = true := by
    rw [readStatus_of_ne_nil hne]
    exact h
  have hstatus' : status (Int.ofNat pid) = some text := hstatus
  rw [List.map_cons, childLoop, hstatus']
  exact if_pos hfound

/-- The turn of such a child when the loop goes past it. -/
theorem childLoop_of_not_found (hne : text ≠ []) (h : ¬ Found text) :
    childLoop status garbage turn ((pid :: rest).map Int.ofNat) =
      childLoop status garbage (turn + 1) (rest.map Int.ofNat) := by
  have hpast : ¬ isMonitoring (readStatus (garbage turn) (piecesOf 255 text)) = true := by
    rw [readStatus_of_ne_nil hne]
    exact h
  have hstatus' : status (Int.ofNat pid) = some text := hstatus
  rw [List.map_cons, childLoop, hstatus']
  exact if_neg hpast

end Child

/-- A file that cannot be opened: the loop ends with the child. -/
theorem childLoop_of_none {pid : Nat} (hstatus : status pid = none) (garbage : Nat → List Char)
    (turn : Nat) (rest : List Nat) :
    childLoop status garbage turn ((pid :: rest).map Int.ofNat) = pid := by
  have hstatus' : status (Int.ofNat pid) = none := hstatus
  rw [List.map_cons, childLoop, hstatus']
  rfl

/-- An empty file: the array may hold what makes the loop end with the child. -/
theorem exists_garbage {pid : Nat} (hstatus : status pid = some []) (turn : Nat)
    (rest : List Nat) :
    ∃ garbage, childLoop status garbage turn ((pid :: rest).map Int.ofNat) = pid := by
  have htaken : isMonitoring "NSpid:\t1\t2\n".toList = true := by decide
  have hstatus' : status (Int.ofNat pid) = some [] := hstatus
  refine ⟨fun _ => "NSpid:\t1\t2\n".toList, ?_⟩
  rw [List.map_cons, childLoop, hstatus']
  exact if_pos htaken

/-- The loop does not end with a child that it has been past. -/
theorem childLoop_ne {pid : Nat} (hpos : 0 < pid) {text : List Char} (hstatus : status pid = some text)
    (hne : text ≠ []) (h : ¬ Found text) (garbage : Nat → List Char) (turn : Nat)
    (children : List Nat) : childLoop status garbage turn (children.map Int.ofNat) ≠ pid := by
  induction children generalizing turn with
  | nil =>
      rw [List.map_nil, childLoop]
      omega
  | cons q children ih =>
      by_cases hq : q = pid
      · rw [hq, childLoop_of_not_found hstatus garbage turn children hne h]
        exact ih (turn + 1)
      · -- whatever the loop makes of another child, it ends with that one or goes on
        have hother : (Int.ofNat q) ≠ pid := fun heq => hq (Int.ofNat.inj heq)
        rw [List.map_cons, childLoop]
        split
        · exact hother
        · split
          · exact hother
          · exact ih (turn + 1)

theorem clear_nil : Clear status [] := by
  intro pre pid post h
  exact absurd h.symm (List.append_ne_nil_of_right_ne_nil pre (List.cons_ne_nil pid post))

theorem clear_cons {pid : Nat} {rest : List Nat} :
    Clear status (pid :: rest) ↔ Judged status pid ∧ (¬ Monitors status pid → Clear status rest) := by
  constructor
  · intro h
    refine ⟨h [] pid rest rfl (by simp), fun hpid pre q post hsplit hpre => ?_⟩
    refine h (pid :: pre) q post (by rw [hsplit, List.cons_append]) ?_
    rw [List.forall_mem_cons]
    exact ⟨hpid, hpre⟩
  · rintro ⟨hpid, hrest⟩ pre q post hsplit hpre
    cases pre with
    | nil =>
        obtain ⟨rfl, rfl⟩ := List.cons.inj hsplit
        exact hpid
    | cons r pre =>
        rw [List.cons_append] at hsplit
        obtain ⟨rfl, rfl⟩ := List.cons.inj hsplit
        rw [List.forall_mem_cons] at hpre
        exact hrest hpre.1 pre q post rfl hpre.2

/-- The loop from any turn on, whatever the array holds when it is not written. -/
theorem childLoop_iff {children : List Nat} (hpos : ∀ pid ∈ children, 0 < pid) (turn : Nat) :
    (∀ garbage, childLoop status garbage turn (children.map Int.ofNat) = monitorOf status children) ↔
      Clear status children := by
  induction children generalizing turn with
  | nil => exact iff_of_true (fun _ => rfl) clear_nil
  | cons pid rest ih =>
      rw [List.forall_mem_cons] at hpos
      have hother : ¬ Monitors status pid → (pid : Int) ≠ monitorOf status (pid :: rest) := by
        intro h heq
        rw [monitorOf_cons_of_not h] at heq
        exact monitorOf_ne hpos.1 h rest (Int.ofNat.inj heq).symm
      rw [clear_cons]
      cases hstatus : status pid with
      | none =>
          have hnot : ¬ Monitors status pid := by
            rintro ⟨text, htext, -⟩
            rw [hstatus] at htext
            cases htext
          apply iff_of_false
          · intro h
            apply hother hnot
            rw [← h fun _ => [], childLoop_of_none hstatus]
          · rintro ⟨⟨text, htext, -⟩, -⟩
            rw [hstatus] at htext
            cases htext
      | some text =>
          rw [judged_iff hstatus]
          by_cases hempty : text = []
          · subst hempty
            have hnot : ¬ Monitors status pid := fun h => isMonitor_nil ((monitors_iff hstatus).mp h)
            apply iff_of_false
            · intro h
              obtain ⟨garbage, hgarbage⟩ := exists_garbage hstatus turn rest
              apply hother hnot
              rw [← h garbage, hgarbage]
            · exact fun h => h.1.1 rfl
          · rw [and_iff_right hempty]
            by_cases hfound : Found text
            · simp only [childLoop_of_found hstatus _ _ _ hempty hfound, forall_const]
              by_cases hmonitor : Monitors status pid
              · rw [monitorOf_cons_of_monitors hmonitor]
                have hright := iff_of_true hfound ((monitors_iff hstatus).mp hmonitor)
                exact iff_of_true rfl ⟨hright, fun h => absurd hmonitor h⟩
              · apply iff_of_false (hother hmonitor)
                exact fun h => hmonitor ((monitors_iff hstatus).mpr (h.1.mp hfound))
            · simp only [childLoop_of_not_found hstatus _ _ _ hempty hfound]
              by_cases hmonitor : Monitors status pid
              · -- the loop goes past the monitoring process
                rw [monitorOf_cons_of_monitors hmonitor]
                apply iff_of_false
                · exact fun h => childLoop_ne hpos.1 hstatus hempty hfound _ _ rest (h fun _ => [])
                · exact fun h => hfound (h.1.mpr ((monitors_iff hstatus).mp hmonitor))
              · have hright := iff_of_false hfound fun h => hmonitor ((monitors_iff hstatus).mpr h)
                rw [monitorOf_cons_of_not hmonitor, and_iff_right hright, ih hpos.2]
                exact ⟨fun h _ => h, fun h => h hmonitor⟩

end Result

/-- Whatever the array holds, the result is the first child with a line `NSpid:` whose second
number is 2, or 0, exactly when the children up to that one are judged right. -/
theorem cntGetMonitoringPid_iff {children : List Nat} (hpos : ∀ pid ∈ children, 0 < pid)
    (status : Int → Option (List Char)) :
    (∀ garbage, cntGetMonitoringPid (some (childrenText children)) status garbage =
        monitorOf status children) ↔ Clear status children := by
  rw [← childLoop_iff hpos 0]
  simp only [cntGetMonitoringPid, scanChildren_childrenText]

/-! ## Status files of the kernel -/

/-- A status file without NULs whose lines are shorter than the array `line`, with one line
`NSpid:` at most. -/
structure Regular (text : List Char) : Prop where
  ne_nil : text ≠ []
  plain : '\x00' ∉ text
  short : ∀ l ∈ fileLines text, l.length < 256
  single : ∀ l ∈ fileLines text, ∀ l' ∈ fileLines text,
    "NSpid:".toList.isPrefixOf l → "NSpid:".toList.isPrefixOf l' → l = l'

theorem prefix_of_scanNspid {l : List Char} {n : Int} (h : scanNspid l = some n) :
    "NSpid:".toList.isPrefixOf l := by
  rw [scanNspid, Option.bind_eq_some_iff] at h
  obtain ⟨s, hs, -⟩ := h
  rw [scanLit] at hs
  split at hs
  · assumption
  · cases hs

theorem readStatus_eq (pieces : List (List Char)) :
    readStatus [] pieces =
      ((pieces.find? fun piece => "NSpid:".toList.isPrefixOf (cstr piece)).map cstr).getD [] := by
  induction pieces with
  | nil => rfl
  | cons piece pieces ih =>
      rw [readStatus]
      split
      · rename_i hprefix
        rw [List.find?_cons, hprefix]
        rfl
      · rename_i hprefix
        rw [List.find?_cons, Bool.eq_false_iff.mpr hprefix, ih]

theorem Regular.find_eq {text : List Char} (h : Regular text) :
    (piecesOf 255 text).find? (fun piece => "NSpid:".toList.isPrefixOf (cstr piece)) =
      (fileLines text).find? fun l => "NSpid:".toList.isPrefixOf l := by
  have hplain : ∀ l ∈ fileLines text, cstr l = l := fun l hl =>
    cstr_of_not_mem fun hnul => h.plain (mem_of_mem_fileLines hl hnul)
  rw [piecesOf_eq_fileLines (by decide) fun l hl => Nat.le_of_lt_succ (h.short l hl)]
  exact List.find?_congr fun l hl => by rw [hplain l hl]

/-- The code judges such a file right. -/
theorem Regular.found_iff {text : List Char} (h : Regular text) : Found text ↔ IsMonitor text := by
  rw [Found, readStatus_eq, h.find_eq]
  cases hfind : (fileLines text).find? fun l => "NSpid:".toList.isPrefixOf l with
  | none =>
      refine iff_of_false (by decide) ?_
      rintro ⟨l, hl, hscan⟩
      exact List.find?_eq_none.mp hfind l hl (prefix_of_scanNspid hscan)
  | some l =>
      have hl := List.mem_of_find?_eq_some hfind
      have hcstr : cstr l = l := cstr_of_not_mem fun hnul => h.plain (mem_of_mem_fileLines hl hnul)
      have hprefix : "NSpid:".toList.isPrefixOf l := List.find?_some hfind
      have hne : l ≠ [] := by
        rintro rfl
        exact absurd hprefix (by decide)
      rw [Option.map_some, Option.getD_some, hcstr, isMonitoring]
      simp only [ne_eq, hne, not_false_eq_true, decide_true, Bool.true_and, decide_eq_true_iff]
      constructor
      · exact fun hscan => ⟨l, hl, hscan⟩
      · rintro ⟨l', hl', hscan⟩
        rwa [h.single l hl l' hl' hprefix (prefix_of_scanNspid hscan)]

theorem Regular.judged {text : List Char} (h : Regular text) {status : Int → Option (List Char)}
    {pid : Nat} (hstatus : status pid = some text) : Judged status pid :=
  ⟨text, hstatus, h.ne_nil, h.found_iff⟩

/-- A login shell is number 7 on the host, and the monitoring process number 9. -/
def twoChildren (pid : Int) : Option (List Char) :=
  if pid = 7 then some "Name:\tsh\nNSpid:\t7\t3\n".toList
  else if pid = 9 then some "Name:\tmonitor\nNSpid:\t9\t2\n".toList
  else none

theorem clear_twoChildren : Clear twoChildren [7, 9] := by
  have hshell : Regular "Name:\tsh\nNSpid:\t7\t3\n".toList :=
    ⟨by decide, by decide, by decide, by decide⟩
  have hmonitor : Regular "Name:\tmonitor\nNSpid:\t9\t2\n".toList :=
    ⟨by decide, by decide, by decide, by decide⟩
  rw [clear_cons, clear_cons]
  refine ⟨hshell.judged rfl, fun _ => ⟨hmonitor.judged rfl, fun h => absurd ?_ h⟩⟩
  exact ⟨_, rfl, by decide⟩

theorem cntGetMonitoringPid_two :
    cntGetMonitoringPid (some (childrenText [7, 9])) twoChildren (fun _ => []) =
      monitorOf twoChildren [7, 9] :=
  (cntGetMonitoringPid_iff (by decide) twoChildren).mpr clear_twoChildren fun _ => []

/-- A child in front of the monitoring process has ended meanwhile. -/
theorem cntGetMonitoringPid_vanished :
    (∀ garbage, cntGetMonitoringPid (some (childrenText [8, 9])) twoChildren garbage = 8) ∧
      monitorOf twoChildren [8, 9] = 9 :=
  ⟨fun _ => rfl, by decide⟩

end Vzgot.Attend
