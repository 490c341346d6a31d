import Vzgot.Rebuild.Lookup
import Vzgot.Scripts.HostStart

/-!
# The list of the containers

`shell/vzgot.list` sources the names files one after the other in one shell and prints a row for
each. `NAME`, `ONBOOT`, `HOMEFS` and `NOTE` are emptied in front of a file, `FULLNAME` is not.
The arguments of `affiche` stand without quotes, but for the last one: a variable that is empty
is no argument, and what comes behind it moves to the column in front. So a container whose name
the resolver does not know has its directory in the column of the address. `listed_iff` says for
which containers the rows are right. A names file that changes a variable of the shell is not
followed.
-/

set_option autoImplicit false

open Vzgot.Config Vzgot.Shell Vzgot.Onboot Vzgot.HostStop Vzgot.HostStart Vzgot.Rebuild

namespace Vzgot.Listing

/-! ## The script -/

/-- `NAME` -/
def nameName : List Char := "NAME".toList

/-- `FULLNAME` -/
def fullnameName : List Char := "FULLNAME".toList

/-- The words of a variable without quotes. What a pattern gives is not a matter of its text. -/
def expand (v : List Char) : Option (List (List Char)) := if v.any isGlob then none else some (wordsOf v)

/-- What `affiche` prints. -/
structure Row where
  name : List Char
  bootstat : List Char
  upstat : List Char
  ipaddr : List Char
  homefs : List Char
  note : List Char
  deriving DecidableEq

/-- `affiche`, from `$1` to `$6`. -/
def affiche (args : List (List Char)) : Row :=
  ⟨args.getD 0 [], args.getD 1 [], args.getD 2 [], args.getD 3 [], args.getD 4 [], args.getD 5 []⟩

/-- The variables that `affiche` sets; they are not local. -/
def Row.vars (r : Row) : List (List Char × List Char) :=
  [(nameName, r.name), ("BOOTSTAT".toList, r.bootstat), ("UPSTAT".toList, r.upstat),
    ("IPADDR".toList, r.ipaddr), (Var.homefs.name, r.homefs), (Var.note.name, r.note)]

/-- `UPSTAT`. The test of `$HOMEFS/first.pid` fails when this is more than one word. -/
def upstat (h : Host) (homefs : List Char) : List Char :=
  if (wordsOf (homefs ++ "/first.pid".toList)).length = 1 ∧ h.running (homefs.dropWhile isBreak) then
    "Up".toList
  else "Down".toList

/-- What is assigned in front of a names file. -/
def emptied : List (List Char × List Char) :=
  [(nameName, []), (onbootName, []), (Var.homefs.name, []), (Var.note.name, [])]

section Code

variable (host : Nat → Host) (getent : Nat → List (List Char) → List Char)

/-- The row of a names file that has been sourced at the instant `t`; `getent` gives the first
fields of what the program prints for the words of `FULLNAME`. -/
def row (t : Nat) (env : Env) : Option Row := do
  let fullname ← expand (valueOf env fullnameName)
  let name ← expand (valueOf env nameName)
  let onboot ← expand (valueOf env onbootName)
  let ipaddr ← expand (getent t fullname)
  let homefs ← expand (valueOf env Var.homefs.name)
  return affiche (name ++ onboot ++ [upstat (host t) (valueOf env Var.homefs.name)] ++ ipaddr ++
    homefs ++ [valueOf env Var.note.name])

/-- The loop over the names files, from the instant `t` on. -/
def rows : Nat → Env → List (List Char × List Char) → Option (List Row)
  | _, _, [] => some []
  | t, before, (_, text) :: files =>
      (source text (emptied.foldl (putVar true) before)).bind fun env =>
        if unchanged shellNames before env = false then none
        else
          (row host getent t env).bind fun r =>
            (rows (t + 1) (r.vars.foldl (putVar true) env) files).map (r :: ·)

/-! ## What is to be shown -/

/-- The value of a variable in a names file. -/
def own (f : File) (n : List Char) : List Char := (f.value n).getD []

/-- The address of the container. -/
def address (t : Nat) (f : File) : List Char := getent t (wordsOf (own f fullnameName))

/-- The row of a container, from its own names file. -/
def ownRow (t : Nat) (f : File) : Row :=
  ⟨own f nameName, own f onbootName, upstat (host t) (own f Var.homefs.name), address getent t f,
    own f Var.homefs.name, own f Var.note.name⟩

/-- The rows of the containers, in the order of the files. -/
def table (t : Nat) (files : List File) : List Row :=
  (files.zipIdx t).map fun p => ownRow host getent p.2 p.1

end Code

/-- One word. -/
def IsWord (v : List Char) : Prop := v ≠ [] ∧ ∀ c ∈ v, isBreak c = false

/-- What a row needs to be right: words for the name and the mode, and then an address and a
directory. The directory may be missing where there is no note, and the address with it. -/
structure Showable (name onboot ipaddr homefs note : List Char) : Prop where
  name : IsWord name
  onboot : IsWord onboot
  place : IsWord ipaddr ∧ IsWord homefs ∨ (IsWord ipaddr ∨ ipaddr = []) ∧ homefs = [] ∧ note = []

/-! ## The columns -/

section Columns

variable {v w : List Char} {rest : List (List Char)}

theorem no_break_of_mem (h : w ∈ v.splitOnP isBreak) : ∀ c ∈ w, isBreak c = false := by
  induction v generalizing w with
  | nil =>
      rw [List.splitOnP_nil, List.mem_singleton] at h
      simp [h]
  | cons d v ih =>
      rw [List.splitOnP_cons_eq_if_modifyHead] at h
      split at h
      · rcases List.mem_cons.mp h with rfl | h
        · simp
        · exact ih h
      · rename_i hd
        -- the character goes to the front of the first part
        obtain ⟨u, us, hsplit⟩ := List.exists_cons_of_ne_nil (List.splitOnP_ne_nil isBreak v)
        rw [hsplit] at h ih
        rcases List.mem_cons.mp h with rfl | h
        · exact List.forall_mem_cons.mpr ⟨eq_false_of_ne_true hd, ih List.mem_cons_self⟩
        · exact ih (List.mem_cons_of_mem u h)

theorem isWord_of_mem (h : w ∈ wordsOf v) : IsWord w := by
  have hwords : wordsOf v = (v.splitOnP isBreak).filter (· ≠ []) := rfl
  rw [hwords, List.mem_filter] at h
  exact ⟨of_decide_eq_true h.2, no_break_of_mem h.1⟩

theorem wordsOf_of_isWord (h : IsWord v) : wordsOf v = [v] := wordsOf_word h.1 h.2

/-- A variable in front of a word is the first argument if and only if it is a word. -/
theorem first_iff (hrest : IsWord (rest.getD 0 [])) :
    (wordsOf v ++ rest).getD 0 [] = v ↔ IsWord v := by
  constructor
  · intro h
    cases hv : wordsOf v with
    | nil =>
        rw [hv, List.nil_append] at h
        exact h ▸ hrest
    | cons w ws =>
        rw [hv, List.cons_append, List.getD_cons_zero] at h
        exact isWord_of_mem (v := v) (by rw [hv, h]; exact List.mem_cons_self)
  · intro h
    rw [wordsOf_of_isWord h]
    rfl

/-- A variable whose words begin with itself is a word. -/
theorem isWord_of_head {ws : List (List Char)} (h : wordsOf v = v :: ws) : IsWord v :=
  isWord_of_mem (v := v) (by rw [h]; exact List.mem_cons_self)

/-- The last two columns, behind an address. -/
theorem directory_iff {homefs note : List Char} :
    ((wordsOf homefs ++ [note]).getD 0 [] = homefs ∧ (wordsOf homefs ++ [note]).getD 1 [] = note) ↔
      IsWord homefs ∨ homefs = [] ∧ note = [] := by
  constructor
  · rintro ⟨hfirst, hsecond⟩
    cases hwords : wordsOf homefs with
    | nil =>
        rw [hwords] at hfirst hsecond
        obtain rfl : [] = note := hsecond
        exact .inr ⟨hfirst.symm, rfl⟩
    | cons w ws =>
        rw [hwords] at hfirst
        obtain rfl : w = homefs := hfirst
        exact .inl (isWord_of_head hwords)
  · rintro (hword | ⟨rfl, rfl⟩)
    · rw [wordsOf_of_isWord hword]
      exact ⟨rfl, rfl⟩
    · exact ⟨rfl, rfl⟩

/-- The last three columns. -/
theorem place_iff {ipaddr homefs note : List Char} :
    ((wordsOf ipaddr ++ (wordsOf homefs ++ [note])).getD 0 [] = ipaddr ∧
        (wordsOf ipaddr ++ (wordsOf homefs ++ [note])).getD 1 [] = homefs ∧
        (wordsOf ipaddr ++ (wordsOf homefs ++ [note])).getD 2 [] = note) ↔
      IsWord ipaddr ∧ IsWord homefs ∨ (IsWord ipaddr ∨ ipaddr = []) ∧ homefs = [] ∧ note = [] := by
  by_cases hip : IsWord ipaddr
  · rw [wordsOf_of_isWord hip]
    simp only [List.singleton_append, List.getD_cons_zero, List.getD_cons_succ, true_and]
    rw [directory_iff]
    simp [hip]
  · simp only [hip, false_and, false_or]
    constructor
    · rintro ⟨hfirst, hsecond, hthird⟩
      have hnone : wordsOf ipaddr = [] := by
        cases hwords : wordsOf ipaddr with
        | nil => rfl
        | cons w ws =>
            rw [hwords] at hfirst
            obtain rfl : w = ipaddr := hfirst
            exact absurd (isWord_of_head hwords) hip
      rw [hnone, List.nil_append] at hfirst hsecond hthird
      cases hwords : wordsOf homefs with
      | nil =>
          rw [hwords] at hfirst hsecond hthird
          obtain rfl : note = ipaddr := hfirst
          obtain rfl : [] = note := hthird
          exact ⟨rfl, hsecond.symm, rfl⟩
      | cons w ws =>
          -- a word of the directory stands where the address should be
          rw [hwords] at hfirst
          obtain rfl : w = ipaddr := hfirst
          exact absurd (isWord_of_mem (v := homefs) (by rw [hwords]; exact List.mem_cons_self)) hip
    · rintro ⟨rfl, rfl, rfl⟩
      exact ⟨rfl, rfl, rfl⟩

theorem affiche_iff {name onboot up ipaddr homefs note : List Char} (hup : IsWord up) :
    affiche (wordsOf name ++ wordsOf onboot ++ [up] ++ wordsOf ipaddr ++ wordsOf homefs ++ [note]) =
        ⟨name, onboot, up, ipaddr, homefs, note⟩ ↔
      Showable name onboot ipaddr homefs note := by
  simp only [List.append_assoc, List.singleton_append]
  -- `UPSTAT` is a word, so there is one behind the name and behind the mode in any case
  have hstate : IsWord ((up :: (wordsOf ipaddr ++ (wordsOf homefs ++ [note]))).getD 0 []) := hup
  have hmode : IsWord ((wordsOf onboot ++ up :: (wordsOf ipaddr ++ (wordsOf homefs ++ [note]))).getD 0 []) := by
    cases hwords : wordsOf onboot with
    | nil => exact hup
    | cons w ws => exact isWord_of_mem (v := onboot) (by rw [hwords]; exact List.mem_cons_self)
  constructor
  · intro h
    simp only [affiche, Row.mk.injEq] at h
    obtain ⟨hname, honboot, -, hrest⟩ := h
    have hword := (first_iff hmode).mp hname
    rw [wordsOf_of_isWord hword] at honboot hrest
    have hword' := (first_iff hstate).mp honboot
    rw [wordsOf_of_isWord hword'] at hrest
    exact ⟨hword, hword', place_iff.mp hrest⟩
  · rintro ⟨hname, honboot, hplace⟩
    rw [wordsOf_of_isWord hname, wordsOf_of_isWord honboot]
    obtain ⟨hip, hhomefs, hnote⟩ := place_iff.mpr hplace
    simp only [affiche, List.nil_append, List.cons_append, List.getD_cons_zero, List.getD_cons_succ,
      hip, hhomefs, hnote]

end Columns

/-! ## The loop -/

section Loop

variable {host : Nat → Host} {getent : Nat → List (List Char) → List Char}

/-- The file, sourced by the loop. -/
def sourced (f : File) (env : Env) : Env :=
  (f.lines.filterMap Line.given).foldl (putVar true) (emptied.foldl (putVar true) env)

/-- A variable that is emptied or set by the file has its own value. -/
theorem valueOf_sourced (f : File) (env : Env) {n : List Char}
    (h : f.value n ≠ none ∨ lastOf n emptied = some []) : valueOf (sourced f env) n = own f n := by
  have hvalue : sourced f env n = (f.value n).or ((lastOf n emptied).or (env n)) := by
    rw [sourced, foldl_putVar, foldl_putVar]
    rfl
  rw [valueOf, hvalue, own]
  cases hown : f.value n with
  | some value => rfl
  | none =>
      have hempty := h.resolve_left (not_not.mpr hown)
      rw [hempty]
      rfl

/-- The values of a names file that stand without quotes. -/
def unquotedNames : List (List Char) := [nameName, onbootName, Var.homefs.name, fullnameName]

/-- A file that sets no variable of the shell leaves them. -/
theorem unchanged_sourced {f : File} (env : Env) (hnone : ∀ n ∈ shellNames, f.value n = none) :
    unchanged shellNames env (sourced f env) = true := by
  have hemptied : ∀ n ∈ shellNames, lastOf n emptied = none := by decide
  refine List.all_eq_true.mpr fun n hn => decide_eq_true ?_
  rw [sourced, foldl_putVar, foldl_putVar, hemptied n hn]
  show (f.value n).or (env n) = env n
  rw [hnone n hn, Option.none_or]

theorem expand_eq {v : List Char} (h : ∀ c ∈ v, isGlob c = false) : expand v = some (wordsOf v) := by
  have hany : v.any isGlob = false := List.any_eq_false.mpr fun c hc => by simp [h c hc]
  rw [expand, hany]
  rfl

/-- What is printed for a names file. -/
def printed (host : Nat → Host) (getent : Nat → List (List Char) → List Char) (t : Nat) (f : File) :
    Row :=
  affiche (wordsOf (own f nameName) ++ wordsOf (own f onbootName) ++
    [upstat (host t) (own f Var.homefs.name)] ++ wordsOf (address getent t f) ++
    wordsOf (own f Var.homefs.name) ++ [own f Var.note.name])

variable (haddress : ∀ t key, ∀ c ∈ getent t key, isGlob c = false)
include haddress

theorem row_sourced (t : Nat) {f : File} (env : Env) (hfull : f.value fullnameName ≠ none)
    (hplain : ∀ n ∈ unquotedNames, ∀ c ∈ own f n, isGlob c = false) :
    row host getent t (sourced f env) = some (printed host getent t f) := by
  simp only [unquotedNames, List.forall_mem_cons] at hplain
  obtain ⟨hname, honboot, hhomefs, hfullname, -⟩ := hplain
  rw [row, valueOf_sourced f env (n := fullnameName) (.inl hfull),
    valueOf_sourced f env (n := nameName) (.inr rfl),
    valueOf_sourced f env (n := onbootName) (.inr rfl),
    valueOf_sourced f env (n := Var.homefs.name) (.inr rfl),
    valueOf_sourced f env (n := Var.note.name) (.inr rfl)]
  simp only [expand_eq hname, expand_eq honboot, expand_eq hhomefs, expand_eq hfullname,
    expand_eq (haddress _ _)]
  rfl

theorem rows_eq {files : List File} (hfull : ∀ f ∈ files, f.value fullnameName ≠ none)
    (hplain : ∀ f ∈ files, ∀ n ∈ unquotedNames, ∀ c ∈ own f n, isGlob c = false)
    (hshell : ∀ f ∈ files, ∀ n ∈ shellNames, f.value n = none) (t : Nat) (env : Env) :
    rows host getent t env (files.map File.entry) =
      some ((files.zipIdx t).map fun p => printed host getent p.2 p.1) := by
  induction files generalizing t env with
  | nil => rfl
  | cons f files ih =>
      rw [List.forall_mem_cons] at hfull hplain hshell
      -- what was set before the file is emptied or set again, so it does not matter
      have hsource : source (textOf f.lines) (emptied.foldl (putVar true) env) = some (sourced f env) :=
        source_textOf f.lines _
      have hsame := unchanged_sourced env hshell.1
      rw [List.map_cons, File.entry, rows, hsource, Option.bind_some, hsame, if_neg (by simp),
        row_sourced haddress t env hfull.1 hplain.1, Option.bind_some,
        ih hfull.2 hplain.2 hshell.2]
      rfl

end Loop

theorem upstat_isWord (h : Host) (homefs : List Char) : IsWord (upstat h homefs) := by
  rw [upstat]
  split
  · exact ⟨by decide, by simp [isBreak]⟩
  · exact ⟨by decide, by simp [isBreak]⟩

/-- For names files that set `FULLNAME`, have no patterns and set no variable of the shell: every
row says what the names file of its container says, with its address and its state, if and only if
every name and every mode is one word, and so are every address and every directory; a directory
may be missing where there is no note, and an address where there is no directory and no note. -/
theorem listed_iff {host : Nat → Host} {getent : Nat → List (List Char) → List Char}
    (haddress : ∀ t key, ∀ c ∈ getent t key, isGlob c = false) {files : List File}
    (hfull : ∀ f ∈ files, f.value fullnameName ≠ none)
    (hplain : ∀ f ∈ files, ∀ n ∈ unquotedNames, ∀ c ∈ own f n, isGlob c = false)
    (hshell : ∀ f ∈ files, ∀ n ∈ shellNames, f.value n = none) (env : Env) :
    rows host getent 0 env (files.map File.entry) = some (table host getent 0 files) ↔
      ∀ p ∈ files.zipIdx, Showable (own p.1 nameName) (own p.1 onbootName) (address getent p.2 p.1)
        (own p.1 Var.homefs.name) (own p.1 Var.note.name) := by
  rw [rows_eq haddress hfull hplain hshell, table, Option.some_inj, List.map_inj_left]
  apply forall_congr'
  intro p
  apply imp_congr_right
  intro _
  exact affiche_iff (upstat_isWord _ _)

/-- The names file of a container that is booted with the host. -/
def webFile : File where
  cont := "web".toList
  lines :=
    [quotedLine nameName "web".toList rfl, quotedLine fullnameName "web.example.org".toList rfl,
      quotedLine onbootName "yes".toList rfl, quotedLine Var.homefs.name "/srv/web".toList rfl,
      quotedLine Var.note.name "moved".toList rfl]

/-- A container behind it, without a directory and a note of its own. -/
def zooFile : File where
  cont := "zoo".toList
  lines :=
    [quotedLine nameName "zoo".toList rfl, quotedLine fullnameName "zoo.example.org".toList rfl,
      quotedLine onbootName "no".toList rfl]

/-- A resolver that gives one address, or none, for every name. -/
def answers (ipaddr : List Char) : Nat → List (List Char) → List Char := fun _ _ => ipaddr

/-- With addresses both rows are right, and the second one has neither the directory nor the note
of the first; without addresses they are not. -/
theorem listed_iff_web :
    rows allDown (answers "192.168.1.5".toList) 0 (fun _ => none) [webFile.entry, zooFile.entry] =
        some (table allDown (answers "192.168.1.5".toList) 0 [webFile, zooFile]) ∧
      (table allDown (answers "192.168.1.5".toList) 0 [webFile, zooFile]).map (·.note) =
        ["moved".toList, []] ∧
      rows allDown (answers []) 0 (fun _ => none) [webFile.entry, zooFile.entry] ≠
        some (table allDown (answers []) 0 [webFile, zooFile]) := by
  have hplain : ∀ f ∈ [webFile, zooFile], ∀ n ∈ unquotedNames, ∀ c ∈ own f n, isGlob c = false := by
    have hall : [webFile, zooFile].all (fun f => unquotedNames.all fun n =>
        (own f n).all fun c => !isGlob c) = true := by decide
    intro f hf n hn c hc
    simpa using List.all_eq_true.mp (List.all_eq_true.mp (List.all_eq_true.mp hall f hf) n hn) c hc
  have hfull : ∀ f ∈ [webFile, zooFile], f.value fullnameName ≠ none := by
    rw [List.forall_mem_cons, List.forall_mem_singleton]
    decide
  have hshell : ∀ f ∈ [webFile, zooFile], ∀ n ∈ shellNames, f.value n = none := by
    rw [List.forall_mem_cons, List.forall_mem_singleton]
    decide
  have hword : ∀ v : List Char, (v ≠ [] ∧ v.all (fun c => !isBreak c) = true) → IsWord v := by
    rintro v ⟨hne, hall⟩
    exact ⟨hne, fun c hc => by simpa using List.all_eq_true.mp hall c hc⟩
  refine ⟨?_, by decide, ?_⟩
  · have haddress : ∀ t key, ∀ c ∈ answers "192.168.1.5".toList t key, isGlob c = false := by
      intro t key c hc
      have hall : "192.168.1.5".toList.all (fun c => !isGlob c) = true := by decide
      simpa using List.all_eq_true.mp hall c hc
    refine (listed_iff haddress hfull hplain hshell _).mpr ?_
    rw [List.zipIdx_cons, List.zipIdx_cons, List.zipIdx_nil, List.forall_mem_cons,
      List.forall_mem_singleton]
    constructor
    · exact ⟨hword _ (by decide), hword _ (by decide), .inl ⟨hword _ (by decide), hword _ (by decide)⟩⟩
    · exact ⟨hword _ (by decide), hword _ (by decide),
        .inr ⟨.inl (hword _ (by decide)), by decide, by decide⟩⟩
  · -- with no address there would have to be no directory
    intro h
    have hright := (listed_iff (fun _ _ => List.forall_mem_nil _) hfull hplain hshell _).mp h
    obtain ⟨-, -, hplace⟩ := hright (webFile, 0) List.mem_cons_self
    rcases hplace with ⟨hip, -⟩ | ⟨-, hhomefs, -⟩
    · exact hip.1 rfl
    · exact absurd hhomefs (by decide)

end Vzgot.Listing
