import Vzgot.Boot.Doboot
import Vzgot.Command.Dispatch
import Vzgot.Command.Target
import Vzgot.Config.Getstr
import Vzgot.Cpu.Count
import Vzgot.Library.Pieces
import Vzgot.Rebuild.Lookup

/-!
# From the definition to the boot

`vzgot.create` hands the distribution and the architecture of an entry to `vzgot.build`, which
writes them into two files with `echo`. `boot` (`app/vzgot.c`) reads the first line of each
(`cnt_getdist` and `cnt_getarch`, `lib/unicnt.c`) and puts the distribution into the line for
`vzgot.boot`, where the same `case` as in `vzgot.create` chooses the script of the family. What
the entry says gets there unchanged for the distributions of the `case` and all architectures;
for the other distributions it takes a short word that is neither an option of `echo` nor
special to the shell (`booted_as_defined`). The supervisor holds names of 119 bytes and
directories of 127.
-/

set_option autoImplicit false

open Vzgot.Shell Vzgot.Stdio Vzgot.Pieces Vzgot.Cpu Vzgot.Command

namespace Vzgot.Rebuild

/-! ## The files -/

/-- An option of the builtin `echo` of `bash`. -/
def isEchoOption : List Char → Bool
  | '-' :: letters => letters ≠ [] && letters.all fun c => c = 'n' || c = 'e' || c = 'E'
  | _ => false

/-- `echo` of words without backslashes. -/
def echo (words : List (List Char)) : List Char :=
  [' '].intercalate (words.dropWhile isEchoOption) ++
    if (words.takeWhile isEchoOption).any (·.contains 'n') then [] else ['\n']

/-- The files `arch` and `dist` of a container. -/
structure Stored where
  arch : Option (List Char)
  dist : Option (List Char)

/-- What `vzgot.build` writes; the variables stand without quotes. -/
def vzgotBuild (b : Build) : Stored :=
  ⟨some (echo (wordsOf b.arch)), some (echo (wordsOf b.dist))⟩

/-- Directories behind `vzgot.build`, which has put two files into the one of the container. -/
def storedIn (site : Site) (b : Build) (earlier : List Char → Stored) : List Char → Stored :=
  Function.update earlier (site.vzdir.text ++ '/' :: b.contname) (vzgotBuild b)

/-! ## The supervisor -/

/-- `HOMEFS` as the name files have it from `vzgot.create`. -/
def createdLayout (site : Site) (vzpath : List Char) : Layout where
  vzpath := vzpath
  homefs contname := some (site.vzdir.text ++ '/' :: contname)

/-- `availarch`, up to the closing entry. -/
def availarch : List (List Char) := ["i386".toList, "i686".toList, "x86_64".toList]

/-- The buffer of 200 bytes behind `apl_getstr`, if the file gives a line. -/
def firstString (file : List Char) : Option (List Char) :=
  (Getstr.aplGetstr file 200 '#').map Prod.fst

/-- `cnt_getarch` -/
def cntGetarch (file : Option (List Char)) : List Char :=
  match file.bind firstString with
  | none => "UNK?".toList
  | some buffer =>
      if aplCleanstring buffer ∈ availarch then aplCleanstring buffer else "UNK?".toList

/-- `cnt_getdist`: what the buffer holds at first stays when there is no file, and is cleared
by `apl_getstr` when the file is empty. -/
def cntGetdist : Option (List Char) → List Char
  | none => "no dist".toList
  | some file =>
      match firstString file with
      | none => []
      | some buffer => aplCleanstring buffer

/-- `contarch` -/
def contarch (stored : Stored) : List Char := (cntGetarch stored.arch).take 29

/-- `contdist` -/
def contdist (stored : Stored) : List Char := (cntGetdist stored.dist).take 49

/-- The words of the line that runs `vzgot.boot`; the name was put into `contname` of `CONTYP`. -/
def bootWords (name : List Char) (stored : Stored) : Option (List (List Char)) :=
  simpleCommand
    (Dispatch.initscriptCmd "vzgot.boot".toList (name.take 119 ++ ' ' :: contdist stored))

/-! ## The scripts of the families -/

/-- The distributions of the `case` and the families they belong to. -/
def families : List (List Char × List Char) :=
  [("alma".toList, "Alma".toList),
    ("alpine".toList, "Alpine".toList),
    ("centos".toList, "Centos".toList),
    ("debian".toList, "Debian".toList),
    ("devuan".toList, "Devuan".toList),
    ("fedora".toList, "Fedora".toList),
    ("gentoo".toList, "Gentoo".toList),
    ("mageia".toList, "Mageia".toList),
    ("ok-1".toList, "Osukiss".toList),
    ("opensuse".toList, "Opensuse".toList),
    ("ubuntu".toList, "Ubuntu".toList),
    ("void".toList, "Void".toList)]

/-- `FLINUX` behind the `case`, from what it was in front of it. The last pattern stands in
quotes, so only a star is refused; another distribution leaves the variable as it was. -/
def flinux (inherited distrib : List Char) : Option (List Char) :=
  if distrib = ['*'] then none else some ((families.lookup distrib).getD inherited)

/-- The script of the family that `vzgot.create` runs at its end. -/
def createScript (inherited : List Char) (d : Definition) : Option (List Char) :=
  (flinux inherited d.distrib).map ("vzgot.create.".toList ++ ·)

/-- The script of the family that `vzgot.boot` runs, with the argument it gives to it. -/
def vzgotBoot (inherited : List Char) (args : List (List Char)) : Option (List Char × List Char) :=
  let contname := args.getD 0 []
  let distrib := args.getD 1 []
  if contname = [] ∨ distrib = [] then none
  else (flinux inherited distrib).map fun family => ("vzgot.boot.".toList ++ family, contname)

/-! ## Writing and reading -/

section Fields

variable (f : Field)

theorem echo_field : echo (wordsOf f.text) =
    if isEchoOption f.text then (if f.text.contains 'n' then [] else ['\n'])
    else f.text ++ ['\n'] := by
  rw [f.wordsOf_text, echo]
  cases hoption : isEchoOption f.text with
  | true => simp [hoption]
  | false => simp [hoption]

theorem Field.not_mem_take {c : Char} (hc : isFieldChar c = false) (n : Nat) : c ∉ f.text.take n :=
  fun hmem => Bool.noConfusion (hc.symm.trans (f.chars c (List.mem_of_mem_take hmem)))

theorem aplCleanstring_field (n : Nat) {tail : List Char} (htail : LineEnd tail) :
    aplCleanstring (f.text.take n ++ tail) = f.text.take n := by
  have hchar : ∀ c ∈ f.text.take n, ∀ d, isFieldChar d = false → c ≠ d :=
    fun c hc d hd => isFieldChar_ne (f.chars c (List.mem_of_mem_take hc)) hd
  have hback : (f.text.take n).rdropWhile (fun c => c = '\n' || c = '\r' || c = ' ') =
      f.text.take n := by
    rw [List.rdropWhile_eq_self_iff]
    intro hne
    have hlast := hchar _ (List.getLast_mem hne)
    simp [hlast '\n' (by decide), hlast '\r' (by decide), hlast ' ' (by decide)]
  have hend : (f.text.take n ++ tail).rdropWhile (fun c => c = '\n' || c = '\r' || c = ' ') =
      f.text.take n := by
    rcases htail with rfl | rfl
    · rw [List.append_nil, hback]
    · rw [List.rdropWhile_concat_pos _ _ _ (by decide), hback]
  rw [aplCleanstring, hend]
  cases htext : f.text.take n with
  | nil => rfl
  | cons c cs =>
      have hfront := hchar c (by rw [htext]; exact List.mem_cons_self)
      exact List.dropWhile_cons_of_neg
        (by simp [hfront ' ' (by decide), hfront '\t' (by decide)])

/-- A field on a line of its own is read up to the size of the buffer. -/
theorem firstString_field :
    (firstString (f.text ++ ['\n'])).map aplCleanstring = some (f.text.take 199) := by
  have hnewline : '\n' ∉ f.text := by
    intro hmem
    exact absurd (f.chars _ hmem) (by decide)
  -- the newline is read with the field unless the field fills the buffer
  obtain ⟨tail, htail, hpiece⟩ :
      ∃ tail, LineEnd tail ∧ fgets 200 (f.text ++ ['\n']) = some (f.text.take 199 ++ tail) := by
    refine ⟨['\n'].take (199 - f.text.length), ?_, ?_⟩
    · cases 199 - f.text.length with
      | zero => exact .inl rfl
      | succ k => exact .inr (by simp)
    · rw [fgets, if_neg (by simp), takeLine_line hnewline, List.take_append]
  have hpart : ∀ d, isFieldChar d = false → d ≠ '\n' → d ∉ f.text.take 199 ++ tail := by
    intro d hd hne hmem
    rcases List.mem_append.mp hmem with hmem | hmem
    · exact f.not_mem_take hd 199 hmem
    · exact htail.not_mem hne hmem
  have hremark := hpart '#' (by decide) (by decide)
  have hline : Config.aplGetstr '#' (f.text.take 199 ++ tail) = f.text.take 199 ++ tail := by
    rw [Config.aplGetstr, cstr_of_not_mem (hpart '\x00' (by decide) (by decide))]
    have hhead : (f.text.take 199 ++ tail).head? ≠ some '#' :=
      fun h => hremark (List.mem_of_mem_head? h)
    rw [if_neg hhead, Getstr.cutComment_of_not_mem hremark]
  rw [firstString, Getstr.aplGetstr_eq (by decide) (by decide), hpiece]
  simp only [Option.map_some, hline, aplCleanstring_field f 199 htail]

theorem contdist_field {b : Build} (hdist : b.dist = f.text) : contdist (vzgotBuild b) =
    if isEchoOption f.text then [] else f.text.take 49 := by
  have hread := firstString_field f
  rw [contdist, vzgotBuild, hdist, echo_field]
  split
  · -- `echo` has printed no name: there is a newline or nothing
    split
    · rfl
    · rfl
  · obtain ⟨buffer, hbuffer, hclean⟩ := Option.map_eq_some_iff.mp hread
    simp only [cntGetdist, hbuffer, hclean, List.take_take]
    rfl

theorem contarch_field {b : Build} (harch : b.arch = f.text) : contarch (vzgotBuild b) =
    if f.text ∈ availarch then f.text else "UNK?".toList := by
  have hplain : ∀ known ∈ availarch, isEchoOption known = false := by decide
  have hshort : ∀ known ∈ availarch, known.length < 30 := by decide
  rw [contarch, vzgotBuild, harch, echo_field]
  split
  · rename_i hoption
    have hunknown : f.text ∉ availarch := fun h => Bool.noConfusion (hoption.symm.trans (hplain _ h))
    rw [if_neg hunknown]
    have hempty : (cntGetarch (some ['\n'])).take 29 = "UNK?".toList := by decide
    split
    · rfl
    · exact hempty
  · obtain ⟨buffer, hbuffer, hclean⟩ := Option.map_eq_some_iff.mp (firstString_field f)
    simp only [cntGetarch, Option.bind_some, hbuffer, hclean]
    by_cases hknown : f.text ∈ availarch
    · have hlength := hshort _ hknown
      have hwhole : f.text.take 199 = f.text := List.take_of_length_le (by omega)
      rw [hwhole, if_pos hknown, List.take_of_length_le (by omega)]
    · -- a text that was cut is longer than the names of the table
      have hcut : f.text.take 199 ∉ availarch := by
        intro hmem
        have hlength := hshort _ hmem
        rw [List.length_take] at hlength
        rw [List.take_of_length_le (by omega)] at hmem
        exact hknown hmem
      rw [if_neg hcut, if_neg hknown]
      rfl

/-- The architecture of the entry and the one that is read are the same to `setarch`. -/
theorem setarch_contarch {b : Build} (harch : b.arch = f.text) :
    Boot.setarch (contarch (vzgotBuild b)) = Boot.setarch b.arch := by
  rw [contarch_field f harch, harch]
  split
  · rfl
  · rename_i hunknown
    simp only [availarch, List.mem_cons, List.not_mem_nil, or_false, not_or] at hunknown
    obtain ⟨h386, h686, h64⟩ := hunknown
    rw [Boot.setarch, Boot.setarch, if_neg (not_or.mpr ⟨h386, h686⟩), if_neg h64]
    rfl

theorem Field.take_safe (h : SafeWord f.text) (n : Nat) : SafeWord (f.text.take (n + 1)) := by
  obtain ⟨hne, hplain, hhash, htilde, -⟩ := h
  have hhead : (f.text.take (n + 1)).head? = f.text.head? := by
    rw [List.head?_take, if_neg (Nat.succ_ne_zero n)]
  refine ⟨?_, fun c hc => hplain c (List.mem_of_mem_take hc), hhead ▸ hhash, hhead ▸ htilde, ?_⟩
  · intro hnil
    rw [hnil, List.head?_nil] at hhead
    exact hne (List.head?_eq_none_iff.mp hhead.symm)
  · apply isPattern_eq_false
    intro d hd
    obtain ⟨c, hc, rfl⟩ := List.mem_map.mp hd
    have hchar := f.chars c (List.mem_of_mem_take hc)
    exact ⟨isFieldChar_ne hchar (by decide), isFieldChar_ne hchar (by decide),
      isFieldChar_ne hchar (by decide)⟩

end Fields

/-! ## The line for `vzgot.boot` -/

theorem ContName.label_safe (x : ContName) : SafeWord x.label := by
  have hhost : ∀ c ∈ x.label, isHostChar c = true := isHostChar_of_mem_takeWhile x.chars
  have hne : ∀ c ∈ x.label, ∀ d, isHostChar d = false → c ≠ d := by
    rintro c hc d hd rfl
    exact Bool.noConfusion (hd.symm.trans (hhost c hc))
  refine ⟨x.label_literal.ne_nil, fun c hc => (isPlain_of_isHostChar (hhost c hc)).1, ?_, ?_, ?_⟩
  · exact fun h => hne _ (List.mem_of_mem_head? h) '#' (by decide) rfl
  · exact fun h => hne _ (List.mem_of_mem_head? h) '~' (by decide) rfl
  · apply isPattern_eq_false
    intro d hd
    obtain ⟨c, hc, rfl⟩ := List.mem_map.mp hd
    exact ⟨hne c hc '*' (by decide), hne c hc '?' (by decide), hne c hc '[' (by decide)⟩

/-- Path of the script. -/
def bootPath : List Char := Dispatch.scriptPath "vzgot.boot".toList

theorem bootPath_safe : SafeWord bootPath ∧ assignment (plainWord bootPath) = none := by
  refine ⟨⟨by decide, List.all_eq_true.mp (by decide), by decide, by decide, by decide⟩, by decide⟩

theorem two_le_length_of_isEchoOption {w : List Char} (h : isEchoOption w = true) : 2 ≤ w.length := by
  cases w with
  | nil => cases h
  | cons c letters =>
      cases letters with
      | nil =>
          rw [isEchoOption.eq_def] at h
          split at h
          · rename_i heq
            cases heq
            simp at h
          · cases h
      | cons d letters => simp

/-- `vzgot.boot` gets the distribution of the entry exactly when it is a short safe word that
`echo` prints. -/
theorem bootWords_iff (x : ContName) (hname : x.label.length < 120) (f : Field) {b : Build}
    (hdist : b.dist = f.text) :
    bootWords x.label (vzgotBuild b) = some [bootPath, x.label, b.dist] ↔
      SafeWord b.dist ∧ isEchoOption b.dist = false ∧ b.dist.length < 50 := by
  obtain ⟨hpath, hassign⟩ := bootPath_safe
  rw [bootWords, List.take_of_length_le (Nat.le_of_lt_succ hname), Dispatch.initscriptCmd_two,
    ← bootPath, hdist]
  have hread := contdist_field f hdist
  generalize contdist (vzgotBuild b) = read at hread ⊢
  -- the script and the container are safe words, so it is a matter of the last one
  have hjoined (w : List Char) :
      simpleCommand ([' '].intercalate [bootPath, x.label, w]) = some [bootPath, x.label, w] ↔
        SafeWord w := by
    rw [simpleCommand_joined hassign, List.forall_mem_cons, List.forall_mem_cons,
      List.forall_mem_singleton]
    exact ⟨fun h => h.2.2, fun h => ⟨hpath, x.label_safe, h⟩⟩
  have hkept : isEchoOption f.text = false → f.text.length < 50 → read = f.text := by
    intro hoption hlength
    rw [hread, hoption, if_neg Bool.false_ne_true, List.take_of_length_le (by omega)]
  constructor
  · intro h
    -- what was read is shorter by one character at most
    obtain ⟨hle, hsafe⟩ := simpleCommand_size h
    have hcount (w : List Char) : (blanked [bootPath, x.label, w]).length =
        bootPath.length + x.label.length + w.length + 3 := by
      simp [blanked]
      omega
    have hline := congrArg List.length (blanked_eq (List.cons_ne_nil bootPath [x.label, read]))
    rw [hcount, List.length_append, List.length_singleton] at hline
    rw [hcount] at hle hsafe
    have hoption : isEchoOption f.text = false := by
      apply eq_false_of_ne_true
      intro hoption
      have htwo := two_le_length_of_isEchoOption hoption
      have hnone : read.length = 0 := by
        rw [hread, if_pos hoption, List.length_nil]
      omega
    rw [hoption, if_neg Bool.false_ne_true] at hread
    -- a longer one is cut to a safe word, which is not the one of the entry
    have hlength : f.text.length < 50 := by
      by_contra hlong
      have hcut : read.length = 49 := by
        rw [hread, List.length_take]
        omega
      have hall := hsafe (by omega) f.text (by simp)
      have hself := (hjoined read).mpr (hread ▸ f.take_safe hall 48)
      have hsame : read = f.text := by simpa using hself.symm.trans h
      rw [hsame] at hcut
      omega
    rw [hkept hoption hlength] at h
    exact ⟨(hjoined f.text).mp h, hoption, hlength⟩
  · rintro ⟨hsafe, hoption, hlength⟩
    rw [hkept hoption hlength]
    exact (hjoined f.text).mpr hsafe

/-- The distributions of the `case` get to `vzgot.boot`. -/
theorem families_read : ∀ pair ∈ families,
    SafeWord pair.1 ∧ isEchoOption pair.1 = false ∧ pair.1.length < 50 := by
  have hplain : families.all (fun pair => pair.1.all isPlain) = true := by decide
  have hrest : ∀ pair ∈ families, pair.1 ≠ [] ∧ pair.1.head? ≠ some '#' ∧
      pair.1.head? ≠ some '~' ∧ isPattern (plainWord pair.1) = false ∧
      isEchoOption pair.1 = false ∧ pair.1.length < 50 := by
    decide
  intro pair hpair
  obtain ⟨hne, hhash, htilde, hpattern, hoption, hlength⟩ := hrest pair hpair
  have hchars := List.all_eq_true.mp (List.all_eq_true.mp hplain pair hpair)
  exact ⟨⟨hne, hchars, hhash, htilde, hpattern⟩, hoption, hlength⟩

theorem flinux_family {distrib family : List Char} (h : (distrib, family) ∈ families)
    (inherited : List Char) : flinux inherited distrib = some family := by
  have hlookup : ∀ pair ∈ families, pair.1 ≠ ['*'] ∧ families.lookup pair.1 = some pair.2 := by decide
  obtain ⟨hstar, hfamily⟩ := hlookup _ h
  rw [flinux, if_neg hstar, hfamily]
  rfl

/-! ## The entry -/

/-- With one file at most for the pattern, the words behind it are those of the entry. -/
theorem Entry.buildAs_of_single (e : Entry) {files : List (List Char)} (contname : List Char)
    (hone : (tarFiles files e.template.text).length ≤ 1) :
    ∃ tarfile, e.buildAs files contname = ⟨contname, tarfile, e.distrib.text, e.cpuarch.text⟩ := by
  have hsingle : ∃ tarfile, expandTar files e.template.text = [tarfile] := by
    unfold expandTar
    split
    · exact ⟨_, rfl⟩
    · rename_i hne
      have hpos := List.length_pos_of_ne_nil hne
      exact List.length_eq_one_iff.mp (by omega)
  obtain ⟨tarfile, htar⟩ := hsingle
  exact ⟨tarfile, by rw [Entry.buildAs, Entry.words, htar]; rfl⟩

/-- What `read` takes from the list and what `vzgot.build` is given come from one entry. -/
theorem lookup_built {p : Created} (h : Literal p.contname) {answer : List Char} {site : Site}
    {files : List (List Char)} {list : VzgotList} {names : List Char} {b : Build}
    (hbuilt : lookup p answer site files list.text = .built names b) :
    ∃ e ∈ list.entries, b = e.buildAs files p.contname ∧
      (readDefinition (entryOf p.contname list.text)).distrib = e.distrib.text := by
  rw [lookup_eq h, ← List.head?_filter] at hbuilt
  have hwords := wordsOf_entryOf h list
  -- both take the first entry that mentions the container
  cases hfilter : list.entries.filter (·.mentions p.contname) with
  | nil =>
      rw [hfilter] at hbuilt
      cases hbuilt
  | cons e rest =>
      rw [hfilter] at hbuilt hwords
      simp only [List.head?_cons] at hbuilt
      split at hbuilt
      · cases hbuilt
      · cases hbuilt
        have hmem : e ∈ list.entries.filter (·.mentions p.contname) := by
          rw [hfilter]
          exact List.mem_cons_self
        refine ⟨e, List.mem_of_mem_filter hmem, rfl, ?_⟩
        rw [readDefinition, hwords]
        rfl

/-- The supervisor finds the files of the container in a directory that fits. -/
theorem storedIn_sysGetContPath {site : Site} {b : Build} (earlier : List Char → Stored)
    (vzpath : List Char) (hdir : (site.vzdir.text ++ '/' :: b.contname).length < 128) :
    storedIn site b earlier ((createdLayout site vzpath).sysGetContPath b.contname) =
      vzgotBuild b := by
  rw [Layout.sysGetContPath, createdLayout, storedIn]
  simp only [List.take_of_length_le (Nat.le_of_lt_succ hdir), Function.update_self]

/-- Whatever entry a container is built from, with one file at most for each template in the
working directory: the supervisor calls `setarch` as for the architecture of the entry;
`vzgot.boot` is given the distribution of the entry exactly when it is a safe word of less than
50 characters that is not an option of `echo`; and for a distribution that has a family,
`vzgot.create` and `vzgot.boot` run the scripts of this family. -/
theorem booted_as_defined (x : ContName) (ip : Option Ipv4) (hostDomain : Domain) (site : Site)
    (files : List (List Char)) (list : VzgotList) (earlier : List Char → Stored)
    (vzpath : List Char) (hname : x.label.length < 120)
    (hdir : (site.vzdir.text ++ '/' :: x.label).length < 128)
    (hone : ∀ e ∈ list.entries, (tarFiles files e.template.text).length ≤ 1) :
    ∃ p, vzgotCreate hostDomain.text (createArgs x.toHostName ip) = some p ∧
      ∀ answer names b, lookup p answer site files list.text = .built names b →
        ∃ e ∈ list.entries, ∃ tarfile, b = ⟨x.label, tarfile, e.distrib.text, e.cpuarch.text⟩ ∧
          ∃ stored, stored =
              storedIn site b earlier ((createdLayout site vzpath).sysGetContPath x.label) ∧
            Boot.setarch (contarch stored) = Boot.setarch e.cpuarch.text ∧
            (bootWords x.label stored = some [bootPath, x.label, e.distrib.text] ↔
              SafeWord e.distrib.text ∧ isEchoOption e.distrib.text = false ∧
                e.distrib.text.length < 50) ∧
            ∀ family inherited, (e.distrib.text, family) ∈ families →
              createScript inherited (readDefinition (entryOf x.label list.text)) =
                  some ("vzgot.create.".toList ++ family) ∧
                ((bootWords x.label stored).bind fun words => vzgotBoot inherited words.tail) =
                  some ("vzgot.boot.".toList ++ family, x.label) := by
  obtain ⟨p, hcreate, hlabel⟩ : ∃ p,
      vzgotCreate hostDomain.text (createArgs x.toHostName ip) = some p ∧ p.contname = x.label := by
    obtain ⟨domain, -, -, hcreate⟩ := vzgotCreate_args x.toHostName ip hostDomain
    refine ⟨_, hcreate, ?_⟩
    cases ip with
    | none => rfl
    | some ip => rfl
  refine ⟨p, hcreate, ?_⟩
  intro answer names b hbuilt
  -- `read` takes its distribution from the entry that `vzgot.build` is given
  obtain ⟨e, he, rfl, hdistrib⟩ := lookup_built (hlabel ▸ x.label_literal) hbuilt
  rw [hlabel] at hdistrib ⊢
  obtain ⟨tarfile, hbuild⟩ := e.buildAs_of_single x.label (hone e he)
  rw [hbuild]
  refine ⟨e, he, tarfile, rfl, vzgotBuild ⟨x.label, tarfile, e.distrib.text, e.cpuarch.text⟩, ?_⟩
  refine ⟨(storedIn_sysGetContPath earlier vzpath hdir).symm, setarch_contarch e.cpuarch rfl, ?_⟩
  have hwords := bootWords_iff x hname e.distrib
    (b := ⟨x.label, tarfile, e.distrib.text, e.cpuarch.text⟩) rfl
  refine ⟨hwords, ?_⟩
  intro family inherited hfamily
  have hflinux := flinux_family hfamily inherited
  constructor
  · rw [createScript, hdistrib]
    exact congrArg (Option.map ("vzgot.create.".toList ++ ·)) hflinux
  · rw [hwords.mpr (families_read _ hfamily), Option.bind_some, List.tail_cons, vzgotBoot]
    simp only [List.getD_cons_zero, List.getD_cons_succ, hflinux, Option.map_some]
    exact if_neg (not_or.mpr ⟨x.label_literal.ne_nil, e.distrib.ne_nil⟩)

/-- `shop`, for which the entry of `shop2` is taken, is booted as `fedora`. -/
theorem booted_as_defined_shop :
    ∃ p, vzgotCreate exampleDomain.text (createArgs shopHost.toHostName none) = some p ∧
      ∃ names b stored,
        lookup p "192.168.1.5".toList plainSite [] shop2First.text = .built names b ∧
        Boot.setarch (contarch stored) = Boot.setarch "x86_64".toList ∧
        ((bootWords shopHost.label stored).bind fun words => vzgotBoot [] words.tail) =
          some ("vzgot.boot.Fedora".toList, "shop".toList) := by
  obtain ⟨p, hcreate, hboot⟩ :=
    booted_as_defined shopHost none exampleDomain plainSite [] shop2First (fun _ => ⟨none, none⟩)
      "/var/lib/vzgot".toList (by decide) (by decide) (fun _ _ => Nat.zero_le 1)
  have hp : p = ⟨"shop".toList, "example.org".toList, shopHost.text,
      .dig "shop.example.org".toList⟩ := Option.some.inj (hcreate.symm.trans (by decide))
  have hname : Literal p.contname := by
    rw [hp]
    exact shopHost.label_literal
  have hbuilt : lookup p "192.168.1.5".toList plainSite [] shop2First.text =
      .built (nameFile p plainSite) (shop2Entry.buildAs [] p.contname) := by
    rw [lookup_eq hname, hp]
    rfl
  obtain ⟨e, -, tarfile, hbuild, stored, -, harch, -, hfamilies⟩ := hboot _ _ _ hbuilt
  have hdistrib : e.distrib.text = shop2Entry.distrib.text := (congrArg Build.dist hbuild).symm
  have hcpu : e.cpuarch.text = shop2Entry.cpuarch.text := (congrArg Build.arch hbuild).symm
  rw [hcpu] at harch
  have hfedora : (e.distrib.text, "Fedora".toList) ∈ families := by
    rw [hdistrib]
    decide
  exact ⟨p, hcreate, _, _, stored, hbuilt, harch, (hfamilies "Fedora".toList [] hfedora).2⟩

end Vzgot.Rebuild
