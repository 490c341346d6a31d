import Mathlib.Data.Finset.Sort
import Vzgot.Cpu.Info

/-!
# A faithful `cpuinfo`

`/proc/cpuinfo` has a block of lines for every CPU of the host. The copy is faithful
(`FaithfulInfo`) when its blocks are those of the CPUs of the container, in order and
renumbered, and every line shows a piece of a line of the block of its own CPU, the one
at its place (`InfoLine.Shows`). The two readers of
`setcpuinfo` stop at the end of a block or before it. One that stops before it is never
caught up with: from there on every block is read too early (`copyCpus_behind`). So the
copy is faithful exactly when no reader stops early in front of a CPU of the container
(`setcpuinfo_faithful_iff`).
-/

set_option autoImplicit false

namespace Vzgot.Cpu

open Vzgot.Cgroup Vzgot.Pieces Vzgot.Stdio

/-- A line of `/proc/cpuinfo`: a key, tabs, a colon and a value. -/
structure CpuLine where
  key : List Char
  tabs : Nat
  value : List Char
  plain : ∀ c ∈ key ++ value, c ≠ '\n' ∧ c ≠ '\x00'

/-- The line without its newline. -/
def CpuLine.text (l : CpuLine) : List Char :=
  l.key ++ List.replicate l.tabs '\t' ++ ':' :: l.value

/-- Numbers of the set in increasing order. -/
def CpuSet.list (s : CpuSet) : List Nat := s.ids.sort

section Text

variable (blocks : Nat → List CpuLine)

/-- The block of a CPU. -/
def cpuText (cpu : Nat) : List Char := blockText ((blocks cpu).map CpuLine.text)

/-- `/proc/cpuinfo` of a host with these CPUs. -/
def cpuinfo (host : CpuSet) : List Char := host.list.flatMap (cpuText blocks)

/-- Number of bytes behind the block of the CPU. -/
def bytesBehind (host : CpuSet) (cpu : Nat) : Nat :=
  ((host.list.filter (cpu < ·)).flatMap (cpuText blocks)).length

/-- The line of the new file shows this line of the old one: as it is, with a remark behind it,
or with the number of the CPU or of the CPUs behind the key. -/
def InfoLine.Shows (selected : Int) (numcpu : Nat) (line : List Char) (l : InfoLine) : Prop :=
  l.action = actionOf line ∧
    match l.action with
    | .keep => l.text = line
    | .model => l.text = line ++ " [VZGOT Provisioned Core]".toList
    | .processor => l.text = line.takeWhile (· ≠ ':') ++ ": ".toList ++ decimal numcpu
    | .sibling | .cores => l.text = line.takeWhile (· ≠ ':') ++ ": ".toList ++ printInt selected
    | .discard => False

/-- The lines are a block with the number `cpu.2`. Each shows a piece of 898 bytes at most, the
one with the number `i`, of a line of the source block of the CPU, and was read at the place
where that piece stands. -/
def FromBlock (host : CpuSet) (selected : Int) (cpu : Nat × Nat) (lines : List InfoLine) : Prop :=
  lines ≠ [] ∧ ∀ l ∈ lines, ∃ pre u post i, blocks cpu.1 = pre ++ u :: post ∧
    898 * i ≤ u.text.length ∧
    l.place = bytesBehind blocks host cpu.1 +
      (u.text.drop (898 * i) ++ '\n' :: blockText (post.map CpuLine.text)).length ∧
    l.Shows selected cpu.2 (aplCleanstring (((u.text ++ ['\n']).drop (898 * i)).take 898))

/-- The lines of a file in groups, with an empty line behind each group. -/
def fileBlocks (file : List Char) : List (List (List Char)) :=
  ((file.splitOn '\n').dropLast.splitOn []).dropLast

/-- The file has the blocks that were written: one for every CPU of the container, in increasing
order and numbered from 0. -/
def FaithfulInfo (host : CpuSet) (cont : PhyCpu) (out : List (List InfoLine)) : Prop :=
  fileBlocks (infoText out) = out.map (List.map InfoLine.text) ∧
    List.Forall₂ (FromBlock blocks host cont.selected) cont.allocated.list.zipIdx out

/-- The reader used for the CPU reads its block to the end: for a CPU of the container,
every piece of 898 bytes of a line is left with a colon by `apl_cleanstring`; for another
CPU no line has a length that is a multiple of 198. -/
def ReadThrough (cont : CpuSet) (cpu : Nat) : Prop :=
  if cont.isSet cpu then ∀ l ∈ blocks cpu, Passes goesOn 898 l.text
  else ∀ l ∈ blocks cpu, ¬ 198 ∣ l.text.length

/-- A line of the block is printed. -/
def Printed (cpu : Nat) : Prop :=
  ∃ p ∈ (read goesOn 898 (cpuText blocks cpu)).pieces, actionOf (aplCleanstring p.2) ≠ .discard

/-- The CPUs of the container are among the installed ones, a line of each of their blocks
is printed, and every block in front of one of them is read to its end. -/
def InStep (maxcpu : Int) (host cont : CpuSet) : Prop :=
  (∀ cpu ∈ cont.ids, (cpu : Int) < maxcpu ∧ Printed blocks cpu) ∧
    ∀ cpu ∈ host.ids, (∃ c ∈ cont.ids, cpu < c) → ReadThrough blocks cont cpu

end Text

/-! ## The two readers -/

theorem CpuLine.newline_not_mem (l : CpuLine) : '\n' ∉ l.text := by
  intro h
  simp only [CpuLine.text, List.mem_append, List.mem_cons, List.mem_replicate] at h
  rcases h with (h | ⟨-, h⟩) | h | h
  · exact (l.plain _ (List.mem_append_left _ h)).1 rfl
  · cases h
  · cases h
  · exact (l.plain _ (List.mem_append_right _ h)).1 rfl

theorem goesOn_newline : goesOn ['\n'] = false := by decide

theorem skipsOn_newline : skipsOn ['\n'] = false := by decide

theorem passes_skipsOn_iff {u : List Char} (hu : '\n' ∉ u) :
    Passes skipsOn 198 u ↔ ¬ 198 ∣ u.length := by
  have hpiece : ∀ i, 198 * i ≤ u.length →
      (skipsOn (((u ++ ['\n']).drop (198 * i)).take 198) = true ↔ 198 * i ≠ u.length) := by
    intro i hi
    rw [List.drop_append_of_le_length hi, skipsOn, decide_eq_true_eq]
    cases hdrop : u.drop (198 * i) with
    | nil =>
        have hlen := congrArg List.length hdrop
        rw [List.length_drop, List.length_nil] at hlen
        simp only [List.nil_append]
        exact ⟨fun h => absurd rfl h, fun h => absurd (by omega) h⟩
    | cons c cs =>
        have hmem : c ∈ u := List.mem_of_mem_drop (by rw [hdrop]; exact List.mem_cons_self)
        have hc : c ≠ '\n' := fun h => hu (h ▸ hmem)
        have hlen := congrArg List.length hdrop
        rw [List.length_drop, List.length_cons] at hlen
        simp only [List.cons_append, List.take_succ_cons, List.head?_cons, ne_eq, Option.some.injEq, hc,
          not_false_eq_true, true_iff]
        omega
  constructor
  · rintro h ⟨i, hi⟩
    exact (hpiece i (by omega)).mp (h i (by omega)) hi.symm
  · intro h i hi
    refine (hpiece i hi).mpr ?_
    rintro heq
    exact h ⟨i, heq.symm⟩

section Readers

variable {blocks : Nat → List CpuLine} {cont : CpuSet} {cpu : Nat}

theorem closing_cpuText (blocks : Nat → List CpuLine) (cpu : Nat) : Closing (cpuText blocks cpu) :=
  closing_blockText _

theorem forall_text {p : List Char → Prop} :
    (∀ u ∈ (blocks cpu).map CpuLine.text, p u) ↔ ∀ l ∈ blocks cpu, p l.text := by
  rw [List.forall_mem_map]

theorem newline_not_mem_block : ∀ u ∈ (blocks cpu).map CpuLine.text, '\n' ∉ u :=
  forall_text.mpr fun l _ => l.newline_not_mem

/-- What the reader used for the CPU leaves of the file. -/
def leave (cont : CpuSet) (cpu : Nat) (fin : List Char) : List Char :=
  if cont.isSet cpu then (read goesOn 898 fin).rest else (read skipsOn 198 fin).rest

/-- The reader reads the whole block exactly under `ReadThrough`. -/
theorem leave_cpuText_iff : leave cont cpu (cpuText blocks cpu) = [] ↔ ReadThrough blocks cont cpu := by
  rw [leave, ReadThrough]
  split
  · rw [cpuText, rest_read_blockText_iff (by decide) goesOn_newline newline_not_mem_block, forall_text]
  · rw [cpuText, rest_read_blockText_iff (by decide) skipsOn_newline newline_not_mem_block, forall_text]
    have hline : ∀ l ∈ blocks cpu, (Passes skipsOn 198 l.text ↔ ¬ 198 ∣ l.text.length) :=
      fun l _ => passes_skipsOn_iff l.newline_not_mem
    exact forall₂_congr hline

/-- The reader stays in the part of the block in front of it. -/
theorem leave_append {t : List Char} (ht : Closing t) (later : List Char) :
    leave cont cpu (t ++ later) = leave cont cpu t ++ later := by
  rw [leave, leave]
  split
  · rw [read_append (by decide) goesOn_newline ht]
    rfl
  · rw [read_append (by decide) skipsOn_newline ht]
    rfl

theorem leave_closing (cont : CpuSet) (cpu : Nat) {t : List Char} (ht : Closing t) :
    leave cont cpu t = [] ∨ Closing (leave cont cpu t) := by
  rw [leave]
  split
  · exact (rest_read (by decide) goesOn_newline ht).1
  · exact (rest_read (by decide) skipsOn_newline ht).1

/-- What `duplicate` prints shows the line. -/
theorem shows_printLine {selected : Int} {numcpu place : Nat} {line text : List Char}
    (hcolon : ':' ∈ line) (h : printLine selected numcpu line = some text) :
    InfoLine.Shows selected numcpu line ⟨place, actionOf line, text⟩ := by
  have hline : line.takeWhile (· ≠ ':') ++ ':' :: (line.dropWhile (· ≠ ':')).tail = line := by
    obtain ⟨s, r, rfl, hs⟩ := List.eq_append_cons_of_mem hcolon
    rw [takeWhile_ne_append hs, dropWhile_ne_append hs, List.tail_cons]
  refine ⟨rfl, ?_⟩
  rw [printLine] at h
  cases haction : actionOf line with
  | keep =>
      rw [haction, hline] at h
      exact (Option.some.inj h).symm
  | model =>
      rw [haction, hline] at h
      exact (Option.some.inj h).symm
  | processor =>
      rw [haction] at h
      exact (Option.some.inj h).symm
  | sibling =>
      rw [haction] at h
      exact (Option.some.inj h).symm
  | cores =>
      rw [haction] at h
      exact (Option.some.inj h).symm
  | discard =>
      rw [haction] at h
      cases h

/-- A printed line is made of a piece that was read, with a colon. -/
theorem mem_duplicate {fin : List Char} {selected : Int} {numcpu : Nat} {l : InfoLine}
    (hl : l ∈ (duplicate selected numcpu fin).1) :
    ∃ p ∈ (read goesOn 898 fin).pieces, l.place = p.1 ∧
      l.Shows selected numcpu (aplCleanstring p.2) ∧ ':' ∈ aplCleanstring p.2 := by
  obtain ⟨p, hp, hprint⟩ := List.mem_filterMap.mp hl
  obtain ⟨text, htext, rfl⟩ := Option.map_eq_some_iff.mp hprint
  have hcolon : ':' ∈ aplCleanstring p.2 := by
    have hgoes := (mem_pieces hp).1
    rw [goesOn, Bool.and_eq_true] at hgoes
    exact of_decide_eq_true hgoes.2
  exact ⟨p, hp, rfl, shows_printLine hcolon htext, hcolon⟩

/-- Lines printed from a part of a block were read in that part. -/
theorem duplicate_place {t : List Char} (ht : Closing t) (later : List Char) (selected : Int)
    (numcpu : Nat) {l : InfoLine} (hl : l ∈ (duplicate selected numcpu (t ++ later)).1) :
    later.length < l.place := by
  obtain ⟨p, hp, hplace, -⟩ := mem_duplicate hl
  rw [read_append (by decide) goesOn_newline ht] at hp
  obtain ⟨q, hq, rfl⟩ := List.mem_map.mp hp
  have hpos := ((rest_read (by decide) goesOn_newline ht).2.2 q hq).1
  simp only at hplace
  omega

/-- Lines printed from a block show pieces of its lines. -/
theorem duplicate_shows (later : List Char) (selected : Int) (numcpu : Nat) {l : InfoLine}
    (hl : l ∈ (duplicate selected numcpu (cpuText blocks cpu ++ later)).1) :
    ∃ pre u post i, blocks cpu = pre ++ u :: post ∧ 898 * i ≤ u.text.length ∧
      l.place = later.length +
        (u.text.drop (898 * i) ++ '\n' :: blockText (post.map CpuLine.text)).length ∧
      l.Shows selected numcpu (aplCleanstring (((u.text ++ ['\n']).drop (898 * i)).take 898)) := by
  obtain ⟨p, hp, hplace, hshows, -⟩ := mem_duplicate hl
  rw [read_append (by decide) goesOn_newline (closing_cpuText blocks cpu)] at hp
  obtain ⟨q, hq, rfl⟩ := List.mem_map.mp hp
  obtain ⟨pre, u, post, i, hlines, hi, rfl⟩ :=
    mem_pieces_blockText (by decide) goesOn_newline newline_not_mem_block hq
  obtain ⟨pre, rest, hblocks, -, hrest⟩ := List.map_eq_append_iff.mp hlines
  obtain ⟨u, post, rfl, rfl, rfl⟩ := List.map_eq_cons_iff.mp hrest
  exact ⟨pre, u, post, i, hblocks, hi, by rw [hplace, Nat.add_comm], hshows⟩

/-- A place in a block is not in front of it. -/
theorem place_le {pre post : List CpuLine} {u : CpuLine} (h : blocks cpu = pre ++ u :: post) (k : Nat) :
    (u.text.drop k ++ '\n' :: blockText (post.map CpuLine.text)).length ≤
      (cpuText blocks cpu).length := by
  have htext : cpuText blocks cpu = (pre.map CpuLine.text).flatMap (· ++ ['\n']) ++
      (u.text ++ '\n' :: blockText (post.map CpuLine.text)) := by
    simp [cpuText, blockText, h]
  rw [htext]
  simp only [List.length_append, List.length_drop]
  omega

/-! ## The file as text -/

theorem newline_not_mem_aplCleanstring (n : Nat) (bytes : List Char) :
    '\n' ∉ aplCleanstring (takeLine n bytes) := by
  intro h
  have hfront := List.dropWhile_subset _ h
  obtain ⟨s, r, hs⟩ := List.append_of_mem hfront
  obtain ⟨tail, htail⟩ := List.rdropWhile_prefix (fun c : Char => c = '\n' || c = '\r' || c = ' ')
    (l := takeLine n bytes)
  -- the newline of a piece is its last byte, and cut off
  have hpiece : takeLine n bytes = s ++ '\n' :: (r ++ tail) := by
    rw [← htail, hs, List.append_assoc, List.cons_append]
  have hlast := takeLine_newline hpiece
  rw [(List.append_eq_nil_iff.mp hlast).1] at hs
  have hne : (takeLine n bytes).rdropWhile (fun c => c = '\n' || c = '\r' || c = ' ') ≠ [] := by
    rw [hs]
    simp
  have hnot := List.rdropWhile_last_not _ _ hne
  simp [hs] at hnot

theorem newline_not_mem_printInt (n : Int) : '\n' ∉ printInt n := by
  unfold printInt
  intro h
  rcases List.mem_append.mp h with h | h
  · split at h
    · exact absurd (List.mem_singleton.mp h) (by decide)
    · cases h
  · exact absurd (isDigit_of_mem_toDigits h) (by decide)

/-- A line that shows a line without a newline is a line. -/
theorem InfoLine.Shows.newline_not_mem {selected : Int} {numcpu : Nat} {line : List Char}
    {l : InfoLine} (h : l.Shows selected numcpu line) (hline : '\n' ∉ line) : '\n' ∉ l.text := by
  have hkey : '\n' ∉ line.takeWhile (· ≠ ':') ++ ": ".toList := by
    intro hmem
    rcases List.mem_append.mp hmem with hmem | hmem
    · exact hline (List.takeWhile_subset _ hmem)
    · exact absurd hmem (by decide)
  have hbehind : ∀ number, '\n' ∉ number →
      '\n' ∉ line.takeWhile (· ≠ ':') ++ ": ".toList ++ number := by
    intro number hnumber hmem
    rcases List.mem_append.mp hmem with hmem | hmem
    · exact hkey hmem
    · exact hnumber hmem
  obtain ⟨-, htext⟩ := h
  cases haction : l.action with
  | keep =>
      rw [haction] at htext
      rw [htext]
      exact hline
  | model =>
      rw [haction] at htext
      rw [htext, List.mem_append]
      rintro (hmem | hmem)
      · exact hline hmem
      · exact absurd hmem (by decide)
  | processor =>
      rw [haction] at htext
      rw [htext]
      exact hbehind _ fun hmem => absurd (isDigit_of_mem_toDigits hmem) (by decide)
  | sibling =>
      rw [haction] at htext
      rw [htext]
      exact hbehind _ (newline_not_mem_printInt selected)
  | cores =>
      rw [haction] at htext
      rw [htext]
      exact hbehind _ (newline_not_mem_printInt selected)
  | discard =>
      rw [haction] at htext
      exact htext.elim

theorem InfoLine.Shows.ne_nil {selected : Int} {numcpu : Nat} {line : List Char} {l : InfoLine}
    (h : l.Shows selected numcpu line) (hline : line ≠ []) : l.text ≠ [] := by
  obtain ⟨-, htext⟩ := h
  cases haction : l.action <;> rw [haction] at htext
  case discard => exact htext.elim
  case keep =>
      rw [htext]
      exact hline
  all_goals
      rw [htext]
      simp

/-- A printed line is a line of the file, and not an empty one. -/
theorem duplicate_text {fin : List Char} {selected : Int} {numcpu : Nat} {l : InfoLine}
    (hl : l ∈ (duplicate selected numcpu fin).1) : '\n' ∉ l.text ∧ l.text ≠ [] := by
  obtain ⟨p, hp, -, hshows, hcolon⟩ := mem_duplicate hl
  obtain ⟨-, bytes, hpiece⟩ := mem_pieces hp
  refine ⟨hshows.newline_not_mem ?_, hshows.ne_nil (List.ne_nil_of_mem hcolon)⟩
  rw [hpiece]
  exact newline_not_mem_aplCleanstring 898 bytes

theorem mem_copyCpus {host cont : PhyCpu} {is : List Nat} {num : Nat} {fin : List Char}
    {lines : List InfoLine} (h : lines ∈ copyCpus host cont is num fin) :
    ∃ num fin, lines = (duplicate cont.selected num fin).1 := by
  induction is generalizing num fin with
  | nil => cases h
  | cons i is ih =>
      rw [copyCpus] at h
      split at h
      · exact ih h
      · split at h
        · exact ih h
        · rcases List.mem_cons.mp h with rfl | h
          · exact ⟨num, fin, rfl⟩
          · exact ih h

/-- A reader of the file finds the blocks that were written. -/
theorem fileBlocks_infoText {out : List (List InfoLine)}
    (h : ∀ lines ∈ out, ∀ l ∈ lines, '\n' ∉ l.text ∧ l.text ≠ []) :
    fileBlocks (infoText out) = out.map (List.map InfoLine.text) := by
  have htext : infoText out =
      ((out.map (List.map InfoLine.text)).flatMap (· ++ [[]])).flatMap (· ++ ['\n']) := by
    simp [infoText, List.flatMap_assoc, List.flatMap_map]
  have hlines : ∀ line ∈ (out.map (List.map InfoLine.text)).flatMap (· ++ [[]]), '\n' ∉ line := by
    intro line hline
    obtain ⟨group, hgroup, hline⟩ := List.mem_flatMap.mp hline
    obtain ⟨lines, hmem, rfl⟩ := List.mem_map.mp hgroup
    rcases List.mem_append.mp hline with hline | hline
    · obtain ⟨l, hl, rfl⟩ := List.mem_map.mp hline
      exact (h lines hmem l hl).1
    · rw [List.mem_singleton.mp hline]
      exact List.not_mem_nil
  have hgroups : ∀ group ∈ out.map (List.map InfoLine.text), [] ∉ group := by
    intro group hgroup hnil
    obtain ⟨lines, hmem, rfl⟩ := List.mem_map.mp hgroup
    obtain ⟨l, hl, heq⟩ := List.mem_map.mp hnil
    exact (h lines hmem l hl).2 heq
  rw [fileBlocks, htext, splitOn_flatMap hlines, List.dropLast_concat, splitOn_flatMap hgroups,
    List.dropLast_concat]

/-- A block is printed exactly when one of its lines is. -/
theorem duplicate_eq_nil_iff (later : List Char) (selected : Int) (numcpu : Nat) :
    (duplicate selected numcpu (cpuText blocks cpu ++ later)).1 = [] ↔ ¬ Printed blocks cpu := by
  have hprint : ∀ line, printLine selected numcpu line = none ↔ actionOf line = .discard := by
    intro line
    rw [printLine]
    cases actionOf line <;> simp
  rw [duplicate, read_append (by decide) goesOn_newline (closing_cpuText blocks cpu), Printed]
  simp only [Reading.extend, List.filterMap_map, List.filterMap_eq_nil_iff, Function.comp,
    Option.map_eq_none_iff, hprint, not_exists, not_and, not_not]

end Readers

/-! ## The loop over the CPUs -/

/-- What a reader that stopped early left of earlier blocks. -/
def Leftover (s : List Char) : Prop :=
  ∃ (t : List Char) (ts : List (List Char)), Closing t ∧ (∀ u ∈ ts, Closing u) ∧
    s = t ++ ts.flatten

/-- The text of the CPUs of the host among the numbers. -/
def textOn (blocks : Nat → List CpuLine) (host : CpuSet) (is : List Nat) : List Char :=
  (is.filter host.isSet).flatMap (cpuText blocks)

/-- Places behind the CPUs of the host among the numbers. -/
def Behind (blocks : Nat → List CpuLine) (host : CpuSet) (later : List Char) (is : List Nat) : Prop :=
  ∀ i is', i :: is' <:+ is → host.isSet i = true →
    bytesBehind blocks host i = (textOn blocks host is' ++ later).length

/-- Among the numbers, every CPU of the container has a printed line, and every block in
front of one of them is read to its end. -/
def StaysInStep (blocks : Nat → List CpuLine) (host cont : CpuSet) (is : List Nat) : Prop :=
  (∀ c ∈ is, cont.isSet c = true → Printed blocks c) ∧
    ∀ i ∈ is, host.isSet i = true → (∃ c ∈ is, cont.isSet c = true ∧ i < c) →
      ReadThrough blocks cont i

theorem staysInStep_cons {blocks : Nat → List CpuLine} {host cont : CpuSet} {i : Nat} {is : List Nat}
    (hsorted : (i :: is).Pairwise (· < ·)) :
    StaysInStep blocks host cont (i :: is) ↔
      (cont.isSet i = true → Printed blocks i) ∧
        (host.isSet i = true → (∃ c ∈ is, cont.isSet c = true) → ReadThrough blocks cont i) ∧
        StaysInStep blocks host cont is := by
  have hlt := (List.pairwise_cons.mp hsorted).1
  have hlater : ∀ j ∈ is, ((∃ c ∈ i :: is, cont.isSet c = true ∧ j < c) ↔
      ∃ c ∈ is, cont.isSet c = true ∧ j < c) := by
    intro j hj
    have hij := hlt j hj
    rw [List.exists_mem_cons_iff]
    exact ⟨fun h => h.resolve_left fun hi => by omega, Or.inr⟩
  have hfirst : (∃ c ∈ i :: is, cont.isSet c = true ∧ i < c) ↔
      ∃ c ∈ is, cont.isSet c = true := by
    rw [List.exists_mem_cons_iff]
    constructor
    · rintro (⟨-, hi⟩ | ⟨c, hc, hset, -⟩)
      · exact absurd hi (lt_irrefl i)
      · exact ⟨c, hc, hset⟩
    · rintro ⟨c, hc, hset⟩
      exact Or.inr ⟨c, hc, hset, hlt c hc⟩
  rw [StaysInStep, StaysInStep, List.forall_mem_cons, List.forall_mem_cons, hfirst]
  constructor
  · rintro ⟨⟨hi, his⟩, hread, hreads⟩
    exact ⟨hi, hread, his, fun j hj hhost hc => hreads j hj hhost ((hlater j hj).mpr hc)⟩
  · rintro ⟨hi, hread, his, hreads⟩
    exact ⟨⟨hi, his⟩, hread, fun j hj hhost hc => hreads j hj hhost ((hlater j hj).mp hc)⟩

section Loop

variable {blocks : Nat → List CpuLine} {host cont : PhyCpu} {later : List Char}

/-- One reader more, one block more: the reading stays behind. -/
theorem Leftover.step {s : List Char} (hs : Leftover s) (cont : PhyCpu) (cpu : Nat) {b : List Char}
    (hb : Closing b) (later : List Char) :
    ∃ s', Leftover s' ∧ leave cont.allocated cpu (s ++ b ++ later) = s' ++ later := by
  obtain ⟨t, ts, ht, hts, rfl⟩ := hs
  have hall : ∀ u ∈ ts ++ [b], Closing u := by
    intro u hu
    rcases List.mem_append.mp hu with hu | hu
    · exact hts u hu
    · rw [List.mem_singleton.mp hu]
      exact hb
  have htext : t ++ ts.flatten ++ b ++ later = t ++ ((ts ++ [b]).flatten ++ later) := by
    simp
  rw [htext, leave_append ht]
  rcases leave_closing cont.allocated cpu ht with hnil | hclosing
  · -- the first part is used up and the next one begins
    rw [hnil, List.nil_append]
    cases hparts : ts ++ [b] with
    | nil => simp at hparts
    | cons u us =>
        rw [hparts] at hall
        refine ⟨u ++ us.flatten, ⟨u, us, hall u List.mem_cons_self, ?_, rfl⟩, rfl⟩
        exact fun v hv => hall v (List.mem_cons_of_mem u hv)
  · exact ⟨_, ⟨_, _, hclosing, hall, rfl⟩, (List.append_assoc _ _ _).symm⟩

theorem leave_eq_skipcpuinfo {cpu : Nat} (h : cont.allocated.isSet cpu = false)
    (fin : List Char) : skipcpuinfo fin = leave cont.allocated cpu fin := by
  simp [skipcpuinfo, leave, h]

theorem leave_eq_duplicate {cpu : Nat} (h : cont.allocated.isSet cpu = true)
    (numcpu : Nat) (fin : List Char) :
    (duplicate cont.selected numcpu fin).2 = leave cont.allocated cpu fin := by
  simp [duplicate, leave, h]

theorem copyCpus_absent {i : Nat} (h : host.allocated.isSet i = false) (is : List Nat)
    (num : Nat) (fin : List Char) :
    copyCpus host cont (i :: is) num fin = copyCpus host cont is num fin := by
  rw [copyCpus, if_pos h]

theorem copyCpus_other {i : Nat} (h : host.allocated.isSet i = true)
    (hc : cont.allocated.isSet i = false) (is : List Nat) (num : Nat) (fin : List Char) :
    copyCpus host cont (i :: is) num fin =
      copyCpus host cont is num (leave cont.allocated i fin) := by
  rw [copyCpus, if_neg (by simp [h]), if_pos hc, leave_eq_skipcpuinfo hc]

theorem copyCpus_copied {i : Nat} (h : host.allocated.isSet i = true)
    (hc : cont.allocated.isSet i = true) (is : List Nat) (num : Nat) (fin : List Char) :
    copyCpus host cont (i :: is) num fin = (duplicate cont.selected num fin).1 ::
      copyCpus host cont is (num + 1) (leave cont.allocated i fin) := by
  rw [copyCpus, if_neg (by simp [h]), if_neg (by simp [hc])]
  simp only [leave_eq_duplicate hc]

theorem textOn_cons_absent {i : Nat} (h : host.allocated.isSet i = false) (is : List Nat) :
    textOn blocks host.allocated (i :: is) = textOn blocks host.allocated is := by
  rw [textOn, List.filter_cons_of_neg (by simp [h]), textOn]

theorem textOn_cons {i : Nat} (h : host.allocated.isSet i = true) (is : List Nat) :
    textOn blocks host.allocated (i :: is) =
      cpuText blocks i ++ textOn blocks host.allocated is := by
  rw [textOn, List.filter_cons_of_pos h, List.flatMap_cons, textOn]

variable (hsub : ∀ i, cont.allocated.isSet i = true → host.allocated.isSet i = true)
include hsub

theorem absent_of_not_host {i : Nat} (h : host.allocated.isSet i = false) :
    cont.allocated.isSet i = false := by
  by_contra hcont
  rw [hsub i (by simpa using hcont)] at h
  cases h

theorem length_copyCpus (is : List Nat) (num : Nat) (fin : List Char) :
    (copyCpus host cont is num fin).length = (is.filter cont.allocated.isSet).length := by
  induction is generalizing num fin with
  | nil => rfl
  | cons i is ih =>
      cases hhost : host.allocated.isSet i with
      | false =>
          have hcont := absent_of_not_host hsub hhost
          rw [copyCpus_absent hhost, ih, List.filter_cons_of_neg (by simp [hcont])]
      | true =>
          cases hcont : cont.allocated.isSet i with
          | false => rw [copyCpus_other hhost hcont, ih, List.filter_cons_of_neg (by simp [hcont])]
          | true =>
              rw [copyCpus_copied hhost hcont, List.length_cons, ih,
                List.filter_cons_of_pos hcont, List.length_cons]

/-- A reading that is behind gives no CPU of the container its own block. -/
theorem copyCpus_behind {is : List Nat} (hbehind : Behind blocks host.allocated later is)
    (hc : ∃ c ∈ is, cont.allocated.isSet c = true) {s : List Char} (hs : Leftover s) (num : Nat) :
    ¬ List.Forall₂ (FromBlock blocks host.allocated cont.selected)
      ((is.filter cont.allocated.isSet).zipIdx num)
      (copyCpus host cont is num (s ++ textOn blocks host.allocated is ++ later)) := by
  induction is generalizing s num with
  | nil => simp at hc
  | cons i is ih =>
      have hbehind' : Behind blocks host.allocated later is := fun j is' hj =>
        hbehind j is' (hj.trans (List.suffix_cons i is))
      cases hhost : host.allocated.isSet i with
      | false =>
          have hcont := absent_of_not_host hsub hhost
          have hc' : ∃ c ∈ is, cont.allocated.isSet c = true := by
            simpa [hcont] using hc
          rw [copyCpus_absent hhost, textOn_cons_absent hhost,
            List.filter_cons_of_neg (by simp [hcont])]
          exact ih hbehind' hc' hs num
      | true =>
          have htext : s ++ textOn blocks host.allocated (i :: is) ++ later =
              s ++ cpuText blocks i ++ (textOn blocks host.allocated is ++ later) := by
            rw [textOn_cons hhost]
            simp
          rw [htext]
          cases hcont : cont.allocated.isSet i with
          | false =>
              have hc' : ∃ c ∈ is, cont.allocated.isSet c = true := by
                simpa [hcont] using hc
              obtain ⟨s', hs', hleave⟩ := hs.step cont i (closing_cpuText blocks i)
                (textOn blocks host.allocated is ++ later)
              rw [copyCpus_other hhost hcont, hleave, List.filter_cons_of_neg (by simp [hcont]),
                ← List.append_assoc]
              exact ih hbehind' hc' hs' num
          | true =>
              -- the lines of this CPU were read in front of its block
              rw [copyCpus_copied hhost hcont, List.filter_cons_of_pos hcont, List.zipIdx_cons]
              intro hall
              obtain ⟨hne, hlines⟩ := (List.forall₂_cons.mp hall).1
              obtain ⟨l, hl⟩ := List.exists_mem_of_ne_nil _ hne
              obtain ⟨pre, u, post, k, hsplit, -, hat, -⟩ := hlines l hl
              have hle := place_le hsplit (898 * k)
              obtain ⟨t, ts, ht, -, rfl⟩ := hs
              rw [show t ++ ts.flatten ++ cpuText blocks i ++ (textOn blocks host.allocated is ++ later)
                = t ++ (ts.flatten ++ cpuText blocks i ++ (textOn blocks host.allocated is ++ later)) by
                  simp] at hl
              have hplace := duplicate_place ht _ _ _ hl
              have hi := hbehind i is List.suffix_rfl hhost
              simp only [List.length_append] at hplace hi hle hat
              omega

/-- The reading of the block of `i`, then the loop over the numbers behind it. -/
theorem copyCpus_leave {i : Nat} {is : List Nat} (hbehind : Behind blocks host.allocated later is)
    {num : Nat}
    (ih : List.Forall₂ (FromBlock blocks host.allocated cont.selected)
      ((is.filter cont.allocated.isSet).zipIdx num)
      (copyCpus host cont is num (textOn blocks host.allocated is ++ later)) ↔
        StaysInStep blocks host.allocated cont.allocated is) :
    List.Forall₂ (FromBlock blocks host.allocated cont.selected)
      ((is.filter cont.allocated.isSet).zipIdx num)
      (copyCpus host cont is num (leave cont.allocated i
        (cpuText blocks i ++ (textOn blocks host.allocated is ++ later)))) ↔
      ((∃ c ∈ is, cont.allocated.isSet c = true) → ReadThrough blocks cont.allocated i) ∧
        StaysInStep blocks host.allocated cont.allocated is := by
  rw [leave_append (closing_cpuText blocks i)]
  by_cases hthrough : ReadThrough blocks cont.allocated i
  · rw [leave_cpuText_iff.mpr hthrough, List.nil_append, ih]
    simp [hthrough]
  · have hnil : leave cont.allocated i (cpuText blocks i) ≠ [] := fun h =>
      hthrough (leave_cpuText_iff.mp h)
    have hclosing :=
      (leave_closing cont.allocated i (closing_cpuText blocks i)).resolve_left hnil
    by_cases hc : ∃ c ∈ is, cont.allocated.isSet c = true
    · -- what is left of the block of `i` is copied for a later CPU
      have hlate := copyCpus_behind hsub hbehind hc
        ⟨_, [], hclosing, by simp, (List.append_nil _).symm⟩ num
      rw [List.append_assoc] at hlate
      simp [hlate, hc, hthrough]
    · have hnone : is.filter cont.allocated.isSet = [] := by
        rw [List.filter_eq_nil_iff]
        exact fun c hcmem hset => hc ⟨c, hcmem, hset⟩
      have hcopy : ∀ fin, copyCpus host cont is num fin = [] := by
        intro fin
        rw [← List.length_eq_zero_iff, length_copyCpus hsub, hnone, List.length_nil]
      rw [hnone, hcopy] at ih
      rw [hnone, hcopy, ih]
      simp [hc]

/-- In step with the blocks, the copy is faithful exactly when it stays in step. -/
theorem copyCpus_iff {is : List Nat} (hsorted : is.Pairwise (· < ·))
    (hbehind : Behind blocks host.allocated later is) (num : Nat) :
    List.Forall₂ (FromBlock blocks host.allocated cont.selected)
        ((is.filter cont.allocated.isSet).zipIdx num)
        (copyCpus host cont is num (textOn blocks host.allocated is ++ later)) ↔
      StaysInStep blocks host.allocated cont.allocated is := by
  induction is generalizing num with
  | nil => simp [copyCpus, StaysInStep]
  | cons i is ih =>
      have hbehind' : Behind blocks host.allocated later is := fun j is' hj =>
        hbehind j is' (hj.trans (List.suffix_cons i is))
      have hrest := fun num => copyCpus_leave hsub (i := i) hbehind'
        (ih (List.pairwise_cons.mp hsorted).2 hbehind' num)
      rw [staysInStep_cons hsorted]
      cases hhost : host.allocated.isSet i with
      | false =>
          have hcont := absent_of_not_host hsub hhost
          rw [copyCpus_absent hhost, textOn_cons_absent hhost,
            List.filter_cons_of_neg (by simp [hcont]),
            ih (List.pairwise_cons.mp hsorted).2 hbehind' num]
          simp [hcont]
      | true =>
          rw [textOn_cons hhost, List.append_assoc]
          cases hcont : cont.allocated.isSet i with
          | false =>
              -- the block is only read over
              rw [copyCpus_other hhost hcont, List.filter_cons_of_neg (by simp [hcont]), hrest]
              simp
          | true =>
              have hi := hbehind i is List.suffix_rfl hhost
              -- the copy of a block can fail only by being empty
              have hblock : FromBlock blocks host.allocated cont.selected (i, num)
                  (duplicate cont.selected num (cpuText blocks i ++
                    (textOn blocks host.allocated is ++ later))).1 ↔ Printed blocks i := by
                rw [← not_iff_not, ← duplicate_eq_nil_iff
                  (textOn blocks host.allocated is ++ later) cont.selected num, FromBlock]
                constructor
                · intro h
                  by_contra hne
                  refine h ⟨hne, ?_⟩
                  intro l hl
                  simp only [hi]
                  exact duplicate_shows _ _ _ hl
                · rintro h ⟨hne, -⟩
                  exact hne h
              rw [copyCpus_copied hhost hcont, List.filter_cons_of_pos hcont, List.zipIdx_cons,
                List.forall₂_cons, hrest, hblock]
              simp

end Loop

/-! ## The whole file -/

section File

variable {blocks : Nat → List CpuLine}

theorem CpuSet.mem_list {s : CpuSet} {i : Nat} : i ∈ s.list ↔ s.isSet i = true := by
  rw [CpuSet.list, Finset.mem_sort, CpuSet.isSet, decide_eq_true_eq]

/-- The numbers below a bound, and the others behind them. -/
theorem CpuSet.list_eq (s : CpuSet) (n : Nat) :
    s.list = (List.range n).filter s.isSet ++ s.list.filter (n ≤ ·) := by
  have hsort : s.list.Pairwise (· ≤ ·) := Finset.pairwise_sort _ _
  have hnodup : s.list.Nodup := Finset.sort_nodup _ _
  have hrange : (List.range n).Pairwise (· ≤ ·) := List.pairwise_lt_range.imp Nat.le_of_lt
  refine List.Perm.eq_of_pairwise' hsort ?_ ?_
  · refine List.pairwise_append.mpr ⟨hrange.filter _, hsort.filter _, ?_⟩
    intro i hi j hj
    have hlt := List.mem_range.mp (List.mem_filter.mp hi).1
    have hle := of_decide_eq_true (List.mem_filter.mp hj).2
    omega
  · refine (List.perm_ext_iff_of_nodup hnodup ?_).mpr ?_
    · refine List.nodup_append.mpr ⟨List.nodup_range.filter _, hnodup.filter _, ?_⟩
      rintro i hi j hj rfl
      have hlt := List.mem_range.mp (List.mem_filter.mp hi).1
      have hle := of_decide_eq_true (List.mem_filter.mp hj).2
      omega
    · intro i
      simp only [List.mem_append, List.mem_filter, List.mem_range, CpuSet.mem_list,
        decide_eq_true_eq]
      rcases Nat.lt_or_ge i n with h | h
      · simp [h]
      · simp [h]

theorem behind_range (host : CpuSet) (n : Nat) :
    Behind blocks host ((host.list.filter (n ≤ ·)).flatMap (cpuText blocks)) (List.range n) := by
  rintro i is ⟨pre, hpre⟩ hhost
  have hmem : i ∈ List.range n := by
    rw [← hpre]
    simp
  have hi := List.mem_range.mp hmem
  have hsorted : (pre ++ i :: is).Pairwise (· < ·) := by
    rw [hpre]
    exact List.pairwise_lt_range
  obtain ⟨-, hsuf, hcross⟩ := List.pairwise_append.mp hsorted
  -- the numbers above `i` are those behind it in the range, and those of `n` and more
  have hbelow : (pre.filter host.isSet).filter (i < ·) = [] := by
    rw [List.filter_eq_nil_iff]
    intro j hj
    have hji := hcross j (List.mem_filter.mp hj).1 i List.mem_cons_self
    simp only [decide_eq_true_eq]
    omega
  have habove : (is.filter host.isSet).filter (i < ·) = is.filter host.isSet := by
    rw [List.filter_eq_self]
    intro j hj
    exact decide_eq_true ((List.pairwise_cons.mp hsuf).1 j (List.mem_filter.mp hj).1)
  have hbig : (host.list.filter (n ≤ ·)).filter (i < ·) = host.list.filter (n ≤ ·) := by
    rw [List.filter_eq_self]
    intro j hj
    have hle := of_decide_eq_true (List.mem_filter.mp hj).2
    exact decide_eq_true (by omega)
  have hlist := CpuSet.list_eq host n
  rw [bytesBehind]
  generalize host.list.filter (n ≤ ·) = big at hlist hbig ⊢
  rw [hlist, ← hpre, List.filter_append, List.filter_append, List.filter_append, hbig,
    List.filter_cons_of_pos hhost, List.filter_cons_of_neg (by simp), hbelow, habove,
    List.nil_append, List.flatMap_append, textOn]

/-- Every CPU of the container is copied in step, if all of them are installed. -/
theorem inStep_iff {maxcpu : Int} {host cont : CpuSet} (_hsub : cont.ids ⊆ host.ids) :
    InStep blocks maxcpu host cont ↔
      cont.list.filter (maxcpu.toNat ≤ ·) = [] ∧
        StaysInStep blocks host cont (List.range maxcpu.toNat) := by
  have hset : ∀ (s : CpuSet) i, i ∈ s.ids ↔ s.isSet i = true := by
    intro s i
    rw [CpuSet.isSet, decide_eq_true_eq]
  have hbound : cont.list.filter (maxcpu.toNat ≤ ·) = [] ↔ ∀ c ∈ cont.ids, c < maxcpu.toNat := by
    rw [List.filter_eq_nil_iff]
    simp only [CpuSet.mem_list, hset, decide_eq_true_eq, not_le]
  rw [hbound, InStep, StaysInStep]
  constructor
  · rintro ⟨hcont, hread⟩
    refine ⟨fun c hc => by have := (hcont c hc).1; omega, ?_, ?_⟩
    · intro c _ hc
      exact (hcont c ((hset cont c).mpr hc)).2
    · rintro i - hi ⟨c, -, hc, hlt⟩
      exact hread i ((hset host i).mpr hi) ⟨c, (hset cont c).mpr hc, hlt⟩
  · rintro ⟨hlt, hprinted, hread⟩
    refine ⟨fun c hc => ⟨by have := hlt c hc; omega, ?_⟩, ?_⟩
    · exact hprinted c (List.mem_range.mpr (hlt c hc)) ((hset cont c).mp hc)
    · rintro i hi ⟨c, hc, hic⟩
      have hc' := hlt c hc
      exact hread i (List.mem_range.mpr (by omega)) ((hset host i).mp hi)
        ⟨c, List.mem_range.mpr hc', (hset cont c).mp hc, hic⟩

/-- The file written by `setcpuinfo` is faithful if and only if the readers stay in step
with the blocks up to the last CPU of the container. -/
theorem setcpuinfo_faithful_iff {h : Host} {hostcpus contcpus : PhyCpu}
    (hlist : sysGetCpuHostList h = (true, hostcpus))
    (hsub : contcpus.allocated.ids ⊆ hostcpus.allocated.ids) {fchmod isok : Bool}
    {out : List (List InfoLine)}
    (hout : setcpuinfo h contcpus true fchmod (some (cpuinfo blocks hostcpus.allocated)) =
      (isok, some out)) :
    FaithfulInfo blocks hostcpus.allocated contcpus out ↔
      InStep blocks hostcpus.maxcpu hostcpus.allocated contcpus.allocated := by
  have hset : ∀ i, contcpus.allocated.isSet i = true → hostcpus.allocated.isSet i = true := by
    intro i hi
    exact decide_eq_true (hsub (of_decide_eq_true hi))
  rw [setcpuinfo, hlist] at hout
  simp only [Prod.mk.injEq, Option.some.injEq] at hout
  obtain ⟨-, rfl⟩ := hout
  have htext : cpuinfo blocks hostcpus.allocated =
      textOn blocks hostcpus.allocated (List.range hostcpus.maxcpu.toNat) ++
        (hostcpus.allocated.list.filter (hostcpus.maxcpu.toNat ≤ ·)).flatMap (cpuText blocks) := by
    rw [cpuinfo, textOn, ← List.flatMap_append, ← CpuSet.list_eq]
  have hfile : fileBlocks (infoText (copyCpus hostcpus contcpus (List.range hostcpus.maxcpu.toNat) 0
      (cpuinfo blocks hostcpus.allocated))) = (copyCpus hostcpus contcpus
        (List.range hostcpus.maxcpu.toNat) 0 (cpuinfo blocks hostcpus.allocated)).map
          (List.map InfoLine.text) := by
    refine fileBlocks_infoText fun lines hlines l hl => ?_
    obtain ⟨num, fin, rfl⟩ := mem_copyCpus hlines
    exact duplicate_text hl
  rw [inStep_iff hsub, FaithfulInfo, and_iff_right hfile, htext]
  by_cases hnone : contcpus.allocated.list.filter (hostcpus.maxcpu.toNat ≤ ·) = []
  · have hcont := CpuSet.list_eq contcpus.allocated hostcpus.maxcpu.toNat
    rw [hnone, List.append_nil] at hcont
    rw [and_iff_right hnone, hcont, copyCpus_iff hset List.pairwise_lt_range (behind_range _ _)]
  · -- a CPU of the container with a larger number gets no block
    simp only [hnone, false_and, iff_false]
    intro hall
    have hlen := hall.length_eq
    have hcont := congrArg List.length
      (CpuSet.list_eq contcpus.allocated hostcpus.maxcpu.toNat)
    have hpos := List.length_pos_iff.mpr hnone
    rw [List.length_zipIdx, length_copyCpus hset] at hlen
    rw [List.length_append] at hcont
    omega

/-- Two CPUs; the first one has a line of `n` bytes in front of a short one. -/
def longBlocks (n : Nat) (cpu : Nat) : List CpuLine :=
  if cpu = 0 then
    [⟨['p', 'r', 'o', 'c', 'e', 's', 's', 'o', 'r'], 1, [' ', '0'], by simp⟩,
      ⟨['f', 'l', 'a', 'g', 's'], 2, List.replicate (n - 8) 'x', by
        intro c hc
        simp only [List.cons_append, List.nil_append, List.mem_cons, List.mem_replicate] at hc
        rcases hc with rfl | rfl | rfl | rfl | rfl | ⟨-, rfl⟩ <;> decide⟩,
      ⟨['f', 'p', 'u'], 2, [' ', 'y', 'e', 's'], by simp⟩]
  else [⟨['p', 'r', 'o', 'c', 'e', 's', 's', 'o', 'r'], 1, [' ', '1'], by simp⟩]

/-- The CPUs 0 and 1. -/
def bothCpus : CpuSet := ⟨{0, 1}, by decide⟩

/-- CPU 1 alone. -/
def secondCpu : CpuSet := ⟨{1}, by decide⟩

theorem bothCpus_list : bothCpus.list = [0, 1] := by
  have hids : bothCpus.ids = [0, 1].toFinset := rfl
  rw [CpuSet.list, hids]
  exact (List.toFinset_sort (· ≤ ·) (by decide)).mpr (by decide)

theorem setcpuinfo_faithful_short :
    ∃ out, setcpuinfo ⟨some 2, some 2, some bothCpus, none⟩ ⟨2, 2, 1, secondCpu⟩ true true
        (some (cpuinfo (longBlocks 100) bothCpus)) = (true, some out) ∧
      (FaithfulInfo (longBlocks 100) bothCpus ⟨2, 2, 1, secondCpu⟩ out ↔
        InStep (longBlocks 100) 2 bothCpus secondCpu) := by
  have hsub : secondCpu.ids ⊆ bothCpus.ids := by decide
  have hout : setcpuinfo ⟨some 2, some 2, some bothCpus, none⟩ ⟨2, 2, 1, secondCpu⟩ true true
      (some (cpuinfo (longBlocks 100) bothCpus)) = (true, some (copyCpus ⟨2, 2, 2, bothCpus⟩
        ⟨2, 2, 1, secondCpu⟩ [0, 1] 0 (cpuinfo (longBlocks 100) bothCpus))) := rfl
  exact ⟨_, hout, setcpuinfo_faithful_iff (h := ⟨some 2, some 2, some bothCpus, none⟩)
    (show _ = (true, ⟨2, 2, 2, bothCpus⟩) from rfl) hsub hout⟩

/-- A line of 198 bytes of CPU 0 looks as if its block ended there: the container, which
has CPU 1 alone, is told the `fpu` of CPU 0. -/
theorem setcpuinfo_mixes_blocks :
    ∃ out, setcpuinfo ⟨some 2, some 2, some bothCpus, none⟩ ⟨2, 2, 1, secondCpu⟩ true true
        (some (cpuinfo (longBlocks 198) bothCpus)) = (true, some out) ∧
      ¬ FaithfulInfo (longBlocks 198) bothCpus ⟨2, 2, 1, secondCpu⟩ out := by
  have hcpuinfo : cpuinfo (longBlocks 198) bothCpus =
      cpuText (longBlocks 198) 0 ++ cpuText (longBlocks 198) 1 := by
    simp [cpuinfo, bothCpus_list]
  have hbehind : bytesBehind (longBlocks 198) bothCpus 1 = 0 := by
    simp [bytesBehind, bothCpus_list]
  have hsecond : secondCpu.list = [1] := Finset.sort_singleton _ 1
  refine ⟨copyCpus ⟨2, 2, 2, bothCpus⟩ ⟨2, 2, 1, secondCpu⟩ [0, 1] 0
    (cpuinfo (longBlocks 198) bothCpus), rfl, ?_⟩
  rw [FaithfulInfo, hsecond, hcpuinfo]
  have hcopy : ((copyCpus ⟨2, 2, 2, bothCpus⟩ ⟨2, 2, 1, secondCpu⟩ [0, 1] 0
      (cpuText (longBlocks 198) 0 ++ cpuText (longBlocks 198) 1)).head?.any fun lines =>
        lines.any fun l => (cpuText (longBlocks 198) 1).length < l.place) = true := by
    decide +kernel
  rintro ⟨-, hall⟩
  obtain ⟨lines, hlines, hany⟩ := (Option.any_eq_true _ _).mp hcopy
  obtain ⟨l, hl, hplace⟩ := List.any_eq_true.mp hany
  obtain ⟨rest, hrest⟩ := List.head?_eq_some_iff.mp hlines
  rw [hrest] at hall
  obtain ⟨pre, u, post, k, hsplit, -, hat, -⟩ := (List.forall₂_cons.mp hall).1.2 l hl
  have hle := place_le hsplit (898 * k)
  have hlt := of_decide_eq_true hplace
  rw [hbehind] at hat
  simp only at hat hle
  omega

end File

end Vzgot.Cpu
