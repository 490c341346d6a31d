import Mathlib.Data.List.Pairwise
import Mathlib.Data.List.Perm.Basic
import Vzgot.Library.Stdio

/-!
# The vocabulary of actions

`apl_getvoca` (`lib/utlapl.c`) looks a word up in a table of keys: in the order of the table
it compares each key with the start of the string, ignoring case, and looks at one more
character. The word at the start of the string is its letters and digits (`word`), so the
order does not count, even when one key is a prefix of another
(`aplGetvoca_eq`). `app/vzgot.c` calls it with `vocaction`.
-/

set_option autoImplicit false

namespace Vzgot.Command

open Vzgot.Stdio

universe u v

variable {κ : Type u} {α : Type v}

/-! ## The procedure -/

/-- An entry of a table with a key (`VOCTYP`); codes and payloads are of any type. -/
structure Voctyp (κ : Type u) (α : Type v) where
  code : κ
  key : List Char
  ptr : α

/-- A table: entries with keys, and the ending entry, which has none. -/
structure Table (κ : Type u) (α : Type v) where
  entries : List (Voctyp κ α)
  unknown : κ × α

/-- The character of a string at an offset, which may be the closing NUL. -/
def charAt (s : List Char) (k : Nat) : Char := s[k]?.getD '\x00'

/-- `strncasecmp` of two strings, when it is asked for equality. -/
def strncasecmp : List Char → List Char → Nat → Bool
  | _, _, 0 => true
  | s1, s2, max + 1 =>
      if (charAt s1 0).toLower ≠ (charAt s2 0).toLower then false
      else if charAt s1 0 = '\x00' then true
      else strncasecmp s1.tail s2.tail max

/-- The loop of `apl_getvoca` from the entry `i` on: the number of an entry, and the string. -/
def lookup (str sptr : List Char) : Nat → List (Voctyp κ α) → Nat × List Char
  | i, [] => (i, str)
  | i, v :: vs =>
      let max := v.key.length
      if strncasecmp v.key sptr max then
        -- with a letter or a digit behind it this is not the right word
        if charAt sptr max ≠ '\x00' ∧ (charAt sptr max).isAlphanum then lookup str sptr (i + 1) vs
        else (i, (sptr.drop max).dropWhile isSpace)
      else lookup str sptr (i + 1) vs

/-- `apl_getvoca`: the number of the entry in the table, and what the string becomes. There is
no entry without a table. -/
def aplGetvoca (table : Option (Table κ α)) (str : List Char) : Option (Nat × List Char) :=
  table.map fun table => lookup str (str.dropWhile isSpace) 0 table.entries

/-- The entry with a number, as code, key and payload. -/
def Table.entry (table : Table κ α) (i : Nat) : κ × Option (List Char) × α :=
  match table.entries[i]? with
  | some v => (v.code, some v.key, v.ptr)
  | none => (table.unknown.1, none, table.unknown.2)

/-! ## Words -/

/-- Equality up to the case of letters. -/
def SameWord (s t : List Char) : Prop := s.map Char.toLower = t.map Char.toLower

instance (s t : List Char) : Decidable (SameWord s t) := inferInstanceAs (Decidable (_ = _))

/-- The word at the start of a string. -/
def word (str : List Char) : List Char := (str.dropWhile isSpace).takeWhile Char.isAlphanum

/-- What stands behind the word, without blanks before it. -/
def behind (str : List Char) : List Char :=
  ((str.dropWhile isSpace).dropWhile Char.isAlphanum).dropWhile isSpace

/-- A table whose keys are words, different from each other up to case. -/
structure Vocabulary (κ : Type u) (α : Type v) extends Table κ α where
  wordy : ∀ v ∈ entries, ∀ c ∈ v.key, c.isAlphanum
  distinct : entries.Pairwise fun v w => ¬ SameWord v.key w.key

/-! ## One comparison -/

theorem isAlphanum_toLower (c : Char) : c.toLower.isAlphanum = c.isAlphanum := by
  have hranges : ∀ d : Char, d.isAlphanum =
      ((decide ('A'.val ≤ d.val ∧ d.val ≤ 'Z'.val) ||
        (decide ('a'.val ≤ d.val) && decide (d.val ≤ 'z'.val))) ||
          (decide ('0'.val ≤ d.val) && decide (d.val ≤ '9'.val))) := fun _ => rfl
  by_cases hupper : 'A'.val ≤ c.val ∧ c.val ≤ 'Z'.val
  · have hval : c.toLower.val = c.val + ('a'.val - 'A'.val) := congrArg Char.val (dif_pos hupper)
    rw [hranges, hranges, hval]
    grind [UInt32.toNat_add]
  · have hsame : c.toLower = c := dif_neg hupper
    rw [hsame]

/-- Words that are equal up to case have letters and digits at the same places. -/
theorem SameWord.all_isAlphanum {s t : List Char} (h : SameWord s t)
    (hs : ∀ c ∈ s, c.isAlphanum) : ∀ c ∈ t, c.isAlphanum := by
  intro c hc
  have hmem : c.toLower ∈ s.map Char.toLower := h ▸ List.mem_map_of_mem hc
  obtain ⟨d, hd, hdc⟩ := List.mem_map.mp hmem
  rw [← isAlphanum_toLower, ← hdc, isAlphanum_toLower]
  exact hs d hd

theorem SameWord.length_eq {s t : List Char} (h : SameWord s t) : s.length = t.length := by
  simpa using congrArg List.length h

/-- Behind a key that is the word at the start of the string, the string goes on after the word. -/
theorem SameWord.drop_eq {key sptr : List Char} (h : SameWord key (sptr.takeWhile Char.isAlphanum)) :
    sptr.drop key.length = sptr.dropWhile Char.isAlphanum := by
  conv_lhs => rw [← List.takeWhile_append_dropWhile (p := Char.isAlphanum) (l := sptr)]
  exact List.drop_left' h.length_eq.symm

section Key

variable {key : List Char} (hkey : ∀ c ∈ key, c.isAlphanum)
include hkey

theorem strncasecmp_iff (sptr : List Char) :
    strncasecmp key sptr key.length = true ↔ SameWord key (sptr.take key.length) := by
  induction key generalizing sptr with
  | nil => simp [strncasecmp, SameWord]
  | cons c key ih =>
      rw [List.forall_mem_cons] at hkey
      have hnul : c ≠ '\x00' := fun h => absurd hkey.1 (by rw [h]; decide)
      cases sptr with
      | nil =>
          have hlower : c.toLower ≠ '\x00' := by
            intro h
            have := isAlphanum_toLower c
            rw [h, hkey.1] at this
            exact absurd this (by decide)
          simp [strncasecmp, charAt, SameWord, hlower]
      | cons d sptr =>
          have hstep : strncasecmp (c :: key) (d :: sptr) (key.length + 1) =
              if c.toLower ≠ d.toLower then false
              else if c = '\x00' then true else strncasecmp key sptr key.length := rfl
          have hcons : SameWord (c :: key) (d :: sptr.take key.length) ↔
              c.toLower = d.toLower ∧ SameWord key (sptr.take key.length) := List.cons_eq_cons
          rw [List.length_cons, hstep, List.take_succ_cons, hcons, ← ih hkey.2 sptr]
          by_cases hd : c.toLower = d.toLower
          · rw [if_neg (not_not.mpr hd), if_neg hnul, and_iff_right hd]
          · rw [if_pos hd]
            exact iff_of_false Bool.false_ne_true fun h => hd h.1

/-- The comparison and the look behind it find the words. -/
theorem match_iff (sptr : List Char) :
    (strncasecmp key sptr key.length = true ∧
        ¬ (charAt sptr key.length ≠ '\x00' ∧ (charAt sptr key.length).isAlphanum)) ↔
      SameWord key (sptr.takeWhile Char.isAlphanum) := by
  have hbehind : ¬ (charAt sptr key.length ≠ '\x00' ∧ (charAt sptr key.length).isAlphanum) ↔
      ∀ c ∈ (sptr.drop key.length).head?, ¬ c.isAlphanum := by
    rw [List.head?_drop, charAt]
    cases sptr[key.length]? with
    | none => simp
    | some d =>
        have hnul : d.isAlphanum → d ≠ '\x00' := fun h hd => absurd h (by rw [hd]; decide)
        rw [Option.getD_some, not_and]
        constructor
        · rintro h c hc halnum
          obtain rfl := Option.some.inj hc
          exact h (hnul halnum) halnum
        · exact fun h _ => h d rfl
  rw [strncasecmp_iff hkey, hbehind]
  constructor
  · rintro ⟨hword, hnext⟩
    have htake : ∀ c ∈ sptr.take key.length, c.isAlphanum := hword.all_isAlphanum hkey
    have hstop : (sptr.drop key.length).takeWhile Char.isAlphanum = [] := by
      rw [List.takeWhile_eq_nil_iff]
      intro hpos
      apply hnext
      rw [List.head?_eq_getElem?, List.getElem?_eq_getElem hpos]
      rfl
    have hsplit : sptr.takeWhile Char.isAlphanum = sptr.take key.length := by
      conv_lhs => rw [← List.take_append_drop key.length sptr]
      rw [List.takeWhile_append_of_pos htake, hstop, List.append_nil]
    rwa [hsplit]
  · intro hword
    have htake : sptr.take key.length = sptr.takeWhile Char.isAlphanum := by
      rw [hword.length_eq]
      exact (List.prefix_iff_eq_take.mp (List.takeWhile_prefix _)).symm
    rw [htake, hword.drop_eq]
    refine ⟨hword, fun c hc => ?_⟩
    have hnot := List.head?_dropWhile_not Char.isAlphanum sptr
    rw [Option.mem_def.mp hc] at hnot
    simp [hnot]

end Key

/-! ## The table -/

theorem lookup_of_sameWord {v : Voctyp κ α} (hkey : ∀ c ∈ v.key, c.isAlphanum) {sptr : List Char}
    (hv : SameWord v.key (sptr.takeWhile Char.isAlphanum)) (str : List Char) (i : Nat)
    (vs : List (Voctyp κ α)) :
    lookup str sptr i (v :: vs) = (i, (sptr.dropWhile Char.isAlphanum).dropWhile isSpace) := by
  have hfound := (match_iff hkey sptr).mpr hv
  rw [lookup]
  simp only [if_pos hfound.1, if_neg hfound.2, hv.drop_eq]

theorem lookup_of_not_sameWord {v : Voctyp κ α} (hkey : ∀ c ∈ v.key, c.isAlphanum)
    {sptr : List Char} (hv : ¬ SameWord v.key (sptr.takeWhile Char.isAlphanum)) (str : List Char)
    (i : Nat) (vs : List (Voctyp κ α)) :
    lookup str sptr i (v :: vs) = lookup str sptr (i + 1) vs := by
  rw [lookup]
  split
  · rename_i hcmp
    rw [if_pos (not_not.mp fun hbehind => hv ((match_iff hkey sptr).mp ⟨hcmp, hbehind⟩))]
  · rfl

/-- The loop ends at the first entry whose key is the word, or at the end of the table. -/
theorem lookup_eq {vs : List (Voctyp κ α)} (hwordy : ∀ v ∈ vs, ∀ c ∈ v.key, c.isAlphanum)
    (str sptr : List Char) (i : Nat) :
    lookup str sptr i vs =
      match vs.findIdx? fun v => SameWord v.key (sptr.takeWhile Char.isAlphanum) with
      | some k => (i + k, (sptr.dropWhile Char.isAlphanum).dropWhile isSpace)
      | none => (i + vs.length, str) := by
  induction vs generalizing i with
  | nil => rfl
  | cons v vs ih =>
      rw [List.forall_mem_cons] at hwordy
      rw [List.findIdx?_cons]
      by_cases hv : SameWord v.key (sptr.takeWhile Char.isAlphanum)
      · rw [lookup_of_sameWord hwordy.1 hv, if_pos (decide_eq_true hv)]
        rfl
      · rw [lookup_of_not_sameWord hwordy.1 hv, if_neg (by simpa using hv), ih hwordy.2]
        cases vs.findIdx? fun v => SameWord v.key (sptr.takeWhile Char.isAlphanum) with
        | none => simp only [Option.map_none, List.length_cons, Nat.add_assoc, Nat.add_comm]
        | some k => simp only [Option.map_some, Nat.add_right_comm, ← Nat.add_assoc]

/-- What the procedure comes to on a vocabulary. -/
theorem aplGetvoca_eq (t : Vocabulary κ α) (str : List Char) :
    aplGetvoca (some t.toTable) str =
      some (match t.entries.findIdx? fun v => SameWord v.key (word str) with
        | some k => (k, behind str)
        | none => (t.entries.length, str)) := by
  rw [aplGetvoca, Option.map_some, lookup_eq t.wordy, word, behind]
  simp only [Nat.zero_add]

/-- One key at most is a given word. -/
theorem Vocabulary.unique (t : Vocabulary κ α) {w : List Char} {v v' : Voctyp κ α}
    (hv : v ∈ t.entries) (hw : SameWord v.key w) (hv' : v' ∈ t.entries) (hw' : SameWord v'.key w) :
    v = v' := by
  by_contra hne
  have hsymm : Std.Symm fun v w : Voctyp κ α => ¬ SameWord v.key w.key :=
    ⟨fun _ _ h hsame => h hsame.symm⟩
  exact t.distinct.forall hv hv' hne (hw.trans hw'.symm)

theorem aplGetvoca_of_mem (t : Vocabulary κ α) {str : List Char} {v : Voctyp κ α}
    (hv : v ∈ t.entries) (hword : SameWord v.key (word str)) :
    ∃ i, aplGetvoca (some t.toTable) str = some (i, behind str) ∧
      t.entry i = (v.code, some v.key, v.ptr) := by
  rw [aplGetvoca_eq]
  cases hfind : t.entries.findIdx? fun v => SameWord v.key (word str) with
  | none =>
      rw [List.findIdx?_eq_none_iff] at hfind
      exact absurd hword (by simpa using hfind v hv)
  | some i =>
      obtain ⟨hi, hmatch, -⟩ := List.findIdx?_eq_some_iff_getElem.mp hfind
      refine ⟨i, rfl, ?_⟩
      have hfound := t.unique (List.getElem_mem hi) (of_decide_eq_true hmatch) hv hword
      rw [Table.entry, List.getElem?_eq_getElem hi, hfound]

theorem aplGetvoca_of_not_mem (t : Vocabulary κ α) {str : List Char}
    (hword : ∀ v ∈ t.entries, ¬ SameWord v.key (word str)) :
    aplGetvoca (some t.toTable) str = some (t.entries.length, str) := by
  have hfind : (t.entries.findIdx? fun v => SameWord v.key (word str)) = none := by
    rw [List.findIdx?_eq_none_iff]
    exact fun v hv => decide_eq_false (hword v hv)
  rw [aplGetvoca_eq, hfind]

theorem Table.entry_length (t : Table κ α) :
    t.entry t.entries.length = (t.unknown.1, none, t.unknown.2) := by
  rw [Table.entry, List.getElem?_eq_none le_rfl]

/-- The entry returned is the one whose key is the word at the start of the string, and the
string becomes what stands behind the word; without such an entry it is the ending entry and
the string stays. The order of the table does not count. -/
theorem aplGetvoca_dispatch (t : Vocabulary κ α) (str : List Char) :
    ∃ i str', aplGetvoca (some t.toTable) str = some (i, str') ∧
      (∀ v ∈ t.entries, SameWord v.key (word str) →
        t.entry i = (v.code, some v.key, v.ptr) ∧ str' = behind str) ∧
      ((∀ v ∈ t.entries, ¬ SameWord v.key (word str)) →
        t.entry i = (t.unknown.1, none, t.unknown.2) ∧ str' = str) ∧
      ∀ t' : Vocabulary κ α, t'.entries.Perm t.entries → t'.unknown = t.unknown →
        ∃ i', aplGetvoca (some t'.toTable) str = some (i', str') ∧ t'.entry i' = t.entry i := by
  by_cases hmem : ∃ v ∈ t.entries, SameWord v.key (word str)
  · obtain ⟨v, hv, hword⟩ := hmem
    obtain ⟨i, hi, hentry⟩ := aplGetvoca_of_mem t hv hword
    refine ⟨i, behind str, hi, ?_, fun hnone => absurd hword (hnone v hv), ?_⟩
    · intro v' hv' hword'
      rw [hentry, t.unique hv hword hv' hword']
      exact ⟨rfl, rfl⟩
    · intro t' hperm _
      obtain ⟨i', hi', hentry'⟩ := aplGetvoca_of_mem t' (hperm.mem_iff.mpr hv) hword
      exact ⟨i', hi', hentry'.trans hentry.symm⟩
  · push Not at hmem
    refine ⟨t.entries.length, str, aplGetvoca_of_not_mem t hmem, ?_, ?_, ?_⟩
    · exact fun v hv hword => absurd hword (hmem v hv)
    · exact fun _ => ⟨t.toTable.entry_length, rfl⟩
    · intro t' hperm hunknown
      have hmem' : ∀ v ∈ t'.entries, ¬ SameWord v.key (word str) := fun v hv =>
        hmem v (hperm.mem_iff.mp hv)
      refine ⟨t'.entries.length, aplGetvoca_of_not_mem t' hmem', ?_⟩
      rw [Table.entry_length, Table.entry_length, hunknown]

/-! ## The actions of `vzgot` -/

/-- The keys of a table that is known are checked one by one. -/
theorem wordy_of_all {vs : List (Voctyp κ α)}
    (h : (vs.all fun v => v.key.all Char.isAlphanum) = true) :
    ∀ v ∈ vs, ∀ c ∈ v.key, c.isAlphanum :=
  fun v hv => List.all_eq_true.mp (List.all_eq_true.mp h v hv)

/-- The codes of the actions. -/
inductive ActionCode where
  | boot | onboot | offboot | reboot | shutdown | create | destroy | enter | exec | freeze | list
  | movefrom | online | sleep | standby | status | rebuild | unknown
  deriving DecidableEq, Repr

/-- `vocaction`; there is no payload. -/
def vocaction : Vocabulary ActionCode Unit where
  entries :=
    [⟨.boot, "boot".toList, ()⟩, ⟨.offboot, "offboot".toList, ()⟩, ⟨.onboot, "onboot".toList, ()⟩,
     ⟨.list, "list".toList, ()⟩, ⟨.reboot, "reboot".toList, ()⟩, ⟨.exec, "exec".toList, ()⟩,
     ⟨.enter, "enter".toList, ()⟩, ⟨.freeze, "freeze".toList, ()⟩, ⟨.create, "create".toList, ()⟩,
     ⟨.online, "online".toList, ()⟩, ⟨.destroy, "destroy".toList, ()⟩,
     ⟨.standby, "standby".toList, ()⟩, ⟨.movefrom, "movefrom".toList, ()⟩,
     ⟨.shutdown, "shutdown".toList, ()⟩, ⟨.sleep, "sleep".toList, ()⟩,
     ⟨.status, "status".toList, ()⟩, ⟨.rebuild, "rebuild".toList, ()⟩]
  unknown := (.unknown, ())
  wordy := wordy_of_all (by decide)
  distinct := by decide

example : (aplGetvoca (some vocaction.toTable) " Reboot now".toList).map
    (fun r => (vocaction.entry r.1, r.2)) =
      some ((ActionCode.reboot, some "reboot".toList, ()), "now".toList) := by
  decide

end Vzgot.Command
