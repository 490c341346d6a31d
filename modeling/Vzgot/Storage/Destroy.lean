import Vzgot.Storage.Tools

/-!
# What destroying a container touches

`loc_destroy c` deletes every line of `fstab` in which the pattern `c\t` occurs, and
removes the volume that carries the name `c` as it is. `locDestroy_touches_only_iff`
says when creating and destroying a container gives back the disk, and the line and the
volume of another container are left alone. For a name without dots
`selected_fstabLine_iff` reads the pattern: it occurs in the line for `d` when `c` ends
the name `d`, the type or the options.
-/

set_option autoImplicit false

namespace Vzgot.Storage

open Vzgot.Sed

/-- The container is not there yet: nothing is mounted on the `HOMEFS` of its name file. -/
def Unmounted (s : Disk) (cont : List Char) : Prop :=
  ∀ homefs, s.names cont = some homefs → s.mounts homefs = none

/-- The mount point of the container that `loc_create` makes. -/
def mountPoint (cfg : Config) (cont : List Char) : List Char :=
  under cfg.vzdir (if cfg.vzfs = some .lvm then vzcont cont else cont)

/-- `loc_create` followed by `loc_destroy` gives back `fstab` and the volumes. -/
def Restores (cfg : Config) (cont : List Char) (s : Disk) : Prop :=
  ∃ s₁ s₂, locCreate cfg cont s = some s₁ ∧ locDestroy cfg cont s₁ = some s₂ ∧
    s₂.fstab = s.fstab ∧ s₂.volumes = s.volumes

/-- On every disk `loc_destroy` leaves the line and the volume alone that `loc_create`
makes for `other`. -/
structure Spares (cfg : Config) (cont other : List Char) : Prop where
  line : ∀ s s', locDestroy cfg cont s = some s' →
    fstabLine cfg other ∈ s.fstab.lines → fstabLine cfg other ∈ s'.fstab.lines
  volume : ∀ s s' v, locDestroy cfg cont s = some s' → newVolume cfg other = some v →
    s.volumes v = true → s'.volumes v = true

/-! ## The pattern -/

/-- A container's own line is selected, whatever stands in front of it. -/
theorem selected_own (cfg : Config) (cont before : List Char) :
    selected cont (before ++ fstabLine cfg cont) = true := by
  rw [selected, occurs_iff]
  refine ⟨(cont ++ ['\t']) ++ fstabFields [under cfg.vzdir cont, "ext4".toList, fstabOptions cfg,
    "0 0".toList], ?_, matchesHead_basic _ _⟩
  rw [fstabLine, fstabFields_cons_cons]
  exact ⟨before ++ sourceDir cfg ++ ['/'], by simp [under, fstabFields]⟩

/-- The pattern of a name without dots occurs in the line for `d` when the name ends `d`,
the type or the options. -/
theorem selected_fstabLine_iff {cfg : Config} {c d : ContName} (hdot : '.' ∉ c.text)
    (hvzdir : '\t' ∉ cfg.vzdir) (hlvm : '\t' ∉ cfg.lvm) :
    selected c.text (fstabLine cfg d.text) = true ↔
      c.text <:+ d.text ∨ c.text <:+ "ext4".toList ∨ c.text <:+ fstabOptions cfg := by
  have hpattern : '.' ∉ c.text ++ ['\t'] := by simp [hdot]
  have htab : '\t' ∉ c.text := c.not_mem (by decide)
  have hslash : '/' ∉ c.text := c.not_mem (by decide)
  have hunder : ∀ dir, '\t' ∉ dir → '\t' ∉ under dir d.text := by
    intro dir hdir
    simp [under, hdir, d.not_mem (x := '\t') (by decide)]
  have hdir : '\t' ∉ sourceDir cfg := by
    rw [sourceDir]
    split
    · simp [under, hlvm]
    · decide
  have hoptions : '\t' ∉ fstabOptions cfg := by
    rw [fstabOptions]
    split <;> decide
  have hlast : ¬ c.text ++ ['\t'] <:+: "0 0".toList := by
    intro h
    have hmem : '\t' ∈ "0 0".toList := h.subset (by simp)
    exact absurd hmem (by decide)
  -- the pattern ends one of the first four fields
  rw [selected, basic_of_not_mem hpattern, occurs_map_some, fstabLine, fstabFields_cons_cons,
    infix_field_iff htab (hunder _ hdir), fstabFields_cons_cons,
    infix_field_iff htab (hunder _ hvzdir), fstabFields_cons_cons,
    infix_field_iff htab (by decide), fstabFields_cons_cons, infix_field_iff htab hoptions]
  simp only [fstabFields, hlast, or_false, under, suffix_append_cons_iff hslash]
  tauto

/-! ## One call -/

section Calls

variable {cfg : Config} {cont : List Char} {s s' : Disk}

/-- `loc_destroy` on a container with nothing mounted. -/
theorem locDestroy_unmounted {homefs : List Char} (hnamed : s.names cont = some homefs)
    (hne : homefs ≠ []) (hmount : s.mounts homefs = none) : locDestroy cfg cont s = some s := by
  simp [locDestroy, hnamed, hne, getFstype, hmount]

theorem getFstype_loop {path n : List Char} :
    getFstype (s.mount path ⟨"ext4".toList, "/dev/loop".toList ++ n⟩) path = some .loopImage := by
  simp [getFstype, Disk.mount]

theorem getFstype_mapper {path n : List Char} :
    getFstype (s.mount path ⟨"ext4".toList, under "/dev/mapper".toList n⟩) path = some .lvm := by
  simp [getFstype, Disk.mount, under]

/-- `loc_destroy` on a container mounted from a loop image. -/
theorem locDestroy_loop {path n : List Char} (hnamed : s.names cont = some path)
    (hne : path ≠ []) :
    locDestroy cfg cont (s.mount path ⟨"ext4".toList, "/dev/loop".toList ++ n⟩) =
      some (((s.mount path ⟨"ext4".toList, "/dev/loop".toList ++ n⟩).sedFstab cont).umount
        (under cfg.vzdir cont)) := by
  have hsame : (s.mount path ⟨"ext4".toList, "/dev/loop".toList ++ n⟩).names cont = some path :=
    hnamed
  simp only [locDestroy, hsame, hne, if_false, getFstype_loop]

/-- `loc_destroy` on a container mounted from a logical volume. -/
theorem locDestroy_lvm {path n : List Char} (hnamed : s.names cont = some path)
    (hne : path ≠ []) :
    locDestroy cfg cont (s.mount path ⟨"ext4".toList, under "/dev/mapper".toList n⟩) =
      some ((((s.mount path ⟨"ext4".toList, under "/dev/mapper".toList n⟩).umount path).sedFstab
        cont).lvremove cont) := by
  have hsame : (s.mount path ⟨"ext4".toList, under "/dev/mapper".toList n⟩).names cont =
      some path := hnamed
  simp only [locDestroy, hsame, hne, if_false, getFstype_mapper]

/-- `loc_destroy` deletes the lines of the pattern or none, and removes the volume that
has the container's name or none. -/
theorem locDestroy_cases (h : locDestroy cfg cont s = some s') :
    (s'.fstab = s.fstab ∨ s'.fstab = s.fstab.delete (selected cont)) ∧
      ∀ v, v ≠ cont → s'.volumes v = s.volumes v := by
  unfold locDestroy at h
  split at h
  · cases h
    exact ⟨.inl rfl, fun _ _ => rfl⟩
  · split at h
    · cases h
    · split at h <;> cases h
      · exact ⟨.inr rfl, fun _ _ => rfl⟩
      · exact ⟨.inr rfl, fun _ _ => rfl⟩
      · exact ⟨.inr rfl, fun v hv => Function.update_of_ne hv _ _⟩
      · exact ⟨.inl rfl, fun _ _ => rfl⟩
      · exact ⟨.inl rfl, fun _ _ => rfl⟩

/-- The first step of `loc_create` finds nothing to destroy. -/
theorem Unmounted.locDestroy (h : Unmounted s cont) (hne : s.names cont ≠ some []) :
    locDestroy cfg cont s = some s := by
  cases hnamed : s.names cont with
  | none => rw [Storage.locDestroy, hnamed]
  | some homefs =>
      apply locDestroy_unmounted hnamed _ (h homefs hnamed)
      rintro rfl
      exact hne hnamed

/-- A new container on a loop image. -/
theorem Unmounted.locCreate_loop (h : Unmounted s cont) (hne : s.names cont ≠ some [])
    (hfs : cfg.vzfs = some .loopImage) :
    locCreate cfg cont s = some ((s.echoFstab (fstabLine cfg cont)).mount (under cfg.vzdir cont)
      ⟨"ext4".toList, "/dev/loop".toList ++ s.freeLoop⟩) := by
  rw [locCreate, h.locDestroy hne, hfs]
  rfl

/-- A new container on a logical volume. -/
theorem Unmounted.locCreate_lvm (h : Unmounted s cont) (hne : s.names cont ≠ some [])
    (hfs : cfg.vzfs = some .lvm) :
    locCreate cfg cont s =
      some (((s.lvcreate (vzcont cont)).echoFstab (fstabLine cfg cont)).mount
        (under cfg.vzdir (vzcont cont))
        ⟨"ext4".toList, under "/dev/mapper".toList (cfg.lvm ++ '-' :: vzcont cont)⟩) := by
  rw [locCreate, h.locDestroy hne, hfs]
  rfl

end Calls

/-! ## Creating and destroying one container -/

section Restore

variable {cfg : Config} {cont : List Char} {s : Disk}

theorem restores_iff {s₁ s₂ : Disk} (h₁ : locCreate cfg cont s = some s₁)
    (h₂ : locDestroy cfg cont s₁ = some s₂) :
    Restores cfg cont s ↔ s₂.fstab = s.fstab ∧ s₂.volumes = s.volumes := by
  constructor
  · rintro ⟨t₁, t₂, ht₁, ht₂, heq⟩
    obtain rfl : s₁ = t₁ := Option.some.inj (h₁.symm.trans ht₁)
    obtain rfl : s₂ = t₂ := Option.some.inj (h₂.symm.trans ht₂)
    exact heq
  · exact fun heq => ⟨s₁, s₂, h₁, h₂, heq⟩

/-- An empty `HOMEFS` ends `loc_create` before it begins. -/
theorem not_restores_of_empty (h : s.names cont = some []) : ¬ Restores cfg cont s := by
  rintro ⟨s₁, s₂, h₁, -⟩
  rw [locCreate, locDestroy, h] at h₁
  cases h₁

/-- With another `HOMEFS` than the new mount point nothing would be destroyed. -/
theorem Restores.named {t : Disk} {path line : List Char} {m : Mount} (hr : Restores cfg cont s)
    (h : Unmounted s cont)
    (hcreate : s.names cont ≠ some [] → locCreate cfg cont s = some (t.mount path m))
    (hfstab : t.fstab = s.fstab.append line) (hnames : t.names = s.names)
    (hmounts : t.mounts = s.mounts) : s.names cont = some path := by
  have hne : s.names cont ≠ some [] := fun hempty => not_restores_of_empty hempty hr
  by_contra hpath
  have hunmounted : Unmounted (t.mount path m) cont := by
    intro homefs hnamed
    have hold : s.names cont = some homefs := hnames ▸ hnamed
    have hother : homefs ≠ path := fun heq => hpath (heq ▸ hold)
    rw [Disk.mount_mounts_of_ne _ _ hother, hmounts]
    exact h homefs hold
  have hnamed : (t.mount path m).names cont ≠ some [] := by
    rw [← hnames] at hne
    exact hne
  rw [restores_iff (hcreate hne) (hunmounted.locDestroy hnamed)] at hr
  exact append_ne_self (hfstab.symm.trans hr.1)

theorem named_ne_empty {dir name : List Char} (h : s.names cont = some (under dir name)) :
    s.names cont ≠ some [] := by
  rw [h]
  exact fun heq => under_ne_nil _ _ (Option.some.inj heq)

/-- On a loop image the new line is the only thing to take away. -/
theorem restores_loop_iff (h : Unmounted s cont) (hfs : cfg.vzfs = some .loopImage) :
    Restores cfg cont s ↔ s.names cont = some (under cfg.vzdir cont) ∧
      s.fstab.rest = [] ∧ ∀ l ∈ s.fstab.lines, selected cont l = false := by
  have hcreate := fun hne => h.locCreate_loop hne hfs
  have hiff : s.names cont = some (under cfg.vzdir cont) → (Restores cfg cont s ↔
      s.fstab.rest = [] ∧ ∀ l ∈ s.fstab.lines, selected cont l = false) := by
    intro hpath
    rw [restores_iff (hcreate (named_ne_empty hpath)) (locDestroy_loop hpath (under_ne_nil _ _)),
      ← delete_append_eq_iff (selected_own cfg cont s.fstab.rest)]
    exact and_iff_left rfl
  constructor
  · intro hr
    have hpath := hr.named h hcreate rfl rfl rfl
    exact ⟨hpath, (hiff hpath).1 hr⟩
  · exact fun hr => (hiff hr.1).2 hr.2

/-- One volume made and one removed give back the volumes. -/
theorem update_update_eq_iff {volumes : List Char → Bool} {made removed : List Char} :
    Function.update (Function.update volumes made true) removed false = volumes ↔
      volumes removed = false ∧ (made = removed ∨ volumes made = true) := by
  rw [Function.update_eq_iff]
  constructor
  · rintro ⟨hremoved, hothers⟩
    refine ⟨hremoved.symm, ?_⟩
    by_cases heq : made = removed
    · exact .inl heq
    · exact .inr (by rw [← hothers made heq, Function.update_self])
  · rintro ⟨hremoved, hmade⟩
    refine ⟨hremoved.symm, fun v hv => ?_⟩
    by_cases hvm : v = made
    · subst hvm
      rw [Function.update_self, hmade.resolve_left hv]
    · rw [Function.update_of_ne hvm]

/-- On a logical volume `HOMEFS` must be spelled with `VZCONT`, and the volume removed must
be the one made. -/
theorem restores_lvm_iff (h : Unmounted s cont) (hfs : cfg.vzfs = some .lvm) :
    Restores cfg cont s ↔ (s.names cont = some (under cfg.vzdir (vzcont cont)) ∧
      s.fstab.rest = [] ∧ ∀ l ∈ s.fstab.lines, selected cont l = false) ∧
        s.volumes cont = false ∧ (vzcont cont = cont ∨ s.volumes (vzcont cont) = true) := by
  have hcreate := fun hne => h.locCreate_lvm hne hfs
  have hiff : s.names cont = some (under cfg.vzdir (vzcont cont)) → (Restores cfg cont s ↔
      (s.fstab.rest = [] ∧ ∀ l ∈ s.fstab.lines, selected cont l = false) ∧
        s.volumes cont = false ∧ (vzcont cont = cont ∨ s.volumes (vzcont cont) = true)) := by
    intro hpath
    rw [restores_iff (hcreate (named_ne_empty hpath)) (locDestroy_lvm hpath (under_ne_nil _ _)),
      ← delete_append_eq_iff (selected_own cfg cont s.fstab.rest), ← update_update_eq_iff]
    rfl
  rw [and_assoc]
  constructor
  · intro hr
    have hpath := hr.named h hcreate rfl rfl rfl
    exact ⟨hpath, (hiff hpath).1 hr⟩
  · exact fun hr => (hiff hr.1).2 hr.2

end Restore

/-! ## Another container -/

section Other

variable {cfg : Config} {cont other : List Char}

/-- A disk with the line and the volumes of another container. -/
def diskOf (cfg : Config) (cont other : List Char) : Disk where
  fstab := ⟨[fstabLine cfg other], []⟩
  volumes _ := true
  mounts _ := none
  names _ := some (under cfg.vzdir cont)
  freeLoop := []

theorem spares_iff : Spares cfg cont other ↔
    selected cont (fstabLine cfg other) = false ∧ newVolume cfg other ≠ some cont := by
  constructor
  · intro h
    -- a disk on which `cont` is mounted from a volume
    have hnamed : (diskOf cfg cont other).names cont = some (under cfg.vzdir cont) := rfl
    have hdestroy := @locDestroy_lvm cfg cont _ _ cont hnamed (under_ne_nil _ _)
    constructor
    · have hline := h.line _ _ hdestroy (List.mem_singleton_self _)
      exact (mem_delete.1 hline).2
    · intro hnew
      have hvolume := h.volume _ _ cont hdestroy hnew rfl
      rw [Disk.lvremove_volumes_self] at hvolume
      cases hvolume
  · rintro ⟨hline, hnew⟩
    constructor
    · intro s s' hs hmem
      rcases (locDestroy_cases hs).1 with heq | heq
      · rwa [heq]
      · rw [heq]
        exact mem_delete.2 ⟨hmem, hline⟩
    · intro s s' v hs hv hold
      have hne : v ≠ cont := by
        rintro rfl
        exact hnew hv
      rw [(locDestroy_cases hs).2 v hne, hold]

end Other

/-! ## Destroying touches only the container -/

/-- Creating and destroying `c` gives back the disk, and destroying `c` leaves alone what
creating `d` adds, exactly when the name file of `c` gives the mount point, `fstab` ends
with a newline, the pattern for `c` occurs neither in a line of it nor in the line for
`d`, and on logical volumes no volume is called `c`, the volume for `c` is called so or
was there before, and the volume for `d` is not. -/
theorem locDestroy_touches_only_iff {cfg : Config}
    (hfs : cfg.vzfs = some .loopImage ∨ cfg.vzfs = some .lvm) {s : Disk} (c d : ContName)
    (hc : Unmounted s c.text) :
    (Restores cfg c.text s ∧ Spares cfg c.text d.text) ↔
      (s.names c.text = some (mountPoint cfg c.text) ∧
        s.fstab.rest = [] ∧ ∀ l ∈ s.fstab.lines, selected c.text l = false) ∧
      selected c.text (fstabLine cfg d.text) = false ∧
      (cfg.vzfs = some .lvm → s.volumes c.text = false ∧
        (vzcont c.text = c.text ∨ s.volumes (vzcont c.text) = true) ∧ vzcont d.text ≠ c.text) := by
  rw [spares_iff, mountPoint]
  rcases hfs with hloop | hlvm
  · rw [restores_loop_iff hc hloop]
    simp [hloop, newVolume]
  · rw [restores_lvm_iff hc hlvm]
    simp only [hlvm, newVolume, if_true, ne_eq, Option.some.injEq, forall_const]
    tauto

/-- A disk with the given lines of `fstab` and no volume, before the container `cont` is
created. -/
def newDisk (cfg : Config) (cont : List Char) (lines : List (List Char)) : Disk where
  fstab := ⟨lines, []⟩
  volumes _ := false
  mounts _ := none
  names name := if name = cont then some (under cfg.vzdir cont) else none
  freeLoop := ['0']

theorem newDisk_unmounted (cfg : Config) (cont : List Char) (lines : List (List Char)) :
    Unmounted (newDisk cfg cont lines) cont := fun _ _ => rfl

def webName : ContName := ⟨"web".toList, by decide, by decide, by decide⟩

def mywebName : ContName := ⟨"myweb".toList, by decide, by decide, by decide⟩

def dbName : ContName := ⟨"db".toList, by decide, by decide, by decide⟩

/-- The configuration of the package with the given file system. -/
def packaged (vzfs : FsType) : Config where
  vzfs := some vzfs
  vzdir := "/vzgot/test".toList
  lvm := "vzvol".toList
  zfspool := "pool_ssd0".toList

theorem locDestroy_touches_only_web :
    Restores (packaged .lvm) "web".toList
        (newDisk (packaged .lvm) "web".toList ["/dev/sda1\t/\text4\tdefaults\t0 1".toList]) ∧
      Spares (packaged .lvm) "web".toList "db".toList :=
  (locDestroy_touches_only_iff (.inr rfl) webName dbName (newDisk_unmounted _ _ _)).2
    ⟨⟨rfl, rfl, by simp [newDisk]; decide⟩, by decide, fun _ => ⟨rfl, .inl (by decide), by decide⟩⟩

/-- Destroying `web` takes away the line of `myweb`, also where the name file is the one
that `vzgot.create` writes. -/
theorem locDestroy_touches_suffix :
    ¬ ∀ (cfg : Config), cfg.vzfs = some .loopImage ∨ cfg.vzfs = some .lvm →
      ∀ (s : Disk) (c d : ContName), c.text ≠ d.text → Unmounted s c.text →
        s.names c.text = some (under cfg.vzdir c.text) →
          Restores cfg c.text s ∧ Spares cfg c.text d.text := by
  intro hall
  have hweb := hall (packaged .loopImage) (.inl rfl) _ webName mywebName (by decide)
    (newDisk_unmounted (packaged .loopImage) _ []) rfl
  have hselected : selected webName.text (fstabLine (packaged .loopImage) mywebName.text) = true := by
    decide
  rw [(spares_iff.1 hweb.2).1] at hselected
  cases hselected

end Vzgot.Storage
