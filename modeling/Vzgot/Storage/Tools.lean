import Mathlib.Logic.Function.Basic
import Vzgot.Library.Sed

/-!
# `loc_create` and `loc_destroy` of `vzgot.tools`

`Disk` is what the two functions read and change: `/etc/fstab`, the logical volumes of
the group `LVM`, the mounts, and `HOMEFS` of the files under `names`. `mount`, `mke2fs`,
`fallocate`, `lvcreate`, `lvremove` and the `zfs` commands do their work; `none` is
`abort`. A path stands for its text, and a mount point carries one mount.
-/

set_option autoImplicit false

namespace Vzgot.Storage

open Vzgot.Sed

/-- Letters, digits, dots, dashes and underscores. -/
def nameChar (c : Char) : Bool := c.isAlphanum || c = '.' || c = '-' || c = '_'

/-- A container name; with a dash in front it would be an option to the commands. -/
structure ContName where
  text : List Char
  ne_nil : text ≠ []
  chars : text.all nameChar = true
  head_ne_dash : text.head? ≠ some '-'

theorem ContName.not_mem (c : ContName) {x : Char} (hx : nameChar x = false) : x ∉ c.text := by
  intro hmem
  have hchar := List.all_eq_true.1 c.chars x hmem
  rw [hx] at hchar
  cases hchar

/-- Labels of the `case` over `VZFS` and over `CONTFS`. -/
inductive FsType where
  | ext4
  | loopImage
  | lvm
  | zfs
  deriving DecidableEq

/-- What `vzgot_config` sets; `vzfs` is `none` for any other text. -/
structure Config where
  vzfs : Option FsType
  vzdir : List Char
  lvm : List Char
  zfspool : List Char

/-- What `findmnt` shows of a mount. -/
structure Mount where
  fstype : List Char
  source : List Char
  deriving DecidableEq

/-- `names` gives `HOMEFS` for the files that exist, `freeLoop` the number of the loop
device that the next `mount` takes. -/
structure Disk where
  fstab : TextFile
  volumes : List Char → Bool
  mounts : List Char → Option Mount
  names : List Char → Option (List Char)
  freeLoop : List Char

/-- `dir/name`. -/
def under (dir name : List Char) : List Char := dir ++ '/' :: name

/-- `VZSPOOL`. -/
def vzspool : List Char := "/var/spool/vzgot".toList

/-- `get_fstype`: `none` is the empty answer. -/
def getFstype (s : Disk) (lmt : List Char) : Option FsType :=
  match s.mounts lmt with
  | none => none
  | some m =>
      if m.fstype = "zfs".toList then some .zfs
      else if m.fstype = "ext4".toList then
        if "/dev/loop".toList.isPrefixOf m.source then some .loopImage
        else if "/dev/mapper".toList.isPrefixOf m.source then some .lvm
        else none
      else none

/-- `VZCONT`: the name without its dots, then without its dashes. -/
def vzcont (cont : List Char) : List Char := (cont.filter (· ≠ '.')).filter (· ≠ '-')

/-- The lines that `sed -e"/${CONT}\t/d"` deletes. -/
def selected (cont line : List Char) : Bool := occurs (basic (cont ++ ['\t'])) line

/-- Fields of a line of `fstab`. -/
def fstabFields : List (List Char) → List Char
  | [] => []
  | [field] => field
  | field :: fields => field ++ '\t' :: fstabFields fields

/-- Directory of the device: `/dev/${LVM}` or `VZSPOOL`. -/
def sourceDir (cfg : Config) : List Char :=
  if cfg.vzfs = some .lvm then under "/dev".toList cfg.lvm else vzspool

/-- The options in `DATALOOP` and in `DATALVM`. -/
def fstabOptions (cfg : Config) : List Char :=
  if cfg.vzfs = some .lvm then "defaults".toList else "loop,defaults,nofail".toList

/-- The line that `loc_create` writes. -/
def fstabLine (cfg : Config) (cont : List Char) : List Char :=
  fstabFields [under (sourceDir cfg) cont, under cfg.vzdir cont, "ext4".toList, fstabOptions cfg,
    "0 0".toList]

/-- The volume that `loc_create` makes. -/
def newVolume (cfg : Config) (cont : List Char) : Option (List Char) :=
  if cfg.vzfs = some .lvm then some (vzcont cont) else none

def Disk.umount (s : Disk) (path : List Char) : Disk :=
  { s with mounts := Function.update s.mounts path none }

def Disk.mount (s : Disk) (path : List Char) (m : Mount) : Disk :=
  { s with mounts := Function.update s.mounts path (some m) }

/-- `sed -i -e"/${CONT}\t/d" /etc/fstab`. -/
def Disk.sedFstab (s : Disk) (cont : List Char) : Disk :=
  { s with fstab := s.fstab.delete (selected cont) }

/-- `echo -e line >> /etc/fstab`. -/
def Disk.echoFstab (s : Disk) (line : List Char) : Disk :=
  { s with fstab := s.fstab.append line }

def Disk.lvcreate (s : Disk) (volume : List Char) : Disk :=
  { s with volumes := Function.update s.volumes volume true }

def Disk.lvremove (s : Disk) (volume : List Char) : Disk :=
  { s with volumes := Function.update s.volumes volume false }

/-- `loc_destroy`. -/
def locDestroy (cfg : Config) (cont : List Char) (s : Disk) : Option Disk :=
  match s.names cont with
  | none => some s
  | some homefs =>
      if homefs = [] then none
      else
        match getFstype s homefs with
        | some .ext4 | some .loopImage => some ((s.sedFstab cont).umount (under cfg.vzdir cont))
        | some .lvm => some (((s.umount homefs).sedFstab cont).lvremove cont)
        | some .zfs => some (s.umount (under cfg.vzdir cont))
        | none => some s

/-- `loc_create`. The mount of a loop image is found by its source in the new line, that
of a volume by the mount point, which is spelled with `VZCONT`. -/
def locCreate (cfg : Config) (cont : List Char) (s : Disk) : Option Disk :=
  (locDestroy cfg cont s).bind fun s =>
    match cfg.vzfs with
    | some .ext4 | some .loopImage =>
        some ((s.echoFstab (fstabLine cfg cont)).mount (under cfg.vzdir cont)
          ⟨"ext4".toList, "/dev/loop".toList ++ s.freeLoop⟩)
    | some .lvm =>
        some (((s.lvcreate (vzcont cont)).echoFstab (fstabLine cfg cont)).mount
          (under cfg.vzdir (vzcont cont))
          ⟨"ext4".toList, under "/dev/mapper".toList (cfg.lvm ++ '-' :: vzcont cont)⟩)
    | some .zfs =>
        if cfg.zfspool = [] then none
        else some (s.mount (under cfg.vzdir cont) ⟨"zfs".toList, under cfg.zfspool cont⟩)
    | none => none

/-! ## What the functions do -/

theorem Disk.mount_mounts_of_ne (s : Disk) {path other : List Char} (m : Mount)
    (h : other ≠ path) : (s.mount path m).mounts other = s.mounts other :=
  Function.update_of_ne h ..

@[simp] theorem Disk.lvremove_volumes_self (s : Disk) (volume : List Char) :
    (s.lvremove volume).volumes volume = false :=
  Function.update_self ..

theorem fstabFields_cons_cons (f g : List Char) (fs : List (List Char)) :
    fstabFields (f :: g :: fs) = f ++ '\t' :: fstabFields (g :: fs) := rfl

theorem under_ne_nil (dir name : List Char) : under dir name ≠ [] := by
  simp [under]

end Vzgot.Storage
