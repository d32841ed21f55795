import PiFrame.MountTable

/-!
# Where a device is mounted

`PFU_getMountPoint` looks for a device at the beginning of the lines of `/proc/mounts`.  It
finds the first line of the device, with its mount point and its type.  Whether it is
writable it takes from a search for `rw,` in the rest of the line: so the last of the
options does not count, and any other counts that ends with these letters.
-/

namespace MountTable

open CharBuffer SeparatedFields

def comma : UInt8 := ','.toUInt8

/-! ## The source -/

/-- `EpfFileSystem` without `EPF_FS_UNKNOWN` and `EPF_FS_END`. -/
inductive FileSystem
  | fat | exfat | ntfs | ext4 | ext3 | ext2 | iso9660 | udf | fuseblk | nfs
  deriving DecidableEq

def epfFsUnknown : Int := -1

/-- The values of the enumeration, from 0 to `EPF_FS_END`. -/
def fileSystems : List FileSystem :=
  [.fat, .exfat, .ntfs, .ext4, .ext3, .ext2, .iso9660, .udf, .fuseblk, .nfs]

def FileSystem.id : FileSystem → Nat
  | .fat => 0
  | .exfat => 1
  | .ntfs => 2
  | .ext4 => 3
  | .ext3 => 4
  | .ext2 => 5
  | .iso9660 => 6
  | .udf => 7
  | .fuseblk => 8
  | .nfs => 9

/-- `PFU_getFileSystemName`, with the names of `_fslists`. -/
def FileSystem.name : FileSystem → List UInt8
  | .fat => "vfat".toList.map Char.toUInt8
  | .exfat => "exfat".toList.map Char.toUInt8
  | .ntfs => "ntfs".toList.map Char.toUInt8
  | .ext4 => "ext4".toList.map Char.toUInt8
  | .ext3 => "ext3".toList.map Char.toUInt8
  | .ext2 => "ext2".toList.map Char.toUInt8
  | .iso9660 => "iso9660".toList.map Char.toUInt8
  | .udf => "udf".toList.map Char.toUInt8
  | .fuseblk => "fuseblk".toList.map Char.toUInt8
  | .nfs => "nfs".toList.map Char.toUInt8

/-- `tolower`. -/
def lower (c : UInt8) : UInt8 := if 65 ≤ c ∧ c ≤ 90 then c + 32 else c

/-- `PFU_getFileSystemType`. -/
def pfuGetFileSystemType (strFsType : List UInt8) : Int :=
  match fileSystems.find? fun fs => fs.name.map lower = strFsType.map lower with
  | some fs => fs.id
  | none => epfFsUnknown

/-- `"ntfs-3g"`. -/
def ntfs3g : List UInt8 := "ntfs-3g".toList.map Char.toUInt8

/-- `getFsTypeOfFuseblk`; `ps` is what `ps xa` prints, if it can be run. -/
def getFsTypeOfFuseblk (ps : Option (List UInt8)) (devname mntpt : List UInt8) : Int :=
  match ps with
  | none => epfFsUnknown
  | some text =>
      if (readLines newline 256 text.length text).any fun buf =>
          (strstr (stringOf buf) devname).isSome && (strstr (stringOf buf) mntpt).isSome &&
            (strstr (stringOf buf) ntfs3g).isSome
        then FileSystem.ntfs.id
        else epfFsUnknown

/-- What the arguments point to, or `none` for a null pointer. -/
structure Answers where
  mntpt : Option (List UInt8)
  fsType : Option Int
  fsRO : Option Int
  deriving DecidableEq

/-- `strchr` and a NUL in the place that it finds: what is in front of it, and behind it. -/
def cutAt (c : UInt8) (text : List UInt8) : Option (List UInt8 × List UInt8) :=
  if c ∈ text then some (text.takeWhile (· ≠ c), (text.dropWhile (· ≠ c)).drop 1) else none

/-- `"rw,"`. -/
def rwComma : List UInt8 := ['r'.toUInt8, 'w'.toUInt8, comma]

/-- What is stored of a line, from behind the device on; `none` if an assertion fails. -/
def readMount (ps : Option (List UInt8)) (devname rest : List UInt8) (out : Answers) :
    Option Answers := do
  let (dir, rest) ← cutAt blank rest
  let (type, rest) ← cutAt blank rest
  let fsType :=
    if pfuGetFileSystemType type = FileSystem.fuseblk.id then getFsTypeOfFuseblk ps devname dir
    else pfuGetFileSystemType type
  return {
    mntpt := out.mntpt.map fun _ => dir
    fsType := if out.mntpt.isSome then out.fsType.map fun _ => fsType else out.fsType
    fsRO := out.fsRO.map fun _ => if (strstr rest rwComma).isSome then 0 else 1 }

/-- `sizeof(dev)`. -/
def devSize : Nat := 64

/-- `dev`, on the stack. -/
def devOf (stack : Nat → UInt8) (devname : CString) : Buffer devSize :=
  strcpy ⟨stack, false⟩ devname

/-- The test of a line. -/
def startsWith (dev linebuf : List UInt8) : Bool :=
  linebuf.take dev.length = dev ∧ linebuf[dev.length]? = some blank

/-- `PFU_getMountPoint` on the file `content`: its value and what it stores, or `none` if an
assertion fails or the name overruns `dev`. -/
def pfuGetMountPoint (content : List UInt8) (ps : Option (List UInt8)) (stack : Nat → UInt8)
    (devname : CString) (out : Answers) : Option (Int × Answers) :=
  if (devOf stack devname).overrun then none
  else
    match (linesOf content).find? fun linebuf => startsWith devname.text (stringOf linebuf) with
    | none => some (0, out)
    | some linebuf =>
        (readMount ps devname.text ((stringOf linebuf).drop (devname.strlen + 1)) out).map
          fun out => (1, out)

variable {table : List Mount} {mount : Mount} {devname : CString} {dev text rest : List UInt8}
  {c : UInt8} {stack : Nat → UInt8} {ps : Option (List UInt8)} {out : Answers}

/-! ## Lines -/

/-- Behind the device. -/
def Mount.behindDevice (mount : Mount) : List UInt8 :=
  mount.dir ++ blank :: (mount.type ++ blank :: (mount.options ++ blank ::
    (mount.freq ++ blank :: (mount.passno ++ [newline]))))

/-- A line of the table, cut in front of its device's blank. -/
theorem Mount.line_newline (mount : Mount) :
    mount.line ++ [newline] = mount.device ++ blank :: mount.behindDevice := by
  simp [MountFields.line, behindDevice]

/-- A line starts with a device and a blank if the device is its first field. -/
theorem startsWith_iff (hdev : blank ∉ dev) (htext : blank ∉ text) :
    startsWith dev (text ++ blank :: rest) ↔ text = dev := by
  rw [startsWith, decide_eq_true_iff]
  constructor
  · rintro ⟨htake, hblank⟩
    obtain ⟨hlt, hget⟩ := List.getElem?_eq_some_iff.mp hblank
    have hmore := (List.take_append_drop dev.length (text ++ blank :: rest)).symm
    rw [List.drop_eq_getElem_cons hlt, hget, htake] at hmore
    exact (append_sep_inj htext hdev hmore).1
  · rintro rfl
    simp

theorem cutAt_append (h : c ∉ text) : cutAt c (text ++ c :: rest) = some (text, rest) := by
  have hall : ∀ d ∈ text, decide (d ≠ c) = true := by
    intro d hd
    rw [decide_eq_true_eq]
    rintro rfl
    exact h hd
  have hmem : c ∈ text ++ c :: rest := by simp
  rw [cutAt, if_pos hmem, List.takeWhile_append_of_pos hall, List.dropWhile_append_of_pos hall,
    List.takeWhile_cons_of_neg (by simp), List.dropWhile_cons_of_neg (by simp)]
  simp

/-! ## The lookup -/

/-- The option `rw`. -/
def rwOption : List UInt8 := ['r'.toUInt8, 'w'.toUInt8]

/-- What the options of a line are taken for: an option but the last ends with `rw`. -/
def TakenWritable (mount : Mount) : Prop :=
  ∃ option ∈ (mount.options.splitOn comma).dropLast, rwOption <:+ option

instance (mount : Mount) : Decidable (TakenWritable mount) :=
  inferInstanceAs (Decidable (∃ option ∈ (mount.options.splitOn comma).dropLast, _))

/-- The type of a line, for a block device of FUSE as the processes tell. -/
def typeOf (ps : Option (List UInt8)) (mount : Mount) : Int :=
  if pfuGetFileSystemType mount.type = FileSystem.fuseblk.id
    then getFsTypeOfFuseblk ps mount.device mount.dir
    else pfuGetFileSystemType mount.type

/-- What the call stores for a line; the type only beside the mount point. -/
def Answers.ofMount (out : Answers) (ps : Option (List UInt8)) (mount : Mount) : Answers where
  mntpt := out.mntpt.map fun _ => mount.dir
  fsType := if out.mntpt.isSome then out.fsType.map fun _ => typeOf ps mount else out.fsType
  fsRO := out.fsRO.map fun _ => if TakenWritable mount then 0 else 1

/-- `rw,` is found in the line if it stands in the options. -/
theorem Mount.strstr_rwComma (mount : Mount) :
    (strstr (mount.options ++ blank :: (mount.freq ++ blank :: (mount.passno ++ [newline])))
      rwComma).isSome ↔ TakenWritable mount := by
  have hdigits : ∀ field ∈ [mount.freq, mount.passno], comma ∉ field := by
    intro field hfield hmem
    have hin : comma ∈ mount.freq ++ mount.passno := by
      simp only [List.mem_cons, List.not_mem_nil, or_false] at hfield
      rcases hfield with rfl | rfl
      · exact List.mem_append_left _ hmem
      · exact List.mem_append_right _ hmem
    exact absurd (mount.numeric comma hin).1 (by decide)
  have hrest : comma ∉ blank :: (mount.freq ++ blank :: (mount.passno ++ [newline])) := by
    have hfreq := hdigits mount.freq (by simp)
    have hpassno := hdigits mount.passno (by simp)
    have hblank : comma ≠ blank := by decide
    have hnewline : comma ≠ newline := by decide
    simp [hfreq, hpassno, hblank, hnewline]
  rw [strstr_isSome]
  exact infix_splitOn (w := rwOption) (by decide) hrest

/-- The rest of a line is read as the mount that it tells of. -/
theorem readMount_behindDevice :
    readMount ps mount.device mount.behindDevice out = some (out.ofMount ps mount) := by
  have hdir : blank ∉ mount.dir := (mount.plain mount.dir (by simp)).2.1
  have htype : blank ∉ mount.type := (mount.plain mount.type (by simp)).2.1
  simp only [readMount, Mount.behindDevice, cutAt_append hdir, cutAt_append htype,
    mount.strstr_rwComma, Option.bind_eq_bind, Option.bind_some]
  rfl

/-- The lines that the call looks at. -/
theorem find_startsWith (hdev : blank ∉ dev) :
    ((linesOf (procMounts table)).find? fun linebuf => startsWith dev (stringOf linebuf))
      = (table.find? fun mount => mount.device = dev).map fun mount =>
          mount.line ++ [newline] := by
  rw [linesOf_procMounts, List.find?_map]
  congr 2
  funext mount
  have hdevice : blank ∉ mount.device := (mount.plain mount.device (by simp)).2.1
  rw [Function.comp_apply, mount.stringOf_line, mount.line_newline]
  exact Bool.eq_iff_iff.mpr ((startsWith_iff hdev hdevice).trans decide_eq_true_iff.symm)

/-- **Devices.**  For a name without a blank that has room in `dev`, no assertion fails,
and what is found is the first line of the table for the device: its mount point, its type,
and as writable exactly if one of its options but the last ends with `rw`. -/
theorem getMountPoint_eq (table : List Mount) (ps : Option (List UInt8)) (stack : Nat → UInt8)
    (devname : CString) (out : Answers) (hblank : blank ∉ devname.text)
    (hroom : devname.strlen < devSize) :
    pfuGetMountPoint (procMounts table) ps stack devname out
      = match table.find? fun mount => mount.device = devname.text with
        | none => some (0, out)
        | some mount => some (1, out.ofMount ps mount) := by
  have hinside : (devOf stack devname).overrun = false := by
    rw [devOf, strcpy_overrun]
    simp [hroom]
  rw [pfuGetMountPoint, hinside, find_startsWith hblank]
  cases hfind : table.find? fun mount => mount.device = devname.text with
  | none => rfl
  | some mount =>
      have hdevice : mount.device = devname.text := by simpa using List.find?_some hfind
      have hdrop : (mount.line ++ [newline]).drop (devname.strlen + 1) = mount.behindDevice := by
        rw [mount.line_newline, ← CString.length_text, ← hdevice, List.drop_length_add_append]
        rfl
      simp only [Option.map_some, mount.stringOf_line, hdrop, ← hdevice, readMount_behindDevice]
      rfl

/-- The stick, mounted with a single option. -/
def plainStick : Mount where
  toMountFields := { stick.toMountFields with options := "rw".toList.map Char.toUInt8 }
  plain := by decide
  numeric := stick.numeric
  short := by decide

/-- With a single option it is taken for read-only. -/
theorem getMountPoint_eq_plainStick :
    pfuGetMountPoint (procMounts [plainStick, stick]) none (fun _ => 0)
        (ofText ("/dev/sda1".toList.map Char.toUInt8)) ⟨some [], some 0, some 0⟩
      = some (1, ⟨some ("/mnt/usb".toList.map Char.toUInt8), some 0, some 1⟩) := by
  have htext : (ofText ("/dev/sda1".toList.map Char.toUInt8)).text
      = "/dev/sda1".toList.map Char.toUInt8 := text_ofText (by decide)
  have hroom : (ofText ("/dev/sda1".toList.map Char.toUInt8)).strlen < devSize := by
    rw [strlen_ofText (by decide)]
    decide
  rw [getMountPoint_eq _ _ _ _ _ (by rw [htext]; decide) hroom, htext]
  decide +kernel

end MountTable
