import Mathlib.Data.List.DropRight
import PiFrame.Limits
import PiFrame.SeparatedFields
import PiFrame.StringArrays

/-!
# Lookups in the table of mounts

`PFU_isMounted` and `PFU_getMountDevice` look for a mount point in the lines of
`/proc/mounts` by a search for its name with a blank behind it.  So they find it at the
end of a device, a type or the options as well, and at the end of a longer mount point.
-/

namespace MountTable

open CharBuffer Limits SeparatedFields

/-- `sizeof(linebuf)`. -/
def lineSize : Nat := 1024

def slash : UInt8 := '/'.toUInt8
def blank : UInt8 := ' '.toUInt8
def newline : UInt8 := '\n'.toUInt8

/-- The loop that trims: `len` as long as a slash ends the name, or at least 1. -/
def trimLen (mntpt : List UInt8) : Nat → Nat
  | n + 2 => if mntpt[n + 1]? = some slash then trimLen mntpt (n + 1) else n + 2
  | n => n

/-- The string in a line that was read. -/
def stringOf (linebuf : List UInt8) : List UInt8 := linebuf.takeWhile (· ≠ 0)

/-- The lines that the loops read. -/
def linesOf (content : List UInt8) : List (List UInt8) :=
  readLines newline lineSize content.length content

/-- `mountPoint` of `PFU_isMounted`. -/
def trimmedPoint (mntpt : CString) : StringArray maxBasePathLength :=
  let zeroed := (StringArray.empty maxBasePathLength).toBuffer
  let len := trimLen mntpt.text mntpt.strlen
  strcat ⟨strncpy zeroed mntpt len, len, strncpy_terminated rfl⟩ (ofText [blank])

/-- `PFU_isMounted`; `mounts` is the file, if it can be opened. -/
def pfuIsMounted (mounts : Option (List UInt8)) (mntpt : Option CString) : Int :=
  match mntpt, mounts with
  | some mntpt, some content =>
      if mntpt.strlen = 0 then 0
      else if (linesOf content).any fun linebuf =>
          (strstr (stringOf linebuf) (trimmedPoint mntpt).string.text).isSome then 1
      else 0
  | _, _ => 0

/-- `mountPoint` of `PFU_getMountDevice`, on the stack. -/
def wholePoint (stack : Nat → UInt8) (mntpt : CString) : StringArray maxPathLength :=
  printInto ⟨stack, false⟩ maxPathLength (ofText (mntpt.text ++ [blank]))

/-- `PFU_getMountDevice`: its value, and the string in `devName`. -/
def pfuGetMountDevice (mounts : Option (List UInt8)) (stack : Nat → UInt8)
    (mntpt : Option CString) (devNameSize : Nat) : Int × List UInt8 :=
  match mntpt, mounts with
  | some mntpt, some content =>
      if mntpt.strlen = 0 then (0, [])
      else
        match (linesOf content).find? fun linebuf =>
            (strstr (stringOf linebuf) (wholePoint stack mntpt).string.text).isSome with
        | none => (0, [])
        | some linebuf =>
            if blank ∈ stringOf linebuf then
              (1, ((stringOf linebuf).takeWhile (· ≠ blank)).take (devNameSize - 1))
            else (0, [])
  | _, _ => (0, [])

/-! ## The table -/

/-- The fields of a line. -/
structure MountFields where
  device : List UInt8
  dir : List UInt8
  type : List UInt8
  options : List UInt8
  freq : List UInt8
  passno : List UInt8
  deriving DecidableEq

/-- The line without its newline. -/
def MountFields.line (f : MountFields) : List UInt8 :=
  [f.device, f.dir, f.type, f.options, f.freq].flatMap (· ++ [blank]) ++ f.passno

/-- A line of the table: fields without blanks, two of them numbers, and short enough. -/
structure Mount extends MountFields where
  plain : ∀ field ∈ [device, dir, type, options, freq, passno],
    0 ∉ field ∧ blank ∉ field ∧ newline ∉ field
  numeric : ∀ c ∈ freq ++ passno, 48 ≤ c ∧ c ≤ 57
  short : toMountFields.line.length < 1023

/-- `/proc/mounts`. -/
def procMounts (table : List Mount) : List UInt8 :=
  (table.map fun mount => mount.line).flatMap (· ++ [newline])

/-- A mount point to look for. -/
structure MountPoint where
  path : CString
  absolute : path.bytes 0 = slash
  blankless : blank ∉ path.text
  short : path.strlen < 120

/-- Without the slashes at its end, or a single one. -/
def unslashed (path : List UInt8) : List UInt8 :=
  if path.rdropWhile (· = slash) = [] then [slash] else path.rdropWhile (· = slash)

/-- The first line for a mount point. -/
def mountOf (table : List Mount) (path : List UInt8) : Option Mount :=
  table.find? fun mount => mount.dir = path

/-- `PFU_isMounted` finds what is mounted, and `PFU_getMountDevice` finds its device when
the name has no slash at its end and the buffer has room for the devices. -/
def Agrees (table : List Mount) (m : MountPoint) : Prop :=
  (pfuIsMounted (some (procMounts table)) (some m.path) = 1 ↔
    ∃ mount ∈ table, mount.dir = unslashed m.path.text) ∧
  (unslashed m.path.text = m.path.text → ∀ stack devNameSize,
    (∀ mount ∈ table, mount.device.length < devNameSize) →
      pfuGetMountDevice (some (procMounts table)) stack (some m.path) devNameSize
        = match mountOf table m.path.text with
          | none => (0, [])
          | some mount => (1, mount.device))

/-- A device, a mount point, a type or options end with the path. -/
def Hit (path : List UInt8) (mount : Mount) : Prop :=
  ∃ field ∈ [mount.device, mount.dir, mount.type, mount.options], path <:+ field

instance (path : List UInt8) (mount : Mount) : Decidable (Hit path mount) :=
  inferInstanceAs (Decidable (∃ field ∈ [mount.device, mount.dir, mount.type, mount.options], _))

/-- The path is mounted, or no line has a field that ends with it; and when it has no slash
at its end, the first line with such a field has the device that is mounted there. -/
def Unambiguous (table : List Mount) (path : List UInt8) : Prop :=
  ((∃ mount ∈ table, mount.dir = unslashed path) ∨
    ∀ mount ∈ table, ¬ Hit (unslashed path) mount) ∧
  (unslashed path = path → (table.find? fun mount => Hit path mount).map (fun mount => mount.device)
    = (mountOf table path).map fun mount => mount.device)

variable {table : List Mount} {m : MountPoint} {mount : Mount} {path : List UInt8}

/-! ## The names -/

/-- Slashes are trimmed off the first `n` characters, whatever stands behind them. -/
theorem trimLen_append (front back : List UInt8) {n : Nat} (hn : n ≤ front.length) :
    trimLen (front ++ back) n = trimLen front n := by
  induction n with
  | zero => rfl
  | succ n ih =>
      cases n with
      | zero => rfl
      | succ n =>
          rw [trimLen, trimLen, List.getElem?_append_left (by omega), ih (by omega)]

theorem trimLen_le (path : List UInt8) (n : Nat) : trimLen path n ≤ n := by
  induction n with
  | zero => exact le_rfl
  | succ n ih =>
      cases n with
      | zero => exact le_rfl
      | succ n =>
          rw [trimLen]
          split
          · exact ih.trans (Nat.le_succ _)
          · exact le_rfl

/-- The loop removes the slashes at the end, and keeps the first character whatever it is. -/
theorem take_trimLen (hsome : path ≠ []) :
    path.take (trimLen path path.length) = unslashed path := by
  induction path using List.reverseRecOn with
  | nil => contradiction
  | append_singleton front c ih =>
      cases front with
      | nil =>
          by_cases hc : c = slash
          · subst hc
            rfl
          · simp [unslashed, List.rdropWhile_singleton, hc, trimLen]
      | cons d front =>
          have hlen : (d :: front ++ [c]).length = front.length + 2 := by simp
          have hlast : (d :: front ++ [c])[front.length + 1]? = some c := by simp
          rw [hlen, trimLen, hlast]
          by_cases hc : c = slash
          · have hfront := ih (List.cons_ne_nil d front)
            have hshorter := trimLen_le (d :: front) (front.length + 1)
            have hsame : trimLen (d :: front ++ [c]) (front.length + 1)
                = trimLen (d :: front) (front.length + 1) := trimLen_append (d :: front) [c] le_rfl
            rw [if_pos (congrArg some hc), hsame, List.take_append_of_le_length hshorter, unslashed,
              List.rdropWhile_concat_pos _ _ _ (by simp [hc])]
            exact hfront
          · have hne : ¬ some c = some slash := fun h => hc (Option.some.inj h)
            rw [if_neg hne, unslashed, List.rdropWhile_concat_neg _ _ _ (by simp [hc]), ← hlen,
              List.take_length, if_neg (by simp)]

theorem trimLen_pos (path : List UInt8) {n : Nat} (hn : 0 < n) : 0 < trimLen path n := by
  induction n with
  | zero => exact hn
  | succ n ih =>
      cases n with
      | zero => exact hn
      | succ n =>
          rw [trimLen]
          split
          · exact ih (Nat.succ_pos n)
          · exact Nat.succ_pos _

theorem MountPoint.text_cons (m : MountPoint) : ∃ rest, m.path.text = slash :: rest := by
  obtain ⟨n, hn⟩ : ∃ n, m.path.strlen = n + 1 := by
    refine Nat.exists_eq_succ_of_ne_zero fun hzero => ?_
    have hnul := m.path.at_strlen
    rw [hzero, m.absolute] at hnul
    exact absurd hnul (by decide)
  refine ⟨(List.range n).map fun i => m.path.bytes (i + 1), ?_⟩
  rw [CString.text, hn, List.range_succ_eq_map, List.map_cons, m.absolute, List.map_map]
  rfl

theorem MountPoint.text_ne_nil (m : MountPoint) : m.path.text ≠ [] := by
  obtain ⟨rest, hrest⟩ := m.text_cons
  rw [hrest]
  exact List.cons_ne_nil _ _

/-- The slash at the beginning is not removed. -/
theorem MountPoint.slash_mem (m : MountPoint) : slash ∈ unslashed m.path.text := by
  have hpos := trimLen_pos m.path.text (List.length_pos_iff.mpr m.text_ne_nil)
  rw [← take_trimLen m.text_ne_nil]
  obtain ⟨rest, hrest⟩ := m.text_cons
  obtain ⟨n, hn⟩ := Nat.exists_eq_succ_of_ne_zero (Nat.ne_of_gt hpos)
  rw [hn, hrest, List.take_succ_cons]
  exact List.mem_cons_self

theorem MountPoint.blank_notMem (m : MountPoint) : blank ∉ unslashed m.path.text := by
  rw [← take_trimLen m.text_ne_nil]
  exact fun hmem => m.blankless (List.mem_of_mem_take hmem)

/-- `PFU_isMounted` looks for the path without its last slashes, and a blank. -/
theorem trimmedPoint_text (m : MountPoint) :
    (trimmedPoint m.path).string.text = unslashed m.path.text ++ [blank] := by
  rw [trimmedPoint, strcat_text, text_ofText (by decide), ← take_trimLen m.text_ne_nil,
    CString.length_text]
  congr 1
  exact strncpy_text rfl

/-- `PFU_getMountDevice` looks for the whole path and a blank. -/
theorem wholePoint_text (m : MountPoint) {stack : Nat → UInt8} :
    (wholePoint stack m.path).string.text = m.path.text ++ [blank] := by
  have hnul : 0 ∉ m.path.text ++ [blank] := by
    rw [List.mem_append, not_or]
    exact ⟨CString.zero_notMem_text, by decide⟩
  have hshort := m.short
  rw [wholePoint, printInto_text, text_ofText hnul]
  apply List.take_of_length_le
  rw [List.length_append, CString.length_text]
  show _ ≤ 255
  simp only [List.length_singleton]
  omega

/-! ## The lines -/

/-- A line of the table is the device, a blank, the other fields with a blank behind each, and the
last. -/
theorem Mount.line_eq (mount : Mount) : mount.line = mount.device ++ blank ::
    ([mount.dir, mount.type, mount.options, mount.freq].flatMap (· ++ [blank]) ++
      mount.passno) := by
  simp [MountFields.line]

/-- What is no blank and in no field is not in the line. -/
theorem Mount.notMem_line (mount : Mount) {c : UInt8} (hc : c ≠ blank)
    (hfields : ∀ field ∈ [mount.device, mount.dir, mount.type, mount.options, mount.freq,
      mount.passno], c ∉ field) : c ∉ mount.line := by
  simp only [List.forall_mem_cons] at hfields
  obtain ⟨hdevice, hdir, htype, hoptions, hfreq, hpassno, -⟩ := hfields
  simp [MountFields.line, hdevice, hdir, htype, hoptions, hfreq, hpassno, hc]

/-- The lines that `fgets` reads are those of the table. -/
theorem linesOf_procMounts : linesOf (procMounts table)
    = table.map fun mount => mount.line ++ [newline] := by
  have hlines : ∀ line ∈ table.map fun mount => mount.line,
      newline ∉ line ∧ line.length + 1 < lineSize := by
    intro line hline
    obtain ⟨mount, -, rfl⟩ := List.mem_map.mp hline
    have hshort := mount.short
    refine ⟨mount.notMem_line (by decide) fun field hfield => (mount.plain field hfield).2.2, ?_⟩
    show _ < 1024
    omega
  have hfuel : (table.map fun mount => mount.line).length ≤ (procMounts table).length := by
    rw [procMounts]
    generalize table.map (fun mount => mount.line) = lines
    induction lines with
    | nil => exact le_rfl
    | cons line lines ih =>
        rw [List.flatMap_cons, List.length_append, List.length_cons, List.length_append,
          List.length_singleton]
        omega
  have hread := readLines_lines hlines hfuel
  rw [List.map_map] at hread
  exact hread

/-- There is no NUL in a line. -/
theorem Mount.stringOf_line (mount : Mount) :
    stringOf (mount.line ++ [newline]) = mount.line ++ [newline] := by
  have hnul : 0 ∉ mount.line :=
    mount.notMem_line (by decide) fun field hfield => (mount.plain field hfield).1
  rw [stringOf, List.takeWhile_eq_self_iff]
  intro c hc
  rw [decide_eq_true_eq]
  rintro rfl
  rcases List.mem_append.mp hc with hmem | hmem
  · exact hnul hmem
  · exact absurd (List.mem_singleton.mp hmem) (by decide)

/-- **The search.**  A line is found when one of its first four fields ends with the path. -/
theorem Mount.strstr_line (mount : Mount) (hslash : slash ∈ path) (hblank : blank ∉ path) :
    (strstr (stringOf (mount.line ++ [newline])) (path ++ [blank])).isSome ↔ Hit path mount := by
  have hfields : ∀ field ∈ [mount.device, mount.dir, mount.type, mount.options, mount.freq],
      blank ∉ field := fun field hfield =>
    (mount.plain field (List.mem_append_left [mount.passno] hfield)).2.1
  have hlast : blank ∉ mount.passno ++ [newline] := by
    rw [List.mem_append, not_or]
    exact ⟨(mount.plain mount.passno (by simp)).2.1, by decide⟩
  have hnumber : ¬ path <:+ mount.freq := fun hsuffix => by
    have hdigit := mount.numeric slash (List.mem_append_left _ (hsuffix.subset hslash))
    exact absurd hdigit.1 (by decide)
  rw [strstr_isSome, mount.stringOf_line, MountFields.line, List.append_assoc,
    infix_fields hblank hfields hlast, Hit]
  simp [hnumber]

/-! ## The lookups -/

theorem MountPoint.strlen_ne_zero (m : MountPoint) : m.path.strlen ≠ 0 := by
  rw [← CString.length_text]
  exact mt List.length_eq_zero_iff.mp m.text_ne_nil

/-- `PFU_isMounted` finds the path if and only if a line of the table has it. -/
theorem isMounted_iff (m : MountPoint) :
    pfuIsMounted (some (procMounts table)) (some m.path) = 1 ↔
      ∃ mount ∈ table, Hit (unslashed m.path.text) mount := by
  have hany : ((linesOf (procMounts table)).any fun linebuf =>
      (strstr (stringOf linebuf) (trimmedPoint m.path).string.text).isSome) = true ↔
        ∃ mount ∈ table, Hit (unslashed m.path.text) mount := by
    rw [linesOf_procMounts, List.any_map, List.any_eq_true, trimmedPoint_text]
    exact exists_congr fun mount =>
      and_congr_right fun _ => mount.strstr_line m.slash_mem m.blank_notMem
  rw [pfuIsMounted, if_neg m.strlen_ne_zero, ← hany]
  split
  · next h => exact iff_of_true rfl h
  · next h => exact iff_of_false (by decide) h

/-- The device in a line. -/
theorem Mount.takeWhile_line (mount : Mount) :
    (mount.line ++ [newline]).takeWhile (· ≠ blank) = mount.device := by
  have hdevice : ∀ c ∈ mount.device, decide (c ≠ blank) = true := by
    intro c hc
    rw [decide_eq_true_eq]
    rintro rfl
    exact (mount.plain mount.device (by simp)).2.1 hc
  rw [mount.line_eq, List.append_assoc, List.takeWhile_append_of_pos hdevice, List.cons_append,
    List.takeWhile_cons_of_neg (by simp), List.append_nil]

/-- Of a path that does not end in a slash, `PFU_getMountDevice` gives the device of the first
line that has it. -/
theorem getMountDevice_eq (m : MountPoint) (hsame : unslashed m.path.text = m.path.text)
    {stack : Nat → UInt8} {devNameSize : Nat}
    (hroom : ∀ mount ∈ table, mount.device.length < devNameSize) :
    pfuGetMountDevice (some (procMounts table)) stack (some m.path) devNameSize
      = match table.find? fun mount => Hit m.path.text mount with
        | none => (0, [])
        | some mount => (1, mount.device) := by
  have hslash := hsame ▸ m.slash_mem
  have hfind : ((linesOf (procMounts table)).find? fun linebuf =>
      (strstr (stringOf linebuf) (wholePoint stack m.path).string.text).isSome)
        = (table.find? fun mount => Hit m.path.text mount).map fun mount =>
            mount.line ++ [newline] := by
    rw [linesOf_procMounts, List.find?_map, wholePoint_text]
    congr 2
    funext mount
    exact Bool.eq_iff_iff.mpr
      ((mount.strstr_line hslash m.blankless).trans (decide_eq_true_iff).symm)
  rw [pfuGetMountDevice, if_neg m.strlen_ne_zero, hfind]
  cases hmount : table.find? fun mount => Hit m.path.text mount with
  | none => rfl
  | some mount =>
      have hin : mount ∈ table := List.mem_of_find?_eq_some hmount
      have hblank : blank ∈ mount.line ++ [newline] := by
        rw [mount.line_eq]
        simp
      have hlen := hroom mount hin
      simp only [Option.map_some, mount.stringOf_line, if_pos hblank, mount.takeWhile_line]
      rw [List.take_of_length_le (by omega)]

/-- The line of a mount has the path of its directory. -/
theorem hit_of_dir (hdir : mount.dir = path) : Hit path mount :=
  ⟨mount.dir, by simp, hdir ▸ List.suffix_refl _⟩

/-- Two lookups have the same result when they find the same device. -/
theorem result_eq_iff {found expected : Option Mount} :
    ((match found with
      | none => (0, [])
      | some mount => (1, mount.device) : Int × List UInt8)
        = match expected with
          | none => (0, [])
          | some mount => (1, mount.device)) ↔
      found.map (fun mount => mount.device) = expected.map fun mount => mount.device := by
  cases found <;> cases expected <;> simp

/-- **Lookups.**  They agree with the table exactly if it is unambiguous for the path. -/
theorem agrees_iff (table : List Mount) (m : MountPoint) :
    Agrees table m ↔ Unambiguous table m.path.text := by
  refine and_congr ?_ (forall_congr' fun hsame => ?_)
  · rw [isMounted_iff]
    constructor
    · intro h
      by_cases hhit : ∃ mount ∈ table, Hit (unslashed m.path.text) mount
      · exact .inl (h.mp hhit)
      · exact .inr fun mount hin hbad => hhit ⟨mount, hin, hbad⟩
    · intro h
      refine ⟨fun ⟨mount, hin, hhit⟩ => ?_, fun ⟨mount, hin, hdir⟩ => ⟨mount, hin, hit_of_dir hdir⟩⟩
      exact h.resolve_right fun hnone => hnone mount hin hhit
  · constructor
    · intro h
      have hroom : ∀ mount ∈ table, mount.device.length < 1023 := by
        intro mount _
        have hshort := mount.short
        rw [mount.line_eq, List.length_append] at hshort
        omega
      have hdevice := h (fun _ => 0) 1023 hroom
      rw [getMountDevice_eq m hsame hroom] at hdevice
      exact result_eq_iff.mp hdevice
    · intro h stack size hroom
      rw [getMountDevice_eq m hsame hroom]
      exact result_eq_iff.mpr h

/-- A stick below `/mnt`. -/
def stick : Mount where
  device := "/dev/sda1".toList.map Char.toUInt8
  dir := "/mnt/usb".toList.map Char.toUInt8
  type := "vfat".toList.map Char.toUInt8
  options := "rw,noatime".toList.map Char.toUInt8
  freq := "0".toList.map Char.toUInt8
  passno := "0".toList.map Char.toUInt8
  plain := by decide
  numeric := by decide +kernel
  short := by decide

def usb : MountPoint where
  path := ofText ("/usb".toList.map Char.toUInt8)
  absolute := rfl
  blankless := by rw [text_ofText (by decide)]; decide
  short := by rw [strlen_ofText (by decide)]; decide

/-- `/usb` is found at the end of `/mnt/usb`. -/
theorem usb_not_agrees : ¬ Agrees [stick] usb := by
  have htext : usb.path.text = "/usb".toList.map Char.toUInt8 := text_ofText (by decide)
  intro ⟨hmounted, _⟩
  rw [isMounted_iff, htext] at hmounted
  exact absurd (hmounted.mp (by decide)) (by decide)

end MountTable
