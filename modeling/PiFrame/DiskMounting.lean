import PiFrame.MountedDevices

/-!
# Mounting a disk

`PFU_doMountDisk` tries one file system after another until one of them can be mounted.
What the calls come to is up to the system, and may depend on all that were made before.

NTFS is mounted writable first, and then made read-only by a second command.  Where that
one fails the loop goes on, with the disk still mounted.
-/

namespace DiskMounting

open MountTable (FileSystem fileSystems)

def msRdonly : BitVec 32 := 1
def msNosuid : BitVec 32 := 2
def msNodev : BitVec 32 := 4
def msNoexec : BitVec 32 := 8
def msRemount : BitVec 32 := 32
def msDirsync : BitVec 32 := 128
def msNoatime : BitVec 32 := 1024

def erofs : Nat := 30

/-- What is asked of the system for the device and the mount point: `PFU_mkdir`, `PFU_rmdir`,
`mount`, and the commands `mount -t ntfs-3g -outf8,..` and `mount -t ntfs-3g -oremount,..`. -/
inductive Call
  | mkdir
  | rmdir
  | mount (fs : FileSystem) (flags : BitVec 32)
  | mountNtfs (executable : Bool)
  | remountNtfs (ro : Bool)
  deriving DecidableEq

/-- It is done, or fails with an error number or a status, or the command is killed by a
signal. -/
inductive Answer
  | done
  | failed (code : Nat)
  | killed
  deriving DecidableEq

/-- The calls that were made, with what came of them. -/
abbrev Run := List (Call × Answer)

/-- The system answers a call as it likes. -/
abbrev System := Run → Call → Answer

def System.ask (system : System) (run : Run) (call : Call) : Run × Answer :=
  (run ++ [(call, system run call)], system run call)

/-- `WEXITSTATUS(rv) == 0`. -/
def exitedZero : Answer → Bool
  | .done => true
  | .failed _ => false
  | .killed => true

/-! ## The source -/

/-- The flags of `mount`. -/
def withOptions (flags : BitVec 32) (ro remount executable : Bool) : BitVec 32 :=
  flags ||| (if executable then 0 else msNoexec) ||| (if ro then msRdonly else 0) |||
    (if remount then msRemount else 0)

/-- The two calls of `mount_fat` and `mount_ext`: the second one, where the medium is
read-only, may be for another type. -/
def mountTwice (system : System) (run : Run) (id : FileSystem) (fs retried : FileSystem)
    (flags : BitVec 32) : Run × Int :=
  match system.ask run (.mount fs flags) with
  | (run, .done) => (run, id.id)
  | (run, .failed code) =>
      if code = erofs then
        match system.ask run (.mount retried (flags ||| msRdonly)) with
        | (run, .done) => (run, id.id)
        | (run, _) => (run, -1)
      else (run, -1)
  | (run, .killed) => (run, -1)

def mountFat (system : System) (run : Run) (id : FileSystem) (ro remount executable : Bool) :
    Run × Int :=
  mountTwice system run id .fat .fat
    (withOptions (msNodev ||| msNosuid ||| msDirsync) ro remount executable)

def mountNtfs (system : System) (run : Run) (id : FileSystem) (ro remount executable : Bool) :
    Run × Int :=
  if remount then
    let (run, rv) := system.ask run (.remountNtfs ro)
    if exitedZero rv then (run, id.id) else (run, -2)
  else
    let (run, rv) := system.ask run (.mountNtfs executable)
    if exitedZero rv then
      if ro then
        let (run, rv) := system.ask run (.remountNtfs true)
        if exitedZero rv then (run, id.id) else (run, -3)
      else (run, id.id)
    else (run, -4)

def mountExt (system : System) (run : Run) (id : FileSystem) (ro remount executable : Bool) :
    Run × Int :=
  if id ∉ [.ext4, .ext3, .ext2] then (run, -1)
  else
    mountTwice system run id id .ext4
      (withOptions (msNoatime ||| msNodev ||| msNosuid ||| msDirsync) ro remount executable)

/-- `mountFunc`. -/
def mountFunc : FileSystem →
    Option (System → Run → FileSystem → Bool → Bool → Bool → Run × Int)
  | .fat => some mountFat
  | .ntfs => some mountNtfs
  | .ext4 => some mountExt
  | .ext3 => some mountExt
  | .ext2 => some mountExt
  | .exfat => none
  | .iso9660 => none
  | .udf => none
  | .fuseblk => none
  | .nfs => none

/-- The loop of `PFU_doMountDisk`. -/
def tryMounts (system : System) (ro executable : Bool) :
    List FileSystem → Run → Int → Run × Int
  | [], run, rv => (run, rv)
  | fs :: rest, run, rv =>
      match mountFunc fs with
      | none => tryMounts system ro executable rest run rv
      | some mount =>
          let (run, rv) := mount system run fs ro false executable
          if 0 ≤ rv then (run, rv) else tryMounts system ro executable rest run rv

/-- `PFU_doMountDisk`; `garbage` is what is in `rv` at first. -/
def pfuDoMountDisk (system : System) (garbage : Int) (ro executable : Bool) : Run × Int :=
  let (run, _) := system.ask [] .mkdir
  let (run, rv) := tryMounts system ro executable fileSystems run garbage
  if rv < 0 then ((system.ask run .rmdir).1, rv) else (run, rv)

/-- `PFU_doRemount`. -/
def pfuDoRemount (system : System) (fsType : Int) (ro : Bool) : Run × Int :=
  match fileSystems.find? fun fs => (fs.id : Int) = fsType with
  | none => ([], -2)
  | some fs =>
      match mountFunc fs with
      | none => ([], -3)
      | some mount => mount system [] fs ro true false

/-! ## What is mounted -/

structure Mounted where
  fs : FileSystem
  readOnly : Bool
  noexec : Bool
  deriving DecidableEq

/-- What a call that is done makes of the mounts on the mount point; the last comes first. -/
def Call.effect : Call → List Mounted → List Mounted
  | .mount fs flags, stack =>
      let readOnly := decide (flags &&& msRdonly ≠ 0)
      let noexec := decide (flags &&& msNoexec ≠ 0)
      if flags &&& msRemount ≠ 0 then
        match stack with
        | [] => []
        | top :: stack => { top with readOnly, noexec } :: stack
      else ⟨fs, readOnly, noexec⟩ :: stack
  | .mountNtfs executable, stack => ⟨.ntfs, false, !executable⟩ :: stack
  | .remountNtfs readOnly, top :: stack => { top with readOnly } :: stack
  | .remountNtfs _, [] => []
  | .mkdir, stack => stack
  | .rmdir, stack => stack

/-- The mounts after a run. -/
def mounted (stack : List Mounted) (run : Run) : List Mounted :=
  run.foldl (fun stack (call, answer) => if answer = .done then call.effect stack else stack) stack

/-- The command failed that was to make NTFS read-only. -/
def Stuck (made : Call × Answer) : Prop := made.1 = .remountNtfs true ∧ made.2 ≠ .done

instance : DecidablePred Stuck := fun made =>
  inferInstanceAs (Decidable (made.1 = .remountNtfs true ∧ made.2 ≠ .done))

/-- The mounts that are left of these. -/
def leftover (executable : Bool) (run : Run) : List Mounted :=
  List.replicate (run.countP Stuck) ⟨.ntfs, false, !executable⟩

/-- A mount is what was asked for; but a medium that is read-only is mounted so, and as EXT4
where it was tried as EXT3 or EXT2. -/
structure Suits (ro executable : Bool) (fs : FileSystem) (m : Mounted) : Prop where
  noexec : m.noexec = !executable
  readOnly : ro = true → m.readOnly = true
  kind : m.fs = fs ∨ (fs = .ext3 ∨ fs = .ext2) ∧ m.fs = .ext4 ∧ m.readOnly = true

variable {system : System} {ro executable : Bool} {fs retried : FileSystem} {m : Mounted}
  {run calls more : Run} {stack : List Mounted} {rv : Int} {flags : BitVec 32}

theorem mounted_append : mounted stack (calls ++ more) = mounted (mounted stack calls) more :=
  List.foldl_append

/-- The mounts of a directory pile up, so what is left over does too. -/
theorem leftover_append : leftover executable (calls ++ more)
    = leftover executable more ++ leftover executable calls := by
  rw [leftover, leftover, leftover, List.countP_append, Nat.add_comm, List.replicate_add]

/-! ## One file system -/

/-- What it comes to: the calls are made behind those before, and the value tells whether the
disk is mounted; of a failure nothing is left but NTFS that could not be made read-only. -/
structure Attempt (ro executable : Bool) (fs : FileSystem) (run : Run) (result : Run × Int)
    (calls : Run) : Prop where
  behind : result.1 = run ++ calls
  stuck : calls.countP Stuck ≤ [fs].count .ntfs
  writable : ro = false → calls.countP Stuck = 0
  outcome :
    (result.2 = fs.id ∧ calls.countP Stuck = 0 ∧
      ∃ m, Suits ro executable fs m ∧ ∀ stack, mounted stack calls = m :: stack) ∨
    (result.2 < 0 ∧ ∀ stack, mounted stack calls = leftover executable calls ++ stack)

/-- Flags of a first mount. -/
structure Plain (executable : Bool) (flags : BitVec 32) : Prop where
  first : flags &&& msRemount = 0
  noexec : decide (flags &&& msNoexec ≠ 0) = !executable

/-- A plain mount puts the file system on the directory, read-only and without programs as the
flags say. -/
theorem Plain.effect (h : Plain executable flags) : (Call.mount fs flags).effect stack
    = ⟨fs, decide (flags &&& msRdonly ≠ 0), !executable⟩ :: stack := by
  simp only [Call.effect, h.noexec, h.first, ne_eq, not_true_eq_false, if_false]

/-- A call of `mount` leaves nothing behind. -/
theorem countP_mount {answer : Answer} :
    [(Call.mount fs flags, answer)].countP Stuck = 0 := by
  simp [Stuck]

/-- One plain mount that succeeds is the top of the stack. -/
theorem mounted_done (hplain : Plain executable flags) :
    mounted stack [(.mount fs flags, .done)]
      = ⟨fs, decide (flags &&& msRdonly ≠ 0), !executable⟩ :: stack :=
  hplain.effect

theorem mounted_not_done {call : Call} {answer : Answer} (h : answer ≠ .done) :
    mounted stack [(call, answer)] = stack :=
  if_neg h

/-- Where there is nothing to be left, a failure leaves the mounts as they were. -/
theorem Attempt.of_failure (hcount : calls.countP Stuck = 0) (hrv : rv < 0)
    (hsame : ∀ stack, mounted stack calls = stack) :
    Attempt ro executable fs run (run ++ calls, rv) calls where
  behind := rfl
  stuck := by rw [hcount]; exact Nat.zero_le _
  writable _ := hcount
  outcome := by
    refine .inr ⟨hrv, fun stack => ?_⟩
    rw [hsame, leftover, hcount, List.replicate_zero, List.nil_append]

/-- A mount that succeeded is the disk on the directory, with nothing under it but what was
there. -/
theorem Attempt.of_success (hcount : calls.countP Stuck = 0) (hsuits : Suits ro executable fs m)
    (hmounted : ∀ stack, mounted stack calls = m :: stack) :
    Attempt ro executable fs run (run ++ calls, fs.id) calls where
  behind := rfl
  stuck := by rw [hcount]; exact Nat.zero_le _
  writable _ := hcount
  outcome := .inl ⟨rfl, hcount, m, hsuits, hmounted⟩

/-- Both calls together: the second one makes the mount read-only.  If the first has succeeded
there is no second; if both fail nothing is left. -/
theorem mountTwice_attempt (hplain : Plain executable flags)
    (hplainRO : Plain executable (flags ||| msRdonly))
    (hro : ro = true → flags &&& msRdonly ≠ 0)
    (hrdonly : (flags ||| msRdonly) &&& msRdonly ≠ 0)
    (hkind : retried = fs ∨ (fs = .ext3 ∨ fs = .ext2) ∧ retried = .ext4) :
    ∃ calls, Attempt ro executable fs run (mountTwice system run fs fs retried flags) calls := by
  have htwo : ∀ answer, [(Call.mount fs flags, Answer.failed erofs),
      (Call.mount retried (flags ||| msRdonly), answer)].countP Stuck = 0 := fun answer => by
    rw [← List.singleton_append, List.countP_append, countP_mount, countP_mount]
  have hthrough : ∀ answer stack, mounted stack [(Call.mount fs flags, Answer.failed erofs),
      (Call.mount retried (flags ||| msRdonly), answer)]
        = mounted stack [(Call.mount retried (flags ||| msRdonly), answer)] := fun _ _ => rfl
  rw [mountTwice, System.ask]
  cases hfirst : system run (.mount fs flags) with
  | done =>
      refine ⟨_, .of_success countP_mount ⟨rfl, ?_, .inl rfl⟩ fun stack => mounted_done hplain⟩
      exact fun h => decide_eq_true (hro h)
  | failed code =>
      by_cases hcode : code = erofs
      · subst hcode
        simp only [if_true, System.ask]
        cases hsecond : system (run ++ [(.mount fs flags, .failed erofs)])
            (.mount retried (flags ||| msRdonly)) with
        | done =>
            have hreadOnly := decide_eq_true hrdonly
            rw [List.append_assoc]
            refine ⟨_, .of_success (htwo _) ⟨rfl, fun _ => hreadOnly, ?_⟩ fun stack =>
              (hthrough _ stack).trans (mounted_done hplainRO)⟩
            exact hkind.imp id fun ⟨hfs, hretried⟩ => ⟨hfs, hretried, hreadOnly⟩
        | failed code =>
            rw [List.append_assoc]
            exact ⟨_, .of_failure (htwo _) (by decide) fun stack =>
              (hthrough _ stack).trans (mounted_not_done (by simp))⟩
        | killed =>
            rw [List.append_assoc]
            exact ⟨_, .of_failure (htwo _) (by decide) fun stack =>
              (hthrough _ stack).trans (mounted_not_done (by decide))⟩
      · simp only [if_neg hcode]
        exact ⟨_, .of_failure countP_mount (by decide) fun stack => mounted_not_done (by simp)⟩
  | killed =>
      exact ⟨_, .of_failure countP_mount (by decide) fun stack => mounted_not_done (by decide)⟩

/-- The flags of a first mount. -/
theorem withOptions_plain (hbase : flags = msNodev ||| msNosuid ||| msDirsync ∨
      flags = msNoatime ||| msNodev ||| msNosuid ||| msDirsync) :
    Plain executable (withOptions flags ro false executable) ∧
      Plain executable (withOptions flags ro false executable ||| msRdonly) ∧
      (ro = true → withOptions flags ro false executable &&& msRdonly ≠ 0) ∧
      (withOptions flags ro false executable ||| msRdonly) &&& msRdonly ≠ 0 := by
  rcases hbase with rfl | rfl <;> cases ro <;> cases executable <;>
    exact ⟨⟨by decide, by decide⟩, ⟨by decide, by decide⟩, by decide, by decide⟩

/-- `mount_fat` on a directory with no mount of its own tries one file system. -/
theorem mountFat_attempt :
    ∃ calls, Attempt ro executable .fat run (mountFat system run .fat ro false executable)
      calls := by
  obtain ⟨hplain, hplainRO, hro, hrdonly⟩ := withOptions_plain (.inl rfl)
  exact mountTwice_attempt hplain hplainRO hro hrdonly (.inl rfl)

/-- `mount_ext` tries one file system, whichever of the three it is. -/
theorem mountExt_attempt (hfs : fs ∈ [FileSystem.ext4, .ext3, .ext2]) :
    ∃ calls, Attempt ro executable fs run (mountExt system run fs ro false executable)
      calls := by
  obtain ⟨hplain, hplainRO, hro, hrdonly⟩ := withOptions_plain (.inr rfl)
  rw [mountExt, if_neg (not_not_intro hfs)]
  refine mountTwice_attempt hplain hplainRO hro hrdonly ?_
  simp only [List.mem_cons, List.not_mem_nil, or_false] at hfs
  rcases hfs with rfl | rfl | rfl
  · exact .inl rfl
  · exact .inr ⟨.inl rfl, rfl⟩
  · exact .inr ⟨.inr rfl, rfl⟩

/-- A command that is not killed has an exit code. -/
theorem done_or_failed (hkilled : ∀ run call, system run call ≠ .killed) (run : Run)
    (call : Call) : system run call = .done ∨ ∃ code, system run call = .failed code := by
  cases h : system run call with
  | done => exact .inl rfl
  | failed code => exact .inr ⟨code, rfl⟩
  | killed => exact absurd h (hkilled run call)

/-- NTFS needs a second command to be read-only, and that one may fail.  The mount is left
behind then, though the function reports a failure. -/
theorem mountNtfs_attempt (hkilled : ∀ run call, system run call ≠ .killed) :
    ∃ calls, Attempt ro executable .ntfs run (mountNtfs system run .ntfs ro false executable)
      calls := by
  simp only [mountNtfs, System.ask, Bool.false_eq_true, if_false]
  rcases done_or_failed hkilled run (.mountNtfs executable) with hfirst | ⟨code, hfirst⟩
  · simp only [hfirst, exitedZero, if_true]
    cases ro with
    | false =>
        exact ⟨_, .of_success (m := ⟨.ntfs, false, !executable⟩) (by simp [Stuck])
          ⟨rfl, fun h => h, .inl rfl⟩ fun stack => rfl⟩
    | true =>
        rcases done_or_failed hkilled (run ++ [(.mountNtfs executable, .done)])
          (.remountNtfs true) with hsecond | ⟨code, hsecond⟩
        · simp only [hsecond, if_true, List.append_assoc]
          exact ⟨_, .of_success (m := ⟨.ntfs, true, !executable⟩) (by simp [Stuck])
            ⟨rfl, fun _ => rfl, .inl rfl⟩ fun stack => rfl⟩
        · simp only [hsecond, if_true, Bool.false_eq_true, if_false, List.append_assoc]
          have hcount : [(Call.mountNtfs executable, Answer.done),
              (.remountNtfs true, .failed code)].countP Stuck = 1 := by
            simp [Stuck]
          have hvalue : (-3 : Int) < 0 := by decide
          refine ⟨[(.mountNtfs executable, .done), (.remountNtfs true, .failed code)], rfl,
            hcount.le, fun h => (Bool.noConfusion h), .inr ⟨hvalue, fun stack => ?_⟩⟩
          rw [leftover, hcount]
          rfl
  · simp only [hfirst, exitedZero, Bool.false_eq_true, if_false]
    exact ⟨_, .of_failure (by simp [Stuck]) (by decide) fun stack => mounted_not_done (by simp)⟩

/-- Every function of the table. -/
theorem mountFunc_attempt (hkilled : ∀ run call, system run call ≠ .killed)
    {mount : System → Run → FileSystem → Bool → Bool → Bool → Run × Int}
    (hmount : mountFunc fs = some mount) :
    ∃ calls, Attempt ro executable fs run (mount system run fs ro false executable) calls := by
  cases fs <;> cases hmount
  · exact mountFat_attempt
  · exact mountNtfs_attempt hkilled
  · exact mountExt_attempt (by decide)
  · exact mountExt_attempt (by decide)
  · exact mountExt_attempt (by decide)

/-! ## The loop -/

/-- What the loop comes to. -/
structure Tried (ro executable : Bool) (list : List FileSystem) (run : Run)
    (result : Run × Int) (calls : Run) : Prop where
  behind : result.1 = run ++ calls
  stuck : calls.countP Stuck ≤ list.count .ntfs
  writable : ro = false → calls.countP Stuck = 0
  outcome :
    (0 ≤ result.2 ∧ ∃ fs m, result.2 = fs.id ∧ Suits ro executable fs m ∧
      ∀ stack, mounted stack calls = m :: (leftover executable calls ++ stack)) ∨
    (result.2 < 0 ∧ ∀ stack, mounted stack calls = leftover executable calls ++ stack)

/-- The loop of `do_mount_disk` tries the list in its order and stops at the first that is
mounted. -/
theorem tryMounts_tried (hkilled : ∀ run call, system run call ≠ .killed)
    (list : List FileSystem) (run : Run) (hrv : rv < 0) :
    ∃ calls, Tried ro executable list run (tryMounts system ro executable list run rv) calls := by
  induction list generalizing run rv with
  | nil =>
      exact ⟨[], (List.append_nil run).symm, Nat.zero_le _, fun _ => rfl,
        .inr ⟨hrv, fun stack => rfl⟩⟩
  | cons fs list ih =>
      have hcount : (fs :: list).count .ntfs = [fs].count .ntfs + list.count .ntfs := by
        rw [← List.count_append]
        rfl
      rw [tryMounts]
      cases hmount : mountFunc fs with
      | none =>
          obtain ⟨calls, hbehind, hstuck, hwritable, houtcome⟩ := ih run hrv
          exact ⟨calls, hbehind, by omega, hwritable, houtcome⟩
      | some mount =>
          obtain ⟨calls, hbehind, hstuck, hwritable, houtcome⟩ :
              ∃ calls, Attempt ro executable fs run (mount system run fs ro false executable)
                calls := mountFunc_attempt hkilled hmount
          dsimp only
          rcases houtcome with ⟨hvalue, hnone, m, hsuits, hmounted⟩ | ⟨hvalue, hmounted⟩
          · rw [if_pos (by omega)]
            refine ⟨calls, hbehind, by omega, hwritable,
              .inl ⟨by omega, fs, m, hvalue, hsuits, fun stack => ?_⟩⟩
            rw [hmounted, leftover, hnone]
            rfl
          · -- The next ones go on behind its calls, with what it left.
            rw [if_neg (by omega), hbehind]
            obtain ⟨more, hmoreBehind, hmoreStuck, hmoreWritable, hmore⟩ := ih (run ++ calls) hvalue
            refine ⟨calls ++ more, by rw [hmoreBehind, List.append_assoc], ?_, fun hro => ?_, ?_⟩
            · rw [List.countP_append]
              omega
            · rw [List.countP_append, hwritable hro, hmoreWritable hro]
            · simp only [mounted_append, leftover_append, hmounted]
              exact hmore.imp
                (fun ⟨hpos, fs, m, hid, hsuits, hstack⟩ =>
                  ⟨hpos, fs, m, hid, hsuits, fun stack => by rw [hstack, List.append_assoc]⟩)
                (fun ⟨hneg, hstack⟩ => ⟨hneg, fun stack => by rw [hstack, List.append_assoc]⟩)

/-- A call for the directory changes no mounts. -/
theorem mounted_directory {call : Call} {answer : Answer} (hcall : call = .mkdir ∨ call = .rmdir) :
    mounted stack [(call, answer)] = stack := by
  rcases hcall with rfl | rfl <;> cases answer <;> rfl

/-- Making and removing the directory leaves no mount. -/
theorem leftover_directory {call : Call} {answer : Answer}
    (hcall : call = .mkdir ∨ call = .rmdir) : leftover executable [(call, answer)] = [] := by
  rcases hcall with rfl | rfl <;> simp [leftover, Stuck]

/-- The directory is made in front of the mounts, which changes nothing of them. -/
theorem leftover_mkdir {answer : Answer} :
    leftover executable ((.mkdir, answer) :: calls) = leftover executable calls := by
  rw [← List.singleton_append, leftover_append, leftover_directory (.inl rfl), List.append_nil]

/-- The directory is removed behind the mounts, which changes nothing of them. -/
theorem leftover_rmdir {answer : Answer} :
    leftover executable (calls ++ [(.rmdir, answer)]) = leftover executable calls := by
  rw [leftover_append, leftover_directory (.inr rfl), List.nil_append]

/-- The directory is made first, whatever is in `rv`. -/
theorem doMountDisk_eq (system : System) (garbage : Int) (ro executable : Bool) :
    pfuDoMountDisk system garbage ro executable
      = (let tried := tryMounts system ro executable fileSystems
          [(.mkdir, system [] .mkdir)] (-1)
        if tried.2 < 0 then (tried.1 ++ [(.rmdir, system tried.1 .rmdir)], tried.2) else tried) :=
  rfl

/-- **Mounting a disk.**  Whatever the system answers, short of a command that is killed: the
value is that of a file system exactly if the disk is mounted on top of what was there, as it
was asked for.  Below, or alone after a failure, there can be one mount of NTFS that could not
be made read-only, and nothing else; after a failure the directory is asked to be removed. -/
theorem doMountDisk_mounts (system : System) (garbage : Int) (ro executable : Bool)
    (stack : List Mounted) (hkilled : ∀ run call, system run call ≠ .killed) :
    let run := (pfuDoMountDisk system garbage ro executable).1
    let rv := (pfuDoMountDisk system garbage ro executable).2
    let left := leftover executable run
    left.length ≤ 1 ∧ (ro = false → left = []) ∧
      ((0 ≤ rv ∧ ∃ fs m, rv = fs.id ∧ Suits ro executable fs m ∧
          mounted stack run = m :: (left ++ stack)) ∨
        (rv < 0 ∧ mounted stack run = left ++ stack ∧
          ∃ before answer, run = before ++ [(.rmdir, answer)])) := by
  have hstart : (-1 : Int) < 0 := by decide
  obtain ⟨calls, hbehind, hstuck, hwritable, houtcome⟩ :
      ∃ calls, Tried ro executable fileSystems _ _ calls :=
    tryMounts_tried hkilled fileSystems [(.mkdir, system [] .mkdir)] hstart
  have hlength : (leftover executable calls).length ≤ 1 := by
    rw [leftover, List.length_replicate]
    exact hstuck
  have hnone : ro = false → leftover executable calls = [] := fun hro => by
    rw [leftover, hwritable hro, List.replicate_zero]
  have hmkdir : mounted stack ((.mkdir, system [] .mkdir) :: calls) = mounted stack calls := by
    rw [← List.singleton_append, mounted_append, mounted_directory (.inl rfl)]
  rw [doMountDisk_eq]
  rcases houtcome with ⟨hpos, fs, m, hid, hsuits, hmounted⟩ | ⟨hneg, hmounted⟩
  · simp only [if_neg (Int.not_lt.mpr hpos), hbehind, List.singleton_append, hmkdir, hmounted,
      leftover_mkdir]
    exact ⟨hlength, hnone, .inl ⟨hpos, fs, m, hid, hsuits, rfl⟩⟩
  · simp only [if_pos hneg, hbehind, leftover_rmdir, mounted_append, mounted_directory (.inr rfl),
      List.singleton_append, hmkdir, hmounted, leftover_mkdir]
    exact ⟨hlength, hnone, .inr ⟨hneg, trivial, _, _, rfl⟩⟩

/-- A system on which only `ntfs-3g` can mount, and not remount. -/
def onlyNtfs : System
  | _, .mount _ _ => .failed 22
  | _, .remountNtfs _ => .failed 32
  | _, _ => .done

/-- The system of the example answers every command. -/
theorem onlyNtfs_ne_killed (run : Run) (call : Call) : onlyNtfs run call ≠ .killed := by
  cases call <;> simp [onlyNtfs]

/-- The call fails, and leaves the disk mounted and writable. -/
theorem doMountDisk_mounts_onlyNtfs :
    (pfuDoMountDisk onlyNtfs 0 true false).2 = -1 ∧
      mounted [] (pfuDoMountDisk onlyNtfs 0 true false).1 = [⟨.ntfs, false, true⟩] := by
  obtain ⟨-, -, ⟨hpos, -⟩ | ⟨-, hmounted, -⟩⟩ :=
    doMountDisk_mounts onlyNtfs 0 true false [] onlyNtfs_ne_killed
  · exact absurd hpos (by decide)
  · exact ⟨by decide, hmounted.trans (by decide)⟩

/-! ## Remounting -/

/-- Flags of a mount that is there already. -/
structure Again (flags : BitVec 32) : Prop where
  again : flags &&& msRemount ≠ 0
  noexec : flags &&& msNoexec ≠ 0

/-- The flags of a remount ask for a remount without programs, read-only where that is wanted and
always at the second try. -/
theorem withOptions_again (hbase : flags = msNodev ||| msNosuid ||| msDirsync ∨
      flags = msNoatime ||| msNodev ||| msNosuid ||| msDirsync) :
    Again (withOptions flags ro true false) ∧
      Again (withOptions flags ro true false ||| msRdonly) ∧
      (ro = true → withOptions flags ro true false &&& msRdonly ≠ 0) ∧
      (withOptions flags ro true false ||| msRdonly) &&& msRdonly ≠ 0 := by
  rcases hbase with rfl | rfl <;> cases ro <;>
    exact ⟨⟨by decide, by decide⟩, ⟨by decide, by decide⟩, by decide, by decide⟩

/-- What it comes to for the last mount: it is read-only if it was to be, and `noexec` as it is
told; or nothing has changed. -/
def Remounted (ro : Bool) (noexec : Bool → Bool) (fs : FileSystem) (result : Run × Int) : Prop :=
  (result.2 = fs.id ∧ ∃ readOnly, (ro = true → readOnly = true) ∧ ∀ top stack,
      mounted (top :: stack) result.1 =
        { top with readOnly, noexec := noexec top.noexec } :: stack) ∨
    (result.2 < 0 ∧ ∀ stack, mounted stack result.1 = stack)

/-- A remount changes the top of the stack alone: read-only by the flags, and without programs. -/
theorem mounted_again {top : Mounted} (h : Again flags) :
    mounted (top :: stack) [(.mount fs flags, .done)]
      = { top with readOnly := decide (flags &&& msRdonly ≠ 0), noexec := true } :: stack := by
  show (Call.mount fs flags).effect (top :: stack) = _
  simp only [Call.effect, if_pos h.again, decide_eq_true h.noexec]

/-- A remount that is refused is tried once more as a read-only one, and one of the two counts or
nothing has changed. -/
theorem mountTwice_remounted (hagain : Again flags) (hagainRO : Again (flags ||| msRdonly))
    (hro : ro = true → flags &&& msRdonly ≠ 0)
    (hrdonly : (flags ||| msRdonly) &&& msRdonly ≠ 0) :
    Remounted ro (fun _ => true) fs (mountTwice system [] fs fs retried flags) := by
  have hfail : (-1 : Int) < 0 := by decide
  rw [mountTwice, System.ask]
  cases hfirst : system [] (.mount fs flags) with
  | done =>
      exact .inl ⟨rfl, _, fun h => decide_eq_true (hro h), fun top stack => mounted_again hagain⟩
  | failed code =>
      by_cases hcode : code = erofs
      · subst hcode
        simp only [if_true, System.ask]
        cases hsecond : system ([] ++ [(.mount fs flags, .failed erofs)])
            (.mount retried (flags ||| msRdonly)) with
        | done =>
            exact .inl ⟨rfl, _, fun _ => decide_eq_true hrdonly, fun top stack =>
              mounted_again hagainRO⟩
        | failed code => exact .inr ⟨hfail, fun stack => rfl⟩
        | killed => exact .inr ⟨hfail, fun stack => rfl⟩
      · simp only [if_neg hcode]
        exact .inr ⟨hfail, fun stack => rfl⟩
  | killed => exact .inr ⟨hfail, fun stack => rfl⟩

/-- `mount_ntfs` remounts by a command of its own, which leaves `noexec` as it was. -/
theorem mountNtfs_remounted (hkilled : ∀ run call, system run call ≠ .killed) :
    Remounted ro id .ntfs (mountNtfs system [] .ntfs ro true executable) := by
  have hfail : (-2 : Int) < 0 := by decide
  simp only [mountNtfs, if_true, System.ask]
  rcases done_or_failed hkilled [] (.remountNtfs ro) with hdone | ⟨code, hfailed⟩
  · simp only [hdone, exitedZero, if_true]
    exact .inl ⟨rfl, ro, id, fun top stack => rfl⟩
  · simp only [hfailed, exitedZero, Bool.false_eq_true, if_false]
    exact .inr ⟨hfail, fun stack => rfl⟩

/-- `mount_ext` remounts, and falls back to read-only. -/
theorem mountExt_remounted (hfs : fs ∈ [FileSystem.ext4, .ext3, .ext2]) :
    Remounted ro (fun _ => true) fs (mountExt system [] fs ro true false) := by
  obtain ⟨hagain, hagainRO, hro, hrdonly⟩ := withOptions_again (.inr rfl)
  rw [mountExt, if_neg (not_not_intro hfs)]
  exact mountTwice_remounted hagain hagainRO hro hrdonly

/-- Every function of the table; all but that of NTFS forget that programs could be run. -/
theorem mountFunc_remounted (hkilled : ∀ run call, system run call ≠ .killed)
    {mount : System → Run → FileSystem → Bool → Bool → Bool → Run × Int}
    (hmount : mountFunc fs = some mount) :
    Remounted ro (fun noexec => if fs = .ntfs then noexec else true) fs
      (mount system [] fs ro true false) := by
  cases fs <;> cases hmount
  · obtain ⟨hagain, hagainRO, hro, hrdonly⟩ := withOptions_again (.inl rfl)
    exact mountTwice_remounted hagain hagainRO hro hrdonly
  · exact mountNtfs_remounted hkilled
  · exact mountExt_remounted (by decide)
  · exact mountExt_remounted (by decide)
  · exact mountExt_remounted (by decide)

/-- **Remounting.**  It has the value of the file system exactly if the last mount was made
anew: read-only if that was asked for, and with programs that cannot be run, but for NTFS,
where it is as before.  Otherwise nothing has changed. -/
theorem doRemount_remounts (system : System) (fsType : Int) (ro : Bool) (top : Mounted)
    (stack : List Mounted) (hkilled : ∀ run call, system run call ≠ .killed) :
    let run := (pfuDoRemount system fsType ro).1
    let rv := (pfuDoRemount system fsType ro).2
    (rv = fsType ∧ 0 ≤ rv ∧ ∃ readOnly, (ro = true → readOnly = true) ∧
        mounted (top :: stack) run = { top with
          readOnly, noexec := top.noexec || decide (fsType ≠ FileSystem.ntfs.id) } :: stack) ∨
      (rv < 0 ∧ mounted (top :: stack) run = top :: stack) := by
  rw [pfuDoRemount]
  cases hfind : fileSystems.find? fun fs => (fs.id : Int) = fsType with
  | none => exact .inr ⟨Int.negSucc_lt_zero 1, rfl⟩
  | some fs =>
      have hid : (fs.id : Int) = fsType := by simpa using List.find?_some hfind
      dsimp only
      cases hmount : mountFunc fs with
      | none => exact .inr ⟨Int.negSucc_lt_zero 2, rfl⟩
      | some mount =>
          have hntfs : fsType ≠ FileSystem.ntfs.id ↔ fs ≠ .ntfs := by
            rw [← hid]
            cases fs <;> decide
          have hremounted : Remounted ro _ fs _ := mountFunc_remounted hkilled hmount
          rcases hremounted with ⟨hvalue, readOnly, hro, hmounted⟩ | ⟨hneg, hmounted⟩
          · refine .inl ⟨hvalue.trans hid, by rw [hvalue]; omega, readOnly, hro, ?_⟩
            rw [hmounted]
            by_cases hfs : fs = .ntfs
            · simp [hntfs, hfs]
            · simp [hntfs, hfs]
          · exact .inr ⟨hneg, hmounted _⟩

/-- A disk whose programs can be run is made read-only. -/
theorem doRemount_remounts_fat :
    (pfuDoRemount (fun _ _ => .done) FileSystem.fat.id true).2 = 0 ∧
      mounted [⟨.fat, false, false⟩] (pfuDoRemount (fun _ _ => .done) FileSystem.fat.id true).1
        = [⟨.fat, true, true⟩] := by
  rcases doRemount_remounts (fun _ _ => .done) FileSystem.fat.id true ⟨.fat, false, false⟩ []
    (fun _ _ => Answer.noConfusion) with ⟨hvalue, -, readOnly, hro, hmounted⟩ | ⟨hneg, -⟩
  · refine ⟨hvalue, hmounted.trans ?_⟩
    rw [hro rfl]
    decide
  · exact absurd hneg (by decide)

end DiskMounting
