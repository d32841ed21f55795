import PiFrame.ConfigHandlers
import PiFrame.Limits

/-!
# The system section

`rt_system`, `wt_system` and their handlers.  A configuration does not come back
from a save when a string of it has bytes that JSON escapes; `system_round_trip`
gives the exact strings that do.
-/

namespace ConfigSystem

open ByteText CJson Limits

structure PFConfigSystemTimezone where
  gmtOff : CString 8
  zone : CString 8
  id : CString 64
  name : CString 64

structure PFConfigSystemNTP where
  enable : Int
  serverCount : Int
  server : Fin maxNtpServerCount → CString 64

structure PFConfigSystemInfo where
  pathDefConfig : CString 128
  pathConfig : CString 128
  baseODD : CString 32
  baseATA : CString 32
  baseUSB : CString 32
  baseNET : CString 32
  prefixUSB : CString 16

structure PFConfigSystem where
  name : CString 64
  subModel : CString 64
  tz : PFConfigSystemTimezone
  ntp : PFConfigSystemNTP
  info : PFConfigSystemInfo

/-- The section of a zeroed `PFConfig`. -/
def zeroed : PFConfigSystem where
  name := .empty _
  subModel := .empty _
  tz := ⟨.empty _, .empty _, .empty _, .empty _⟩
  ntp := ⟨0, 0, fun _ => .empty _⟩
  info := ⟨.empty _, .empty _, .empty _, .empty _, .empty _, .empty _, .empty _⟩

/-! ## Reading -/

/-- The NUL that is written at `name[strlen(jvalue)]` falls on a byte that is still
zero: this handler is the first one to run on the zeroed configuration. -/
def rfSystemName (node : Node) (config : PFConfigSystem) : Option PFConfigSystem :=
  some { config with name := strncpy 64 (jsonGetValue node) }

def rfSystemSubModel (node : Node) (config : PFConfigSystem) : Option PFConfigSystem :=
  some { config with subModel := strncpy 64 (jsonGetValue node) }

/-- A value of the time zone object, or its default. -/
def timezoneValue (n : Nat) [NeZero n] (node : Node) (key default : Text) : Option (CString n) :=
  (jsonGetValueSibling node key).map fun jvalue => strncpy n (jvalue.getD default)

def defaultTimezone : PFConfigSystemTimezone where
  gmtOff := strncpy 8 "9:00".toList
  zone := strncpy 8 "KST".toList
  id := strncpy 64 "Asia/Seoul".toList
  name := strncpy 64 "Seoul".toList

/-- `config_set_timezone` succeeds for the zones that are installed. -/
def rfSystemTimezone (installed : Text → Bool) (node : Node) (config : PFConfigSystem) :
    Option PFConfigSystem := do
  let gmtOff ← timezoneValue 8 node "gmtOff".toList "9:00".toList
  let zone ← timezoneValue 8 node "zone".toList "KST".toList
  let id ← timezoneValue 64 node "id".toList "Asia/Seoul".toList
  let name ← timezoneValue 64 node "name".toList "Seoul".toList
  let tz : PFConfigSystemTimezone :=
    if installed id.text then ⟨gmtOff, zone, id, name⟩ else defaultTimezone
  some { config with tz := tz }

/-- The first passes of the loop over the servers. -/
def readServers (items : List Node) : Nat → PFConfigSystemNTP → PFConfigSystemNTP
  | 0, ntp => ntp
  | i + 1, ntp =>
      let ntp := readServers items i ntp
      match items[i]? with
      | some item =>
          if h : i < maxNtpServerCount then
            { ntp with
              server := Function.update ntp.server ⟨i, h⟩ (strncpy 64 (jsonGetValue item))
              serverCount := i + 1 }
          else ntp
      | none => ntp

/-- There is no result when the list of servers is missing: `cJSON_GetArraySize`
looks into it. -/
def rfSystemNtp (node : Node) (config : PFConfigSystem) : Option PFConfigSystem := do
  let jvalue ← jsonGetValueSibling node "enable".toList
  let enable :=
    match jvalue with
    | some jvalue => if jvalue = "true".toList then 1 else 0
    | none => config.ntp.enable
  let item ← cJsonGetObjectItem node "serverList".toList
  let list ← item
  some { config with
    ntp := readServers list.entries maxNtpServerCount { config.ntp with enable := enable } }

def rfSystemInfo (node : Node) (config : PFConfigSystem) : Option PFConfigSystem := do
  let pathDefConfig ← jsonSetConfigStringValue node "pathDefConfig".toList config.info.pathDefConfig
  let pathConfig ← jsonSetConfigStringValue node "pathConfig".toList config.info.pathConfig
  let baseODD ← jsonSetConfigStringValue node "baseODD".toList config.info.baseODD
  let baseATA ← jsonSetConfigStringValue node "baseATA".toList config.info.baseATA
  let baseUSB ← jsonSetConfigStringValue node "baseUSB".toList config.info.baseUSB
  let baseNET ← jsonSetConfigStringValue node "baseNET".toList config.info.baseNET
  let prefixUSB ← jsonSetConfigStringValue node "prefixUSB".toList config.info.prefixUSB
  some { config with
    info := ⟨pathDefConfig, pathConfig, baseODD, baseATA, baseUSB, baseNET, prefixUSB⟩ }

def rtSystem (installed : Text → Bool) : List (ReadHandler PFConfigSystem) :=
  [⟨"name".toList, rfSystemName⟩, ⟨"subModel".toList, rfSystemSubModel⟩,
    ⟨"timezone".toList, rfSystemTimezone installed⟩, ⟨"ntp".toList, rfSystemNtp⟩,
    ⟨"info".toList, rfSystemInfo⟩]

/-! ## Writing -/

def wfSystemName (root : Members) (config : PFConfigSystem) : Members :=
  root.addString "name".toList config.name.text

def wfSystemSubModel (root : Members) (config : PFConfigSystem) : Members :=
  root.addString "subModel".toList config.subModel.text

def timezoneObject (tz : PFConfigSystemTimezone) : Members :=
  ((((Members.nil.addString "gmtOff".toList tz.gmtOff.text).addString "zone".toList
    tz.zone.text).addString "id".toList tz.id.text).addString "name".toList tz.name.text)

def wfSystemTimezone (root : Members) (config : PFConfigSystem) : Members :=
  root.add "timezone".toList (.object (timezoneObject config.tz))

/-- `array` and `cJSON_CreateStringArray`. -/
def serverArray (ntp : PFConfigSystemNTP) : Items :=
  .ofList (((List.finRange maxNtpServerCount).take ntp.serverCount.toNat).map fun i =>
    .string (ntp.server i).text)

def ntpObject (ntp : PFConfigSystemNTP) : Members :=
  (Members.nil.add "enable".toList (if ntp.enable ≠ 0 then .true else .false)).add
    "serverList".toList (.array (serverArray ntp))

def wfSystemNtp (root : Members) (config : PFConfigSystem) : Members :=
  root.add "ntp".toList (.object (ntpObject config.ntp))

def infoObject (info : PFConfigSystemInfo) : Members :=
  (((((((Members.nil.addString "pathDefConfig".toList info.pathDefConfig.text).addString
    "pathConfig".toList info.pathConfig.text).addString "baseODD".toList
    info.baseODD.text).addString "baseATA".toList info.baseATA.text).addString "baseUSB".toList
    info.baseUSB.text).addString "baseNET".toList info.baseNET.text).addString "prefixUSB".toList
    info.prefixUSB.text)

def wfSystemInfo (root : Members) (config : PFConfigSystem) : Members :=
  root.add "info".toList (.object (infoObject config.info))

def wtSystem : List (WriteHandler PFConfigSystem) :=
  [⟨"name".toList, wfSystemName⟩, ⟨"subModel".toList, wfSystemSubModel⟩,
    ⟨"timezone".toList, wfSystemTimezone⟩, ⟨"ntp".toList, wfSystemNtp⟩,
    ⟨"info".toList, wfSystemInfo⟩]

/-! ## One trip through a document -/

def systemTree (c : PFConfigSystem) : Node := .object (configWriteIterate .nil wtSystem c)

/-- The tree that the write table makes can be printed and parsed again, whatever the section
holds. -/
theorem systemTree_written (c : PFConfigSystem) : (systemTree c).Written := by
  have hnil : Members.nil.Written := trivial
  have htimezone : (Node.object (timezoneObject c.tz)).Written := by
    exact written_addString _ (by decide) (written_addString _ (by decide)
      (written_addString _ (by decide) (written_addString _ (by decide) hnil)))
  have hservers : (Node.array (serverArray c.ntp)).Written := by
    apply written_ofList
    intro item hitem
    obtain ⟨i, -, rfl⟩ := List.mem_map.mp hitem
    exact (c.ntp.server i).nulFree
  have hntp : (Node.object (ntpObject c.ntp)).Written := by
    refine written_add (by decide) hservers (written_add (by decide) ?_ hnil)
    split <;> trivial
  have hinfo : (Node.object (infoObject c.info)).Written := by
    exact written_addString _ (by decide) (written_addString _ (by decide) (written_addString _
      (by decide) (written_addString _ (by decide) (written_addString _ (by decide)
        (written_addString _ (by decide) (written_addString _ (by decide) hnil))))))
  exact written_add (by decide) hinfo (written_add (by decide) hntp (written_add (by decide)
    htimezone (written_addString _ (by decide) (written_addString _ (by decide) hnil))))

/-- The time zone comes back from its own object with each string reread, or as the default if it
is not installed. -/
theorem rf_timezone (installed : Text → Bool) (tz : PFConfigSystemTimezone)
    (config : PFConfigSystem) :
    rfSystemTimezone installed (.object (timezoneObject tz)) config
      = some { config with
          tz := if installed tz.id.reread.text then
            ⟨tz.gmtOff.reread, tz.zone.reread, tz.id.reread, tz.name.reread⟩
            else defaultTimezone } := by
  simp [rfSystemTimezone, timezoneValue, jsonGetValueSibling, jsonGetObject, Node.child,
    timezoneObject, Members.addString, Members.add, Members.find, CString.reread]
  rfl

/-- The information section comes back from its own object with each string reread. -/
theorem rf_info (info : PFConfigSystemInfo) (config : PFConfigSystem) :
    rfSystemInfo (.object (infoObject info)) config
      = some { config with
          info := ⟨info.pathDefConfig.reread, info.pathConfig.reread, info.baseODD.reread,
            info.baseATA.reread, info.baseUSB.reread, info.baseNET.reread,
            info.prefixUSB.reread⟩ } := by
  simp [rfSystemInfo, jsonSetConfigStringValue, jsonGetValueSibling, jsonGetObject, Node.child,
    infoObject, Members.addString, Members.add, Members.find, CString.reread]

/-- The first passes of the loop: each server that has been read stands in its place, and the
others are as they were. -/
theorem readServers_server (items : List Node) (n : Nat) (ntp : PFConfigSystemNTP)
    (i : Fin maxNtpServerCount) :
    (readServers items n ntp).server i
      = if i.val < n then
          (items[i.val]?.map fun item => strncpy 64 (jsonGetValue item)).getD (ntp.server i)
        else ntp.server i := by
  induction n with
  | zero => rfl
  | succ n ih =>
      rw [readServers]
      by_cases hi : i.val = n
      · subst hi
        cases hitem : items[i.val]? with
        | none => simp [ih]
        | some item => simp
      · have hlt : i.val < n + 1 ↔ i.val < n := by omega
        simp only [hlt]
        rw [← ih]
        cases hitem : items[n]? with
        | none => rfl
        | some item =>
            by_cases hn : n < maxNtpServerCount
            · have hne : i ≠ ⟨n, hn⟩ := fun heq => hi (congrArg Fin.val heq)
              simp [hn, Function.update_of_ne hne]
            · simp [hn]

/-- The loop over the servers leaves the switch alone. -/
theorem readServers_enable (items : List Node) (n : Nat) (ntp : PFConfigSystemNTP) :
    (readServers items n ntp).enable = ntp.enable := by
  induction n with
  | zero => rfl
  | succ n ih =>
      rw [readServers]
      split
      · split <;> exact ih
      · exact ih

/-- The loop counts the entries it has read: all of the list, or as many as the table takes. -/
theorem readServers_serverCount (items : List Node) {n : Nat} (ntp : PFConfigSystemNTP)
    (hn : n ≤ maxNtpServerCount) (hzero : ntp.serverCount = 0) :
    (readServers items n ntp).serverCount = min n items.length := by
  induction n with
  | zero => simp [readServers, hzero]
  | succ n ih =>
      rw [readServers]
      have hlt : n < maxNtpServerCount := hn
      by_cases hlen : n < items.length
      · rw [List.getElem?_eq_getElem hlen]
        simp only [hlt, dif_pos]
        omega
      · rw [List.getElem?_eq_none (by omega)]
        simp only [ih (by omega)]
        omega

/-- The time servers come back from their own object: the switch as 0 or 1, and the servers by the
loop. -/
theorem rf_ntp (ntp : PFConfigSystemNTP) (config : PFConfigSystem) :
    rfSystemNtp (.object (ntpObject ntp)) config
      = some { config with
          ntp := readServers (serverArray ntp).toList maxNtpServerCount
            ⟨if ntp.enable ≠ 0 then 1 else 0, config.ntp.serverCount, config.ntp.server⟩ } := by
  by_cases henable : ntp.enable = 0
  · simp [rfSystemNtp, jsonGetValueSibling, jsonGetObject, cJsonGetObjectItem, lower,
      Node.child, ntpObject,
      Members.add, Members.find, henable, Node.entries, jsonGetValue, cJsonPrint, printValue]
  · simp [rfSystemNtp, jsonGetValueSibling, jsonGetObject, cJsonGetObjectItem, lower,
      Node.child, ntpObject,
      Members.add, Members.find, henable, Node.entries, jsonGetValue, cJsonPrint, printValue]

def decoded (installed : Text → Bool) (c : PFConfigSystem) : PFConfigSystem where
  name := c.name.reread
  subModel := c.subModel.reread
  tz := if installed c.tz.id.reread.text then
      ⟨c.tz.gmtOff.reread, c.tz.zone.reread, c.tz.id.reread, c.tz.name.reread⟩ else defaultTimezone
  ntp := readServers (serverArray c.ntp).toList maxNtpServerCount
          ⟨if c.ntp.enable = 0 then 0 else 1, 0, fun _ => .empty _⟩
  info := ⟨c.info.pathDefConfig.reread, c.info.pathConfig.reread, c.info.baseODD.reread,
    c.info.baseATA.reread, c.info.baseUSB.reread, c.info.baseNET.reread, c.info.prefixUSB.reread⟩

/-- One save and one load give the section with every string reread, for any section at all. -/
theorem roundTrip_system (installed : Text → Bool) (c : PFConfigSystem) :
    roundTrip (rtSystem installed) wtSystem zeroed c = some (decoded installed c) := by
  rw [roundTrip_eq (systemTree_written c)]
  simp [rtSystem, wtSystem, configReadIterate, configWriteIterate, wfSystemName,
    wfSystemSubModel, wfSystemTimezone, wfSystemNtp, wfSystemInfo, Members.addString,
    Members.add, jsonGetObject, Node.child,
    Members.find, rfSystemName, rfSystemSubModel, rf_timezone, rf_ntp, rf_info]
  rfl

/-- What the section holds while the service runs. -/
structure Valid (installed : Text → Bool) (c : PFConfigSystem) : Prop where
  enable : c.ntp.enable = 0 ∨ c.ntp.enable = 1
  count : 0 ≤ c.ntp.serverCount ∧ c.ntp.serverCount ≤ maxNtpServerCount
  unused : ∀ i, c.ntp.serverCount ≤ i.val → c.ntp.server i = .empty _
  zone : installed c.tz.id.text = true

structure Stable (c : PFConfigSystem) : Prop where
  name : c.name.Stable
  subModel : c.subModel.Stable
  gmtOff : c.tz.gmtOff.Stable
  zone : c.tz.zone.Stable
  id : c.tz.id.Stable
  tzName : c.tz.name.Stable
  server : ∀ i, (c.ntp.server i).Stable
  pathDefConfig : c.info.pathDefConfig.Stable
  pathConfig : c.info.pathConfig.Stable
  baseODD : c.info.baseODD.Stable
  baseATA : c.info.baseATA.Stable
  baseUSB : c.info.baseUSB.Stable
  baseNET : c.info.baseNET.Stable
  prefixUSB : c.info.prefixUSB.Stable

section

variable {installed : Text → Bool} {c : PFConfigSystem}

/-- For a section that the service can have, the servers come back one by one, with the same
count. -/
theorem decoded_ntp (h : Valid installed c) :
    (decoded installed c).ntp =
      ⟨c.ntp.enable, c.ntp.serverCount, fun i => (c.ntp.server i).reread⟩ := by
  obtain ⟨hlow, hhigh⟩ := h.count
  have hitems : (serverArray c.ntp).toList
      = ((List.finRange maxNtpServerCount).take c.ntp.serverCount.toNat).map fun i =>
        .string (c.ntp.server i).text := Items.toList_ofList _
  have henable : (decoded installed c).ntp.enable = c.ntp.enable := by
    rw [decoded, readServers_enable]
    rcases h.enable with henable | henable <;> simp [henable]
  have hcount : (decoded installed c).ntp.serverCount = c.ntp.serverCount := by
    have hread := readServers_serverCount (serverArray c.ntp).toList
      ⟨if c.ntp.enable = 0 then 0 else 1, 0, fun _ => .empty _⟩ (le_refl _) rfl
    rw [decoded, hread, hitems, List.length_map, List.length_take, List.length_finRange]
    omega
  have hserver : ∀ i, (decoded installed c).ntp.server i = (c.ntp.server i).reread := by
    intro i
    rw [decoded, readServers_server, if_pos i.isLt, hitems]
    by_cases hi : i.val < c.ntp.serverCount.toNat
    · have hitem : (((List.finRange maxNtpServerCount).take c.ntp.serverCount.toNat).map fun i =>
          Node.string (c.ntp.server i).text)[i.val]? = some (.string (c.ntp.server i).text) := by
        rw [List.getElem?_map, List.getElem?_take_of_lt hi]
        simp
      rw [hitem]
      simp [CString.reread]
    · have hnone : (((List.finRange maxNtpServerCount).take c.ntp.serverCount.toNat).map fun i =>
          Node.string (c.ntp.server i).text)[i.val]? = none := by
        apply List.getElem?_eq_none
        rw [List.length_map, List.length_take]
        omega
      rw [hnone, h.unused i (by omega), CString.empty_reread]
      rfl
  rw [← henable, ← hcount, ← funext hserver]

/-- The zone is only reset when it has changed on its way. -/
theorem decoded_tz (h : Valid installed c) (heq : (decoded installed c).tz = c.tz) :
    installed c.tz.id.reread.text = true := by
  by_contra hnot
  have hdefault : (decoded installed c).tz = defaultTimezone := if_neg hnot
  have hid : c.tz.id = strncpy 64 "Asia/Seoul".toList := by
    rw [← heq, hdefault]
    rfl
  have hplain : Plain (strncpy 64 "Asia/Seoul".toList).text := by decide
  rw [hid, (CString.reread_eq_iff _).mpr (Or.inl hplain), ← hid] at hnot
  exact hnot h.zone

/-- The section after one trip is the section itself exactly when its strings are stable.  The
numbers come back in any case. -/
theorem decoded_eq_iff (h : Valid installed c) : decoded installed c = c ↔ Stable c := by
  have hntp := decoded_ntp h
  constructor
  · intro heq
    have hinstalled := decoded_tz h (congrArg PFConfigSystem.tz heq)
    have htz : (decoded installed c).tz
        = ⟨c.tz.gmtOff.reread, c.tz.zone.reread, c.tz.id.reread, c.tz.name.reread⟩ :=
      if_pos hinstalled
    rw [heq] at htz hntp
    have hinfo := (congrArg PFConfigSystem.info heq).symm
    have hname : c.name = c.name.reread := (congrArg PFConfigSystem.name heq).symm
    have hmodel : c.subModel = c.subModel.reread := (congrArg PFConfigSystem.subModel heq).symm
    have stable : ∀ {n : Nat} [NeZero n] {s : CString n}, s = s.reread → s.Stable :=
      fun h => (CString.reread_eq_iff _).mp h.symm
    exact ⟨stable hname, stable hmodel, stable (congrArg (·.gmtOff) htz),
      stable (congrArg (·.zone) htz), stable (congrArg (·.id) htz), stable (congrArg (·.name) htz),
      fun i => stable (congrFun (congrArg (·.server) hntp) i),
      stable (congrArg (·.pathDefConfig) hinfo),
      stable (congrArg (·.pathConfig) hinfo), stable (congrArg (·.baseODD) hinfo),
      stable (congrArg (·.baseATA) hinfo), stable (congrArg (·.baseUSB) hinfo),
      stable (congrArg (·.baseNET) hinfo), stable (congrArg (·.prefixUSB) hinfo)⟩
  · intro hs
    have same : ∀ {n : Nat} [NeZero n] {s : CString n}, s.Stable → s.reread = s :=
      fun h => (CString.reread_eq_iff _).mpr h
    have htz : (decoded installed c).tz = c.tz := by
      rw [decoded, same hs.id, if_pos h.zone, same hs.gmtOff, same hs.zone, same hs.tzName]
    have hinfo : (decoded installed c).info = c.info := by
      rw [decoded, same hs.pathDefConfig, same hs.pathConfig, same hs.baseODD, same hs.baseATA,
        same hs.baseUSB, same hs.baseNET, same hs.prefixUSB]
    have hservers : (fun i => (c.ntp.server i).reread) = c.ntp.server :=
      funext fun i => same (hs.server i)
    rw [hservers] at hntp
    calc decoded installed c
        = ⟨c.name.reread, c.subModel.reread, (decoded installed c).tz, (decoded installed c).ntp,
            (decoded installed c).info⟩ := rfl
      _ = c := by rw [same hs.name, same hs.subModel, htz, hntp, hinfo]

/-- **The round trip of the system section.**  A section comes back from a save and a
restart, and then from any number of them, if and only if each of its strings has no
byte that JSON escapes, or fills its array and is backslashes from the first such
byte on. -/
theorem system_round_trip (h : Valid installed c) :
    (roundTrip (rtSystem installed) wtSystem zeroed c = some c ↔ Stable c) ∧
      ((∀ n, roundTrips (rtSystem installed) wtSystem zeroed n c = some c) ↔ Stable c) := by
  have hone : roundTrip (rtSystem installed) wtSystem zeroed c = some c ↔ Stable c := by
    rw [roundTrip_system, Option.some.injEq, decoded_eq_iff h]
  refine ⟨hone, fun hall => hone.mp ?_, fun hs => roundTrips_eq (hone.mpr hs)⟩
  have htrip := hall 1
  rw [roundTrips, roundTrip_system, Option.bind_some] at htrip
  rw [roundTrip_system]
  exact htrip

end

/-! ## A name with a quote -/

/-- The default of the shipped file, with a name of the user's own. -/
def named (name : CString 64) : PFConfigSystem :=
  { zeroed with name := name, tz := defaultTimezone }

def seoulOnly (id : Text) : Bool := id = "Asia/Seoul".toList

theorem seoul_installed : seoulOnly defaultTimezone.id.text = true := by
  decide

/-- The default section with a name of the user's own is one that the service can have. -/
theorem named_valid (name : CString 64) : Valid seoulOnly (named name) where
  enable := Or.inl rfl
  count := ⟨le_refl _, Int.natCast_nonneg _⟩
  unused := fun _ _ => rfl
  zone := seoul_installed

/-- A plain name comes back. -/
theorem system_round_trip_plain_name :
    roundTrip (rtSystem seoulOnly) wtSystem zeroed (named (strncpy 64 "CamPi".toList))
      = some (named (strncpy 64 "CamPi".toList)) := by
  apply (system_round_trip (named_valid _)).1.mpr
  have hempty : (CString.empty 64).Stable := Or.inl (by decide)
  constructor
  case server => exact fun _ => hempty
  all_goals exact Or.inl (by decide)

/-- A name with a quote comes back with a backslash in front of the quote. -/
theorem system_round_trip_fails : ∃ c : PFConfigSystem, Valid seoulOnly c ∧
    roundTrip (rtSystem seoulOnly) wtSystem zeroed c ≠ some c := by
  refine ⟨named (strncpy 64 ['a', '\x22']), named_valid _, ?_⟩
  rw [roundTrip_system]
  intro heq
  have hname := congrArg (fun c : PFConfigSystem => c.name.text) (Option.some.inj heq)
  revert hname
  decide

end ConfigSystem
