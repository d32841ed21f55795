import PiFrame.ConfigNetwork
import PiFrame.RecordMemory

/-!
# Loading into the memory of a configuration

The arrays of `PFConfigSystem` and `PFConfigNetwork` as they lie in memory, and the
handlers of `rt_system` and `rt_network` with the copies they make there.  A copy
that does not fit runs into the arrays behind its own.

What a handler stores depends on the document and not on what the memory held:
each section of a document has a list of rows, and to load a document is to
run the rows of the sections it has.
-/

namespace ConfigMemory

open ByteText Limits RecordMemory
open CJson hiding strcpy strncpy
open RecordMemory.Layout (size)
open ConfigNetwork (pfuIsValidStrIPv4 lookup basicInterfaceTable basicTypeTable
  netDefaultIp netDefaultNetmask netDefaultGateway netDefaultDns1
  netDefaultDns2)

/-! ## The two sections of `PFConfig` -/

/-- The members of `PFConfigSystem` and `PFConfigNetwork`. -/
inductive Field
  | name | subModel
  | gmtOff | zone | id | tzName
  | enable | serverCount | server (i : Fin maxNtpServerCount)
  | pathDefConfig | pathConfig | baseODD | baseATA | baseUSB | baseNET | prefixUSB
  | netif | type | devWired
  | ipaddr | netmask | gateway | dns1 | dns2
  deriving DecidableEq

/-- The order of the members and their sizes leave no gap for an alignment. -/
instance : Layout Field where
  fields := [.name, .subModel, .gmtOff, .zone, .id, .tzName, .enable, .serverCount]
    ++ (List.finRange maxNtpServerCount).map .server
    ++ [.pathDefConfig, .pathConfig, .baseODD, .baseATA, .baseUSB, .baseNET, .prefixUSB,
      .netif, .type, .devWired, .ipaddr, .netmask, .gateway, .dns1, .dns2]
  size
    | .name | .subModel | .id | .tzName => 64
    | .gmtOff | .zone => 8
    | .enable | .serverCount | .netif | .type => 4
    | .server _ | .ipaddr | .netmask | .gateway | .dns1 | .dns2 => maxAddrLength
    | .pathDefConfig | .pathConfig => 128
    | .baseODD | .baseATA | .baseUSB | .baseNET => 32
    | .prefixUSB | .devWired => 16
  complete f := by cases f <;> simp

/-- The members that are strings. -/
def Field.IsString : Field → Prop
  | .enable | .serverCount | .netif | .type => False
  | _ => True

abbrev PFConfig := Record Field

/-- A zeroed `PFConfig`. -/
def zeroed : PFConfig := ⟨[], []⟩

/-- The bytes of an `int`, the lowest first. -/
def intBytes (n : Nat) : Text :=
  [Char.ofNat (n % 256), Char.ofNat (n / 256 % 256), Char.ofNat (n / 65536 % 256),
    Char.ofNat (n / 16777216 % 256)]

/-- A number is assigned to a member. -/
def assign (f : Field) (n : Nat) : Row Field := ⟨f, 0, intBytes n⟩

/-! ## Reading -/

/-- The string that `json_getValue` returns. -/
def stringOf (item : Node) : Text := cString (jsonGetValue item)

/-- The string that `json_getValueSibling` returns, or a null pointer. -/
def siblingString (node : Node) (key : Text) : Option (Option Text) :=
  (jsonGetValueSibling node key).map fun jvalue => jvalue.map cString

def rfSystemName (node : Node) (config : PFConfig) : Option PFConfig :=
  let jvalue := stringOf node
  some (config.runs [strncpy .name jvalue (size Field.name - 1), terminate .name jvalue.length])

def rfSystemSubModel (node : Node) (config : PFConfig) : Option PFConfig :=
  some (config.run (strncpy .subModel (stringOf node) (size Field.subModel - 1)))

/-- A value of the time zone object, or its default. -/
def timezoneValue (node : Node) (key : Text) (f : Field) (default : Text) (config : PFConfig) :
    Option PFConfig :=
  (siblingString node key).map fun jvalue =>
    match jvalue with
    | some jvalue => config.run (snprintf f (size f) jvalue)
    | none => config.run (strcpy f default)

/-- `config_set_timezone` succeeds for the zones that are installed. -/
def rfSystemTimezone (installed : Text → Bool) (node : Node) (config : PFConfig) :
    Option PFConfig := do
  let config ← timezoneValue node "gmtOff".toList .gmtOff "9:00".toList config
  let config ← timezoneValue node "zone".toList .zone "KST".toList config
  let config ← timezoneValue node "id".toList .id "Asia/Seoul".toList config
  let config ← timezoneValue node "name".toList .tzName "Seoul".toList config
  if installed (config.string .id) then some config
  else some (config.runs [strcpy .gmtOff "9:00".toList, strcpy .zone "KST".toList,
    strcpy .id "Asia/Seoul".toList, strcpy .tzName "Seoul".toList])

/-- The first passes of the loop over the servers. -/
def readServers (items : List Node) : Nat → PFConfig → PFConfig
  | 0, config => config
  | i + 1, config =>
      let config := readServers items i config
      match items[i]? with
      | some item =>
          if h : i < maxNtpServerCount then
            config.runs [strncpy (.server ⟨i, h⟩) (stringOf item) (maxAddrLength - 1),
              assign .serverCount (i + 1)]
          else config
      | none => config

/-- `cJSON_GetArraySize` looks into a list that is missing. -/
def rfSystemNtp (node : Node) (config : PFConfig) : Option PFConfig := do
  let jvalue ← siblingString node "enable".toList
  let config :=
    match jvalue with
    | some jvalue => config.run (assign .enable (if jvalue = "true".toList then 1 else 0))
    | none => config
  let item ← cJsonGetObjectItem node "serverList".toList
  let list ← item
  some (readServers list.entries maxNtpServerCount config)

def jsonSetConfigStringValue (node : Node) (key : Text) (f : Field) (config : PFConfig) :
    Option PFConfig :=
  (siblingString node key).map fun jvalue =>
    match jvalue with
    | some jvalue => config.run (strncpy f jvalue (size f - 1))
    | none => config

def rfSystemInfo (node : Node) (config : PFConfig) : Option PFConfig := do
  let config ← jsonSetConfigStringValue node "pathDefConfig".toList .pathDefConfig config
  let config ← jsonSetConfigStringValue node "pathConfig".toList .pathConfig config
  let config ← jsonSetConfigStringValue node "baseODD".toList .baseODD config
  let config ← jsonSetConfigStringValue node "baseATA".toList .baseATA config
  let config ← jsonSetConfigStringValue node "baseUSB".toList .baseUSB config
  let config ← jsonSetConfigStringValue node "baseNET".toList .baseNET config
  jsonSetConfigStringValue node "prefixUSB".toList .prefixUSB config

def rtSystem (installed : Text → Bool) : List (ReadHandler PFConfig) :=
  [⟨"name".toList, rfSystemName⟩, ⟨"subModel".toList, rfSystemSubModel⟩,
    ⟨"timezone".toList, rfSystemTimezone installed⟩, ⟨"ntp".toList, rfSystemNtp⟩,
    ⟨"info".toList, rfSystemInfo⟩]

/-- The index of a string in a table is assigned when it is found. -/
def assignIndex (table : List Text) (jvalue : Option Text) (f : Field) (config : PFConfig) :
    PFConfig :=
  match jvalue.bind (lookup table) with
  | some i => config.run (assign f i)
  | none => config

def rfNetworkBasic (node : Node) (config : PFConfig) : Option PFConfig := do
  let jvalue ← siblingString node "interface".toList
  let config := assignIndex basicInterfaceTable jvalue .netif config
  let jvalue ← siblingString node "connection".toList
  let config := assignIndex basicTypeTable jvalue .type config
  let jvalue ← siblingString node "devWired".toList
  some (config.run (strcpy .devWired (jvalue.getD "eth0".toList)))

def staticIpSetConfig (node : Node) (key : Text) (value : Field) (defvalue : Text)
    (config : PFConfig) : Option PFConfig :=
  (siblingString node key).map fun jvalue =>
    match jvalue with
    | some jvalue =>
        if pfuIsValidStrIPv4 jvalue then
          config.runs [strncpy value jvalue maxAddrLength, terminate value jvalue.length]
        else config.run (strcpy value defvalue)
    | none => config.run (strcpy value defvalue)

def rfNetworkStaticIp (node : Node) (config : PFConfig) : Option PFConfig := do
  let config ← staticIpSetConfig node "ipaddr".toList .ipaddr netDefaultIp config
  let config ← staticIpSetConfig node "netmask".toList .netmask netDefaultNetmask config
  let config ← staticIpSetConfig node "gateway".toList .gateway netDefaultGateway config
  let config ← staticIpSetConfig node "dns1".toList .dns1 netDefaultDns1 config
  staticIpSetConfig node "dns2".toList .dns2 netDefaultDns2 config

def rtNetwork : List (ReadHandler PFConfig) :=
  [⟨"basic".toList, rfNetworkBasic⟩, ⟨"staticIp".toList, rfNetworkStaticIp⟩]

/-- `JsonToMem` of the documents of both classes. -/
def load (installed : Text → Bool) (system network : Node) (config : PFConfig) :
    Option PFConfig :=
  (configReadIterate system (rtSystem installed) config).bind
    (configReadIterate network rtNetwork)

/-! ## The members of a document -/

/-- The names of the members can be compared: the item is not an array with entries. -/
def Named (node : Node) : Prop := node.child ≠ none

def member (node : Node) (name : Text) : Option Node :=
  node.child.bind fun child => child.find (· == name)

/-- The string under a key. -/
def value (node : Node) (key : Text) : Option Text := (member node key).map stringOf

variable {node root : Node} {key : Text} {config : PFConfig}

/-- Where the names of an item can be compared, `json_getObject` finds the first member of that
name, or none. -/
theorem jsonGetObject_of_named (h : Named root) :
    jsonGetObject root key = some (member root key) := by
  rw [jsonGetObject, member]
  cases hchild : root.child with
  | none => exact absurd hchild h
  | some child => rfl

/-- Looking for a name among the entries of an array is where `strcmp` is given a null pointer. -/
theorem jsonGetObject_of_not_named (h : ¬ Named root) : jsonGetObject root key = none := by
  have hchild : root.child = none := not_not.mp h
  rw [jsonGetObject, hchild]
  rfl

/-- Where the names can be compared, the handlers get the string under the key, or a null pointer
that they test for. -/
theorem siblingString_of_named (h : Named node) :
    siblingString node key = some (value node key) := by
  rw [siblingString, jsonGetValueSibling, jsonGetObject_of_named h, value]
  simp only [Option.map_some, Option.map_map]
  rfl

/-- Every handler that asks an array with entries for a value gives `strcmp` a null pointer. -/
theorem siblingString_of_not_named (h : ¬ Named node) : siblingString node key = none := by
  rw [siblingString, jsonGetValueSibling, jsonGetObject_of_not_named h]
  rfl

/-- A value is a C string, so the copies that are made of it end where the value ends. -/
theorem nul_notMem_stringOf (item : Node) : nul ∉ stringOf item :=
  fun h => nulFree_cString _ _ h rfl

/-- The value under a key is a C string, wherever there is one. -/
theorem nul_notMem_value {jvalue : Text} (h : value node key = some jvalue) : nul ∉ jvalue := by
  obtain ⟨item, -, rfl⟩ := Option.map_eq_some_iff.mp h
  exact nul_notMem_stringOf item

/-! ## The rows of a section -/

def nameRows (node : Node) : List (Row Field) :=
  [strncpy .name (stringOf node) 63, terminate .name (stringOf node).length]

def subModelRows (node : Node) : List (Row Field) := [strncpy .subModel (stringOf node) 63]

def timezoneRow (node : Node) (key : Text) (f : Field) (default : Text) : Row Field :=
  match value node key with
  | some jvalue => snprintf f (size f) jvalue
  | none => strcpy f default

/-- The rows that fall back to the default zone. -/
def defaultTimezoneRows : List (Row Field) :=
  [strcpy .gmtOff "9:00".toList, strcpy .zone "KST".toList, strcpy .id "Asia/Seoul".toList,
    strcpy .tzName "Seoul".toList]

/-- The identifier that the zone is set by. -/
def zoneId (node : Node) : Text := ((value node "id".toList).getD "Asia/Seoul".toList).take 63

def zoneRows (node : Node) : List (Row Field) :=
  [timezoneRow node "gmtOff".toList .gmtOff "9:00".toList,
    timezoneRow node "zone".toList .zone "KST".toList,
    timezoneRow node "id".toList .id "Asia/Seoul".toList,
    timezoneRow node "name".toList .tzName "Seoul".toList]

def timezoneRows (installed : Text → Bool) (node : Node) : List (Row Field) :=
  zoneRows node ++ if installed (zoneId node) then [] else defaultTimezoneRows

def serverList (node : Node) : Option Node := (cJsonGetObjectItem node "serverList".toList).join

def enableRows (node : Node) : List (Row Field) :=
  match value node "enable".toList with
  | some jvalue => [assign .enable (if jvalue = "true".toList then 1 else 0)]
  | none => []

def serverRows (items : List Node) : Nat → List (Row Field)
  | 0 => []
  | i + 1 =>
      serverRows items i ++
        match items[i]? with
        | some item =>
            if h : i < maxNtpServerCount then
              [strncpy (.server ⟨i, h⟩) (stringOf item) 63, assign .serverCount (i + 1)]
            else []
        | none => []

def ntpRows (node : Node) : List (Row Field) :=
  enableRows node ++
    serverRows ((serverList node).elim [] Node.entries) maxNtpServerCount

/-- The keys of the information section. -/
def infoKeys : List (Text × Field) :=
  [("pathDefConfig".toList, .pathDefConfig), ("pathConfig".toList, .pathConfig),
    ("baseODD".toList, .baseODD), ("baseATA".toList, .baseATA), ("baseUSB".toList, .baseUSB),
    ("baseNET".toList, .baseNET), ("prefixUSB".toList, .prefixUSB)]

def infoRow (node : Node) (entry : Text × Field) : List (Row Field) :=
  match value node entry.1 with
  | some jvalue => [strncpy entry.2 jvalue (size entry.2 - 1)]
  | none => []

def infoRows (node : Node) : List (Row Field) := infoKeys.flatMap (infoRow node)

def indexRows (table : List Text) (jvalue : Option Text) (f : Field) : List (Row Field) :=
  match jvalue.bind (lookup table) with
  | some i => [assign f i]
  | none => []

def devWiredRow (node : Node) : Row Field :=
  strcpy .devWired ((value node "devWired".toList).getD "eth0".toList)

def basicRows (node : Node) : List (Row Field) :=
  indexRows basicInterfaceTable (value node "interface".toList) .netif
    ++ (indexRows basicTypeTable (value node "connection".toList) .type ++ [devWiredRow node])

/-- A key of the address section with its member and its default. -/
structure Address where
  key : Text
  field : Field
  default : Text

def addresses : List Address :=
  [⟨"ipaddr".toList, .ipaddr, netDefaultIp⟩, ⟨"netmask".toList, .netmask, netDefaultNetmask⟩,
    ⟨"gateway".toList, .gateway, netDefaultGateway⟩, ⟨"dns1".toList, .dns1, netDefaultDns1⟩,
    ⟨"dns2".toList, .dns2, netDefaultDns2⟩]

/-- The valid address that a document has under a key. -/
def validValue (node : Node) (key : Text) : Option Text :=
  (value node key).filter pfuIsValidStrIPv4

def addressRows (node : Node) (a : Address) : List (Row Field) :=
  match validValue node a.key with
  | some jvalue => [strncpy a.field jvalue 64, terminate a.field jvalue.length]
  | none => [strcpy a.field a.default]

def staticIpRows (node : Node) : List (Row Field) := addresses.flatMap (addressRows node)

/-- What a handler needs of an item, and what it stores then. -/
structure Section where
  name : Text
  ok : Node → Prop
  rows : Node → List (Row Field)

def nameSection : Section := ⟨"name".toList, fun _ => True, nameRows⟩

def subModelSection : Section := ⟨"subModel".toList, fun _ => True, subModelRows⟩

def timezoneSection (installed : Text → Bool) : Section :=
  ⟨"timezone".toList, Named, timezoneRows installed⟩

def ntpSection : Section :=
  ⟨"ntp".toList, fun node => Named node ∧ serverList node ≠ none, ntpRows⟩

def infoSection : Section := ⟨"info".toList, Named, infoRows⟩

def systemSections (installed : Text → Bool) : List Section :=
  [nameSection, subModelSection, timezoneSection installed, ntpSection, infoSection]

def basicSection : Section := ⟨"basic".toList, Named, basicRows⟩

def staticIpSection : Section := ⟨"staticIp".toList, Named, staticIpRows⟩

def networkSections : List Section := [basicSection, staticIpSection]

/-- A handler does what its section says. -/
structure Section.Describes (s : Section) (entry : ReadHandler PFConfig) : Prop where
  name : entry.name = s.name
  read : ∀ node config, s.ok node → entry.handler node config = some (config.runs (s.rows node))
  fail : ∀ node config, ¬ s.ok node → entry.handler node config = none

/-- The members of a document that have a section are what the section needs. -/
def Readable (sections : List Section) (root : Node) : Prop :=
  Named root ∧ ∀ s ∈ sections, ∀ node, member root s.name = some node → s.ok node

/-- The rows of the sections that a document has. -/
def written (sections : List Section) (root : Node) : List (Row Field) :=
  sections.flatMap fun s => ((member root s.name).map s.rows).getD []

/-- The rows of two lists of sections are run one list after the other. -/
theorem written_append (front back : List Section) :
    written (front ++ back) root = written front root ++ written back root :=
  List.flatMap_append

/-- A document has the rows of a section if it has the member, and none otherwise. -/
theorem written_one {s : Section} :
    written [s] root = ((member root s.name).map s.rows).getD [] :=
  List.append_nil _

section

variable {sections : List Section} {tbl : List (ReadHandler PFConfig)}

/-- **A table of handlers.**  Reading a document runs the rows of its sections, and
dereferences a null pointer if the document is not readable. -/
theorem read_of_readable (h : List.Forall₂ Section.Describes sections tbl)
    (hread : Readable sections root) (config : PFConfig) :
    configReadIterate root tbl config = some (config.runs (written sections root)) := by
  obtain ⟨hnamed, hok⟩ := hread
  induction h generalizing config with
  | nil => rfl
  | @cons s entry sections tbl hs _ ih =>
      have hrest := fun config => ih config fun t ht => hok t (List.mem_cons_of_mem _ ht)
      have hrows : written (s :: sections) root
          = ((member root s.name).map s.rows).getD [] ++ written sections root := rfl
      rw [configReadIterate, hs.name, jsonGetObject_of_named hnamed, hrows, runs_append]
      cases hmember : member root s.name with
      | none => exact hrest config
      | some node =>
          have hhandler := hs.read node config (hok s List.mem_cons_self node hmember)
          simp only [hhandler]
          exact hrest _

/-- A document that is not readable dereferences a null pointer, whatever the other sections
hold. -/
theorem read_of_not_readable (h : List.Forall₂ Section.Describes sections tbl) (hne : tbl ≠ [])
    (hread : ¬ Readable sections root) (config : PFConfig) :
    configReadIterate root tbl config = none := by
  by_cases hnamed : Named root
  · have hbad : ¬ ∀ s ∈ sections, ∀ node, member root s.name = some node → s.ok node :=
      fun hok => hread ⟨hnamed, hok⟩
    clear hread hne
    induction h generalizing config with
    | nil => exact absurd (fun s hs => by cases hs) hbad
    | @cons s entry sections tbl hs _ ih =>
        rw [configReadIterate, hs.name, jsonGetObject_of_named hnamed]
        cases hmember : member root s.name with
        | none =>
            refine ih config fun hok => hbad fun t ht node hnode => ?_
            rcases List.mem_cons.mp ht with rfl | ht
            · rw [hmember] at hnode
              cases hnode
            · exact hok t ht node hnode
        | some node =>
            by_cases hok : s.ok node
            · simp only [hs.read node config hok]
              refine ih _ fun hall => hbad fun t ht node' hnode => ?_
              rcases List.mem_cons.mp ht with rfl | ht
              · rw [hmember] at hnode
                cases hnode
                exact hok
              · exact hall t ht node' hnode
            · simp only [hs.fail node config hok]
  · cases h with
    | nil => contradiction
    | cons hs _ => rw [configReadIterate, jsonGetObject_of_not_named hnamed]

end

/-! ## The handlers and their sections -/

/-- A value of the time zone is one row: the text that was printed, or the default. -/
theorem timezoneValue_of_named (h : Named node) (f : Field) (default : Text) :
    timezoneValue node key f default config
      = some (config.run (timezoneRow node key f default)) := by
  rw [timezoneValue, siblingString_of_named h, timezoneRow]
  cases value node key <;> rfl

/-- A value of the information section is one row if the document has it, and none otherwise. -/
theorem jsonSetConfigStringValue_of_named (h : Named node) (f : Field) :
    jsonSetConfigStringValue node key f config = some (config.runs (infoRow node (key, f))) := by
  rw [jsonSetConfigStringValue, siblingString_of_named h, infoRow]
  cases value node key <;> rfl

/-- An address is stored by the copy and the NUL behind it if it is valid, and else by the copy of
its default. -/
theorem staticIpSetConfig_of_named (h : Named node) (f : Field) (default : Text) :
    staticIpSetConfig node key f default config
      = some (config.runs (addressRows node ⟨key, f, default⟩)) := by
  rw [staticIpSetConfig, siblingString_of_named h, addressRows, validValue]
  cases value node key with
  | none => rfl
  | some jvalue =>
      by_cases hvalid : pfuIsValidStrIPv4 jvalue = true
      · simp [Option.filter, hvalid, maxAddrLength]
      · simp [Option.filter, hvalid]

/-- The index of a string in its table is assigned if the string is found there. -/
theorem assignIndex_eq (table : List Text) (jvalue : Option Text) (f : Field) :
    assignIndex table jvalue f config = config.runs (indexRows table jvalue f) := by
  rw [assignIndex, indexRows]
  cases jvalue.bind (lookup table) <;> rfl

/-- The loop over the servers stores a copy and the count for each entry, up to the size of the
table. -/
theorem readServers_eq (items : List Node) (n : Nat) :
    readServers items n config = config.runs (serverRows items n) := by
  induction n with
  | zero => rfl
  | succ n ih =>
      rw [readServers, serverRows, runs_append, ih]
      cases items[n]? with
      | none => rfl
      | some item =>
          by_cases hn : n < maxNtpServerCount
          · simp [hn, maxAddrLength]
          · simp [hn]

/-- Whether it is a value or the default, it goes to the same member. -/
@[simp] theorem timezoneRow_field (f : Field) (default : Text) :
    (timezoneRow node key f default).field = f := by
  rw [timezoneRow]
  cases value node key <;> rfl

/-- The identifier is read back where it was printed: the row stores the text and the NUL behind
it at the start of its field. -/
theorem string_timezoneRow :
    (config.run (timezoneRow node "id".toList .id "Asia/Seoul".toList)).string .id
      = zoneId node := by
  rw [timezoneRow, zoneId]
  cases hvalue : value node "id".toList with
  | none => exact string_strcpy (by decide)
  | some jvalue =>
      exact string_strcpy fun h => nul_notMem_value hvalue (List.mem_of_mem_take h)

/-- The handler of the name needs nothing: it only prints the item that it is given. -/
theorem describes_name : nameSection.Describes ⟨"name".toList, rfSystemName⟩ where
  name := rfl
  read _ _ _ := rfl
  fail _ _ h := absurd trivial h

/-- The handler of the sub-model needs nothing of its section either. -/
theorem describes_subModel :
    subModelSection.Describes ⟨"subModel".toList, rfSystemSubModel⟩ where
  name := rfl
  read _ _ _ := rfl
  fail _ _ h := absurd trivial h

/-- The identifier stays what was printed while the name is copied behind it, since the name has
a field of its own. -/
theorem string_zoneRows : ((config.run (timezoneRow node "id".toList .id "Asia/Seoul".toList)).run
    (timezoneRow node "name".toList .tzName "Seoul".toList)).string .id = zoneId node := by
  have hshort : (zoneId node).length < size Field.id := by
    rw [zoneId, List.length_take]
    exact lt_of_le_of_lt (Nat.min_le_left ..) (by decide)
  have habove : rank Field.id < rank (timezoneRow node "name".toList .tzName
      "Seoul".toList).field := by
    rw [timezoneRow_field]
    decide
  have hend : (config.run (timezoneRow node "id".toList .id
      "Asia/Seoul".toList)).Terminated .id := by
    rw [Record.Terminated, string_timezoneRow]
    exact hshort
  rw [string_run_above habove hend, string_timezoneRow]

/-- The time zone as rows: four values or defaults, and the default zone on top if the one named
is not installed. -/
theorem rfSystemTimezone_of_named (installed : Text → Bool) (h : Named node) :
    rfSystemTimezone installed node config
      = some (config.runs (timezoneRows installed node)) := by
  simp only [rfSystemTimezone, timezoneValue_of_named h, Option.bind_eq_bind, Option.bind_some,
    string_zoneRows, timezoneRows, zoneRows]
  by_cases hinstalled : installed (zoneId node) = true
  · simp [hinstalled]
  · simp [hinstalled, defaultTimezoneRows]

/-- The time servers as rows: the switch, and a copy and the count for each server of the list. -/
theorem rfSystemNtp_of_named (h : Named node) (hlist : serverList node ≠ none) :
    rfSystemNtp node config = some (config.runs (ntpRows node)) := by
  obtain ⟨list, hlist⟩ := Option.ne_none_iff_exists'.mp hlist
  have hitem : cJsonGetObjectItem node "serverList".toList = some (some list) :=
    Option.join_eq_some_iff.mp hlist
  simp only [rfSystemNtp, siblingString_of_named h, hitem, Option.bind_eq_bind, Option.bind_some,
    readServers_eq, ntpRows, enableRows, hlist, Option.elim_some, runs_append]
  cases value node "enable".toList <;> rfl

/-- The list of servers is looked into when it is missing: `cJSON_GetArraySize` is given the
null pointer. -/
theorem rfSystemNtp_of_none (hlist : serverList node = none) :
    rfSystemNtp node config = none := by
  by_cases hnamed : Named node
  · rcases Option.join_eq_none_iff.mp hlist with hitem | hitem
    · simp only [rfSystemNtp, siblingString_of_named hnamed, hitem, Option.bind_eq_bind,
        Option.bind_some, Option.bind_none]
    · simp only [rfSystemNtp, siblingString_of_named hnamed, hitem, Option.bind_eq_bind,
        Option.bind_some, Option.bind_none]
  · simp [rfSystemNtp, siblingString_of_not_named hnamed]

/-- The information section as rows, one for each key that the document has. -/
theorem rfSystemInfo_of_named (h : Named node) :
    rfSystemInfo node config = some (config.runs (infoRows node)) := by
  simp [rfSystemInfo, jsonSetConfigStringValue_of_named h, infoRows, infoKeys, runs_append]

/-- The basic network section as rows: two indices where they are found, and the copy of the wired
device. -/
theorem rfNetworkBasic_of_named (h : Named node) :
    rfNetworkBasic node config = some (config.runs (basicRows node)) := by
  simp [rfNetworkBasic, siblingString_of_named h, assignIndex_eq, basicRows, devWiredRow,
    runs_append]

/-- The address section as rows, those of the five addresses one after the other. -/
theorem rfNetworkStaticIp_of_named (h : Named node) :
    rfNetworkStaticIp node config = some (config.runs (staticIpRows node)) := by
  simp [rfNetworkStaticIp, staticIpSetConfig_of_named h, staticIpRows, addresses, runs_append]

/-- The handler of the time zone needs names that it can compare, and stores the rows of its
section. -/
theorem describes_timezone (installed : Text → Bool) : (timezoneSection installed).Describes
    ⟨"timezone".toList, rfSystemTimezone installed⟩ where
  name := rfl
  read _ _ h := rfSystemTimezone_of_named installed h
  fail node config h := by
    simp [rfSystemTimezone, timezoneValue, siblingString_of_not_named h]

/-- The handler of the time servers needs a list of servers besides, which it does not test for. -/
theorem describes_ntp : ntpSection.Describes ⟨"ntp".toList, rfSystemNtp⟩ where
  name := rfl
  read _ _ h := rfSystemNtp_of_named h.1 h.2
  fail node config h := by
    by_cases hnamed : Named node
    · exact rfSystemNtp_of_none (not_not.mp fun hlist => h ⟨hnamed, hlist⟩)
    · simp [rfSystemNtp, siblingString_of_not_named hnamed]

/-- The handler of the information section needs names that it can compare, so the section must
not be an array with entries. -/
theorem describes_info : infoSection.Describes ⟨"info".toList, rfSystemInfo⟩ where
  name := rfl
  read _ _ h := rfSystemInfo_of_named h
  fail node config h := by
    simp [rfSystemInfo, jsonSetConfigStringValue, siblingString_of_not_named h]

/-- The handler of the basic network section needs names that it can compare, like that of the
information section. -/
theorem describes_basic : basicSection.Describes ⟨"basic".toList, rfNetworkBasic⟩ where
  name := rfl
  read _ _ h := rfNetworkBasic_of_named h
  fail node config h := by
    simp [rfNetworkBasic, siblingString_of_not_named h]

/-- The handler of the addresses needs names that it can compare, as the two handlers above do. -/
theorem describes_staticIp :
    staticIpSection.Describes ⟨"staticIp".toList, rfNetworkStaticIp⟩ where
  name := rfl
  read _ _ h := rfNetworkStaticIp_of_named h
  fail node config h := by
    simp [rfNetworkStaticIp, staticIpSetConfig, siblingString_of_not_named h]

/-- The table of the system class, handler by handler. -/
theorem describes_system (installed : Text → Bool) :
    List.Forall₂ Section.Describes (systemSections installed) (rtSystem installed) :=
  .cons describes_name (.cons describes_subModel (.cons (describes_timezone installed)
    (.cons describes_ntp (.cons describes_info .nil))))

/-- The table of the network class, handler by handler. -/
theorem describes_network : List.Forall₂ Section.Describes networkSections rtNetwork :=
  .cons describes_basic (.cons describes_staticIp .nil)

/-! ## Loading -/

/-- The rows of both documents. -/
def allRows (installed : Text → Bool) (system network : Node) : List (Row Field) :=
  written (systemSections installed) system ++ written networkSections network

section

variable {installed : Text → Bool} {system network : Node}

/-- Loading two readable documents runs the rows of the system document and then those of the
network document. -/
theorem load_of_readable (hsystem : Readable (systemSections installed) system)
    (hnetwork : Readable networkSections network) :
    load installed system network config
      = some (config.runs (allRows installed system network)) := by
  rw [load, read_of_readable (describes_system installed) hsystem, Option.bind_some,
    read_of_readable describes_network hnetwork, allRows, runs_append]

/-- A load that comes to its end was one of two readable documents, so no null pointer was met in
either. -/
theorem readable_of_load {config' : PFConfig}
    (h : load installed system network config = some config') :
    Readable (systemSections installed) system ∧ Readable networkSections network := by
  by_cases hsystem : Readable (systemSections installed) system
  · refine ⟨hsystem, ?_⟩
    by_contra hnetwork
    rw [load, read_of_readable (describes_system installed) hsystem, Option.bind_some,
      read_of_not_readable describes_network (by simp [rtNetwork]) hnetwork] at h
    cases h
  · rw [load, read_of_not_readable (describes_system installed) (by simp [rtSystem]) hsystem] at h
    cases h

end

end ConfigMemory
