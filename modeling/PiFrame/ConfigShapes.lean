import PiFrame.ConfigStores

/-!
# Documents of any shape

The entries of an array have no name, and the handlers compare the names of the
children of whatever item they are given.  Loading comes to its end exactly for
the documents whose root and sections are not arrays with entries, and whose time
server section has its list.

What it leaves alone then is what the documents have nothing for, unless a string
runs into it: the NUL behind an overlong name, or an overlong wired device when
there are no addresses to be put over it.
-/

namespace ConfigMemory

open ByteText Limits RecordMemory
open CJson hiding strcpy strncpy
open RecordMemory.Layout (size)
open ConfigNetwork (lookup netDefaultIp netDefaultNetmask netDefaultGateway
  netDefaultDns1 netDefaultDns2)

/-! ## Defaults -/

/-- The default of a time zone member whose value is missing, or whose zone is not
installed. -/
def timezoneFallback (installed : Text → Bool) (system : Node) (key default : Text) : Option Text :=
  (member system "timezone".toList).bind fun node =>
    if installed (zoneId node) ∧ value node key ≠ none then none else some default

/-- The default of an address that is missing or not valid. -/
def addressFallback (network : Node) (key default : Text) : Option Text :=
  (member network "staticIp".toList).bind fun node =>
    if validValue node key ≠ none then none else some default

/-- The default that a member gets for want of a value that can be used. -/
def fallback (installed : Text → Bool) (system network : Node) : Field → Option Text
  | .gmtOff => timezoneFallback installed system "gmtOff".toList "9:00".toList
  | .zone => timezoneFallback installed system "zone".toList "KST".toList
  | .id => timezoneFallback installed system "id".toList "Asia/Seoul".toList
  | .tzName => timezoneFallback installed system "name".toList "Seoul".toList
  | .devWired =>
      (member network "basic".toList).bind fun node =>
        if value node "devWired".toList ≠ none then none else some "eth0".toList
  | .ipaddr => addressFallback network "ipaddr".toList netDefaultIp
  | .netmask => addressFallback network "netmask".toList netDefaultNetmask
  | .gateway => addressFallback network "gateway".toList netDefaultGateway
  | .dns1 => addressFallback network "dns1".toList netDefaultDns1
  | .dns2 => addressFallback network "dns2".toList netDefaultDns2
  | _ => none

section

variable {installed : Text → Bool} {system network node : Node} {w : Row Field} {f : Field}
  {config : PFConfig}

/-! ## Rows in the order of the members -/

/-- The index of a table is only ever assigned to its own member. -/
theorem field_of_indexRows {table : List Text} {jvalue : Option Text}
    (hw : w ∈ indexRows table jvalue f) : w.field = f := by
  obtain ⟨i, -, rfl⟩ := mem_indexRows hw
  rfl

/-- All that is stored for an address starts in its own array. -/
theorem field_of_addressRows {a : Address} (hw : w ∈ addressRows node a) : w.field = a.field := by
  rcases mem_addressRows hw with rfl | ⟨jvalue, -, rfl | rfl⟩
  all_goals rfl

/-- The rows of the addresses go to arrays behind the wired device, which they therefore spare. -/
theorem above_staticIp (hw : w ∈ staticIpRows node) : rank Field.devWired < rank w.field := by
  obtain ⟨a, ha, hw⟩ := List.mem_flatMap.mp hw
  have hall : ∀ a ∈ addresses, rank Field.devWired < rank a.field := by decide
  rw [field_of_addressRows hw]
  exact hall a ha

/-- The rows of a network document are those of the basic section, and then those of the
addresses. -/
theorem written_network : written networkSections network
    = written [basicSection] network ++ written [staticIpSection] network :=
  written_append [basicSection] [staticIpSection]

/-- The rows of the basic section, where the document has it. -/
theorem written_basic (h : member network "basic".toList = some node) :
    written [basicSection] network = basicRows node := by
  rw [written_one, show member network basicSection.name = some node from h]
  rfl

/-- Without a basic section nothing is stored for it, not even the default of the wired device. -/
theorem written_basic_none (h : member network "basic".toList = none) :
    written [basicSection] network = [] := by
  rw [written_one, show member network basicSection.name = none from h]
  rfl

/-- The rows of the addresses, where the document has them. -/
theorem written_staticIp (h : member network "staticIp".toList = some node) :
    written [staticIpSection] network = staticIpRows node := by
  rw [written_one, show member network staticIpSection.name = some node from h]
  rfl

/-- Without an address section nothing is stored for it, not even the default addresses. -/
theorem written_staticIp_none (h : member network "staticIp".toList = none) :
    written [staticIpSection] network = [] := by
  rw [written_one, show member network staticIpSection.name = none from h]
  rfl

/-- The rows of the addresses lie above all others. -/
theorem above_addresses (hw : w ∈ written [staticIpSection] network) :
    rank Field.devWired < rank w.field := by
  obtain ⟨s, hs, node, -, hw⟩ := mem_written.mp hw
  rw [List.mem_singleton.mp hs] at hw
  exact above_staticIp hw

/-! ## Defaults stay -/

/-- A memory that holds one byte everywhere as far as an address. -/
def filled (a : Nat) (c : Char) : PFConfig := ⟨List.replicate (a + 1) c, []⟩

end

end ConfigMemory
