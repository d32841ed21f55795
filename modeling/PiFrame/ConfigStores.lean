import PiFrame.ConfigMemory

/-!
# Where loading stores

Each row that a document makes has one of a few origins.  Three of them take a
length from the document and bound it by nothing: the NUL behind the name, the
copy of the wired device, and the NUL behind an address.  Loading keeps to the
arrays of its members exactly if those three strings fit.
-/

namespace ConfigMemory

open ByteText Limits RecordMemory
open CJson hiding strcpy strncpy
open RecordMemory.Layout (size)
open ConfigNetwork (pfuIsValidStrIPv4 lookup basicInterfaceTable basicTypeTable)

/-! ## What a document sets -/

/-- The string under a key of a section. -/
def setting (root : Node) (name key : Text) : Option Text :=
  (member root name).bind fun node => value node key

/-- The entries of the server list. -/
def servers (system : Node) : List Node :=
  (((member system "ntp".toList).bind serverList).map Node.entries).getD []

/-- The documents have neither a value nor a default for a member. -/
def Left (system network : Node) : Field → Prop
  | .name => member system "name".toList = none
  | .subModel => member system "subModel".toList = none
  | .gmtOff | .zone | .id | .tzName => member system "timezone".toList = none
  | .enable => setting system "ntp".toList "enable".toList = none
  | .serverCount => servers system = []
  | .server i => (servers system)[i.val]? = none
  | .pathDefConfig => setting system "info".toList "pathDefConfig".toList = none
  | .pathConfig => setting system "info".toList "pathConfig".toList = none
  | .baseODD => setting system "info".toList "baseODD".toList = none
  | .baseATA => setting system "info".toList "baseATA".toList = none
  | .baseUSB => setting system "info".toList "baseUSB".toList = none
  | .baseNET => setting system "info".toList "baseNET".toList = none
  | .prefixUSB => setting system "info".toList "prefixUSB".toList = none
  | .netif =>
      (setting network "basic".toList "interface".toList).bind (lookup basicInterfaceTable) = none
  | .type =>
      (setting network "basic".toList "connection".toList).bind (lookup basicTypeTable) = none
  | .devWired => member network "basic".toList = none
  | .ipaddr | .netmask | .gateway | .dns1 | .dns2 => member network "staticIp".toList = none

/-- The valid address that a document has under a key. -/
def validSetting (network : Node) (key : Text) : Option Text :=
  (member network "staticIp".toList).bind fun node => validValue node key

/-! ## Where rows come from -/

/-- The rows that the documents can make. -/
inductive Origin (system network : Node) : Row Field → Prop
  | copied {f : Field} (v : Text) {n : Nat} (hn : n < size f) (hset : ¬ Left system network f) :
      Origin system network (strncpy f v n)
  | printed {f : Field} (v : Text) (hset : ¬ Left system network f) :
      Origin system network (snprintf f (size f) v)
  | fallback {f : Field} {d : Text} (hd : d.length < size f) (hset : ¬ Left system network f) :
      Origin system network (strcpy f d)
  | assigned {f : Field} (n : Nat) (hsize : size f = 4) (hint : ¬ f.IsString)
      (hset : ¬ Left system network f) : Origin system network (assign f n)
  | nameEnd {node : Node} (hname : member system "name".toList = some node) :
      Origin system network (terminate .name (stringOf node).length)
  | device {v : Text} (hdev : setting network "basic".toList "devWired".toList = some v) :
      Origin system network (strcpy .devWired v)
  | address {a : Address} {v : Text} (ha : a ∈ addresses)
      (hvalid : validSetting network a.key = some v) :
      Origin system network (strncpy a.field v 64)
  | addressEnd {a : Address} {v : Text} (ha : a ∈ addresses)
      (hvalid : validSetting network a.key = some v) :
      Origin system network (terminate a.field v.length)

section

variable {installed : Text → Bool} {system network node : Node} {w : Row Field}

theorem ne_none_of_eq_some {α : Type*} {x : Option α} {a : α} (h : x = some a) : x ≠ none :=
  Option.ne_none_iff_exists'.mpr ⟨a, h⟩

/-- The string under a key of a section, for a document that has the section. -/
theorem setting_eq {root : Node} {name key : Text} (h : member root name = some node) :
    setting root name key = value node key := by
  rw [setting, h, Option.bind_some]

/-- A row of a load comes from a section that the document has, and is one of the rows of that
section. -/
theorem mem_written {sections : List Section} {root : Node} : w ∈ written sections root ↔
    ∃ s ∈ sections, ∃ node, member root s.name = some node ∧ w ∈ s.rows node := by
  rw [written, List.mem_flatMap]
  constructor
  · intro h
    obtain ⟨s, hs, hw⟩ := h
    cases hmember : member root s.name with
    | none => simp [hmember] at hw
    | some node => exact ⟨s, hs, node, hmember, by simpa [hmember] using hw⟩
  · intro h
    obtain ⟨s, hs, node, hmember, hw⟩ := h
    exact ⟨s, hs, by simpa [hmember] using hw⟩

/-- The rows of the servers: each copies an entry of the list into its place, and the places are
as many as the table has at most. -/
theorem mem_serverRows {items : List Node} {n : Nat} (hw : w ∈ serverRows items n) :
    ∃ i item, items[i.val]? = some item ∧
      (w = strncpy (.server i) (stringOf item) 63 ∨ w = assign .serverCount (i.val + 1)) := by
  induction n with
  | zero => cases hw
  | succ n ih =>
      rw [serverRows] at hw
      rcases List.mem_append.mp hw with hw | hw
      · exact ih hw
      · cases hitem : items[n]? with
        | none => simp [hitem] at hw
        | some item =>
            by_cases hn : n < maxNtpServerCount
            · simp only [hitem, hn, dif_pos] at hw
              exact ⟨⟨n, hn⟩, item, hitem, List.mem_pair.mp hw⟩
            · simp [hitem, hn] at hw

/-- A row of the time zone is one of the four values, or one of the default zone. -/
theorem mem_timezoneRows (hw : w ∈ timezoneRows installed node) :
    w ∈ zoneRows node ∨ w ∈ defaultTimezoneRows := by
  rcases List.mem_append.mp hw with hw | hw
  · exact Or.inl hw
  · split at hw
    · cases hw
    · exact Or.inr hw

/-- The switch of the time servers is assigned only if the document has a value for it. -/
theorem mem_enableRows (hw : w ∈ enableRows node) : ∃ jvalue,
    value node "enable".toList = some jvalue ∧
      w = assign .enable (if jvalue = "true".toList then 1 else 0) := by
  rw [enableRows] at hw
  cases hvalue : value node "enable".toList with
  | none =>
      rw [hvalue] at hw
      cases hw
  | some jvalue =>
      rw [hvalue] at hw
      exact ⟨jvalue, rfl, List.mem_singleton.mp hw⟩

/-- A member of the information section is stored to only if the document has a value for it. -/
theorem mem_infoRow {entry : Text × Field} (hw : w ∈ infoRow node entry) : ∃ jvalue,
    value node entry.1 = some jvalue ∧ w = strncpy entry.2 jvalue (size entry.2 - 1) := by
  rw [infoRow] at hw
  cases hvalue : value node entry.1 with
  | none =>
      rw [hvalue] at hw
      cases hw
  | some jvalue =>
      rw [hvalue] at hw
      exact ⟨jvalue, rfl, List.mem_singleton.mp hw⟩

/-- An index is assigned only if the string was found in the table, and what is assigned is its
place there. -/
theorem mem_indexRows {table : List Text} {jvalue : Option Text} {f : Field}
    (hw : w ∈ indexRows table jvalue f) :
    ∃ i, jvalue.bind (lookup table) = some i ∧ w = assign f i := by
  rw [indexRows] at hw
  cases hindex : jvalue.bind (lookup table) with
  | none =>
      rw [hindex] at hw
      cases hw
  | some i =>
      rw [hindex] at hw
      exact ⟨i, rfl, List.mem_singleton.mp hw⟩

/-- What is stored for an address: its default, or the valid value with the NUL behind it. -/
theorem mem_addressRows {a : Address} (hw : w ∈ addressRows node a) :
    w = strcpy a.field a.default ∨ ∃ jvalue, validValue node a.key = some jvalue ∧
      (w = strncpy a.field jvalue 64 ∨ w = terminate a.field jvalue.length) := by
  rw [addressRows] at hw
  cases hvalid : validValue node a.key with
  | none =>
      rw [hvalid] at hw
      exact Or.inl (List.mem_singleton.mp hw)
  | some jvalue =>
      rw [hvalid] at hw
      exact Or.inr ⟨jvalue, rfl, List.mem_pair.mp hw⟩

/-- The rows of the name come from the value that the document has for it. -/
theorem origin_name (h : member system "name".toList = some node) (hw : w ∈ nameRows node) :
    Origin system network w := by
  have hset : ¬ Left system network .name := ne_none_of_eq_some h
  rcases List.mem_pair.mp hw with rfl | rfl
  · exact .copied _ (by decide) hset
  · exact .nameEnd h

/-- The row of the sub-model comes from the value that the document has for it. -/
theorem origin_subModel (h : member system "subModel".toList = some node)
    (hw : w ∈ subModelRows node) : Origin system network w := by
  have hset : ¬ Left system network .subModel := ne_none_of_eq_some h
  rw [List.mem_singleton.mp hw]
  exact .copied _ (by decide) hset

/-- A member of the time zone is printed or copied from its default. -/
theorem origin_timezoneRow {f : Field} {key default : Text} (hset : ¬ Left system network f)
    (hd : default.length < size f) : Origin system network (timezoneRow node key f default) := by
  rw [timezoneRow]
  cases value node key with
  | none => exact .fallback hd hset
  | some jvalue => exact .printed jvalue hset

/-- The rows of the time zone come from the values of the document or from the defaults, and all
fit. -/
theorem origin_timezone (h : member system "timezone".toList = some node)
    (hw : w ∈ timezoneRows installed node) : Origin system network w := by
  have hgmtOff : ¬ Left system network .gmtOff := ne_none_of_eq_some h
  have hzone : ¬ Left system network .zone := ne_none_of_eq_some h
  have hid : ¬ Left system network .id := ne_none_of_eq_some h
  have htzName : ¬ Left system network .tzName := ne_none_of_eq_some h
  rcases mem_timezoneRows hw with hw | hw
  · simp only [zoneRows, List.mem_cons, List.not_mem_nil, or_false] at hw
    rcases hw with rfl | rfl | rfl | rfl
    · exact origin_timezoneRow hgmtOff (by decide)
    · exact origin_timezoneRow hzone (by decide)
    · exact origin_timezoneRow hid (by decide)
    · exact origin_timezoneRow htzName (by decide)
  · simp only [defaultTimezoneRows, List.mem_cons, List.not_mem_nil, or_false] at hw
    rcases hw with rfl | rfl | rfl | rfl
    · exact .fallback (by decide) hgmtOff
    · exact .fallback (by decide) hzone
    · exact .fallback (by decide) hid
    · exact .fallback (by decide) htzName

/-- The rows of the servers come from the entries of the list, one array for each. -/
theorem origin_serverRows {n : Nat} (hw : w ∈ serverRows (servers system) n) :
    Origin system network w := by
  obtain ⟨i, item, hitem, hw⟩ := mem_serverRows hw
  have hserver : ¬ Left system network (.server i) := ne_none_of_eq_some hitem
  have hcount : ¬ Left system network .serverCount := by
    intro hnil
    rw [show servers system = [] from hnil] at hitem
    cases hitem
  rcases hw with rfl | rfl
  · exact .copied _ (by simp [size, maxAddrLength]) hserver
  · exact .assigned _ rfl (by simp [Field.IsString]) hcount

/-- The rows of the time servers come from the switch and the entries of the list. -/
theorem origin_ntp (h : member system "ntp".toList = some node) (hw : w ∈ ntpRows node) :
    Origin system network w := by
  rcases List.mem_append.mp hw with hw | hw
  · obtain ⟨jvalue, hvalue, rfl⟩ := mem_enableRows hw
    have hset : ¬ Left system network .enable :=
      ne_none_of_eq_some ((setting_eq h).trans hvalue)
    exact .assigned _ rfl (by simp [Field.IsString]) hset
  · refine origin_serverRows (n := maxNtpServerCount) ?_
    rw [servers, h, Option.bind_some]
    cases hlist : serverList node with
    | none => simpa [hlist] using hw
    | some list => simpa [hlist] using hw

/-- The rows of the information section come from the values that the document has. -/
theorem origin_info (h : member system "info".toList = some node) (hw : w ∈ infoRows node) :
    Origin system network w := by
  obtain ⟨entry, hentry, hw⟩ := List.mem_flatMap.mp hw
  obtain ⟨jvalue, hvalue, rfl⟩ := mem_infoRow hw
  have hset : setting system "info".toList entry.1 ≠ none :=
    ne_none_of_eq_some ((setting_eq h).trans hvalue)
  simp only [infoKeys, List.mem_cons, List.not_mem_nil, or_false] at hentry
  rcases hentry with rfl | rfl | rfl | rfl | rfl | rfl | rfl
  all_goals exact .copied _ (by decide) hset

/-- An index goes to a number, and to none that is to be left alone. -/
theorem origin_indexRows {table : List Text} {jvalue : Option Text} {f : Field} (hsize : size f = 4)
    (hint : ¬ f.IsString) (hleft : Left system network f → jvalue.bind (lookup table) = none)
    (hw : w ∈ indexRows table jvalue f) : Origin system network w := by
  obtain ⟨i, hindex, rfl⟩ := mem_indexRows hw
  exact .assigned i hsize hint fun h => ne_none_of_eq_some hindex (hleft h)

/-- The rows of the basic section come from its values; the copy of the wired device is the one
that may not fit. -/
theorem origin_basic (h : member network "basic".toList = some node) (hw : w ∈ basicRows node) :
    Origin system network w := by
  rcases List.mem_append.mp hw with hw | hw
  · refine origin_indexRows rfl (by simp [Field.IsString]) (fun hleft => ?_) hw
    rw [← setting_eq h]
    exact hleft
  · rcases List.mem_append.mp hw with hw | hw
    · refine origin_indexRows rfl (by simp [Field.IsString]) (fun hleft => ?_) hw
      rw [← setting_eq h]
      exact hleft
    · rw [List.mem_singleton.mp hw, devWiredRow]
      cases hvalue : value node "devWired".toList with
      | none => exact .fallback (by decide) (ne_none_of_eq_some h)
      | some jvalue => exact .device ((setting_eq h).trans hvalue)

/-- An address is to be left alone only if the document has no section of addresses: otherwise
it is set, to its value or to its default. -/
theorem left_address {a : Address} (ha : a ∈ addresses) :
    Left system network a.field ↔ member network "staticIp".toList = none := by
  simp only [addresses, List.mem_cons, List.not_mem_nil, or_false] at ha
  rcases ha with rfl | rfl | rfl | rfl | rfl
  all_goals rfl

/-- The default of every address fits into its array. -/
theorem default_fits {a : Address} (ha : a ∈ addresses) : a.default.length < size a.field := by
  have hall : ∀ a ∈ addresses, a.default.length < size a.field := by decide
  exact hall a ha

/-- The rows of the addresses come from the valid values or the defaults. -/
theorem origin_staticIp (h : member network "staticIp".toList = some node)
    (hw : w ∈ staticIpRows node) : Origin system network w := by
  obtain ⟨a, ha, hw⟩ := List.mem_flatMap.mp hw
  rcases mem_addressRows hw with rfl | ⟨jvalue, hvalid, hw⟩
  · exact .fallback (default_fits ha) fun hleft => ne_none_of_eq_some h ((left_address ha).mp hleft)
  · have hsetting : validSetting network a.key = some jvalue := by
      rw [validSetting, h, Option.bind_some, hvalid]
    rcases hw with rfl | rfl
    · exact .address ha hsetting
    · exact .addressEnd ha hsetting

/-- **Every row has an origin.**  A store of the load is one of a member that is copied,
printed, set to its default or assigned, or the NUL behind a name or an address. -/
theorem origin (hw : w ∈ allRows installed system network) : Origin system network w := by
  rcases List.mem_append.mp hw with hw | hw
  · obtain ⟨s, hs, node, hmember, hrow⟩ := mem_written.mp hw
    simp only [systemSections, List.mem_cons, List.not_mem_nil, or_false] at hs
    rcases hs with rfl | rfl | rfl | rfl | rfl
    · exact origin_name hmember hrow
    · exact origin_subModel hmember hrow
    · exact origin_timezone hmember hrow
    · exact origin_ntp hmember hrow
    · exact origin_info hmember hrow
  · obtain ⟨s, hs, node, hmember, hrow⟩ := mem_written.mp hw
    simp only [networkSections, List.mem_cons, List.not_mem_nil, or_false] at hs
    rcases hs with rfl | rfl
    · exact origin_basic hmember hrow
    · exact origin_staticIp hmember hrow

/-! ## Strings that fit -/

/-- The strings whose length the handlers do not bound fit into their arrays. -/
structure TextsFit (system network : Node) : Prop where
  name : ∀ node, member system "name".toList = some node → (stringOf node).length < 64
  devWired : ∀ v, setting network "basic".toList "devWired".toList = some v → v.length < 16
  address : ∀ a ∈ addresses, ∀ v, validSetting network a.key = some v → v.length < 64

theorem size_address {a : Address} (ha : a ∈ addresses) : size a.field = 64 := by
  have hall : ∀ a ∈ addresses, size a.field = 64 := by decide
  exact hall a ha

theorem assign_fits {f : Field} {n : Nat} (hsize : size f = 4) : (assign f n).Fits := by
  intro i hi
  rw [show size (assign f n).field = 4 from hsize]
  exact lt_of_eq_of_lt (Nat.zero_add i) hi

theorem size_pos (f : Field) : 0 < size f := by
  cases f <;> simp [size, maxAddrLength]

/-- Where the texts fit, every row stays inside the member that it is meant for. -/
theorem Origin.fits (h : TextsFit system network) (hw : Origin system network w) : w.Fits := by
  cases hw with
  | copied v hn _ => exact strncpy_fits (le_of_lt hn)
  | printed v _ => exact snprintf_fits le_rfl (size_pos _)
  | fallback hd _ => exact strcpy_fits_iff.mpr hd
  | assigned n hsize _ _ => exact assign_fits hsize
  | nameEnd hname => exact terminate_fits_iff.mpr (h.name _ hname)
  | device hdev => exact strcpy_fits_iff.mpr (h.devWired _ hdev)
  | address ha _ => exact strncpy_fits (size_address ha).ge
  | addressEnd ha hvalid =>
      refine terminate_fits_iff.mpr ?_
      rw [size_address ha]
      exact h.address _ ha _ hvalid

/-- Where the texts fit, every row leaves the array that it is meant for with a NUL at its end. -/
theorem Origin.seals (h : TextsFit system network) (hw : Origin system network w)
    (hstring : w.field.IsString) : w.Seals := by
  cases hw with
  | copied v hn _ => exact strncpy_seals (Or.inl hn)
  | printed v _ => exact snprintf_seals
  | fallback hd _ => exact strcpy_seals
  | assigned n _ hint _ => exact absurd hstring hint
  | nameEnd _ => exact terminate_seals
  | device _ => exact strcpy_seals
  | address ha hvalid => exact strncpy_seals (Or.inr (h.address _ ha _ hvalid))
  | addressEnd ha _ => exact terminate_seals

/-- A row inside its field is for a member that the documents set, so it does not reach one that
is to be left alone. -/
theorem Origin.not_left (hw : Origin system network w) : ¬ Left system network w.field := by
  cases hw with
  | copied v _ hset => exact hset
  | printed v hset => exact hset
  | fallback _ hset => exact hset
  | assigned n _ _ hset => exact hset
  | nameEnd hname => exact ne_none_of_eq_some hname
  | device hdev =>
      intro hleft
      rw [setting, show member network "basic".toList = none from hleft] at hdev
      cases hdev
  | address ha hvalid =>
      intro hleft
      rw [validSetting, (left_address ha).mp hleft] at hvalid
      cases hvalid
  | addressEnd ha hvalid =>
      intro hleft
      rw [validSetting, (left_address ha).mp hleft] at hvalid
      cases hvalid

/-! ## The rows that need room -/

/-- A row of a section of the system document is a row of the load. -/
theorem mem_allRows_system {s : Section} (hs : s ∈ systemSections installed)
    (hmember : member system s.name = some node) (hw : w ∈ s.rows node) :
    w ∈ allRows installed system network :=
  List.mem_append_left _ (mem_written.mpr ⟨s, hs, node, hmember, hw⟩)

/-- A row of a section of the network document is a row of the load. -/
theorem mem_allRows_network {s : Section} (hs : s ∈ networkSections)
    (hmember : member network s.name = some node) (hw : w ∈ s.rows node) :
    w ∈ allRows installed system network :=
  List.mem_append_right _ (mem_written.mpr ⟨s, hs, node, hmember, hw⟩)

/-- The NUL behind the name is stored at the length of the name, however long it is. -/
theorem nameEnd_mem (hname : member system "name".toList = some node) :
    terminate .name (stringOf node).length ∈ allRows installed system network :=
  mem_allRows_system (s := nameSection) (.head _) hname (.tail _ (.head _))

/-- The wired device is copied as a whole, however long it is, since `strcpy` has no bound. -/
theorem device_mem {v : Text} (hdev : setting network "basic".toList "devWired".toList = some v) :
    strcpy .devWired v ∈ allRows installed system network := by
  obtain ⟨node, hbasic, hvalue⟩ := Option.bind_eq_some_iff.mp hdev
  refine mem_allRows_network (s := basicSection) (.head _) hbasic ?_
  have hrow : devWiredRow node = strcpy .devWired v := by
    rw [devWiredRow, hvalue]
    rfl
  rw [← hrow]
  exact List.mem_append_right _ (List.mem_append_right _ (List.mem_singleton.mpr rfl))

/-- The NUL behind a valid address is stored at the length of the address, however long it is. -/
theorem addressEnd_mem {a : Address} {v : Text} (ha : a ∈ addresses)
    (hvalid : validSetting network a.key = some v) :
    terminate a.field v.length ∈ allRows installed system network := by
  obtain ⟨node, hstatic, hvalue⟩ := Option.bind_eq_some_iff.mp hvalid
  refine mem_allRows_network (s := staticIpSection) (.tail _ (.head _)) hstatic ?_
  exact List.mem_flatMap.mpr ⟨a, ha, by simp [addressRows, hvalue]⟩

/-- The rows fit exactly if the strings do.  All other rows are bounded by `strncpy`, `snprintf`
or the type of the member. -/
theorem rows_fit_iff :
    (∀ w ∈ allRows installed system network, w.Fits) ↔ TextsFit system network := by
  constructor
  · intro h
    refine ⟨fun node hname => ?_, fun v hdev => ?_, fun a ha v hvalid => ?_⟩
    · exact terminate_fits_iff.mp (h _ (nameEnd_mem hname))
    · exact strcpy_fits_iff.mp (h _ (device_mem hdev))
    · have hfits := terminate_fits_iff.mp (h _ (addressEnd_mem ha hvalid))
      rwa [size_address ha] at hfits
  · exact fun h w hw => (origin hw).fits h

/-! ## Loading into a memory -/

/-- Every string array ends with a NUL, as it does when the configuration is zeroed. -/
def SealedMemory (memory : List Char) : Prop :=
  ∀ f : Field, f.IsString → (Record.mk memory [] : PFConfig).Sealed f

/-- Loading stores inside the members only, leaves strings there, and keeps the
members that the documents have nothing for. -/
def StoresInside (installed : Text → Bool) (system network : Node) (memory : List Char) : Prop :=
  ∃ config, load installed system network ⟨memory, []⟩ = some config ∧ config.Inside ∧
    (∀ f : Field, f.IsString → config.Terminated f) ∧
    ∀ f, Left system network f → Record.Keeps ⟨memory, []⟩ config f

/-- A load that stores inside came to its end, and every text fits into its array. -/
theorem readable_and_fit {memory : List Char} (h : StoresInside installed system network memory) :
    Readable (systemSections installed) system ∧ Readable networkSections network ∧
      TextsFit system network := by
  obtain ⟨config, hload, hinside, _⟩ := h
  obtain ⟨hsystem, hnetwork⟩ := readable_of_load hload
  rw [load_of_readable hsystem hnetwork, Option.some.injEq] at hload
  rw [← hload, inside_runs] at hinside
  exact ⟨hsystem, hnetwork, rows_fit_iff.mp hinside.2⟩

/-- **Stores of a load.**  A load stores inside the members if and only if it comes
to its end and the name, the wired device and the valid addresses fit. -/
theorem stores_inside_iff (installed : Text → Bool) (system network : Node) (memory : List Char)
    (hmemory : SealedMemory memory) :
    StoresInside installed system network memory ↔
      Readable (systemSections installed) system ∧ Readable networkSections network ∧
        TextsFit system network := by
  constructor
  · exact readable_and_fit
  · intro ⟨hsystem, hnetwork, hfit⟩
    have hfits : ∀ w ∈ allRows installed system network, w.Fits := rows_fit_iff.mpr hfit
    refine ⟨_, load_of_readable hsystem hnetwork, ?_, fun f hf => ?_, fun f hleft => ?_⟩
    · exact inside_runs.mpr ⟨List.forall_mem_nil _, hfits⟩
    · refine (sealed_runs hfits (fun w hw heq => ?_) (size_pos f) (hmemory f hf)).terminated
        (size_pos f)
      exact (origin hw).seals hfit (heq ▸ hf)
    · refine keeps_runs fun w hw i hi => not_reaches_of_fits (hfits w hw) (fun heq => ?_) hi
      exact (origin hw).not_left (heq ▸ hleft)

end

/-! ## A name that fits and one that does not -/

/-- A system document with a name only. -/
def named (name : Text) : Node := .object (.cons "name".toList (.string name) .nil)

def emptyObject : Node := .object .nil

theorem stores_inside_named :
    StoresInside (fun _ => true) (named "pi".toList) emptyObject [] := by
  refine (stores_inside_iff _ _ _ _ fun f _ => ?_).mpr
    ⟨⟨Option.some_ne_none _, ?_⟩, ⟨Option.some_ne_none _, ?_⟩, ?_⟩
  · exact byteAt_of_le (Nat.zero_le _)
  · intro s hs node hnode
    simp only [systemSections, List.mem_cons, List.not_mem_nil, or_false] at hs
    rcases hs with rfl | rfl | rfl | rfl | rfl
    · trivial
    · trivial
    all_goals cases hnode
  · intro s hs node hnode
    simp only [networkSections, List.mem_cons, List.not_mem_nil, or_false] at hs
    rcases hs with rfl | rfl
    all_goals cases hnode
  · refine ⟨fun node hnode => ?_, fun v hv => ?_, fun a _ v hv => ?_⟩
    · cases hnode
      decide
    · cases hv
    · cases hv

/-- A name of 64 bytes: `strncpy` stops in time, but the NUL behind it goes into the member
behind. -/
theorem longName_not_inside :
    ¬ StoresInside (fun _ => true) (named (List.replicate 64 'x')) emptyObject [] := by
  intro h
  have hname := (readable_and_fit h).2.2.name (.string (List.replicate 64 'x')) rfl
  revert hname
  decide

end ConfigMemory
