import PiFrame.ConfigShapes

/-!
# Saving what was loaded

`wt_network` asserts that the numbers are in range and the addresses are valid.  The
numbers always are.  The addresses are put there by the handler of the address
section, so a document without one leaves the zeroed arrays, which are no
addresses; and an address that does not fit into its array goes on in the next one
when it is read back.
-/

namespace ConfigMemory

open ByteText RecordMemory
open CJson hiding strcpy strncpy configWriteIterate
open RecordMemory.Layout (size)
open ConfigNetwork (pfuIsValidStrIPv4 lookup basicInterfaceTable basicTypeTable)

/-! ## Writing -/

/-- A number that is read from a member. -/
def readInt (config : PFConfig) (f : Field) : Nat :=
  let byte i := (byteAt config.bytes (offset f + i)).toNat
  byte 0 + 256 * (byte 1 + 256 * (byte 2 + 256 * byte 3))

/-- One entry of a write table.  There is no result where an assertion fails. -/
structure AssertingHandler where
  name : Text
  handler : Members → PFConfig → Option Members

def wfNetworkBasic (root : Members) (config : PFConfig) : Option Members := do
  guard (readInt config .netif < basicInterfaceTable.length)
  let item := Members.nil.addString "interface".toList
    (basicInterfaceTable[readInt config .netif]?.getD [])
  guard (readInt config .type < basicTypeTable.length)
  let item := item.addString "connection".toList
    (basicTypeTable[readInt config .type]?.getD [])
  let item := item.addString "devWired".toList (config.string .devWired)
  some (root.add "basic".toList (.object item))

/-- The key of the last entry is `NETWORK_STATICIP_DNS1` again. -/
def wfNetworkStaticIp (root : Members) (config : PFConfig) : Option Members := do
  guard (pfuIsValidStrIPv4 (config.string .ipaddr))
  let item := Members.nil.addString "ipaddr".toList (config.string .ipaddr)
  guard (pfuIsValidStrIPv4 (config.string .netmask))
  let item := item.addString "netmask".toList (config.string .netmask)
  guard (pfuIsValidStrIPv4 (config.string .gateway))
  let item := item.addString "gateway".toList (config.string .gateway)
  guard (pfuIsValidStrIPv4 (config.string .dns1))
  let item := item.addString "dns1".toList (config.string .dns1)
  guard (pfuIsValidStrIPv4 (config.string .dns2))
  let item := item.addString "dns1".toList (config.string .dns2)
  some (root.add "staticIp".toList (.object item))

def wtNetwork : List AssertingHandler :=
  [⟨"basic".toList, wfNetworkBasic⟩, ⟨"staticIp".toList, wfNetworkStaticIp⟩]

def configWriteIterate (root : Members) : List AssertingHandler → PFConfig → Option Members
  | [], _ => some root
  | curr :: tbl, config =>
      (curr.handler root config).bind fun root => configWriteIterate root tbl config

/-- `MemToJson` of the network class. -/
def MemToJson (config : PFConfig) : Option Node :=
  (configWriteIterate .nil wtNetwork config).map .object

/-- A document that is loaded into the zeroed configuration can be saved again. -/
def Saves (network : Node) : Prop :=
  ∀ config, configReadIterate network rtNetwork zeroed = some config → MemToJson config ≠ none

/-! ## What the arrays hold -/

/-- The string that loading copies to the wired device. -/
def device (network : Node) : Text :=
  match member network "basic".toList with
  | some node => (value node "devWired".toList).getD "eth0".toList
  | none => []

/-- Where the last address ends. -/
def addressesEnd : Nat := offset Field.dns2 + size Field.dns2

/-- The string behind the addresses is cut by the NUL of an address that is long
enough to get there. -/
def cutBehind (node : Node) (behind : Text) (a : Address) : Text :=
  match validValue node a.key with
  | some jvalue =>
      if addressesEnd ≤ offset a.field + jvalue.length then
        behind.take (offset a.field + jvalue.length - addressesEnd)
      else behind
  | none => behind

/-- The string behind the addresses: what an overlong wired device left there. -/
def behind (network node : Node) : Text :=
  addresses.foldl (cutBehind node)
    ((device network).drop (addressesEnd - offset Field.devWired))

/-- The string that starts in the first of some addresses: one that does not fit
goes on in the next array. -/
def held (node : Node) (behind : Text) : List Address → Text
  | [] => behind
  | a :: rest =>
      match validValue node a.key with
      | some jvalue =>
          if jvalue.length < 64 then jvalue else jvalue.take 64 ++ held node behind rest
      | none => a.default

/-- The strings in the five arrays are valid addresses. -/
def AddressesValid (network : Node) : Prop :=
  match member network "staticIp".toList with
  | some node => ∀ first a rest, addresses = first ++ a :: rest →
      pfuIsValidStrIPv4 (held node (behind network node) (a :: rest)) = true
  | none => ∀ a ∈ addresses,
      pfuIsValidStrIPv4 ((device network).drop (offset a.field - offset Field.devWired)) = true

section

variable {network node : Node} {config : PFConfig} {f : Field} {w : Row Field}

/-! ## The assertions -/

/-- The basic section is written exactly if both of its numbers are indices of their tables. -/
theorem wfNetworkBasic_iff (root : Members) :
    (∃ root', wfNetworkBasic root config = some root') ↔
      readInt config .netif < basicInterfaceTable.length ∧
        readInt config .type < basicTypeTable.length := by
  by_cases hnetif : readInt config .netif < basicInterfaceTable.length
  · by_cases htype : readInt config .type < basicTypeTable.length
    · simp [wfNetworkBasic, guard, hnetif, htype]
    · simp [wfNetworkBasic, guard, hnetif, htype]
  · simp [wfNetworkBasic, guard, hnetif]

/-- The address section is written exactly if all five strings pass the check that is asserted for
them. -/
theorem wfNetworkStaticIp_iff (root : Members) :
    (∃ root', wfNetworkStaticIp root config = some root') ↔
      ∀ a ∈ addresses, pfuIsValidStrIPv4 (config.string a.field) = true := by
  simp [wfNetworkStaticIp, addresses, guard, Option.bind_eq_some_iff]

/-- **The assertions of the writer.**  They hold exactly if both indices are in their tables and
each address passes the check of its format. -/
theorem memToJson_ne_none_iff : MemToJson config ≠ none ↔
    (readInt config .netif < basicInterfaceTable.length ∧
      readInt config .type < basicTypeTable.length) ∧
    ∀ a ∈ addresses, pfuIsValidStrIPv4 (config.string a.field) = true := by
  rw [MemToJson, ne_eq, Option.map_eq_none_iff, ← ne_eq, Option.ne_none_iff_exists',
    ← wfNetworkBasic_iff .nil]
  constructor
  · intro ⟨root, hroot⟩
    obtain ⟨middle, hbasic, hrest⟩ := Option.bind_eq_some_iff.mp hroot
    obtain ⟨last, hstatic, -⟩ := Option.bind_eq_some_iff.mp hrest
    exact ⟨⟨middle, hbasic⟩, (wfNetworkStaticIp_iff middle).mp ⟨last, hstatic⟩⟩
  · intro ⟨⟨middle, hbasic⟩, hvalid⟩
    obtain ⟨last, hstatic⟩ := (wfNetworkStaticIp_iff middle).mpr hvalid
    refine ⟨last, Option.bind_eq_some_iff.mpr ⟨middle, hbasic, ?_⟩⟩
    exact Option.bind_eq_some_iff.mpr ⟨last, hstatic, rfl⟩

/-! ## The numbers -/

/-- A number whose bytes are kept is the number that it was. -/
theorem readInt_keeps {r r' : PFConfig} (hsize : size f = 4) (h : r.Keeps r' f) :
    readInt r' f = readInt r f := by
  simp only [readInt]
  rw [h 0 (by omega), h 1 (by omega), h 2 (by omega), h 3 (by omega)]

/-- A number below 256 is read back as it was assigned; all indices and counts are that small. -/
theorem readInt_assign {n : Nat} (hn : n < 256) : readInt (config.run (assign f n)) f = n := by
  have hbyte : ∀ i < 4, byteAt (config.run (assign f n)).bytes (offset f + i)
      = byteAt (intBytes n) i := by
    intro i hi
    have hfield : (assign f n).field = f := rfl
    have hstart : (assign f n).start = 0 := rfl
    have hlen : (assign f n).text.length = 4 := rfl
    rw [byteAt_run, hfield, hstart, hlen, if_pos (by omega)]
    congr 1
    omega
  have hlow : n % 256 = n := Nat.mod_eq_of_lt hn
  have hhigh : n / 256 = 0 := Nat.div_eq_of_lt hn
  have hhigher : n / 65536 = 0 := Nat.div_eq_of_lt (by omega)
  have hhighest : n / 16777216 = 0 := Nat.div_eq_of_lt (by omega)
  have hchar : (Char.ofNat n).toNat = n := toNat_ofNat hn
  simp only [readInt]
  rw [hbyte 0 (by omega), hbyte 1 (by omega), hbyte 2 (by omega), hbyte 3 (by omega)]
  simp [byteAt, intBytes, hlow, hhigh, hhigher, hhighest, hchar]

/-- An index that was found in a table is one of the table. -/
theorem index_lt {table : List Text} (jvalue : Option Text) (h : 0 < table.length) :
    (jvalue.bind (lookup table)).getD 0 < table.length := by
  cases hindex : jvalue.bind (lookup table) with
  | none => exact h
  | some i =>
      obtain ⟨value, -, hfound⟩ := Option.bind_eq_some_iff.mp hindex
      exact (List.findIdx?_eq_some_iff_getElem.mp hfound).1

/-- The index of a string in a table is read back. -/
theorem readInt_indexRows {table : List Text} {jvalue : Option Text} {back : List (Row Field)}
    (hsize : size f = 4) (htable : table.length ≤ 256) (hzero : readInt config f = 0)
    (habove : ∀ w ∈ back, rank f < rank w.field) :
    readInt (config.runs (indexRows table jvalue f ++ back)) f
      = (jvalue.bind (lookup table)).getD 0 := by
  have hback : ∀ r : PFConfig, readInt (r.runs back) f = readInt r f := fun r =>
    readInt_keeps hsize (keeps_runs fun w hw _ hi => not_reaches_of_rank (habove w hw) hi)
  rw [runs_append, hback, indexRows]
  cases hindex : jvalue.bind (lookup table) with
  | none => exact hzero
  | some i =>
      obtain ⟨value, -, hfound⟩ := Option.bind_eq_some_iff.mp hindex
      have hi : i < table.length := (List.findIdx?_eq_some_iff_getElem.mp hfound).1
      exact readInt_assign (lt_of_lt_of_le hi htable)

/-! ## The wired device and what it overruns -/

/-- Rows that go to a number end before the wired device. -/
theorem indexRows_below {table : List Text} {jvalue : Option Text} (hsize : size f = 4)
    (hrank : rank f < rank Field.devWired) {i : Nat} (hw : w ∈ indexRows table jvalue f) :
    ¬ w.Reaches (offset Field.devWired + i) := by
  intro ⟨_, hhigh⟩
  have hbelow := offset_add_size_le hrank
  obtain ⟨n, -, rfl⟩ := mem_indexRows hw
  have hhigh : offset Field.devWired + i < offset f + 0 + 4 := hhigh
  omega

/-- The rows of a number keep to its four bytes. -/
theorem indexRows_apart {table : List Text} {jvalue : Option Text} {g : Field} (hsize : size f = 4)
    (hne : f ≠ g) (hw : w ∈ indexRows table jvalue f) {i : Nat} (hi : i < size g) :
    ¬ w.Reaches (offset g + i) := by
  obtain ⟨n, -, rfl⟩ := mem_indexRows hw
  exact not_reaches_of_fits (assign_fits hsize) hne hi

/-- The wired device was copied into zeroes: each byte from there on is one of its own, or zero
behind its end. -/
theorem byteAt_device (i : Nat) :
    byteAt (zeroed.runs (written [basicSection] network)).bytes (offset Field.devWired + i)
      = byteAt (device network) i := by
  have hzero : ∀ a, byteAt zeroed.bytes a = nul := fun a => byteAt_of_le (Nat.zero_le a)
  rw [device]
  cases hbasic : member network "basic".toList with
  | none =>
      rw [written_basic_none hbasic]
      exact hzero _
  | some node =>
      have hrows : basicRows node
          = (indexRows basicInterfaceTable (value node "interface".toList) .netif
            ++ indexRows basicTypeTable (value node "connection".toList) .type)
            ++ [devWiredRow node] := (List.append_assoc ..).symm
      rw [written_basic hbasic, hrows, runs_append, runs_cons, runs_nil, devWiredRow]
      rcases Nat.lt_or_ge ((value node "devWired".toList).getD "eth0".toList).length i with h | h
      · -- behind its NUL the memory is as it was
        have hout : ¬ (strcpy Field.devWired ((value node "devWired".toList).getD
            "eth0".toList)).Reaches (offset Field.devWired + i) := by
          intro hreaches
          obtain ⟨_, hhigh⟩ := hreaches
          simp only [strcpy, List.length_append, List.length_singleton] at hhigh
          omega
        rw [byteAt_run_of_not_reaches hout, byteAt_runs, hzero, byteAt_of_le (le_of_lt h)]
        intro w hw
        rcases List.mem_append.mp hw with hw | hw
        · exact indexRows_below rfl (by decide) hw
        · exact indexRows_below rfl (by decide) hw
      · exact byteAt_run_strcpy h

/-- The text that is copied for the wired device is a C string. -/
theorem nul_notMem_device : nul ∉ device network := by
  rw [device]
  cases member network "basic".toList with
  | none => exact List.not_mem_nil
  | some node =>
      show nul ∉ (value node "devWired".toList).getD "eth0".toList
      cases hvalue : value node "devWired".toList with
      | none =>
          rw [Option.getD_none]
          decide
      | some jvalue => exact nul_notMem_value hvalue

/-- The string that starts so many bytes behind the start of the wired device. -/
theorem stringAt_device (n : Nat) :
    stringAt (zeroed.runs (written [basicSection] network)).bytes
      (offset Field.devWired + n) = (device network).drop n := by
  refine stringAt_eq_iff.mpr ⟨fun h => nul_notMem_device (List.mem_of_mem_drop h), fun i _ => ?_⟩
  rw [Nat.add_assoc, byteAt_device]
  exact byteAt_drop.symm

/-! ## Addresses one behind the other -/

/-- Where the first of some addresses starts. -/
def startOf : List Address → Nat
  | [] => addressesEnd
  | a :: _ => offset a.field

/-- Addresses that lie one behind the other up to the end. -/
def Contiguous : List Address → Prop
  | [] => True
  | a :: rest => offset a.field + 64 = startOf rest ∧
      (∀ b ∈ rest, rank a.field < rank b.field) ∧ Contiguous rest

/-- The five address arrays lie one behind the other, in the order in which they are loaded. -/
theorem contiguous_addresses : Contiguous addresses := by
  simp only [addresses, Contiguous, List.forall_mem_cons]
  decide

/-- The addresses from any of them on lie one behind the other as well. -/
theorem Contiguous.of_append {first rest : List Address} (h : Contiguous (first ++ rest)) :
    Contiguous rest := by
  induction first with
  | nil => exact h
  | cons a first ih => exact ih h.2.2

/-- The addresses from any of them on start inside the arrays. -/
theorem Contiguous.startOf_le {rest : List Address} (h : Contiguous rest) :
    startOf rest ≤ addressesEnd := by
  induction rest with
  | nil => exact le_rfl
  | cons a rest ih =>
      obtain ⟨hnext, -, hrest⟩ := h
      have hend := ih hrest
      exact le_trans (Nat.le_add_right _ 64) (hnext ▸ hend)

theorem nul_notMem_default {a : Address} (ha : a ∈ addresses) : nul ∉ a.default := by
  have hall : ∀ a ∈ addresses, nul ∉ a.default := by decide
  exact hall a ha

/-- A valid address is a C string, however long it is. -/
theorem nul_notMem_validValue {key jvalue : Text} (h : validValue node key = some jvalue) :
    nul ∉ jvalue := by
  rw [validValue, Option.filter_eq_some_iff] at h
  exact nul_notMem_value h.1

/-- The string that starts in the first of some addresses, when they have been set.  A valid
address of 64 bytes or more is cut at the end of its array, and the text goes on in the next
one. -/
theorem stringAt_held {rest : List Address} (hrest : Contiguous rest)
    (hmem : ∀ a ∈ rest, a ∈ addresses) :
    stringAt (config.runs (rest.flatMap (addressRows node))).bytes (startOf rest)
      = held node (stringAt (config.runs (rest.flatMap (addressRows node))).bytes addressesEnd)
        rest := by
  induction rest generalizing config with
  | nil => rfl
  | cons a rest ih =>
      obtain ⟨hnext, habove, hrest⟩ := hrest
      rw [List.forall_mem_cons] at hmem
      obtain ⟨ha, hmem⟩ := hmem
      have hlater : ∀ w ∈ rest.flatMap (addressRows node), rank a.field < rank w.field := by
        intro w hw
        obtain ⟨b, hb, hw⟩ := List.mem_flatMap.mp hw
        rw [field_of_addressRows hw]
        exact habove b hb
      have hsize := size_address ha
      have hnextHeld := @ih (config.runs (addressRows node a)) hrest hmem
      rw [List.flatMap_cons, runs_append, held]
      cases hvalid : validValue node a.key with
      | none =>
          have hrows : addressRows node a = [strcpy a.field a.default] := by
            rw [addressRows, hvalid]
          have hstring : (config.runs ([] ++ strcpy a.field a.default
              :: rest.flatMap (addressRows node))).string a.field = a.default :=
            string_runs_strcpy (nul_notMem_default ha) (default_fits ha) hlater
          rw [hrows]
          exact hstring
      | some jvalue =>
          have hrows : addressRows node a
              = [strncpy a.field jvalue 64, terminate a.field jvalue.length] := by
            rw [addressRows, hvalid]
          have htext := nul_notMem_validValue hvalid
          -- the first 64 bytes are those of the value, as far as its NUL
          have hbytes : ∀ i < 64, i ≤ jvalue.length →
              byteAt ((config.runs (addressRows node a)).runs
                (rest.flatMap (addressRows node))).bytes (offset a.field + i)
                = byteAt jvalue i := by
            intro i hi hle
            rw [byteAt_runs fun w hw => not_reaches_of_rank (hlater w hw) (by omega), hrows,
              runs_cons, runs_cons, runs_nil]
            rcases Nat.lt_or_eq_of_le hle with hlt | rfl
            · have hout : ¬ (terminate a.field jvalue.length).Reaches (offset a.field + i) := by
                intro hreaches
                have hlow : offset a.field + jvalue.length ≤ offset a.field + i := hreaches.1
                omega
              rw [byteAt_run_of_not_reaches hout, byteAt_run_strncpy hi]
            · rw [byteAt_run_terminate, byteAt_of_le le_rfl]
          by_cases hshort : jvalue.length < 64
          · simp only [if_pos hshort]
            exact stringAt_eq_iff.mpr ⟨htext, fun i hi => hbytes i (by omega) hi⟩
          · have hlen : (jvalue.take 64).length = 64 := by
              rw [List.length_take]
              omega
            simp only [if_neg hshort]
            have htake : nul ∉ jvalue.take 64 := fun h => htext (List.mem_of_mem_take h)
            rw [startOf, stringAt_append htake, hlen, hnext, hnextHeld]
            intro i hi
            rw [hbytes i (by omega) (by omega), byteAt_take (by omega)]

/-- The string behind the addresses, when they have been set.  The NUL of an overlong address
may come to lie there, and cuts it. -/
theorem stringAt_behind {rest : List Address} (hrest : Contiguous rest)
    (hmem : ∀ a ∈ rest, a ∈ addresses) :
    stringAt (config.runs (rest.flatMap (addressRows node))).bytes addressesEnd
      = rest.foldl (cutBehind node) (stringAt config.bytes addressesEnd) := by
  induction rest generalizing config with
  | nil => rfl
  | cons a rest ih =>
      obtain ⟨hnext, -, hrest⟩ := hrest
      rw [List.forall_mem_cons] at hmem
      obtain ⟨ha, hmem⟩ := hmem
      have hend : offset a.field + 64 ≤ addressesEnd := hnext ▸ hrest.startOf_le
      rw [List.flatMap_cons, runs_append, ih hrest hmem, List.foldl_cons]
      congr 1
      rw [cutBehind, addressRows]
      cases hvalid : validValue node a.key with
      | none =>
          have hfits := default_fits ha
          have hsize := size_address ha
          refine stringAt_run_of_le ?_
          simp only [strcpy, List.length_append, List.length_singleton]
          omega
      | some jvalue =>
          have hcopy : stringAt (config.run (strncpy a.field jvalue 64)).bytes addressesEnd
              = stringAt config.bytes addressesEnd := by
            refine stringAt_run_of_le ?_
            rw [length_strncpy]
            exact hend
          simp only [runs_cons, runs_nil]
          by_cases hlong : addressesEnd ≤ offset a.field + jvalue.length
          · rw [if_pos hlong, stringAt_run_terminate hlong, hcopy]
          · rw [if_neg hlong, stringAt_run_of_le, hcopy]
            simp only [terminate, List.length_singleton]
            omega

/-! ## Saving -/

/-- The strings in the five arrays behind a load without an address section. -/
theorem string_overrun {a : Address} (ha : a ∈ addresses)
    (hstatic : member network "staticIp".toList = none) :
    (zeroed.runs (written networkSections network)).string a.field
      = (device network).drop (offset a.field - offset Field.devWired) := by
  have hall : ∀ a ∈ addresses, offset Field.devWired
      + (offset a.field - offset Field.devWired) = offset a.field := by decide
  rw [← stringAt_device, hall a ha, written_network, written_staticIp_none hstatic,
    List.append_nil]
  rfl

/-- The strings in the five arrays behind a load with one. -/
theorem string_held {first rest : List Address} {a : Address}
    (hstatic : member network "staticIp".toList = some node)
    (hsplit : addresses = first ++ a :: rest) :
    (zeroed.runs (written networkSections network)).string a.field
      = held node (behind network node) (a :: rest) := by
  have hrest : Contiguous (a :: rest) := (hsplit ▸ contiguous_addresses).of_append
  have hmem : ∀ b ∈ a :: rest, b ∈ addresses := fun b hb =>
    hsplit ▸ List.mem_append_right first hb
  have hplace : offset Field.devWired + (addressesEnd - offset Field.devWired)
      = addressesEnd := by decide
  have hbehind : stringAt (zeroed.runs (written [basicSection] network
      ++ addresses.flatMap (addressRows node))).bytes addressesEnd = behind network node := by
    rw [runs_append, stringAt_behind contiguous_addresses fun a ha => ha, behind, ← stringAt_device,
      hplace]
  have hstring := @stringAt_held node ((zeroed.runs (written [basicSection] network)).runs
    (first.flatMap (addressRows node))) (a :: rest) hrest hmem
  rw [← runs_append, ← runs_append, ← List.flatMap_append, ← hsplit, hbehind] at hstring
  rw [written_network, written_staticIp hstatic]
  exact hstring

/-- The condition on the document says of the five strings in memory, after the load, that each of
them is valid. -/
theorem addressesValid_iff : AddressesValid network ↔ ∀ a ∈ addresses,
    pfuIsValidStrIPv4 ((zeroed.runs (written networkSections network)).string a.field) = true := by
  rw [AddressesValid]
  cases hstatic : member network "staticIp".toList with
  | none =>
      refine forall₂_congr fun a ha => ?_
      rw [string_overrun ha hstatic]
  | some node =>
      constructor
      · intro h a ha
        obtain ⟨first, rest, hsplit⟩ := List.append_of_mem ha
        rw [string_held hstatic hsplit]
        exact h first a rest hsplit
      · intro h first a rest hsplit
        rw [← string_held hstatic hsplit]
        exact h a (hsplit ▸ List.mem_append_right first List.mem_cons_self)

/-- The numbers behind a load: what the document has for them, looked up in their tables, or
zero. -/
theorem readInt_load :
    readInt (zeroed.runs (written networkSections network)) .netif
        = ((setting network "basic".toList "interface".toList).bind
          (lookup basicInterfaceTable)).getD 0 ∧
      readInt (zeroed.runs (written networkSections network)) .type
        = ((setting network "basic".toList "connection".toList).bind
          (lookup basicTypeTable)).getD 0 := by
  have hzero : ∀ f, readInt zeroed f = 0 := fun f => rfl
  rw [written_network]
  cases hbasic : member network "basic".toList with
  | none =>
      have hkeeps : ∀ f : Field, size f = 4 → rank f < rank Field.devWired →
          readInt (zeroed.runs (written [staticIpSection] network)) f = 0 := by
        intro f hsize hrank
        rw [readInt_keeps hsize, hzero f]
        exact keeps_runs fun w hw _ hi => not_reaches_of_rank (hrank.trans (above_addresses hw)) hi
      rw [written_basic_none hbasic, List.nil_append, hkeeps .netif rfl (by decide),
        hkeeps .type rfl (by decide), setting, setting, hbasic]
      exact ⟨rfl, rfl⟩
  | some node =>
      have hrows : written [basicSection] network ++ written [staticIpSection] network
          = indexRows basicInterfaceTable (value node "interface".toList) .netif
            ++ (indexRows basicTypeTable (value node "connection".toList) .type
              ++ ([devWiredRow node] ++ written [staticIpSection] network)) := by
        rw [written_basic hbasic, basicRows]
        simp only [List.append_assoc]
      have hback : ∀ w ∈ [devWiredRow node] ++ written [staticIpSection] network,
          rank Field.devWired ≤ rank w.field := by
        intro w hw
        rcases List.mem_append.mp hw with hw | hw
        · rw [List.mem_singleton.mp hw]
          exact le_rfl
        · exact (above_addresses hw).le
      have hnetif : rank Field.netif < rank Field.type := by decide
      have htype : rank Field.type < rank Field.devWired := by decide
      rw [hrows, setting_eq hbasic, setting_eq hbasic]
      constructor
      · refine readInt_indexRows rfl (by decide) (hzero _) fun w hw => ?_
        rcases List.mem_append.mp hw with hw | hw
        · rw [field_of_indexRows hw]
          exact hnetif
        · exact (hnetif.trans htype).trans_le (hback w hw)
      · rw [runs_append]
        refine readInt_indexRows rfl (by decide) ?_ fun w hw => htype.trans_le (hback w hw)
        rw [readInt_keeps rfl, hzero]
        exact keeps_runs fun w hw _ hi => indexRows_apart rfl (by decide) hw hi

/-- The numbers are in range whatever is loaded. -/
theorem numbers_in_range :
    readInt (zeroed.runs (written networkSections network)) .netif < basicInterfaceTable.length ∧
      readInt (zeroed.runs (written networkSections network)) .type < basicTypeTable.length := by
  obtain ⟨hnetif, htype⟩ := @readInt_load network
  rw [hnetif, htype]
  exact ⟨index_lt _ (by decide), index_lt _ (by decide)⟩

/-- What a document that is read leaves can be saved exactly if the addresses in the
arrays are valid. -/
theorem saves_of_readable (hread : Readable networkSections network) :
    Saves network ↔ AddressesValid network := by
  rw [Saves, read_of_readable describes_network hread, addressesValid_iff]
  simp only [Option.some.injEq, forall_eq', memToJson_ne_none_iff]
  exact and_iff_right numbers_in_range

/-- **Saving what was loaded.**  A document can be saved behind its load if and only if
the load does not come to its end, or the strings that it leaves in the five arrays
are valid addresses. -/
theorem saves_iff (child : Members) : Saves (.object child) ↔
    (Readable networkSections (.object child) → AddressesValid (.object child)) := by
  by_cases hread : Readable networkSections (.object child)
  · rw [saves_of_readable hread]
    exact ⟨fun h _ => h, fun h => h hread⟩
  · refine iff_of_true (fun config hload => ?_) fun h => absurd h hread
    rw [read_of_not_readable describes_network (by simp [rtNetwork]) hread] at hload
    cases hload

end

/-- Without an address section the zeroed arrays are no addresses. -/
theorem emptyObject_not_saves : ¬ Saves emptyObject := by
  intro h
  exact h zeroed rfl rfl

end ConfigMemory
