import PiFrame.ConfigHandlers
import PiFrame.Limits

/-!
# The network section

`rt_network`, `wt_network` and their handlers.  The writer puts the second name
server under the key of the first one, and the reader falls back to its default
for a key it does not find: the second name server comes back as that default.
-/

namespace ConfigNetwork

open ByteText CJson Limits

structure PFConfigNetworkBasic where
  netif : Nat
  type : Nat
  devWired : CString 16

instance : NeZero maxAddrLength := ⟨by decide⟩

structure PFConfigNetworkStatic where
  ipaddr : CString maxAddrLength
  netmask : CString maxAddrLength
  gateway : CString maxAddrLength
  dns1 : CString maxAddrLength
  dns2 : CString maxAddrLength

structure PFConfigNetwork where
  basic : PFConfigNetworkBasic
  staticIp : PFConfigNetworkStatic

/-- The section of a zeroed `PFConfig`. -/
def zeroed : PFConfigNetwork where
  basic := ⟨0, 0, .empty _⟩
  staticIp := ⟨.empty _, .empty _, .empty _, .empty _, .empty _⟩

def netDefaultIp : Text := "192.168.100.74".toList
def netDefaultNetmask : Text := "255.255.255.0".toList
def netDefaultGateway : Text := "192.168.100.1".toList
def netDefaultDns1 : Text := "168.126.63.1".toList
def netDefaultDns2 : Text := "8.8.8.8".toList

def basicInterfaceTable : List Text := ["NONE".toList, "WIRED".toList, "WIRELESS".toList]

def basicTypeTable : List Text := ["DHCP".toList, "STATIC".toList]

/-! ## Addresses -/

/-- What `%u` stores: `strtoul` stops at the largest 64-bit number, and the low half is kept. -/
def unsignedOf (n : Int) : Nat :=
  if -2 ^ 64 < n ∧ n < 2 ^ 64 then (n % 2 ^ 32).toNat else 2 ^ 32 - 1

/-- The numbers that `sscanf` takes with a format of `%u` and dots between them. -/
def scanDotted : Nat → Text → List Nat
  | 0, _ => []
  | n + 1, t =>
      match scanInteger t with
      | none => []
      | some (value, rest) =>
          unsignedOf value :: match rest with
            | '.' :: rest => scanDotted n rest
            | _ => []

def pfuIsValidStrIPv4 (strIp : Text) : Bool :=
  let ip := scanDotted 4 strIp
  ip.length == 4 && ip.all (· ≤ 255)

/-! ## Reading -/

/-- The index of the entry that `strcasecmp` finds in a table, if any. -/
def lookup (table : List Text) (jvalue : Text) : Option Nat :=
  table.findIdx? fun entry => lower jvalue == lower entry

def rfNetworkBasic (node : Node) (config : PFConfigNetwork) : Option PFConfigNetwork := do
  let interface ← jsonGetValueSibling node "interface".toList
  let netif := (interface.bind (lookup basicInterfaceTable)).getD config.basic.netif
  let connection ← jsonGetValueSibling node "connection".toList
  let type := (connection.bind (lookup basicTypeTable)).getD config.basic.type
  let jvalue ← jsonGetValueSibling node "devWired".toList
  let devWired ← strcpy 16 (jvalue.getD "eth0".toList)
  some { config with basic := ⟨netif, type, devWired⟩ }

/-- The value of a key when it is a valid address, else the default. -/
def staticIpSetConfig (node : Node) (key defvalue : Text) : Option (CString maxAddrLength) := do
  let jvalue ← jsonGetValueSibling node key
  match jvalue with
  | some jvalue =>
      if pfuIsValidStrIPv4 jvalue then strcpy maxAddrLength jvalue
      else strcpy maxAddrLength defvalue
  | none => strcpy maxAddrLength defvalue

def rfNetworkStaticIp (node : Node) (config : PFConfigNetwork) : Option PFConfigNetwork := do
  let ipaddr ← staticIpSetConfig node "ipaddr".toList netDefaultIp
  let netmask ← staticIpSetConfig node "netmask".toList netDefaultNetmask
  let gateway ← staticIpSetConfig node "gateway".toList netDefaultGateway
  let dns1 ← staticIpSetConfig node "dns1".toList netDefaultDns1
  let dns2 ← staticIpSetConfig node "dns2".toList netDefaultDns2
  some { config with staticIp := ⟨ipaddr, netmask, gateway, dns1, dns2⟩ }

def rtNetwork : List (ReadHandler PFConfigNetwork) :=
  [⟨"basic".toList, rfNetworkBasic⟩, ⟨"staticIp".toList, rfNetworkStaticIp⟩]

/-! ## Writing -/

def basicObject (basic : PFConfigNetworkBasic) : Members :=
  ((Members.nil.addString "interface".toList (basicInterfaceTable[basic.netif]?.getD [])).addString
    "connection".toList (basicTypeTable[basic.type]?.getD [])).addString "devWired".toList
    basic.devWired.text

/-- The assertions keep `netif` and `type` inside their tables. -/
def wfNetworkBasic (root : Members) (config : PFConfigNetwork) : Members :=
  root.add "basic".toList (.object (basicObject config.basic))

/-- The key of the last entry is `NETWORK_STATICIP_DNS1` again. -/
def staticIpObject (staticIp : PFConfigNetworkStatic) : Members :=
  ((((Members.nil.addString "ipaddr".toList staticIp.ipaddr.text).addString "netmask".toList
    staticIp.netmask.text).addString "gateway".toList staticIp.gateway.text).addString
    "dns1".toList staticIp.dns1.text).addString "dns1".toList staticIp.dns2.text

def wfNetworkStaticIp (root : Members) (config : PFConfigNetwork) : Members :=
  root.add "staticIp".toList (.object (staticIpObject config.staticIp))

def wtNetwork : List (WriteHandler PFConfigNetwork) :=
  [⟨"basic".toList, wfNetworkBasic⟩, ⟨"staticIp".toList, wfNetworkStaticIp⟩]

/-! ## Dotted quads -/

/-- Four numbers up to 255 in decimal, with dots between them. -/
def DottedQuad (t : Text) : Prop :=
  ∃ a b c d : Text, t = a ++ '.' :: (b ++ '.' :: (c ++ '.' :: d)) ∧
    ∀ part ∈ [a, b, c, d], part ≠ [] ∧ (∀ x ∈ part, x.isDigit) ∧ decimalValue part ≤ 255

/-- A digit is not escaped, so numbers of an address are printed as they are. -/
theorem plain_digit {c : Char} (h : c.isDigit) : isEscaped c = false := by
  have hlow := digit_range h
  have hquote : c ≠ '\x22' := by rintro rfl; exact absurd hlow.1 (by decide)
  have hback : c ≠ '\x5c' := by rintro rfl; exact absurd hlow.2 (by decide)
  simp only [isEscaped, Bool.or_eq_false_iff, decide_eq_false_iff_not]
  exact ⟨⟨by omega, hquote⟩, hback⟩

/-- A number with a dot behind it is printed as it is, if what follows is. -/
theorem plain_dotted {t rest : Text} (ht : ∀ c ∈ t, c.isDigit) (hrest : Plain rest) :
    Plain (t ++ '.' :: rest) := by
  intro c hc
  rcases List.mem_append.mp hc with hdigit | htail
  · exact plain_digit (ht c hdigit)
  · rcases List.mem_cons.mp htail with rfl | htail
    · decide
    · exact hrest c htail

/-- An address in dotted notation has no byte that JSON escapes, and comes back as it was. -/
theorem DottedQuad.plain {t : Text} (h : DottedQuad t) : Plain t := by
  obtain ⟨a, b, c, d, rfl, hparts⟩ := h
  have hdigits : ∀ part ∈ [a, b, c, d], ∀ x ∈ part, x.isDigit := fun part hp => (hparts part hp).2.1
  apply plain_dotted (hdigits a (by simp))
  apply plain_dotted (hdigits b (by simp))
  apply plain_dotted (hdigits c (by simp))
  exact fun x hx => plain_digit (hdigits d (by simp) x hx)

/-- A number that an octet can hold is the same as an `unsigned int`. -/
theorem unsignedOf_small {n : Nat} (h : n ≤ 255) : unsignedOf n = n := by
  unfold unsignedOf
  rw [if_pos (by omega)]
  omega

/-- A number and its dot. -/
theorem scanDotted_dot {part rest : Text} (n : Nat) (hsome : part ≠ [])
    (hdigits : ∀ x ∈ part, x.isDigit)
    (hsmall : decimalValue part ≤ 255) :
    scanDotted (n + 1) (part ++ '.' :: rest) = decimalValue part :: scanDotted n rest := by
  have hscan : scanInteger (part ++ '.' :: rest) = some ((decimalValue part : Int), '.' :: rest) :=
    scanInteger_append hdigits hsome (by simp [NoDigitNext])
  rw [scanDotted, hscan]
  simp only [unsignedOf_small hsmall]

/-- The last number of an address is read by `%u` alone, with no dot behind it. -/
theorem scanDotted_last {part : Text} (hsome : part ≠ []) (hdigits : ∀ x ∈ part, x.isDigit)
    (hsmall : decimalValue part ≤ 255) : scanDotted 1 part = [decimalValue part] := by
  rw [scanDotted, scanInteger_digits hdigits hsome]
  simp only [unsignedOf_small hsmall]

/-- Every address in dotted notation passes the check of `PFU_isValidStrIPv4`. -/
theorem DottedQuad.valid {t : Text} (h : DottedQuad t) : pfuIsValidStrIPv4 t = true := by
  obtain ⟨a, b, c, d, rfl, hparts⟩ := h
  obtain ⟨ha, hadigits, hasmall⟩ := hparts a (by simp)
  obtain ⟨hb, hbdigits, hbsmall⟩ := hparts b (by simp)
  obtain ⟨hc, hcdigits, hcsmall⟩ := hparts c (by simp)
  obtain ⟨hd, hddigits, hdsmall⟩ := hparts d (by simp)
  rw [pfuIsValidStrIPv4, scanDotted_dot 3 ha hadigits hasmall,
    scanDotted_dot 2 hb hbdigits hbsmall,
    scanDotted_dot 1 hc hcdigits hcsmall, scanDotted_last hd hddigits hdsmall]
  simp [hasmall, hbsmall, hcsmall, hdsmall]

/-! ## One trip through a document -/

def defaultDns2 : CString maxAddrLength := ⟨netDefaultDns2, by decide, by decide⟩

/-- What the section holds while the service runs. -/
structure Valid (c : PFConfigNetwork) : Prop where
  netif : c.basic.netif < basicInterfaceTable.length
  type : c.basic.type < basicTypeTable.length
  devWired : Plain c.basic.devWired.text
  ipaddr : DottedQuad c.staticIp.ipaddr.text
  netmask : DottedQuad c.staticIp.netmask.text
  gateway : DottedQuad c.staticIp.gateway.text
  dns1 : DottedQuad c.staticIp.dns1.text
  dns2 : DottedQuad c.staticIp.dns2.text

def networkTree (c : PFConfigNetwork) : Node := .object (configWriteIterate .nil wtNetwork c)

/-- The tree that the write table makes can be printed and parsed again, whatever the section
holds. -/
theorem networkTree_written (c : PFConfigNetwork) : (networkTree c).Written := by
  have hnil : Members.nil.Written := trivial
  have hbasic : (Node.object (basicObject c.basic)).Written := by
    have hinterface : NulFree (basicInterfaceTable[c.basic.netif]?.getD []) := by
      rcases c.basic.netif with _ | _ | _ | n
      all_goals first | decide | simp [basicInterfaceTable, NulFree]
    have htype : NulFree (basicTypeTable[c.basic.type]?.getD []) := by
      rcases c.basic.type with _ | _ | n
      all_goals first | decide | simp [basicTypeTable, NulFree]
    exact written_addString _ (by decide) (written_add (by decide) htype
      (written_add (by decide) hinterface hnil))
  have hstatic : (Node.object (staticIpObject c.staticIp)).Written := by
    exact written_addString _ (by decide) (written_addString _ (by decide) (written_addString _
      (by decide) (written_addString _ (by decide) (written_addString _ (by decide) hnil))))
  exact written_add (by decide) hstatic (written_add (by decide) hbasic hnil)

/-- An interface is found again under its name, at its own index. -/
theorem lookup_interface {n : Nat} (h : n < basicInterfaceTable.length) :
    lookup basicInterfaceTable (escape (basicInterfaceTable[n]?.getD [])) = some n := by
  have hall : ∀ n < basicInterfaceTable.length,
      lookup basicInterfaceTable (escape (basicInterfaceTable[n]?.getD [])) = some n := by decide
  exact hall n h

/-- A connection type is found again under its name, at its own index. -/
theorem lookup_type {n : Nat} (h : n < basicTypeTable.length) :
    lookup basicTypeTable (escape (basicTypeTable[n]?.getD [])) = some n := by
  have hall : ∀ n < basicTypeTable.length,
      lookup basicTypeTable (escape (basicTypeTable[n]?.getD [])) = some n := by decide
  exact hall n h

/-- An address that is found under its key. -/
theorem staticIpSetConfig_found {node : Node} {key defvalue : Text} {s : CString maxAddrLength}
    (hfound : jsonGetValueSibling node key = some (some (escape s.text)))
    (hs : DottedQuad s.text) :
    staticIpSetConfig node key defvalue = some s := by
  rw [staticIpSetConfig, hfound]
  simp only [Option.bind_eq_bind, Option.bind_some, escape_plain hs.plain, hs.valid, if_true]
  exact strcpy_text s

section

variable {c : PFConfigNetwork}

/-- The basic section comes back from its own object with all three members. -/
theorem rf_basic (h : Valid c) (config : PFConfigNetwork) :
    rfNetworkBasic (.object (basicObject c.basic)) config =
      some { config with basic := c.basic } := by
  have hcopy := strcpy_text c.basic.devWired
  simp [rfNetworkBasic, jsonGetValueSibling, jsonGetObject, Node.child, basicObject,
    Members.addString, Members.add, Members.find, lookup_interface h.netif, lookup_type h.type,
    escape_plain h.devWired, hcopy]

/-- What the printed addresses hold.  The key of the second name server is never
written. -/
theorem staticIpObject_values :
    let value := jsonGetValueSibling (.object (staticIpObject c.staticIp))
    value "ipaddr".toList = some (some (escape c.staticIp.ipaddr.text)) ∧
      value "netmask".toList = some (some (escape c.staticIp.netmask.text)) ∧
      value "gateway".toList = some (some (escape c.staticIp.gateway.text)) ∧
      value "dns1".toList = some (some (escape c.staticIp.dns1.text)) ∧
      value "dns2".toList = some none := by
  simp [jsonGetValueSibling, jsonGetObject, Node.child, staticIpObject, Members.addString,
    Members.add, Members.find]

/-- The address section comes back from its own object, but for the second name server, which is
written over by the first. -/
theorem rf_staticIp (h : Valid c) (config : PFConfigNetwork) :
    rfNetworkStaticIp (.object (staticIpObject c.staticIp)) config
      = some { config with staticIp := { c.staticIp with dns2 := defaultDns2 } } := by
  obtain ⟨hip, hmask, hgateway, hdns1, hdns2⟩ := staticIpObject_values (c := c)
  have hdefault : staticIpSetConfig (.object (staticIpObject c.staticIp)) "dns2".toList
      netDefaultDns2 = some defaultDns2 := by
    rw [staticIpSetConfig, hdns2]
    exact strcpy_text defaultDns2
  rw [rfNetworkStaticIp, staticIpSetConfig_found hip h.ipaddr,
    staticIpSetConfig_found hmask h.netmask, staticIpSetConfig_found hgateway h.gateway,
    staticIpSetConfig_found hdns1 h.dns1, hdefault]
  rfl

/-- One save and one load of a valid section: everything comes back but the second name server. -/
theorem roundTrip_network (h : Valid c) :
    roundTrip rtNetwork wtNetwork zeroed c
      = some { c with staticIp := { c.staticIp with dns2 := defaultDns2 } } := by
  rw [roundTrip_eq (networkTree_written c)]
  simp [rtNetwork, wtNetwork, configReadIterate, configWriteIterate, wfNetworkBasic,
    wfNetworkStaticIp, Members.add, jsonGetObject, Node.child, Members.find, rf_basic h,
    rf_staticIp h]

/-- **The round trip of the network section.**  The section comes back if and only
if its second name server is the default one. -/
theorem network_round_trip (h : Valid c) :
    roundTrip rtNetwork wtNetwork zeroed c = some c ↔
      c.staticIp.dns2.text = netDefaultDns2 := by
  rw [roundTrip_network h, Option.some.injEq]
  constructor
  · intro heq
    have hdns2 := congrArg (fun c : PFConfigNetwork => c.staticIp.dns2.text) heq
    exact hdns2.symm
  · intro htext
    have hdns2 : defaultDns2 = c.staticIp.dns2 := CString.ext htext.symm
    rw [hdns2]

end

/-! ## A second name server of one's own -/

def ownDns2 : CString maxAddrLength := ⟨"1.1.1.1".toList, by decide, by decide⟩

def secondServer (dns2 : CString maxAddrLength) : PFConfigNetwork :=
  ⟨⟨1, 0, ⟨"eth0".toList, by decide, by decide⟩⟩,
    ⟨defaultDns2, defaultDns2, defaultDns2, defaultDns2, dns2⟩⟩

/-- The default section with another second name server is one that the service can have. -/
theorem secondServer_valid (dns2 : CString maxAddrLength) (h : DottedQuad dns2.text) :
    Valid (secondServer dns2) := by
  have heights : DottedQuad defaultDns2.text := ⟨['8'], ['8'], ['8'], ['8'], rfl, by decide⟩
  have hnetif : 1 < basicInterfaceTable.length := by decide
  have htype : 0 < basicTypeTable.length := by decide
  have hdev : Plain "eth0".toList := by decide
  exact ⟨hnetif, htype, hdev, heights, heights, heights, heights, h⟩

/-- With both name servers the same, which is the default, the section does come back. -/
theorem network_round_trip_default : roundTrip rtNetwork wtNetwork zeroed (secondServer defaultDns2)
    = some (secondServer defaultDns2) :=
  (network_round_trip (secondServer_valid _ ⟨['8'], ['8'], ['8'], ['8'], rfl, by decide⟩)).mpr rfl

/-- A server of one's own comes back as the default. -/
theorem network_round_trip_fails : ∃ c : PFConfigNetwork, Valid c ∧
    roundTrip rtNetwork wtNetwork zeroed c ≠ some c := by
  have hvalid := secondServer_valid ownDns2 ⟨['1'], ['1'], ['1'], ['1'], rfl, by decide⟩
  refine ⟨secondServer ownDns2, hvalid, ?_⟩
  rw [roundTrip_network hvalid]
  intro heq
  have hdns2 := congrArg (fun c : PFConfigNetwork => c.staticIp.dns2.text) (Option.some.inj heq)
  revert hdns2
  decide

end ConfigNetwork
