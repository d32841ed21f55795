import PiFrame.ConfigResave

/-!
# The network section in memory

`ConfigNetwork` has the section as a structure, and no result where a copy would leave its
array.  Where it has one, the memory that the same document is loaded into shows
this structure.
-/

namespace ConfigMemory

open ByteText Limits RecordMemory
open CJson hiding strcpy strncpy configWriteIterate
open RecordMemory.Layout (size)
open ConfigNetwork (PFConfigNetwork pfuIsValidStrIPv4 lookup basicInterfaceTable
  basicTypeTable netDefaultIp netDefaultNetmask netDefaultGateway netDefaultDns1
  netDefaultDns2)

/-- The memory holds the members of a network section. -/
structure Shows (config : PFConfig) (c : PFConfigNetwork) : Prop where
  netif : readInt config .netif = c.basic.netif
  type : readInt config .type = c.basic.type
  devWired : config.string .devWired = c.basic.devWired.text
  ipaddr : config.string .ipaddr = c.staticIp.ipaddr.text
  netmask : config.string .netmask = c.staticIp.netmask.text
  gateway : config.string .gateway = c.staticIp.gateway.text
  dns1 : config.string .dns1 = c.staticIp.dns1.text
  dns2 : config.string .dns2 = c.staticIp.dns2.text

section

variable {node root : Node} {key : Text}

/-! ## Values of written documents -/

/-- A member that is found in an object that can be written can be written. -/
theorem written_find {same : Text → Bool} {child : Members} {item : Node} (h : child.Written)
    (hfind : child.find same = some item) : item.Written := by
  cases child with
  | nil => cases hfind
  | cons string first next =>
      rw [Members.Written] at h
      rw [Members.find] at hfind
      split at hfind
      · rw [← Option.some.inj hfind]
        exact h.2.1
      · exact written_find h.2.2 hfind

/-- A member of an item that can be written can be written, whether the item is an object or not. -/
theorem written_member {item : Node} (h : node.Written) (hmember : member node key = some item) :
    item.Written := by
  obtain ⟨child, hchild, hfind⟩ := Option.bind_eq_some_iff.mp hmember
  cases node with
  | object members =>
      cases hchild
      exact written_find h hfind
  | array items =>
      cases items with
      | nil =>
          cases hchild
          cases hfind
      | cons item next => cases hchild
  | _ =>
      cases hchild
      cases hfind

/-- A value of a document that can be written has no NUL in it. -/
theorem nulFree_jsonGetValue {item : Node} (h : item.Written) : NulFree (jsonGetValue item) := by
  have hprint : NulFree (cJsonPrint item) := nulFree_printValue 0 true item h
  cases item with
  | string valuestring =>
      intro c hc
      exact hprint c (List.mem_of_mem_drop (List.dropLast_subset _ hc))
  | _ => exact hprint

/-- Without a NUL in it a value is the string that the handlers see. -/
theorem jsonGetValueSibling_eq (h : node.Written) (hnamed : Named node) :
    jsonGetValueSibling node key = some (value node key) := by
  rw [jsonGetValueSibling, jsonGetObject_of_named hnamed, value, Option.map_some]
  cases hmember : member node key with
  | none => rfl
  | some item =>
      rw [Option.map_some, Option.map_some, stringOf,
        cString_of_nulFree (nulFree_jsonGetValue (written_member h hmember))]

/-! ## What the section holds -/

variable {c c' : PFConfigNetwork}

/-- A copy that stays inside its array holds the text, and the text is shorter than the array. -/
theorem text_of_strcpy {n : Nat} {text : Text} {s : CString n} (htext : nul ∉ text)
    (h : CJson.strcpy n text = some s) : s.text = text ∧ text.length < n := by
  have hcut : cString text = text := by
    apply cString_of_nulFree
    intro c hc hzero
    rw [hzero] at hc
    exact htext hc
  rw [CJson.strcpy] at h
  split at h
  · rename_i hfits
    rw [hcut] at hfits
    rw [← Option.some.inj h]
    exact ⟨hcut, hfits⟩
  · cases h

/-- A handler that gets a value from an item can compare the names of its members. -/
theorem not_none_of_sibling {α : Type*} {f : Option Text → Option α} {a : α}
    (h : (jsonGetValueSibling node key).bind f = some a) : Named node := by
  by_contra hnamed
  rw [jsonGetValueSibling, jsonGetObject_of_not_named hnamed] at h
  cases h

/-- What the handler of the basic section puts into the structure. -/
theorem basic_of_some (hnode : node.Written)
    (h : ConfigNetwork.rfNetworkBasic node c = some c') :
    Named node ∧
      c'.basic.netif = ((value node "interface".toList).bind
        (lookup basicInterfaceTable)).getD c.basic.netif ∧
      c'.basic.type = ((value node "connection".toList).bind
        (lookup basicTypeTable)).getD c.basic.type ∧
      c'.basic.devWired.text = (value node "devWired".toList).getD "eth0".toList ∧
      c'.staticIp = c.staticIp := by
  have hnamed : Named node := not_none_of_sibling h
  simp only [ConfigNetwork.rfNetworkBasic, jsonGetValueSibling_eq hnode hnamed,
    Option.bind_eq_bind, Option.bind_some, Option.bind_eq_some_iff, Option.some.injEq] at h
  obtain ⟨devWired, hcopy, rfl⟩ := h
  have htext : nul ∉ (value node "devWired".toList).getD "eth0".toList := by
    cases hvalue : value node "devWired".toList with
    | none =>
        rw [Option.getD_none]
        decide
    | some jvalue => exact nul_notMem_value hvalue
  exact ⟨hnamed, rfl, rfl, (text_of_strcpy htext hcopy).1, rfl⟩

/-- What is copied for an address. -/
theorem staticIpSetConfig_eq (hnode : node.Written) (hnamed : Named node) (default : Text) :
    ConfigNetwork.staticIpSetConfig node key default
      = CJson.strcpy maxAddrLength ((validValue node key).getD default) := by
  rw [ConfigNetwork.staticIpSetConfig, jsonGetValueSibling_eq hnode hnamed, validValue]
  cases hvalue : value node key with
  | none => rfl
  | some jvalue =>
      by_cases hvalid : pfuIsValidStrIPv4 jvalue = true
      · simp [Option.filter, hvalid]
      · simp [Option.filter, hvalid]

/-- What the handler of the address section puts into the structure. -/
theorem staticIp_of_some (hnode : node.Written)
    (h : ConfigNetwork.rfNetworkStaticIp node c = some c') :
    Named node ∧ c'.basic = c.basic ∧
      CJson.strcpy maxAddrLength ((validValue node "ipaddr".toList).getD netDefaultIp)
        = some c'.staticIp.ipaddr ∧
      CJson.strcpy maxAddrLength ((validValue node "netmask".toList).getD netDefaultNetmask)
        = some c'.staticIp.netmask ∧
      CJson.strcpy maxAddrLength ((validValue node "gateway".toList).getD netDefaultGateway)
        = some c'.staticIp.gateway ∧
      CJson.strcpy maxAddrLength ((validValue node "dns1".toList).getD netDefaultDns1)
        = some c'.staticIp.dns1 ∧
      CJson.strcpy maxAddrLength ((validValue node "dns2".toList).getD netDefaultDns2)
        = some c'.staticIp.dns2 := by
  rw [ConfigNetwork.rfNetworkStaticIp] at h
  have hnamed : Named node := by
    obtain ⟨ipaddr, hipaddr, -⟩ := Option.bind_eq_some_iff.mp h
    exact not_none_of_sibling hipaddr
  simp only [staticIpSetConfig_eq hnode hnamed, Option.bind_eq_bind, Option.bind_eq_some_iff,
    Option.some.injEq] at h
  obtain ⟨ipaddr, hipaddr, netmask, hnetmask, gateway, hgateway, dns1, hdns1, dns2, hdns2, rfl⟩ := h
  exact ⟨hnamed, rfl, hipaddr, hnetmask, hgateway, hdns1, hdns2⟩

/-- An address that was copied inside its array is the valid value or the default, and not too
long. -/
theorem address_of_some {a : Address} {s : CString maxAddrLength} (ha : a ∈ addresses)
    (h : CJson.strcpy maxAddrLength ((validValue node a.key).getD a.default) = some s) :
    s.text = (validValue node a.key).getD a.default ∧
      ∀ v, validValue node a.key = some v → v.length < 64 := by
  have htext : nul ∉ (validValue node a.key).getD a.default := by
    cases hvalid : validValue node a.key with
    | none => exact nul_notMem_default ha
    | some jvalue => exact nul_notMem_validValue hvalid
  obtain ⟨hsame, hfits⟩ := text_of_strcpy htext h
  refine ⟨hsame, fun v hvalid => ?_⟩
  rw [hvalid] at hfits
  exact hfits

/-! ## What the memory holds -/

/-- An address that fits is the string in its array. -/
theorem string_address {a : Address} (ha : a ∈ addresses)
    (hstatic : member root "staticIp".toList = some node)
    (hfits : ∀ v, validValue node a.key = some v → v.length < 64) :
    (zeroed.runs (written networkSections root)).string a.field
      = (validValue node a.key).getD a.default := by
  obtain ⟨first, rest, hsplit⟩ := List.append_of_mem ha
  rw [string_held hstatic hsplit, held]
  cases hvalid : validValue node a.key with
  | none => rfl
  | some jvalue =>
      simp only [if_pos (hfits jvalue hvalid)]
      rfl

/-- A wired device that fits is the string in its array. -/
theorem string_devWired (hfits : (device root).length < 16) :
    (zeroed.runs (written networkSections root)).string .devWired = device root := by
  have hcopied : (zeroed.runs (written [basicSection] root)).string .devWired = device root :=
    stringAt_device 0
  rw [written_network, runs_append, string_runs_above fun w hw => above_addresses hw, hcopied]
  rw [Record.Terminated, hcopied]
  exact hfits

/-! ## One against the other -/

/-- What the first entry of a table did to what was read. -/
theorem read_cons {Config : Type*} {entry : ReadHandler Config} {tbl : List (ReadHandler Config)}
    {config config' : Config}
    (h : configReadIterate root (entry :: tbl) config = some config') :
    Named root ∧ ∃ middle,
      (∀ node, member root entry.name = some node → entry.handler node config = some middle) ∧
      (member root entry.name = none → middle = config) ∧
      configReadIterate root tbl middle = some config' := by
  by_cases hnamed : Named root
  · rw [configReadIterate, jsonGetObject_of_named hnamed] at h
    refine ⟨hnamed, ?_⟩
    cases hmember : member root entry.name with
    | none =>
        rw [hmember] at h
        exact ⟨config, (fun _ hnode => by cases hnode), fun _ => rfl, h⟩
    | some node =>
        rw [hmember] at h
        cases hread : entry.handler node config with
        | none => simp [hread] at h
        | some middle =>
            refine ⟨middle, fun node' hnode => ?_, (fun hnone => by cases hnone), ?_⟩
            · rw [← Option.some.inj hnode]
              exact hread
            · simpa [hread] using h
  · rw [configReadIterate, jsonGetObject_of_not_named hnamed] at h
    cases h

/-- The structure behind the basic section: its two indices are those of the strings in their
tables, or 0, and the addresses are still those of the zeroed structure. -/
theorem basic_read {middle : PFConfigNetwork} (hroot : root.Written)
    (hread : ∀ node, member root "basic".toList = some node →
      ConfigNetwork.rfNetworkBasic node ConfigNetwork.zeroed = some middle)
    (hnone : member root "basic".toList = none → middle = ConfigNetwork.zeroed) :
    (∀ node, member root "basic".toList = some node → Named node) ∧
      middle.basic.netif = ((setting root "basic".toList "interface".toList).bind
        (lookup basicInterfaceTable)).getD 0 ∧
      middle.basic.type = ((setting root "basic".toList "connection".toList).bind
        (lookup basicTypeTable)).getD 0 ∧
      middle.basic.devWired.text = device root ∧
      middle.staticIp = ConfigNetwork.zeroed.staticIp := by
  rw [device]
  cases hbasic : member root "basic".toList with
  | none =>
      rw [hnone hbasic, setting, setting, hbasic]
      exact ⟨(fun _ hnode => by cases hnode), rfl, rfl, rfl, rfl⟩
  | some node =>
      obtain ⟨hnamed, hnetif, htype, hdev, hstatic⟩ :=
        basic_of_some (written_member hroot hbasic) (hread node hbasic)
      rw [setting_eq hbasic, setting_eq hbasic]
      refine ⟨fun node' hnode => ?_, hnetif, htype, hdev, hstatic⟩
      rw [← Option.some.inj hnode]
      exact hnamed

/-- **The structure in memory.**  When the structure of the network section has been
read from a document, the memory that the document is loaded into shows it. -/
theorem shows_of_read (hroot : root.Written)
    (h : configReadIterate root ConfigNetwork.rtNetwork ConfigNetwork.zeroed = some c) :
    ∃ config, configReadIterate root rtNetwork zeroed = some config ∧ Shows config c := by
  obtain ⟨hnamed, middle, hread, hnone, h⟩ := read_cons h
  obtain ⟨-, last, hreadStatic, hnoneStatic, h⟩ := read_cons h
  rw [configReadIterate, Option.some.injEq] at h
  subst h
  obtain ⟨hbasicNamed, hnetif, htype, hdev, hzero⟩ := basic_read hroot hread hnone
  obtain ⟨hload, hloadType⟩ := @readInt_load root
  have hshort : (device root).length < 16 := by
    rw [← hdev]
    exact middle.basic.devWired.fits
  have hdevice := string_devWired hshort
  cases hstatic : member root "staticIp".toList with
  | none =>
      have hlast : last = middle := hnoneStatic hstatic
      have hreadable : Readable networkSections root := by
        refine ⟨hnamed, fun s hs node hnode => ?_⟩
        rcases List.mem_pair.mp hs with rfl | rfl
        · exact hbasicNamed node hnode
        · rw [show member root staticIpSection.name = none from hstatic] at hnode
          cases hnode
      have hempty : ∀ a ∈ addresses,
          (zeroed.runs (written networkSections root)).string a.field
            = (CString.empty maxAddrLength).text := by
        intro a ha
        have hbehind : ∀ a ∈ addresses, 16 ≤ offset a.field - offset Field.devWired := by decide
        rw [string_overrun ha hstatic]
        exact List.drop_eq_nil_of_le (hshort.le.trans (hbehind a ha))
      subst hlast
      refine ⟨_, read_of_readable describes_network hreadable zeroed,
        ⟨hload.trans hnetif.symm, hloadType.trans htype.symm, hdevice.trans hdev.symm,
          ?_, ?_, ?_, ?_, ?_⟩⟩ <;> rw [hzero]
      · exact hempty ⟨"ipaddr".toList, .ipaddr, netDefaultIp⟩ (.head _)
      · exact hempty ⟨"netmask".toList, .netmask, netDefaultNetmask⟩ (.tail _ (.head _))
      · exact hempty ⟨"gateway".toList, .gateway, netDefaultGateway⟩
          (.tail _ (.tail _ (.head _)))
      · exact hempty ⟨"dns1".toList, .dns1, netDefaultDns1⟩
          (.tail _ (.tail _ (.tail _ (.head _))))
      · exact hempty ⟨"dns2".toList, .dns2, netDefaultDns2⟩
          (.tail _ (.tail _ (.tail _ (.tail _ (.head _)))))
  | some node =>
      obtain ⟨hstaticNamed, hbasic, hipaddr, hnetmask, hgateway, hdns1, hdns2⟩ :=
        staticIp_of_some (written_member hroot hstatic) (hreadStatic node hstatic)
      have hreadable : Readable networkSections root := by
        refine ⟨hnamed, fun s hs node' hnode => ?_⟩
        rcases List.mem_pair.mp hs with rfl | rfl
        · exact hbasicNamed node' hnode
        · rw [← Option.some.inj (hstatic.symm.trans hnode)]
          exact hstaticNamed
      have hheld : ∀ a ∈ addresses, ∀ s,
          CJson.strcpy maxAddrLength ((validValue node a.key).getD a.default) = some s →
          (zeroed.runs (written networkSections root)).string a.field = s.text := by
        intro a ha s hcopy
        obtain ⟨htext, hfits⟩ := address_of_some ha hcopy
        rw [string_address ha hstatic hfits, htext]
      refine ⟨_, read_of_readable describes_network hreadable zeroed,
        ⟨?_, ?_, ?_, ?_, ?_, ?_, ?_, ?_⟩⟩
      · rw [hbasic]
        exact hload.trans hnetif.symm
      · rw [hbasic]
        exact hloadType.trans htype.symm
      · rw [hbasic]
        exact hdevice.trans hdev.symm
      · exact hheld ⟨"ipaddr".toList, .ipaddr, netDefaultIp⟩ (.head _) _ hipaddr
      · exact hheld ⟨"netmask".toList, .netmask, netDefaultNetmask⟩ (.tail _ (.head _)) _
          hnetmask
      · exact hheld ⟨"gateway".toList, .gateway, netDefaultGateway⟩
          (.tail _ (.tail _ (.head _))) _ hgateway
      · exact hheld ⟨"dns1".toList, .dns1, netDefaultDns1⟩
          (.tail _ (.tail _ (.tail _ (.head _)))) _ hdns1
      · exact hheld ⟨"dns2".toList, .dns2, netDefaultDns2⟩
          (.tail _ (.tail _ (.tail _ (.tail _ (.head _))))) _ hdns2

end

end ConfigMemory
