import PiFrame.ConfigSystem
import PiFrame.ConfigViews

/-!
# The system section in memory

`ConfigSystem` has the section as a structure of strings, each in an array of its own.  The
memory that a document is loaded into shows the structure that is read from the same
document.

One handler keeps the memory and the structure together, and so does a table of handlers.
All copies but one stay inside their arrays.  The NUL behind an overlong name does not, but
the name comes first, and everything behind it is still zero.
-/

namespace ConfigMemory

open ByteText Limits RecordMemory
open CJson hiding strcpy strncpy configWriteIterate
open RecordMemory.Layout (size)
open ConfigSystem (PFConfigSystem PFConfigSystemNTP)

/-- The strings of a system section, by member. -/
def sectionText (c : PFConfigSystem) : Field → Option Text
  | .name => some c.name.text
  | .subModel => some c.subModel.text
  | .gmtOff => some c.tz.gmtOff.text
  | .zone => some c.tz.zone.text
  | .id => some c.tz.id.text
  | .tzName => some c.tz.name.text
  | .server i => some (c.ntp.server i).text
  | .pathDefConfig => some c.info.pathDefConfig.text
  | .pathConfig => some c.info.pathConfig.text
  | .baseODD => some c.info.baseODD.text
  | .baseATA => some c.info.baseATA.text
  | .baseUSB => some c.info.baseUSB.text
  | .baseNET => some c.info.baseNET.text
  | .prefixUSB => some c.info.prefixUSB.text
  | .enable | .serverCount => none
  | .netif | .type | .devWired | .ipaddr | .netmask | .gateway | .dns1 | .dns2 => none

/-- The memory holds the members of a system section, and the last byte of each of its
string arrays is a NUL. -/
structure ShowsSystem (config : PFConfig) (c : PFConfigSystem) : Prop where
  sealed : ∀ f, sectionText c f ≠ none → config.Sealed f
  string : ∀ f text, sectionText c f = some text → config.string f = text
  enable : (readInt config .enable : Int) = c.ntp.enable
  serverCount : (readInt config .serverCount : Int) = c.ntp.serverCount

variable {node root item : Node} {key default : Text} {config config' : PFConfig}
  {c c' : PFConfigSystem} {w : Row Field} {f : Field} {text : Text} {installed : Text → Bool}

/-! ## One store -/

/-- A row inside its own field leaves the string of another one alone. -/
theorem string_run_of_fits (hfits : w.Fits) (hne : w.field ≠ f) (hend : config.Terminated f) :
    (config.run w).string f = config.string f := by
  have hkeeps : config.Keeps (config.runs [w]) f := keeps_runs fun v hv i hi => by
    rw [List.mem_singleton.mp hv]
    exact not_reaches_of_fits hfits hne hi
  exact hkeeps.string hend

/-- A row that fits into another field leaves a number alone as well. -/
theorem readInt_run_of_fits (hfits : w.Fits) (hne : w.field ≠ f) (hsize : size f = 4) :
    readInt (config.run w) f = readInt config f := by
  have hkeeps : config.Keeps (config.runs [w]) f := keeps_runs fun v hv i hi => by
    rw [List.mem_singleton.mp hv]
    exact not_reaches_of_fits hfits hne hi
  exact readInt_keeps hsize hkeeps

/-- **One copy.**  A row that fits and seals its field changes one string of the section. -/
theorem ShowsSystem.copy (h : ShowsSystem config c) (hfits : w.Fits) (hseals : w.Seals)
    (hcopied : (config.run w).string w.field = text)
    (hmember : sectionText c w.field ≠ none)
    (hstrings : ∀ f, sectionText c' f = if f = w.field then some text else sectionText c f)
    (henable : c'.ntp.enable = c.ntp.enable)
    (hcount : c'.ntp.serverCount = c.ntp.serverCount) : ShowsSystem (config.run w) c' := by
  have hsame : ∀ f, sectionText c' f ≠ none → sectionText c f ≠ none := by
    intro f hf
    by_cases hfield : f = w.field
    · rw [hfield]
      exact hmember
    · rwa [hstrings f, if_neg hfield] at hf
  have hnumber : ∀ f, sectionText c f = none → w.field ≠ f := by
    rintro _ hf rfl
    exact hmember hf
  constructor
  · exact fun f hf => sealed_run hfits (fun _ => hseals) (size_pos f) (h.sealed f (hsame f hf))
  · intro f text' htext
    by_cases hfield : f = w.field
    · subst hfield
      rw [hstrings, if_pos rfl, Option.some.injEq] at htext
      exact hcopied.trans htext
    · rw [hstrings, if_neg hfield] at htext
      have hsealed := h.sealed f (htext ▸ Option.some_ne_none _)
      rw [string_run_of_fits hfits (Ne.symm hfield) (hsealed.terminated (size_pos f))]
      exact h.string f text' htext
  · rw [readInt_run_of_fits hfits (hnumber .enable rfl) rfl, henable]
    exact h.enable
  · rw [readInt_run_of_fits hfits (hnumber .serverCount rfl) rfl, hcount]
    exact h.serverCount

/-- What `strncpy` leaves in an array whose last byte is a NUL. -/
theorem string_strncpy (hsealed : config.Sealed f) (htext : nul ∉ text) :
    (config.run (strncpy f text (size f - 1))).string f = text.take (size f - 1) := by
  have hpos := size_pos f
  refine stringAt_eq_iff.mpr ⟨fun h => htext (List.mem_of_mem_take h), fun i hi => ?_⟩
  rw [List.length_take] at hi
  rcases Nat.lt_or_ge i (size f - 1) with hlt | hge
  · rw [byteAt_run_strncpy hlt, byteAt_take hlt]
  · have hlast : i = size f - 1 := by omega
    subst hlast
    have hout : ¬ (strncpy f text (size f - 1)).Reaches (offset f + (size f - 1)) := by
      rintro ⟨-, hhigh⟩
      rw [length_strncpy] at hhigh
      exact absurd hhigh (lt_irrefl _)
    rw [byteAt_run_of_not_reaches hout, hsealed, byteAt_of_le (List.length_take_le _ _)]

/-- `strncpy` with room for a NUL: the array holds the text, cut off in front of its last byte. -/
theorem ShowsSystem.strncpy (h : ShowsSystem config c) (c' : PFConfigSystem) (htext : nul ∉ text)
    (hmember : sectionText c f ≠ none)
    (hstrings : ∀ g, sectionText c' g =
      if g = f then some (text.take (size f - 1)) else sectionText c g)
    (henable : c'.ntp.enable = c.ntp.enable)
    (hcount : c'.ntp.serverCount = c.ntp.serverCount) :
    ShowsSystem (config.run (RecordMemory.strncpy f text (size f - 1))) c' :=
  have hpos := size_pos f
  h.copy (strncpy_fits (Nat.sub_le ..)) (strncpy_seals (.inl (by omega)))
    (string_strncpy (h.sealed f hmember) htext) hmember hstrings henable hcount

/-- `strcpy` of a text that is shorter than the array. -/
theorem ShowsSystem.strcpy (h : ShowsSystem config c) (c' : PFConfigSystem) (text : Text)
    (htext : nul ∉ text)
    (hshort : text.length < size f) (hmember : sectionText c f ≠ none)
    (hstrings : ∀ g, sectionText c' g = if g = f then some text else sectionText c g)
    (henable : c'.ntp.enable = c.ntp.enable)
    (hcount : c'.ntp.serverCount = c.ntp.serverCount) :
    ShowsSystem (config.run (RecordMemory.strcpy f text)) c' :=
  h.copy (strcpy_fits_iff.mpr hshort) strcpy_seals (string_strcpy htext) hmember hstrings
    henable hcount

/-- The numbers of the section are assigned: a row of four bytes shows as the member that it is
for, and no string changes. -/
theorem ShowsSystem.assign {n : Nat} (h : ShowsSystem config c) (c' : PFConfigSystem) (hn : n < 256)
    (hsize : size f = 4) (hmember : ∀ c, sectionText c f = none)
    (hstrings : ∀ g, sectionText c' g = sectionText c g)
    (henable : c'.ntp.enable = if f = .enable then (n : Int) else c.ntp.enable)
    (hcount : c'.ntp.serverCount = if f = .serverCount then (n : Int) else c.ntp.serverCount) :
    ShowsSystem (config.run (ConfigMemory.assign f n)) c' := by
  have hfits : (ConfigMemory.assign f n).Fits := assign_fits hsize
  have hother : ∀ g, sectionText c g ≠ none → f ≠ g := by
    rintro _ hg rfl
    exact hg (hmember c)
  constructor
  · intro g hg
    rw [hstrings] at hg
    exact sealed_run hfits (fun heq => absurd heq (hother g hg)) (size_pos g) (h.sealed g hg)
  · intro g text htext
    rw [hstrings] at htext
    have hg : sectionText c g ≠ none := htext ▸ Option.some_ne_none _
    rw [string_run_of_fits hfits (hother g hg) ((h.sealed g hg).terminated (size_pos g))]
    exact h.string g text htext
  · rw [henable]
    by_cases hf : f = .enable
    · subst hf
      rw [readInt_assign hn, if_pos rfl]
    · rw [readInt_run_of_fits hfits hf rfl, if_neg hf]
      exact h.enable
  · rw [hcount]
    by_cases hf : f = .serverCount
    · subst hf
      rw [readInt_assign hn, if_pos rfl]
    · rw [readInt_run_of_fits hfits hf rfl, if_neg hf]
      exact h.serverCount

/-- Only the bytes matter: a memory with the same bytes shows the same structure. -/
theorem ShowsSystem.congr (h : ShowsSystem config c)
    (hbytes : ∀ a, byteAt config'.bytes a = byteAt config.bytes a) : ShowsSystem config' c := by
  have hkeeps : ∀ f, config.Keeps config' f := fun _ _ _ => hbytes _
  constructor
  · intro f hf
    rw [Record.Sealed, hbytes]
    exact h.sealed f hf
  · intro f text htext
    have hsealed := h.sealed f (htext ▸ Option.some_ne_none _)
    rw [(hkeeps f).string (hsealed.terminated (size_pos f))]
    exact h.string f text htext
  · rw [readInt_keeps rfl (hkeeps .enable)]
    exact h.enable
  · rw [readInt_keeps rfl (hkeeps .serverCount)]
    exact h.serverCount

/-! ## The handlers -/

/-- A NUL that is stored where there is one changes nothing. -/
theorem byteAt_run_terminate_nul {i : Nat} (h : byteAt config.bytes (offset f + i) = nul)
    (a : Nat) : byteAt (config.run (terminate f i)).bytes a = byteAt config.bytes a := by
  by_cases hreach : (terminate f i).Reaches a
  · have hplace : a = offset f + i := by
      obtain ⟨hlow, hhigh⟩ := hreach
      exact le_antisymm (Nat.lt_succ_iff.mp hhigh) hlow
    rw [hplace, byteAt_run_terminate, h]
  · exact byteAt_run_of_not_reaches hreach

/-- All is zero before the first handler. -/
theorem showsSystem_zeroed : ShowsSystem zeroed ConfigSystem.zeroed := by
  have hzero : ∀ a, byteAt zeroed.bytes a = nul := fun a => rfl
  constructor
  · exact fun f _ => hzero _
  · intro f text htext
    have hempty : text = [] := by
      cases f <;> first | cases htext; rfl | cases htext
    rw [hempty]
    exact stringAt_of_nul (hzero _)
  · rfl
  · rfl

/-- The name, which is copied to a zeroed configuration. -/
theorem ShowsSystem.name (item : Node)
    (h : ConfigSystem.rfSystemName item ConfigSystem.zeroed = some c') :
    ∃ config', rfSystemName item zeroed = some config' ∧ ShowsSystem config' c' := by
  rw [ConfigSystem.rfSystemName, Option.some.injEq] at h
  subst h
  refine ⟨_, rfl, ?_⟩
  have hcopied := showsSystem_zeroed.strncpy (f := .name)
    { ConfigSystem.zeroed with name := CJson.strncpy 64 (jsonGetValue item) }
    (nul_notMem_stringOf item) (Option.some_ne_none _) (fun g => by cases g <;> rfl) rfl rfl
  refine hcopied.congr fun a => byteAt_run_terminate_nul ?_ a
  rcases Nat.lt_or_ge (stringOf item).length (size Field.name - 1) with hlt | hge
  · rw [byteAt_run_strncpy hlt, byteAt_of_le le_rfl]
  · have hout : ¬ (RecordMemory.strncpy Field.name (stringOf item) (size Field.name - 1)).Reaches
        (offset Field.name + (stringOf item).length) := by
      rintro ⟨-, hhigh⟩
      rw [length_strncpy] at hhigh
      exact absurd (Nat.add_lt_add_iff_left.mp hhigh) (not_lt.mpr hge)
    exact byteAt_run_of_not_reaches hout

/-- The handler of the sub-model does to the memory what it does to the structure. -/
theorem ShowsSystem.subModel (h : ShowsSystem config c)
    (hread : ConfigSystem.rfSystemSubModel item c = some c') :
    ∃ config', rfSystemSubModel item config = some config' ∧ ShowsSystem config' c' := by
  rw [ConfigSystem.rfSystemSubModel, Option.some.injEq] at hread
  subst hread
  exact ⟨_, rfl, h.strncpy _ (nul_notMem_stringOf item) (Option.some_ne_none _)
    (fun g => by cases g <;> rfl) rfl rfl⟩

/-- One value of the time zone, or its default. -/
theorem ShowsSystem.timezoneValue {n : Nat} [NeZero n] {s : CString n} (h : ShowsSystem config c)
    (c' : PFConfigSystem) (hread : ConfigSystem.timezoneValue n node key default = some s)
    (hsize : size f = n)
    (hdefault : NulFree default) (hfits : default.length < n) (hmember : sectionText c f ≠ none)
    (hstrings : ∀ g, sectionText c' g = if g = f then some s.text else sectionText c g)
    (henable : c'.ntp.enable = c.ntp.enable)
    (hcount : c'.ntp.serverCount = c.ntp.serverCount) :
    ∃ config', timezoneValue node key f default config = some config' ∧
      ShowsSystem config' c' := by
  subst hsize
  obtain ⟨jvalue, hvalue, rfl⟩ := Option.map_eq_some_iff.mp hread
  have hend : (CJson.strncpy (size f) (jvalue.getD default)).text.length < size f :=
    (CJson.strncpy (size f) (jvalue.getD default)).fits
  have hnul : nul ∉ (CJson.strncpy (size f) (jvalue.getD default)).text :=
    fun hmem => (CJson.strncpy (size f) (jvalue.getD default)).nulFree _ hmem rfl
  have hcopied := h.strcpy c' _ hnul hend hmember hstrings henable hcount
  refine ⟨_, by rw [ConfigMemory.timezoneValue, siblingString, hvalue]; rfl, ?_⟩
  cases jvalue with
  | some jvalue => exact hcopied
  | none =>
      have hwhole : (CJson.strncpy (size f) default).text = default := by
        show (cString default).take (size f - 1) = default
        rw [cString_of_nulFree hdefault, List.take_of_length_le (by omega)]
      rw [Option.getD_none, hwhole] at hcopied
      exact hcopied

/-- The default zone. -/
theorem ShowsSystem.defaultTimezone (h : ShowsSystem config c) :
    ShowsSystem (config.runs [RecordMemory.strcpy .gmtOff "9:00".toList,
        RecordMemory.strcpy .zone "KST".toList, RecordMemory.strcpy .id "Asia/Seoul".toList,
        RecordMemory.strcpy .tzName "Seoul".toList])
      { c with tz := ConfigSystem.defaultTimezone } := by
  have hgmtOff := h.strcpy (f := .gmtOff)
    { c with tz := { c.tz with gmtOff := ConfigSystem.defaultTimezone.gmtOff } } "9:00".toList
    (by decide) (by decide) (Option.some_ne_none _) (fun g => by cases g <;> rfl) rfl rfl
  have hzone := hgmtOff.strcpy (f := .zone)
    { c with tz := { ConfigSystem.defaultTimezone with id := c.tz.id, name := c.tz.name } }
    "KST".toList (by decide) (by decide) (Option.some_ne_none _) (fun g => by cases g <;> rfl)
    rfl rfl
  have hid := hzone.strcpy (f := .id)
    { c with tz := { ConfigSystem.defaultTimezone with name := c.tz.name } } "Asia/Seoul".toList
    (by decide) (by decide) (Option.some_ne_none _) (fun g => by cases g <;> rfl) rfl rfl
  exact hid.strcpy (f := .tzName) _ "Seoul".toList (by decide) (by decide)
    (Option.some_ne_none _) (fun g => by cases g <;> rfl) rfl rfl

/-- The handler of the time zone asks for the identifier it has just stored, and reads the same in
both models. -/
theorem ShowsSystem.timezone (h : ShowsSystem config c)
    (hread : ConfigSystem.rfSystemTimezone installed item c = some c') :
    ∃ config', rfSystemTimezone installed item config = some config' ∧ ShowsSystem config' c' := by
  simp only [ConfigSystem.rfSystemTimezone, Option.bind_eq_bind, Option.bind_eq_some_iff,
    Option.some.injEq] at hread
  obtain ⟨gmtOff, hgmtOff, zone, hzone, id, hid, name, hname, rfl⟩ := hread
  obtain ⟨config₁, hread₁, h₁⟩ := h.timezoneValue (f := .gmtOff)
    { c with tz := { c.tz with gmtOff } } hgmtOff rfl (by decide) (by decide)
    (Option.some_ne_none _) (fun g => by cases g <;> rfl) rfl rfl
  obtain ⟨config₂, hread₂, h₂⟩ := h₁.timezoneValue (f := .zone)
    { c with tz := { c.tz with gmtOff, zone } } hzone rfl (by decide) (by decide)
    (Option.some_ne_none _) (fun g => by cases g <;> rfl) rfl rfl
  obtain ⟨config₃, hread₃, h₃⟩ := h₂.timezoneValue (f := .id)
    { c with tz := { c.tz with gmtOff, zone, id } } hid rfl (by decide) (by decide)
    (Option.some_ne_none _) (fun g => by cases g <;> rfl) rfl rfl
  obtain ⟨config₄, hread₄, h₄⟩ := h₃.timezoneValue (f := .tzName)
    { c with tz := ⟨gmtOff, zone, id, name⟩ } hname rfl (by decide) (by decide)
    (Option.some_ne_none _) (fun g => by cases g <;> rfl) rfl rfl
  have hstring : config₄.string .id = id.text := h₄.string .id id.text rfl
  simp only [rfSystemTimezone, hread₁, hread₂, hread₃, hread₄, Option.bind_eq_bind,
    Option.bind_some, hstring]
  by_cases hinstalled : installed id.text = true
  · rw [if_pos hinstalled, if_pos hinstalled]
    exact ⟨_, rfl, h₄⟩
  · rw [if_neg hinstalled, if_neg hinstalled]
    exact ⟨_, rfl, h₄.defaultTimezone⟩

/-- The first passes of the loop over the servers. -/
theorem ShowsSystem.servers (h : ShowsSystem config c) (items : List Node) (n : Nat) :
    ShowsSystem (readServers items n config)
      { c with ntp := ConfigSystem.readServers items n c.ntp } := by
  induction n with
  | zero => exact h
  | succ n ih =>
      rw [readServers, ConfigSystem.readServers]
      cases items[n]? with
      | none => exact ih
      | some item =>
          by_cases hn : n < maxNtpServerCount
          · simp only [dif_pos hn, runs_cons, runs_nil]
            have hcopied := ih.strncpy (f := .server ⟨n, hn⟩)
              { c with ntp := { ConfigSystem.readServers items n c.ntp with
                server := Function.update (ConfigSystem.readServers items n c.ntp).server ⟨n, hn⟩
                  (CJson.strncpy 64 (jsonGetValue item)) } }
              (nul_notMem_stringOf item) (Option.some_ne_none _) (fun g => ?_) rfl rfl
            · refine hcopied.assign _ ?_ rfl (fun _ => rfl) (fun g => by cases g <;> rfl) rfl rfl
              exact lt_of_le_of_lt hn (by decide)
            · cases g with
              | server i =>
                  by_cases hi : i = ⟨n, hn⟩
                  · subst hi
                    simp only [sectionText, Function.update_self, if_pos]
                    rfl
                  · simp only [sectionText, Function.update_of_ne hi,
                      if_neg fun heq => hi (Field.server.inj heq)]
              | _ => rfl
          · simp only [dif_neg hn]
            exact ih

/-- The handler of the time servers: what it does to the memory shows what the handler of the
structure does. -/
theorem ShowsSystem.ntp (h : ShowsSystem config c) (hitem : item.Written)
    (hread : ConfigSystem.rfSystemNtp item c = some c') :
    ∃ config', rfSystemNtp item config = some config' ∧ ShowsSystem config' c' := by
  simp only [ConfigSystem.rfSystemNtp, Option.bind_eq_bind, Option.bind_eq_some_iff,
    Option.some.injEq] at hread
  obtain ⟨jvalue, hvalue, found, hfound, list, hlist, rfl⟩ := hread
  have hnamed : Named item := by
    by_contra hnamed
    rw [jsonGetValueSibling, jsonGetObject_of_not_named hnamed] at hvalue
    cases hvalue
  rw [jsonGetValueSibling_eq hitem hnamed, Option.some.injEq] at hvalue
  simp only [rfSystemNtp, siblingString_of_named hnamed, hvalue, hfound, hlist,
    Option.bind_eq_bind, Option.bind_some]
  refine ⟨_, rfl, ?_⟩
  cases jvalue with
  | none => exact h.servers list.entries maxNtpServerCount
  | some jvalue =>
      have henabled := h.assign (f := .enable) (n := if jvalue = "true".toList then 1 else 0)
        { c with ntp := { c.ntp with enable := if jvalue = "true".toList then 1 else 0 } }
        (by split <;> decide) rfl (fun _ => rfl) (fun g => by cases g <;> rfl)
        (by rw [if_pos rfl]; split <;> rfl) rfl
      exact henabled.servers list.entries maxNtpServerCount

/-- One value of the information section; without one the array stays as it is. -/
theorem ShowsSystem.configString {n : Nat} [NeZero n] {buf s : CString n} (h : ShowsSystem config c)
    (c' : PFConfigSystem) (hread : CJson.jsonSetConfigStringValue node key buf = some s)
    (hsize : size f = n)
    (hbuf : sectionText c f = some buf.text)
    (hstrings : ∀ g, sectionText c' g = if g = f then some s.text else sectionText c g)
    (henable : c'.ntp.enable = c.ntp.enable)
    (hcount : c'.ntp.serverCount = c.ntp.serverCount) :
    ∃ config', jsonSetConfigStringValue node key f config = some config' ∧
      ShowsSystem config' c' := by
  subst hsize
  have hmember : sectionText c f ≠ none := hbuf ▸ Option.some_ne_none _
  obtain ⟨jvalue, hvalue, rfl⟩ := Option.map_eq_some_iff.mp hread
  refine ⟨_, by rw [jsonSetConfigStringValue, siblingString, hvalue]; rfl, ?_⟩
  cases jvalue with
  | some jvalue =>
      exact h.strncpy c' (fun hmem => nulFree_cString jvalue _ hmem rfl) hmember hstrings henable
        hcount
  | none =>
      have hsame : ∀ g, sectionText c' g = sectionText c g := by
        intro g
        rw [hstrings]
        by_cases hg : g = f
        · rw [if_pos hg, hg, hbuf]
        · rw [if_neg hg]
      exact ⟨fun g hg => h.sealed g (hsame g ▸ hg), fun g text hg => h.string g text (hsame g ▸ hg),
        henable ▸ h.enable, hcount ▸ h.serverCount⟩

/-- The handler of the information section, key by key. -/
theorem ShowsSystem.info (h : ShowsSystem config c)
    (hread : ConfigSystem.rfSystemInfo item c = some c') :
    ∃ config', rfSystemInfo item config = some config' ∧ ShowsSystem config' c' := by
  simp only [ConfigSystem.rfSystemInfo, Option.bind_eq_bind, Option.bind_eq_some_iff,
    Option.some.injEq] at hread
  obtain ⟨pathDefConfig, h₁, pathConfig, h₂, baseODD, h₃, baseATA, h₄, baseUSB, h₅, baseNET, h₆,
    prefixUSB, h₇, rfl⟩ := hread
  obtain ⟨config₁, read₁, s₁⟩ := h.configString (f := .pathDefConfig)
    { c with info := { c.info with pathDefConfig } }
    h₁ rfl rfl (fun g => by cases g <;> rfl) rfl rfl
  obtain ⟨config₂, read₂, s₂⟩ := s₁.configString (f := .pathConfig)
    { c with info := { c.info with pathDefConfig, pathConfig } }
    h₂ rfl rfl (fun g => by cases g <;> rfl) rfl rfl
  obtain ⟨config₃, read₃, s₃⟩ := s₂.configString (f := .baseODD)
    { c with info := { c.info with pathDefConfig, pathConfig, baseODD } }
    h₃ rfl rfl (fun g => by cases g <;> rfl) rfl rfl
  obtain ⟨config₄, read₄, s₄⟩ := s₃.configString (f := .baseATA)
    { c with info := { c.info with pathDefConfig, pathConfig, baseODD, baseATA } }
    h₄ rfl rfl (fun g => by cases g <;> rfl) rfl rfl
  obtain ⟨config₅, read₅, s₅⟩ := s₄.configString (f := .baseUSB)
    { c with info := { c.info with pathDefConfig, pathConfig, baseODD, baseATA, baseUSB } }
    h₅ rfl rfl (fun g => by cases g <;> rfl) rfl rfl
  obtain ⟨config₆, read₆, s₆⟩ := s₅.configString (f := .baseNET)
    { c with
      info := { c.info with pathDefConfig, pathConfig, baseODD, baseATA, baseUSB, baseNET } }
    h₆ rfl rfl (fun g => by cases g <;> rfl) rfl rfl
  obtain ⟨config₇, read₇, s₇⟩ := s₆.configString (f := .prefixUSB)
    { c with info := ⟨pathDefConfig, pathConfig, baseODD, baseATA, baseUSB, baseNET, prefixUSB⟩ }
    h₇ rfl rfl (fun g => by cases g <;> rfl) rfl rfl
  refine ⟨config₇, ?_, s₇⟩
  simp only [rfSystemInfo, read₁, read₂, read₃, read₄, read₅, read₆, Option.bind_eq_bind,
    Option.bind_some]
  exact read₇

/-! ## The table -/

/-- The entries of two tables are about the same member, and one handler does in memory what
the other does to the structure. -/
structure Simulates (memory : ReadHandler PFConfig) (structured : ReadHandler PFConfigSystem) :
    Prop where
  name : memory.name = structured.name
  read : ∀ {node config c c'}, node.Written → ShowsSystem config c →
    structured.handler node c = some c' →
    ∃ config', memory.handler node config = some config' ∧ ShowsSystem config' c'

/-- **A table of handlers** keeps the memory and the structure together. -/
theorem read_simulates {tbl : List (ReadHandler PFConfig)}
    {tbl' : List (ReadHandler PFConfigSystem)}
    (htables : List.Forall₂ Simulates tbl tbl') (hroot : root.Written) (h : ShowsSystem config c)
    (hread : configReadIterate root tbl' c = some c') :
    ∃ config', configReadIterate root tbl config = some config' ∧ ShowsSystem config' c' := by
  induction htables generalizing config c with
  | nil =>
      cases hread
      exact ⟨config, rfl, h⟩
  | @cons entry entry' tbl tbl' hentry _ ih =>
      obtain ⟨hnamed, middle, hpresent, habsent, hread⟩ := read_cons hread
      rw [configReadIterate, jsonGetObject_of_named hnamed, hentry.name]
      cases hmember : member root entry'.name with
      | none =>
          rw [habsent hmember] at hread
          exact ih h hread
      | some node =>
          obtain ⟨config₁, hhandler, h₁⟩ :=
            hentry.read (written_member hroot hmember) h (hpresent node hmember)
          simp only [hhandler]
          exact ih h₁ hread

/-- The handlers behind the one of the name. -/
theorem simulates_system (installed : Text → Bool) :
    List.Forall₂ Simulates (rtSystem installed).tail (ConfigSystem.rtSystem installed).tail :=
  .cons ⟨rfl, fun _ h hread => h.subModel hread⟩ <|
    .cons ⟨rfl, fun _ h hread => h.timezone hread⟩ <|
      .cons ⟨rfl, fun hnode h hread => h.ntp hnode hread⟩ <|
        .cons ⟨rfl, fun _ h hread => h.info hread⟩ .nil

/-- **The structure in memory.**  When the structure of the system section has been read from
a document, the memory that the document is loaded into shows it. -/
theorem showsSystem_of_read (hroot : root.Written)
    (hread :
      configReadIterate root (ConfigSystem.rtSystem installed) ConfigSystem.zeroed = some c) :
    ∃ config, configReadIterate root (rtSystem installed) zeroed = some config ∧
      ShowsSystem config c := by
  obtain ⟨hnamed, middle, hpresent, habsent, hread⟩ := read_cons hread
  rw [rtSystem, configReadIterate, jsonGetObject_of_named hnamed]
  cases hmember : member root "name".toList with
  | none =>
      rw [habsent hmember] at hread
      exact read_simulates (simulates_system installed) hroot showsSystem_zeroed hread
  | some node =>
      obtain ⟨config, hhandler, hshows⟩ := ShowsSystem.name node (hpresent node hmember)
      simp only [hhandler]
      exact read_simulates (simulates_system installed) hroot hshows hread

end ConfigMemory
