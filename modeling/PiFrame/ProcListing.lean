import PiFrame.ScanText
import PiFrame.VmshmRegistry

/-!
# The listing under /proc

`vmshm_proc_show` prints a line for every shared memory, and `getQueueSize` of
the library looks a size up in these lines with `fscanf`.  The names may have
any bytes, but the scan takes a name for one word: it loses its place at the
first name with white space in it and finds nothing from there on.
-/

namespace ProcListing

open ByteText Vmshm

/-! ## Printing -/

/-- The bytes of a name as they are printed. -/
def nameText (name : Name) : Text := name.bytes.map fun b => Char.ofNat b.toNat

/-- One line: `"%s %d(%d)\n"`. -/
def line (mem : VMSharedMemory) : Text :=
  nameText mem.name ++ ' ' :: (signedDecimal mem.size.toInt ++
    '(' :: (signedDecimal mem.refcnt ++ [')', '\n']))

def vmshmProcShow (entries : List VMSharedMemory) : Text := entries.flatMap line

/-- What may be in `vmshm_list`: names that the two drivers accept, no two of
them the same, with any sizes and reference counts. -/
structure Listing where
  entries : List VMSharedMemory
  named : ∀ e ∈ entries, e.name.bytes ≠ [] ∧ 0 ∉ e.name.bytes
  distinct : (entries.map VMSharedMemory.name).Nodup

/-! ## Looking a size up -/

/-- What follows the second number: `fscanf` has stored all it was asked for,
whether the parenthesis is there or not. -/
def skipLineEnd : Text → Text
  | ')' :: rest => rest.dropWhile isSpace
  | rest => rest

/-- `" %d(%d)\n"`: the size, and what is left of the file. -/
def scanSizes (t : Text) : Option (Int × Text) :=
  match scanInteger t with
  | some (size, '(' :: rest) =>
      match scanInteger rest with
      | some (_, rest) => some (intOf size, skipLineEnd rest)
      | none => none
  | _ => none

theorem scanSizes_shorter {t rest : Text} {size : Int} (h : scanSizes t = some (size, rest)) :
    rest.length ≤ t.length := by
  unfold scanSizes at h
  split at h
  · rename_i first tail hfirst
    split at h
    · rename_i second last hsecond
      cases h
      have hskip : (skipLineEnd last).length ≤ last.length := by
        unfold skipLineEnd
        split
        · rename_i more
          exact ((List.dropWhile_suffix _).length_le).trans (Nat.le_succ _)
        · exact Nat.le_refl _
      have hone := scanInteger_shorter hfirst
      have htwo := scanInteger_shorter hsecond
      rw [List.length_cons] at hone
      omega
    · cases h
  · cases h

/-- The loop of `getQueueSize`.  A word that does not fit into `buf` is written
past its end, and nothing can be said about what happens then. -/
def getQueueSizeFrom (name t : Text) : Option Int :=
  match hword : scanWord t with
  | none => some (-1)
  | some (buf, rest) =>
      if 64 ≤ buf.length then none
      else
        match hsizes : scanSizes rest with
        | none => some (-1)
        | some (size, rest) => if name = buf then some size else getQueueSizeFrom name rest
termination_by t.length
decreasing_by
  have hone := scanWord_shorter hword
  have htwo := scanSizes_shorter hsizes
  omega

def getQueueSize (name file : Text) : Option Int := getQueueSizeFrom name file

/-- The listing tells the size of every entry, and that there is no other. -/
def Recovered (l : Listing) : Prop :=
  (∀ e ∈ l.entries,
    getQueueSize (nameText e.name) (vmshmProcShow l.entries) = some e.size.toInt) ∧
    ∀ name, name ∉ l.entries.map (fun e => nameText e.name) →
      getQueueSize name (vmshmProcShow l.entries) = some (-1)

/-! ## Names without white space -/

theorem nameText_injective : Function.Injective nameText := by
  have hbyte : ∀ b : UInt8, (Char.ofNat b.toNat).toNat = b.toNat := fun b =>
    toNat_ofNat b.toNat_lt
  intro n m h
  have hbytes : n.bytes = m.bytes := by
    refine List.map_injective_iff.mpr (fun a b hab => ?_) h
    have hnat := congrArg Char.toNat hab
    simp only [hbyte] at hnat
    exact UInt8.toNat_inj.mp hnat
  cases n
  cases m
  cases hbytes
  rfl

theorem nameText_short (name : Name) : (nameText name).length < 64 := by
  rw [nameText, List.length_map]
  exact name.short

/-- The numbers of a line, in front of something that is not blank. -/
theorem scanSizes_line (mem : VMSharedMemory) {rest : Text}
    (hrest : ∀ c ∈ rest.head?, isSpace c = false) :
    scanSizes (' ' :: (signedDecimal mem.size.toInt ++
      '(' :: (signedDecimal mem.refcnt ++ [')', '\n'])) ++ rest) = some (mem.size.toInt, rest) := by
  have hsize : scanInteger (' ' :: (signedDecimal mem.size.toInt ++
      '(' :: (signedDecimal mem.refcnt ++ ')' :: '\n' :: rest)))
      = some (mem.size.toInt, '(' :: (signedDecimal mem.refcnt ++ ')' :: '\n' :: rest)) := by
    rw [← List.singleton_append, scanInteger_blanks [' '] _ (by simp [isSpace])]
    exact scanInteger_signedDecimal _ (by rintro c ⟨rfl⟩; decide)
  have hrefcnt : scanInteger (signedDecimal mem.refcnt ++ ')' :: '\n' :: rest)
      = some (mem.refcnt, ')' :: '\n' :: rest) :=
    scanInteger_signedDecimal _ (by rintro c ⟨rfl⟩; decide)
  have hend : skipLineEnd (')' :: '\n' :: rest) = rest := by
    have hnewline : isSpace '\n' = true := by decide
    rw [skipLineEnd, List.dropWhile_cons_of_pos hnewline, dropWhile_nonblank hrest]
  have hfits : intOf mem.size.toInt = mem.size.toInt :=
    intOf_of_fits (BitVec.le_toInt mem.size) BitVec.toInt_lt
  simp only [List.cons_append, List.append_assoc, List.nil_append, scanSizes, hsize, hrefcnt, hend,
    hfits]

/-- One round of the loop, at a line with a name that is one word: the name is compared, and the
size behind it is returned or passed over. -/
theorem getQueueSizeFrom_line {mem : VMSharedMemory} (hsolid : Solid (nameText mem.name))
    (hsome : nameText mem.name ≠ []) {rest : Text} (hrest : ∀ c ∈ rest.head?, isSpace c = false)
    (name : Text) :
    getQueueSizeFrom name (line mem ++ rest)
      = if name = nameText mem.name then some mem.size.toInt else getQueueSizeFrom name rest := by
  have hword : scanWord (line mem ++ rest) = some (nameText mem.name,
      ' ' :: (signedDecimal mem.size.toInt ++ '(' :: (signedDecimal mem.refcnt ++ [')', '\n']))
        ++ rest) := by
    rw [line, List.append_assoc, List.cons_append]
    exact scanWord_append hsolid hsome (by decide)
  have hsizes := scanSizes_line mem hrest
  have hshort := nameText_short mem.name
  rw [getQueueSizeFrom]
  split
  · simp_all
  · rename_i buf tail hread
    rw [hword] at hread
    cases hread
    rw [if_neg (by omega)]
    split
    · simp_all
    · rename_i size tail hread
      rw [hsizes] at hread
      cases hread
      rfl

/-- The listing starts with a name, if with anything. -/
theorem head_show {entries : List VMSharedMemory} (hsolid : ∀ e ∈ entries, Solid (nameText e.name))
    (hsome : ∀ e ∈ entries, nameText e.name ≠ []) :
    ∀ c ∈ (vmshmProcShow entries).head?, isSpace c = false := by
  cases entries with
  | nil => simp [vmshmProcShow]
  | cons e entries =>
      intro c hc
      rw [vmshmProcShow, List.flatMap_cons, line, List.append_assoc,
        List.head?_append_of_ne_nil _ (hsome e (by simp))] at hc
      exact hsolid e (by simp) c (List.mem_of_mem_head? hc)

/-- What the loop finds in a listing whose names are words: the size of the first queue of the
name. -/
theorem getQueueSizeFrom_show (name : Text) {entries : List VMSharedMemory}
    (hsolid : ∀ e ∈ entries, Solid (nameText e.name))
    (hsome : ∀ e ∈ entries, nameText e.name ≠ []) :
    getQueueSizeFrom name (vmshmProcShow entries) =
      some (((entries.find? fun e => nameText e.name = name).map
        fun e => e.size.toInt).getD (-1)) := by
  induction entries with
  | nil =>
      rw [vmshmProcShow, List.flatMap_nil, getQueueSizeFrom]
      rfl
  | cons e entries ih =>
      rw [List.forall_mem_cons] at hsolid hsome
      have hround := getQueueSizeFrom_line hsolid.1 hsome.1 (head_show hsolid.2 hsome.2) name
      rw [vmshmProcShow, List.flatMap_cons]
      rw [vmshmProcShow] at hround
      rw [hround, List.find?_cons]
      by_cases hname : name = nameText e.name
      · simp [hname]
      · have hother : decide (nameText e.name = name) = false := by simp [Ne.symm hname]
        rw [if_neg hname, hother]
        exact ih hsolid.2 hsome.2

/-! ## Names with white space -/

/-- A name with white space is never found: `%s` stops at it, so no word that is read has any. -/
theorem getQueueSizeFrom_blank {name : Text} (hname : ¬Solid name) (t : Text) :
    getQueueSizeFrom name t = none ∨ getQueueSizeFrom name t = some (-1) := by
  induction hlen : t.length using Nat.strongRecOn generalizing t with
  | ind n ih =>
      rw [getQueueSizeFrom]
      split
      · exact Or.inr rfl
      · rename_i buf rest hword
        by_cases hfits : 64 ≤ buf.length
        · rw [if_pos hfits]
          exact Or.inl rfl
        · rw [if_neg hfits]
          split
          · exact Or.inr rfl
          · rename_i size tail hsizes
            have hne : name ≠ buf := by
              rintro rfl
              exact hname (scanWord_solid hword)
            rw [if_neg hne]
            have hone := scanWord_shorter hword
            have htwo := scanSizes_shorter hsizes
            exact ih tail.length (by omega) tail rfl

/-- No size that the driver stores is -1. -/
theorem pageAlign_toInt_ne (size : BitVec 32) : (pageAlign size).toInt ≠ -1 := by
  intro h
  have hall : pageAlign size = BitVec.ofInt 32 (-1) := by
    rw [← h, BitVec.ofInt_toInt]
  have hlow : (pageAlign size).getLsbD 0 = false := by
    simp [pageAlign, kernelPageSize]
  rw [hall] at hlow
  exact absurd hlow (by decide)

/-- The listing can be read back just when no name in it has white space. -/
theorem recovered_iff (l : Listing)
    (hstored : ∀ e ∈ l.entries, ¬Solid (nameText e.name) → ∃ size, e.size = pageAlign size) :
    Recovered l ↔ ∀ e ∈ l.entries, Solid (nameText e.name) := by
  constructor
  · intro h e he
    by_contra hblank
    obtain ⟨size, hsize⟩ := hstored e he hblank
    have hfound := h.1 e he
    have hne := pageAlign_toInt_ne size
    rcases getQueueSizeFrom_blank hblank (vmshmProcShow l.entries) with hnone | hminus
    · rw [getQueueSize, hnone] at hfound
      cases hfound
    · rw [getQueueSize, hminus, Option.some.injEq, hsize] at hfound
      exact hne hfound.symm
  · intro hsolid
    have hsome : ∀ e ∈ l.entries, nameText e.name ≠ [] := fun e he => by
      simpa [nameText] using (l.named e he).1
    refine ⟨fun e he => ?_, fun name hname => ?_⟩
    · rw [getQueueSize, getQueueSizeFrom_show _ hsolid hsome]
      have hself : l.entries.find? (fun e' => nameText e'.name = nameText e.name) = some e := by
        obtain ⟨e', hfind⟩ : ∃ e', l.entries.find? (fun e' => nameText e'.name = nameText e.name)
            = some e' := by
          apply Option.isSome_iff_exists.mp
          rw [List.find?_isSome]
          exact ⟨e, he, by simp⟩
        have hname : e'.name = e.name :=
          nameText_injective (by simpa using List.find?_some hfind)
        rw [hfind, List.inj_on_of_nodup_map l.distinct (List.mem_of_find?_eq_some hfind) he hname]
      rw [hself]
      rfl
    · rw [getQueueSize, getQueueSizeFrom_show _ hsolid hsome]
      have hmissing : l.entries.find? (fun e => nameText e.name = name) = none := by
        rw [List.find?_eq_none]
        intro e he hsame
        exact hname (List.mem_map.mpr ⟨e, he, of_decide_eq_true hsame⟩)
      rw [hmissing]
      rfl

/-- A page under this name. -/
def page (bytes : List UInt8) (short : bytes.length < vmshmMaxNameLength) : VMSharedMemory :=
  newMemory ⟨bytes, short⟩ 4096 0 0

/-- A listing of one page whose name is `q`. -/
def oneWord : Listing := ⟨[page [113] (by decide)], by decide, by decide⟩

/-- A listing of one name without blanks is recovered. -/
theorem recovered_oneWord : Recovered oneWord :=
  (recovered_iff oneWord (by decide)).mpr (by decide)

/-- A listing of one page whose name is `a b`. -/
def twoWords : Listing := ⟨[page [97, 32, 98] (by decide)], by decide, by decide⟩

/-- The size of the page is not found. -/
theorem twoWords_not_recovered : ¬Recovered twoWords := by
  intro h
  have hfound := h.1 (page [97, 32, 98] (by decide)) (by decide)
  rw [getQueueSize, getQueueSizeFrom] at hfound
  exact absurd hfound (by decide)

end ProcListing
