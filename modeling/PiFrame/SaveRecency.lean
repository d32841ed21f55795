import PiFrame.PingPongSafety

/-!
# Which save a restart finds

The script compares whole seconds and takes `.0` when they are equal, and it
cannot read the time of a file whose document shows it another `LastTime:` line
with something in its second field.  `selects_latest_iff` says exactly when the
file of the last completed save is the one it selects.
-/

namespace ConfigFiles

open ByteText CJson Transition

/-! ## Reading the time behind any document -/

/-- The script can read the time behind this document: whatever the document
shows it on lines of its own is blank. -/
def Document.Timed (d : Document) : Prop :=
  ∀ line ∈ grepLastTime d.text, ∀ c ∈ secondField line, isSpace c = true

instance (d : Document) : Decidable d.Timed :=
  inferInstanceAs (Decidable (∀ line ∈ grepLastTime d.text, ∀ c ∈ secondField line, isSpace c = true))

/-- Joining lines puts the separator behind each but the last. -/
theorem intercalate_snoc (sep : Char) (front : List Text) (last : Text) :
    List.intercalate [sep] (front ++ [last]) = front.flatMap (· ++ [sep]) ++ last := by
  induction front with
  | nil => simp
  | cons first rest ih =>
      cases rest with
      | nil => simp [List.intercalate, List.intersperse]
      | cons second others =>
          have hcat : List.intercalate [sep] (first :: (second :: others ++ [last]))
              = first ++ ([sep] ++ List.intercalate [sep] (second :: others ++ [last])) := by
            simp [List.intercalate, List.intersperse]
          rw [List.cons_append, hcat, ih]
          simp

/-- What the script makes of a saved file, whatever the document is. -/
theorem lastTime_save (d : Document) (now : Clock) :
    lastTime (some (d.save now))
      = ((grepLastTime d.text).map secondField).flatMap (· ++ ['\n']) ++ decimal now.sec := by
  have hdigits : ∀ c ∈ decimal now.sec, c.isDigit := fun c hc => isDigit_of_mem_decimal hc
  have hfound : substitution (((grepLastTime d.text).map secondField) ++ [decimal now.sec])
      = ((grepLastTime d.text).map secondField).flatMap (· ++ ['\n']) ++ decimal now.sec := by
    unfold substitution
    rw [intercalate_snoc]
    apply List.rdropWhile_eq_self_iff.mpr
    intro hne heq
    rw [List.getLast_append_of_ne_nil hne (decimal_ne_nil _)] at heq
    have hmem := List.getLast_mem (decimal_ne_nil now.sec)
    rw [beq_iff_eq.mp heq] at hmem
    exact newline_not_mem_digits hdigits hmem
  rw [Document.save_eq]
  simp only [lastTime, grepLastTime_append d.text hdigits, List.map_append, List.map_cons,
    List.map_nil, secondField_lastTime hdigits]
  rw [if_neg, hfound]
  rw [hfound]
  simp [decimal_ne_nil]

/-- A byte behind one that is not dropped is not dropped. -/
theorem mem_dropWhile_of_after {p : Char → Bool} {front back : Text} {c x : Char}
    (hc : p c = false) (hx : x ∈ back) : x ∈ (front ++ c :: back).dropWhile p := by
  induction front with
  | nil => simp [hc, hx]
  | cons y rest ih =>
      rw [List.cons_append, List.dropWhile_cons]
      split
      · exact ih
      · simp [hx]

/-- Reading digits does not read past a line break. -/
theorem newline_mem_of_scanDigits {t rest : Text} {n : Nat} (h : scanDigits t = some (n, rest))
    (hmem : '\n' ∈ t) : '\n' ∈ rest := by
  simp only [scanDigits] at h
  split at h
  · contradiction
  · obtain ⟨-, rfl⟩ := Prod.mk.inj (Option.some.inj h)
    rw [← List.takeWhile_append_dropWhile (p := Char.isDigit) (l := t), List.mem_append] at hmem
    rcases hmem with hdigit | hrest
    · exact absurd (List.mem_takeWhile_imp hdigit) (by decide)
    · exact hrest

/-- Reading a number does not read past a line break. -/
theorem newline_mem_of_map {t rest : Text} {f : Nat → Int} {n : Int}
    (h : ((scanDigits t).map fun r => (f r.1, r.2)) = some (n, rest)) (hmem : '\n' ∈ t) :
    '\n' ∈ rest := by
  obtain ⟨m, hm, hres⟩ := Option.map_eq_some_iff.mp h
  obtain ⟨-, rfl⟩ := Prod.mk.inj hres
  exact newline_mem_of_scanDigits hm hmem

/-- A newline behind the first visible byte makes the operand an error, so that two lines with a
time are no number. -/
theorem shellInteger_newline {t : Text} (h : '\n' ∈ t.dropWhile isSpace) :
    shellInteger t = none := by
  have hscan : ∀ n rest, scanInteger t = some (n, rest) → '\n' ∈ rest := by
    intro n rest hs
    unfold scanInteger at hs
    split at hs
    · rename_i r heq
      rw [heq] at h
      exact newline_mem_of_map (f := fun k => -(k : Int)) hs (by simpa using h)
    · rename_i r heq
      rw [heq] at h
      exact newline_mem_of_map (f := fun k => (k : Int)) hs (by simpa using h)
    · exact newline_mem_of_map (f := fun k => (k : Int)) hs h
  unfold shellInteger
  split
  · rename_i n rest hs
    rw [if_neg]
    rintro ⟨hnil, -⟩
    have hblank := List.dropWhile_eq_nil_iff.mp hnil _ (hscan n rest hs)
    exact absurd hblank (by decide)
  · rfl

/-- Behind a document that shows it no time, the script reads the second of the save. -/
theorem stamp_save_timed {d : Document} (hd : d.Timed) (now : Clock) :
    stamp (some (d.save now)) = some (now.sec : Int) := by
  have hdigits : ∀ c ∈ decimal now.sec, c.isDigit := fun c hc => isDigit_of_mem_decimal hc
  have hfront : ∀ c ∈ ((grepLastTime d.text).map secondField).flatMap (· ++ ['\n']),
      isSpace c = true := by
    intro c hc
    obtain ⟨field, hfield, hmem⟩ := List.mem_flatMap.mp hc
    obtain ⟨line, hline, rfl⟩ := List.mem_map.mp hfield
    rcases List.mem_append.mp hmem with hin | hnl
    · exact hd line hline c hin
    · rw [List.mem_singleton.mp hnl]
      decide
  have hplain := shellInteger_digits hdigits (decimal_ne_nil _)
    (by rw [decimalValue_decimal]; exact now.bounded)
  rw [decimalValue_decimal] at hplain
  rw [stamp, lastTime_save, shellInteger, scanInteger_blanks _ _ hfront]
  exact hplain

/-- Behind any other document the script reads no number. -/
theorem stamp_save_untimed {d : Document} (hd : ¬ d.Timed) (now : Clock) :
    stamp (some (d.save now)) = none := by
  unfold Document.Timed at hd
  push Not at hd
  obtain ⟨line, hline, c, hc, hspace⟩ := hd
  rw [stamp, lastTime_save]
  apply shellInteger_newline
  obtain ⟨fields, others, hsplit⟩ :=
    List.append_of_mem (List.mem_map_of_mem (f := secondField) hline)
  obtain ⟨before, after, hfield⟩ := List.append_of_mem hc
  have htext : ((grepLastTime d.text).map secondField).flatMap (· ++ ['\n']) ++ decimal now.sec
      = (fields.flatMap (· ++ ['\n']) ++ before)
        ++ c :: (after ++ ('\n' :: (others.flatMap (· ++ ['\n']) ++ decimal now.sec))) := by
    rw [hsplit, hfield]
    simp
  rw [htext]
  exact mem_dropWhile_of_after (by simpa using hspace) (by simp)

/-- A save is never taken for a file that was never saved. -/
theorem stamp_save_ne_zero (d : Document) (now : Clock) : stamp (some (d.save now)) ≠ some 0 := by
  by_cases hd : d.Timed
  · rw [stamp_save_timed hd]
    have hpos := now.positive
    simp only [ne_eq, Option.some.injEq]
    omega
  · rw [stamp_save_untimed hd]
    nofun

/-! ## Slots that hold completed saves -/

/-- Both suffixed files of a class are missing or hold completed saves. -/
def SlotsWhole (k : ConfigClass) (files : Files) : Prop :=
  ∀ i, files (slotPath (dbPath k) i) = none ∨
    ∃ (d : Document) (now : Clock), files (slotPath (dbPath k) i) = some (d.save now)

/-- The same, with the saves in the history. -/
def SlotsSaved (k : ConfigClass) (tr : List Event) (files : Files) : Prop :=
  ∀ i, files (slotPath (dbPath k) i) = none ∨
    ∃ d now, files (slotPath (dbPath k) i) = some (d.save now) ∧ Event.save k d now ∈ tr

/-- A slot that is chosen does not count as never saved. -/
theorem choose_some {a b : Option Int} {i : Bool} (h : choose a b = some i) :
    (if i then b else a) ≠ some 0 := by
  intro hzero
  unfold choose at h
  cases i with
  | false =>
      rw [if_neg (by decide)] at hzero
      subst hzero
      rcases b with _ | b
      · simp [test] at h
      · by_cases hb : b = 0 <;> simp [test, hb] at h
  | true =>
      rw [if_pos rfl] at hzero
      subst hzero
      rcases a with _ | a
      · simp [test] at h
      · by_cases ha : a = 0 <;> simp [test, ha] at h

theorem SlotsSaved.whole {k : ConfigClass} {tr : List Event} {files : Files}
    (h : SlotsSaved k tr files) : SlotsWhole k files := by
  intro i
  rcases h i with hnone | ⟨d, now, hfile, -⟩
  · exact Or.inl hnone
  · exact Or.inr ⟨d, now, hfile⟩

theorem SlotsWhole.loadable {k : ConfigClass} {files : Files}
    (h : SlotsWhole k files) : Loadable k files := by
  intro i hi
  have hstamp := choose_some hi
  rcases h i with hnone | ⟨d, now, hfile⟩
  · exfalso
    apply hstamp
    cases i <;> simp [hnone, stamp_none]
  · refine ⟨⟨d, now, (d.save now).length⟩, ?_, ?_⟩
    · simp [SavedPart.text, hfile]
    · simp only [SavedPart.Complete, Document.save_eq, List.length_append]
      omega

/-- A step that leaves the slots alone leaves them holding saves. -/
theorem SlotsSaved.mono {k : ConfigClass} {tr : List Event} {files files' : Files}
    (h : SlotsSaved k tr files) {e : Event}
    (hframe : ∀ i, files' (slotPath (dbPath k) i) = files (slotPath (dbPath k) i)) :
    SlotsSaved k (tr ++ [e]) files' := by
  intro i
  rw [hframe]
  rcases h i with hnone | ⟨d, now, hfile, hmem⟩
  · exact Or.inl hnone
  · exact Or.inr ⟨d, now, hfile, by simp [hmem]⟩

/-- The event is a completed save or a restart. -/
def Event.Completes : Event → Prop
  | .cut .. => False
  | _ => True

section Runs

variable {shipped : ConfigClass → Option Text} {k : ConfigClass} {tr : List Event}
  {st st' : Store}

/-- A restart changes no suffixed file. -/
theorem restart_frame {files : Files} {loaded : Option (ConfigClass → Loaded)}
    (hall : ∀ k, SlotsSaved k tr st.files) (hinit : dbInit shipped st.files = (files, loaded))
    (i : Bool) : files (slotPath (dbPath k) i) = st.files (slotPath (dbPath k) i) :=
  (dbInit_spec (fun k => (hall k).whole.loadable) hinit).1 k i

/-- **Step rule.** -/
theorem SlotsSaved.step (hall : ∀ k, SlotsSaved k tr st.files) {e : Event} (he : e.Completes)
    (hstep : Step shipped st e st') : SlotsSaved k (tr ++ [e]) st'.files := by
  cases hstep with
  | @save count k' d now hup =>
      by_cases hk : k = k'
      · subst hk
        intro i
        by_cases hi : i = slotOf (count k)
        · right
          exact ⟨d, now, hi ▸ st.save_self k d now count, by simp⟩
        · simp only [st.save_spare k d now count .whole hi]
          rcases hall k i with hnone | ⟨d', now', hfile, hmem⟩
          · exact Or.inl hnone
          · exact Or.inr ⟨d', now', hfile, by simp [hmem]⟩
      · exact (hall k).mono (st.save_other hk d now count .whole)
  | cut k' d now n hup => exact absurd he id
  | restart hinit => exact (hall k).mono (restart_frame hall hinit)

/-- **Run rule.** -/
theorem SlotsSaved.run {start : Files} (hfresh : ∀ k i, start (slotPath (dbPath k) i) = none)
    (hrun : Run (Step shipped) ⟨start, none⟩ tr st) (hwhole : ∀ e ∈ tr, e.Completes) :
    SlotsSaved k tr st.files := by
  suffices hall : ∀ k, SlotsSaved k tr st.files from hall k
  revert hwhole
  refine hrun.history
    (fun tr st => (∀ e ∈ tr, e.Completes) → ∀ k, SlotsSaved k tr st.files) ?_ ?_
  · exact fun _ k i => Or.inl (hfresh k i)
  · intro tr st e st' _ ih hstep hwhole k
    exact SlotsSaved.step (ih fun f hf => hwhole f (by simp [hf])) (hwhole e (by simp)) hstep

/-- The suffixed files of a class stay as they are while the class is not saved: restarts and
completed saves of the other class do not touch them. -/
theorem slots_unchanged (hall : ∀ k, SlotsSaved k tr st.files) {after : List Event}
    (hrun : Run (Step shipped) st after st') (hwhole : ∀ e ∈ after, e.Completes)
    (hlast : ∀ d now, Event.save k d now ∉ after) (i : Bool) :
    st'.files (slotPath (dbPath k) i) = st.files (slotPath (dbPath k) i) := by
  have hboth : (∀ k, SlotsSaved k (tr ++ after) st'.files) ∧
      ∀ i, st'.files (slotPath (dbPath k) i) = st.files (slotPath (dbPath k) i) := by
    revert hwhole hlast
    refine hrun.history (fun after st' => (∀ e ∈ after, e.Completes) →
      (∀ d now, Event.save k d now ∉ after) → (∀ k, SlotsSaved k (tr ++ after) st'.files) ∧
        ∀ i, st'.files (slotPath (dbPath k) i) = st.files (slotPath (dbPath k) i)) ?_ ?_
    · exact fun _ _ => ⟨by simpa using hall, fun _ => rfl⟩
    · intro after st₁ e st₂ _ ih hstep hwhole hlast
      obtain ⟨hslots, hsame⟩ := ih (fun f hf => hwhole f (by simp [hf]))
        (fun d now hmem => hlast d now (by simp [hmem]))
      refine ⟨fun k => ?_, fun i => ?_⟩
      · rw [← List.append_assoc]
        exact SlotsSaved.step hslots (hwhole e (by simp)) hstep
      · rw [← hsame i]
        cases hstep with
        | @save count k' d now hup =>
            have hk : k ≠ k' := by
              rintro rfl
              exact hlast d now (by simp)
            exact st₁.save_other hk d now count .whole i
        | cut k' d now n hup => exact absurd (hwhole (.cut k' d now n) (by simp)) id
        | restart hinit => exact restart_frame hslots hinit i
  exact hboth.2 i

/-! ## The comparison -/

/-- With the other file missing the script takes the one that is there. -/
theorem choice_single {files : Files} {i : Bool}
    (hfile : stamp (files (slotPath (dbPath k) i)) ≠ some 0)
    (hother : files (slotPath (dbPath k) (!i)) = none) : choice k files = some i := by
  unfold choice
  cases i with
  | false =>
      rw [Bool.not_false] at hother
      rw [hother, stamp_none]
      rcases hs : stamp (files (slotPath (dbPath k) false)) with _ | a
      · simp [choose, test]
      · have ha : a ≠ 0 := fun h0 => hfile (by rw [hs, h0])
        simp [choose, test, ha]
  | true =>
      rw [Bool.not_true] at hother
      rw [hother, stamp_none]
      rcases hs : stamp (files (slotPath (dbPath k) true)) with _ | a
      · simp [choose, test]
      · have ha : a ≠ 0 := fun h0 => hfile (by rw [hs, h0])
        simp [choose, test, ha]

/-- With both files there, both times have to be readable, and `.0` wins a tie. -/
theorem choice_pair {files : Files} {i : Bool} {d d' : Document} {now now' : Clock}
    (hfile : files (slotPath (dbPath k) i) = some (d.save now))
    (hother : files (slotPath (dbPath k) (!i)) = some (d'.save now'))
    (hle : now'.sec ≤ now.sec) :
    choice k files = some i ↔ d.Timed ∧ d'.Timed ∧ (i = false ∨ now'.sec < now.sec) := by
  have hstamp : ∀ (d : Document) (now : Clock),
      (d.Timed ∧ stamp (some (d.save now)) = some (now.sec : Int)) ∨
      (¬ d.Timed ∧ stamp (some (d.save now)) = none) := by
    intro d now
    by_cases hd : d.Timed
    · exact Or.inl ⟨hd, stamp_save_timed hd now⟩
    · exact Or.inr ⟨hd, stamp_save_untimed hd now⟩
  have hpos : now.sec ≠ 0 := now.positive.ne'
  have hpos' : now'.sec ≠ 0 := now'.positive.ne'
  unfold choice
  cases i with
  | false =>
      rw [Bool.not_false] at hother
      rw [hfile, hother]
      rcases hstamp d now with ⟨hd, hs⟩ | ⟨hd, hs⟩ <;>
        rcases hstamp d' now' with ⟨hd', hs'⟩ | ⟨hd', hs'⟩ <;>
        simp [hs, hs', hd, hd', choose, test, hpos, hpos', hle]
  | true =>
      rw [Bool.not_true] at hother
      rw [hfile, hother]
      rcases hstamp d now with ⟨hd, hs⟩ | ⟨hd, hs⟩ <;>
        rcases hstamp d' now' with ⟨hd', hs'⟩ | ⟨hd', hs'⟩ <;>
        simp [hs, hs', hd, hd', choose, test, hpos, hpos']

/-- The other file does not matter, or both times can be read and tell that the
save is the last one. -/
def ToldApart (k : ConfigClass) (s : Store) (count : ConfigClass → Int) (d : Document)
    (now : Clock) : Prop :=
  s.files (slotPath (dbPath k) (!slotOf (count k))) = none ∨
    ∃ (d' : Document) (now' : Clock),
      s.files (slotPath (dbPath k) (!slotOf (count k))) = some (d'.save now') ∧
        d.Timed ∧ d'.Timed ∧ (slotOf (count k) = false ∨ now'.sec < now.sec)

/-- The script selects the file of a save when it chooses its slot. -/
theorem selects_iff_choice {files : Files} {n : Int} :
    pfGetConfig (dbPath k) files = tmpPath (dbPath k) n ↔ choice k files = some (slotOf n) := by
  have hget : pfGetConfig (dbPath k) files = chosenPath k (choice k files) :=
    congrArg Prod.fst (getValidDBFile_eq k files)
  rw [hget, tmpPath_eq]
  constructor
  · intro heq
    cases hc : choice k files with
    | none =>
        rw [hc] at heq
        exact absurd heq.symm (slotPath_ne_dbPath k k _)
    | some j =>
        rw [hc] at heq
        rw [(slotPath_inj heq).2]
  · intro heq
    rw [heq]
    rfl

/-- The slot of the last save is chosen if the script can tell the two slots apart by their
seconds. -/
theorem selects_iff {files : Files} {s : Store} {count : ConfigClass → Int} {d : Document}
    {now : Clock} (hslots : SlotsSaved k tr s.files)
    (hle : ∀ d' now', Event.save k d' now' ∈ tr → now'.sec ≤ now.sec)
    (hfile : files (slotPath (dbPath k) (slotOf (count k))) = some (d.save now))
    (hsame : files (slotPath (dbPath k) (!slotOf (count k)))
      = s.files (slotPath (dbPath k) (!slotOf (count k)))) :
    pfGetConfig (dbPath k) files = tmpPath (dbPath k) (count k) ↔ ToldApart k s count d now := by
  rw [selects_iff_choice]
  rcases hslots (!slotOf (count k)) with hnone | ⟨d', now', hother, hmem⟩
  · have hchoice : choice k files = some (slotOf (count k)) :=
      choice_single (by rw [hfile]; exact stamp_save_ne_zero d now) (hsame.trans hnone)
    exact iff_of_true hchoice (Or.inl hnone)
  · rw [choice_pair hfile (hsame.trans hother) (hle d' now' hmem)]
    constructor
    · intro h
      exact Or.inr ⟨d', now', hother, h⟩
    · rintro (hnone | ⟨d₂, now₂, hother₂, hd, hd₂, hlast⟩)
      · rw [hother] at hnone
        contradiction
      · have hfiles : choice k files = some (slotOf (count k)) := by
          apply (choice_pair hfile (hsame.trans hother₂) _).mpr ⟨hd, hd₂, hlast⟩
          have htext : d'.save now' = d₂.save now₂ := Option.some.inj (hother.symm.trans hother₂)
          have hs₂ := stamp_save_timed hd₂ now₂
          rw [← htext] at hs₂
          have hd' : d'.Timed := by
            by_contra hnot
            rw [stamp_save_untimed hnot now'] at hs₂
            contradiction
          rw [stamp_save_timed hd' now'] at hs₂
          have hle' := hle d' now' hmem
          have heq : now'.sec = now₂.sec := by exact_mod_cast Option.some.inj hs₂
          omega
        exact (choice_pair hfile (hsame.trans hother) (hle d' now' hmem)).mp hfiles

/-- **Recency.**  A class is saved at a time that no earlier save of it exceeds,
and what follows are restarts and saves of the other class.  The script selects
the file of that save exactly when it could tell it apart from the other one. -/
theorem selects_latest_iff {start : Files} (hfresh : ∀ k i, start (slotPath (dbPath k) i) = none)
    {before after : List Event} {s : Store} (hbefore : Run (Step shipped) ⟨start, none⟩ before s)
    {count : ConfigClass → Int} (hup : s.saveCount = some count) {d : Document} {now : Clock}
    (hrun : Run (Step shipped) s ([.save k d now] ++ after) st)
    (hwhole : ∀ e ∈ before ++ after, e.Completes)
    (hmono : ∀ d' now', .save k d' now' ∈ before → now'.sec ≤ now.sec)
    (hlast : ∀ d' now', .save k d' now' ∉ after) :
    pfGetConfig (dbPath k) st.files = tmpPath (dbPath k) (count k) ↔ ToldApart k s count d now := by
  have hslots : ∀ k, SlotsSaved k before s.files := fun k =>
    SlotsSaved.run hfresh hbefore fun e he => hwhole e (by simp [he])
  obtain ⟨s₁, hsave, hafter⟩ := hrun.cons_inv
  have hslots₁ : ∀ k', SlotsSaved k' (before ++ [.save k d now]) s₁.files := fun _ =>
    SlotsSaved.step hslots trivial hsave
  have hafter : Run (Step shipped) s₁ after st := hafter
  have hkeep := slots_unchanged hslots₁ hafter (fun e he => hwhole e (by simp [he])) hlast
  cases hsave with
  | @save count' _ _ _ hup' =>
      obtain rfl : count = count' := Option.some.inj (hup.symm.trans hup')
      apply selects_iff (hslots k) hmono
      · rw [hkeep]
        exact s.save_self k d now count
      · rw [hkeep]
        exact s.save_spare k d now count .whole (by simp)

/-- A fresh device whose default can be read, once its service is up. -/
theorem first_start
    (h : ((dbInit shipped fun _ => none).2.map fun l => (l .system).saveCount) = some 1) :
    ∃ (loaded : Option (ConfigClass → Loaded)) (s : Store) (count : ConfigClass → Int),
      Run (Step shipped) ⟨fun _ => none, none⟩ [.restart loaded] s ∧ s.saveCount = some count ∧
        count .system = 1 ∧ ∀ k i, s.files (slotPath (dbPath k) i) = none := by
  obtain ⟨l, hl, hcount⟩ := Option.map_eq_some_iff.mp h
  refine ⟨some l, _, fun k => (l k).saveCount, Run.single (step_restart _ hl), rfl, hcount, ?_⟩
  intro k i
  have hempty : ∀ k, SlotsSaved k [] fun _ => none := fun _ _ => Or.inl rfl
  exact @restart_frame shipped k [] ⟨fun _ => none, none⟩ _ _ hempty rfl i

/-- A device that saves its first configuration. -/
theorem selects_latest_iff_first_save : ∃ st : Store, st.files (tmpPath (dbPath .system) 1) ≠ none ∧
    pfGetConfig (dbPath .system) st.files = tmpPath (dbPath .system) 1 := by
  let d : Document := ⟨.object .nil, trivial, by decide⟩
  let now : Clock := ⟨1, by decide, by decide⟩
  let shipped : ConfigClass → Option Text := fun _ => some ['\x7b', '\x7d']
  obtain ⟨loaded, s, count, hrun, hup, hcount, hnone⟩ := @first_start shipped (by decide)
  have hsave : Run (Step shipped) s ([.save .system d now] ++ []) _ :=
    Run.single (Step.save .system d now hup)
  have hiff := selects_latest_iff (fun _ _ => rfl) hrun hup hsave (by simp [Event.Completes])
    (by simp) (by simp)
  rw [hcount] at hiff
  refine ⟨_, ?_, hiff.mpr (Or.inl (hnone _ _))⟩
  simp only [Store.save_files, hcount, tmpPath_eq, Write.apply, Function.update_self]
  nofun

/-- Three saves within one second: the third goes to `.1` and the script selects
`.0`. -/
theorem selects_latest_fails : ∃ (shipped : ConfigClass → Option Text) (before : List Event)
    (s st : Store) (count : ConfigClass → Int) (d : Document) (now : Clock),
    Run (Step shipped) ⟨fun _ => none, none⟩ before s ∧ s.saveCount = some count ∧
      Step shipped s (.save .system d now) st ∧ (∀ e ∈ before, e.Completes) ∧
      (∀ d' now', .save .system d' now' ∈ before → now'.sec ≤ now.sec) ∧
      pfGetConfig (dbPath .system) st.files ≠ tmpPath (dbPath .system) (count .system) := by
  let d : Document := ⟨.object .nil, trivial, by decide⟩
  let now : Clock := ⟨1, by decide, by decide⟩
  let shipped : ConfigClass → Option Text := fun _ => some ['\x7b', '\x7d']
  obtain ⟨loaded, s, c₁, hrun, hup, hcount, -⟩ := @first_start shipped (by decide)
  let c₂ := Function.update c₁ .system (c₁ .system + 1)
  let s₂ : Store := ⟨s.save .system d now c₁ .whole, some c₂⟩
  let c₃ := Function.update c₂ .system (c₂ .system + 1)
  let s₃ : Store := ⟨s₂.save .system d now c₂ .whole, some c₃⟩
  have hc₂ : slotOf (c₂ .system) = false := by
    simp only [c₂, Function.update_self, hcount]
    rfl
  have hc₃ : slotOf (c₃ .system) = true := by
    simp only [c₃, Function.update_self, slotOf_succ, hc₂]
    rfl
  have hrun := hrun.snoc (Step.save .system d now hup)
  have hrun : Run (Step shipped) _ _ s₃ := hrun.snoc (Step.save .system d now rfl)
  refine ⟨shipped, _, s₃, _, c₃, d, now, hrun, rfl, Step.save .system d now rfl, ?_, ?_, ?_⟩
  · simp [Event.Completes]
  · simp
  · have hfile := s₃.save_self .system d now c₃
    have hspare := s₃.save_spare .system d now c₃ .whole (i := false) (by rw [hc₃]; decide)
    have hwritten := s₂.save_self .system d now c₂
    rw [hc₂] at hwritten
    rw [hc₃] at hfile
    have hother := hspare.trans hwritten
    intro heq
    rw [selects_iff_choice, hc₃] at heq
    obtain ⟨-, -, hlast⟩ := (choice_pair hfile hother (le_refl _)).mp heq
    simp at hlast

end Runs

end ConfigFiles
