import PiFrame.PingPong

/-!
# Power cuts never lose the configuration

Runs of completed saves, saves cut off by a loss of power, and restarts.  The
invariant is `Guarded`: once a save of a class has completed, one of its two
files is complete and is not the one the next save writes.
-/

namespace ConfigFiles

open ByteText CJson AlternatingSlots Transition

/-- The files, and the `saveCount` of each class while the service runs. -/
structure Store where
  files : Files
  saveCount : Option (ConfigClass → Int)

inductive Event
  /-- `json_saveFile` runs to its end. -/
  | save (k : ConfigClass) (d : Document) (now : Clock)
  /-- The power fails when `n` bytes of a save have been written. -/
  | cut (k : ConfigClass) (d : Document) (now : Clock) (n : Nat)
  /-- The service starts, again or for the first time, and `dbInit` runs. -/
  | restart (loaded : Option (ConfigClass → Loaded))

/-- The event saves no document with a `LastTime:` of its own. -/
def Event.Clean : Event → Prop
  | .save _ d _ => d.Clean
  | .cut _ d _ _ => d.Clean
  | .restart _ => True

def Store.save (s : Store) (k : ConfigClass) (d : Document) (now : Clock)
    (count : ConfigClass → Int) (write : Write) : Files :=
  jsonSaveFile (dbPath k) d.root true (count k) now.sec write s.files

inductive Step (shipped : ConfigClass → Option Text) : Store → Event → Store → Prop
  | save {s : Store} {count : ConfigClass → Int} (k : ConfigClass) (d : Document) (now : Clock)
      (up : s.saveCount = some count) :
      Step shipped s (.save k d now)
        ⟨s.save k d now count .whole, some (Function.update count k (count k + 1))⟩
  | cut {s : Store} {count : ConfigClass → Int} (k : ConfigClass) (d : Document) (now : Clock)
      (n : Nat) (up : s.saveCount = some count) :
      Step shipped s (.cut k d now n) ⟨s.save k d now count (.firstBytes n), none⟩
  | restart {s : Store} {files : Files} {loaded : Option (ConfigClass → Loaded)}
      (init : dbInit shipped s.files = (files, loaded)) :
      Step shipped s (.restart loaded)
        ⟨files, loaded.map fun loaded k => (loaded k).saveCount⟩

/-! ## The invariant -/

/-- A save of the class has completed. -/
def Completed (k : ConfigClass) (tr : List Event) : Prop :=
  ∃ d now, Event.save k d now ∈ tr

/-- The part was left by a save of the class. -/
def LeftBy (k : ConfigClass) (tr : List Event) (a : SavedPart) : Prop :=
  (Event.save k a.doc a.now ∈ tr ∧ a.length = (a.doc.save a.now).length) ∨
    Event.cut k a.doc a.now a.length ∈ tr

/-- What an earlier save has left stays one of the saves. -/
theorem LeftBy.mono {k : ConfigClass} {tr : List Event} {a : SavedPart} (h : LeftBy k tr a)
    (e : Event) : LeftBy k (tr ++ [e]) a := by
  rcases h with ⟨hmem, hlen⟩ | hmem
  · exact Or.inl ⟨by simp [hmem], hlen⟩
  · exact Or.inr (by simp [hmem])

/-- The slots of a class stand for its files and its counter. -/
structure Represents (k : ConfigClass) (st : Store) (s : Slots SavedPart) : Prop where
  slots : SlotsHold k st.files s
  target : s.target = st.saveCount.map fun count => slotOf (count k)

def Inv (k : ConfigClass) (tr : List Event) (st : Store) : Prop :=
  ∃ s, Represents k st s ∧ Guarded (LeftBy k tr) (Completed k tr) s

/-- A file that is written, and the slots: if the text stands for the record, the files hold the
slots in which the record has been put. -/
theorem SlotsHold.put {k : ConfigClass} {files : Files} {s : Slots SavedPart}
    (h : SlotsHold k files s) {i : Bool} {text : Text} {record : Option SavedPart}
    (hrecord : Holds (some text) record) (target : Option Bool) :
    SlotsHold k (Function.update files (slotPath (dbPath k) i) (some text))
      (s.put i record target) := by
  intro j
  by_cases hj : j = i
  · subst hj
    rw [Function.update_self, Slots.put_slot]
    exact hrecord
  · obtain rfl : j = !i := by cases i <;> cases j <;> simp_all
    rw [Function.update_of_ne (fun heq => hj (slotPath_inj heq).2), Slots.put_other]
    exact h _

/-- Nothing is written to the slots of the other class. -/
theorem SlotsHold.frame {k : ConfigClass} {files files' : Files} {s : Slots SavedPart}
    (h : SlotsHold k files s)
    (hframe : ∀ i, files' (slotPath (dbPath k) i) = files (slotPath (dbPath k) i)) :
    SlotsHold k files' s := by
  intro i
  rw [hframe i]
  exact h i

/-- A save writes the slot whose turn it is, and nothing else. -/
theorem Store.save_files (st : Store) (k : ConfigClass) (d : Document) (now : Clock)
    (count : ConfigClass → Int) (write : Write) :
    st.save k d now count write
      = write.apply (slotPath (dbPath k) (slotOf (count k))) (d.save now) st.files := by
  rw [Store.save, jsonSaveFile, tmpPath_eq]
  rfl

/-- A whole save leaves the document with its time. -/
theorem Store.save_self (st : Store) (k : ConfigClass) (d : Document) (now : Clock)
    (count : ConfigClass → Int) :
    st.save k d now count .whole (slotPath (dbPath k) (slotOf (count k))) = some (d.save now) := by
  rw [Store.save_files]
  exact Function.update_self ..

/-- The slot that is not the target keeps its file. -/
theorem Store.save_spare (st : Store) (k : ConfigClass) (d : Document) (now : Clock)
    (count : ConfigClass → Int) (write : Write) {i : Bool} (hi : i ≠ slotOf (count k)) :
    st.save k d now count write (slotPath (dbPath k) i) = st.files (slotPath (dbPath k) i) := by
  rw [Store.save_files]
  have hne : slotPath (dbPath k) i ≠ slotPath (dbPath k) (slotOf (count k)) := fun heq =>
    hi (slotPath_inj heq).2
  cases write with
  | whole => exact Function.update_of_ne hne ..
  | firstBytes n => exact Function.update_of_ne hne ..
  | notOpened => rfl

/-- A save of one class leaves the slots of the others. -/
theorem Store.save_other (st : Store) {k k' : ConfigClass} (hk : k ≠ k') (d : Document)
    (now : Clock)
    (count : ConfigClass → Int) (write : Write) (i : Bool) :
    st.save k' d now count write (slotPath (dbPath k) i) = st.files (slotPath (dbPath k) i) := by
  rw [Store.save_files]
  have hne : slotPath (dbPath k) i ≠ slotPath (dbPath k') (slotOf (count k')) := fun heq =>
    hk (slotPath_inj heq).1
  cases write with
  | whole => exact Function.update_of_ne hne ..
  | firstBytes n => exact Function.update_of_ne hne ..
  | notOpened => rfl

/-- A whole save is a complete part. -/
theorem holds_save {d : Document} (hd : d.Clean) (now : Clock) :
    Holds (some (d.save now)) (some ⟨d, now, (d.save now).length⟩) := by
  refine ⟨by simp [SavedPart.text], ?_, now.sec, stamp_save hd now, by exact_mod_cast now.positive⟩
  simp only [SavedPart.Complete, Document.save_eq, List.length_append]
  omega

/-- A cut save is a complete part or counts for nothing. -/
theorem holds_cut {d : Document} (hd : d.Clean) (now : Clock) (n : Nat) :
    ∃ record, Holds (some ((d.save now).take n)) record ∧
      ∀ a, record = some a → a = ⟨d, now, n⟩ := by
  rcases stamp_cut hd now n with hzero | ⟨hlen, v, hv, hpos, -⟩
  · exact ⟨none, hzero, nofun⟩
  · refine ⟨some ⟨d, now, n⟩, ⟨rfl, hlen, v, hv, hpos⟩, ?_⟩
    intro a ha
    exact (Option.some.inj ha).symm

section Runs

variable {shipped : ConfigClass → Option Text} {k : ConfigClass} {tr : List Event}
  {st st' : Store}

/-- A step that saves nothing of the class completes no save of it. -/
theorem completed_snoc_of_ne {e : Event} (h : ∀ d now, e ≠ .save k d now) :
    Completed k (tr ++ [e]) → Completed k tr := by
  rintro ⟨d, now, hmem⟩
  rcases List.mem_append.mp hmem with hold | hlast
  · exact ⟨d, now, hold⟩
  · exact absurd (List.mem_singleton.mp hlast).symm (h d now)

/-- What an event of the other class does to this one: nothing. -/
theorem Inv.other (h : Inv k tr st) {e : Event} {files : Files}
    {saveCount : Option (ConfigClass → Int)}
    (hsave : ∀ d now, e ≠ .save k d now)
    (hframe : ∀ i, files (slotPath (dbPath k) i) = st.files (slotPath (dbPath k) i))
    (hcount : saveCount = none ∨
      (saveCount.map fun count => slotOf (count k)) =
        st.saveCount.map fun count => slotOf (count k)) :
    Inv k (tr ++ [e]) ⟨files, saveCount⟩ := by
  obtain ⟨s, hrep, hguard⟩ := h
  have hmono : ∀ a, LeftBy k tr a → LeftBy k (tr ++ [e]) a := fun a ha => ha.mono e
  have hdone : Completed k (tr ++ [e]) → Completed k tr := completed_snoc_of_ne hsave
  rcases hcount with rfl | hcount
  · refine ⟨⟨s.slot, none⟩, ⟨hrep.slots.frame hframe, rfl⟩, ?_⟩
    have hstop := hguard.stop
    exact ⟨fun i a ha => hmono a (hstop.origin i a ha), fun hc => hstop.spare (hdone hc),
      fun hc => hstop.resting (hdone hc)⟩
  · refine ⟨s, ⟨hrep.slots.frame hframe, hrep.target.trans hcount.symm⟩, ?_⟩
    exact ⟨fun i a ha => hmono a (hguard.origin i a ha), fun hc => hguard.spare (hdone hc),
      fun hc => hguard.resting (hdone hc)⟩

/-- A completed save of the class: it becomes the record of the slot that was the target, and
the other slot keeps its own. -/
theorem Inv.save (h : Inv k tr st) {d : Document} (hd : d.Clean) (now : Clock)
    (count : ConfigClass → Int) :
    Inv k (tr ++ [.save k d now])
      ⟨st.save k d now count .whole, some (Function.update count k (count k + 1))⟩ := by
  obtain ⟨s, hrep, hguard⟩ := h
  refine ⟨s.put (slotOf (count k)) (some ⟨d, now, (d.save now).length⟩)
    (some !slotOf (count k)), ⟨?_, ?_⟩, ?_⟩
  · rw [Store.save_files]
    exact hrep.slots.put (holds_save hd now) _
  · simp [Slots.put, slotOf_succ]
  · apply hguard.write
    · exact Or.inl ⟨by simp, rfl⟩
    · exact fun a ha => ha.mono _

/-- A cut save of the class: the slot that was the target may be damaged, and the process is
down. -/
theorem Inv.cut (h : Inv k tr st) {d : Document} (hd : d.Clean) (now : Clock) (n : Nat)
    {count : ConfigClass → Int} (hup : st.saveCount = some count) :
    Inv k (tr ++ [.cut k d now n]) ⟨st.save k d now count (.firstBytes n), none⟩ := by
  obtain ⟨s, hrep, hguard⟩ := h
  obtain ⟨record, hholds, horigin⟩ := holds_cut hd now n
  refine ⟨s.put (slotOf (count k)) record none, ⟨?_, rfl⟩, ?_⟩
  · rw [Store.save_files]
    exact hrep.slots.put hholds _
  · apply hguard.cut
    · rw [hrep.target, hup]
      rfl
    · intro a ha
      rw [horigin a ha]
      exact Or.inr (by simp)
    · exact fun a ha => ha.mono _
    · exact completed_snoc_of_ne (fun _ _ h => nomatch h)

/-- A restart. -/
theorem Inv.restart (hall : ∀ k, Inv k tr st) {files : Files}
    {loaded : Option (ConfigClass → Loaded)} (hinit : dbInit shipped st.files = (files, loaded)) :
    Inv k (tr ++ [.restart loaded])
      ⟨files, loaded.map fun loaded k => (loaded k).saveCount⟩ := by
  have hslots : ∀ k, Loadable k st.files := fun k =>
    let ⟨_, hrep, _⟩ := hall k
    hrep.slots.loadable
  obtain ⟨hframe, hfrom, -⟩ := dbInit_spec hslots hinit
  cases loaded with
  | none => exact (hall k).other (fun _ _ h => nomatch h) (hframe k) (Or.inl rfl)
  | some l =>
      obtain ⟨s, hrep, hguard⟩ := hall k
      have hload := hguard.load hrep.slots.sound
      refine ⟨s.load (choice k st.files), ⟨hrep.slots.frame (hframe k), ?_⟩, ?_⟩
      · simp only [Slots.load, Option.map_some, Option.some.injEq]
        rw [(hfrom l rfl k).count, slotOf_chosenCount]
      · have hdone : Completed k (tr ++ [.restart (some l)]) → Completed k tr :=
          completed_snoc_of_ne fun _ _ h => nomatch h
        exact ⟨fun i a ha => (hload.origin i a ha).mono _, fun hc => hload.spare (hdone hc),
          fun hc => hload.resting (hdone hc)⟩

/-- **Step rule.** -/
theorem Inv.step (hall : ∀ k, Inv k tr st) {e : Event} (hclean : e.Clean)
    (hstep : Step shipped st e st') : Inv k (tr ++ [e]) st' := by
  cases hstep with
  | @save count k' d now hup =>
      by_cases hk : k = k'
      · subst hk
        exact (hall k).save hclean now count
      · refine (hall k).other (fun d' now' heq => ?_) (st.save_other hk d now count .whole)
          (Or.inr ?_)
        · cases heq
          exact hk rfl
        · rw [hup]
          simp [hk]
  | @cut count k' d now n hup =>
      by_cases hk : k = k'
      · subst hk
        exact (hall k).cut hclean now n hup
      · exact (hall k).other (fun _ _ h => nomatch h) (st.save_other hk d now count _) (Or.inl rfl)
  | restart hinit => exact Inv.restart hall hinit

/-- **Run rule.**  The service is down and neither class has been saved. -/
theorem Inv.run {start : Files} (hfresh : ∀ k i, start (slotPath (dbPath k) i) = none)
    (hrun : Run (Step shipped) ⟨start, none⟩ tr st) (hclean : ∀ e ∈ tr, e.Clean) : Inv k tr st := by
  suffices hall : ∀ k, Inv k tr st from hall k
  revert hclean
  refine hrun.history (fun tr st => (∀ e ∈ tr, e.Clean) → ∀ k, Inv k tr st) ?_ ?_
  · intro _ k
    refine ⟨⟨fun _ => none, none⟩, ⟨fun i => ?_, rfl⟩, Guarded.empty ?_⟩
    · exact (congrArg stamp (hfresh k i)).trans stamp_none
    · rintro ⟨d, now, hmem⟩
      exact absurd hmem (by simp)
  · intro tr st e st' _ ih hstep hclean k
    exact Inv.step (ih fun f hf => hclean f (by simp [hf])) (hclean e (by simp)) hstep

/-- **Crash safety.**  Take any run of completed saves, saves cut off by a power
failure and restarts that ends with a restart, none of the documents having a
`LastTime:` of its own.

* When a save of the class has completed, the file that is loaded is one of the
  two suffixed files, the document in it is complete and some save has written it.
* Before that it is the plain file, or what a cut save with a complete document
  has left.
* The next save of the class does not go to the file that was loaded.
* When both classes have a completed save, the restart succeeds. -/
theorem pingPong_crash_safe {start : Files} (hfresh : ∀ k i, start (slotPath (dbPath k) i) = none)
    {loaded : Option (ConfigClass → Loaded)}
    (hrun : Run (Step shipped) ⟨start, none⟩ (tr ++ [.restart loaded]) st)
    (hclean : ∀ e ∈ tr, e.Clean) :
    (∀ l, loaded = some l → ∀ k,
      (Completed k tr → ∃ i, ∃ a : SavedPart, (l k).dbPath = slotPath (dbPath k) i ∧
        st.files (l k).dbPath = some a.text ∧ a.Complete ∧ LeftBy k tr a ∧
        (l k).root = some a.doc.root) ∧
      (¬ Completed k tr → (l k).dbPath = dbPath k ∨
        ∃ i, ∃ a : SavedPart, (l k).dbPath = slotPath (dbPath k) i ∧ st.files (l k).dbPath = some a.text ∧
          a.Complete ∧ .cut k a.doc a.now a.length ∈ tr) ∧
      tmpPath (dbPath k) (l k).saveCount ≠ (l k).dbPath) ∧
    ((∀ k, Completed k tr) → loaded.isSome) := by
  obtain ⟨before, hbefore, hlast⟩ := hrun.snoc_inv
  have hall : ∀ k, Inv k tr before := fun k => Inv.run hfresh hbefore hclean
  cases hlast with
  | @restart files _ hinit =>
      have hslots : ∀ k, Loadable k before.files := fun k =>
        let ⟨_, hrep, _⟩ := hall k
        hrep.slots.loadable
      obtain ⟨hframe, hfrom, hup⟩ := dbInit_spec hslots hinit
      refine ⟨fun l hl k => ?_, fun hdone => hup fun k => ?_⟩
      · obtain ⟨s, hrep, hguard⟩ := hall k
        have hfrom := hfrom l hl k
        have hslot : ∀ i (a : SavedPart), choice k before.files = some i → s.slot i = some a →
            (l k).dbPath = slotPath (dbPath k) i ∧ files (l k).dbPath = some a.text ∧ a.Complete ∧
              LeftBy k tr a ∧ (l k).root = some a.doc.root := by
          intro i a hi ha
          have hpath : (l k).dbPath = slotPath (dbPath k) i := by rw [hfrom.path, hi]; rfl
          have hholds := hrep.slots i
          rw [ha] at hholds
          refine ⟨hpath, ?_, hholds.2.1, hguard.origin i a ha,
            hfrom.root i a hi hholds.1 hholds.2.1⟩
          rw [hpath, hframe]
          exact hholds.1
        refine ⟨fun hdone => ?_, fun hnone => ?_, ?_⟩
        · obtain ⟨i, a, hi, ha, -⟩ := hguard.chosen (hdone.imp fun d hd => hd) hrep.slots.sound
          exact ⟨i, a, hslot i a hi ha⟩
        · cases hchoice : choice k before.files with
          | none =>
              left
              rw [hfrom.path, hchoice]
              rfl
          | some i =>
              right
              have hsound := hrep.slots.sound
              rw [hchoice] at hsound
              obtain ⟨a, ha⟩ := Option.isSome_iff_exists.mp hsound
              obtain ⟨hpath, hfile, hcomplete, hleft, -⟩ := hslot i a hchoice ha
              rcases hleft with ⟨hsave, -⟩ | hcut
              · exact absurd ⟨a.doc, a.now, hsave⟩ hnone
              · exact ⟨i, a, hpath, hfile, hcomplete, hcut⟩
        · rw [hfrom.path, hfrom.count, tmpPath_eq, slotOf_chosenCount]
          rcases choice k before.files with _ | i
          · exact slotPath_ne_dbPath k k true
          · intro heq
            have hi := (slotPath_inj heq).2
            cases i <;> contradiction
      · obtain ⟨s, hrep, hguard⟩ := hall k
        obtain ⟨i, a, hi, -⟩ := hguard.chosen (hdone k) hrep.slots.sound
        rw [hi]
        rfl

theorem step_restart (st : Store) {loaded : Option (ConfigClass → Loaded)}
    (h : (dbInit shipped st.files).2 = loaded) :
    Step shipped st (.restart loaded)
      ⟨(dbInit shipped st.files).1, loaded.map fun loaded k => (loaded k).saveCount⟩ :=
  Step.restart (Prod.ext rfl h)

/-- A fresh device saves both classes once and restarts. -/
theorem pingPong_crash_safe_first_saves : ∃ l : ConfigClass → Loaded, ∀ k, ∃ i, ∃ a : SavedPart,
    (l k).dbPath = slotPath (dbPath k) i ∧ a.Complete ∧ (l k).root = some a.doc.root := by
  let d : Document := ⟨.object .nil, trivial, by decide⟩
  have hd : d.Clean := by unfold Document.Clean; decide
  let now : Clock := ⟨1, by decide, by decide⟩
  let shipped : ConfigClass → Option Text := fun _ => some ['\x7b', '\x7d']
  have hup : (dbInit shipped fun _ => none).2.isSome = true := by decide
  obtain ⟨l₀, hl₀⟩ := Option.isSome_iff_exists.mp hup
  have hrun : Run (Step shipped) ⟨fun _ => none, none⟩ [] ⟨fun _ => none, none⟩ := Run.nil
  have hrun := hrun.snoc (step_restart _ hl₀)
  have hrun := hrun.snoc (Step.save .system d now rfl)
  have hrun := hrun.snoc (Step.save .network d now rfl)
  have hclean : ∀ e ∈ [] ++ [.restart (some l₀)] ++ [.save .system d now] ++ [.save .network d now],
      Event.Clean e := by
    intro e he
    simp only [List.nil_append, List.cons_append, List.mem_cons, List.not_mem_nil, or_false] at he
    rcases he with rfl | rfl | rfl
    · trivial
    · exact hd
    · exact hd
  have hdone : ∀ k, Completed k
      ([] ++ [.restart (some l₀)] ++ [.save .system d now] ++ [.save .network d now]) := by
    intro k
    cases k <;> exact ⟨d, now, by simp⟩
  have hlast := hrun.snoc (step_restart _ rfl)
  obtain ⟨hload, hsome⟩ := pingPong_crash_safe (fun _ _ => rfl) hlast hclean
  obtain ⟨l, hl⟩ := Option.isSome_iff_exists.mp (hsome hdone)
  refine ⟨l, fun k => ?_⟩
  obtain ⟨i, a, hpath, -, hcomplete, -, hroot⟩ := (hload l hl k).1 (hdone k)
  exact ⟨i, a, hpath, hcomplete, hroot⟩

end Runs

end ConfigFiles
