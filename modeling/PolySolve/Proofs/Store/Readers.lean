import PolySolve.Proofs.Store.Uses

/-!
# Reading the store

The settings and the history are each read in one pass over the file, which stays
as it is. A file that is missing, a folder in its place and a text that is not
the one of a JSON object stand for the default contents. Three defects are faults
instead: bytes that are not the text of anything, an integer that is too long, and
containers that are too deep within each other.

* `HasObject`, `Defect`: the files that are not taken for the default contents;
* `read_eq_error_iff`, `read_of_hasObject`, `read_of_useless`: what reading gives;
* `runOn_settings`, `runOn_history`: the two readers;
* `readers_agree`: what they give for every file.
-/

namespace PolySolve

open Text

namespace StoreFile

/-! ## What a file is -/

/-- A file has the text of a JSON object. -/
def HasObject (depth : StoreDepth) (file : StoreFile) (ms : Json.Members) : Prop :=
  ∃ text, file = bytes (Utf8.encode text) ∧
    Json.ofText depth.levels (unifyLineEnds text) = .ok (.object ms)

/-- Why a file has no contents, not even the default ones. -/
inductive Defect (depth : StoreDepth) : StoreFile → StoreFault → Prop
  | undecodable {content : List UInt8} {f : Utf8.DecodeFault} :
    (∀ text, content ≠ Utf8.encode text) → Utf8.decode content = .error f →
    Defect depth (bytes content) (.undecodable f)
  | longInteger {text : List Char} {digits : Nat} :
    Json.ofText depth.levels (unifyLineEnds text) = .error (.longInteger digits) →
    Defect depth (bytes (Utf8.encode text)) (.longInteger digits)
  | tooDeep {text : List Char} {container : Json.Container} :
    Json.ofText depth.levels (unifyLineEnds text) = .error (.tooDeep container) →
    Defect depth (bytes (Utf8.encode text)) (.tooDeep container)

variable {depth : StoreDepth} {file : StoreFile}

theorem read_of_hasObject {ms : Json.Members} (h : file.HasObject depth ms) :
    file.read depth = .ok ⟨ms, none⟩ := by
  obtain ⟨text, rfl, htext⟩ := h
  rw [read_encode, readText, htext]

/-- A file that is read has no contents of its own, or those of the JSON object that it has. -/
theorem eq_initial_or_hasObject {loaded : Loaded} (h : file.read depth = .ok loaded) :
    loaded.members = Store.initial ∨ file.HasObject depth loaded.members := by
  cases file with
  | absent =>
    obtain rfl := Except.ok.inj h
    exact Or.inl rfl
  | folder =>
    obtain rfl := Except.ok.inj h
    exact Or.inl rfl
  | bytes content =>
    rw [read] at h
    split at h
    · rename_i text hdecode
      obtain rfl := Utf8.decode_eq_ok_iff.1 hdecode
      rw [readText] at h
      split at h
      · rename_i ms htext
        obtain rfl := Except.ok.inj h
        exact Or.inr ⟨text, rfl, htext⟩
      · obtain rfl := Except.ok.inj h
        exact Or.inl rfl
      · obtain rfl := Except.ok.inj h
        exact Or.inl rfl
      · contradiction
      · contradiction
    · contradiction

/-- Reading fails for the files with a defect, and by that defect. -/
theorem read_eq_error_iff {f : StoreFault} : file.read depth = .error f ↔ file.Defect depth f := by
  constructor
  · intro h
    cases file with
    | absent => contradiction
    | folder => contradiction
    | bytes content =>
      rw [read] at h
      split at h
      · rename_i text hdecode
        obtain rfl := Utf8.decode_eq_ok_iff.1 hdecode
        rw [readText] at h
        split at h
        · contradiction
        · contradiction
        · contradiction
        · obtain rfl := Except.error.inj h
          exact .longInteger ‹_›
        · obtain rfl := Except.error.inj h
          exact .tooDeep ‹_›
      · rename_i f hdecode
        obtain rfl := Except.error.inj h
        refine .undecodable (fun text hcontent => ?_) hdecode
        rw [hcontent, Utf8.decode_encode] at hdecode
        contradiction
  · intro h
    cases h with
    | undecodable _ hdecode => rw [read, hdecode]
    | longInteger htext => rw [read_encode, readText, htext]
    | tooDeep htext => rw [read_encode, readText, htext]

/-- Whatever else is in the file's place stands for the default contents. -/
theorem read_of_useless (hdefect : ∀ f, ¬ file.Defect depth f)
    (hobject : ∀ ms, ¬ file.HasObject depth ms) :
    ∃ w, file.read depth = .ok ⟨Store.initial, w⟩ := by
  cases h : file.read depth with
  | error f => exact absurd (read_eq_error_iff.1 h) (hdefect f)
  | ok loaded =>
    obtain ⟨members, w⟩ := loaded
    obtain rfl : members = Store.initial := (eq_initial_or_hasObject h).resolve_right (hobject _)
    exact ⟨w, rfl⟩

end StoreFile

namespace Store

/-! ## The readers -/

variable {depth : StoreDepth} (file : StoreFile)

/-- A reader gives what it takes from the contents. -/
theorem runOn_reader {α : Type} (take : Json.Members → α) :
    StoreAccess.runOn file (do return take (← load depth)) =
      ((file.read depth).map fun loaded => take loaded.members, ⟨file, file.warnings depth⟩) := by
  unfold StoreAccess.runOn
  rw [ExceptT.run_bind, StateT.run_bind, run_load, List.nil_append]
  cases file.read depth with
  | error f => rfl
  | ok loaded => rfl

theorem runOn_settings : (settings depth).runOn file =
    ((file.read depth).map fun loaded => settingsOf loaded.members, ⟨file, file.warnings depth⟩) :=
  runOn_reader file settingsOf

theorem runOn_history : (history depth).runOn file =
    ((file.read depth).map fun loaded => historyOf loaded.members, ⟨file, file.warnings depth⟩) :=
  runOn_reader file historyOf

theorem settingsOf_initial : settingsOf initial = defaultSettings := by cbv

theorem historyOf_initial : historyOf initial = [] := by cbv

/-- Both readers leave the file as it is. They fail for the files with a defect, and by that defect;
they read the JSON object of a file that has one; and they give the default settings and the empty
history for everything else. -/
theorem readers_agree (depth : StoreDepth) :
    (∀ f, file.Defect depth f →
      (settings depth).runOn file = (.error f, ⟨file, []⟩) ∧
        (history depth).runOn file = (.error f, ⟨file, []⟩)) ∧
    (∀ ms, file.HasObject depth ms →
      (settings depth).runOn file = (.ok (settingsOf ms), ⟨file, []⟩) ∧
        (history depth).runOn file = (.ok (historyOf ms), ⟨file, []⟩)) ∧
    ((∀ f, ¬ file.Defect depth f) → (∀ ms, ¬ file.HasObject depth ms) →
      (settings depth).runOn file = (.ok defaultSettings, ⟨file, file.warnings depth⟩) ∧
        (history depth).runOn file = (.ok [], ⟨file, file.warnings depth⟩)) := by
  rw [runOn_settings, runOn_history, StoreFile.warnings]
  refine ⟨fun f hf => ?_, fun ms hms => ?_, fun hdefect hobject => ?_⟩
  · rw [StoreFile.read_eq_error_iff.2 hf]
    exact ⟨rfl, rfl⟩
  · rw [StoreFile.read_of_hasObject hms]
    exact ⟨rfl, rfl⟩
  · obtain ⟨w, hread⟩ := StoreFile.read_of_useless hdefect hobject
    rw [hread, ← settingsOf_initial, ← historyOf_initial]
    exact ⟨rfl, rfl⟩

/-! ## Three files -/

/-- A byte that no character starts with. -/
def strayByte : UInt8 := 0xFF

def strayFault : Utf8.DecodeFault := ⟨.invalidStart, 0, [strayByte]⟩

theorem read_strayByte :
    (StoreFile.bytes [strayByte]).read depth = .error (.undecodable strayFault) := by
  have hdecode : Utf8.decode [strayByte] = .error strayFault := by
    rw [Utf8.decode, Utf8.decodeChars]
    rfl
  rw [StoreFile.read, hdecode]

/-- A history of one number. -/
def shortText : List Char := "\x7b\"history\": [1]\x7d".toList

def shortContents : Json.Members := [(historyName, .array [.int 1])]

theorem hasObject_shortText :
    (StoreFile.bytes (Utf8.encode shortText)).HasObject .usual shortContents :=
  ⟨shortText, rfl, by cbv⟩

/-- The start of an array. -/
def brokenText : List Char := "[1, 2".toList

theorem read_brokenText : (StoreFile.bytes (Utf8.encode brokenText)).read .usual =
    .ok ⟨initial, some (.malformed .expectedComma ⟨5, 1, 6⟩)⟩ := by
  rw [StoreFile.read_encode]
  cbv

theorem readers_agree_threeFiles :
    ((settings .usual).runOn (.bytes [strayByte]) =
        (.error (.undecodable strayFault), ⟨.bytes [strayByte], []⟩) ∧
      (history .usual).runOn (.bytes [strayByte]) =
        (.error (.undecodable strayFault), ⟨.bytes [strayByte], []⟩)) ∧
    ((settings .usual).runOn (.bytes (Utf8.encode shortText)) =
        (.ok defaultSettings, ⟨.bytes (Utf8.encode shortText), []⟩) ∧
      (history .usual).runOn (.bytes (Utf8.encode shortText)) =
        (.ok [.int 1], ⟨.bytes (Utf8.encode shortText), []⟩)) ∧
    ((settings .usual).runOn (.bytes (Utf8.encode brokenText)) = (.ok defaultSettings,
        ⟨.bytes (Utf8.encode brokenText), [.malformed .expectedComma ⟨5, 1, 6⟩]⟩) ∧
      (history .usual).runOn (.bytes (Utf8.encode brokenText)) = (.ok [],
        ⟨.bytes (Utf8.encode brokenText), [.malformed .expectedComma ⟨5, 1, 6⟩]⟩)) := by
  refine ⟨?_, ?_, ?_⟩
  · exact (readers_agree _ _).1 _ (StoreFile.read_eq_error_iff.1 read_strayByte)
  · have hsettings : settingsOf shortContents = defaultSettings := by cbv
    have hhistory : historyOf shortContents = [.int 1] := by cbv
    rw [← hsettings, ← hhistory]
    exact (readers_agree _ _).2.1 _ hasObject_shortText
  · have hdefect (f : StoreFault) :
        ¬ (StoreFile.bytes (Utf8.encode brokenText)).Defect .usual f := by
      intro hf
      have hread := StoreFile.read_eq_error_iff.2 hf
      rw [read_brokenText] at hread
      contradiction
    have hobject (ms : Json.Members) :
        ¬ (StoreFile.bytes (Utf8.encode brokenText)).HasObject .usual ms := by
      intro hms
      have hread := StoreFile.read_of_hasObject hms
      rw [read_brokenText] at hread
      simp only [Except.ok.injEq, Loaded.mk.injEq, reduceCtorEq, and_false] at hread
    have hreaders := (readers_agree _ _).2.2 hdefect hobject
    rwa [StoreFile.warnings, read_brokenText] at hreaders

/-- The stray byte makes both readers fail. -/
theorem readers_fail_strayByte :
    (settings .usual).runOn (.bytes [strayByte]) =
      (.error (.undecodable strayFault), ⟨.bytes [strayByte], []⟩) ∧
    (history .usual).runOn (.bytes [strayByte]) =
      (.error (.undecodable strayFault), ⟨.bytes [strayByte], []⟩) := by
  rw [runOn_settings, runOn_history, StoreFile.warnings, read_strayByte]
  exact ⟨rfl, rfl⟩

end Store

end PolySolve
