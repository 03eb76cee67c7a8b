import PolySolve.Proofs.Store.Readers

/-!
# Changes that fail

A change reads the file before it writes anything, so a file that cannot be read
stays as it is, and so does a folder in its place. Writing empties the file first
and then goes piece by piece. What stops it is a string with half of a surrogate
pair, of the change or of what was stored, and then the file has the new text up
to the piece with that string.

* `Cut`, `write_cut`: where writing stops;
* `Change`, `Change.Ends`: the changes, and how one of them can end;
* `Change.runOn_iff_ends`: it ends in one of these ways, and in no other;
* `Change.fails_iff`: what is in the file after a change that fails.
-/

namespace PolySolve

open Text

namespace Text.Utf8

/-- The bytes of code points fail for a surrogate among them. -/
theorem exists_encode?_eq_error {ps : List CodePoint} (h : ¬ Unpaired ps) :
    ∃ f, encode? ps = .error f := by
  unfold encode?
  split
  · rename_i hnone
    exact absurd (fun p hp => List.findIdx?_eq_none_iff.1 hnone p hp) h
  · exact ⟨_, rfl⟩

end Text.Utf8

namespace StoreFile

/-! ## Where writing stops -/

/-- The text of a value is cut before a piece with half of a surrogate pair. -/
structure Cut (v : Json) (before : List (List CodePoint)) (f : Utf8.EncodeFault) : Prop where
  unpaired : Unpaired before.flatten
  piece : ∃ p after, Json.pieces .indented 0 v = before ++ p :: after ∧ Utf8.encode? p = .error f

theorem exists_split {ps : List (List CodePoint)} (h : ¬ Unpaired ps.flatten) :
    ∃ before f, Unpaired before.flatten ∧
      ∃ p after, ps = before ++ p :: after ∧ Utf8.encode? p = .error f := by
  induction ps with
  | nil => exact absurd (List.forall_mem_nil _) h
  | cons p ps ih =>
    rw [List.flatten_cons, unpaired_append] at h
    by_cases hp : Unpaired p
    · obtain ⟨before, f, hbefore, q, after, rfl, hq⟩ := ih fun hps => h ⟨hp, hps⟩
      refine ⟨p :: before, f, ?_, q, after, rfl, hq⟩
      rw [List.flatten_cons, unpaired_append]
      exact ⟨hp, hbefore⟩
    · obtain ⟨f, hf⟩ := Utf8.exists_encode?_eq_error hp
      exact ⟨[], f, List.forall_mem_nil _, p, ps, rfl, hf⟩

theorem encodePieces_split {before after : List (List CodePoint)} {p : List CodePoint}
    {f : Utf8.EncodeFault} (hbefore : Unpaired before.flatten) (hp : Utf8.encode? p = .error f) :
    encodePieces (before ++ p :: after) = (Utf8.encode (chars before.flatten), some f) := by
  induction before with
  | nil =>
    show encodePieces (p :: after) = _
    rw [encodePieces, hp]
    rfl
  | cons q before ih =>
    rw [List.flatten_cons, unpaired_append] at hbefore
    rw [List.cons_append, encodePieces, Utf8.encode?_of_unpaired hbefore.1, ih hbefore.2,
      List.flatten_cons, chars_append, Utf8.encode_append]

theorem exists_cut {v : Json} (h : ¬ Json.Encodable v) : ∃ before f, Cut v before f := by
  rw [← Json.unpaired_pieces_iff .indented 0] at h
  obtain ⟨before, f, hbefore, hpiece⟩ := exists_split h
  exact ⟨before, f, hbefore, hpiece⟩

theorem Cut.not_encodable {v : Json} {before : List (List CodePoint)} {f : Utf8.EncodeFault}
    (h : Cut v before f) : ¬ Json.Encodable v := by
  obtain ⟨p, after, hpieces, hp⟩ := h.piece
  rw [← Json.unpaired_pieces_iff .indented 0, hpieces, List.flatten_append, List.flatten_cons,
    unpaired_append, unpaired_append]
  rintro ⟨-, hunpaired, -⟩
  rw [Utf8.encode?_of_unpaired hunpaired] at hp
  contradiction

theorem write_cut {file : StoreFile} (hfile : file ≠ folder) {ms : Json.Members}
    {before : List (List CodePoint)} {f : Utf8.EncodeFault} (h : Cut (.object ms) before f) :
    file.write ms = (bytes (Utf8.encode (chars before.flatten)), some (.unencodable f)) := by
  obtain ⟨p, after, hpieces, hp⟩ := h.piece
  rw [write_of_ne_folder hfile, hpieces, encodePieces_split h.unpaired hp]
  rfl

end StoreFile

namespace Store

variable {depth : StoreDepth} {file next : StoreFile}

theorem leaves_save_of_fault {contents : Json.Members} {f : StoreFault}
    (h : file.write contents = (next, some f)) : Leaves (save contents) file (.error f) next := by
  intro ws
  rw [run_save, h]
  exact ⟨_, rfl⟩

/-! ## Changes -/

/-- A change of the store: of some settings, or of the history. -/
inductive Change where
  | saveSettings (changes : Json.Members)
  | addEntry (entry : Json)
  | clearHistory

namespace Change

/-- A change of the store in its file. -/
def access (depth : StoreDepth) : Change → StoreAccess Unit
  | saveSettings changes => Store.saveSettings depth changes
  | addEntry entry => Store.addEntry depth entry
  | clearHistory => Store.clearHistory depth

/-- The contents that a change writes. -/
def written : Change → Json.Members → Json.Members
  | saveSettings changes, contents =>
    contents.put settingsName (.object ((settingsOf contents).override (known changes)))
  | addEntry entry, contents =>
    contents.put historyName (.array (front entry (historyOf contents)))
  | clearHistory, contents => contents.put historyName (.array [])

/-- What a change of a file ends with, and the file after it. -/
inductive Ends (depth : StoreDepth) (c : Change) (file : StoreFile) :
    Except StoreFault Unit → StoreFile → Prop
  | defect {f : StoreFault} : file.Defect depth f → Ends depth c file (.error f) file
  | folder : file = .folder → Ends depth c file (.error .folder) file
  | cut {loaded : Loaded} {before : List (List CodePoint)} {f : Utf8.EncodeFault} :
    file ≠ .folder → file.read depth = .ok loaded →
    StoreFile.Cut (.object (c.written loaded.members)) before f →
    Ends depth c file (.error (.unencodable f)) (.bytes (Utf8.encode (chars before.flatten)))
  | written {loaded : Loaded} :
    file ≠ .folder → file.read depth = .ok loaded →
    Json.Encodable (.object (c.written loaded.members)) →
    Ends depth c file (.ok ())
      (.bytes (Utf8.encode (Json.valueChars 0 (.object (c.written loaded.members)))))

variable {c : Change}

/-- All readings before the writing give the same contents. -/
theorem leaves_of_read {loaded : Loaded} (h : file.read depth = .ok loaded)
    {result : Except StoreFault Unit}
    (hsave : Leaves (save (c.written loaded.members)) file result next) :
    Leaves (c.access depth) file result next := by
  have hload : Runs (load depth) file loaded.members file := runs_load_of_read h
  have hread {α : Type} (take : Json.Members → α) :
      Runs (do return take (← load depth)) file (take loaded.members) file := hload.map take
  cases c with
  | saveSettings changes => exact hload.bind ((hread settingsOf).bind hsave)
  | addEntry entry => exact hload.bind ((hread historyOf).bind hsave)
  | clearHistory => exact hload.bind hsave

theorem Ends.leaves {result : Except StoreFault Unit} (h : c.Ends depth file result next) :
    Leaves (c.access depth) file result next := by
  cases h with
  | defect hf =>
    have hload := leaves_load depth file
    rw [StoreFile.read_eq_error_iff.2 hf] at hload
    cases c <;> exact hload.bind_error
  | folder hfolder =>
    subst hfolder
    exact leaves_of_read rfl (leaves_save_of_fault rfl)
  | cut hfile hread hcut =>
    exact leaves_of_read hread (leaves_save_of_fault (StoreFile.write_cut hfile hcut))
  | written hfile hread hencodable =>
    exact leaves_of_read hread (runs_save (StoreFile.write_encodable hfile hencodable))

theorem exists_ends (depth : StoreDepth) (c : Change) (file : StoreFile) :
    ∃ result next, c.Ends depth file result next := by
  by_cases hfile : file = .folder
  · exact ⟨_, _, .folder hfile⟩
  cases hread : file.read depth with
  | error f => exact ⟨_, _, .defect (StoreFile.read_eq_error_iff.1 hread)⟩
  | ok loaded =>
    by_cases hencodable : Json.Encodable (.object (c.written loaded.members))
    · exact ⟨_, _, .written hfile hread hencodable⟩
    · obtain ⟨before, f, hcut⟩ := StoreFile.exists_cut hencodable
      exact ⟨_, _, .cut hfile hread hcut⟩

theorem runOn_iff_ends {result : Except StoreFault Unit} :
    (∃ warnings, (c.access depth).runOn file = (result, ⟨next, warnings⟩)) ↔
      c.Ends depth file result next := by
  refine ⟨fun ⟨warnings, h⟩ => ?_, fun h => h.leaves []⟩
  obtain ⟨result', next', hends⟩ := c.exists_ends depth file
  obtain ⟨later, hrun⟩ := hends.leaves []
  have hsame : (result, StoreState.mk next warnings) = (result', ⟨next', later⟩) :=
    h.symm.trans hrun
  simp only [Prod.mk.injEq, StoreState.mk.injEq] at hsame
  obtain ⟨rfl, rfl, -⟩ := hsame
  exact hends

/-- A change fails in three ways. A file with a defect and a folder are left as they are. A file that
can be read has the new text up to the first piece that has no bytes, and there is one exactly if
some string in the new contents is not a text. -/
theorem fails_iff {f : StoreFault} :
    (∃ warnings, (c.access depth).runOn file = (.error f, ⟨next, warnings⟩)) ↔
      ((file.Defect depth f ∨ file = .folder ∧ f = .folder) ∧ next = file) ∨
      ∃ loaded before g, file ≠ .folder ∧ file.read depth = .ok loaded ∧
        ¬ Json.Encodable (.object (c.written loaded.members)) ∧
        StoreFile.Cut (.object (c.written loaded.members)) before g ∧ f = .unencodable g ∧
        next = .bytes (Utf8.encode (chars before.flatten)) := by
  rw [runOn_iff_ends]
  constructor
  · intro h
    cases h with
    | defect hf => exact Or.inl ⟨Or.inl hf, rfl⟩
    | folder hfolder => exact Or.inl ⟨Or.inr ⟨hfolder, rfl⟩, rfl⟩
    | cut hfile hread hcut =>
      exact Or.inr ⟨_, _, _, hfile, hread, hcut.not_encodable, hcut, rfl, rfl⟩
  · rintro (⟨hf | ⟨hfolder, rfl⟩, rfl⟩ | ⟨loaded, before, g, hfile, hread, -, hcut, rfl, rfl⟩)
    · exact .defect hf
    · exact .folder hfolder
    · exact .cut hfile hread hcut

/-! ## A cut store -/

def halfPair : CodePoint := ⟨0xD800, by decide⟩

/-- A store with half of a surrogate pair in a member of its own. -/
def halfPairText : List Char := "\x7b\"history\":[1],\"z\":\"\\ud800\"\x7d".toList

def halfPairContents : Json.Members :=
  [(historyName, .array [.int 1]), (codePoints ['z'], .string [halfPair])]

theorem ofText_halfPairText :
    Json.ofText StoreDepth.usual.levels (unifyLineEnds halfPairText) =
      .ok (.object halfPairContents) := by
  cbv

/-- What of the new text is written. -/
def cutText : List Char := "\x7b\n  \"history\": [],\n  \"z\": ".toList

/-- The history is cleared, but the member after it is lost. -/
theorem clearHistory_halfPairText :
    (∃ warnings, (Store.clearHistory .usual).runOn (.bytes (Utf8.encode halfPairText)) =
      (.error (.unencodable ⟨1, [halfPair]⟩), ⟨.bytes (Utf8.encode cutText), warnings⟩)) ∧
    StoreFile.bytes (Utf8.encode cutText) ≠ .bytes (Utf8.encode halfPairText) := by
  have hread :
      (StoreFile.bytes (Utf8.encode halfPairText)).read .usual = .ok ⟨halfPairContents, none⟩ :=
    StoreFile.read_of_hasObject ⟨halfPairText, rfl, ofText_halfPairText⟩
  have hcut : StoreFile.Cut (.object (clearHistory.written halfPairContents))
      ((Json.pieces .indented 0 (.object (clearHistory.written halfPairContents))).take 8)
      ⟨1, [halfPair]⟩ := by
    refine ⟨?_, _, _, rfl, rfl⟩
    exact unpaired_codePoints cutText
  have hends := Ends.cut (c := clearHistory) (by decide) hread hcut
  exact ⟨hends.leaves [], by decide +kernel⟩

end Change

end Store

end PolySolve
