import PolySolve.Proofs.Json.Surrogates
import PolySolve.Store.File

/-!
# What a file stands for

A file with a text, or a missing one, stands for the contents that are read from
it. After some contents are written, the file stands for these.

* `Holds`: files and their contents;
* `Holds.read`, `Holds.writable`: the contents are read, and can be written;
* `read_nested`: containers that are too deep within each other;
* `holds_write`: contents that are written.
-/

namespace PolySolve

/-- The three containers of a store with a record, and the others. -/
theorem StoreDepth.exists_levels (depth : StoreDepth) : ∃ n, depth.levels = n + 3 :=
  ⟨depth.levels - 3, (Nat.sub_add_cancel depth.three_le).symm⟩

namespace StoreFile

open Text

variable {depth : StoreDepth}

/-- The contents that a file stands for. The files are those that are missing or have a text, in
which no integer is too long, no container too deep within others and, if it is the text of an
object, no half of a surrogate pair in a string. -/
inductive Holds (depth : StoreDepth) : StoreFile → Json.Members → Prop
  | absent : Holds depth .absent Store.initial
  | object {text : List Char} {ms : Json.Members} :
    Json.ofText depth.levels (unifyLineEnds text) = .ok (.object ms) →
    Json.Encodable (.object ms) → Holds depth (.bytes (Utf8.encode text)) ms
  | other {text : List Char} {v : Json} :
    Json.ofText depth.levels (unifyLineEnds text) = .ok v → (∀ ms, v ≠ .object ms) →
    Holds depth (.bytes (Utf8.encode text)) Store.initial
  | malformed {text : List Char} {problem : Json.Problem} {position : Json.Position} :
    Json.ofText depth.levels (unifyLineEnds text) = .error (.malformed problem position) →
    Holds depth (.bytes (Utf8.encode text)) Store.initial

/-! ## Reading -/

/-- The warnings of one reading. -/
def warnings (depth : StoreDepth) (file : StoreFile) : List StoreWarning :=
  match file.read depth with
  | .ok loaded => loaded.warning.toList
  | .error _ => []

theorem read_encode (text : List Char) :
    (bytes (Utf8.encode text)).read depth = readText depth text := by
  rw [read, Utf8.decode_encode]

theorem Holds.read {file : StoreFile} {ms : Json.Members} (h : file.Holds depth ms) :
    ∃ w, file.read depth = .ok ⟨ms, w⟩ := by
  cases h with
  | absent => exact ⟨_, read_absent depth⟩
  | object h _ =>
    rw [read_encode, readText, h]
    exact ⟨_, rfl⟩
  | other h hne =>
    rw [read_encode, readText, h]
    split
    · rename_i ms heq
      exact absurd (Except.ok.inj heq) (hne ms)
    · exact ⟨_, rfl⟩
    all_goals contradiction
  | malformed h =>
    rw [read_encode, readText, h]
    exact ⟨_, rfl⟩

/-- A file of arrays, each within the one before. -/
def nested (count : Nat) : StoreFile :=
  bytes (Utf8.encode (List.replicate count '[' ++ List.replicate count ']'))

/-- Too many arrays within each other are a fault. -/
theorem read_nested {count : Nat} (h : depth.levels < count) :
    (nested count).read depth = .error (.tooDeep .array) := by
  have hends : '\r' ∉ List.replicate count '[' ++ List.replicate count ']' := by
    rw [List.mem_append, not_or]
    exact ⟨fun hmem => absurd (List.eq_of_mem_replicate hmem) (by decide),
      fun hmem => absurd (List.eq_of_mem_replicate hmem) (by decide)⟩
  rw [nested, read_encode, readText, unifyLineEnds_of_not_mem hends, Json.ofText_brackets h]

theorem Holds.ne_folder {file : StoreFile} {ms : Json.Members} (h : file.Holds depth ms) :
    file ≠ folder := by
  rintro rfl
  contradiction

theorem writable_defaultSettings (n : Nat) :
    Json.Writable (n + 1) (.object Store.defaultSettings) := by
  have hnames : (Json.Members.names Store.defaultSettings).Nodup := by decide
  simp only [Json.Writable]
  refine ⟨hnames, ?_⟩
  simp only [Store.defaultSettings, List.forall_mem_cons, Json.text, Json.Writable]
  exact ⟨⟨unpaired_codePoints _, unpaired_codePoints _⟩, ⟨unpaired_codePoints _, trivial⟩,
    ⟨unpaired_codePoints _, trivial⟩, List.forall_mem_nil _⟩

theorem writable_initial (depth : StoreDepth) :
    Json.Writable depth.levels (.object Store.initial) := by
  obtain ⟨n, hn⟩ := depth.exists_levels
  have hnames : (Json.Members.names Store.initial).Nodup := by decide
  rw [hn, Json.Writable]
  refine ⟨hnames, ?_⟩
  simp only [Store.initial, List.forall_mem_cons]
  refine ⟨⟨unpaired_codePoints _, writable_defaultSettings (n + 1)⟩, ⟨unpaired_codePoints _, ?_⟩,
    List.forall_mem_nil _⟩
  simp only [Json.Writable]
  exact List.forall_mem_nil _

theorem Holds.writable {file : StoreFile} {ms : Json.Members} (h : file.Holds depth ms) :
    Json.Writable depth.levels (.object ms) := by
  cases h with
  | object h he => exact Json.writable_of_ofText h he
  | absent => exact writable_initial depth
  | other _ _ => exact writable_initial depth
  | malformed _ => exact writable_initial depth

/-! ## Writing -/

theorem encodePieces_of_unpaired {ps : List (List CodePoint)} (h : Unpaired ps.flatten) :
    encodePieces ps = (Utf8.encode (chars ps.flatten), none) := by
  induction ps with
  | nil => rfl
  | cons p ps ih =>
    rw [List.flatten_cons, unpaired_append] at h
    rw [encodePieces, Utf8.encode?_of_unpaired h.1, ih h.2, List.flatten_cons, chars_append,
      Utf8.encode_append]

theorem write_of_ne_folder {file : StoreFile} (h : file ≠ folder) (ms : Json.Members) :
    file.write ms = (bytes (encodePieces (Json.pieces .indented 0 (.object ms))).1,
      (encodePieces (Json.pieces .indented 0 (.object ms))).2.map .unencodable) := by
  cases file with
  | folder => contradiction
  | absent => rfl
  | bytes content => rfl

/-- Contents whose strings are texts replace whatever the file holds. -/
theorem write_encodable {file : StoreFile} (hfile : file ≠ folder) {ms : Json.Members}
    (h : Json.Encodable (.object ms)) :
    file.write ms = (bytes (Utf8.encode (Json.valueChars 0 (.object ms))), none) := by
  rw [write_of_ne_folder hfile,
    encodePieces_of_unpaired ((Json.unpaired_pieces_iff .indented 0 _).2 h)]
  rfl

/-- The text that is written for some contents is read as them. -/
theorem ofText_written {ms : Json.Members} (h : Json.Writable depth.levels (.object ms)) :
    Json.ofText depth.levels (unifyLineEnds (Json.valueChars 0 (.object ms))) =
      .ok (.object ms) := by
  have htext : unifyLineEnds (Json.valueChars 0 (.object ms)) = Json.valueChars 0 (.object ms) :=
    unifyLineEnds_of_not_mem (Json.storable_pieces h 0).not_mem_chars
  rw [htext, Json.ofText_valueChars h]

/-- Contents that can be written are what the file then stands for. -/
theorem holds_write {file : StoreFile} {ms : Json.Members} (hfile : file ≠ folder)
    (h : Json.Writable depth.levels (.object ms)) :
    ∃ next, file.write ms = (next, none) ∧ next.Holds depth ms :=
  ⟨_, write_encodable hfile h.encodable, .object (ofText_written h) h.encodable⟩

end StoreFile

end PolySolve
