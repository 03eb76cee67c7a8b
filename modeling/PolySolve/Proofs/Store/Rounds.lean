import PolySolve.Proofs.Store.Readers

/-!
# Saving what was loaded

The contents that are loaded from a file are the same after they are saved: the
names in their order, integers, floating-point numbers to the bit, and strings.
The text is another one, as a rule, but only the first time. What is written is
told by the contents, so all later rounds leave every byte in its place.

* `writable_of_read`: contents that were loaded can be saved;
* `round`, `rounds`: loading and saving, any number of times;
* `rounds_agree`: what is in the file after that.
-/

namespace PolySolve

open Text

namespace StoreFile

variable {depth : StoreDepth} {file : StoreFile}

theorem writable_of_read {loaded : Loaded} (h : file.read depth = .ok loaded)
    (hstrings : Json.Encodable (.object loaded.members)) :
    Json.Writable depth.levels (.object loaded.members) := by
  rcases eq_initial_or_hasObject h with hinitial | ⟨text, -, htext⟩
  · rw [hinitial]
    exact writable_initial depth
  · exact Json.writable_of_ofText htext hstrings

/-- The file after some contents are saved. -/
def holding (ms : Json.Members) : StoreFile :=
  bytes (Utf8.encode (Json.valueChars 0 (.object ms)))

theorem hasObject_holding {ms : Json.Members} (h : Json.Writable depth.levels (.object ms)) :
    (holding ms).HasObject depth ms := ⟨_, rfl, ofText_written h⟩

end StoreFile

namespace Store

/-- Load the contents and save them. -/
def round (depth : StoreDepth) : StoreAccess Unit := do save (← load depth)

def rounds (depth : StoreDepth) : Nat → StoreAccess Unit
  | 0 => return
  | n + 1 => do
    round depth
    rounds depth n

variable {depth : StoreDepth} {file : StoreFile}

/-- One round, from any file with the contents. -/
theorem runs_round {loaded : Loaded} (hfile : file ≠ .folder) (h : file.read depth = .ok loaded)
    (hstrings : Json.Encodable (.object loaded.members)) :
    Runs (round depth) file () (.holding loaded.members) :=
  (runs_load_of_read h).bind (runs_save (StoreFile.write_encodable hfile hstrings))

/-- Further rounds change nothing. -/
theorem runs_rounds_holding {ms : Json.Members} (h : Json.Writable depth.levels (.object ms))
    (n : Nat) : Runs (rounds depth n) (.holding ms) () (.holding ms) := by
  induction n with
  | zero => exact Runs.pure () _
  | succ n ih =>
    have hread := StoreFile.read_of_hasObject (StoreFile.hasObject_holding h)
    exact (runs_round StoreFile.noConfusion hread h.encodable).bind ih

theorem runs_rounds {loaded : Loaded} (hfile : file ≠ .folder) (h : file.read depth = .ok loaded)
    (hstrings : Json.Encodable (.object loaded.members)) (n : Nat) :
    Runs (rounds depth (n + 1)) file () (.holding loaded.members) :=
  (runs_round hfile h hstrings).bind
    (runs_rounds_holding (StoreFile.writable_of_read h hstrings) n)

/-- If the contents that are loaded from a file have no half of a surrogate pair in a string, saving
them succeeds, and then the same contents are loaded and saved as the same bytes. The file after the
first round of loading and saving is the file after any number of them. -/
theorem rounds_agree {loaded : Loaded} (hfile : file ≠ .folder) (h : file.read depth = .ok loaded)
    (hstrings : Json.Encodable (.object loaded.members)) :
    ∃ next, (save loaded.members).runOn file = (.ok (), ⟨next, []⟩) ∧
      (load depth).runOn next = (.ok loaded.members, ⟨next, []⟩) ∧
      (save loaded.members).runOn next = (.ok (), ⟨next, []⟩) ∧
      ∀ n, ∃ warnings, (rounds depth (n + 1)).runOn file = (.ok (), ⟨next, warnings⟩) := by
  have hwritable := StoreFile.writable_of_read h hstrings
  have hread := StoreFile.read_of_hasObject (StoreFile.hasObject_holding hwritable)
  have hsave {other : StoreFile} (hother : other ≠ .folder) :
      (save loaded.members).runOn other = (.ok (), ⟨.holding loaded.members, []⟩) := by
    rw [StoreAccess.runOn, run_save, StoreFile.write_encodable hother hstrings]
    rfl
  have hload : (load depth).runOn (.holding loaded.members) =
      (.ok loaded.members, ⟨.holding loaded.members, []⟩) := by
    rw [StoreAccess.runOn, run_load, StoreFile.warnings, hread]
    rfl
  exact ⟨_, hsave hfile, hload, hsave StoreFile.noConfusion,
    fun n => (runs_rounds hfile h hstrings n).runOn⟩

/-- An object with a name that comes twice, and with numbers that are easily changed. -/
def mixedText : List Char :=
  "\x7b\"b\": 0, \"a\": [-0.0, NaN, 1e400, \"\\u00e9\"], \"b\": 20000000000000000000\x7d".toList

def mixedContents : Json.Members :=
  [(codePoints ['b'], .int 20000000000000000000),
    (codePoints ['a'], .array [.float (-.zero), .float .nan, .float (.infinite false),
      .text ['é']])]

theorem ofText_mixedText :
    Json.ofText StoreDepth.usual.levels (unifyLineEnds mixedText) =
      .ok (.object mixedContents) := by
  cbv

theorem encodable_mixedContents : Json.Encodable (.object mixedContents) := by
  simp only [mixedContents, Json.encodable_object_iff, Json.encodable_array_iff,
    List.forall_mem_cons, Json.text, Json.encodable_string_iff]
  exact ⟨⟨unpaired_codePoints _, Json.encodable_int _⟩, ⟨unpaired_codePoints _,
    Json.encodable_float _, Json.encodable_float _, Json.encodable_float _, unpaired_codePoints _,
    List.forall_mem_nil _⟩, List.forall_mem_nil _⟩

theorem rounds_agree_mixedText :
    ∃ next, (save mixedContents).runOn (.bytes (Utf8.encode mixedText)) = (.ok (), ⟨next, []⟩) ∧
      (load .usual).runOn next = (.ok mixedContents, ⟨next, []⟩) ∧
      (save mixedContents).runOn next = (.ok (), ⟨next, []⟩) ∧
      ∀ n, ∃ warnings, (rounds .usual (n + 1)).runOn (.bytes (Utf8.encode mixedText)) =
        (.ok (), ⟨next, warnings⟩) := by
  have hfile : StoreFile.bytes (Utf8.encode mixedText) ≠ .folder := StoreFile.noConfusion
  have hread :
      (StoreFile.bytes (Utf8.encode mixedText)).read .usual = .ok ⟨mixedContents, none⟩ :=
    StoreFile.read_of_hasObject ⟨mixedText, rfl, ofText_mixedText⟩
  obtain ⟨next, hsaved, hloaded, hsame, hrounds⟩ :=
    rounds_agree hfile hread encodable_mixedContents
  exact ⟨next, hsaved, hloaded, hsame, hrounds⟩

end Store

end PolySolve
