import PolySolve.Proofs.Store.File
import PolySolve.Store.Access

/-!
# The store as an object in memory

Each use of the store reads the file anew, some of them twice, and a change
writes all of it anew. What the uses give is nevertheless what they would give
with the contents kept in memory all the time, and none of them fails, provided that
the file has contents.

* `Use`, `Use.access`: the uses of the store;
* `Use.answer`, `Use.after`: what they give and change in memory;
* `Leaves`, `Runs`: how a use of a file ends;
* `Use.exists_runs`: one use of a file and of the contents that it stands for;
* `runAll_of_holds`: any number of uses, one after another;
* `runAll_of_fault`: any number of uses of a file that cannot be read.
-/

namespace PolySolve.Store

open Text

/-! ## In memory -/

/-- The members of an object in some contents; anything else counts as an object without any. -/
def objectAt (name : List CodePoint) (contents : Json.Members) : Json.Members :=
  match contents.lookup name with
  | some (.object ms) => ms
  | _ => []

/-- The items of an array in some contents; anything else counts as an array without any. -/
def itemsAt (name : List CodePoint) (contents : Json.Members) : List Json :=
  match contents.lookup name with
  | some (.array items) => items
  | _ => []

/-- One use of the store. -/
inductive Use where
  | settings
  | history
  | saveSettings (changes : Json.Members)
  | addRecord (r : Record)
  | clearHistory

/-- What a use gives. -/
inductive Answer where
  | settings (ms : Json.Members)
  | history (records : List Json)
  | recorded (id : List Char)
  | done

/-- The value of a JSON text with so many containers within each other, whose strings are texts. -/
def IsArgument (levels : Nat) (v : Json) : Prop :=
  (∃ text, Json.ofText levels text = .ok v) ∧ Json.Encodable v

namespace Use

/-- What a use gives if the contents are in memory. -/
def answer : Use → Json.Members → Answer
  | settings, contents => .settings (defaultSettings.override (objectAt settingsName contents))
  | history, contents => .history (itemsAt historyName contents)
  | saveSettings _, _ => .done
  | addRecord r, _ => .recorded r.id
  | clearHistory, _ => .done

/-- The contents in memory after a use. -/
def after : Use → Json.Members → Json.Members
  | settings, contents => contents
  | history, contents => contents
  | saveSettings changes, contents =>
    contents.put settingsName (.object
      ((defaultSettings.override (objectAt settingsName contents)).override
        (changes.filter fun m => m.1 ∈ Json.Members.names defaultSettings)))
  | addRecord r, contents =>
    contents.put historyName (.array ((r.toJson :: itemsAt historyName contents).take 200))
  | clearHistory, contents => contents.put historyName (.array [])

/-- A use of the store in its file. -/
def access (depth : StoreDepth) : Use → StoreAccess Answer
  | settings => return .settings (← Store.settings depth)
  | history => return .history (← Store.history depth)
  | saveSettings changes => do
    Store.saveSettings depth changes
    return .done
  | addRecord r => do
    Store.addRecord depth r
    return .recorded r.id
  | clearHistory => do
    Store.clearHistory depth
    return .done

/-- What is given to a use is the value of a JSON text, and its strings are texts. Within the
containers of the store it is still read. -/
def Admissible (depth : StoreDepth) : Use → Prop
  | saveSettings changes => IsArgument (depth.levels - 1) (.object changes)
  | addRecord r =>
    IsArgument (depth.levels - 3) r.equation ∧ IsArgument (depth.levels - 3) r.answer
  | _ => True

end Use

/-- What uses give one after another if the contents are in memory. -/
def answers : List Use → Json.Members → List Answer
  | [], _ => []
  | u :: us, contents => u.answer contents :: answers us (u.after contents)

/-- The contents in memory after uses one after another. -/
def contentsAfter (us : List Use) (contents : Json.Members) : Json.Members :=
  us.foldl (fun contents u => u.after contents) contents

/-- What uses of a file give one after another, each with the file as the one before left it, and
the file after the last one. -/
def runAll (depth : StoreDepth) :
    List Use → StoreFile → List (Except StoreFault Answer) × StoreFile
  | [], file => ([], file)
  | u :: us, file =>
    let (result, s) := (u.access depth).runOn file
    let (results, last) := runAll depth us s.file
    (result :: results, last)

/-! ## How a use ends -/

/-- A use of a file ends with a result or a fault and leaves another file, whatever was warned of
before. -/
def Leaves (use : StoreAccess α) (file : StoreFile) (result : Except StoreFault α)
    (next : StoreFile) : Prop :=
  ∀ warnings, ∃ later, (ExceptT.run use).run ⟨file, warnings⟩ = (result, ⟨next, later⟩)

section

variable {file mid next : StoreFile} {x : StoreAccess α} {f : α → StoreAccess β}

theorem Leaves.bind {a : α} {result : Except StoreFault β} (hx : Leaves x file (.ok a) mid)
    (hf : Leaves (f a) mid result next) : Leaves (x >>= f) file result next := by
  intro warnings
  obtain ⟨later, hx⟩ := hx warnings
  obtain ⟨last, hf⟩ := hf later
  refine ⟨last, ?_⟩
  rw [ExceptT.run_bind, StateT.run_bind, hx]
  exact hf

theorem Leaves.bind_error {e : StoreFault} (hx : Leaves x file (.error e) next) :
    Leaves (x >>= f) file (.error e) next := by
  intro warnings
  obtain ⟨later, hx⟩ := hx warnings
  refine ⟨later, ?_⟩
  rw [ExceptT.run_bind, StateT.run_bind, hx]
  rfl

theorem Leaves.runOn {result : Except StoreFault α} (h : Leaves x file result next) :
    ∃ later, x.runOn file = (result, ⟨next, later⟩) := h []

/-- A use of a file gives a result and leaves another file, whatever was warned of before. -/
abbrev Runs (use : StoreAccess α) (file : StoreFile) (a : α) (next : StoreFile) : Prop :=
  Leaves use file (.ok a) next

theorem Runs.pure (a : α) (file : StoreFile) : Runs (Pure.pure a) file a file :=
  fun warnings => ⟨warnings, rfl⟩

theorem Runs.map {a : α} (hx : Runs x file a next) (f : α → β) :
    Runs (x >>= fun a => Pure.pure (f a)) file (f a) next :=
  hx.bind (Runs.pure (f a) next)

end

/-! ## Reading and writing -/

section

variable {depth : StoreDepth} {file next : StoreFile} {contents : Json.Members}

theorem run_get_bind {α : Type} (use : StoreState → StoreAccess α) (state : StoreState) :
    (ExceptT.run (get >>= use)).run state = (ExceptT.run (use state)).run state := rfl

theorem run_load (file : StoreFile) (ws : List StoreWarning) :
    (ExceptT.run (load depth)).run ⟨file, ws⟩ =
      ((file.read depth).map Loaded.members, ⟨file, ws ++ file.warnings depth⟩) := by
  unfold load
  rw [run_get_bind, StoreFile.warnings]
  dsimp only
  cases file.read depth with
  | error f =>
    rw [List.append_nil]
    rfl
  | ok loaded => rfl

theorem run_save (contents : Json.Members) (file : StoreFile) (ws : List StoreWarning) :
    (ExceptT.run (save contents)).run ⟨file, ws⟩ =
      ((file.write contents).2.elim (.ok ()) .error, ⟨(file.write contents).1, ws⟩) := by
  unfold save
  rw [run_get_bind]
  dsimp only
  cases (file.write contents).2 <;> rfl

theorem leaves_load (depth : StoreDepth) (file : StoreFile) :
    Leaves (load depth) file ((file.read depth).map Loaded.members) file :=
  fun ws => ⟨_, run_load file ws⟩

theorem runs_load_of_read {loaded : Loaded} (h : file.read depth = .ok loaded) :
    Runs (load depth) file loaded.members file := by
  have hload := leaves_load depth file
  rwa [h] at hload

theorem runs_load (h : file.Holds depth contents) : Runs (load depth) file contents file := by
  obtain ⟨w, hread⟩ := h.read
  exact runs_load_of_read hread

theorem runs_save (h : file.write contents = (next, none)) : Runs (save contents) file () next := by
  intro ws
  rw [run_save, h]
  exact ⟨_, rfl⟩

theorem runs_settings (h : file.Holds depth contents) :
    Runs (settings depth) file (settingsOf contents) file := (runs_load h).map settingsOf

theorem runs_history (h : file.Holds depth contents) :
    Runs (history depth) file (historyOf contents) file := (runs_load h).map historyOf

theorem runs_saveSettings (h : file.Holds depth contents) (changes : Json.Members)
    (hw : file.write (contents.put settingsName
      (.object ((settingsOf contents).override (known changes)))) = (next, none)) :
    Runs (saveSettings depth changes) file () next :=
  (runs_load h).bind ((runs_settings h).bind (runs_save hw))

theorem runs_addRecord (h : file.Holds depth contents) (r : Record)
    (hw : file.write (contents.put historyName (.array (front r.toJson (historyOf contents)))) =
      (next, none)) : Runs (addRecord depth r) file () next :=
  (runs_load h).bind ((runs_history h).bind (runs_save hw))

theorem runs_clearHistory (h : file.Holds depth contents)
    (hw : file.write (contents.put historyName (.array [])) = (next, none)) :
    Runs (clearHistory depth) file () next := (runs_load h).bind (runs_save hw)

end

/-! ## The contents in memory -/

section

variable (contents : Json.Members)

theorem settingsOf_eq :
    settingsOf contents = defaultSettings.override (objectAt settingsName contents) := by
  unfold settingsOf objectAt
  cases contents.lookup settingsName with
  | none => rfl
  | some v => cases v <;> rfl

theorem historyOf_eq : historyOf contents = itemsAt historyName contents := rfl

theorem lookup_isSome_iff {name : List CodePoint} {ms : Json.Members} :
    (ms.lookup name).isSome ↔ name ∈ ms.names := by
  induction ms with
  | nil => exact iff_of_false Bool.false_ne_true List.not_mem_nil
  | cons m ms ih =>
    obtain ⟨n, v⟩ := m
    rw [Json.Members.lookup, Json.Members.names, List.map_cons, List.mem_cons]
    split
    · rename_i h
      exact iff_of_true rfl (Or.inl h.symm)
    · rename_i h
      rw [ih]
      exact ⟨Or.inr, fun hm => hm.resolve_left (Ne.symm h)⟩

theorem known_eq (changes : Json.Members) :
    known changes = changes.filter fun m => m.1 ∈ Json.Members.names defaultSettings := by
  refine List.filter_congr fun m _ => ?_
  rw [Bool.eq_iff_iff, decide_eq_true_iff]
  exact lookup_isSome_iff

variable {contents} {n : Nat}

theorem writable_objectAt (h : Json.Writable (n + 2) (.object contents))
    (name : List CodePoint) :
    ∀ m ∈ objectAt name contents, Unpaired m.1 ∧ Json.Writable n m.2 := by
  unfold objectAt
  split
  · rename_i ms hlookup
    have hobject := (h.2 _ (Json.Members.mem_of_lookup hlookup)).2
    exact hobject.2
  · exact List.forall_mem_nil _

theorem writable_itemsAt (h : Json.Writable (n + 2) (.object contents))
    (name : List CodePoint) : ∀ v ∈ itemsAt name contents, Json.Writable n v := by
  unfold itemsAt
  split
  · rename_i items hlookup
    exact (h.2 _ (Json.Members.mem_of_lookup hlookup)).2
  · exact List.forall_mem_nil _

theorem isArgument_text (n : Nat) (cs : List Char) : IsArgument n (.text cs) := by
  refine Json.writable_iff.1 ?_
  simp only [Json.text, Json.Writable]
  exact unpaired_codePoints cs

theorem writable_record {r : Record} (hequation : Json.Writable n r.equation)
    (hanswer : Json.Writable n r.answer) : Json.Writable (n + 1) r.toJson := by
  have htext (cs : List Char) : Unpaired (codePoints cs) := unpaired_codePoints cs
  simp only [Record.toJson, Json.Writable]
  constructor
  · simp only [List.map_cons, List.map_nil]
    decide
  · simp only [List.forall_mem_cons, Json.text, Json.Writable]
    exact ⟨⟨htext _, htext _⟩, ⟨htext _, hequation⟩, ⟨htext _, hanswer⟩, ⟨htext _, htext _⟩,
      ⟨htext _, trivial⟩, List.forall_mem_nil _⟩

end

/-! ## One use -/

section

variable {depth : StoreDepth} {file : StoreFile} {contents : Json.Members}

/-- The contents after a use can be written if those before can. -/
theorem Use.writable_after {u : Use} (hu : u.Admissible depth)
    (h : Json.Writable depth.levels (.object contents)) :
    Json.Writable depth.levels (.object (u.after contents)) := by
  -- Two containers are spent on what each use builds: the store, and the settings or the history.
  obtain ⟨n, hn⟩ := depth.exists_levels
  rw [hn] at h ⊢
  have hhistory (items : List Json) (hitems : ∀ v ∈ items, Json.Writable (n + 1) v) :
      Json.Writable (n + 3) (.object (contents.put historyName (.array items))) :=
    Json.writable_put h (unpaired_codePoints _) hitems
  cases u with
  | settings => exact h
  | history => exact h
  | saveSettings changes =>
    have hchanges := Json.writable_iff.2 hu
    rw [hn, Nat.add_sub_assoc (by decide)] at hchanges
    have hcurrent := Json.writable_override (StoreFile.writable_defaultSettings (n + 1))
      (writable_objectAt h settingsName)
    exact Json.writable_put h (unpaired_codePoints _)
      (Json.writable_override hcurrent fun m hm => hchanges.2 m (List.mem_of_mem_filter hm))
  | addRecord r =>
    obtain ⟨hequation, hanswer⟩ := hu
    rw [hn, Nat.add_sub_cancel] at hequation hanswer
    have hrecord := writable_record (Json.writable_iff.2 hequation) (Json.writable_iff.2 hanswer)
    refine hhistory _ fun v hv => ?_
    rcases List.mem_cons.1 (List.mem_of_mem_take hv) with rfl | hv
    · exact hrecord
    · exact writable_itemsAt h historyName v hv
  | clearHistory => exact hhistory [] (List.forall_mem_nil _)

/-- A record is put in front of the history of a file that stands for some contents. -/
theorem exists_addRecord {r : Record} (hr : (Use.addRecord r).Admissible depth)
    (h : file.Holds depth contents) :
    ∃ next, Runs (addRecord depth r) file () next ∧
      next.Holds depth ((Use.addRecord r).after contents) := by
  obtain ⟨next, hwrite, hnext⟩ :=
    StoreFile.holds_write h.ne_folder (Use.writable_after hr h.writable)
  rw [Use.after, ← historyOf_eq] at hwrite
  exact ⟨next, runs_addRecord h r hwrite, hnext⟩

/-- A use of a file gives what it gives with the contents in memory, and the file then stands for
the contents in memory after the use. -/
theorem Use.exists_runs {u : Use} (hu : u.Admissible depth) (h : file.Holds depth contents) :
    ∃ next, Runs (u.access depth) file (u.answer contents) next ∧
      next.Holds depth (u.after contents) := by
  -- A use that changes nothing leaves the file as it is, and does not write it.
  obtain ⟨next, hwrite, hnext⟩ := StoreFile.holds_write h.ne_folder (u.writable_after hu h.writable)
  cases u with
  | settings =>
    have hrun := (runs_settings h).map Answer.settings
    rw [settingsOf_eq] at hrun
    exact ⟨file, hrun, h⟩
  | history =>
    have hrun := (runs_history h).map Answer.history
    rw [historyOf_eq] at hrun
    exact ⟨file, hrun, h⟩
  | saveSettings changes =>
    rw [Use.after, ← settingsOf_eq, ← known_eq] at hwrite
    exact ⟨next, (runs_saveSettings h changes hwrite).map fun _ => Answer.done, hnext⟩
  | addRecord r =>
    obtain ⟨next, hrun, hnext⟩ := exists_addRecord hu h
    exact ⟨next, hrun.map fun _ => Answer.recorded r.id, hnext⟩
  | clearHistory => exact ⟨next, (runs_clearHistory h hwrite).map fun _ => Answer.done, hnext⟩

/-- A file that cannot be read makes every use fail, and stays as it is. -/
theorem Use.leaves_of_fault (u : Use) {f : StoreFault} (h : file.read depth = .error f) :
    Leaves (u.access depth) file (.error f) file := by
  have hload := leaves_load depth file
  rw [h] at hload
  -- The load comes first within a step of each use.
  cases u <;> exact hload.bind_error.bind_error

end

/-! ## Any number of uses -/

/-- Uses of a file one after another give what they give with the contents that the file stands for
in memory, and none of them fails. The file after the last one stands for the contents then. -/
theorem runAll_of_holds {depth : StoreDepth} {us : List Use} {file : StoreFile}
    {contents : Json.Members} (hus : ∀ u ∈ us, u.Admissible depth) (h : file.Holds depth contents) :
    (runAll depth us file).1 = (answers us contents).map .ok ∧
      (runAll depth us file).2.Holds depth (contentsAfter us contents) := by
  induction us generalizing file contents with
  | nil => exact ⟨rfl, h⟩
  | cons u us ih =>
    obtain ⟨hu, hus⟩ := List.forall_mem_cons.1 hus
    obtain ⟨next, hruns, hnext⟩ := u.exists_runs hu h
    obtain ⟨later, hrun⟩ := hruns.runOn
    obtain ⟨hanswers, hlast⟩ := ih hus hnext
    rw [runAll, hrun]
    exact ⟨congrArg (.ok (u.answer contents) :: ·) hanswers, hlast⟩

/-- A store with a string for its settings and an object for its history. -/
def looseText : List Char := "\x7b\"settings\": \"loud\", \"history\": \x7b\x7d\x7d".toList

def looseContents : Json.Members :=
  [(settingsName, .text "loud".toList), (historyName, .object [])]

theorem ofText_looseText :
    Json.ofText StoreDepth.usual.levels (unifyLineEnds looseText) =
      .ok (.object looseContents) := by
  cbv

/-- A setting and a name that is none. -/
def someChanges : Json.Members :=
  [(codePoints "save_history".toList, .bool false), (codePoints "unknown".toList, .int 1)]

theorem ofText_someChanges :
    Json.ofText (StoreDepth.usual.levels - 1)
      "\x7b\"save_history\": false, \"unknown\": 1\x7d".toList = .ok (.object someChanges) := by
  cbv

def someRecord : Record where
  id := "0123456789ab".toList
  equation := .text "X = 0".toList
  answer := .text "0".toList
  timestamp := "2024-01-01 00:00:00".toList
  epoch := 0

def someUses : List Use :=
  [.settings, .history, .saveSettings someChanges, .addRecord someRecord, .settings, .history,
    .clearHistory, .history]

theorem encodable_someChanges : Json.Encodable (.object someChanges) := by
  have hwritable : Json.Writable 1 (.object someChanges) := by
    have hnames : (Json.Members.names someChanges).Nodup := by decide
    simp only [Json.Writable]
    refine ⟨hnames, ?_⟩
    simp only [someChanges, List.forall_mem_cons, Json.Writable]
    exact ⟨⟨unpaired_codePoints _, trivial⟩, ⟨unpaired_codePoints _, by decide⟩,
      List.forall_mem_nil _⟩
  exact hwritable.encodable

theorem encodable_looseContents : Json.Encodable (.object looseContents) := by
  have hwritable : Json.Writable 2 (.object looseContents) := by
    have hnames : (Json.Members.names looseContents).Nodup := by decide
    rw [Json.Writable]
    refine ⟨hnames, ?_⟩
    simp only [looseContents, List.forall_mem_cons, Json.text, Json.Writable]
    exact ⟨⟨unpaired_codePoints _, unpaired_codePoints _⟩, ⟨unpaired_codePoints _, List.nodup_nil,
      List.forall_mem_nil _⟩, List.forall_mem_nil _⟩
  exact hwritable.encodable

theorem runAll_of_someUses :
    (∀ u ∈ someUses, u.Admissible .usual) ∧
      (StoreFile.bytes (Utf8.encode looseText)).Holds .usual looseContents ∧
      (runAll .usual someUses (.bytes (Utf8.encode looseText))).1 = [
        .ok (.settings defaultSettings), .ok (.history []), .ok .done,
        .ok (.recorded "0123456789ab".toList),
        .ok (.settings [(codePoints "log_level".toList, .text "WARNING".toList),
          (codePoints "save_history".toList, .bool false),
          (codePoints "plot_window".toList, .float 5)]),
        .ok (.history [someRecord.toJson]), .ok .done, .ok (.history [])] := by
  have hsave : (Use.saveSettings someChanges).Admissible .usual :=
    ⟨⟨_, ofText_someChanges⟩, encodable_someChanges⟩
  have hrecord : (Use.addRecord someRecord).Admissible .usual :=
    ⟨isArgument_text _ _, isArgument_text _ _⟩
  have huses : ∀ u ∈ someUses, u.Admissible .usual := by
    simp only [someUses, List.forall_mem_cons]
    exact ⟨trivial, trivial, hsave, hrecord, trivial, trivial, trivial, trivial,
      List.forall_mem_nil _⟩
  have hfile : (StoreFile.bytes (Utf8.encode looseText)).Holds .usual looseContents :=
    .object ofText_looseText encodable_looseContents
  exact ⟨huses, hfile, (runAll_of_holds huses hfile).1⟩

/-- Uses of a file that cannot be read fail one after another, and the file stays as it is. -/
theorem runAll_of_fault {depth : StoreDepth} {file : StoreFile} {f : StoreFault}
    (h : file.read depth = .error f) (us : List Use) :
    runAll depth us file = (us.map fun _ => .error f, file) := by
  induction us with
  | nil => rfl
  | cons u us ih =>
    obtain ⟨later, hrun⟩ := (u.leaves_of_fault h).runOn
    rw [runAll, hrun]
    dsimp only
    rw [ih, List.map_cons]

/-- Three thousand arrays within each other are more than are read. -/
theorem runAll_nestedFile :
    runAll .usual [.settings, .history] (.nested 3000) =
      ([.error (.tooDeep .array), .error (.tooDeep .array)], .nested 3000) :=
  runAll_of_fault (StoreFile.read_nested (by decide)) _

end PolySolve.Store
