import PolySolve.Proofs.CommandLine.Runs
import PolySolve.Proofs.Equation.FormReading
import PolySolve.Proofs.Solution.Overflow
import PolySolve.Proofs.Text.Uppercase

/-!
# Equations with a dash in front

An equation can start with a minus sign, and an argument that starts with a dash can be an option.
An equation is never an option of this program, nor is it a negative number, so what it is taken
for depends on a space alone: with one it is a value, and is solved; without one it is refused as an
option that is not known. After two dashes each equation is a value.

* `wellFormed_leftSide`: what stands before the equals sign of an equation that has a report;
* `ofArgument_of_dash`: such an equation is no option of this program;
* `read_of_dash`: what it is read as;
* `Prints`: a run that prints a report;
* `solved_unless_dashed`: which equations are solved when they are given as an argument.
-/

namespace PolySolve.CommandLine

open Equation Text

/-! ## The left side -/

/-- What stands before the first equals sign. -/
def leftSide (t : List Char) : List Char := t.takeWhile (· != '=')

section

variable {t : List Char} {r : Report}

theorem sides_of_report (h : Report.ofEquation t = .ok r) :
    ∃ left right, Sides t left right ∧ WellFormed left := by
  cases hp : Equation.polynomial t with
  | error e =>
    rw [Report.ofEquation_eq_error hp] at h
    contradiction
  | ok p =>
    cases polynomial_eq_iff_verdict.1 hp with
    | read hs hleft => exact ⟨_, _, hs, hleft.wellFormed⟩

/-- The left side is well formed once it is in upper case. -/
theorem wellFormed_leftSide (h : Report.ofEquation (upper t) = .ok r) :
    '=' ∈ t ∧ WellFormed (upper (leftSide t)) := by
  obtain ⟨left, right, ⟨htext, hleft, -⟩, hw⟩ := sides_of_report h
  refine ⟨mem_of_mem_upper ?_, ?_⟩
  · rw [htext]
    exact List.mem_append_right _ List.mem_cons_self
  · have hnone : ∀ c ∈ left, (c != '=') = true := fun c hc =>
      bne_iff_ne.2 fun heq => hleft (heq ▸ hc)
    have htake : (upper t).takeWhile (· != '=') = left := by
      rw [htext]
      exact (dropWhile_append_of_stops hnone (stops_cons (by decide) right)).2
    rwa [leftSide, ← takeWhile_upper, htake]

/-- Letters other than `x` have no place in a left side. -/
theorem not_mem_leftSide (h : Report.ofEquation (upper t) = .ok r) {c : Char}
    (hc : ∃ d ∈ upperChar c, ¬ IsWrittenChar d) : c ∉ leftSide t := by
  intro hmem
  obtain ⟨d, hd, hnot⟩ := hc
  exact hnot (isWrittenChar_of_wellFormed (wellFormed_leftSide h).2 d
    (List.mem_flatMap.2 ⟨c, hmem, hd⟩))

theorem not_wellFormed_dashes : ¬ WellFormed "--".toList := by
  rintro (hz | ⟨s, hs⟩)
  · revert hz
    decide
  · have hletter := s.letterChar_mem
    rw [hs] at hletter
    revert hletter
    cases s.first.capital <;> decide

theorem leftSide_ne (h : Report.ofEquation (upper t) = .ok r) : leftSide t ≠ "--".toList := by
  intro heq
  have hw := (wellFormed_leftSide h).2
  rw [heq] at hw
  exact not_wellFormed_dashes hw

end

/-! ## What the argument is taken for -/

theorem not_mem_of_isNegativeNumber {cs : List Char} (h : isNegativeNumber cs) : '=' ∉ cs := by
  have digits (ds : List Char) : '=' ∉ ds.takeWhile isDigit := fun hmem =>
    absurd (List.all_eq_true.1 List.all_takeWhile _ hmem) (by decide)
  have whole {ds : List Char} (hlast : '=' ∉ ds.dropWhile isDigit) : '=' ∉ ds := by
    rw [← List.takeWhile_append_dropWhile (p := isDigit) (l := ds), List.mem_append, not_or]
    exact ⟨digits ds, hlast⟩
  have ends {ds : List Char} (hends : ds.dropWhile isDigit ∈ ["".toList, "\n".toList]) :
      '=' ∉ ds := by
    refine whole fun hmem => ?_
    rcases List.mem_pair.1 hends with heq | heq <;> rw [heq] at hmem <;> revert hmem <;> decide
  unfold isNegativeNumber at h
  split at h
  · rename_i r
    dsimp only at h
    refine List.not_mem_cons_of_ne_of_not_mem (by decide) ?_
    split at h
    · rename_i rest hpoint
      rw [Bool.and_eq_true, List.contains_iff_mem] at h
      refine whole ?_
      rw [hpoint]
      exact List.not_mem_cons_of_ne_of_not_mem (by decide) (ends h.2)
    · rw [Bool.and_eq_true, List.contains_iff_mem] at h
      exact ends h.2
  · contradiction

/-- Two dashes and a name are no option of this program if another letter than its own comes after
the dashes. -/
theorem not_isPrefixOf_dashes {name option : List Char} {c : Char} (hname : name ≠ [])
    (hc : c ∉ name) : ('-' :: '-' :: name).isPrefixOf ('-' :: '-' :: c :: option) = false := by
  obtain ⟨d, ds, rfl⟩ := List.exists_cons_of_ne_nil hname
  have hne : (d == c) = false := beq_eq_false_iff_ne.2 fun heq => hc (heq ▸ List.mem_cons_self)
  simp [List.isPrefixOf, hne]

section

variable {rest : List Char} {r : Report}

/-- An equation that starts with a dash is no option of this program. -/
theorem ofArgument_of_dash (h : Report.ofEquation (upper ('-' :: rest)) = .ok r) :
    Item.ofArgument ('-' :: rest) = .ok (.ofOther ('-' :: rest)) := by
  have hequals := (wellFormed_leftSide h).1
  have hh : 'h' ∉ leftSide ('-' :: rest) := not_mem_leftSide h ⟨'H', by decide, by decide⟩
  have hp : 'p' ∉ leftSide ('-' :: rest) := not_mem_leftSide h ⟨'P', by decide, by decide⟩
  have hdashes := leftSide_ne h
  obtain ⟨c, cs, rfl⟩ : ∃ c cs, rest = c :: cs := by
    refine List.exists_cons_of_ne_nil fun hnil => ?_
    rw [hnil] at hequals
    revert hequals
    decide
  by_cases hc : c = '-'
  · subst hc
    have hleft : leftSide ('-' :: '-' :: cs) = '-' :: '-' :: leftSide cs := rfl
    rw [hleft] at hh hp hdashes
    have hname : leftSide cs ≠ [] := fun hnil => hdashes (by rw [hnil]; rfl)
    have hhelp : ('-' :: '-' :: leftSide cs).isPrefixOf "--help".toList = false :=
      not_isPrefixOf_dashes hname fun hmem =>
        hh (List.mem_cons_of_mem _ (List.mem_cons_of_mem _ hmem))
    have hplot : ('-' :: '-' :: leftSide cs).isPrefixOf "--plot".toList = false :=
      not_isPrefixOf_dashes hname fun hmem =>
        hp (List.mem_cons_of_mem _ (List.mem_cons_of_mem _ hmem))
    rw [← hleft] at hhelp hplot
    unfold leftSide at hhelp hplot
    simp only [Item.ofArgument, hhelp, hplot]
  · have hother : c ≠ 'h' := by
      rintro rfl
      exact hh (List.mem_cons_of_mem _ List.mem_cons_self)
    unfold Item.ofArgument
    split <;> simp_all

/-- An equation that starts with a dash is a value if it has a space in it, and otherwise it is
refused as an option that is not known. -/
theorem read_of_dash (h : Report.ofEquation (upper ('-' :: rest)) = .ok r) :
    read ['-' :: rest] =
      if ' ' ∈ rest then .ok (.solve (some ('-' :: rest)) none)
      else .error (.unrecognized ['-' :: rest]) := by
  have hequals := (wellFormed_leftSide h).1
  have hnumber : isNegativeNumber ('-' :: rest) = false :=
    Bool.eq_false_iff.2 fun hnumber => not_mem_of_isNegativeNumber hnumber hequals
  have hseparator : '-' :: rest ≠ "--".toList := by
    intro heq
    rw [heq] at hequals
    revert hequals
    decide
  have hitems : items ['-' :: rest] = .ok [.ofOther ('-' :: rest)] := by
    rw [items, if_neg hseparator, ofArgument_of_dash h]
    rfl
  have hother : Item.ofOther ('-' :: rest) =
      if ' ' ∈ rest then .value ('-' :: rest) else .unknown ('-' :: rest) := by
    simp [Item.ofOther, hnumber]
  rw [read, hitems, hother]
  split <;> rfl

/-- After two dashes any argument is a value. -/
theorem read_after_dashes (t : List Char) :
    read ["--".toList, t] = .ok (.solve (some t) none) := rfl

end

/-! ## Runs -/

/-- A run prints the lines of a report and ends with success. -/
structure Prints (r : Report) (done : Except RunFault Nat × Session) : Prop where
  exit : done.1 = .ok 0
  output : done.2.output = r.lines.flatMap (· ++ ['\n'])

/-- Arguments that cannot be read end a run before the store is looked at. -/
theorem runOn_of_usageError {arguments : List (List Char)} {e : UsageError}
    (h : read arguments = .error e) (depth : StoreDepth) (s : Surroundings) (input : List Char)
    (file : StoreFile) :
    runOn depth s arguments input file = (.ok 2, ⟨file, [], e.report, none⟩) := by
  have hbegin :
      Ends (begin depth s arguments) (.start file) (.ok (.inl 2)) ⟨file, [], e.report, none⟩ := by
    unfold begin
    rw [h]
    exact (ends_printError e.report (.start file)).bind (ends_pure _ _)
  exact hbegin.bind (ends_pure 2 _)

section

variable {depth : StoreDepth} {file : StoreFile} {contents : Json.Members} {t : List Char}
  {r : Report}

theorem prints_of_read {arguments : List (List Char)}
    (hread : read arguments = .ok (.solve (some t) none)) (hfile : file.Holds depth contents)
    (h : Report.ofEquation (upper t) = .ok r) (s : Surroundings) (input : List Char) :
    Prints r (runOn depth s arguments input file) := by
  obtain ⟨log, hbegin⟩ := ends_begin (s := s) hread hfile
  obtain ⟨next, hkept, -⟩ := Store.exists_addRecord (admissible_recordOf depth s t r) hfile
  let task : Task := ⟨Store.settingsOf contents, some t, none⟩
  let session : Session := ⟨file, [], log, none⟩
  obtain ⟨last, hlast⟩ : ∃ last, if Store.keepsHistory task.settings then
      Store.Runs (Store.addRecord depth (recordOf s t r)) session.store () last
      else last = session.store := by
    split
    · exact ⟨next, hkept⟩
    · exact ⟨file, rfl⟩
  have hplot : task.file = none := rfl
  obtain ⟨later, hsolve⟩ := ends_solve_solved (s := s) h hplot session hlast
  have hrun : runOn depth s arguments input file = _ := hbegin.bind hsolve
  rw [hrun]
  exact ⟨rfl, rfl⟩

/-- An argument with a dash in front and no space. -/
def IsDashed (t : List Char) : Prop := t.head? = some '-' ∧ ' ' ∉ t

/-- An equation that has a report is solved when it is the only argument, unless it has a dash in
front and no space: then it is refused as an option that is not known, and the store is not looked
at. After two dashes it is solved in any case. -/
theorem solved_unless_dashed (hfile : file.Holds depth contents)
    (h : Report.ofEquation (upper t) = .ok r) (s : Surroundings) (input : List Char) :
    (¬ IsDashed t → Prints r (runOn depth s [t] input file)) ∧
      (IsDashed t → runOn depth s [t] input file =
        (.ok 2, ⟨file, [], (UsageError.unrecognized [t]).report, none⟩)) ∧
      Prints r (runOn depth s ["--".toList, t] input file) := by
  refine ⟨fun hdashed => ?_, fun hdashed => ?_,
    prints_of_read (read_after_dashes t) hfile h s input⟩
  · refine prints_of_read ?_ hfile h s input
    by_cases hdash : ∃ rest, t = '-' :: rest
    · obtain ⟨rest, rfl⟩ := hdash
      have hspace : ' ' ∈ rest := by
        by_contra hspace
        exact hdashed ⟨rfl, List.not_mem_cons_of_ne_of_not_mem (by decide) hspace⟩
      rw [read_of_dash h, if_pos hspace]
    · exact read_value fun rest hrest => hdash ⟨rest, hrest⟩
  · obtain ⟨hhead, hspace⟩ := hdashed
    obtain ⟨rest, rfl⟩ := List.head?_eq_some_iff.1 hhead
    refine runOn_of_usageError ?_ depth s input file
    rw [read_of_dash h, if_neg fun hmem => hspace (List.mem_cons_of_mem _ hmem)]

end

/-- The report on `- x^1=0`, which starts with a dash and has a space in it, is printed. -/
theorem solved_spacedDash :
    StoreFile.absent.Holds .usual Store.initial ∧
      ∃ r, Report.ofEquation (upper "- x^1=0".toList) = .ok r ∧ ¬ IsDashed "- x^1=0".toList ∧
        Prints r (runOn .usual someSurroundings ["- x^1=0".toList] [] .absent) := by
  have hsolved : (Report.ofEquation (upper "- x^1=0".toList)).isOk := by decide +kernel
  cases h : Report.ofEquation (upper "- x^1=0".toList) with
  | error f =>
    rw [h] at hsolved
    contradiction
  | ok r =>
    have hspace : ¬ IsDashed "- x^1=0".toList := fun hdashed => hdashed.2 (by decide)
    exact ⟨.absent, r, rfl, hspace, (solved_unless_dashed .absent h someSurroundings []).1 hspace⟩

/-- The equation `-x^1=0` has a report, and is refused as an argument. -/
theorem refused_dashedEquation :
    (∃ r, Report.ofEquation (upper "-x^1=0".toList) = .ok r) ∧
      runOn .usual someSurroundings ["-x^1=0".toList] [] .absent =
        (.ok 2, ⟨.absent, [], (UsageError.unrecognized ["-x^1=0".toList]).report, none⟩) := by
  have hsolved : (Report.ofEquation (upper "-x^1=0".toList)).isOk := by decide +kernel
  have hread : read ["-x^1=0".toList] = .error (.unrecognized ["-x^1=0".toList]) := by decide
  refine ⟨?_, runOn_of_usageError hread .usual someSurroundings [] .absent⟩
  cases h : Report.ofEquation (upper "-x^1=0".toList) with
  | error f =>
    rw [h] at hsolved
    contradiction
  | ok r => exact ⟨r, rfl⟩

end PolySolve.CommandLine
