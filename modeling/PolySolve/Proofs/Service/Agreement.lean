import PolySolve.Proofs.CommandLine.Runs
import PolySolve.Proofs.Equation.Margins
import PolySolve.Proofs.Text.Uppercase
import PolySolve.Proofs.Text.Utf8
import PolySolve.Service

/-!
# The service and the command line

The service solves a text without the blanks around it, a run on the command
line solves the text as it is. As blanks around an equation do not matter, the
service has a report exactly if the run ends with success, and a reason or a
fault exactly if the run has the same.

* `equationText_normalized`: what the service solves;
* `Answer.ofReport`: what it replies;
* `Agrees`: an answer and a run that tell the same;
* `agrees_with_runOn`: the service agrees with the command line.
-/

namespace PolySolve.Service

open Text CommandLine

/-! ## The equation that is solved -/

theorem isBlankPoint_eq (p : CodePoint) : isBlankPoint p = isBlank (Encoding.character p) := by
  unfold isBlankPoint Encoding.character
  cases p.toChar? with
  | none => decide
  | some c => rfl

theorem equationText_codePoints (cs : List Char) : equationText (codePoints cs) = cs := by
  have hid : (fun c => (CodePoint.ofChar c).toChar?.getD '\uFFFD') = id := by
    funext c
    rw [CodePoint.toChar?_ofChar]
    rfl
  rw [equationText, codePoints, List.map_map]
  exact (congrArg (List.map · cs) hid).trans (List.map_id cs)

theorem equationText_upperPoint (p : CodePoint) :
    equationText (upperPoint p) = upperChar (Encoding.character p) := by
  unfold upperPoint Encoding.character
  cases h : p.toChar? with
  | none =>
    have hself : upperChar '\uFFFD' = ['\uFFFD'] := by decide
    simp only [equationText, List.map_cons, List.map_nil, h, Option.getD_none, hself]
  | some c => exact equationText_codePoints (upperChar c)

theorem dropWhile_equationText (ps : List CodePoint) :
    (equationText ps).dropWhile isBlank = equationText (ps.dropWhile isBlankPoint) := by
  have hblank : isBlank ∘ Encoding.character = isBlankPoint :=
    funext fun p => (isBlankPoint_eq p).symm
  rw [← hblank]
  exact List.dropWhile_map

theorem reverse_equationText (ps : List CodePoint) :
    (equationText ps).reverse = equationText ps.reverse :=
  List.map_reverse.symm

theorem upper_equationText (ps : List CodePoint) :
    upper (equationText ps) = equationText (ps.flatMap upperPoint) := by
  unfold equationText upper
  rw [List.flatMap_map, List.map_flatMap]
  exact congrArg (ps.flatMap ·) (funext fun p => (equationText_upperPoint p).symm)

/-- The service solves a text in upper case and without the blanks around it. -/
theorem equationText_normalized (ps : List CodePoint) :
    equationText (normalized ps) = upper (trim (equationText ps)) := by
  rw [normalized, ← upper_equationText, trim, trimEnd, trimStart, dropWhile_equationText,
    reverse_equationText, dropWhile_equationText, reverse_equationText]

theorem normalized_ne_nil {ps : List CodePoint} (h : ¬ ∀ c ∈ equationText ps, isBlank c) :
    normalized ps ≠ [] := by
  intro hnil
  have hupper : upper (trim (equationText ps)) = [] := by
    rw [← equationText_normalized, hnil]
    rfl
  refine h (trim_eq_nil_iff.1 (List.eq_nil_iff_forall_not_mem.2 fun c hc => ?_))
  exact upperChar_ne_nil c (List.flatMap_eq_nil_iff.1 hupper c hc)

/-! ## Answers -/

/-- A body without bytes has no value. -/
theorem ne_nil_of_bodyValue {n : Nat} {body : List UInt8} {v : Json}
    (h : bodyValue n body = .ok v) :
    body ≠ [] := by
  rintro rfl
  have hutf8 : Utf8.decode [] = .ok [] := Utf8.decode_encode []
  have hdecode : (Encoding.detect []).decode [] = some [] := by
    have hdetect : Encoding.detect [] = .utf8 := rfl
    simp only [hdetect, Encoding.decode, hutf8]
  rw [bodyValue, hdecode] at h
  contradiction

/-- A body that holds a text as its equation, if at most `n` containers within each other are
read. -/
def Holds (n : Nat) (body : List UInt8) (ps : List CodePoint) : Prop :=
  ∃ ms : Json.Members, bodyValue n body = .ok (.object ms) ∧
    ms.lookup equationName = some (.string ps)

theorem reply_of_holds {n : Nat} {body : List UInt8} {ps : List CodePoint} (h : Holds n body ps) :
    reply n body = .ok (solve ps) := by
  obtain ⟨ms, hbody, hequation⟩ := h
  rw [reply, if_neg (ne_nil_of_bodyValue hbody), hbody]
  dsimp only
  rw [equationOf_object hequation]

/-- The answer that tells what an equation comes to. -/
def Answer.ofReport : Except Fault Report → Answer
  | .ok r => .solved r
  | .error (.equation e) => .rejected e
  | .error f => .failed f

theorem answer_solve {ps : List CodePoint} (h : ¬ ∀ c ∈ equationText ps, isBlank c) :
    (solve ps).answer = .ofReport (Report.ofEquation (upper (trim (equationText ps)))) := by
  unfold solve
  dsimp only
  rw [if_neg (normalized_ne_nil h), equationText_normalized]
  cases Report.ofEquation (upper (trim (equationText ps))) with
  | ok r => rfl
  | error f => cases f <;> rfl

/-- An answer tells what a run does. -/
structure Agrees (answer : Answer) (done : Except RunFault Nat × Session) : Prop where
  solved_iff : answer.status = 200 ↔ done.1 = .ok 0
  output : ∀ r, answer = .solved r → done.2.output = r.lines.flatMap (· ++ ['\n'])
  /-- The message that is printed, after what is logged, is the reason in the answer. -/
  rejected_iff : ∃ log, ∀ message, answer.status = 400 ∧ answer.detail = message ↔
    done.1 = .ok 1 ∧ done.2.errors = log ++ ("Error: ".toList ++ message ++ ['\n'])
  failed_iff : answer.status = 500 ↔ ∃ f, done.1 = .error f
  fault_iff : ∀ f, answer = .failed f ↔ done.1 = .error (.solving f)
  fault_ne : ∀ e, answer ≠ .failed (.equation e)

section

variable {done : Except RunFault Nat × Session}

theorem agrees_solved {r : Report} (hexit : done.1 = .ok 0)
    (houtput : done.2.output = r.lines.flatMap (· ++ ['\n'])) : Agrees (.solved r) done where
  solved_iff := by simp [Answer.status, hexit]
  output r' hr' := by
    obtain rfl := Answer.solved.inj hr'
    exact houtput
  rejected_iff := ⟨[], by simp [Answer.status, hexit]⟩
  failed_iff := by simp [Answer.status, hexit]
  fault_iff := by simp [hexit]
  fault_ne := by simp

theorem agrees_rejected {e : EquationError} {log : List Char} (hexit : done.1 = .ok 1)
    (herrors : done.2.errors = log ++ ("Error: ".toList ++ e.message ++ ['\n'])) :
    Agrees (.rejected e) done where
  solved_iff := by simp [Answer.status, hexit]
  output := by simp
  rejected_iff := by
    refine ⟨log, fun message => ⟨?_, ?_⟩⟩
    · rintro ⟨-, rfl⟩
      exact ⟨hexit, herrors⟩
    · rintro ⟨-, hlast⟩
      have hline := List.append_cancel_left (herrors.symm.trans hlast)
      exact ⟨rfl, List.append_cancel_left (List.append_cancel_right hline)⟩
  failed_iff := by simp [Answer.status, hexit]
  fault_iff := by simp [hexit]
  fault_ne := by simp

theorem agrees_failed {f : Fault} (hf : ∀ e, f ≠ .equation e)
    (hexit : done.1 = .error (.solving f)) : Agrees (.failed f) done where
  solved_iff := by simp [Answer.status, hexit]
  output := by simp
  rejected_iff := ⟨[], by simp [Answer.status, hexit]⟩
  failed_iff := by simp [Answer.status, hexit]
  fault_iff := by simp [hexit]
  fault_ne e he := hf e (Answer.failed.inj he)

/-- A run agrees with an answer that tells the same up to the equation that is named. -/
theorem agrees_of_sameReport {depth : StoreDepth} {c : Call} {file : StoreFile}
    {contents : Json.Members} (hran : c.Ran depth file contents done) (hasked : c.asked = [])
    {result : Except Fault Report} (h : Report.SameReport c.report result) :
    Agrees (.ofReport result) done := by
  obtain ⟨hexit, houtput, hmessage, -, -, -⟩ := hran
  unfold Call.exit at hexit
  unfold Call.output at houtput
  rw [hasked] at houtput
  generalize c.report = report at *
  cases h with
  | solved r equation => exact agrees_solved hexit houtput
  | @rejected e f hclass =>
    obtain ⟨log, herrors⟩ := hmessage e rfl
    rw [← EquationError.message_eq hclass] at herrors
    exact agrees_rejected hexit herrors
  | @failed f hf =>
    cases f with
    | equation e => exact absurd rfl (hf e)
    | _ => exact agrees_failed hf hexit

end

/-- Whatever the text is, the service tells what a run with the text does: it replies with the
lines that the run prints, with the reason for which the run fails, or with the fault that ends the
run. What the text comes to does not depend on the blanks around it. -/
theorem agrees_with_runOn (s : Surroundings) (ps : List CodePoint) (input : List Char)
    {depth : StoreDepth} {file : StoreFile} {contents : Json.Members}
    (hfile : file.Holds depth contents) (hblank : ¬ ∀ c ∈ equationText ps, isBlank c)
    (hdash : ∀ rest, equationText ps ≠ '-' :: rest) :
    (∀ n body, Holds n body ps → reply n body = .ok (solve ps)) ∧
      Agrees (solve ps).answer (runOn depth s [equationText ps] input file) ∧
      Report.SameReport (Report.ofEquation (upper (equationText ps)))
        (Report.ofEquation (upper (trim (equationText ps)))) := by
  have hsame := Report.sameReport_trim (upper (equationText ps))
  rw [trim_upper] at hsame
  rw [answer_solve hblank]
  have hran := (Call.given s (equationText ps) input hdash).ran hfile
  exact ⟨fun _ _ => reply_of_holds, agrees_of_sameReport hran rfl hsame, hsame⟩

/-- The equation `x^1=0` between blanks. -/
def spacedEquation : List CodePoint := codePoints [' ', 'x', '^', '1', '=', '0', '\t']

/-- The service and a run both solve an equation between blanks. -/
theorem agrees_spacedEquation :
    StoreFile.absent.Holds .usual Store.initial ∧ (¬ ∀ c ∈ equationText spacedEquation, isBlank c) ∧
      (∀ rest, equationText spacedEquation ≠ '-' :: rest) ∧
      (solve spacedEquation).answer.status = 200 ∧
      (runOn .usual someSurroundings [equationText spacedEquation] [] .absent).1 = .ok 0 := by
  have htext : equationText spacedEquation = [' ', 'x', '^', '1', '=', '0', '\t'] :=
    equationText_codePoints _
  have hblank : ¬ ∀ c ∈ equationText spacedEquation, isBlank c := by
    rw [htext]
    intro h
    exact absurd (h 'x' (by decide)) (by decide)
  have hdash (rest : List Char) : equationText spacedEquation ≠ '-' :: rest := by
    rw [htext]
    intro h
    cases h
  have hstatus : (solve spacedEquation).answer.status = 200 := by decide +kernel
  have hholds : StoreFile.absent.Holds .usual Store.initial := .absent
  have hagrees := agrees_with_runOn someSurroundings spacedEquation [] hholds hblank hdash
  exact ⟨hholds, hblank, hdash, hstatus, hagrees.2.1.solved_iff.1 hstatus⟩

end PolySolve.Service
