import PolySolve.Plot.Ticks
import PolySolve.Solution.Report

/-!
# Plots

The plot of a polynomial around its real roots: the range of `X`, the sampled curve, and the lines,
dots and labels drawn with it. Values so great that an axis has no scale or no ticks leave nothing
to draw.
-/

namespace PolySolve

namespace Plot

/-- Why a plot is not drawn. -/
inductive PlotFault where
  /-- The outcome lacks the root that the plot is drawn around. -/
  | missingRoot
  /-- An axis is so wide that it has no scale by which a root can be placed. -/
  | noScale
  | ticks (f : TickFault)
  deriving DecidableEq

namespace PlotFault

def message : PlotFault → List Char
  | missingRoot => "tuple index out of range".toList
  | noScale => "Singular matrix".toList
  | ticks .uncountable => "arange: cannot compute length".toList
  | ticks .infinite => "cannot convert float infinity to integer".toList

end PlotFault

/-- All real roots with a margin on both sides; without real roots the margins lie around the real
part of complex ones, or around zero. -/
def rangeOf (o : Outcome) (margin : Binary64) : Except PlotFault Range :=
  match o.realRoots with
  | x :: xs => .ok ⟨least x xs - margin, greatest x xs + margin⟩
  | [] =>
    if o.kind = .complexPair then
      match o.roots with
      | [] => .error .missingRoot
      | r :: _ => .ok ⟨r.realPart - margin, r.realPart + margin⟩
    else .ok ⟨-margin, margin⟩

structure Point where
  x : Binary64
  y : Binary64
  deriving DecidableEq

structure Line where
  color : List Char
  style : List Char
  points : List Point
  deriving DecidableEq

def axisColor : List Char := "#333333".toList

def curveColor : List Char := "#1a8cff".toList

def rootColor : List Char := "#4caf50".toList

def solid : List Char := ['-']

def dotted : List Char := [':']

end Plot

open Plot

/-- What is drawn for a polynomial and its outcome. -/
structure Plot where
  polynomial : Polynomial
  outcome : Outcome
  range : Range
  deriving DecidableEq

namespace Plot

def title (g : Plot) : List Char :=
  if g.outcome.realRoots ≠ [] then "Real roots of P(X)".toList
  else
    match g.outcome.kind with
    | .noSolution => "No Solution — P(X) never reaches 0".toList
    | .allReals => "Every Real Number — P(X) is identically 0".toList
    | .complexPair => "Complex Roots — P(X) does not cross 0".toList
    | .degreeTooHigh => "Degree above 2 — roots not computed".toList
    | _ => []

def xLabel : List Char := ['X']

def yLabel : List Char := "P(X)".toList

def curveLabel (g : Plot) : List Char := "P(X) = ".toList ++ g.polynomial.form

def rootsLabel (g : Plot) : List Char :=
  "Roots: ".toList ++
    (", ".toList).intercalate (g.outcome.realRoots.map fun x => (Root.real x).fixedText)

/-- The label of the curve, and the one of the roots if there are any. -/
def legend (g : Plot) : List (List Char) :=
  if g.outcome.realRoots = [] then [g.curveLabel] else [g.curveLabel, g.rootsLabel]

/-- A point of the curve. -/
def curvePoint (g : Plot) (i : Nat) : Point :=
  ⟨g.range.sample i, g.polynomial.evaluate (g.range.sample i)⟩

def horizontal : Line := ⟨axisColor, solid, [⟨0, 0⟩, ⟨1, 0⟩]⟩

def vertical (x : Binary64) (color style : List Char) : Line := ⟨color, style, [⟨x, 0⟩, ⟨x, 1⟩]⟩

/-- All lines in drawing order, the curve with the given samples. -/
def lines (g : Plot) (indices : List Nat) : List Line :=
  horizontal :: vertical 0 axisColor solid :: ⟨curveColor, solid, indices.map g.curvePoint⟩ ::
    g.outcome.realRoots.map fun x => vertical x rootColor dotted

/-- The mark of a root. One that is not finite has no place. -/
def dot (root : Binary64) : Point := if root.isFinite then ⟨root, 0⟩ else ⟨.nan, .nan⟩

/-- The marked points of each series. -/
def dots (g : Plot) : List (List Point) :=
  if g.outcome.realRoots = [] then [] else [g.outcome.realRoots.map dot]

/-! ## Axes -/

/-- The points of the curve, and the roots on the horizontal axis. -/
def points (g : Plot) : List Point :=
  ((List.range sampleCount).map g.curvePoint ++ g.outcome.realRoots.map dot).filter
    fun p => p.x.isFinite && p.y.isFinite

def xAxis (g : Plot) : Range := .shown (g.points.map (·.x))

def yAxis (g : Plot) : Range := .shown (g.points.map (·.y))

/-- A plot with roots needs a scale on both axes, and every plot needs ticks. -/
def checkAxes (g : Plot) : Except PlotFault Unit := do
  let x := g.xAxis
  let y := g.yAxis
  if g.outcome.realRoots ≠ [] ∧ !(x.width.isFinite && y.width.isFinite) then .error .noScale
  discard (x.ticks.mapError .ticks)
  discard (y.ticks.mapError .ticks)

/-- The plot of a polynomial with its outcome. -/
def of (p : Polynomial) (o : Outcome) (margin : Binary64) : Except PlotFault Plot := do
  let g : Plot := ⟨p, o, ← rangeOf o margin⟩
  g.checkAxes
  return g

end Plot

end PolySolve
