import PolySolve.CommandLine.Location
import PolySolve.Log
import PolySolve.Text.Lowercase

/-!
# Files of plots

The file that a plot is saved in. The extension of the path tells the format; a path without one
gets the extension of the PNG format.
-/

namespace PolySolve.CommandLine

open Text

/-- The part of a path after the last slash. -/
def fileName (path : List Char) : List Char :=
  (path.reverse.takeWhile (· != '/')).reverse

/-- What follows the last dot of a file name, but for dots that the name starts with. -/
def extension (path : List Char) : List Char :=
  let name := (fileName path).dropWhile (· == '.')
  if name.contains '.' then (name.reverse.takeWhile (· != '.')).reverse else []

structure PlotFile where
  path : List Char
  format : List Char
  deriving DecidableEq

/-- Why a plot cannot be saved. -/
inductive PlotFileFault where
  | unknownFormat (name : List Char)
  /-- The format needs a typesetter, and there is none. -/
  | missingTypesetter
  | path (f : PathFault) (path : List Char)
  deriving DecidableEq

namespace PlotFile

def defaultFormat : List Char := "png".toList

def formats : List (List Char) := [
  "avif", "eps", "gif", "jpeg", "jpg", "pdf", "pgf", "png", "ps", "raw", "rgba", "svg", "svgz",
  "tif", "tiff", "webp"].map String.toList

def ofPath (path : List Char) : PlotFile :=
  if extension path = [] then
    ⟨(path.reverse.dropWhile (· == '.')).reverse ++ '.' :: defaultFormat, defaultFormat⟩
  else ⟨path, lower (extension path)⟩

/-- A format that plots can be saved in here. -/
def checkFormat (f : PlotFile) : Except PlotFileFault Unit :=
  if !formats.contains f.format then .error (.unknownFormat f.format)
  else if f.format = "pgf".toList then .error .missingTypesetter
  else .ok ()

/-- What drawing in a format logs: PostScript has no transparent colours. -/
def entries (f : PlotFile) : List LogEntry :=
  if f.format = "eps".toList ∨ f.format = "ps".toList then
    [⟨.warning, "matplotlib.backends.backend_ps".toList,
      ("The PostScript backend does not support transparency; " ++
        "partially transparent artists will be rendered opaque.").toList⟩]
  else []

def locate (t : FileTree) (f : PlotFile) : Except PlotFileFault Location :=
  (t.locate f.path).mapError (.path · f.path)

end PlotFile

namespace PlotFileFault

def message : PlotFileFault → List Char
  | unknownFormat name =>
    "Format ".toList ++ quote name ++ " is not supported (supported formats: ".toList ++
      (", ".toList).intercalate PlotFile.formats ++ [')']
  | missingTypesetter =>
    ("'xelatex' not found; install it or change rcParams['pgf.texsystem'] " ++
      "to an available TeX implementation").toList
  | path f p => f.message p

end PlotFileFault

end PolySolve.CommandLine
