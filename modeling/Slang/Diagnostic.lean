import Slang.Problem

/-!
# Diagnostics and their rendering

A diagnostic is a problem at a span. It is shown as its message, the line it stands on, and carets
under the characters it covers. Colour is only a matter of rendering: a terminal library writes the
label, the place in front of the line and the carets in their paints, and nothing moves. What the
library writes depends on the terminal, so it is a parameter.
-/

namespace Slang

inductive Severity where
  | error | warning
  deriving Repr, DecidableEq

def Severity.name : Severity → String
  | error => "error"
  | warning => "warning"

/-- How a piece of text is to stand out on a terminal. -/
inductive Paint where
  | boldRed | boldYellow | brightBlue
  deriving Repr, DecidableEq

/-- What a terminal library writes for a text in a paint. -/
abbrev Painter := Paint → String → String

namespace Paint

/-- The display attributes by their numbers. -/
def code : Paint → String
  | boldRed => "1;31"
  | boldYellow => "1;33"
  | brightBlue => "94"

/-- Text in a paint, or as it is when no colours are asked for. -/
def apply (colors : Option Painter) (paint : Paint) (text : String) : String :=
  match colors with
  | some painter => painter paint text
  | none => text

end Paint

/-- The painter for a terminal that shows colours. -/
def Painter.ansi : Painter :=
  fun paint text ↦ "\x1b[" ++ paint.code ++ "m" ++ text ++ "\x1b[0m"

def Severity.paint : Severity → Paint
  | error => .boldRed
  | warning => .boldYellow

/-- The word that opens a report, with its colon. -/
def Severity.label (colors : Option Painter) (severity : Severity) : String :=
  severity.paint.apply colors (severity.name ++ ":")

/-- A place as it is shown to people. -/
def Location.text (location : Location) : String :=
  toString location.line ++ ":" ++ toString location.column

structure Diagnostic where
  problem : Problem
  span : Span
  severity : Severity := .error
  deriving Repr, DecidableEq

namespace Diagnostic

/-- The line of the given number, counted from one, and nothing if there is no such line. -/
def lineText (lines : List String) : Nat → String
  | 0 => ""
  | line + 1 => lines.getD line ""

/-- What stands in front of the shown line. -/
def gutter (span : Span) : String :=
  span.start.text ++ " | "

/-- The blanks in front of the carets. They are counted without colour codes. -/
def indent (span : Span) : Nat :=
  (gutter span).length + (span.start.column - 1)

/-- A span without characters still gets one caret. -/
def carets (span : Span) : String :=
  String.ofList (List.replicate (max span.length 1) '^')

/-- The message, the line and the carets, each ended by a newline. -/
def render (colors : Option Painter) (lines : List String) (diagnostic : Diagnostic) : String :=
  let span := diagnostic.span
  diagnostic.severity.label colors ++ " " ++ diagnostic.problem.message ++ "\n" ++
    Paint.brightBlue.apply colors (gutter span) ++ lineText lines span.start.line ++ "\n" ++
    String.ofList (List.replicate (indent span) ' ') ++
    Paint.boldRed.apply colors (carets span) ++ "\n"

end Diagnostic

end Slang
