import ModuleBundler.Text.Basic

/-!
What a build tells about itself while it runs. Lines are kept in the order in which they were
logged; debugging lines are shown only to those who ask for them.
-/
namespace ModuleBundler

inductive Severity where
  | debug | info | warning
  deriving DecidableEq, Repr

-- The coloured label in front of a line.
def Severity.label : Severity → String
  | debug => "\x1b[94mDEBUG:\x1b[0m "
  | info => "\x1b[92m\x1b[1mINFO:\x1b[0m "
  | warning => "\x1b[93m\x1b[1mWARNING:\x1b[0m "

structure LogLine where
  severity : Severity
  text : Text
  deriving DecidableEq, Repr

abbrev Log := List LogLine

namespace LogLine

def isShown (verbose : Bool) (line : LogLine) : Bool := verbose || line.severity != .debug

def render (line : LogLine) : Text := line.severity.label.toList ++ line.text ++ ['\n']

end LogLine

def Log.render (verbose : Bool) (log : Log) : Text :=
  (log.filter (LogLine.isShown verbose)).flatMap LogLine.render

end ModuleBundler
