import ModuleBundler.Json.Writer

/-!
The report of a failed build: what went wrong, where, the offending line and advice. Parts that are
absent or empty are left out, and so are a line or column of zero; a column needs a line.
-/
namespace ModuleBundler

structure Report where
  message : Text
  filePath : Option Text := none
  line : Option Int := none
  column : Option Int := none
  context : Option Text := none
  suggestion : Option Text := none
  deriving DecidableEq, Repr

namespace Report

def shownText (before : String) (text? : Option Text) (after : String) : Text :=
  match text? with
  | some (c :: text) => before.toList ++ c :: text ++ after.toList
  | _ => []

def shownNumber (before : String) (number? : Option Int) : Text :=
  match number? with
  | some number => if number = 0 then [] else before.toList ++ Json.intText number
  | none => []

def shownPlace (line column : Option Int) : Text :=
  match shownNumber " at line " line with
  | [] => []
  | place => place ++ shownNumber ", column " column

def render (report : Report) : Text :=
  "\n❌ Build Error".toList ++ shownText " in " report.filePath ""
    ++ shownPlace report.line report.column ++ ":\n".toList
    ++ "   ".toList ++ report.message ++ "\n".toList
    ++ shownText "   > " report.context "\n"
    ++ shownText "   💡 " report.suggestion "\n"

end Report
end ModuleBundler
