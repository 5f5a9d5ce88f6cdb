import ModuleBundler.Syntax.Tree
import ModuleBundler.Text.Quoted

/-!
What can be wrong with a text that does not parse, where it is, and how it is worded.
-/
namespace ModuleBundler

inductive SyntaxFault where
  -- No terminal at all begins with this character.
  | character (char : Char) (line column : Nat)
  -- A token that cannot stand here. `previous` is kept where the token was only recognised by
  -- looking past the expected terminals.
  | token (token : Token) (previous : Option Token)
  -- The text ends too early; the place is that of its last token.
  | ending (line column : Nat)
  deriving DecidableEq, Repr

namespace SyntaxFault

def line : SyntaxFault → Nat
  | character _ line _ | ending line _ => line
  | token found _ => found.line

def column : SyntaxFault → Nat
  | character _ _ column | ending _ column => column
  | token found _ => found.column

def message : SyntaxFault → Text
  | character char _ _ => "Unexpected character ".toList ++ Text.quoted [char]
  | token found _ => "Unexpected token ".toList ++ Text.quoted found.text
  | ending _ _ => "Unexpected end of file".toList

-- The words that a fault brings up when hints are looked for: its own and those of its tokens.
def account : SyntaxFault → List Text
  | character char _ _ => ["No terminal matches ".toList ++ [char]]
  | token found previous => found.text :: (previous.map Token.text).toList
  | ending _ _ => []

end SyntaxFault
end ModuleBundler
