import ModuleBundler.Token.Lexer
import ModuleBundler.Syntax.Fault
import ModuleBundler.Syntax.Machine

/-!
Reading a whole text: the machine says what can come next, the lexer cuts one token for it, and the
machine takes that token. The first place where this fails is the fault of the text.
-/
namespace ModuleBundler

namespace Syntax

-- Where nothing expected can be read, the fault names the token that stands there all the same.
def faultAt (cursor : Cursor) (first : Char) (previous : Option Token) : SyntaxFault :=
  match Lexer.lexeme? Terminal.all cursor.before cursor.rest with
  | some (.token terminal size) => .token (cursor.token terminal size) previous
  | _ => .character first cursor.line cursor.column

def endFault (previous : Option Token) : SyntaxFault :=
  match previous with
  | some token => .ending token.line token.column
  | none => .ending 1 1

-- Fuel counts the characters that are left, and every step passes at least one of them.
def parseFrom : Nat → Machine → Cursor → Option Token → Except SyntaxFault Module
  | fuel, machine, cursor, previous =>
    match cursor.rest with
    | [] =>
      match machine.result? with
      | some parsed => .ok parsed
      | none => .error (endFault previous)
    | first :: _ =>
      match Lexer.lexeme? machine.expected cursor.before cursor.rest, fuel with
      | none, _ | _, 0 => .error (faultAt cursor first previous)
      | some (.skipped size), fuel + 1 => parseFrom fuel machine (cursor.advance size) previous
      | some (.token terminal size), fuel + 1 =>
        let token := cursor.token terminal size
        match machine.feed token with
        | some machine => parseFrom fuel machine (cursor.advance size) (some token)
        | none => .error (.token token none)

-- The syntax of a text as it stands.
def parse (text : Text) : Except SyntaxFault Module :=
  parseFrom text.length {} (Cursor.start text) none

end Syntax
end ModuleBundler
