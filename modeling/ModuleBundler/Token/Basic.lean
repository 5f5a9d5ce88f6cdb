import ModuleBundler.Token.Terminal

/-!
Tokens carry their text and the place where they start: a character offset, and a line and column
that both count from one. A cursor is a place in a text together with what lies before and after.
-/
namespace ModuleBundler

structure Token where
  terminal : Terminal
  text : Text
  start : Nat
  line : Nat
  column : Nat
  deriving DecidableEq, Repr

namespace Token

def stop (token : Token) : Nat := token.start + token.text.length

def lastLine (token : Token) : Nat := token.line + Text.newlines token.text

def isPunctuator (token : Token) (text : Text) : Bool :=
  token.terminal == .leaf .punctuator && token.text == text

def isName (token : Token) : Bool := token.terminal == .leaf .name

end Token

structure Cursor where
  -- What has been passed, last character first.
  before : Text
  rest : Text
  offset : Nat
  line : Nat
  column : Nat
  deriving DecidableEq, Repr

namespace Cursor

def start (text : Text) : Cursor := ⟨[], text, 0, 1, 1⟩

def step (cursor : Cursor) : Cursor :=
  match cursor.rest with
  | [] => cursor
  | c :: rest =>
    if c == '\n' then ⟨c :: cursor.before, rest, cursor.offset + 1, cursor.line + 1, 1⟩
    else ⟨c :: cursor.before, rest, cursor.offset + 1, cursor.line, cursor.column + 1⟩

def advance (cursor : Cursor) : Nat → Cursor
  | 0 => cursor
  | count + 1 => cursor.step.advance count

-- The token of the given size that starts here.
def token (cursor : Cursor) (terminal : Terminal) (size : Nat) : Token :=
  ⟨terminal, cursor.rest.take size, cursor.offset, cursor.line, cursor.column⟩

theorem rest_step (cursor : Cursor) : cursor.step.rest = cursor.rest.drop 1 := by
  unfold step
  split
  · rename_i ended; simp [ended]
  · rename_i c rest read
    split <;> simp [read]

theorem rest_advance (cursor : Cursor) (count : Nat) :
    (cursor.advance count).rest = cursor.rest.drop count := by
  induction count generalizing cursor with
  | zero => rfl
  | succ count ih => rw [advance, ih, rest_step, List.drop_drop, Nat.add_comm]

end Cursor
end ModuleBundler
