import ModuleBundler.Token.Lexeme

/-!
Regex literals are blanked before a module is parsed, so that brackets and quotes inside a pattern
cannot unbalance it. A source is divided into pieces; a slash opens a regex literal only where the
piece before it leaves an operand expected.
-/
namespace ModuleBundler.Masking

inductive PieceKind where
  | hashbang | blanks | comment | literal | word | mark
  -- `body` is the length from the opening through the closing slash; flags follow it.
  | regex (body : Nat)
  deriving DecidableEq, Repr

structure Piece where
  kind : PieceKind
  text : Text
  deriving DecidableEq, Repr

-- What stands before the next piece, blanks and comments left out.
inductive Preceding where
  | start
  | literal
  | word (text : Text)
  | mark (char : Char)
  | closedParen (ofCondition : Bool)
  deriving DecidableEq, Repr

-- Words after which an operand comes next, not an operator.
def operandWords : List Text :=
  ["return", "typeof", "case", "do", "else", "in", "of", "new", "delete", "void", "throw",
    "instanceof", "yield", "await"].map String.toList

-- Words whose parentheses hold a condition, so that a statement follows them.
def conditionWords : List Text := ["if", "while", "for", "with"].map String.toList

def Preceding.expectsOperand : Preceding → Bool
  | start => true
  | literal => false
  | word text => operandWords.contains text
  | mark char => char != ']'
  | closedParen ofCondition => ofCondition

def Preceding.opensCondition : Preceding → Bool
  | word text => conditionWords.contains text
  | _ => false

-- A piece is never empty: its size is one more than the number answered beside its kind.
def nextPiece (preceding : Preceding) (text : Text) : PieceKind × Nat :=
  let regex :=
    if preceding.expectsOperand then
      (Lexeme.regexBody? text).map fun body =>
        (PieceKind.regex body, body + Lexeme.run Char.isAlpha (text.drop body) - 1)
    else none
  let plain (kind : PieceKind) (size? : Option Nat) := size?.map fun size => (kind, size - 1)
  (regex
    <|> plain .blanks (Lexeme.blanks? text)
    <|> plain .comment (Lexeme.comment? text)
    <|> plain .literal (Lexeme.string? text)
    <|> plain .literal (Lexeme.template? text)
    <|> plain .word (Lexeme.run1? Text.isNameChar text)).getD (.mark, 0)

-- The heads of open parentheses, innermost first, remember whether a condition word came before.
structure Reading where
  preceding : Preceding := .start
  conditions : List Bool := []
  deriving DecidableEq, Repr

def Reading.after (reading : Reading) (kind : PieceKind) (text : Text) : Reading :=
  match kind with
  | .hashbang | .blanks | .comment => reading
  | .literal | .regex _ => { reading with preceding := .literal }
  | .word => { reading with preceding := .word text }
  | .mark =>
    match text with
    | ['('] => ⟨.mark '(', reading.preceding.opensCondition :: reading.conditions⟩
    | [')'] => ⟨.closedParen (reading.conditions.headD false), reading.conditions.tail⟩
    | c :: _ => { reading with preceding := .mark c }
    | [] => reading

def piecesFrom (reading : Reading) : Text → List Piece
  | [] => []
  | c :: rest =>
    let (kind, more) := nextPiece reading.preceding (c :: rest)
    let text := c :: rest.take more
    ⟨kind, text⟩ :: piecesFrom (reading.after kind text) (rest.drop more)
termination_by text => text.length
decreasing_by simp only [List.length_drop, List.length_cons]; omega

-- An interpreter line at the start is a piece of its own.
def pieces (source : Text) : List Piece :=
  match Lexeme.hashbang? source with
  | some size => ⟨.hashbang, source.take size⟩ :: piecesFrom {} (source.drop size)
  | none => piecesFrom {} source

-- The slashes and the flags of a regex stay, its body becomes as many spaces.
def Piece.masked (piece : Piece) : Text :=
  match piece.kind with
  | .regex body =>
    piece.text.take 1 ++ List.replicate (body - 2) ' ' ++ piece.text.drop (body - 1)
  | _ => piece.text

-- Offsets and line breaks are kept.
def mask (source : Text) : Text := (pieces source).flatMap Piece.masked

theorem piecesFrom_texts (reading : Reading) (text : Text) :
    (piecesFrom reading text).flatMap Piece.text = text := by
  fun_induction piecesFrom reading text with
  | case1 => rfl
  | case2 reading c rest kind more read text ih => simp [text, ih, List.take_append_drop]

-- The pieces of a source are the source.
theorem pieces_texts (source : Text) : (pieces source).flatMap Piece.text = source := by
  unfold pieces
  split <;> simp [piecesFrom_texts, List.take_append_drop]

end ModuleBundler.Masking
