import ModuleBundler.Proofs.Syntax.Places

/-!
Where the faults of a text are. A text is refused at a place that the parser comes to, and the line and the
column of the fault are those of that place.
-/
namespace ModuleBundler

namespace Text

-- What is read from a line and a column on, both counted from one.
def fromPlace (text : Text) (line column : Nat) : Text :=
  (joinWith ['\n'] ((lines text).drop (line - 1))).drop (column - 1)

-- The last line of a text, both of them spelled backwards.
def lastLine (before : Text) : Text := before.takeWhile (· != '\n')

def lineAt (text : Text) (offset : Nat) : Nat := newlines (text.take offset) + 1

def columnAt (text : Text) (offset : Nat) : Nat := (lastLine (text.take offset).reverse).length + 1

variable {rest row : Text} {rows : List Text}

theorem joinWith_append (separator front row : Text) (rows : List Text) :
    joinWith separator ((front ++ row) :: rows) = front ++ joinWith separator (row :: rows) := by
  cases rows with
  | nil => rfl
  | cons next others => simp only [joinWith, List.append_assoc]

-- The lines from the one on in which a place stands.
theorem lines_behind (before : Text) (stands : lines rest = row :: rows) :
    (lines (before.reverse ++ rest)).drop (newlines before) = ((lastLine before).reverse ++ row) :: rows := by
  induction before generalizing rest row rows with
  | nil => exact stands
  | cons c before ih =>
    rw [List.reverse_cons, List.append_assoc, List.singleton_append]
    by_cases broken : c = '\n'
    · subst broken
      have opened : lines ('\n' :: rest) = [] :: row :: rows := by rw [← stands]; rfl
      have counted : newlines ('\n' :: before) = newlines before + 1 := List.count_cons_self
      rw [counted, ← List.drop_drop, ih opened]
      rfl
    · have opened : lines (c :: rest) = (c :: row) :: rows := by
        unfold lines at stands ⊢
        rw [splitOn, if_neg (by simpa using broken), stands]
      have counted : newlines (c :: before) = newlines before := List.count_cons_of_ne broken
      have longer : lastLine (c :: before) = c :: lastLine before := by simp [lastLine, broken]
      rw [counted, ih opened, longer, List.reverse_cons, List.append_assoc, List.singleton_append]

theorem lines_at (text : Text) (offset : Nat) :
    ∃ row rows, lines (text.drop offset) = row :: rows ∧ (lines text).drop (text.lineAt offset - 1)
      = ((lastLine (text.take offset).reverse).reverse ++ row) :: rows := by
  obtain ⟨row, rows, stands⟩ := List.exists_cons_of_ne_nil (splitOn_ne_nil '\n' (text.drop offset))
  have behind := lines_behind (text.take offset).reverse stands
  rw [List.reverse_reverse, List.take_append_drop] at behind
  refine ⟨row, rows, stands, ?_⟩
  rw [← behind, lineAt, newlines, newlines, List.count_reverse, Nat.add_sub_cancel]

-- From the line and the column of a place on, a text is read as it is behind that place.
theorem fromPlace_at (text : Text) (offset : Nat) :
    text.fromPlace (text.lineAt offset) (text.columnAt offset) = text.drop offset := by
  obtain ⟨row, rows, stands, behind⟩ := lines_at text offset
  have whole := joinWith_splitOn '\n' (text.drop offset)
  rw [← lines, stands] at whole
  have size : text.columnAt offset - 1 = (lastLine (text.take offset).reverse).reverse.length := by
    rw [columnAt, List.length_reverse, Nat.add_sub_cancel]
  rw [fromPlace, behind, size, joinWith_append, List.drop_left, whole]

-- A place stands in a line of the text, behind its last character at most.
theorem row_at (text : Text) (offset : Nat) :
    ∃ row, (lines text)[text.lineAt offset - 1]? = some row ∧ text.columnAt offset ≤ row.length + 1 := by
  obtain ⟨row, rows, _, behind⟩ := lines_at text offset
  refine ⟨(lastLine (text.take offset).reverse).reverse ++ row, ?_, ?_⟩
  · rw [← List.head?_drop, behind, List.head?_cons]
  · rw [columnAt, List.length_append, List.length_reverse]
    omega

end Text

-- A token of a text that names its own place.
def Token.Placed (text : Text) (token : Token) : Prop :=
  token.line = text.lineAt token.start ∧ token.column = text.columnAt token.start

namespace Cursor
variable {text : Text} {cursor : Cursor}

theorem step_column (counted : cursor.column = (Text.lastLine cursor.before).length + 1) :
    cursor.step.column = (Text.lastLine cursor.step.before).length + 1 := by
  unfold step
  split
  · exact counted
  · split
    · rename_i broken
      simp [Text.lastLine, beq_iff_eq.mp broken]
    · rename_i c rest remaining unbroken
      have apart : c ≠ '\n' := by simpa using unbroken
      simpa [Text.lastLine, apart] using counted

theorem advance_column (counted : cursor.column = (Text.lastLine cursor.before).length + 1) (count : Nat) :
    (cursor.advance count).column = (Text.lastLine (cursor.advance count).before).length + 1 := by
  induction count generalizing cursor with
  | zero => exact counted
  | succ count ih => exact ih (step_column counted)

end Cursor

namespace Syntax
variable {text : Text} {machine : Machine} {cursor : Cursor} {token : Token} {fault : SyntaxFault}

theorem Comes.column (comes : Comes text machine cursor) :
    cursor.column = (Text.lastLine cursor.before).length + 1 := by
  induction comes with
  | start => rfl
  | skip _ _ ih | take _ _ _ ih => exact Cursor.advance_column ih _

-- The cursor counts lines and columns as the text has them.
theorem Comes.placed (comes : Comes text machine cursor) :
    cursor.line = text.lineAt cursor.offset ∧ cursor.column = text.columnAt cursor.offset := by
  have within := comes.within
  have counted := within.line
  rw [within.before, Text.newlines, List.count_reverse] at counted
  have column := comes.column
  rw [within.before] at column
  exact ⟨counted, column⟩

theorem Lexes.placed (lexes : Lexes text token) : token.Placed text := by
  cases lexes with
  | expected comes | fault comes => exact comes.placed

theorem Lexes.cut (lexes : Lexes text token) : token.CutFrom text := by
  cases lexes with
  | expected comes read => exact comes.within.cut (remains read) read
  | fault comes _ read => exact comes.within.cut (remains read) read

-- The place in the text that the fault names.
theorem Stops.placed (stops : Stops text fault) :
    ∃ offset, fault.line = text.lineAt offset ∧ fault.column = text.columnAt offset := by
  cases stops with
  | strange comes => exact ⟨_, comes.placed⟩
  | misplaced lexes => exact ⟨_, lexes.placed⟩
  | early ends => exact ⟨_, ends.lexes.placed⟩

end Syntax
end ModuleBundler
