import ModuleBundler.Failure
import ModuleBundler.Proofs.Masking.Blanks
import ModuleBundler.Proofs.Masking.MemberNames
import ModuleBundler.Proofs.Rewriting.NamePlaces
import ModuleBundler.Proofs.Syntax.Faults

/-!
A fault is found in the masked source and told of the source itself. The lines and columns of both are the same,
and what the fault names is read in the source too, as far as nothing of it was blanked.
-/
namespace ModuleBundler

theorem Syntax.Lexes.head (lexes : Syntax.Lexes text token) : token.text.head? ≠ some ' ' := by
  obtain ⟨expected, cursor, terminal, size, _, _, read, rfl⟩ := lexes.read
  intro space
  rw [Cursor.token, List.head?_take, if_neg (Nat.ne_of_gt (Lexer.lexeme?_token_pos read))] at space
  obtain ⟨later, stands⟩ := List.head?_eq_some_iff.mp space
  rw [stands] at read
  exact absurd (Lexer.lexeme?_token_head read) (by decide)

namespace Masking
variable {source front back : Text} {token : Token}

theorem lineAt_mask (source : Text) (offset : Nat) : (mask source).lineAt offset = source.lineAt offset :=
  congrArg (· + 1) (newlines_mask source 0 offset)

theorem lastLine_blanked (blanked : List.Forall₂ Blanked shown original) :
    (Text.lastLine shown).length = (Text.lastLine original).length := by
  induction blanked with
  | nil => rfl
  | @cons c d _ _ here _ ih =>
    have same : (c != '\n') = (d != '\n') := by
      rcases here with rfl | ⟨rfl, unbroken⟩
      · rfl
      · simpa using unbroken
    unfold Text.lastLine at ih ⊢
    rw [List.takeWhile_cons, List.takeWhile_cons, same]
    split
    · rw [List.length_cons, List.length_cons, ih]
    · rfl

theorem columnAt_mask (source : Text) (offset : Nat) : (mask source).columnAt offset = source.columnAt offset :=
  congrArg (· + 1) (lastLine_blanked (List.rel_reverse (List.forall₂_take offset (mask_blanked source))))

-- What is read in a masked source stands in the source, unless it begins with a space or has one behind a slash.
theorem begins_source (stands : (mask source).drop offset = front ++ back) (solid : front.head? ≠ some ' ')
    (unspaced : ¬ ['/', ' '] <:+: front) : front <+: source.drop offset := by
  obtain ⟨may, blotted⟩ := (mask_blotted source).drop offset
  rw [stands] at blotted
  exact blotted.begins (fun _ => solid) unspaced

theorem head_source (stands : (mask source).drop offset = c :: back) (visible : c ≠ ' ') :
    (source.drop offset).head? = some c := by
  obtain ⟨behind, begins⟩ := begins_source (show _ = [c] ++ back from stands) (by simpa using visible)
    (by simp [List.infix_cons_iff])
  rw [← begins]
  rfl

theorem shown_iff (within : place < source.length) :
    (mask source)[place]? = source[place]? ↔
      ((blanked source)[place]? = some true → source[place]? = some ' ') := by
  have known : place < (blanked source).length := by
    have size := length_mask source
    rw [mask_places, List.length_zipWith] at size
    omega
  rw [mask_places, List.getElem?_zipWith, List.getElem?_eq_getElem within, List.getElem?_eq_getElem known]
  cases hidden : (blanked source)[place] with
  | false => simp [hide]
  | true => simp [hide, eq_comm]

-- A token of a masked source stands in the source exactly if nothing but spaces of it was blanked.
theorem token_begins_iff (lexes : Syntax.Lexes (mask source) token) :
    token.text <+: source.drop token.start ↔ ∀ place, token.start ≤ place → place < token.stop →
      (blanked source)[place]? = some true → source[place]? = some ' ' := by
  have cut := lexes.cut
  have inside := cut.stop_le
  rw [length_mask] at inside
  have letters : ∀ index (within : index < token.text.length),
      (mask source)[token.start + index]? = some token.text[index] := by
    intro index within
    rw [← List.getElem?_drop, Syntax.drop_token cut, List.getElem?_append_left within,
      List.getElem?_eq_getElem within]
  have same : token.text <+: source.drop token.start ↔
      ∀ place, token.start ≤ place → place < token.stop → (mask source)[place]? = source[place]? := by
    rw [List.prefix_iff_getElem?]
    constructor
    · intro stands place after before
      obtain ⟨index, rfl⟩ := Nat.exists_eq_add_of_le after
      have within : index < token.text.length := Nat.lt_of_add_lt_add_left before
      rw [letters index within, ← stands index within, List.getElem?_drop]
    · intro alike index within
      rw [List.getElem?_drop, ← alike _ (Nat.le_add_right _ _) (Nat.add_lt_add_left within _),
        letters index within]
  rw [same]
  constructor
  · intro alike place after before
    exact (shown_iff (Nat.lt_of_lt_of_le before inside)).mp (alike place after before)
  · intro spaces place after before
    exact (shown_iff (Nat.lt_of_lt_of_le before inside)).mpr (spaces place after before)

end Masking

-- How a token of the masked source is read in the source, at the line and the column that it names.
structure Token.ReadIn (source : Text) (token : Token) : Prop where
  masked : token.text <+: (Masking.mask source).fromPlace token.line token.column
  head : ∃ c, token.text.head? = some c ∧ (source.fromPlace token.line token.column).head? = some c
  whole_iff : token.text <+: source.fromPlace token.line token.column ↔
    ∀ place, token.start ≤ place → place < token.stop →
      (Masking.blanked source)[place]? = some true → source[place]? = some ' '
  unspaced : ¬ ['/', ' '] <:+: token.text → token.text <+: source.fromPlace token.line token.column

-- What is read in a source where a fault of it is said to be.
def SyntaxFault.ReadIn (source : Text) : SyntaxFault → Prop
  | .character char line column => (source.fromPlace line column).head? = some char
  | .token found _ => found.ReadIn source
  | .ending line column =>
    ∃ last, Syntax.Ends (Masking.mask source) last ∧ last.ReadIn source ∧ last.line = line ∧ last.column = column

namespace Rewriting
open Masking
variable {source : Text} {token : Token} {fault : SyntaxFault}

theorem parse_refused (refused : transpile source = .error (.grammar fault)) :
    Syntax.parse (mask source) = .error fault := by
  unfold transpile analyzeSource at refused
  cases parsed : Syntax.parse (mask source) with
  | error other =>
    rw [parsed] at refused
    cases refused
    rfl
  | ok parsed' =>
    rw [parsed] at refused
    cases meant : analyze parsed' with
    | error other =>
      simp only [Except.mapError, bind, Except.bind, meant] at refused
      cases refused
    | ok analysis =>
      simp only [Except.mapError, bind, Except.bind, meant] at refused
      cases refused

theorem lexes_read (lexes : Syntax.Lexes (mask source) token) : token.ReadIn source := by
  have cut := lexes.cut
  have stands := Syntax.drop_token cut
  obtain ⟨line, column⟩ := lexes.placed
  have masked : (mask source).fromPlace token.line token.column = (mask source).drop token.start := by
    rw [line, column, Text.fromPlace_at]
  have unmasked : source.fromPlace token.line token.column = source.drop token.start := by
    rw [line, column, lineAt_mask, columnAt_mask, Text.fromPlace_at]
  constructor
  · rw [masked, stands]
    exact List.prefix_append _ _
  · obtain ⟨c, letters, spelled⟩ := List.exists_cons_of_ne_nil cut.nonempty
    have visible := lexes.head
    rw [spelled] at stands visible
    rw [unmasked, spelled]
    exact ⟨c, rfl, head_source stands (by simpa using visible)⟩
  · rw [unmasked]
    exact token_begins_iff lexes
  · rw [unmasked]
    exact begins_source stands lexes.head

theorem stops_read (stops : Syntax.Stops (mask source) fault) : fault.ReadIn source := by
  cases stops with
  | @strange machine cursor first tail comes remaining unread =>
    have visible : first ≠ ' ' := by
      rintro rfl
      obtain ⟨size, skipped⟩ := Lexer.lexeme?_blank machine.expected cursor.before tail (show Text.isBlank ' ' = true by decide)
      rw [remaining, skipped] at unread
      cases unread
    have stands : (mask source).drop cursor.offset = first :: tail := comes.within.rest.symm.trans remaining
    obtain ⟨line, column⟩ := comes.placed
    show (source.fromPlace cursor.line cursor.column).head? = some first
    rw [line, column, lineAt_mask, columnAt_mask, Text.fromPlace_at]
    exact head_source stands visible
  | misplaced lexes => exact lexes_read lexes
  | @early last ends => exact ⟨last, ends, lexes_read ends.lexes, rfl, rfl⟩

-- A refused source has a line at the place of its fault, and the report shows that line. What the report says of it
-- is read there, save for the blanked part of a token.
theorem faults_located (details : List Schema.Issue → Text) (path : Option Text)
    (refused : transpile source = .error (.grammar fault)) :
    ∃ row report, (Text.lines source)[fault.line - 1]? = some row ∧ 1 ≤ fault.line ∧ 1 ≤ fault.column ∧
      fault.column ≤ row.length + 1 ∧
      (Failure.refused path source (.grammar fault)).report? details = some report ∧
      report.message = fault.message ∧ report.line = some (fault.line : Int) ∧
      report.column = some (fault.column : Int) ∧ report.context = some (Text.strip row) ∧ fault.ReadIn source := by
  have stops := Syntax.parse_stops (parse_refused refused)
  obtain ⟨offset, line, column⟩ := stops.placed
  rw [lineAt_mask] at line
  rw [columnAt_mask] at column
  obtain ⟨row, stands, short⟩ := Text.row_at source offset
  rw [← line] at stands
  rw [← column] at short
  have counted : 1 ≤ fault.line := line ▸ Nat.le_add_left 1 _
  have counted' : 1 ≤ fault.column := column ▸ Nat.le_add_left 1 _
  have context : lineContext? source fault.line = some (Text.strip row) := by
    have some_ : source ≠ [] := by
      rintro rfl
      have accepted : (transpile []).isOk = true := by decide +kernel
      rw [refused] at accepted
      cases accepted
    have plain : ¬ (source.isEmpty || decide ((fault.line : Int) ≤ 0)) = true := by
      simp only [Bool.or_eq_true, List.isEmpty_iff, decide_eq_true_eq, not_or]
      exact ⟨some_, by omega⟩
    rw [lineContext?, if_neg plain, Int.toNat_natCast, stands]
    rfl
  exact ⟨row, _, stands, counted, counted', short, rfl, rfl, rfl, rfl, context, stops_read stops⟩

-- A string that is never closed.
def openSource : Text := "const s = \"oops;\n".toList

theorem quote_located : transpile openSource = .error (.grammar (.character '"' 1 11)) ∧
    ∃ report, (Failure.refused none openSource (.grammar (.character '"' 1 11))).report? (fun _ => []) = some report ∧
      report.line = some 1 ∧ report.column = some 11 ∧ report.context = some "const s = \"oops;".toList ∧
      (openSource.fromPlace 1 11).head? = some '"' := by
  have ⟨refused, own, plain⟩ : transpile openSource = .error (.grammar (.character '"' 1 11)) ∧
      (Text.lines openSource)[0]? = some "const s = \"oops;".toList ∧
      Text.strip "const s = \"oops;".toList = "const s = \"oops;".toList := by
    unfold openSource
    repeat rw [String.toList_ofList]
    decide +kernel
  obtain ⟨row, report, stands, _, _, _, reported, _, line, column, context,
    reads⟩ := faults_located (fun _ => []) none refused
  obtain rfl := Option.some.inj (own.symm.trans stands)
  exact ⟨refused, report, reported, line, column, context.trans (congrArg some plain), reads⟩

-- A regex where a name belongs: the message quotes what is left of it, which the source does not read there.
def regexSource : Text := "export \x7b/abc/\x7d".toList

def regexFault : SyntaxFault :=
  .token ⟨.leaf .regex, "/   /".toList, 8, 1, 9⟩ (some ⟨.opener .brace, ['\x7b'], 7, 1, 8⟩)

theorem blank_quoted : transpile regexSource = .error (.grammar regexFault) ∧
    regexFault.message = "Unexpected token '/   /'".toList ∧ regexSource.fromPlace 1 9 = "/abc/\x7d".toList ∧
    ¬ "/   /".toList <+: regexSource.fromPlace 1 9 := by
  unfold regexSource regexFault
  repeat rw [String.toList_ofList]
  decide +kernel

end Rewriting
end ModuleBundler
