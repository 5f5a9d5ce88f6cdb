import ModuleBundler.Bundle.Basic
import ModuleBundler.Proofs.Bundle.Mapping
import ModuleBundler.Proofs.Masking.Nesting

/-!
How a bundle reads in front of a module: the banner, the script and the rows of the modules before it.
-/
namespace ModuleBundler

namespace Text

theorem mem_of_startsWith (found : startsWith text part = true) (member : c ∈ part) : c ∈ text :=
  (List.isPrefixOf_iff_prefix.mp found).subset member

theorem replace_absent (member : c ∈ part) (absent : c ∉ text) :
    replace part replacement text = text := by
  unfold replace
  induction text with
  | nil => rfl
  | cons d rest ih =>
    rw [replaceFrom, if_neg fun found => absent (mem_of_startsWith found member),
      ih fun later => absent (List.mem_cons_of_mem _ later)]

end Text

theorem Path.slash_notMem_basename (path : Text) : '/' ∉ basename path := by
  intro member
  have kept := List.all_eq_true.mp List.all_takeWhile _ (List.mem_reverse.mp member)
  simp at kept

theorem Lexeme.blockCommentRest?_closed (absent : '/' ∉ text) (more : Text) :
    blockCommentRest? (text ++ '*' :: '/' :: more) = some (text.length + 2) := by
  induction text with
  | nil => rfl
  | cons c rest ih =>
    simp only [List.mem_cons, not_or] at absent
    have apart : ∀ later, c = '*' → rest ++ '*' :: '/' :: more = '/' :: later → False := by
      intro later _ same
      cases rest with
      | nil => cases same
      | cons d rest =>
        cases same
        exact absent.2 List.mem_cons_self
    rw [List.cons_append, blockCommentRest?.eq_2 _ _ apart, ih absent.2]
    rfl

namespace Bundle

open Masking

-- What stands in front of the body of a module that is wrapped in a function.
def wrappedHead (asset : Asset) : Text :=
  Literal.write (Json.intText asset.id) ++ ([':'] ++ ([' '] ++ (['['] ++
    (("function".toList ++ ([' '] ++ ['('])) ++ ("require".toList ++ ([','] ++ ([' ']
      ++ ("module".toList ++ ([','] ++ ([' '] ++ ("exports".toList ++ ([')'] ++ [' ']))))))))))))

-- What stands behind a module in its row.
def rowTail (asset : Asset) : Text := [','] ++ ([' '] ++ (mappingText asset.mapping ++ [']']))

theorem render_function (code : Text) :
    (Body.function code).render
      = "function (".toList ++ Text.joinWith ", ".toList parameters ++ ") \x7b\n".toList ++ code
        ++ ['\x7d'] := by
  delta Body.render
  rfl

theorem render_string (code : CodePoints) :
    (Body.string code).render
      = "new Function(".toList ++ Text.joinWith ", ".toList
          (parameters.map Literal.write ++ [Literal.writeCodes code]) ++ [')'] := by
  delta Body.render
  rfl

theorem tableEntry_function (asset : Asset) (code : Text) :
    tableEntry asset (.function code)
      = wrappedHead asset ++ '{' :: ('\n' :: code ++ '}' :: rowTail asset) := by
  have row : ": [".toList = [':', ' ', '['] := by decide +kernel
  have comma : ", ".toList = [',', ' '] := by decide +kernel
  have function : "function (".toList = "function".toList ++ [' ', '('] := by decide +kernel
  have body : ") \x7b\n".toList = [')', ' ', '\x7b', '\n'] := by decide +kernel
  simp only [tableEntry, render_function, parameters, List.map_cons, List.map_nil, Text.joinWith, row,
    comma, function, body, wrappedHead, rowTail, List.append_assoc, List.cons_append, List.nil_append]

theorem tableEntry_string (asset : Asset) (code : CodePoints) :
    tableEntry asset (.string code)
      = Literal.write (Json.intText asset.id) ++ ([':'] ++ ([' '] ++ (['['] ++ ("new".toList ++ ([' '] ++
        (("Function".toList ++ ([] ++ ['('])) ++ (Literal.write "require".toList ++ ([','] ++ ([' ']
          ++ (Literal.write "module".toList ++ ([','] ++ ([' '] ++ (Literal.write "exports".toList
            ++ ([','] ++ ([' '] ++ (Literal.writeCodes code ++ ([')'] ++ rowTail asset))))))))))))))))) := by
  have row : ": [".toList = [':', ' ', '['] := by decide +kernel
  have comma : ", ".toList = [',', ' '] := by decide +kernel
  have function : "new Function(".toList = "new".toList ++ [' '] ++ "Function".toList ++ ['('] := by
    decide +kernel
  simp only [tableEntry, render_string, parameters, List.map_cons, List.map_nil, List.cons_append,
    List.nil_append, Text.joinWith, row, comma, function, rowTail, List.append_assoc]

theorem harmless_rowTail (asset : Asset) : Harmless (rowTail asset) Anything := by
  have closed := (harmless_mapping asset.mapping).follow
    (harmless_mark (c := ']') (by decide) (by decide))
  refine closed.listed ?_
  rw [mappingText_parts]
  exact ⟨'{', _, rfl, by decide⟩

theorem harmless_wrappedHead (asset : Asset) : Harmless (wrappedHead asset) NotBlank := by
  have unnamed : ∀ mark : Char, Text.isNameChar mark = false →
      ∀ later more, NotName (([mark] ++ later) ++ more) := by
    intro mark outside later more c same
    cases same
    exact outside
  have closed : Harmless ([')'] ++ [' ']) NotBlank :=
    (harmless_blank (.inl rfl)).marked (by decide) (by decide)
  have exports := (harmless_word "exports".toList (by decide +kernel)).append
    closed fun more _ => unnamed ')' (by decide) _ more
  have module := (harmless_word "module".toList (by decide +kernel)).append
    (exports.listed ((begins_word (by decide +kernel)).append _)) fun more _ => unnamed ',' (by decide) _ more
  have require := (harmless_word "require".toList (by decide +kernel)).append
    (module.listed ((begins_word (by decide +kernel)).append _)) fun more _ => unnamed ',' (by decide) _ more
  have function := (harmless_opening "function".toList (by decide +kernel)
    (by decide +kernel) (.inr rfl)).follow require
  have opened := function.marked (c := '[') (by decide) (by decide)
  have row := (opened.spaced ⟨'[', _, rfl, by decide⟩).marked (c := ':') (by decide) (by decide)
  exact (harmless_literal _).follow row

theorem harmless_string (asset : Asset) (code : CodePoints) :
    Harmless (tableEntry asset (.string code)) Anything := by
  have closed := (harmless_rowTail asset).marked (c := ')') (by decide) (by decide)
  have argument : ∀ codes later, Harmless later Anything →
      Harmless ([','] ++ ([' '] ++ (Literal.writeCodes codes ++ later))) Anything := by
    intro codes later second
    exact ((harmless_literal codes).follow second).listed ((begins_literal codes).append later)
  have arguments := (harmless_literal "require".toList).follow
    (argument "module".toList _ (argument "exports".toList _ (argument code _ closed)))
  have function := (harmless_opening "Function".toList (by decide +kernel)
    (by decide +kernel) (.inl rfl)).follow arguments
  have new := (harmless_word "new".toList (by decide +kernel)).append
    (function.spaced (((begins_word (by decide +kernel)).append _).append _))
    (by
      intro more _ c same
      cases same
      decide)
  have opened := new.marked (c := '[') (by decide) (by decide)
  have row := (opened.spaced ⟨'[', _, rfl, by decide⟩).marked (c := ':') (by decide) (by decide)
  rw [tableEntry_string]
  exact (harmless_literal _).follow row

-- The banner is one comment on a line of its own.
theorem banner_parts (count : Nat) (entry : Asset) :
    ∃ inner, banner count entry = ('/' :: '*' :: (inner ++ ['*', '/'])) ++ ['\n'] ∧ '/' ∉ inner := by
  have opening : "/* minipack bundle: ".toList = '/' :: '*' :: " minipack bundle: ".toList := by
    decide +kernel
  have closing : " */\n".toList = [' ', '*', '/', '\n'] := by decide +kernel
  have named : '/' ∉ Path.basename entry.path := Path.slash_notMem_basename _
  have kept : Text.replace "*/".toList "* /".toList (Path.basename entry.path)
      = Path.basename entry.path := Text.replace_absent (c := '/') (by decide +kernel) named
  have counted : '/' ∉ Json.natText count := fun member =>
    absurd (Json.natText_digits count _ member) (by decide)
  have plain : '/' ∉ (if count = 1 then " module, entry " else " modules, entry ").toList := by
    split <;> decide +kernel
  refine ⟨" minipack bundle: ".toList ++ Json.natText count
    ++ (if count = 1 then " module, entry " else " modules, entry ").toList
    ++ Path.basename entry.path ++ [' '], ?_, ?_⟩
  · delta banner
    rw [kept, opening, closing]
    simp only [List.cons_append, List.append_assoc, List.nil_append]
  · have first : '/' ∉ " minipack bundle: ".toList := by decide +kernel
    simp only [List.mem_append, not_or]
    exact ⟨⟨⟨⟨first, counted⟩, plain⟩, named⟩, by decide⟩

theorem divides_banner (start : Reading) (count : Nat) (entry : Asset) :
    ∃ comment, Divides start (banner count entry) [⟨.comment, comment⟩, ⟨.blanks, ['\n']⟩] NotBlank := by
  obtain ⟨inner, parts, absent⟩ := banner_parts count entry
  rw [parts]
  have commented : Divides start ('/' :: '*' :: (inner ++ ['*', '/']))
      [⟨.comment, '/' :: '*' :: (inner ++ ['*', '/'])⟩] Anything := ?_
  · exact ⟨_, commented.append (divides_blank _ (.inr rfl)) fun _ _ => trivial⟩
  refine .piece (List.cons_ne_nil _ _) fun more _ => ?_
  have closed := Lexeme.blockCommentRest?_closed absent more
  have comment : Lexeme.comment? ('/' :: '*' :: (inner ++ ['*', '/']) ++ more)
      = some (inner.length + 4) := by
    simp [Lexeme.comment?, Lexeme.lineComment?, Lexeme.blockComment?, closed]
  have regex : Lexeme.regexBody? ('/' :: '*' :: (inner ++ ['*', '/']) ++ more) = none := rfl
  have blanks : Lexeme.blanks? ('/' :: '*' :: (inner ++ ['*', '/']) ++ more) = none := rfl
  simp only [nextPiece, regex, blanks, comment]
  split <;> simp

-- Where the table of modules opens.
def tableOpening : Text := script ++ "(\x7b\n".toList

-- All that is read off the text of the script, in one evaluation, with its lines given as characters.
theorem tableOpening_read :
    settled (piecesFrom {} tableOpening) = true ∧
      readThrough {} (piecesFrom {} tableOpening) = ⟨.mark '\x7b', [false]⟩ ∧
      tableOpening.contains '<' = false ∧ tableOpening.head? = some '(' := by
  unfold tableOpening script scriptLines
  simp only [List.map_cons, List.map_nil]
  repeat rw [String.toList_ofList]
  decide +kernel

theorem divides_tableOpening :
    ∃ opening, Divides {} tableOpening opening NotBlank ∧ Calm (readThrough {} opening) := by
  have ends : Lexeme.EndsLine tableOpening := by
    simp [Lexeme.EndsLine, tableOpening, List.getLast?_append]
  obtain ⟨closed, inside, _⟩ := tableOpening_read
  refine ⟨_, ⟨piecesFrom_texts {} _, fun more apart => piecesFrom_append (.inr ends) closed apart⟩, 1, ?_⟩
  rw [inside]
  rfl

end Bundle
end ModuleBundler
