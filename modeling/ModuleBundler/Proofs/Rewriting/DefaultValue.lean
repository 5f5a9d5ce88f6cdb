import ModuleBundler.Loader.Basic
import ModuleBundler.Proofs.Syntax.Expressions
import ModuleBundler.Rewriting.Basic

/-!
A module that is one default export. Its value stays as it is written, behind an assignment in place of
the declaration.
-/
namespace ModuleBundler

open Masking (Anything NotBlank NotName Begins)

namespace Syntax

-- The machine behind `export default`, with what it takes in after it.
theorem result?_puts (word defaultWord : Token) (nodes : List Node) :
    (nodes.foldl Machine.put ⟨[], .exportDefault word defaultWord, []⟩).result?
      = some ⟨.export word (.default defaultWord .expression) :: nodes.map .node⟩ := by
  cases nodes with
  | nil => rfl
  | cons node nodes =>
    rw [Machine.put_outside rfl (List.cons_ne_nil _ _)]
    simp [Machine.result?, Machine.settled, Machine.finish]

-- Three steps take the parser in front of the blank before the value.
theorem parseFrom_defaultExport (more : Text) (fuel : Nat) :
    ∃ word defaultWord cursor, word.start = 0 ∧ defaultWord.stop = 14 ∧ cursor.rest = more ∧
      parseFrom (fuel + 3) {} (Cursor.start ("export default".toList ++ more)) none
        = parseFrom fuel ⟨[], .exportDefault word defaultWord, []⟩ cursor (some defaultWord) := by
  let first := Cursor.start ("export default".toList ++ more)
  let word := first.token (.keyword .export_) 6
  let second := (first.advance 6).advance 1
  let defaultWord := second.token (.keyword .default) 7
  have exportRead : Lexer.lexeme? (Machine.expected {}) first.before first.rest
      = some (.token (.keyword .export_) 6) := rfl
  have exporting : Machine.feed {} word = some ⟨[], .exporting word, []⟩ := rfl
  have blankRead : Lexer.lexeme? (Machine.expected ⟨[], .exporting word, []⟩) (first.advance 6).before
      (first.advance 6).rest = some (.skipped 1) := rfl
  have defaultRead : Lexer.lexeme? (Machine.expected ⟨[], .exporting word, []⟩) second.before second.rest
      = some (.token (.keyword .default) 7) := rfl
  have valued : Machine.feed ⟨[], .exporting word, []⟩ defaultWord
      = some ⟨[], .exportDefault word defaultWord, []⟩ := rfl
  refine ⟨word, defaultWord, second.advance 7, rfl, rfl, rfl, ?_⟩
  rw [parseFrom_token (List.cons_ne_nil _ _) exportRead exporting,
    parseFrom_skipped (List.cons_ne_nil _ _) blankRead,
    parseFrom_token (List.cons_ne_nil _ _) defaultRead valued]

theorem code_value (code : Code expression apart) (begins : Begins expression)
    (ends : ∀ more, apart (';' :: more)) : Code ([' '] ++ (expression ++ ([';'] ++ ['\n']))) NotBlank := by
  have gap : Code [' '] NotBlank := code_blanks (by decide) (by decide)
  have line : Code ['\n'] NotBlank := code_blanks (by decide) (by decide)
  have semicolon : Code [';'] Anything := code_mark (by decide)
  have ended : Code (expression ++ ([';'] ++ ['\n'])) NotBlank :=
    code.append (semicolon.append line fun _ _ => trivial) fun more _ => ends _
  refine gap.append ended fun more _ => ?_
  rw [List.append_assoc]
  exact begins.notBlank _

theorem defaultExport_parts (expression : Text) : Loader.defaultExport expression
    = "export default".toList ++ ([' '] ++ (expression ++ ([';'] ++ ['\n']))) := by
  have words : "export default ".toList = "export default".toList ++ [' '] := rfl
  unfold Loader.defaultExport
  rw [words, List.append_assoc, List.append_assoc]
  congr 1

theorem parse_defaultExport (code : Code expression apart) (begins : Begins expression)
    (ends : ∀ more, apart (';' :: more)) :
    ∃ word defaultWord, ∃ nodes : List Node,
      parse (Loader.defaultExport expression)
        = .ok ⟨.export word (.default defaultWord .expression) :: nodes.map .node⟩ ∧
      word.start = 0 ∧ defaultWord.stop = 14 := by
  have value := code_value code begins ends
  have nothing : NotBlank [] := nofun
  obtain ⟨word, defaultWord, cursor, start, stop, rest, opened⟩ :=
    parseFrom_defaultExport ([' '] ++ (expression ++ ([';'] ++ ['\n']))) (expression.length + 14)
  obtain ⟨less, nodes, next, last, behind, _, same⟩ := value.adds [] nothing (expression.length + 14)
    ⟨[], .exportDefault word defaultWord, []⟩ cursor (some defaultWord) (.inr ⟨rfl, word, defaultWord, rfl⟩)
    (by rw [rest, List.append_nil]) (by simp)
  have length : (Loader.defaultExport expression).length = expression.length + 14 + 3 := by
    have words : "export default".toList.length = 14 := rfl
    rw [defaultExport_parts, List.length_append, words]
    simp only [List.length_append, List.length_singleton]
    omega
  refine ⟨word, defaultWord, nodes, ?_, start, stop⟩
  rw [parse, length, defaultExport_parts, opened, same, parseFrom.eq_def]
  simp only [behind, result?_puts]

-- No part of it is a regex literal.
theorem mask_defaultExport (code : Code expression apart) (begins : Begins expression)
    (ends : ∀ more, apart (';' :: more)) :
    Masking.mask (Loader.defaultExport expression) = Loader.defaultExport expression := by
  have gap : Masking.Shown [' '] NotBlank := Masking.shown_blanks (by decide) (by decide)
  have exportWord : Masking.Shown "export".toList NotName := Masking.shown_word (by decide)
  have defaultWord : Masking.Shown "default".toList NotName := Masking.shown_word (by decide)
  have blank : ∀ c more, Text.isNameChar c = false → NotName (c :: more) := by
    rintro c more unnamed d same
    cases same
    exact unnamed
  have words : Masking.Shown ("export".toList ++ ([' '] ++ "default".toList)) NotName := by
    refine exportWord.append (gap.append defaultWord ?_) fun more _ => blank ' ' _ (by decide)
    rintro more _ c same
    cases same
    decide
  have whole := words.append (code_value code begins ends).shown fun more _ => blank ' ' _ (by decide)
  have spelled : "export default".toList = "export".toList ++ ([' '] ++ "default".toList) := rfl
  rw [defaultExport_parts, spelled]
  exact Masking.mask_shown whole nofun (by simp)

end Syntax

namespace Rewriting

-- What a module becomes that exports an expression by default.
def assigned (expression : Text) : Text :=
  Prologue.strictLine ++ '\n' :: (Prologue.markerLine ++ '\n' ::
    ("exports[\"default\"] = ".toList ++ expression ++ ";\n".toList))

theorem analyze_defaultExport (word defaultWord : Token) (nodes : List Node) :
    ∃ localNames, analyze ⟨.export word (.default defaultWord .expression) :: nodes.map .node⟩
      = .ok ⟨[⟨word.start, defaultWord.stop, .assignsDefault none false⟩], localNames, {}, [], []⟩ := by
  have siblings : (nodes.map Syntax.Item.node).mapM sibling = .ok (nodes.map Sibling.node) := by
    induction nodes with
    | nil => rfl
    | cons node nodes ih =>
      rw [List.map_cons, List.mapM_cons, ih]
      rfl
  have others : ∀ nodes : List Node, declarations (nodes.map Sibling.node) = [] := by
    intro nodes
    induction nodes with
    | nil => rfl
    | cons node nodes ih => exact ih
  let declaration : Declaration := ⟨word.start, defaultWord.stop, .assignsDefault none false⟩
  have read : (Syntax.Item.export word (.default defaultWord .expression) :: nodes.map .node).mapM sibling
      = .ok (.declaration declaration :: nodes.map Sibling.node) := by
    rw [List.mapM_cons, siblings]
    rfl
  have found : declarations (.declaration declaration :: nodes.map Sibling.node) = [declaration] := by
    rw [declarations, others]
    cases nodes <;> rfl
  refine ⟨Sibling.localNames (.declaration declaration :: nodes.map Sibling.node), ?_⟩
  rw [analyze, read]
  simp only [bind, Except.bind, found]
  rfl

theorem transpile_defaultExport (code : Syntax.Code expression apart) (begins : Begins expression)
    (ends : ∀ more, apart (';' :: more)) :
    transpile (Loader.defaultExport expression) = .ok ⟨⟨[]⟩, assigned expression⟩ := by
  obtain ⟨word, defaultWord, nodes, parsed, start, stop⟩ := Syntax.parse_defaultExport code begins ends
  obtain ⟨localNames, analyzed⟩ := analyze_defaultExport word defaultWord nodes
  have replaced : declarationEdit (Loader.defaultExport expression)
      ⟨word.start, defaultWord.stop, .assignsDefault none false⟩
        = ⟨0, 14, "exports[\"default\"] =".toList⟩ := by
    rw [Syntax.defaultExport_parts, start, stop]
    rfl
  rw [transpile, analyzeSource, Syntax.mask_defaultExport code begins ends, parsed]
  simp only [Except.mapError, bind, Except.bind, analyzed]
  rw [Except.map, Analysis.transpiled]
  simp only [List.map_cons, List.map_nil, List.nil_append, replaced, sortedEdits, List.mergeSort_singleton]
  rw [Syntax.defaultExport_parts]
  rfl

end Rewriting
end ModuleBundler
