import ModuleBundler.Bundle.Basic
import ModuleBundler.Proofs.Rewriting.Names

/-!
Which rewritten modules are rewritten to themselves. A text is one exactly if it parses without
declarations; and a prologue, unless it has to name what only declarations begin with, leaves that to
the text behind it.
-/
namespace ModuleBundler.Rewriting

open Syntax

theorem siblings_of_code {items : List Item} (code : items.all Item.isCode = true) :
    ∃ siblings, items.mapM sibling = .ok siblings := by
  induction items with
  | nil => exact ⟨[], rfl⟩
  | cons item items ih =>
    simp only [List.all_cons, Bool.and_eq_true] at code
    obtain ⟨rest, read⟩ := ih code.2
    obtain ⟨found, here⟩ : ∃ found, sibling item = .ok found := by
      cases item with
      | node | importCall | importMeta => exact ⟨_, rfl⟩
      | importBare | importFrom | «export» => cases code.1
    refine ⟨found :: rest, ?_⟩
    rw [List.mapM_cons, here, read]
    rfl

theorem sibling_declares (read : sibling item = .ok found) :
    item.isCode = false ↔ ∃ declaration, found = .declaration declaration := by
  cases item with
  | node | importCall | importMeta =>
    cases read
    exact ⟨nofun, nofun⟩
  | importBare | importFrom | «export» =>
    obtain ⟨_, _, same⟩ := ok_of_bind read
    cases same
    exact ⟨fun _ => ⟨_, rfl⟩, fun _ => rfl⟩

theorem declarations_eq_nil {items : List Item} (read : items.mapM sibling = .ok siblings) :
    declarations siblings = [] ↔ items.all Item.isCode = true := by
  have each := forall₂_of_mapM read
  clear read
  induction each with
  | nil => exact ⟨fun _ => rfl, fun _ => rfl⟩
  | @cons item found _ rest here _ ih =>
    have declares := sibling_declares here
    rw [List.all_cons, Bool.and_eq_true]
    refine Iff.trans ?_ (and_congr_right fun _ => ih)
    cases found with
    | declaration declaration =>
      have other := declares.mpr ⟨declaration, rfl⟩
      simp [declarations, other]
    | node | importExpression =>
      have code : item.isCode = true := by
        cases code : item.isCode with
        | true => rfl
        | false =>
          obtain ⟨_, same⟩ := declares.mp code
          cases same
      simp [declarations, code]

-- A text that declares something gets a prologue and with it more lines.
theorem transpiled_ne (analyzed : analyzeSource source = .ok analysis)
    (some_ : analysis.declarations ≠ []) : (analysis.transpiled source).code ≠ source := by
  intro same
  have code := transpiled_code analyzed some_
  have counted := newlines_spans analyzed (Nat.le_refl source.length) fun edit among =>
    .inl (spans_proper analyzed edit among).2
  rw [same] at code
  have lines := congrArg Text.newlines code
  rw [List.take_length] at counted
  unfold Text.newlines at lines counted
  rw [List.count_append, List.count_cons_self, counted] at lines
  omega

theorem transpile_fixed_iff_plain (text : Text) :
    transpile text = .ok ⟨⟨[]⟩, text⟩ ↔ isPlain (Masking.mask text) = true := by
  constructor
  · intro accepted
    obtain ⟨analysis, analyzed, same⟩ := transpile_analysis accepted
    have none : analysis.declarations = [] := by
      by_contra some_
      exact transpiled_ne analyzed some_ (congrArg Transpiled.code same)
    obtain ⟨parsed, parses, meant⟩ := analyzeSource_parts analyzed
    obtain ⟨items, read, found, _⟩ := analyze_parts meant
    rw [isPlain, parses]
    exact (declarations_eq_nil read).mp (found.symm.trans none)
  · intro plain
    rw [isPlain] at plain
    cases parses : parse (Masking.mask text) with
    | error fault =>
      rw [parses] at plain
      cases plain
    | ok parsed =>
      rw [parses] at plain
      obtain ⟨items, read⟩ := siblings_of_code plain
      have none := (declarations_eq_nil read).mpr plain
      have analyzed : analyze parsed = .ok ⟨[], Sibling.localNames items, {}, [], []⟩ := by
        rw [analyze, read]
        simp only [bind, Except.bind, none]
        rfl
      rw [transpile, analyzeSource, parses]
      simp only [Except.mapError, bind, Except.bind, analyzed]
      rfl

-- The words of declarations that a prologue has to name.
def Analysis.words (analysis : Analysis) : List Text :=
  Prologue.words (analysis.getters ++ analysis.imports.statements)

-- A rewritten module is rewritten to itself exactly if it had no declarations, or its edited source is
-- still code where it stands on a new line and no line in front of it needs the name of a declaration.
theorem transpile_fixed_iff (accepted : transpile source = .ok result) :
    ∃ analysis, analyzeSource source = .ok analysis ∧
      (transpile result.code = .ok ⟨⟨[]⟩, result.code⟩ ↔
        analysis.declarations = [] ∨
          (∀ word ∈ analysis.words, word ∉ Lexer.reserved) ∧
            isPlain (Masking.mask ('\n' :: replaced (analysis.spans source) 0 source)) = true) := by
  obtain ⟨analysis, analyzed, same⟩ := transpile_analysis accepted
  refine ⟨analysis, analyzed, ?_⟩
  by_cases some_ : analysis.declarations = []
  · have own : result = ⟨⟨[]⟩, source⟩ := by
      rw [← same]
      simp [Analysis.transpiled, some_]
    subst own
    exact ⟨fun _ => .inl some_, fun _ => accepted⟩
  · have code := transpiled_code analyzed some_
    rw [same] at code
    rw [transpile_fixed_iff_plain, code, Analysis.prologue, or_iff_right some_]
    exact Prologue.mask_render_isPlain _ (statements_proper analyzed) _

def dividedSource : Text := "import a from './a';\nexport const b = a / 2;\n".toList

theorem transpile_divided : ∃ result, transpile dividedSource = .ok result ∧
    transpile result.code = .ok ⟨⟨[]⟩, result.code⟩ := by
  have found : (analyzeSource dividedSource).toOption.map (fun analysis =>
      (decide (∀ word ∈ analysis.words, word ∉ Lexer.reserved),
        isPlain (Masking.mask ('\n' :: replaced (analysis.spans dividedSource) 0 dividedSource))))
      = some (true, true) := by
    unfold dividedSource
    rw [String.toList_ofList]
    decide +kernel
  obtain ⟨analysis, analyzed, shown⟩ := ok_of_toOption_map found
  simp only [Prod.mk.injEq, decide_eq_true_eq] at shown
  have accepted : transpile dividedSource = .ok (analysis.transpiled dividedSource) := by
    rw [transpile, analyzed]
    rfl
  obtain ⟨same, analyzed', fixed⟩ := transpile_fixed_iff accepted
  cases analyzed.symm.trans analyzed'
  exact ⟨_, accepted, fixed.mpr (.inr shown)⟩

-- The slash stands behind a semicolon in the source, where a regex can begin, and behind a name in the
-- rewritten module, where it divides.
def slashedSource : Text := "foo\nimport './a';  /\x7d/.test(x)\n".toList

def slashedCode : Text :=
  "\"use strict\";\nvar __dep0 = require(\"./a\");\nfoo\n  /\x7d/.test(x)\n".toList

theorem slashed_not_fixed : ∃ result, transpile slashedSource = .ok result ∧
    transpile result.code ≠ .ok ⟨⟨[]⟩, result.code⟩ ∧ Bundle.body .function result.code = .string result.code := by
  have ⟨found, refused, isolated⟩ : (analyzeSource slashedSource).toOption.map (fun analysis =>
      (analysis.declarations.isEmpty,
        analysis.prologue ++ '\n' :: replaced (analysis.spans slashedSource) 0 slashedSource))
      = some (false, slashedCode) ∧
      ¬ isPlain (Masking.mask slashedCode) = true ∧ Bundle.body .function slashedCode = .string slashedCode := by
    unfold slashedSource slashedCode
    repeat rw [String.toList_ofList]
    decide +kernel
  obtain ⟨analysis, analyzed, shown⟩ := ok_of_toOption_map found
  simp only [Prod.mk.injEq, List.isEmpty_eq_false_iff] at shown
  have code := (transpiled_code analyzed shown.1).trans shown.2
  refine ⟨analysis.transpiled slashedSource, ?_, ?_, ?_⟩
  · rw [transpile, analyzed]
    rfl
  · rw [ne_eq, transpile_fixed_iff_plain, code]
    exact refused
  · rw [code]
    exact isolated

end ModuleBundler.Rewriting
