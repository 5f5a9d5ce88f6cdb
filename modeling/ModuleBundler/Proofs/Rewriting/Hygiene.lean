import ModuleBundler.Proofs.Rewriting.Capture
import ModuleBundler.Proofs.Rewriting.Variables

/-!
The names that generated code uses are fixed by the declarations of a module, not chosen to differ from its
own.
-/
namespace ModuleBundler

namespace Prologue

def exportNames : List Text := ["Object".toList, "exports".toList]

-- Parameters of the loader and globals that a line uses.
def outer : Statement → List Text
  | .require _ _ => ["require".toList]
  | .exportAll _ | .getter _ _ => exportNames
  | .view _ | .declare _ => []

-- Words of the language, keys of properties and the parameter of a callback.
def scaffold : List Text := ["var".toList, "function".toList, "return".toList, "if".toList, "true".toList,
  "enumerable".toList, "get".toList, "value".toList, "key".toList]

theorem getsWords_scaffold : Statement.getsWords ⊆ scaffold := by decide +kernel

theorem copiesWords_known : Statement.copiesWords ⊆ exportNames ++ scaffold := by decide +kernel

-- Where the words of a line come from.
theorem spelled_cases {statement : Statement} (backed : Backed declarations offers statement)
    (named : ∀ name, Owns declarations name → Text.IsName name) (found : name ∈ statement.spelled) :
    Carried offers name ∨ name ∈ outer statement ∨ Owns declarations name ∨ name ∈ scaffold := by
  have word : "var".toList ∈ scaffold := by decide +kernel
  cases statement with
  | require index specifier =>
    simp only [Statement.spelled, List.mem_cons, List.not_mem_nil, or_false] at found
    rcases found with rfl | rfl | rfl
    · exact .inr (.inr (.inr word))
    · exact .inl ⟨index, .namespace, backed, rfl⟩
    · exact .inr (.inl List.mem_cons_self)
  | view index =>
    simp only [Statement.spelled, List.mem_cons, List.mem_replicate] at found
    rcases found with rfl | rfl | ⟨_, rfl⟩
    · exact .inr (.inr (.inr word))
    · exact .inl ⟨index, .default, backed.2, rfl⟩
    · exact .inl ⟨index, .namespace, backed.1, rfl⟩
  | declare bindings =>
    rw [Statement.spelled, List.mem_cons, List.mem_flatMap] at found
    rcases found with rfl | ⟨binding, among, spelled⟩
    · exact .inr (.inr (.inr word))
    · obtain ⟨owns, read⟩ := backed binding among
      simp only [List.mem_cons, List.not_mem_nil, or_false] at spelled
      rcases spelled with rfl | rfl
      · exact .inr (.inr (.inl owns))
      · exact .inl read.carried
  | exportAll index =>
    rw [Statement.spelled, List.mem_append, List.mem_append] at found
    rcases found with (front | copies) | back
    · simp only [List.mem_cons, List.not_mem_nil, or_false] at front
      rcases front with rfl | rfl
      · exact .inr (.inl List.mem_cons_self)
      · exact .inl ⟨index, .namespace, backed.2, rfl⟩
    · rcases List.mem_append.mp (copiesWords_known copies) with names | known
      · exact .inr (.inl names)
      · exact .inr (.inr (.inr known))
    · simp only [List.mem_cons, List.not_mem_nil, or_false] at back
      rcases back with rfl | rfl
      · exact .inl ⟨index, .namespace, backed.2, rfl⟩
      · exact .inr (.inr (.inr (by decide +kernel)))
  | getter exported expression =>
    rw [Statement.spelled, List.mem_append, List.mem_append] at found
    rcases found with (names | gets) | read
    · exact .inr (.inl names)
    · exact .inr (.inr (.inr (getsWords_scaffold gets)))
    · rw [List.mem_singleton] at read
      rcases backed.2 with reads | owns
      · exact .inl (read ▸ reads.carried)
      · rw [root_name (named _ owns)] at read
        exact .inr (.inr (.inl (read ▸ owns)))

end Prologue

namespace Rewriting

-- The names that a module declares or imports at any depth, the code in its templates included. What an
-- export declares is no part of the code around it.
inductive Own : Module → List Sibling → Text → Prop where
  | bound (bound : Sibling.Bound items overlooked name) : Own parsed items name
  | imported (among : .declaration declaration ∈ items)
      (imports : declaration.meaning = .imports source bindings) (binds : binding ∈ bindings) :
      Own parsed items binding.localName
  | exported (among : .declaration declaration ∈ items)
      (exports : declaration.meaning = .exportsLocal exported name isClass) : Own parsed items name
  | declarator (among : .export word (.variable kind target) ∈ parsed.items)
      (binds : Node.Binds overlooked target name) : Own parsed items name
  | laterDeclarator (exports : declaration.meaning = .exportsVariables names)
      (listed : Sibling.Declarators broken (.declaration declaration) rest target)
      (binds : Node.Binds overlooked target name) :
      Own parsed (before ++ .declaration declaration :: rest) name
  | substituted {item : Syntax.Item} (among : item ∈ parsed.items) (part : token ∈ item.tokens)
      (template : token.terminal = .leaf .template)
      (stands : (offset, body) ∈ Reference.substitutions none token.start 0 token.text)
      (parses : Syntax.parse (Masking.mask body) = .ok code)
      (read : code.items.mapM sibling = .ok codeItems) (own : Own code codeItems name) :
      Own parsed items name

open Prologue Segment

-- The variables that the prologue of a module introduces.
def Analysis.introduced (analysis : Analysis) : List Text := Prologue.introduced analysis.statements

-- What generated code uses of what stands around a module.
def Analysis.outer (analysis : Analysis) : List Text :=
  (if hasExports analysis.declarations then exportNames else [])
    ++ analysis.statements.flatMap Prologue.outer

-- The names of generated code, as the declarations of a module fix them.
inductive Fixed (declarations : List Declaration) (specifiers : List CodePoints) :
    Text → Prop where
  | dependency (inside : index < specifiers.length) : Fixed declarations specifiers (dependencyVariable index)
  | view (views : Views declarations specifiers index) : Fixed declarations specifiers (viewVariable index)
  | loader (depends : specifiers ≠ []) : Fixed declarations specifiers "require".toList
  | exporting (exports : hasExports declarations = true) (among : name ∈ exportNames) :
    Fixed declarations specifiers name

variable {source name : Text} {analysis : Analysis}

theorem introduced_carried (analyzed : analyzeSource source = .ok analysis) :
    name ∈ analysis.introduced ↔ Carried analysis.imports.Offers name := by
  obtain ⟨built, _⟩ := Analysis.built analyzed
  rw [Analysis.introduced, introduced_statements analyzed, built.introduces]

theorem introduced_iff (analyzed : analyzeSource source = .ok analysis) :
    name ∈ analysis.introduced ↔
      (∃ index < analysis.imports.dependencies.length, name = dependencyVariable index) ∨
        ∃ index, Views analysis.declarations analysis.imports.dependencies index ∧
          name = viewVariable index := by
  obtain ⟨built, _⟩ := Analysis.built analyzed
  rw [introduced_carried analyzed]
  constructor
  · rintro ⟨index, imported, ⟨inside, viewed⟩, rfl⟩
    cases imported with
    | default => exact .inr ⟨index, built.views index (viewed rfl), rfl⟩
    | «namespace» | named => exact .inl ⟨index, inside, rfl⟩
  · rintro (⟨index, inside, rfl⟩ | ⟨index, views, rfl⟩)
    · exact ⟨index, .namespace, ⟨inside, nofun⟩, rfl⟩
    · exact ⟨index, .default, ⟨views.inside, fun _ => Analysis.viewed analyzed views⟩, rfl⟩

theorem outer_iff (analyzed : analyzeSource source = .ok analysis) :
    name ∈ analysis.outer ↔ (name = "require".toList ∧ analysis.imports.dependencies ≠ []) ∨
      (name ∈ exportNames ∧ hasExports analysis.declarations = true) := by
  obtain ⟨_, backed⟩ := Analysis.built analyzed
  rw [Analysis.outer, List.mem_append, List.mem_flatMap]
  constructor
  · rintro (marked | ⟨statement, among, uses⟩)
    · split at marked
      · rename_i exports
        exact .inr ⟨marked, exports⟩
      · cases marked
    · have own := backed statement among
      cases statement with
      | require index specifier =>
        exact .inl ⟨List.mem_singleton.mp uses, List.ne_nil_of_length_pos (Nat.zero_lt_of_lt own.1)⟩
      | exportAll | getter => exact .inr ⟨uses, own.1⟩
      | view | declare => cases uses
  · rintro (⟨rfl, depends⟩ | ⟨among, exports⟩)
    · obtain ⟨specifier, rest, some_⟩ := List.exists_cons_of_ne_nil depends
      obtain ⟨_, each⟩ := Analysis.requires analyzed
      have first : (0, specifier) ∈ required analysis.statements := by
        rw [each, mem_numbered, some_]
        rfl
      obtain ⟨statement, among, requires⟩ := List.mem_filterMap.mp first
      refine .inr ⟨statement, among, ?_⟩
      cases statement with
      | require => exact List.mem_singleton_self _
      | view | declare | exportAll | getter => cases requires
    · rw [if_pos exports]
      exact .inl among

theorem fixed_iff (analyzed : analyzeSource source = .ok analysis) :
    name ∈ analysis.introduced ∨ name ∈ analysis.outer ↔
      Fixed analysis.declarations analysis.imports.dependencies name := by
  rw [introduced_iff analyzed, outer_iff analyzed]
  constructor
  · rintro ((⟨index, inside, rfl⟩ | ⟨index, views, rfl⟩) | (⟨rfl, depends⟩ | ⟨among, exports⟩))
    · exact .dependency inside
    · exact .view views
    · exact .loader depends
    · exact .exporting exports among
  · intro fixed
    cases fixed with
    | dependency inside => exact .inl (.inl ⟨_, inside, rfl⟩)
    | view views => exact .inl (.inr ⟨_, views, rfl⟩)
    | loader depends => exact .inr (.inl ⟨rfl, depends⟩)
    | exporting exports among => exact .inr (.inr ⟨among, exports⟩)

-- A live reference reads a variable of the prologue.
theorem edits_read (analyzed : analyzeSource source = .ok analysis) : ∀ edit ∈ analysis.edits,
    ∃ index imported, carrier index imported ∈ analysis.introduced ∧
      (edit.text = bindingExpression index imported ∨
        edit.text = edit.removed source ++ ':' :: ' ' :: bindingExpression index imported) := by
  obtain ⟨built, _⟩ := Analysis.built analyzed
  obtain ⟨parsed, parses, meant⟩ := analyzeSource_parts analyzed
  obtain ⟨items, read, _, _, _, edits⟩ := analyze_parts meant
  have laid := Syntax.parse_laid parses
  rw [List.flatMap_def] at laid
  intro edit among
  rcases edits with none | edits
  · rw [none] at among
    cases among
  · rw [edits] at among
    have replaces := (Reference.edits_replace [] (items_covers read) laid.cut edit among).unmask
    obtain ⟨expression, looked, text⟩ := replaces.reads
    obtain ⟨index, imported, offers, rfl⟩ := built.live _ expression looked
    exact ⟨index, imported, (introduced_carried analyzed).mpr ⟨index, imported, offers, rfl⟩, text⟩

theorem declarationEdit_text (source : Text) (declaration : Declaration) :
    ∃ front count, (declarationEdit source declaration).text = front ++ List.replicate count '\n' ∧
      (front = [] ∨ front = "var".toList ∨
        front = "exports[\"default\"] =".toList ∧ declaration.isImport = false) := by
  refine ⟨_, _, rfl, ?_⟩
  unfold Declaration.isImport
  cases declaration.meaning with
  | assignsDefault => exact .inr (.inr ⟨rfl, rfl⟩)
  | exportsVariables => exact .inr (.inl rfl)
  | imports | exportsLocal | exportsNames | reexports | reexportsAll | reexportsNamespace => exact .inl rfl

theorem introduced?_spelled {statement : Statement} (declares : statement.introduced? = some name) :
    name ∈ statement.spelled := by
  cases statement with
  | require | view =>
    cases declares
    exact List.mem_cons_of_mem _ List.mem_cons_self
  | declare | exportAll | getter => cases declares

theorem outer_spelled (statement : Statement) : Prologue.outer statement ⊆ statement.spelled := by
  cases statement with
  | require index specifier =>
    rintro _ member
    cases List.mem_singleton.mp member
    simp [Statement.spelled]
  | exportAll index =>
    have names : exportNames ⊆ Statement.spelled (.exportAll index) := by
      simp [exportNames, Statement.spelled, Statement.copiesWords]
    exact names
  | getter => exact List.subset_append_of_subset_left _ (List.subset_append_left _ _)
  | view | declare => exact List.nil_subset _

-- What generated code uses stands in the prologue.
theorem generated_spelled (generated : name ∈ analysis.introduced ∨ name ∈ analysis.outer) :
    name ∈ Prologue.spelled (hasExports analysis.declarations) analysis.statements := by
  have marker : exportNames ⊆ markerWords := by decide +kernel
  rcases generated with introduced | outer
  · obtain ⟨statement, among, declares⟩ := List.mem_filterMap.mp introduced
    exact List.mem_append_right _ (List.mem_flatMap.mpr ⟨statement, among, introduced?_spelled declares⟩)
  · rcases List.mem_append.mp outer with marked | used
    · refine List.mem_append_left _ ?_
      split at marked
      · rename_i exports
        rw [if_pos exports]
        exact marker marked
      · cases marked
    · obtain ⟨statement, among, uses⟩ := List.mem_flatMap.mp used
      exact List.mem_append_right _ (List.mem_flatMap.mpr ⟨statement, among, outer_spelled statement uses⟩)

theorem spelled_generated (analyzed : analyzeSource source = .ok analysis)
    (spelled : name ∈ Prologue.spelled (hasExports analysis.declarations) analysis.statements) :
    name ∈ analysis.introduced ∨ name ∈ analysis.outer ∨ Owns analysis.declarations name ∨
      name ∈ scaffold := by
  obtain ⟨_, backed⟩ := Analysis.built analyzed
  have markers : markerWords ⊆ exportNames ++ scaffold := by decide +kernel
  have named : ∀ name, Owns analysis.declarations name → Text.IsName name := by
    rintro name ⟨declaration, among, member⟩
    exact meanings_named analyzed declaration among name member
  rcases List.mem_append.mp spelled with marked | lines
  · split at marked
    · rename_i exports
      rcases List.mem_append.mp (markers marked) with names | known
      · exact .inr (.inl ((outer_iff analyzed).mpr (.inr ⟨names, exports⟩)))
      · exact .inr (.inr (.inr known))
    · cases marked
  · obtain ⟨statement, among, own⟩ := List.mem_flatMap.mp lines
    rcases spelled_cases (backed statement among) named own with carried | outer | others
    · exact .inl ((introduced_carried analyzed).mpr carried)
    · exact .inr (.inl (List.mem_append_right _ (List.mem_flatMap.mpr ⟨statement, among, outer⟩)))
    · exact .inr (.inr others)

theorem transpile_declared (analyzed : analyzeSource source = .ok analysis)
    (declares : analysis.declarations ≠ []) :
    transpile source = .ok ⟨⟨analysis.imports.dependencies⟩,
      analysis.prologue ++ '\n' :: replaced (analysis.spans source) 0 source⟩ := by
  have specifiers : (analysis.transpiled source).specifiers = ⟨analysis.imports.dependencies⟩ := by
    unfold Analysis.transpiled
    split
    · rename_i none
      exact absurd none declares
    · rfl
  rw [transpile, analyzed, ← transpiled_code analyzed declares, ← specifiers]
  rfl

end Rewriting
end ModuleBundler
