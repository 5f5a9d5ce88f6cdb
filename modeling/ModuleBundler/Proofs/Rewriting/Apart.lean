import ModuleBundler.Proofs.Rewriting.Parts

/-!
Generated code and the names of a module. Generated code reads variables of the prologue, parameters of the
loader and one global; none of them is declared in another place exactly if the module declares no name that
generated code uses.
-/
namespace ModuleBundler.Rewriting

open Prologue Segment

-- What the lines of a prologue declare, once for each declaration.
def Analysis.declared (analysis : Analysis) : List Text := analysis.statements.flatMap Statement.declared

-- The names that the import declarations of a module bind, once for each binding.
def Analysis.importedNames (analysis : Analysis) : List Text :=
  (analysis.declarations.flatMap Declaration.importBindings).map (·.2.localName)

variable {source name : Text} {analysis : Analysis} {parsed : Module} {items : List Sibling}

-- Beside the variables of generated code, the lines of a prologue declare what the module imports.
theorem declared_names (analyzed : analyzeSource source = .ok analysis) :
    analysis.declared.Perm (analysis.introduced ++ analysis.importedNames) := by
  obtain ⟨parsed, _, meant⟩ := analyzeSource_parts analyzed
  obtain ⟨items, _, _, imports, _⟩ := analyze_parts meant
  obtain ⟨bound, follows⟩ := imports_follow (Sibling.localNames items) analysis.declarations
  rw [← imports] at follows
  have getters : analysis.getters.flatMap Statement.declared = [] := by
    refine List.flatMap_eq_nil_iff.mpr fun statement among => ?_
    obtain ⟨_, _, _, _, _, rfl⟩ := Analysis.getters_cases analyzed statement among
    rfl
  have names : analysis.importedNames = bound.map (·.1.localName) := by
    refine List.forall₂_eq_eq_eq ▸ List.forall₂_map_left_iff.mpr (List.forall₂_map_right_iff.mpr ?_)
    exact follows.reads.imp fun _ _ read => congrArg ImportBinding.localName read.1.symm
  have perm := declared_perm analysis.imports.statements
  rw [follows.declarators, List.map_map] at perm
  rw [Analysis.declared, Analysis.statements, List.flatMap_append, getters, List.nil_append,
    Analysis.introduced,
    introduced_statements analyzed, names]
  exact perm

theorem introduced_distinct (analyzed : analyzeSource source = .ok analysis) : analysis.introduced.Nodup := by
  obtain ⟨built, _⟩ := Analysis.built analyzed
  rw [Analysis.introduced, introduced_statements analyzed]
  exact built.distinct

-- The code that is generated for a module, and the names in it.
structure Generates (source : Text) (analysis : Analysis) : Prop where
  written : ∃ segments, Written segments analysis.prologue (Prologue.words analysis.statements) ∧
    (∀ name, name ∈ analysis.introduced ∨ name ∈ analysis.outer → name ∈ Segment.spelled segments) ∧
    ∀ name ∈ Segment.spelled segments, name ∈ analysis.introduced ∨ name ∈ analysis.outer ∨
      Owns analysis.declarations name ∨ name ∈ scaffold
  once : analysis.introduced.Nodup
  declared : analysis.declared.Perm (analysis.introduced ++ analysis.importedNames)
  live : ∀ edit ∈ analysis.edits, ∃ index imported, carrier index imported ∈ analysis.introduced ∧
    (edit.text = bindingExpression index imported ∨
      edit.text = edit.removed source ++ ':' :: ' ' :: bindingExpression index imported)
  replaced : ∀ declaration ∈ analysis.declarations, ∃ front count,
    (declarationEdit source declaration).text = front ++ List.replicate count '\n' ∧
      (front = [] ∨ front = "var".toList ∨
        front = "exports[\"default\"] =".toList ∧ "exports".toList ∈ analysis.outer)

theorem generates (analyzed : analyzeSource source = .ok analysis) : Generates source analysis where
  written := by
    obtain ⟨segments, written, spelled⟩ :=
      Prologue.render_written (hasExports analysis.declarations) (statements_proper analyzed)
    refine ⟨segments, written, ?_, ?_⟩
    · rw [spelled]
      exact fun name => generated_spelled
    · rw [spelled]
      exact fun name => spelled_generated analyzed
  once := introduced_distinct analyzed
  declared := declared_names analyzed
  live := edits_read analyzed
  replaced := by
    intro declaration among
    obtain ⟨front, count, text, shape⟩ := declarationEdit_text source declaration
    refine ⟨front, count, text, shape.imp_right (.imp_right fun assigns => ⟨assigns.1, ?_⟩)⟩
    have exports : hasExports analysis.declarations = true :=
      List.any_eq_true.mpr ⟨declaration, among, by rw [assigns.2]; rfl⟩
    exact (outer_iff analyzed).mpr (.inr ⟨by decide +kernel, exports⟩)

-- A variable of generated code has one declaration more for each import that takes its name.
theorem count_introduced (analyzed : analyzeSource source = .ok analysis) (among : name ∈ analysis.introduced) :
    analysis.declared.count name = 1 + analysis.importedNames.count name := by
  rw [(declared_names analyzed).count_eq, List.count_append,
    List.count_eq_one_of_mem (introduced_distinct analyzed) among]

-- Generated code does not introduce what it uses from around a module.
theorem outer_apart (analyzed : analyzeSource source = .ok analysis) (among : name ∈ analysis.outer) :
    name ∉ analysis.introduced := by
  have front : name.head? ≠ some '_' := by
    have exporting : ∀ word ∈ exportNames, word.head? ≠ some '_' := by decide +kernel
    rcases (outer_iff analyzed).mp among with ⟨rfl, _⟩ | ⟨listed, _⟩
    · decide +kernel
    · exact exporting name listed
  intro introduced
  rcases (introduced_iff analyzed).mp introduced with ⟨index, _, rfl⟩ | ⟨index, _, rfl⟩ <;> exact front rfl

theorem own_imported (declares : analysis.declarations = declarations items)
    (among : name ∈ analysis.importedNames) : Own parsed items name := by
  rw [Analysis.importedNames, declares, declarations_bindings] at among
  obtain ⟨⟨specifier, binding⟩, imported, rfl⟩ := List.mem_map.mp among
  obtain ⟨item, member, own⟩ := List.mem_flatMap.mp imported
  cases item with
  | node | importExpression => cases own
  | declaration declaration =>
    rw [Sibling.importBindings, Declaration.importBindings] at own
    split at own
    · rename_i bindings meaning
      obtain ⟨_, binds, same⟩ := List.mem_map.mp own
      cases same
      exact .imported member meaning binds
    · cases own

-- What generated code reads is not declared by the module. Each of its variables has one declaration, the
-- line of the prologue that introduces it, and live references read such variables; what it uses from around
-- the module has no declaration in it.
structure Uncaptured (source : Text) (analysis : Analysis) (parsed : Module) (items : List Sibling) :
    Prop where
  single : ∀ name ∈ analysis.introduced, analysis.declared.count name = 1 ∧ ¬ Own parsed items name
  outer : ∀ name ∈ analysis.outer, name ∉ analysis.declared ∧ ¬ Own parsed items name
  live : ∀ edit ∈ analysis.edits, ∃ index imported,
    (edit.text = bindingExpression index imported ∨
      edit.text = edit.removed source ++ ':' :: ' ' :: bindingExpression index imported) ∧
    analysis.declared.count (carrier index imported) = 1 ∧ ¬ Own parsed items (carrier index imported)

-- Where the names keep apart, generated code is not captured, and none of its variables is declared again.
theorem uncaptured (analyzed : analyzeSource source = .ok analysis)
    (declares : analysis.declarations = declarations items)
    (apart : ∀ name, Own parsed items name → name ∉ analysis.introduced ∧ name ∉ analysis.outer) :
    Uncaptured source analysis parsed items := by
  have free : ∀ name, name ∈ analysis.importedNames → name ∉ analysis.introduced ∧ name ∉ analysis.outer :=
    fun name among => apart name (own_imported declares among)
  have single : ∀ name ∈ analysis.introduced,
      analysis.declared.count name = 1 ∧ ¬ Own parsed items name := by
    intro name among
    have unimported : name ∉ analysis.importedNames := fun imported => (free name imported).1 among
    refine ⟨?_, fun own => (apart name own).1 among⟩
    rw [count_introduced analyzed among, List.count_eq_zero.mpr unimported]
  refine ⟨single, ?_, ?_⟩
  · intro name among
    refine ⟨fun declared => ?_, fun own => (apart name own).2 among⟩
    rcases List.mem_append.mp ((declared_names analyzed).mem_iff.mp declared) with introduced | imported
    · exact outer_apart analyzed among introduced
    · exact (free name imported).2 among
  · intro edit among
    obtain ⟨index, imported, introduced, text⟩ := edits_read analyzed edit among
    exact ⟨index, imported, text, single _ introduced⟩

-- Generated code uses the names that the declarations of a module fix, whatever names the module uses. It is
-- captured nowhere and nothing of it is declared again exactly if the module declares none of these.
theorem hygienic_iff (analyzed : analyzeSource source = .ok analysis)
    (declares : analysis.declarations ≠ []) :
    ∃ parsed items, Syntax.parse (Masking.mask source) = .ok parsed ∧ parsed.items.mapM sibling = .ok items ∧
      transpile source = .ok ⟨⟨analysis.imports.dependencies⟩,
        analysis.prologue ++ '\n' :: replaced (analysis.spans source) 0 source⟩ ∧
      Generates source analysis ∧
      (∀ name, name ∈ analysis.introduced ∨ name ∈ analysis.outer ↔
        Fixed analysis.declarations analysis.imports.dependencies name) ∧
      (Uncaptured source analysis parsed items ↔ ∀ name, Own parsed items name →
        ¬ Fixed analysis.declarations analysis.imports.dependencies name) := by
  obtain ⟨parsed, parses, meant⟩ := analyzeSource_parts analyzed
  obtain ⟨items, read, found, _⟩ := analyze_parts meant
  have fixed : ∀ name, name ∈ analysis.introduced ∨ name ∈ analysis.outer ↔
      Fixed analysis.declarations analysis.imports.dependencies name := fun _ => fixed_iff analyzed
  refine ⟨parsed, items, parses, read, transpile_declared analyzed declares, generates analyzed,
    fixed, ?_, ?_⟩
  · intro uncaptured name own used
    rcases (fixed name).mpr used with introduced | outer
    · exact (uncaptured.single name introduced).2 own
    · exact (uncaptured.outer name outer).2 own
  · intro free
    refine uncaptured analyzed found fun name own => not_or.mp fun used => ?_
    exact free name own ((fixed name).mp used)

def mixedSource : Text := "import d,\x7bx\x7dfrom'./a';export*from'./b';d(x);".toList

def mixedVariables : List Text := ["__dep0".toList, "__mod0".toList, "__dep1".toList]

-- What each line uses, in order.
def mixedOuter : List Text := exportNames ++ ["require".toList, "require".toList] ++ exportNames

def mixedNames : List Text := mixedVariables ++ "require".toList :: exportNames

theorem mixed_fixed : ∃ analysis, analyzeSource mixedSource = .ok analysis ∧ analysis.declarations ≠ [] ∧
    ∀ name, Fixed analysis.declarations analysis.imports.dependencies name ↔
      name ∈ mixedNames := by
  have found : (analyzeSource mixedSource).toOption.map (fun analysis =>
      (analysis.declarations.isEmpty, analysis.introduced, analysis.outer))
      = some (false, mixedVariables, mixedOuter) := by
    unfold mixedSource
    rw [String.toList_ofList]
    decide +kernel
  obtain ⟨analysis, analyzed, shown⟩ := ok_of_toOption_map found
  simp only [Prod.mk.injEq, List.isEmpty_eq_false_iff] at shown
  obtain ⟨declares, introduced, outer⟩ := shown
  obtain ⟨_, _, _, _, _, _, fixed, _⟩ := hygienic_iff analyzed declares
  refine ⟨analysis, analyzed, declares, fun name => ?_⟩
  rw [← fixed, introduced, outer, ← List.mem_append]
  have ⟨listed, complete⟩ : mixedNames ⊆ mixedVariables ++ mixedOuter ∧
      mixedVariables ++ mixedOuter ⊆ mixedNames := by decide +kernel
  exact ⟨@complete name, @listed name⟩

-- The parameter of an arrow function takes the name of a dependency.
def takenSource : Text := "import \x7bx\x7d from './a'; __dep0 => x".toList

def takenItems : List Sibling := [importing [['x']] 21, .node (leafAt (.leaf .punctuator) ";" 21),
  .node (leafAt (.leaf .name) "__dep0" 23), .node (leafAt (.leaf .punctuator) "=>" 30),
  .node (leafAt (.leaf .name) "x" 33)]

def takenCode : Text :=
  "\"use strict\";\nvar __dep0 = require(\"./a\");\nvar x = __dep0[\"x\"];\n __dep0 => __dep0[\"x\"]".toList

theorem taken_captured : ∃ analysis parsed items, analyzeSource takenSource = .ok analysis ∧
    analysis.declarations ≠ [] ∧ Syntax.parse (Masking.mask takenSource) = .ok parsed ∧
    parsed.items.mapM sibling = .ok items ∧ transpile takenSource = .ok ⟨["./a".toList], takenCode⟩ ∧
    Own parsed items "__dep0".toList ∧ "__dep0".toList ∈ analysis.introduced ∧
    ¬ Uncaptured takenSource analysis parsed items := by
  have ⟨found, same⟩ : (analyzeSource takenSource).toOption.map (fun analysis =>
      (analysis.declarations.isEmpty, analysis.introduced, analysis.imports.dependencies,
        analysis.prologue ++ '\n' :: replaced (analysis.spans takenSource) 0 takenSource))
      = some (false, ["__dep0".toList], [CodePoints.ofText "./a".toList], takenCode) ∧
      items? takenSource = some takenItems := by
    unfold takenSource takenCode
    repeat rw [String.toList_ofList]
    decide +kernel
  obtain ⟨analysis, analyzed, shown⟩ := ok_of_toOption_map found
  simp only [Prod.mk.injEq, List.isEmpty_eq_false_iff] at shown
  obtain ⟨declares, introduced, dependencies, code⟩ := shown
  obtain ⟨parsed, parses, meant⟩ := analyzeSource_parts analyzed
  obtain ⟨items, read, _⟩ := analyze_parts meant
  cases (items?_eq parses read).symm.trans same
  have bound : Sibling.Bound takenItems false "__dep0".toList :=
    .mk (show Sibling.Level _ false ([_, _] ++ _ :: _) from .top) (.arrow rfl rfl (.name rfl))
  have own : Own parsed takenItems "__dep0".toList := .bound bound
  have taken : "__dep0".toList ∈ analysis.introduced := by
    rw [introduced]
    exact List.mem_cons_self
  refine ⟨analysis, parsed, takenItems, analyzed, declares, parses, read, ?_, own, taken, ?_⟩
  · rw [transpile_declared analyzed declares, dependencies, code]
    rfl
  · exact fun uncaptured => (uncaptured.single _ taken).2 own

end ModuleBundler.Rewriting
