import ModuleBundler.Proofs.LiteralValue
import ModuleBundler.Proofs.Rewriting.Getters

/-!
The properties of `exports` that a module defines or assigns: those that a prologue defines line by line, and
the one that the body assigns in place of a default export. Exported names never repeat each other, so only
the marker can be defined a second time.
-/
namespace ModuleBundler

namespace Rewriting

open Prologue

-- The words in front of the key where a property is defined, and where it is assigned.
def definesWords : Text := "Object.defineProperty(exports, ".toList

def assignsWords : Text := "exports[".toList

-- The value of the literal behind some words, which the text begins with.
def keyBehind? (words text : Text) : Option Text := do
  let rest ← Text.after? words text
  let size ← Lexeme.string? rest
  (Literal.value (rest.take size)).toOption

-- The literal keys that the lines of a prologue define, in order.
def Analysis.definedKeys (analysis : Analysis) : List Text :=
  analysis.lines.filterMap (keyBehind? definesWords)

-- The literal keys that are assigned in place of declarations.
def Analysis.assignedKeys (source : Text) (analysis : Analysis) : List Text :=
  (analysis.declarations.map (declarationEdit source)).filterMap fun edit => keyBehind? assignsWords edit.text

def markerKey : Text := "__esModule".toList

variable {front text : Text}

theorem keyBehind?_write (front name rest : Text) :
    keyBehind? front (front ++ Literal.write name ++ rest) = some name := by
  have behind : Text.after? front (front ++ (Literal.write name ++ rest)) = some (Literal.write name ++ rest) :=
    Text.after?_eq_some_iff.mpr rfl
  unfold keyBehind?
  rw [List.append_assoc, behind]
  dsimp only [bind, Option.bind]
  rw [Literal.write, Lexeme.string?_write]
  dsimp only
  rw [List.take_left, ← Literal.write, Literal.value_write]
  rfl

theorem keyBehind?_other (other : ∀ rest, text ≠ front ++ rest) : keyBehind? front text = none := by
  have apart : Text.after? front text = none := by
    cases behind : Text.after? front text with
    | none => rfl
    | some rest => exact absurd (Text.after?_eq_some_iff.mp behind) (other rest)
  rw [keyBehind?, apart]
  rfl

-- A line without a getter differs from the words in front of a key in one of their places.
theorem render_differs (statement : Statement) (ungotten : statement.gotten = []) :
    ∃ index < definesWords.length, statement.render[index]? ≠ definesWords[index]? := by
  cases statement with
  | getter => cases ungotten
  | require | view | declare =>
    refine ⟨0, by decide, ?_⟩
    delta Statement.render
    intro same
    cases same
  | exportAll =>
    refine ⟨7, by decide, ?_⟩
    delta Statement.render
    intro same
    cases same

theorem keyBehind?_ungotten (statement : Statement) (ungotten : statement.gotten = []) :
    keyBehind? definesWords statement.render = none := by
  obtain ⟨index, inside, differs⟩ := render_differs statement ungotten
  refine keyBehind?_other fun rest same => differs ?_
  rw [same, List.getElem?_append_left inside]

-- The line with a getter defines its property, and no other line that follows the marker does.
theorem keyBehind?_render (statement : Statement) :
    (keyBehind? definesWords statement.render).toList = statement.gotten.map Prod.fst := by
  cases statement with
  | getter name expression =>
    have found := keyBehind?_write definesWords name
      (", \x7b enumerable: true, get: function () \x7b return ".toList ++ (expression ++ "; \x7d \x7d);".toList))
    rw [Statement.render_getter, List.append_assoc, List.append_assoc]
    exact congrArg Option.toList found
  | require | view | declare | exportAll =>
    rw [keyBehind?_ungotten _ rfl]
    rfl

theorem filterMap_render (statements : List Statement) :
    (statements.map Statement.render).filterMap (keyBehind? definesWords)
      = (statements.flatMap Statement.gotten).map Prod.fst := by
  rw [List.filterMap_map, List.filterMap_eq_flatMap_toList, List.map_flatMap]
  exact congrArg (statements.flatMap ·) (funext keyBehind?_render)

theorem gotten_getters {bindings : List (Text × Origin)} {imports : Imports} {statements : List Statement}
    (gets : List.Forall₂ (fun (binding : Text × Origin) statement =>
      ∃ expression, statement = .getter binding.1 expression ∧ Origin.Gets imports binding.2 expression)
      bindings statements) :
    (statements.flatMap Statement.gotten).map Prod.fst = bindings.map Prod.fst := by
  induction gets with
  | nil => rfl
  | cons here _ ih =>
    obtain ⟨expression, rfl, _⟩ := here
    exact congrArg (_ :: ·) ih

-- A default value is all that is assigned.
theorem keyBehind?_declarationEdit (source : Text) (declaration : Declaration) :
    (keyBehind? assignsWords (declarationEdit source declaration).text).toList
      = (declaration.meaning.bindings.filter (·.2 = .assigned)).map Prod.fst := by
  have nothing : ∀ (front : Text) count, front = [] ∨ front = "var".toList →
      keyBehind? assignsWords (front ++ List.replicate count '\n') = none := by
    intro front count plain
    refine keyBehind?_other fun rest same => ?_
    rcases plain with rfl | rfl
    · cases count with
      | zero => cases same
      | succ => cases same
    · cases same
  unfold declarationEdit Meaning.bindings
  cases declaration.meaning with
  | assignsDefault consumed derived =>
    have parts : "exports[\"default\"] =".toList = assignsWords ++ Literal.write Keyword.default.spelling
        ++ "] =".toList := by decide
    dsimp only
    rw [parts, List.append_assoc, keyBehind?_write]
    rfl
  | exportsVariables names =>
    dsimp only
    rw [nothing _ _ (.inr rfl), List.filter_map, List.filter_eq_nil_iff.mpr (by simp)]
    rfl
  | exportsNames bindings | reexports specifier bindings =>
    dsimp only
    rw [nothing _ _ (.inl rfl), List.filter_map, List.filter_eq_nil_iff.mpr (by simp)]
    rfl
  | imports | exportsLocal | reexportsAll | reexportsNamespace =>
    dsimp only
    rw [nothing _ _ (.inl rfl)]
    rfl

theorem bindings_isImport (declaration : Declaration) (imports : declaration.isImport = true) :
    declaration.meaning.bindings = [] := by
  unfold Declaration.isImport at imports
  unfold Meaning.bindings
  split at imports
  · rename_i meaning
    rw [meaning]
  · cases imports

variable {source : Text} {analysis : Analysis} {parsed : Module} {items : List Sibling}

-- The lines define the marker, where something is exported, and the exports that are not assigned.
theorem definedKeys_eq (exported : Exports bindings analysis) :
    analysis.definedKeys = (if hasExports analysis.declarations then [markerKey] else [])
      ++ (bindings.filter (·.2 ≠ .assigned)).map Prod.fst := by
  have ⟨strict, parts⟩ : keyBehind? definesWords strictLine = none ∧
      markerLine = definesWords ++ Literal.write markerKey ++ ", \x7b value: true \x7d);".toList := by
    decide +kernel
  have marker : keyBehind? definesWords markerLine = some markerKey := by
    rw [parts, keyBehind?_write]
  have lines : (analysis.statements.map Statement.render).filterMap (keyBehind? definesWords)
      = (bindings.filter (·.2 ≠ .assigned)).map Prod.fst := by
    rw [filterMap_render, Analysis.statements, List.flatMap_append, exported.ungot, List.append_nil]
    exact gotten_getters exported.getters
  unfold Analysis.definedKeys Analysis.lines prologueLines
  rw [List.filterMap_append, lines]
  cases hasExports analysis.declarations with
  | false =>
    simp only [Bool.false_eq_true, if_false, List.append_nil, List.filterMap_cons, strict, List.filterMap_nil]
  | true =>
    simp only [if_true, List.singleton_append, List.filterMap_cons, strict, marker, List.filterMap_nil]

theorem assignedKeys_eq (source : Text) (analysis : Analysis) :
    analysis.assignedKeys source
      = ((analysis.declarations.flatMap (·.meaning.bindings)).filter (·.2 = .assigned)).map Prod.fst := by
  rw [Analysis.assignedKeys, List.filterMap_map, List.filterMap_eq_flatMap_toList, List.filter_flatMap,
    List.map_flatMap]
  exact congrArg (analysis.declarations.flatMap ·) (funext (keyBehind?_declarationEdit source))

-- The marker stands in every prologue that defines a getter.
theorem hasExports_of_mem (among : binding ∈ analysis.declarations.flatMap (·.meaning.bindings)) :
    hasExports analysis.declarations = true := by
  obtain ⟨declaration, member, own⟩ := List.mem_flatMap.mp among
  refine List.any_eq_true.mpr ⟨declaration, member, ?_⟩
  cases imports : declaration.isImport with
  | false => rfl
  | true =>
    rw [bindings_isImport declaration imports] at own
    cases own

-- An accepted source exports no name twice, and its code defines or assigns a property for the marker and for
-- each exported name. So no property is defined again unless the marker's name is itself exported.
theorem keys_distinct_iff (analyzed : analyzeSource source = .ok analysis) :
    ∃ parsed items, Syntax.parse (Masking.mask source) = .ok parsed ∧ parsed.items.mapM sibling = .ok items ∧
      (analysis.declarations = [] → transpile source = .ok ⟨⟨[]⟩, source⟩) ∧
      (analysis.declarations ≠ [] → transpile source = .ok ⟨
        ⟨analysis.imports.dependencies⟩,
        Text.joinWith ['\n'] analysis.lines ++ '\n' :: replaced (analysis.spans source) 0 source⟩) ∧
      ((Syntax.exportBindings parsed.items items).map Prod.fst).Nodup ∧
      analysis.definedKeys = (if hasExports analysis.declarations then [markerKey] else [])
        ++ ((Syntax.exportBindings parsed.items items).filter (·.2 ≠ .assigned)).map Prod.fst ∧
      analysis.assignedKeys source
        = ((Syntax.exportBindings parsed.items items).filter (·.2 = .assigned)).map Prod.fst ∧
      ((analysis.definedKeys ++ analysis.assignedKeys source).Nodup ↔
        markerKey ∉ (Syntax.exportBindings parsed.items items).map Prod.fst) := by
  obtain ⟨parsed, items, _, parses, read, found, undeclared, declared, _⟩ := imports_introduced analyzed
  obtain ⟨again, parses', meant⟩ := analyzeSource_parts analyzed
  cases parses.symm.trans parses'
  have bindings := bindings_declarations (forall₂_of_mapM read)
  rw [← found] at bindings
  have defined := definedKeys_eq (analyze_exports read meant)
  have assigned := assignedKeys_eq source analysis
  rw [bindings] at assigned
  have once : ((Syntax.exportBindings parsed.items items).map Prod.fst).Nodup := by
    have names := analyze_exported read
    rw [meant, exportBindings_names read] at names
    unfold Rewriting.distinct at names
    split at names
    · assumption
    · cases names
  refine ⟨parsed, items, parses, read, undeclared, declared, once, defined, assigned, ?_⟩
  -- Each exported name is either defined or assigned.
  have parts : (((Syntax.exportBindings parsed.items items).filter (·.2 ≠ .assigned)).map Prod.fst
      ++ ((Syntax.exportBindings parsed.items items).filter (·.2 = .assigned)).map Prod.fst).Perm
      ((Syntax.exportBindings parsed.items items).map Prod.fst) := by
    rw [← List.map_append]
    refine List.Perm.map _ ?_
    have split := List.filter_append_perm (fun binding : Text × Origin => binding.2 ≠ .assigned)
      (Syntax.exportBindings parsed.items items)
    simpa using split
  rw [defined, assigned, List.append_assoc]
  cases shown : hasExports analysis.declarations with
  | false =>
    have none : Syntax.exportBindings parsed.items items = [] := by
      refine List.eq_nil_iff_forall_not_mem.mpr fun binding among => ?_
      rw [← bindings] at among
      rw [hasExports_of_mem among] at shown
      cases shown
    simp [none]
  | true =>
    rw [if_pos rfl, List.singleton_append, List.nodup_cons, parts.mem_iff, parts.nodup_iff]
    exact and_iff_left once

-- The getters and the default value of a module with exports of each kind.
theorem getters_defined : ∃ analysis, analyzeSource gettersSource = .ok analysis ∧
    analysis.definedKeys = markerKey :: gettersLines.flatMap (·.gotten.map Prod.fst) ∧
    analysis.assignedKeys gettersSource = ["default".toList] ∧
    (analysis.definedKeys ++ analysis.assignedKeys gettersSource).Nodup := by
  obtain ⟨bindings, exporting⟩ := gettersSource_read
  obtain ⟨analysis, analyzed, shown⟩ := ok_of_toOption_map exporting
  obtain ⟨parsed, items, parses, read, _, _, _, defined, assigned, distinct⟩ := keys_distinct_iff analyzed
  have same : Syntax.exportBindings parsed.items items = gettersBindings := by
    obtain ⟨parsed', parses', found⟩ := ok_of_toOption_map bindings
    cases parses.symm.trans parses'
    have given := (Prod.mk.inj found).2
    rw [siblings?, read] at given
    exact Option.some.inj given
  rw [(Prod.mk.inj shown).2, same] at defined
  rw [same] at assigned distinct
  exact ⟨analysis, analyzed, defined, assigned, distinct.mpr (by decide)⟩

def markedSource : Text := "export const __esModule=1;".toList

theorem marked_defined_twice : ∃ analysis, analyzeSource markedSource = .ok analysis ∧
    analysis.definedKeys = [markerKey, markerKey] ∧
    ¬ (analysis.definedKeys ++ analysis.assignedKeys markedSource).Nodup := by
  have found : (analyzeSource markedSource).toOption.map (fun analysis =>
      (analysis.definedKeys, analysis.assignedKeys markedSource)) = some ([markerKey, markerKey], []) := by
    unfold markedSource
    rw [String.toList_ofList]
    decide +kernel
  obtain ⟨analysis, analyzed, keys⟩ := ok_of_toOption_map found
  obtain ⟨defined, assigned⟩ := Prod.mk.inj keys
  refine ⟨analysis, analyzed, defined, ?_⟩
  rw [defined, assigned]
  decide

end Rewriting
end ModuleBundler
