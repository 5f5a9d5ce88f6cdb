import ModuleBundler.Proofs.Rewriting.Exported
import ModuleBundler.Proofs.Rewriting.Imported

/-!
What becomes of the exports of a module: a getter for each exported name, in order and in front of everything
that is required, or a refusal that tells the first name that is exported again.
-/
namespace ModuleBundler

-- Where the value of an export comes from.
inductive Origin where
  -- A default value without a name is assigned by the body.
  | assigned
  | declared (name : Text)
  | imported (specifier : CodePoints) (name : Text)
  | whole (specifier : CodePoints)
  deriving DecidableEq, Repr

namespace Syntax

def ExportBody.source? : ExportBody → Option Token
  | .namesFrom _ _ source | .all _ _ source | .namespace _ _ _ _ source => some source
  | .default _ _ | .function _ _ | .class _ _ | .variable _ _ | .names _ => none

-- The literal with the specifier of a declaration.
def Item.source? : Item → Option Token
  | .importBare _ source | .importFrom _ _ _ source => some source
  | .export _ body => body.source?
  | .node _ | .importCall _ _ | .importMeta _ _ _ => none

-- The value of a literal, if it has one.
def value (source : Token) : CodePoints := (Literal.decode source.text).toOption.getD []

def Specifier.exported (specifier : Specifier) : Text :=
  match specifier.rename with
  | some rename => rename.name.text
  | none => specifier.name.text

-- The names that an export gives, each with its origin; a list of declarators goes on behind the first one.
def ExportBody.bindings (following : List Sibling) : ExportBody → List (Text × Origin)
  | .default _ (.namedFunction _ name) | .default _ (.namedClass _ name) =>
    [(Keyword.default.spelling, .declared name.text)]
  | .default _ _ => [(Keyword.default.spelling, .assigned)]
  | .function _ name | .class _ name => [(name.text, .declared name.text)]
  | .variable _ target =>
    (target.boundNames ++ Sibling.trailingNames none false following).map fun name => (name, .declared name)
  | .names list => list.entries.map fun entry =>
    (entry.specifier.exported, .declared entry.specifier.name.text)
  | .namesFrom list _ source => list.entries.map fun entry =>
    (entry.specifier.exported, .imported (value source) entry.specifier.name.text)
  | .all _ _ _ => []
  | .namespace _ _ name _ source => [(name.text, .whole (value source))]

-- All exports of a module in source order. A declaration stands for each declaring item among the siblings.
def exportBindings : List Item → List Sibling → List (Text × Origin)
  | .export _ body :: items, _ :: following => body.bindings following ++ exportBindings items following
  | _ :: items, _ :: following => exportBindings items following
  | [], _ | _, [] => []

end Syntax

open Prologue

def Meaning.bindings : Meaning → List (Text × Origin)
  | .imports _ _ | .reexportsAll _ => []
  | .assignsDefault _ _ => [(Keyword.default.spelling, .assigned)]
  | .exportsLocal exported localName _ => [(exported, .declared localName)]
  | .exportsVariables names => names.map fun name => (name, .declared name)
  | .exportsNames bindings => bindings.map fun binding => (binding.1, .declared binding.2)
  | .reexports specifier bindings => bindings.map fun binding => (binding.1, .imported specifier binding.2)
  | .reexportsNamespace specifier name => [(name, .whole specifier)]

namespace Rewriting

theorem specifier_value (decoded : specifier source = .ok found) : found = Syntax.value source := by
  unfold specifier at decoded
  unfold Syntax.value
  cases read : Literal.decode source.text with
  | error fault =>
    rw [read] at decoded
    cases decoded
  | ok value =>
    rw [read] at decoded
    cases decoded
    rfl

theorem entries_exports (list : Syntax.SpecifierList) (origin : Text → Origin) :
    (list.exports.map fun binding => (binding.1, origin binding.2))
      = list.entries.map fun entry => (entry.specifier.exported, origin entry.specifier.name.text) := by
  rw [Syntax.SpecifierList.exports, List.map_map]
  refine List.map_congr_left fun entry _ => ?_
  unfold Syntax.Specifier.exported
  simp only [Function.comp_apply, Syntax.Specifier.names, Prod.fst_swap, Prod.snd_swap]
  cases entry.specifier.rename <;> rfl

-- What an export means is what it gives.
theorem bindings_complete (meant : exportMeaning body = .ok meaning) (start stop : Nat)
    (following : List Sibling) :
    (complete ⟨start, stop, meaning⟩ following).meaning.bindings = body.bindings following := by
  cases body with
  | default word target => cases target <;> cases meant <;> rfl
  | function head name =>
    cases meant
    rfl
  | «class» classWord name =>
    cases meant
    rfl
  | «variable» kind target =>
    cases meant
    rfl
  | names list =>
    cases meant
    exact entries_exports list .declared
  | namesFrom list fromWord source =>
    obtain ⟨found, decoded, same⟩ := ok_of_bind meant
    cases same
    rw [Syntax.ExportBody.bindings, ← specifier_value decoded]
    exact entries_exports list (.imported found)
  | all star fromWord source =>
    obtain ⟨found, decoded, same⟩ := ok_of_bind meant
    cases same
    rfl
  | «namespace» star asWord name fromWord source =>
    obtain ⟨found, decoded, same⟩ := ok_of_bind meant
    cases same
    rw [Syntax.ExportBody.bindings, ← specifier_value decoded]
    rfl

theorem bindings_declarations (read : List.Forall₂ (fun item found => sibling item = .ok found) items found) :
    (declarations found).flatMap (·.meaning.bindings) = Syntax.exportBindings items found := by
  induction read with
  | nil => rfl
  | @cons item own items rest here _ ih =>
    cases item with
    | node | importCall | importMeta =>
      cases here
      exact ih
    | importBare word source =>
      obtain ⟨specifier, _, same⟩ := ok_of_bind here
      cases same
      exact ih
    | importFrom word clause fromWord source =>
      obtain ⟨specifier, _, same⟩ := ok_of_bind here
      cases same
      exact ih
    | «export» word body =>
      obtain ⟨meaning, meant, same⟩ := ok_of_bind here
      cases same
      rw [declarations, List.flatMap_cons, bindings_complete meant, ih]
      rfl

end Rewriting

namespace Origin

-- What the getter of an export returns, by the place of its specifier and the names that are live.
inductive Gets (imports : Imports) : Origin → Text → Prop where
  | whole (place : imports.dependencies[index]? = some specifier) :
    Gets imports (.whole specifier) (dependencyVariable index)
  | imported (place : imports.dependencies[index]? = some specifier) :
    Gets imports (.imported specifier name) (dependencyVariable index ++ '[' :: Literal.write name ++ [']'])
  | live (looked : imports.live.lookup name = some expression) : Gets imports (.declared name) expression
  | own (free : imports.live.lookup name = none) : Gets imports (.declared name) name

def specifier? : Origin → Option CodePoints
  | imported specifier _ | whole specifier => some specifier
  | assigned | declared _ => none

def expression? (imports : Imports) : Origin → Option Text
  | assigned => none
  | declared name => some ((imports.live.lookup name).getD name)
  | imported specifier name =>
    some (indexed (dependencyVariable ((imports.dependencies.findIdx? (· == specifier)).getD
      imports.dependencies.length)) name)
  | whole specifier =>
    some (dependencyVariable ((imports.dependencies.findIdx? (· == specifier)).getD
      imports.dependencies.length))

variable {imports : Imports} {origin : Origin}

theorem expression?_isSome (imports : Imports) (origin : Origin) :
    (origin.expression? imports).isSome = decide (origin ≠ .assigned) := by
  cases origin <;> rfl

theorem place_of_mem {specifiers : List CodePoints} (known : specifier ∈ specifiers) :
    specifiers[(specifiers.findIdx? (· == specifier)).getD specifiers.length]? = some specifier := by
  cases found : specifiers.findIdx? (· == specifier) with
  | none => simpa using List.findIdx?_eq_none_iff.mp found specifier known
  | some index =>
    obtain ⟨inside, same, _⟩ := List.findIdx?_eq_some_iff_getElem.mp found
    exact List.getElem?_eq_some_iff.mpr ⟨inside, eq_of_beq same⟩

theorem gets_expression (known : ∀ specifier, origin.specifier? = some specifier →
    specifier ∈ imports.dependencies) (got : origin.expression? imports = some expression) :
    Gets imports origin expression := by
  cases origin with
  | assigned => cases got
  | declared name =>
    cases got
    cases looked : imports.live.lookup name with
    | none => exact .own looked
    | some expression => exact .live looked
  | imported specifier name =>
    cases got
    exact .imported (place_of_mem (known specifier rfl))
  | whole specifier =>
    cases got
    exact .whole (place_of_mem (known specifier rfl))

end Origin

namespace Prologue

variable {declaration : Declaration} {binding : Text × Origin}

theorem exports_bindings (imports : Imports) (declaration : Declaration) :
    exports imports declaration
      = declaration.meaning.bindings.map fun binding => (binding.1, binding.2.expression? imports) := by
  unfold exports Meaning.bindings
  cases declaration.meaning with
  | imports | reexportsAll | assignsDefault | exportsLocal | reexportsNamespace => rfl
  | exportsVariables | exportsNames | reexports =>
    dsimp only
    rw [List.map_map]
    rfl

theorem bindings_origin (among : binding ∈ declaration.meaning.bindings)
    (depends : binding.2.specifier? = some specifier) : declaration.origin? = some specifier := by
  unfold Meaning.bindings at among
  unfold Declaration.origin?
  split at among
  · cases among
  · cases among
  · cases List.mem_singleton.mp among
    cases depends
  · cases List.mem_singleton.mp among
    cases depends
  · obtain ⟨_, _, rfl⟩ := List.mem_map.mp among
    cases depends
  · obtain ⟨_, _, rfl⟩ := List.mem_map.mp among
    cases depends
  · obtain ⟨_, _, rfl⟩ := List.mem_map.mp among
    cases depends
    rename_i meaning
    rw [meaning]
  · cases List.mem_singleton.mp among
    cases depends
    rename_i meaning
    rw [meaning]

end Prologue

namespace Rewriting

theorem exportBindings_names (read : items.mapM sibling = .ok found) :
    exportedNames found = (Syntax.exportBindings items found).map Prod.fst := by
  have bindings := bindings_declarations (forall₂_of_mapM read)
  rw [← exported_declarations {} found, ← bindings, List.map_flatMap, List.map_flatMap]
  simp only [exports_bindings, List.map_map, Function.comp_def]

variable {parsed : Module} {items : List Sibling} {source : Text} {analysis : Analysis}

-- The exports of a module in its prologue: a getter for each, in order, and no other one.
structure Exports (bindings : List (Text × Origin)) (analysis : Analysis) : Prop where
  getters : List.Forall₂ (fun (binding : Text × Origin) statement =>
    ∃ expression, statement = .getter binding.1 expression ∧ Origin.Gets analysis.imports binding.2 expression)
    (bindings.filter (·.2 ≠ .assigned)) analysis.getters
  ungot : analysis.imports.statements.flatMap Statement.gotten = []

theorem getters_gotten {bindings : List (Text × Origin)} {imports : Imports}
    (known : ∀ binding ∈ bindings, ∀ specifier, binding.2.specifier? = some specifier →
      specifier ∈ imports.dependencies) :
    List.Forall₂ (fun (binding : Text × Origin) statement =>
      ∃ expression, statement = .getter binding.1 expression ∧ Origin.Gets imports binding.2 expression)
      (bindings.filter (·.2 ≠ .assigned))
      (bindings.filterMap fun binding => (binding.2.expression? imports).map (Statement.getter binding.1)) := by
  induction bindings with
  | nil => exact .nil
  | cons binding rest ih =>
    obtain ⟨here, later⟩ := List.forall_mem_cons.mp known
    have given := Origin.expression?_isSome imports binding.2
    cases got : binding.2.expression? imports with
    | none =>
      rw [got] at given
      rw [List.filterMap_cons_none (by rw [got]; rfl), List.filter_cons_of_neg (by rw [← given]; nofun)]
      exact ih later
    | some expression =>
      rw [got] at given
      have named : binding.2 ≠ .assigned := of_decide_eq_true given.symm
      rw [List.filterMap_cons_some (by rw [got]; rfl),
        List.filter_cons_of_pos (by exact decide_eq_true named)]
      exact .cons ⟨expression, rfl, Origin.gets_expression here got⟩ (ih later)

theorem analyze_exports (read : parsed.items.mapM sibling = .ok items) (meant : analyze parsed = .ok analysis) :
    Exports (Syntax.exportBindings parsed.items items) analysis := by
  obtain ⟨found, same, declared, imports, getters, _⟩ := analyze_parts meant
  cases read.symm.trans same
  have bindings := bindings_declarations (forall₂_of_mapM read)
  rw [← declared] at bindings
  obtain ⟨bound, introduces⟩ := imports_introduces (Sibling.localNames items) analysis.declarations
  rw [← imports] at introduces
  refine ⟨?_, introduces.ungot⟩
  have known : ∀ binding ∈ analysis.declarations.flatMap (·.meaning.bindings), ∀ specifier,
      binding.2.specifier? = some specifier → specifier ∈ analysis.imports.dependencies := by
    intro binding among specifier depends
    obtain ⟨declaration, member, own⟩ := List.mem_flatMap.mp among
    rw [imports]
    exact imports_depend _ member (bindings_origin own depends)
  have exported : analysis.declarations.flatMap (Prologue.exports analysis.imports)
      = (analysis.declarations.flatMap (·.meaning.bindings)).map fun binding =>
        (binding.1, binding.2.expression? analysis.imports) := by
    rw [List.map_flatMap]
    exact congrArg (analysis.declarations.flatMap ·) (funext fun declaration => exports_bindings _ declaration)
  rw [getters, exported, ← bindings, List.filterMap_map]
  exact getters_gotten known

-- One export of each kind, with a live import and a declarator behind the first one.
def gettersSource : Text := ("import\x7bx\x7dfrom'./a';export\x7bx as u,y\x7d;export\x7bm as v\x7dfrom'./b';"
  ++ "export*as n from'./b';export default 1;export const p=1,q=2;export function f()\x7b\x7d").toList

def gettersBindings : List (Text × Origin) :=
  [("u".toList, .declared "x".toList), ("y".toList, .declared "y".toList),
    ("v".toList, .imported ("./b".toList.map Char.toNat) "m".toList),
    ("n".toList, .whole ("./b".toList.map Char.toNat)), ("default".toList, .assigned),
    ("p".toList, .declared "p".toList), ("q".toList, .declared "q".toList), ("f".toList,
      .declared "f".toList)]

def gettersLines : List Statement :=
  [.getter "u".toList "__dep0[\"x\"]".toList, .getter "y".toList "y".toList,
    .getter "v".toList "__dep1[\"m\"]".toList, .getter "n".toList "__dep1".toList,
    .getter "p".toList "p".toList, .getter "q".toList "q".toList, .getter "f".toList "f".toList]

-- All that is read off the source, in one evaluation, with the source given as characters.
theorem gettersSource_read :
    (Syntax.parse (Masking.mask gettersSource)).toOption.map (fun parsed =>
      (parsed.items.all fun item => item.source?.all fun literal => (Literal.decode literal.text).isOk,
        (siblings? parsed.items).map (Syntax.exportBindings parsed.items)))
      = some (true, some gettersBindings) ∧
    (analyzeSource gettersSource).toOption.map (fun analysis =>
      (analysis.getters, hasExports analysis.declarations)) = some (gettersLines, true) := by
  unfold gettersSource gettersBindings gettersLines
  rw [String.toList_append]
  repeat rw [String.toList_ofList]
  decide +kernel

end Rewriting
end ModuleBundler
