import ModuleBundler.Masking
import ModuleBundler.Rewriting.Prologue
import ModuleBundler.Rewriting.Scope
import ModuleBundler.Syntax.Parser

/-!
A parsed module is rewritten for the bundle: its declarations go into a prologue, references to
imported bindings are edited, and all other source text is kept character for character.
-/
namespace ModuleBundler

-- What is wrong with declarations that parse.
inductive MeaningFault where
  | escape (fault : Literal.EscapeFault)
  | duplicateExport (name : Text)
  deriving DecidableEq, Repr

def MeaningFault.message : MeaningFault → Text
  | escape fault => fault.message.toList
  | duplicateExport name => "Duplicate export '".toList ++ name ++ ['\'']

namespace Rewriting

-- The value of a specifier literal.
def specifier (source : Token) : Except MeaningFault CodePoints :=
  (Literal.decode source.text).mapError .escape

def exportMeaning : Syntax.ExportBody → Except MeaningFault Meaning
  | .default _ target =>
    .ok <| match target with
      | .expression | .async _ => .assignsDefault none false
      | .derivedClass _ _ => .assignsDefault none true
      | .anonymousFunction _ parameters => .assignsDefault (some (.parameters parameters)) false
      | .anonymousClass _ body => .assignsDefault (some (.body body)) false
      | .namedFunction _ name => .exportsLocal Keyword.default.spelling name.text false
      | .namedClass _ name => .exportsLocal Keyword.default.spelling name.text true
  | .function _ name => .ok (.exportsLocal name.text name.text false)
  | .class _ name => .ok (.exportsLocal name.text name.text true)
  | .variable _ binding => .ok (.exportsVariables binding.boundNames)
  | .names list => .ok (.exportsNames list.exports)
  | .namesFrom list _ source => do
    let specifier ← specifier source
    pure (.reexports specifier list.exports)
  | .all _ _ source => do
    let specifier ← specifier source
    pure (.reexportsAll specifier)
  | .namespace _ _ name _ source => do
    let specifier ← specifier source
    pure (.reexportsNamespace specifier name.text)

-- Where the rewritten part of an export ends: the whole statement, or the words in front of what
-- stays.
def exportStop (word : Token) : Syntax.ExportBody → Nat
  | .default defaultWord _ => defaultWord.stop
  | .function _ _ | .class _ _ => word.stop
  | .variable kind _ => kind.stop
  | .names list => list.closer.stop
  | .namesFrom _ _ source | .all _ _ source | .namespace _ _ _ _ source => source.stop

def sibling : Syntax.Item → Except MeaningFault Sibling
  | .node node => .ok (.node node)
  | .importCall word arguments => .ok (.importExpression [.leaf word, arguments])
  | .importMeta word dot name => .ok (.importExpression [.leaf word, .leaf dot, .leaf name])
  | .importBare word source => do
    let specifier ← specifier source
    pure (.declaration ⟨word.start, source.stop, .imports specifier []⟩)
  | .importFrom word clause _ source => do
    let specifier ← specifier source
    pure (.declaration ⟨word.start, source.stop, .imports specifier clause.bindings⟩)
  | .export word body => do
    let meaning ← exportMeaning body
    pure (.declaration ⟨word.start, exportStop word body, meaning⟩)

-- An exported declarator list takes in the declarators that follow, and a statement takes in the
-- semicolon behind it.
def complete (declaration : Declaration) (following : List Sibling) : Declaration :=
  let meaning :=
    match declaration.meaning with
    | .exportsVariables names => .exportsVariables (names ++ Sibling.trailingNames none false following)
    | meaning => meaning
  let stop :=
    match following with
    | next :: _ =>
      if declaration.isStatement && next.isPunctuator ";" then
        (next.token?.map Token.stop).getD declaration.stop
      else declaration.stop
    | [] => declaration.stop
  ⟨declaration.start, stop, meaning⟩

def declarations : List Sibling → List Declaration
  | [] => []
  | .declaration declaration :: rest => complete declaration rest :: declarations rest
  | _ :: rest => declarations rest

-- Everything that a rewritten module is put together from.
structure Analysis where
  declarations : List Declaration
  localNames : List Text
  imports : Prologue.Imports
  getters : List Statement
  edits : List Edit
  deriving Repr

-- A source without declarations has nothing but its local names.
def analyze (parsed : Module) : Except MeaningFault Analysis := do
  let items ← parsed.items.mapM sibling
  let localNames := Sibling.localNames items
  match declarations items with
  | [] => pure ⟨[], localNames, {}, [], []⟩
  | found =>
    let imports := Prologue.imports localNames found
    let exported := found.flatMap (Prologue.exports imports)
    match Prologue.firstRepeated? [] (exported.map Prod.fst) with
    | some name => throw (.duplicateExport name)
    | none =>
      let getters := exported.filterMap fun (name, expression?) =>
        expression?.map (Statement.getter name)
      let edits := if imports.live.isEmpty then [] else Reference.edits imports.live [] items
      pure ⟨found, localNames, imports, getters, edits⟩

-- What stands in place of a declaration, its line breaks kept.
def declarationEdit (source : Text) (declaration : Declaration) : Edit :=
  let removed := (source.drop declaration.start).take (declaration.stop - declaration.start)
  let replacement :=
    match declaration.meaning with
    | .assignsDefault _ _ => "exports[\"default\"] =".toList
    | .exportsVariables _ => "var".toList
    | _ => []
  ⟨declaration.start, declaration.stop,
    replacement ++ List.replicate (Text.newlines removed) '\n'⟩

-- Carries out edits that are in order and do not overlap; `position` is where `rest` begins.
def applyEdits (position : Nat) (rest : Text) : List Edit → Text
  | [] => rest
  | edit :: edits =>
    rest.take (edit.start - position) ++ edit.text
      ++ applyEdits edit.stop (rest.drop (edit.stop - position)) edits

def sortedEdits (edits : List Edit) : List Edit :=
  edits.mergeSort fun left right =>
    left.start < right.start || (left.start == right.start && left.stop ≤ right.stop)

end Rewriting

-- The specifiers of a module. They can be given as texts, and are shown as texts.
structure Specifiers where
  codes : List CodePoints
  deriving DecidableEq, Repr

instance : Coe (List Text) Specifiers := ⟨fun texts => ⟨texts.map CodePoints.ofText⟩⟩

-- The specifiers that a module depends on, and the code that goes into the bundle.
structure Transpiled where
  specifiers : Specifiers
  code : Text
  deriving DecidableEq, Repr

def Transpiled.dependencies (transpiled : Transpiled) : List CodePoints := transpiled.specifiers.codes

-- Why a source is refused: it does not parse, or its declarations make no sense.
inductive SourceFault where
  | grammar (fault : SyntaxFault)
  | meaning (fault : MeaningFault)
  deriving DecidableEq, Repr

namespace Rewriting

def Analysis.transpiled (source : Text) (analysis : Analysis) : Transpiled :=
  match analysis.declarations with
  | [] => ⟨⟨[]⟩, source⟩
  | declarations =>
    let hasExports := declarations.any (!·.isImport)
    let edits := sortedEdits (analysis.edits ++ declarations.map (declarationEdit source))
    ⟨⟨analysis.imports.dependencies⟩,
      Prologue.render hasExports analysis.getters analysis.imports.statements
        ++ '\n' :: applyEdits 0 source edits⟩

-- Regex literals are blanked for the parser alone; edits are made to the source itself.
def analyzeSource (source : Text) : Except SourceFault Analysis := do
  let parsed ← (Syntax.parse (Masking.mask source)).mapError .grammar
  (analyze parsed).mapError .meaning

end Rewriting

def transpile (source : Text) : Except SourceFault Transpiled :=
  (Rewriting.analyzeSource source).map (Rewriting.Analysis.transpiled source)

-- Whether code can be embedded as it is: its brackets balance and its literals are closed.
def isWellFormed (code : Text) : Bool := (Syntax.parse (Masking.mask code)).isOk

end ModuleBundler
