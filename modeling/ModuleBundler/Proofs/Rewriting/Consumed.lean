import ModuleBundler.Proofs.Rewriting.Parts

/-!
References in what a declaration takes along. The parameters of an anonymous default function and the pattern of
an exported declarator belong to the declaration and are not looked through. With a name for the function, and
without the export, the same code stands in the module and is edited.
-/
namespace ModuleBundler
namespace Rewriting

open Reference (levelEdits)

variable {anonymous named plain exported : Text} {analysis other : Analysis}

-- The edits in a node and in the same code further on are the same.
def SameEdits (analysis other : Analysis) (move : Move) (node : Node) : Prop :=
  other.editsIn (node.moved move) = (analysis.editsIn node).map (Edit.moved move.far)

instance (analysis other : Analysis) (move : Move) (node : Node) : Decidable (SameEdits analysis other move node) :=
  inferInstanceAs (Decidable (_ = _))

theorem analyzed_items (analyzed : analyzeSource source = .ok analysis) (read : items? source = some items) :
    analysis.localNames = Sibling.localNames items ∧
      analysis.imports = Prologue.imports (Sibling.localNames items) (declarations items) := by
  obtain ⟨parsed, accepted, meant⟩ := analyzeSource_parts analyzed
  obtain ⟨listed, found, declared, imports, _⟩ := analyze_parts meant
  cases (items?_eq accepted found).symm.trans read
  refine ⟨?_, declared ▸ imports⟩
  unfold analyze at meant
  rw [found] at meant
  dsimp only [bind, Except.bind] at meant
  split at meant
  · cases meant
    rfl
  · split at meant
    · cases meant
    · cases meant
      rfl

theorem analyzed_siblings (analyzed : analyzeSource source = .ok analysis)
    (accepted : Syntax.parse (Masking.mask source) = .ok parsed) :
    ∃ items, siblings? parsed.items = some items ∧ items? source = some items := by
  obtain ⟨other, accepted', meant⟩ := analyzeSource_parts analyzed
  cases accepted.symm.trans accepted'
  obtain ⟨items, found, _⟩ := analyze_parts meant
  exact ⟨items, by rw [siblings?, found]; rfl, items?_eq accepted found⟩

theorem siblings?_split {front rest : List Syntax.Item} (read : siblings? (front ++ rest) = some items) :
    ∃ first later, siblings? front = some first ∧ siblings? rest = some later ∧ items = first ++ later := by
  rw [siblings?_append] at read
  obtain ⟨first, fronts, read⟩ := Option.bind_eq_some_iff.mp read
  obtain ⟨later, rests, rfl⟩ := Option.map_eq_some_iff.mp read
  exact ⟨first, later, fronts, rests, rfl⟩

theorem siblings?_node (node : Node) (items : List Syntax.Item) :
    siblings? (.node node :: items) = (siblings? items).map (.node node :: ·) := siblings?_cons (.node node) items

-- Items that import the same.
structure AlikeImports (items others : List Sibling) : Prop where
  origins : others.filterMap Sibling.origin? = items.filterMap Sibling.origin?
  bindings : others.flatMap Sibling.importBindings = items.flatMap Sibling.importBindings

theorem live_free (analyzed : analyzeSource source = .ok analysis)
    (looked : analysis.imports.live.lookup name = some expression) : name ∉ analysis.localNames := by
  obtain ⟨parsed, accepted, meant⟩ := analyzeSource_parts analyzed
  obtain ⟨items, found, _⟩ := analyze_parts meant
  obtain ⟨localNames, imports⟩ := analyzed_items analyzed (items?_eq accepted found)
  rw [imports] at looked
  rw [localNames]
  exact Prologue.imports_foreign _ _ name (Option.isSome_of_mem looked)

theorem live_agree (analyzed : analyzeSource source = .ok analysis) (read : items? source = some items)
    (analyzed' : analyzeSource again = .ok other) (read' : items? again = some others)
    (alike : AlikeImports items others) (free : name ∉ analysis.localNames) (free' : name ∉ other.localNames) :
    other.imports.live.lookup name = analysis.imports.live.lookup name := by
  obtain ⟨localNames, imports⟩ := analyzed_items analyzed read
  obtain ⟨localNames', imports'⟩ := analyzed_items analyzed' read'
  rw [localNames] at free
  rw [localNames'] at free'
  rw [imports, imports']
  refine Prologue.imports_agree ?_ ?_ free free'
  · rw [declarations_origins, declarations_origins, alike.origins]
  · rw [declarations_bindings, declarations_bindings, alike.bindings]

-- A default function without a name, and the same module with a name for it: what follows is the same code, further
-- on.
structure FunctionForms (anonymous named : Text) where
  move : Move
  front : List Syntax.Item
  word : Token
  defaultWord : Token
  head : Syntax.FunctionHead
  name : Token
  inner : List Node
  block : List Node
  behind : List Syntax.Item
  parses : Syntax.parse (Masking.mask anonymous) = .ok ⟨front ++ .export word (.default defaultWord
    (.anonymousFunction head (.group .paren inner))) :: .node (.group .brace block) :: behind⟩
  parsesNamed : Syntax.parse (Masking.mask named) = .ok ⟨front ++ .export word (.default defaultWord
    (.namedFunction head name)) :: (.node (.group .paren inner) :: .node (.group .brace block) :: behind).map
      (Syntax.Item.moved move)⟩

namespace FunctionForms

def parameters (forms : FunctionForms anonymous named) : Node := .group .paren forms.inner

def body (forms : FunctionForms anonymous named) : Node := .group .brace forms.block

-- Whether a word that declares stands in front of the export.
def BehindWord (forms : FunctionForms anonymous named) : Prop :=
  ∃ node, forms.front.getLast? = some (.node node) ∧ (Sibling.node node).isDeclarationWord = true

def unnamed (forms : FunctionForms anonymous named) : Declaration :=
  ⟨forms.word.start, forms.defaultWord.stop, .assignsDefault (some (.parameters forms.parameters)) false⟩

def declared (forms : FunctionForms anonymous named) : Declaration :=
  ⟨forms.word.start, forms.defaultWord.stop, .exportsLocal Keyword.default.spelling forms.name.text false⟩

variable (forms : FunctionForms anonymous named)

-- The items of both modules, if those in front and behind have a meaning.
theorem items : items? anonymous = (siblings? forms.front).bind fun front =>
    (siblings? forms.behind).map fun rest => front ++ .declaration forms.unnamed :: .node forms.body :: rest := by
  rw [items?, forms.parses]
  change siblings? _ = _
  rw [siblings?_append, siblings?_cons, siblings?_cons]
  cases siblings? forms.front <;> cases siblings? forms.behind <;> rfl

theorem itemsNamed : items? named = (siblings? forms.front).bind fun front => (siblings? forms.behind).map fun rest =>
    front ++ .declaration forms.declared ::
      (.node forms.parameters :: .node forms.body :: rest).map (Sibling.moved forms.move) := by
  rw [items?, forms.parsesNamed]
  change siblings? _ = _
  rw [siblings?_append, siblings?_cons, siblings?_moved, siblings?_cons, siblings?_cons]
  cases siblings? forms.front <;> cases siblings? forms.behind <;> rfl

theorem exported_same (forms : FunctionForms anonymous named) : exported? named = exported? anonymous := by
  rw [exported?_eq, exported?_eq, forms.items, forms.itemsNamed]
  cases siblings? forms.front with
  | none => rfl
  | some front =>
    cases siblings? forms.behind with
    | none => rfl
    | some rest =>
      have names : exportedNames (.declaration forms.declared ::
          (.node forms.parameters :: .node forms.body :: rest).map (Sibling.moved forms.move))
            = exportedNames (.declaration forms.unnamed :: .node forms.body :: rest) := by
        rw [exportedNames, exportedNames_moved]
        rfl
      simp only [Option.bind_some, Option.map_some]
      rw [exportedNames_split, exportedNames_split, names]

variable {front rest : List Sibling} {text : Text}

theorem alike : AlikeImports (front ++ .declaration forms.unnamed :: .node forms.body :: rest)
    (front ++ .declaration forms.declared ::
      (.node forms.parameters :: .node forms.body :: rest).map (Sibling.moved forms.move)) where
  origins := by
    rw [List.filterMap_append, List.filterMap_append, List.filterMap_cons_none rfl,
      List.filterMap_cons_none rfl,
      List.filterMap_cons_none rfl, List.filterMap_map]
    have moved : Sibling.origin? ∘ Sibling.moved forms.move = Sibling.origin? := funext Sibling.origin?_moved
    rw [moved, List.filterMap_cons_none rfl, List.filterMap_cons_none rfl]
  bindings := by
    rw [List.flatMap_append, List.flatMap_append, List.flatMap_cons, List.flatMap_cons, List.flatMap_cons,
      List.flatMap_map]
    simp only [Sibling.importBindings_moved]
    rfl

-- The parameters bind the same names in both forms.
theorem levelNames_named : Sibling.levelNames (some (.declaration forms.declared))
      ((.node forms.parameters :: .node forms.body :: rest).map (Sibling.moved forms.move))
    = forms.parameters.boundNames ++ Sibling.levelNames (some (.declaration forms.unnamed))
        (.node forms.body :: rest) := by
  have behind : Sibling.levelNames (some (Sibling.moved forms.move (.node forms.parameters)))
      ((.node forms.body :: rest).map (Sibling.moved forms.move))
        = Sibling.levelNames (some (.node forms.parameters)) (.node forms.body :: rest) :=
    Sibling.levelNames_moved (some (.node forms.parameters)) _
  have own : Sibling.namesAt (some (.declaration forms.declared)) (Sibling.moved forms.move (.node forms.parameters))
      ((.node forms.body :: rest).map (Sibling.moved forms.move)) = forms.parameters.boundNames :=
    forms.parameters.boundNames_moved
  rw [List.map_cons, Sibling.levelNames, own, behind, Sibling.levelNames, Sibling.levelNames]
  exact congrArg (fun names => _ ++ (names ++ _)) (Sibling.namesAt_braces _ _ _ _)

-- The named form binds what is bound inside the parameters, too.
theorem localNames_named (plain : ∀ item ∈ front.getLast?, item.isDeclarationWord = false) :
    text ∈ Sibling.localNames (front ++ .declaration forms.declared ::
        (.node forms.parameters :: .node forms.body :: rest).map (Sibling.moved forms.move))
      ↔ text ∈ Sibling.localNames (front ++ .declaration forms.unnamed :: .node forms.body :: rest) ∨
        text ∈ (Sibling.node forms.parameters).innerNames := by
  have unnamed : Sibling.namesAt none (.declaration forms.unnamed) (.node forms.body :: rest)
      = forms.parameters.boundNames := rfl
  have inner : Sibling.innerNames (.declaration forms.unnamed) = [] := rfl
  have inner' : Sibling.innerNames (.declaration forms.declared) = [] := rfl
  have declared : ∀ following, Sibling.namesAt none (.declaration forms.declared) following = [] := fun _ => rfl
  rw [Sibling.localNames_eq, Sibling.localNames_eq, Sibling.levelNames_declaration none plain,
    Sibling.levelNames_declaration none plain, forms.levelNames_named, unnamed, declared]
  simp only [List.flatMap_append, List.flatMap_cons, List.flatMap_map, Sibling.innerNames_moved,
    inner, inner',
    List.mem_append, List.nil_append, List.append_nil]
  tauto

-- An item that is code in front of the export is so in the source.
theorem siblings?_last {items : List Syntax.Item} (read : siblings? items = some found)
    (last : found.getLast? = some (.node node)) : items.getLast? = some (.node node) := by
  rcases items.eq_nil_or_concat' with rfl | ⟨front, item, rfl⟩
  · cases read
    cases last
  · rw [siblings?_append, siblings?_singleton] at read
    obtain ⟨before, _, read⟩ := Option.bind_eq_some_iff.mp read
    obtain ⟨single, here, rfl⟩ := Option.map_eq_some_iff.mp read
    obtain ⟨meant, own, rfl⟩ := Option.map_eq_some_iff.mp here
    rw [List.getLast?_concat] at last
    cases last
    rw [List.getLast?_concat]
    cases item with
    | node code =>
      cases own
      rfl
    | importCall | importMeta => cases own
    | importBare word source =>
      obtain ⟨_, _, same⟩ := ok_of_bind (ok_of_toOption own)
      cases same
    | importFrom word clause fromWord source =>
      obtain ⟨_, _, same⟩ := ok_of_bind (ok_of_toOption own)
      cases same
    | «export» word body =>
      obtain ⟨_, _, same⟩ := ok_of_bind (ok_of_toOption own)
      cases same

-- Both modules are accepted with the same items in front and behind.
theorem reads (analyzed : analyzeSource anonymous = .ok analysis) : ∃ front rest,
    siblings? forms.front = some front ∧ siblings? forms.behind = some rest ∧
    items? anonymous = some (front ++ .declaration forms.unnamed :: .node forms.body :: rest) ∧
    items? named = some (front ++ .declaration forms.declared ::
      (.node forms.parameters :: .node forms.body :: rest).map (Sibling.moved forms.move)) := by
  obtain ⟨parsed, accepted, meant⟩ := analyzeSource_parts analyzed
  obtain ⟨items, found, _⟩ := analyze_parts meant
  have read := items?_eq accepted found
  rw [forms.items] at read
  obtain ⟨front, first, read⟩ := Option.bind_eq_some_iff.mp read
  obtain ⟨rest, later, _⟩ := Option.map_eq_some_iff.mp read
  refine ⟨front, rest, first, later, ?_, ?_⟩
  · rw [forms.items, first, later]
    rfl
  · rw [forms.itemsNamed, first, later]
    rfl

-- The parameters of the form without a name are not looked through.
theorem editsIn_parameters (analyzed : analyzeSource anonymous = .ok analysis) :
    analysis.editsIn forms.parameters = [] := by
  obtain ⟨front, rest, first, later, _⟩ := forms.reads analyzed
  have behind : siblings? (.node forms.body :: forms.behind) = some (.node forms.body :: rest) := by
    rw [siblings?_cons, later]
    rfl
  refine editsIn_kept analyzed forms.parses (ok_of_toOption first) rfl (ok_of_toOption behind) (fun _ => rfl) ?_
  intro token member
  rw [Syntax.Item.tokens_export]
  refine List.mem_cons_of_mem _ (List.mem_cons_of_mem _ ?_)
  exact List.mem_append_right _ member

-- In the form with a name they are code of the module.
theorem editsIn_named (analyzed : analyzeSource anonymous = .ok analysis)
    (analyzed' : analyzeSource named = .ok other) :
    other.editsIn (forms.parameters.moved forms.move)
        = (levelEdits other.imports.live ⟨false, false⟩ [] forms.inner).map (Edit.moved forms.move.far) ∧
      other.editsIn (forms.body.moved forms.move)
        = (levelEdits other.imports.live ⟨true, false⟩ [] forms.block).map (Edit.moved forms.move.far) := by
  obtain ⟨front, rest, _, _, _, read⟩ := forms.reads analyzed
  have parameters : items? named = some ((front ++ [Sibling.declaration forms.declared])
      ++ .node (.group .paren (Node.movedAll forms.move forms.inner))
        :: (.node forms.body :: rest).map (Sibling.moved forms.move)) := by
    rw [read, List.append_assoc]
    rfl
  have body : items? named = some (
      (front ++ [Sibling.declaration forms.declared, .node (forms.parameters.moved forms.move)])
      ++ .node (.group .brace (Node.movedAll forms.move forms.block)) :: rest.map (Sibling.moved forms.move)) := by
    rw [read, List.append_assoc]
    rfl
  constructor
  · exact (editsIn_group analyzed' parameters).trans (Reference.levelEdits_moved ⟨false,
      false⟩ [] forms.inner)
  · have noClass : Reference.opensClassBody
        (front ++ [Sibling.declaration forms.declared,
          .node (forms.parameters.moved forms.move)]).reverse = false := by
      rw [List.reverse_append]
      rfl
    have made := editsIn_group analyzed' body
    rw [noClass] at made
    exact made.trans (Reference.levelEdits_moved ⟨true, false⟩ [] forms.block)

theorem editsIn_body (analyzed : analyzeSource anonymous = .ok analysis) :
    analysis.editsIn forms.body = levelEdits analysis.imports.live ⟨true, false⟩ [] forms.block := by
  obtain ⟨front, rest, _, _, read, _⟩ := forms.reads analyzed
  have body : items? anonymous = some ((front ++ [Sibling.declaration forms.unnamed])
      ++ .node (.group .brace forms.block) :: rest) := by
    rw [read, List.append_assoc]
    rfl
  have noClass : Reference.opensClassBody (front ++ [Sibling.declaration forms.unnamed]).reverse = false := by
    rw [List.reverse_append]
    rfl
  have made := editsIn_group analyzed body
  rwa [noClass] at made

-- The body as both sources have it.
theorem body_laid : Syntax.Laid (Masking.mask anonymous) 0 (Masking.mask anonymous).length
      (forms.block.flatMap Node.tokens) ∧
    Syntax.Laid (Masking.mask named) 0 (Masking.mask named).length
      ((Node.movedAll forms.move forms.block).flatMap Node.tokens) := by
  have here := Syntax.item_laid forms.parses (.node forms.body)
    (List.mem_append_right _ (List.mem_cons_of_mem _ List.mem_cons_self))
  have there := Syntax.item_laid forms.parsesNamed (.node (forms.body.moved forms.move))
    (List.mem_append_right _ (List.mem_cons_of_mem _ (List.mem_cons_of_mem _ List.mem_cons_self)))
  rw [Syntax.Item.tokens_node, body, Node.tokens_group] at here
  rw [Syntax.Item.tokens_node, body, Node.moved, Node.tokens_group] at there
  exact ⟨here, there⟩

-- The body has the same edits in both forms exactly if no name that is edited in it is bound in the other form.
theorem sameEdits_body (analyzed : analyzeSource anonymous = .ok analysis)
    (analyzed' : analyzeSource named = .ok other) : SameEdits analysis other forms.move forms.body ↔
      (∀ edit ∈ analysis.editsIn forms.body, edit.removed anonymous ∉ other.localNames) ∧
      ∀ edit ∈ other.editsIn (forms.body.moved forms.move), edit.removed named ∉ analysis.localNames := by
  obtain ⟨front, rest, _, _, read, read'⟩ := forms.reads analyzed
  obtain ⟨laid, laid'⟩ := forms.body_laid
  have agree : ∀ {text : Text}, text ∉ analysis.localNames → text ∉ other.localNames →
      other.imports.live.lookup text = analysis.imports.live.lookup text :=
    fun free free' => live_agree analyzed read analyzed' read' forms.alike free free'
  have further : ∀ live : LiveBindings,
      (levelEdits live ⟨true, false⟩ [] forms.block).map (Edit.moved forms.move.far)
        = levelEdits live ⟨true, false⟩ [] (Node.movedAll forms.move forms.block) :=
    fun live => (Reference.levelEdits_moved ⟨true, false⟩ [] forms.block).symm
  have injective := List.map_injective_iff.mpr (Edit.moved_injective forms.move.far)
  rw [SameEdits, (forms.editsIn_named analyzed analyzed').2, forms.editsIn_body analyzed, injective.eq_iff]
  constructor
  · intro same
    constructor
    · intro edit made
      obtain ⟨expression, looked, _⟩ := Reference.levelEdits_kept (.group .brace []) laid.cut (same ▸ made)
      exact live_free analyzed' looked
    · intro edit made
      rw [same, further] at made
      obtain ⟨expression, looked, _⟩ := Reference.levelEdits_kept (.group .brace []) laid'.cut made
      exact live_free analyzed looked
  · rintro ⟨free, free'⟩
    have sorted := (Reference.levelEdits_fit (live_unbroken analyzed) ⟨true,
      false⟩ [] forms.block laid).sorted
    have sorted' := (Reference.levelEdits_fit (live_unbroken analyzed') ⟨true,
      false⟩ [] forms.block laid).sorted
    refine List.Pairwise.eq_of_mem_iff sorted' sorted fun edit => ⟨?_, ?_⟩
    · intro made
      have there := List.mem_map_of_mem made (f := Edit.moved forms.move.far)
      have foreign := free' _ there
      rw [further] at there
      obtain ⟨expression, looked, kept⟩ := Reference.levelEdits_kept (.group .brace []) laid'.cut there
      have again : Edit.moved forms.move.far edit ∈
          (levelEdits analysis.imports.live ⟨true,
            false⟩ [] forms.block).map (Edit.moved forms.move.far) := by
        rw [further]
        exact kept _ ((agree foreign (live_free analyzed' looked)).symm.trans looked)
      exact (List.mem_map_of_injective (Edit.moved_injective forms.move.far)).mp again
    · intro made
      obtain ⟨expression, looked, kept⟩ := Reference.levelEdits_kept (.group .brace []) laid.cut made
      exact kept other.imports.live ((agree (live_free analyzed looked) (free edit made)).trans looked)

end FunctionForms

-- A declarator, and the same declarator with an export in front of it.
structure DeclaratorForms (plain exported : Text) where
  move : Move
  front : List Syntax.Item
  word : Token
  kind : Token
  kindExported : Token
  pattern : Node
  behind : List Syntax.Item
  same : kindExported.text = kind.text
  parses : Syntax.parse (Masking.mask plain) = .ok ⟨front ++ .node (.leaf kind) :: .node pattern :: behind⟩
  parsesExported : Syntax.parse (Masking.mask exported) = .ok ⟨front ++
    .export word (.variable kindExported (pattern.moved move)) :: behind.map (Syntax.Item.moved move)⟩

-- The pattern of an exported declarator is not looked through.
theorem DeclaratorForms.editsIn_exported (forms : DeclaratorForms plain exported)
    (analyzed : analyzeSource exported = .ok other) : other.editsIn (forms.pattern.moved forms.move) = [] := by
  obtain ⟨items, read, _⟩ := analyzed_siblings analyzed forms.parsesExported
  obtain ⟨front, rest, first, later, _⟩ := siblings?_split read
  rw [siblings?_cons] at later
  obtain ⟨_, _, later⟩ := Option.bind_eq_some_iff.mp later
  obtain ⟨behind, later, _⟩ := Option.map_eq_some_iff.mp later
  refine editsIn_kept analyzed forms.parsesExported (ok_of_toOption first) rfl (ok_of_toOption later) (fun _ => rfl) ?_
  intro token member
  rw [Syntax.Item.tokens_export]
  exact List.mem_cons_of_mem _ (List.mem_cons_of_mem _ member)

-- Unless a word that declares stands in front of the export, the form with a name binds what the other one binds
-- and what is bound inside the parameters.
theorem FunctionForms.bound_named (forms : FunctionForms anonymous named)
    (analyzed : analyzeSource anonymous = .ok analysis) (analyzed' : analyzeSource named = .ok other)
    (plain : ¬forms.BehindWord) (text : Text) : text ∈ other.localNames ↔
      text ∈ analysis.localNames ∨ text ∈ (Sibling.node forms.parameters).innerNames := by
  obtain ⟨front, rest, first, _, read, read'⟩ := forms.reads analyzed
  have last : ∀ item ∈ front.getLast?, item.isDeclarationWord = false := by
    intro item last
    by_contra word
    rw [Bool.not_eq_false] at word
    cases item with
    | node code => exact plain ⟨code, siblings?_last first last, word⟩
    | importExpression | declaration => cases word
  rw [(analyzed_items analyzed read).1, (analyzed_items analyzed' read').1]
  exact forms.localNames_named last

-- In front of the pattern that is not exported stands its word, and it has the edits of its code.
theorem DeclaratorForms.editsIn_plain (forms : DeclaratorForms plain exported)
    (analyzed : analyzeSource plain = .ok analysis) : ∃ before following after,
      analysis.editsIn forms.pattern = Reference.nodeEdits analysis.imports.live ⟨false, false⟩
        ⟨.node (.leaf forms.kind) :: before, following, after⟩ forms.pattern := by
  obtain ⟨items, found, read⟩ := analyzed_siblings analyzed forms.parses
  obtain ⟨front, rest, _, later, rfl⟩ := siblings?_split found
  rw [siblings?_node, siblings?_node] at later
  obtain ⟨patterned, bound, rfl⟩ := Option.map_eq_some_iff.mp later
  obtain ⟨behind, _, rfl⟩ := Option.map_eq_some_iff.mp bound
  rw [List.append_cons] at read
  refine ⟨front.reverse, behind.head?, (behind.drop 1).head?, ?_⟩
  rw [editsIn_item analyzed read, List.reverse_concat]

-- The parameters of an anonymous default function and the pattern of an exported declarator have no edits; in the
-- other form they have those of their code. So both forms are edited alike exactly if nothing is edited there and,
-- for a function, no name that is edited in its body is bound in the other form: the named one binds what is bound
-- inside the parameters, too.
theorem consumed_references (functions : FunctionForms anonymous named)
    (declarators : DeclaratorForms plain exported) :
    (exported? named = exported? anonymous ∧
      ∀ {analysis other : Analysis}, analyzeSource anonymous = .ok analysis → analyzeSource named = .ok other →
        analysis.editsIn functions.parameters = [] ∧
        other.editsIn (functions.parameters.moved functions.move)
          = (levelEdits other.imports.live ⟨false,
            false⟩ [] functions.inner).map (Edit.moved functions.move.far) ∧
        (SameEdits analysis other functions.move functions.parameters ∧
            SameEdits analysis other functions.move functions.body ↔
          other.editsIn (functions.parameters.moved functions.move) = [] ∧
          (∀ edit ∈ analysis.editsIn functions.body, edit.removed anonymous ∉ other.localNames) ∧
          ∀ edit ∈ other.editsIn (functions.body.moved functions.move),
            edit.removed named ∉ analysis.localNames) ∧
        (¬functions.BehindWord → ∀ name, name ∈ other.localNames ↔
          name ∈ analysis.localNames ∨ name ∈ (Sibling.node functions.parameters).innerNames)) ∧
    ∀ {analysis other : Analysis}, analyzeSource plain = .ok analysis → analyzeSource exported = .ok other →
      other.editsIn (declarators.pattern.moved declarators.move) = [] ∧
      (∃ before following after, analysis.editsIn declarators.pattern = Reference.nodeEdits analysis.imports.live
        ⟨false, false⟩ ⟨.node (.leaf declarators.kind) :: before, following, after⟩ declarators.pattern) ∧
      (SameEdits analysis other declarators.move declarators.pattern ↔
        analysis.editsIn declarators.pattern = []) := by
  refine ⟨⟨functions.exported_same, ?_⟩, ?_⟩
  · intro analysis other analyzed analyzed'
    have none := functions.editsIn_parameters analyzed
    refine ⟨none, (functions.editsIn_named analyzed analyzed').1, ?_,
      functions.bound_named analyzed analyzed'⟩
    rw [SameEdits, none, List.map_nil, functions.sameEdits_body analyzed analyzed']
  · intro analysis other analyzed analyzed'
    have none := declarators.editsIn_exported analyzed'
    refine ⟨none, declarators.editsIn_plain analyzed, ?_⟩
    rw [SameEdits, none, eq_comm, List.map_eq_nil_iff]

deriving instance DecidableEq for Syntax.DefaultTarget
deriving instance DecidableEq for Syntax.ExportBody
deriving instance DecidableEq for Syntax.Item
deriving instance DecidableEq for Module

-- A token on the first line.
def tokenAt (terminal : Terminal) (text : String) (start : Nat) : Token := ⟨terminal, text.toList,
    start, 1, start + 1⟩

def importFront : List Syntax.Item :=
  [.importFrom (tokenAt (.keyword .import_) "import" 0)
      (.named none ⟨tokenAt (.opener .brace) "\x7b" 6, [⟨⟨tokenAt (.leaf .name) "x" 7, none⟩, none⟩],
        tokenAt (.closer .brace) "\x7d" 8⟩)
      (tokenAt (.keyword .from_) "from" 9) (tokenAt (.leaf .string) "'./a'" 13),
    .node (leafAt (.leaf .punctuator) ";" 18)]

def bodySource : Text := "import\x7bx\x7dfrom'./a';export default function(a)\x7bx\x7d".toList

def bodyNamed : Text := "import\x7bx\x7dfrom'./a';export default function f(a)\x7bx\x7d".toList

-- A reference in the body of a function.
def bodyForms : FunctionForms bodySource bodyNamed where
  move := .columns 2
  front := importFront
  word := tokenAt (.keyword .export_) "export" 19
  defaultWord := tokenAt (.keyword .default) "default" 26
  head := ⟨none, tokenAt (.keyword .function) "function" 34, none⟩
  name := tokenAt (.leaf .name) "f" 43
  inner := [leafAt (.opener .paren) "(" 42, leafAt (.leaf .name) "a" 43, leafAt (.closer .paren) ")" 44]
  block := [leafAt (.opener .brace) "\x7b" 45, leafAt (.leaf .name) "x" 46, leafAt (.closer .brace) "\x7d" 47]
  behind := []
  parses := by decide +kernel
  parsesNamed := by decide +kernel

def valueSource : Text := "import\x7bx\x7dfrom'./a';const\x7ba\x7d=x".toList

def valueExported : Text := "import\x7bx\x7dfrom'./a';export const\x7ba\x7d=x".toList

-- A reference behind a pattern.
def valueForms : DeclaratorForms valueSource valueExported where
  move := .columns 7
  front := importFront
  word := tokenAt (.keyword .export_) "export" 19
  kind := tokenAt (.leaf .name) "const" 19
  kindExported := tokenAt (.keyword .const) "const" 26
  pattern := .group .brace [leafAt (.opener .brace) "\x7b" 24, leafAt (.leaf .name) "a" 25,
    leafAt (.closer .brace) "\x7d" 26]
  behind := [.node (leafAt (.leaf .punctuator) "=" 27), .node (leafAt (.leaf .name) "x" 28)]
  same := rfl
  parses := by decide +kernel
  parsesExported := by decide +kernel

theorem references_alike :
    (∃ analysis other, analyzeSource bodySource = .ok analysis ∧ analyzeSource bodyNamed = .ok other ∧
      analysis.editsIn bodyForms.body ≠ [] ∧ SameEdits analysis other bodyForms.move bodyForms.parameters ∧
      SameEdits analysis other bodyForms.move bodyForms.body) ∧
    ∃ analysis other, analyzeSource valueSource = .ok analysis ∧ analyzeSource valueExported = .ok other ∧
      analysis.edits ≠ [] ∧ SameEdits analysis other valueForms.move valueForms.pattern := by
  have ⟨bodies, values⟩ : (analyzeSource bodySource).toOption.any (fun analysis =>
      (analyzeSource bodyNamed).toOption.any fun other =>
        decide (analysis.editsIn bodyForms.body ≠ [] ∧
          other.editsIn (bodyForms.parameters.moved bodyForms.move) = [] ∧
          (∀ edit ∈ analysis.editsIn bodyForms.body, edit.removed bodySource ∉ other.localNames) ∧
          ∀ edit ∈ other.editsIn (bodyForms.body.moved bodyForms.move),
            edit.removed bodyNamed ∉ analysis.localNames)) = true ∧
      (analyzeSource valueSource).toOption.any (fun analysis => (analyzeSource valueExported).toOption.any
        fun _ => decide (analysis.edits ≠ [] ∧ analysis.editsIn valueForms.pattern = [])) = true := by
    decide +kernel
  obtain ⟨functions, declarators⟩ := consumed_references bodyForms valueForms
  constructor
  · obtain ⟨analysis, analyzed, both⟩ := (Option.any_eq_true _ _).mp bodies
    obtain ⟨other, analyzed', holds⟩ := (Option.any_eq_true _ _).mp both
    obtain ⟨edited, alike⟩ := of_decide_eq_true holds
    obtain ⟨_, _, law, _⟩ := functions.2 (ok_of_toOption analyzed) (ok_of_toOption analyzed')
    exact ⟨analysis, other, ok_of_toOption analyzed, ok_of_toOption analyzed', edited, law.mpr alike⟩
  · obtain ⟨analysis, analyzed, both⟩ := (Option.any_eq_true _ _).mp values
    obtain ⟨other, analyzed', holds⟩ := (Option.any_eq_true _ _).mp both
    obtain ⟨edited, plain⟩ := of_decide_eq_true holds
    obtain ⟨_, _, law⟩ := declarators (ok_of_toOption analyzed) (ok_of_toOption analyzed')
    exact ⟨analysis, other, ok_of_toOption analyzed, ok_of_toOption analyzed', edited, law.mpr plain⟩

def defaultSource : Text := "import\x7bx\x7dfrom'./a';export default function(a=x)\x7b\x7d".toList

def defaultNamed : Text := "import\x7bx\x7dfrom'./a';export default function f(a=x)\x7b\x7d".toList

-- A reference in the default value of a parameter.
def defaultForms : FunctionForms defaultSource defaultNamed where
  move := .columns 2
  front := importFront
  word := tokenAt (.keyword .export_) "export" 19
  defaultWord := tokenAt (.keyword .default) "default" 26
  head := ⟨none, tokenAt (.keyword .function) "function" 34, none⟩
  name := tokenAt (.leaf .name) "f" 43
  inner := [leafAt (.opener .paren) "(" 42, leafAt (.leaf .name) "a" 43, leafAt (.leaf .punctuator) "=" 44,
    leafAt (.leaf .name) "x" 45, leafAt (.closer .paren) ")" 46]
  block := [leafAt (.opener .brace) "\x7b" 47, leafAt (.closer .brace) "\x7d" 48]
  behind := []
  parses := by decide +kernel
  parsesNamed := by decide +kernel

def patternSource : Text := "import\x7bx\x7dfrom'./a';const\x7ba=x\x7d=o".toList

def patternExported : Text := "import\x7bx\x7dfrom'./a';export const\x7ba=x\x7d=o".toList

-- A reference in the default value of a pattern.
def patternForms : DeclaratorForms patternSource patternExported where
  move := .columns 7
  front := importFront
  word := tokenAt (.keyword .export_) "export" 19
  kind := tokenAt (.leaf .name) "const" 19
  kindExported := tokenAt (.keyword .const) "const" 26
  pattern := .group .brace [leafAt (.opener .brace) "\x7b" 24, leafAt (.leaf .name) "a" 25,
    leafAt (.leaf .punctuator) "=" 26, leafAt (.leaf .name) "x" 27, leafAt (.closer .brace) "\x7d" 28]
  behind := [.node (leafAt (.leaf .punctuator) "=" 29), .node (leafAt (.leaf .name) "o" 30)]
  same := rfl
  parses := by decide +kernel
  parsesExported := by decide +kernel

theorem defaults_kept :
    (∃ analysis other, analyzeSource defaultSource = .ok analysis ∧ analyzeSource defaultNamed = .ok other ∧
      ¬SameEdits analysis other defaultForms.move defaultForms.parameters) ∧
    ∃ analysis other, analyzeSource patternSource = .ok analysis ∧ analyzeSource patternExported = .ok other ∧
      ¬SameEdits analysis other patternForms.move patternForms.pattern := by
  have ⟨parameters, patterns⟩ : (analyzeSource defaultSource).toOption.any (fun analysis =>
      (analyzeSource defaultNamed).toOption.any fun other =>
        decide ¬SameEdits analysis other defaultForms.move defaultForms.parameters) = true ∧
      (analyzeSource patternSource).toOption.any (fun analysis =>
        (analyzeSource patternExported).toOption.any fun other =>
          decide ¬SameEdits analysis other patternForms.move patternForms.pattern) = true := by
    decide +kernel
  constructor
  · obtain ⟨analysis, analyzed, both⟩ := (Option.any_eq_true _ _).mp parameters
    obtain ⟨other, analyzed', apart⟩ := (Option.any_eq_true _ _).mp both
    exact ⟨analysis, other, ok_of_toOption analyzed, ok_of_toOption analyzed', of_decide_eq_true apart⟩
  · obtain ⟨analysis, analyzed, both⟩ := (Option.any_eq_true _ _).mp patterns
    obtain ⟨other, analyzed', apart⟩ := (Option.any_eq_true _ _).mp both
    exact ⟨analysis, other, ok_of_toOption analyzed, ok_of_toOption analyzed', of_decide_eq_true apart⟩

end Rewriting
end ModuleBundler
