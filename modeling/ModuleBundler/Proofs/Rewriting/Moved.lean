import ModuleBundler.Proofs.Rewriting.Exported
import ModuleBundler.Proofs.Syntax.Moved

/-!
The same code further on in a source has the same meaning: it binds, imports and exports the same names.
-/
namespace ModuleBundler

-- The same code further on in a source.
section
variable (move : Move)

def Consumed.moved : Consumed → Consumed
  | .parameters group => .parameters (group.moved move)
  | .body group => .body (group.moved move)

def Meaning.moved : Meaning → Meaning
  | .assignsDefault consumed derivedClass => .assignsDefault (consumed.map (Consumed.moved move)) derivedClass
  | meaning => meaning

def Declaration.moved (declaration : Declaration) : Declaration :=
  ⟨declaration.start + move.far, declaration.stop + move.far, declaration.meaning.moved move⟩

def Sibling.moved : Sibling → Sibling
  | .node code => .node (code.moved move)
  | .importExpression children => .importExpression (children.map (Node.moved move))
  | .declaration parsed => .declaration (parsed.moved move)

end

variable {move : Move}

theorem Token.stop_moved (token : Token) : (token.moved move).stop = token.stop + move.far := Nat.add_right_comm ..

namespace Node

theorem token?_moved (node : Node) : (node.moved move).token? = node.token?.map (Token.moved move) := by
  cases node <;> rfl

theorem isPunctuator_moved (node : Node) (text : String) :
    (node.moved move).isPunctuator text = node.isPunctuator text := by
  cases node <;> rfl

theorem between_map (change : α → β) (children : List α) :
    between (children.map change) = (between children).map change := by
  rw [between, between, List.map_dropLast, List.map_drop]

theorem partsBetween_map (change : α → β) (separates : β → Bool) (elements : List α) :
    partsBetween separates (elements.map change)
      = (partsBetween (fun element => separates (change element)) elements).map (List.map change) := by
  rw [partsBetween_eq, partsBetween_eq, splitOnP_map, List.filter_map]
  simp only [Function.comp_def, List.isEmpty_map]

-- The steps from an element to its target.
def unspread (element : List Bound) : List Bound :=
  match element with
  | first :: rest => if first.1.isPunctuator "..." then rest else element
  | [] => []

def unkeyed (element : List Bound) : List Bound :=
  match element.dropWhile (fun bound => !bound.1.isPunctuator ":") with
  | _ :: target => target
  | [] => element

def targetNames : List Bound → List Text
  | target :: _ => if target.1.isPunctuator "=" then [] else target.2
  | [] => []

theorem elementNames_eq (bracket : Bracket) (element : List Bound) : elementNames bracket element
    = targetNames (if bracket = .brace then unkeyed (unspread element) else unspread element) := rfl

-- A change of nodes that are no marks before nor after.
theorem elementNames_map {change : Bound → Bound}
    (alike : ∀ bound text, (change bound).1.isPunctuator text = bound.1.isPunctuator text)
    (names : ∀ bound, (change bound).2 = bound.2) (bracket : Bracket) (element : List Bound) :
    elementNames bracket (element.map change) = elementNames bracket element := by
  have spread : ∀ element : List Bound, unspread (element.map change) = (unspread element).map change := by
    intro element
    cases element with
    | nil => rfl
    | cons first rest =>
      simp only [unspread, List.map_cons, alike]
      split <;> rfl
  have keyed : ∀ element : List Bound, unkeyed (element.map change) = (unkeyed element).map change := by
    intro element
    simp only [unkeyed, List.dropWhile_map, Function.comp_def, alike]
    cases element.dropWhile fun bound => !bound.1.isPunctuator ":" <;> rfl
  have found : ∀ element : List Bound, targetNames (element.map change) = targetNames element := by
    intro element
    cases element with
    | nil => rfl
    | cons target rest => simp only [List.map_cons, targetNames, alike, names]
  rw [elementNames_eq, elementNames_eq, spread]
  split
  · rw [keyed, found]
  · rw [found]

def Bound.moved (move : Move) (bound : Bound) : Bound := (bound.1.moved move, bound.2)

mutual
theorem boundNames_moved : ∀ node : Node, (node.moved move).boundNames = node.boundNames
  | .leaf token => rfl
  | .group bracket children => by
    have alike : ∀ (bound : Bound) text, (bound.moved move).1.isPunctuator text = bound.1.isPunctuator text :=
      fun bound text => bound.1.isPunctuator_moved text
    rw [moved, boundNames, boundNames, eachBound_moved children, between_map, partsBetween_map,
      List.flatMap_map]
    simp only [alike, elementNames_map alike fun _ => rfl]

theorem eachBound_moved : ∀ nodes : List Node,
    eachBound (movedAll move nodes) = (eachBound nodes).map (Bound.moved move)
  | [] => rfl
  | node :: nodes => by
    rw [movedAll, eachBound, eachBound, boundNames_moved node, eachBound_moved nodes, List.map_cons]
    rfl
end

theorem firstToken?_moved (node : Node) : (node.moved move).firstToken? = node.firstToken?.map (Token.moved move) := by
  cases node with
  | leaf => rfl
  | group bracket children =>
    rw [moved, movedAll_eq_map, firstToken?, firstToken?, List.head?_map]
    cases children.head? with
    | none => rfl
    | some node => exact node.token?_moved

theorem lastToken?_moved (node : Node) : (node.moved move).lastToken? = node.lastToken?.map (Token.moved move) := by
  cases node with
  | leaf => rfl
  | group bracket children =>
    rw [moved, movedAll_eq_map, lastToken?, lastToken?, List.getLast?_map]
    cases children.getLast? with
    | none => rfl
    | some node => exact node.token?_moved

end Node

namespace Sibling

-- What the scan for declarators sees of code is the same further on.
theorem isPunctuator_moved (item : Sibling) (text : String) :
    (item.moved move).isPunctuator text = item.isPunctuator text := by
  cases item with
  | node code => exact code.isPunctuator_moved text
  | importExpression | declaration => rfl

theorem boundNames_moved (item : Sibling) : (item.moved move).boundNames = item.boundNames := by
  cases item with
  | node code => exact code.boundNames_moved
  | importExpression | declaration => rfl

theorem firstLine?_moved (item : Sibling) : (item.moved move).firstLine? = item.firstLine? := by
  cases item with
  | node code =>
    rw [moved, firstLine?, firstLine?, code.firstToken?_moved, Option.map_map]
    rfl
  | importExpression children =>
    rw [moved, firstLine?, firstLine?, List.head?_map]
    cases children.head? with
    | none => rfl
    | some node =>
      rw [Option.map_some, Option.bind_some, Option.bind_some, node.firstToken?_moved, Option.map_map]
      rfl
  | declaration => rfl

theorem lastLine?_moved (item : Sibling) : (item.moved move).lastLine? = item.lastLine? := by
  cases item with
  | node code =>
    rw [moved, lastLine?, lastLine?, code.lastToken?_moved, Option.map_map]
    rfl
  | importExpression children =>
    rw [moved, lastLine?, lastLine?, List.getLast?_map]
    cases children.getLast? with
    | none => rfl
    | some node =>
      rw [Option.map_some, Option.bind_some, Option.bind_some, node.lastToken?_moved, Option.map_map]
      rfl
  | declaration => rfl

theorem token?_moved (item : Sibling) : (item.moved move).token? = item.token?.map (Token.moved move) := by
  cases item with
  | node code => exact code.token?_moved
  | importExpression | declaration => rfl

theorem isGroup_moved (item : Sibling) (bracket : Bracket) :
    (item.moved move).isGroup bracket = item.isGroup bracket := by
  cases item with
  | node code => cases code <;> rfl
  | importExpression | declaration => rfl

theorem continues_moved (previous item : Sibling) :
    continues (previous.moved move) (item.moved move) = continues previous item := by
  simp only [continues, token?_moved, isGroup_moved, Option.any_map]
  rfl

theorem breaksLine_moved (previous : Option Sibling) (item : Sibling) :
    breaksLine (previous.map (moved move)) (item.moved move) = breaksLine previous item := by
  cases previous with
  | none => rfl
  | some previous => simp only [Option.map_some, breaksLine, firstLine?_moved, lastLine?_moved,
    continues_moved]

theorem moved_code (code : ∀ parsed, item ≠ Sibling.declaration parsed) (move : Move) :
    ∀ parsed, item.moved move ≠ .declaration parsed := by
  cases item with
  | declaration parsed => exact absurd rfl (code parsed)
  | node | importExpression => exact fun _ => nofun

theorem trailingNames_moved (previous : Option Sibling) (afterComma : Bool) (items : List Sibling) :
    trailingNames (previous.map (moved move)) afterComma (items.map (moved move))
      = trailingNames previous afterComma items := by
  induction items generalizing previous afterComma with
  | nil => rfl
  | cons item rest ih =>
    rcases item.declares with code | ⟨parsed, rfl⟩
    · rw [List.map_cons, trailingNames_code code, trailingNames_code (moved_code code move),
        isPunctuator_moved,
        isPunctuator_moved, breaksLine_moved, boundNames_moved, ← ih (some item) false, ← ih (some item)]
      rfl
    · rfl

end Sibling

theorem exportedNames_moved (items : List Sibling) :
    exportedNames (items.map (Sibling.moved move)) = exportedNames items := by
  induction items with
  | nil => rfl
  | cons item rest ih =>
    rcases item.declares with code | ⟨⟨start, stop, meaning⟩, rfl⟩
    · rw [List.map_cons, exportedNames_code code, exportedNames_code (Sibling.moved_code code move), ih]
    · have trailing : Sibling.trailingNames none false (rest.map (Sibling.moved move))
          = Sibling.trailingNames none false rest := Sibling.trailingNames_moved none false rest
      rw [List.map_cons, Sibling.moved, exportedNames, exportedNames, trailing, ih]
      cases meaning <;> rfl

namespace Syntax

theorem Specifier.names_moved (specifier : Specifier) : (specifier.moved move).names = specifier.names := by
  obtain ⟨name, rename⟩ := specifier
  cases rename <;> rfl

theorem SpecifierList.exports_moved (list : SpecifierList) : (list.moved move).exports = list.exports := by
  rw [exports, exports, moved, List.map_map]
  refine List.map_congr_left fun entry _ => ?_
  simp only [Function.comp_apply, Entry.moved, Specifier.names_moved]

theorem SpecifierList.imports_moved (list : SpecifierList) : (list.moved move).imports = list.imports := by
  rw [imports, imports, moved, List.map_map]
  refine List.map_congr_left fun entry _ => ?_
  simp only [Function.comp_apply, Entry.moved, Specifier.names_moved]

theorem ImportClause.bindings_moved (clause : ImportClause) : (clause.moved move).bindings = clause.bindings := by
  have head : ∀ head : Option DefaultHead,
      DefaultHead.imports (head.map (DefaultHead.moved move)) = DefaultHead.imports head := by
    intro head
    cases head <;> rfl
  cases clause with
  | defaultOnly => rfl
  | «namespace» first star asWord name => rw [moved, bindings, bindings, head]; rfl
  | named first list => rw [moved, bindings, bindings, head, list.imports_moved]

end Syntax

namespace Rewriting

theorem specifier_moved (source : Token) : specifier (source.moved move) = specifier source := rfl

theorem exportMeaning_moved (body : Syntax.ExportBody) :
    exportMeaning (body.moved move) = (exportMeaning body).map (Meaning.moved move) := by
  cases body with
  | default word target => cases target <;> rfl
  | function | «class» => rfl
  | «variable» kind binding =>
    simp only [Syntax.ExportBody.moved, exportMeaning, binding.boundNames_moved]
    rfl
  | names list =>
    simp only [Syntax.ExportBody.moved, exportMeaning, list.exports_moved]
    rfl
  | namesFrom list fromWord source =>
    simp only [Syntax.ExportBody.moved, exportMeaning, list.exports_moved, specifier_moved]
    cases specifier source <;> rfl
  | all star fromWord source | «namespace» star asWord name fromWord source =>
    simp only [Syntax.ExportBody.moved, exportMeaning, specifier_moved]
    cases specifier source <;> rfl

theorem exportStop_moved (word : Token) (body : Syntax.ExportBody) :
    exportStop (word.moved move) (body.moved move) = exportStop word body + move.far := by
  cases body <;> exact Token.stop_moved _

-- An item further on in a source has the same meaning.
theorem sibling_moved (item : Syntax.Item) :
    sibling (item.moved move) = (sibling item).map (Sibling.moved move) := by
  cases item with
  | node | importCall | importMeta => rfl
  | importBare word source =>
    simp only [Syntax.Item.moved, sibling, specifier_moved, source.stop_moved]
    cases specifier source <;> rfl
  | importFrom word clause fromWord source =>
    simp only [Syntax.Item.moved, sibling, specifier_moved, source.stop_moved, clause.bindings_moved]
    cases specifier source <;> rfl
  | «export» word body =>
    simp only [Syntax.Item.moved, sibling, exportMeaning_moved, exportStop_moved]
    cases exportMeaning body <;> rfl

theorem siblings?_moved (items : List Syntax.Item) :
    siblings? (items.map (Syntax.Item.moved move)) = (siblings? items).map (List.map (Sibling.moved move)) := by
  induction items with
  | nil => rfl
  | cons item items ih =>
    rw [List.map_cons, siblings?_cons, siblings?_cons, ih, sibling_moved]
    cases sibling item <;> cases siblings? items <;> rfl

end Rewriting
end ModuleBundler
