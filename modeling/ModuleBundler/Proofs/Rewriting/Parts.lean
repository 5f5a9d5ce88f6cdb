import ModuleBundler.Proofs.Rewriting.LiveNames
import ModuleBundler.Proofs.Rewriting.Relocated

/-!
What the parts of a module add to the whole: the names that are bound in front of a declaration, the imports of its
items, and the edits that are made in one of them.
-/
namespace ModuleBundler

namespace Sibling

variable {move : Move}

def isDeclarationWord (item : Sibling) : Bool := item.isWord ["var", "let", "const"]

theorem declaredName_declaration (front : List Sibling) (parsed : Declaration) (rest : List Sibling) :
    declaredName (front ++ .declaration parsed :: rest) = declaredName front := by
  have unnamed : (Sibling.declaration parsed).isName = false := rfl
  have unmarked : (Sibling.declaration parsed).isPunctuator "*" = false := rfl
  match front with
  | [] => cases rest <;> simp [declaredName, unnamed, unmarked]
  | [star] =>
    cases mark : star.isPunctuator "*" with
    | false => simp [declaredName, mark]
    | true =>
      have other : star.isName = false := by
        cases star with
        | node code =>
          cases code with
          | leaf token =>
            simp only [isPunctuator, token?, Node.token?, Option.any_some, Token.isPunctuator,
              Bool.and_eq_true,
              beq_iff_eq] at mark
            simp [isName, token?, Node.token?, Token.isName, mark.1]
          | group => rfl
        | importExpression | declaration => rfl
      simp [declaredName, mark, unnamed, other]
  | star :: name :: more => rfl

-- In front of a declaration names are bound as if nothing followed, unless a word that declares stands there.
theorem namesAt_declaration (previous : Option Sibling) {item : Sibling} {front : List Sibling}
    (plain : front = [] → item.isDeclarationWord = false) (parsed : Declaration) (rest : List Sibling) :
    namesAt previous item (front ++ .declaration parsed :: rest) = namesAt previous item front := by
  rcases item.declares with code | ⟨other, rfl⟩
  · cases front with
    | nil =>
      have word : item.isWord ["var", "let", "const"] = false := plain rfl
      have name := declaredName_declaration [] parsed rest
      rw [List.nil_append] at name ⊢
      rw [namesAt.eq_2 _ _ _ _ code, namesAt.eq_3 _ _ code, word, name]
      rfl
    | cons target more =>
      have name := declaredName_declaration (target :: more) parsed rest
      rw [List.cons_append] at name ⊢
      rw [namesAt.eq_2 _ _ _ _ code, namesAt.eq_2 _ _ _ _ code, name, trailingNames_declaration]
      rfl
  · rfl

theorem levelNames_declaration (previous : Option Sibling) {front : List Sibling}
    (plain : ∀ item ∈ front.getLast?, item.isDeclarationWord = false) (parsed : Declaration) (rest : List Sibling) :
    levelNames previous (front ++ .declaration parsed :: rest)
      = levelNames previous front ++ namesAt none (.declaration parsed) rest
        ++ levelNames (some (.declaration parsed)) rest := by
  induction front generalizing previous with
  | nil => rfl
  | cons item front ih =>
    have last : ∀ item ∈ front.getLast?, item.isDeclarationWord = false := by
      intro item last
      refine plain item ?_
      rw [List.getLast?_cons, Option.mem_def.mp last]
      rfl
    have here : front = [] → item.isDeclarationWord = false := by
      rintro rfl
      exact plain item rfl
    rw [List.cons_append, levelNames, levelNames, namesAt_declaration previous here, ih _ last]
    simp only [List.append_assoc]

theorem namesAt_braces (previous other : Option Sibling) (block : List Node) (rest : List Sibling) :
    namesAt previous (.node (.group .brace block)) rest = namesAt other (.node (.group .brace block)) rest := by
  cases rest <;> rfl

def origin? : Sibling → Option CodePoints
  | .declaration parsed => parsed.origin?
  | _ => none

def importBindings : Sibling → List (CodePoints × ImportBinding)
  | .declaration parsed => parsed.importBindings
  | _ => []

theorem origin?_moved (item : Sibling) : (item.moved move).origin? = item.origin? := by
  cases item with
  | declaration parsed =>
    obtain ⟨start, stop, meaning⟩ := parsed
    cases meaning <;> rfl
  | node | importExpression => rfl

theorem importBindings_moved (item : Sibling) : (item.moved move).importBindings = item.importBindings := by
  cases item with
  | declaration parsed =>
    obtain ⟨start, stop, meaning⟩ := parsed
    cases meaning <;> rfl
  | node | importExpression => rfl

end Sibling

namespace Rewriting

open Reference (Position positions)

-- What a module imports is told by its items.
theorem declarations_origins (items : List Sibling) :
    (declarations items).filterMap Declaration.origin? = items.filterMap Sibling.origin? := by
  induction items with
  | nil => rfl
  | cons item rest ih =>
    cases item with
    | declaration parsed =>
      have same : (complete parsed rest).origin? = parsed.origin? := by
        obtain ⟨start, stop, meaning⟩ := parsed
        cases meaning <;> rfl
      rw [declarations, List.filterMap_cons, List.filterMap_cons, same, ih]
      rfl
    | node | importExpression => exact ih

theorem declarations_bindings (items : List Sibling) :
    (declarations items).flatMap Declaration.importBindings = items.flatMap Sibling.importBindings := by
  induction items with
  | nil => rfl
  | cons item rest ih =>
    cases item with
    | declaration parsed =>
      have same : (complete parsed rest).importBindings = parsed.importBindings := by
        obtain ⟨start, stop, meaning⟩ := parsed
        cases meaning <;> rfl
      rw [declarations, List.flatMap_cons, List.flatMap_cons, same, ih]
      rfl
    | node | importExpression => exact ih

-- The reference edits that take out a part of a node.
def Analysis.editsIn (analysis : Analysis) (node : Node) : List Edit :=
  analysis.edits.filter fun edit =>
    (positions [] [.node node]).any fun leaf => edit.start < leaf.token.stop && leaf.token.start < edit.stop

theorem Analysis.editsIn_tokens (analysis : Analysis) (node : Node) : analysis.editsIn node
    = analysis.edits.filter fun edit =>
      node.tokens.any fun token => edit.start < token.stop && token.start < edit.stop := by
  simp only [editsIn, ← positions_node, List.any_map]
  rfl

variable {source : Text} {analysis : Analysis} {items : List Sibling} {parsed : Module} {node : Node}

theorem editsIn_positions (analyzed : analyzeSource source = .ok analysis) (read : items? source = some items)
    (accepted : Syntax.parse (Masking.mask source) = .ok parsed)
    (listed : node.tokens ⊆ parsed.items.flatMap Syntax.Item.tokens) :
    analysis.editsIn node = ((positions [] items).filter fun position => decide (position.token ∈ node.tokens)).flatMap
      (Position.edits analysis.imports.live) := by
  have touches : ∀ position ∈ positions [] items,
      (position.edits analysis.imports.live).filter (fun edit =>
        node.tokens.any fun token => edit.start < token.stop && token.start < edit.stop)
      = if position.token ∈ node.tokens then position.edits analysis.imports.live else [] := by
    intro position among
    split
    · rename_i own
      refine List.filter_eq_self.mpr fun edit made => List.any_eq_true.mpr ⟨position.token, own, ?_⟩
      obtain ⟨starts, proper, stops⟩ := position_edit analyzed read among made
      simp only [Bool.and_eq_true, decide_eq_true_eq]
      omega
    · rename_i foreign
      refine List.filter_eq_nil_iff.mpr fun edit made touched => ?_
      obtain ⟨token, member, overlaps⟩ := List.any_eq_true.mp touched
      obtain ⟨starts, proper, stops⟩ := position_edit analyzed read among made
      have taken := (positions_sublist read accepted).subset (List.mem_map_of_mem among)
      have apart := (Syntax.parse_laid accepted).apart taken (listed member) fun same => foreign (same ▸ member)
      unfold Token.Apart at apart
      simp only [Bool.and_eq_true, decide_eq_true_eq] at overlaps
      omega
  rw [analysis.editsIn_tokens, edits_leaves analyzed read, List.filter_flatMap, List.flatMap_congr touches]
  generalize positions [] items = leaves
  induction leaves with
  | nil => rfl
  | cons position leaves ih =>
    rw [List.flatMap_cons, List.filter_cons, ih]
    split <;> rename_i own
    · rw [if_pos (decide_eq_true own), List.flatMap_cons]
    · rw [if_neg (by simpa using own), List.nil_append]

-- The edits in a node that is an item are those that its code has in front of the items behind it.
theorem editsIn_item (analyzed : analyzeSource source = .ok analysis)
    (read : items? source = some (front ++ .node node :: back)) :
    analysis.editsIn node = Reference.nodeEdits analysis.imports.live ⟨false, false⟩
      ⟨front.reverse, back.head?, (back.drop 1).head?⟩ node := by
  obtain ⟨parsed, accepted, _⟩ := items?_parts read
  obtain ⟨others, more, parts⟩ := Reference.positions_item [] front (.node node) back
  rw [List.append_nil] at parts
  have own : (Reference.nodePositions .top front.reverse back node).map Position.token = node.tokens :=
    Reference.nodePositions_tokens .top front.reverse back node
  have whole : Reference.siblingPositions front.reverse back (.node node)
      = Reference.nodePositions .top front.reverse back node := rfl
  have distinct := (positions_laid read).nodup
  rw [parts, whole, List.map_append, List.map_append, own] at distinct
  obtain ⟨within, _, later⟩ := List.nodup_append.mp distinct
  obtain ⟨_, _, earlier⟩ := List.nodup_append.mp within
  have listed : node.tokens ⊆ parsed.items.flatMap Syntax.Item.tokens := by
    intro token member
    refine (positions_sublist read accepted).subset ?_
    rw [parts, whole, List.map_append, List.map_append, own]
    exact List.mem_append_left _ (List.mem_append_right _ member)
  have before : others.filter (fun position => decide (position.token ∈ node.tokens)) = [] := by
    refine List.filter_eq_nil_iff.mpr fun position among member => ?_
    exact earlier _ (List.mem_map_of_mem among) _ (of_decide_eq_true member) rfl
  have behind : more.filter (fun position => decide (position.token ∈ node.tokens)) = [] := by
    refine List.filter_eq_nil_iff.mpr fun position among member => ?_
    exact later _ (List.mem_append_right _ (of_decide_eq_true member)) _ (List.mem_map_of_mem among) rfl
  have kept : (Reference.nodePositions .top front.reverse back node).filter
      (fun position => decide (position.token ∈ node.tokens))
        = Reference.nodePositions .top front.reverse back node := by
    refine List.filter_eq_self.mpr fun position among => decide_eq_true ?_
    rw [← own]
    exact List.mem_map_of_mem among
  rw [editsIn_positions analyzed read accepted listed, parts, whole, List.filter_append,
    List.filter_append, before, behind,
    kept, List.nil_append, List.append_nil]
  exact (Reference.nodeEdits_positions .top front.reverse back node).symm

theorem editsIn_group (analyzed : analyzeSource source = .ok analysis)
    (read : items? source = some (front ++ .node (.group bracket children) :: back)) :
    analysis.editsIn (.group bracket children) = Reference.levelEdits analysis.imports.live
      ⟨bracket == .brace, bracket == .brace && Reference.opensClassBody front.reverse⟩ [] children := by
  rw [editsIn_item analyzed read, Reference.nodeEdits]

-- What an item keeps from the module has no edits.
theorem editsIn_kept (analyzed : analyzeSource source = .ok analysis)
    (accepted : Syntax.parse (Masking.mask source) = .ok ⟨front ++ item :: back⟩)
    (first : front.mapM sibling = .ok fronts) (here : sibling item = .ok found) (rest : back.mapM sibling = .ok backs)
    (none : ∀ before, Reference.siblingPositions before backs found = [])
    (part : node.tokens ⊆ item.tokens) : analysis.editsIn node = [] := by
  have read : items? source = some (fronts ++ found :: backs) := by
    refine items?_eq accepted ?_
    rw [List.mapM_append, List.mapM_cons, first, here, rest]
    rfl
  have listed : node.tokens ⊆ (front ++ item :: back).flatMap Syntax.Item.tokens := by
    intro token member
    exact List.mem_flatMap.mpr ⟨item, List.mem_append_right _ List.mem_cons_self, part member⟩
  have distinct := (Syntax.parse_laid accepted).nodup
  dsimp only at distinct
  rw [List.flatMap_append, List.flatMap_cons] at distinct
  obtain ⟨_, inner, earlier⟩ := List.nodup_append.mp distinct
  obtain ⟨_, _, later⟩ := List.nodup_append.mp inner
  have skipped := Reference.positions_tokens_skip [] none (items_covers first) (items_covers rest)
  rw [← List.flatMap_def, ← List.flatMap_def] at skipped
  have foreign : (positions [] (fronts ++ found :: backs)).filter
      (fun position => decide (position.token ∈ node.tokens)) = [] := by
    refine List.filter_eq_nil_iff.mpr fun position among member => ?_
    have own := part (of_decide_eq_true member)
    rcases List.mem_append.mp (skipped.subset (List.mem_map_of_mem among)) with before | behind
    · exact earlier _ before _ (List.mem_append_left _ own) rfl
    · exact later _ own _ behind rfl
  rw [editsIn_positions analyzed read accepted listed, foreign]
  rfl

end Rewriting
end ModuleBundler
