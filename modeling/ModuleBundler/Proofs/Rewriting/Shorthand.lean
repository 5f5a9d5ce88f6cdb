import ModuleBundler.Proofs.Rewriting.Positions
import ModuleBundler.Proofs.Syntax.Formed

/-!
Where a name is replaced by a property with that name as its key, and where by the expression alone.
-/
namespace ModuleBundler
namespace Reference

-- Code up to the bracket that ends the group on one side.
inductive Ends (terminal : Terminal) : List Sibling → Prop where
  | mk {nodes : List Node} {bracket : Token} (formed : ∀ node ∈ nodes, node.Formed)
      (mark : bracket.terminal = terminal) : Ends terminal (nodes.map .node ++ [.node (.leaf bracket)])

-- A leaf between the brackets of a group.
structure Position.Enclosed (position : Position) (bracket : Bracket) (outer : List Sibling) : Prop where
  setting : position.setting = .group bracket outer
  ahead : Ends (.opener bracket) position.before
  behind : Ends (.closer bracket) position.behind

variable {position : Position} {setting : Setting} {before behind : List Sibling} {kind : Leaf}

-- A leaf of code is the whole node, or it stands in a group of it.
theorem formed_positions {node : Node} (formed : node.Formed)
    (among : position ∈ nodePositions setting before behind node) (lexed : position.token.terminal = .leaf kind) :
    position = ⟨setting, before, position.token,
      behind⟩ ∨ ∃ bracket outer, position.Enclosed bracket outer := by
  induction formed generalizing setting before behind with
  | leaf =>
    rw [nodePositions, List.mem_singleton] at among
    rw [among]
    exact .inl rfl
  | @group nodes bracket opener closer opens closes inner ih =>
    refine .inr ?_
    rw [Node.enclosed, nodePositions, mem_levelPositions] at among
    obtain ⟨front, node, back, parts, among⟩ := among
    rw [List.append_nil] at among
    cases front with
    | nil =>
      -- The opening bracket is no leaf of code.
      cases parts
      rw [nodePositions, List.mem_singleton] at among
      rw [among, opens] at lexed
      cases lexed
    | cons first front =>
      rw [List.cons_append, List.cons.injEq] at parts
      obtain ⟨rfl, parts⟩ := parts
      rcases List.eq_nil_or_concat' back with rfl | ⟨back, last, rfl⟩
      · obtain ⟨rfl, final⟩ := List.append_inj' parts rfl
        cases final
        rw [nodePositions, List.mem_singleton] at among
        rw [among, closes] at lexed
        cases lexed
      · rw [← List.cons_append, ← List.append_assoc] at parts
        obtain ⟨rfl, final⟩ := List.append_inj' parts rfl
        cases final
        rcases ih node (by simp) among with here | enclosed
        · refine ⟨bracket, before, ?_⟩
          rw [here]
          simp only [List.map_append, List.map_cons, List.map_nil, List.reverse_cons, ← List.map_reverse]
          refine ⟨rfl, .mk (fun other listed => inner other ?_) opens,
            .mk (fun other listed => inner other ?_) closes⟩
          · exact List.mem_append_left _ (List.mem_reverse.mp listed)
          · exact List.mem_append_right _ (List.mem_cons_of_mem _ listed)
        · exact enclosed

theorem levelPositions_enclosed {nodes : List Node}
    (code : ∀ node ∈ nodes, (∃ token, node = .leaf token) ∨ node.Formed)
    (among : position ∈ levelPositions setting before nodes) (lexed : position.token.terminal = .leaf kind) :
    position.setting = setting ∨ ∃ bracket outer, position.Enclosed bracket outer := by
  rw [mem_levelPositions] at among
  obtain ⟨front, node, back, rfl, among⟩ := among
  rcases code node (by simp) with ⟨token, rfl⟩ | formed
  · rw [nodePositions, List.mem_singleton] at among
    rw [among]
    exact .inl rfl
  · rcases formed_positions formed among lexed with here | enclosed
    · rw [here]
      exact .inl rfl
    · exact .inr enclosed

-- From a leaf on to the next comma, the bracket at the end of the group apart.
def untilComma (items : List Sibling) : List Sibling := items.dropLast.takeWhile fun item => !item.isPunctuator ","

-- What stands between the commas around a leaf.
def Position.element (position : Position) : List Sibling :=
  (untilComma position.before).reverse ++ .node (.leaf position.token) :: untilComma position.behind

-- A name that is alone between commas in braces, those of a class apart.
def Position.isShorthand (position : Position) : Bool :=
  position.token.isName && position.setting.level == ⟨true, false⟩ && position.element.length == 1

theorem Position.element_alone (position : Position) :
    position.element.length = 1 ↔ untilComma position.before = [] ∧ untilComma position.behind = [] := by
  rw [Position.element, List.length_append, List.length_reverse, List.length_cons, ← List.length_eq_zero_iff,
    ← List.length_eq_zero_iff]
  omega

def endsElement (terminal : Terminal) (item : Sibling) : Bool := isTerminal item [terminal] || item.isPunctuator ","

-- Nothing but a comma or the bracket comes next where an element ends.
theorem Ends.untilComma (ends : Ends terminal items) (outer : ∀ kind, terminal ≠ .leaf kind) :
    untilComma items = [] ↔ items.head?.any (endsElement terminal) = true := by
  obtain ⟨formed, mark⟩ := ends
  rw [Reference.untilComma, List.dropLast_concat]
  rename_i nodes bracket
  cases nodes with
  | nil => simp [endsElement, isTerminal, Sibling.token?, Node.token?, mark]
  | cons node nodes =>
    have apart : isTerminal (.node node) [terminal] = false := by
      cases formed node List.mem_cons_self with
      | leaf kind lexed => simpa [isTerminal, Sibling.token?, Node.token?, lexed] using (outer kind).symm
      | group => rfl
    simp [endsElement, apart, List.takeWhile_cons]

-- In braces that are no class body a name is expanded where its element ends on both sides.
theorem replacement?_braces (replaced : replacement? ⟨true, false⟩ around name expression = some text) :
    text = if around.before.head?.any (endsElement (.opener .brace))
        && around.following.any (endsElement (.closer .brace))
      then name ++ ':' :: ' ' :: expression else expression := by
  unfold replacement? at replaced
  simp only [Bool.false_eq_true, if_false, Bool.true_and] at replaced
  split at replaced
  · cases replaced
  · change (if around.before.head?.any (endsElement (.opener .brace)) = true then _ else _) = _ at replaced
    split at replaced
    · rename_i ahead
      rw [ahead, Bool.true_and]
      split at replaced
      · cases replaced
      · simp only [Bool.or_comm (Sibling.isPunctuator _ ",")] at replaced
        change (if around.following.any (endsElement (.closer .brace)) = true then _ else _) = _ at replaced
        split at replaced
        · rename_i behind
          rw [if_pos behind]
          exact (Option.some.inj replaced).symm
        · rename_i behind
          rw [if_neg behind]
          exact (Option.some.inj replaced).symm
    · rename_i ahead
      rw [Bool.not_eq_true] at ahead
      rw [ahead, Bool.false_and, if_neg Bool.false_ne_true]
      exact (Option.some.inj replaced).symm

theorem replacement?_plain (outside : level ≠ ⟨true, false⟩)
    (replaced : replacement? level around name expression = some text) : text = expression := by
  obtain ⟨inBraces, inClass⟩ := level
  unfold replacement? at replaced
  dsimp only at replaced
  split at replaced
  · cases replaced
  · split at replaced
    · split at replaced
      · exact (Option.some.inj replaced).symm
      · cases replaced
    · rename_i bodiless
      have open_ : inBraces = false := by simpa [bodiless] using outside
      rw [open_, Bool.false_and, if_neg Bool.false_ne_true] at replaced
      exact (Option.some.inj replaced).symm

-- Between the brackets of a group a name that is replaced at all is expanded where it is alone in braces.
theorem Position.Enclosed.replacement? (enclosed : position.Enclosed bracket outer)
    (named : position.token.isName = true) (replaced : position.replacement? expression = some text) :
    text = if position.isShorthand then position.token.text ++ ':' :: ' ' :: expression else expression := by
  unfold Position.replacement? at replaced
  by_cases level : position.setting.level = ⟨true, false⟩
  · have brace : bracket = .brace := by
      simpa [Setting.level, enclosed.setting] using congrArg Level.inBraces level
    subst brace
    have alone : position.isShorthand = (position.before.head?.any (endsElement (.opener .brace))
        && position.behind.head?.any (endsElement (.closer .brace))) := by
      rw [Bool.eq_iff_iff, Bool.and_eq_true, ← enclosed.ahead.untilComma nofun,
        ← enclosed.behind.untilComma nofun,
        ← position.element_alone]
      simp [isShorthand, named, level]
    rw [level] at replaced
    rw [alone]
    exact replacement?_braces replaced
  · have other : position.isShorthand = false := by simp [isShorthand, level]
    rw [other]
    exact replacement?_plain level replaced

theorem replaced_text
    (grouped : position.setting.level ≠ ⟨true, false⟩ ∨ ∃ bracket outer, position.Enclosed bracket outer)
    (named : position.token.isName = true) (replaced : position.replacement? expression = some text) :
    text = if position.isShorthand then position.token.text ++ ':' :: ' ' :: expression else expression := by
  rcases grouped with outside | ⟨bracket, outer, enclosed⟩
  · have other : position.isShorthand = false := by simp [Position.isShorthand, outside]
    rw [other]
    exact replacement?_plain outside replaced
  · exact enclosed.replacement? named replaced

end Reference

namespace Rewriting
open Reference (Position siblingPositions positions)

variable {position : Position} {before behind : List Sibling} {kind : Leaf}

theorem sibling_enclosed (read : sibling item = .ok found) (formed : item.Formed)
    (among : position ∈ siblingPositions before behind found) (lexed : position.token.terminal = .leaf kind) :
    position.setting.level ≠ ⟨true, false⟩ ∨ ∃ bracket outer, position.Enclosed bracket outer := by
  have level : ∀ (setting : Reference.Setting) (nodes : List Node), setting.level ≠ ⟨true, false⟩ →
      (∀ node ∈ nodes, (∃ token, node = .leaf token) ∨ node.Formed) →
      position ∈ Reference.levelPositions setting [] nodes →
      position.setting.level ≠ ⟨true, false⟩ ∨ ∃ bracket outer, position.Enclosed bracket outer := by
    intro setting nodes outside code listed
    rcases Reference.levelPositions_enclosed code listed lexed with same | enclosed
    · exact .inl (same ▸ outside)
    · exact .inr enclosed
  cases item with
  | node node =>
    cases read
    rcases Reference.formed_positions (formed node (by simp [Syntax.Item.nodes])) among lexed with here | enclosed
    · rw [here]
      exact .inl nofun
    · exact .inr enclosed
  | importCall word arguments =>
    cases read
    refine level .expression _ nofun (fun node listed => ?_) among
    rcases List.mem_pair.mp listed with rfl | rfl
    · exact .inl ⟨word, rfl⟩
    · exact .inr (formed _ (by simp [Syntax.Item.nodes]))
  | importMeta word dot name =>
    cases read
    refine level .expression _ nofun (fun node listed => ?_) among
    simp only [List.mem_cons, List.not_mem_nil, or_false] at listed
    rcases listed with rfl | rfl | rfl
    all_goals exact .inl ⟨_, rfl⟩
  | importBare | importFrom =>
    obtain ⟨text, value, same⟩ := ok_of_bind read
    cases same
    cases among
  | «export» word body =>
    obtain ⟨meaning, value, same⟩ := ok_of_bind read
    cases same
    rcases exportMeaning_cases value with ⟨defaultWord, target, rfl⟩ | plain
    · cases value
      cases target with
      | anonymousClass classWord body =>
        cases formed body (by simp [Syntax.Item.nodes]) with
        | leaf => cases among
        | group opens closes inner =>
          refine level .defaultClass _ nofun (fun node listed => ?_) among
          simp only [List.mem_cons, List.mem_append, List.not_mem_nil, or_false] at listed
          rcases listed with rfl | listed | rfl
          · exact .inl ⟨_, rfl⟩
          · exact .inr (inner node listed)
          · exact .inl ⟨_, rfl⟩
      | expression | async | namedFunction | anonymousFunction | namedClass | derivedClass => cases among
    · cases meaning with
      | assignsDefault consumed derived => exact absurd rfl (plain consumed derived)
      | _ => cases among

theorem positions_enclosed (read : items? source = some items) (among : position ∈ positions [] items)
    (lexed : position.token.terminal = .leaf kind) :
    position.setting.level ≠ ⟨true, false⟩ ∨ ∃ bracket outer, position.Enclosed bracket outer := by
  obtain ⟨parsed, accepted, found⟩ := items?_parts read
  obtain ⟨front, item, back, rfl, here⟩ := (Reference.mem_positions [] items).mp among
  obtain ⟨origin, rest, same, _, parts⟩ :=
    List.forall₂_cons_right_iff.mp (List.forall₂_drop_append _ front _ (forall₂_of_mapM found))
  have listed : origin ∈ parsed.items := List.mem_of_mem_drop (parts ▸ List.mem_cons_self)
  exact sibling_enclosed same (Syntax.parse_formed accepted origin listed) here lexed

-- What an edit of a leaf writes, as the leaf was read.
theorem position_reads
    (enclosed : position.setting.level ≠ ⟨true, false⟩ ∨ ∃ bracket outer, position.Enclosed bracket outer)
    (cut : position.token.CutFrom source) (among : edit ∈ position.edits live) :
    (∀ c ∈ edit.removed source, Text.isNameChar c = true) ∧
      ∃ expression, live.lookup (edit.removed source) = some expression ∧
        edit.text = if position.isShorthand then edit.removed source ++ ':' :: ' ' :: expression else expression := by
  by_cases named : position.token.terminal = .leaf .name
  · have isName : position.token.isName = true := by simp [Token.isName, named]
    rw [Position.edits_name named, Option.mem_toList, Option.map_eq_some_iff] at among
    obtain ⟨text, found, rfl⟩ := among
    obtain ⟨expression, looked, replaced⟩ := Option.bind_eq_some_iff.mp found
    have here : position.token.text <+: source.drop position.token.start := by
      rw [cut.slice]
      exact List.take_prefix _ _
    rw [Token.stop, Reference.removed_name here]
    exact ⟨(cut.named (.inl named)).chars, expression, looked,
      Reference.replaced_text enclosed isName replaced⟩
  · by_cases plain : position.token.terminal = .leaf .template
    · have made : edit ∈ Reference.templateEdits live position.token := by
        unfold Position.edits Reference.leafEdits at among
        rwa [plain] at among
      have unnamed : position.isShorthand = false := by simp [Position.isShorthand, Token.isName, named]
      obtain ⟨looked, chars⟩ := Reference.templateEdits_reads cut made
      rw [unnamed]
      exact ⟨chars, edit.text, looked, rfl⟩
    · rw [Position.edits_other named plain] at among
      cases among

-- Every reference is replaced by the expression of its binding alone, but for a name that is alone between
-- commas in braces, whether they are an object literal or the body of a function.
theorem reference_text (analyzed : analyzeSource source = .ok analysis) (among : edit ∈ analysis.edits) :
    ∃ items position expression, items? source = some items ∧ position ∈ positions [] items ∧
      edit ∈ position.edits analysis.imports.live ∧
      analysis.imports.live.lookup (edit.removed source) = some expression ∧
      edit.text = if position.isShorthand then edit.removed source ++ ':' :: ' ' :: expression else expression := by
  obtain ⟨parsed, accepted, meant⟩ := analyzeSource_parts analyzed
  obtain ⟨items, found, _⟩ := analyze_parts meant
  have read := items?_eq accepted found
  rw [edits_leaves analyzed read] at among
  obtain ⟨position, listed, made⟩ := List.mem_flatMap.mp among
  have cut := position_cut read listed
  have kind : ∃ kind, position.token.terminal = .leaf kind := by
    by_contra other
    rw [Position.edits_other (fun name => other ⟨_, name⟩) (fun template => other ⟨_, template⟩)] at made
    cases made
  obtain ⟨kind, lexed⟩ := kind
  obtain ⟨named, expression, looked, text⟩ := position_reads (positions_enclosed read listed lexed) cut made
  have same := edit.removed_mask fun blank => absurd (named _ blank) (by decide)
  rw [← same] at looked text
  exact ⟨items, position, expression, read, listed, made, looked, text⟩

-- A statement of its own in a body.
def statementSource : Text := "import\x7bx\x7dfrom'./a';function f()\x7bx;\x7d".toList

theorem statement_replaced : ∃ analysis, analyzeSource statementSource = .ok analysis ∧ analysis.edits ≠ [] ∧
    ∀ edit ∈ analysis.edits, analysis.imports.live.lookup (edit.removed statementSource) = some edit.text := by
  have ⟨accepts, plain⟩ : (analyzeSource statementSource).toOption.map (fun analysis => analysis.edits.isEmpty)
      = some false ∧
      (items? statementSource).any (fun items => (positions [] items).all (!·.isShorthand)) = true := by
    unfold statementSource
    rw [String.toList_ofList]
    decide +kernel
  obtain ⟨analysis, analyzed, edited⟩ := ok_of_toOption_map accepts
  refine ⟨analysis, analyzed, List.isEmpty_eq_false_iff.mp edited, fun edit among => ?_⟩
  obtain ⟨items, position, expression, read, listed, _, looked, text⟩ := reference_text analyzed among
  rw [read, Option.any_some, List.all_eq_true] at plain
  have whole : position.isShorthand = false := by simpa using plain position listed
  rw [whole] at text
  exact looked.trans (congrArg some text.symm)

-- A name in the braces behind a list of parameters.
def inBody (position : Position) : Bool :=
  match position.setting with
  | .group .brace (previous :: _) => previous.isGroup .paren
  | _ => false

-- The first of two expressions in a body.
def sequenceSource : Text := "import\x7bx\x7dfrom'./a';function f()\x7bx,y;\x7d".toList

theorem sequence_expanded :
    (items? sequenceSource).map (fun items => ((positions [] items).filter fun position =>
        inBody position && position.isShorthand).map (·.token.start)) = some [32] ∧
    (analyzeSource sequenceSource).toOption.map (fun analysis => analysis.edits.map fun edit =>
        (edit.start, edit.text)) = some [(32, "x: __dep0[\"x\"]".toList)] := by
  unfold sequenceSource
  repeat rw [String.toList_ofList]
  decide +kernel

end Rewriting
end ModuleBundler
