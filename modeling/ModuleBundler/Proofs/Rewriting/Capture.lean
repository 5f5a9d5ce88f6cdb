import ModuleBundler.Proofs.Rewriting.Binders
import ModuleBundler.Proofs.Rewriting.Passthrough

/-!
Imported names that are read live are bound nowhere else, as far as bindings are seen; and nothing but
such names is replaced in the code.
-/
namespace ModuleBundler

theorem Masking.blanked_visible (blanked : List.Forall₂ Blanked shown original) (visible : ' ' ∉ shown) :
    original = shown := by
  induction blanked with
  | nil => rfl
  | cons here _ ih =>
    rw [List.mem_cons, not_or] at visible
    rcases here with rfl | ⟨rfl, _⟩
    · rw [ih visible.2]
    · exact absurd rfl visible.1

-- What an edit takes out of a masked source, if it shows no blanks, it takes out of the source.
theorem Edit.removed_mask (edit : Edit) (visible : ' ' ∉ edit.removed (Masking.mask source)) :
    edit.removed source = edit.removed (Masking.mask source) :=
  Masking.blanked_visible
    (List.forall₂_take _ (List.forall₂_drop _ (Masking.mask_blanked source))) visible

namespace Reference

variable {source text name body : Text} {live : LiveBindings} {edit : Edit} {token : Token}

-- An edit that puts the expression of a live name in its place, or behind it and a colon.
structure Replaces (source : Text) (live : LiveBindings) (edit : Edit) : Prop where
  reads : ∃ expression, live.lookup (edit.removed source) = some expression ∧
    (edit.text = expression ∨ edit.text = edit.removed source ++ ':' :: ' ' :: expression)
  named : ∀ c ∈ edit.removed source, Text.isNameChar c = true

theorem Replaces.isLive (replaces : Replaces source live edit) :
    (live.lookup (edit.removed source)).isSome = true := by
  obtain ⟨expression, looked, _⟩ := replaces.reads
  rw [looked]
  rfl

theorem Replaces.unmask (replaces : Replaces (Masking.mask source) live edit) :
    Replaces source live edit := by
  have visible : ' ' ∉ edit.removed (Masking.mask source) := fun blank =>
    absurd (replaces.named _ blank) (by decide)
  obtain ⟨reads, named⟩ := replaces
  rw [← edit.removed_mask visible] at reads named
  exact ⟨reads, named⟩

theorem removed_name (within : name <+: source.drop place) (expression : Text) :
    Edit.removed source ⟨place, place + name.length, expression⟩ = name := by
  rw [Edit.removed, Nat.add_sub_cancel_left]
  exact (List.prefix_iff_eq_take.mp within).symm

theorem namesIn_stands (within : text <+: source.drop offset)
    (found : (place, name) ∈ namesIn previous offset covered text) :
    name <+: source.drop place ∧ ∀ c ∈ name, Text.isNameChar c = true := by
  fun_induction namesIn previous offset covered text with
  | case1 => cases found
  | case2 previous offset c rest covered ih => exact ih (prefix_drop within 1) found
  | case3 previous offset c rest begins starts more ih =>
    rcases List.mem_cons.mp found with here | later
    · cases here
      refine ⟨((List.prefix_cons_inj c).mpr (List.take_prefix _ _)).trans within, ?_⟩
      intro d member
      rcases List.mem_cons.mp member with rfl | inside
      · simp only [begins, Bool.and_eq_true] at starts
        exact Text.isNameChar_of_isNameStart starts.1
      · exact Lexeme.run_within _ _ d inside
    · exact ih (prefix_drop within 1) later
  | case4 previous offset c rest begins starts ih => exact ih (prefix_drop within 1) found

theorem substitutions_stand (within : text <+: source.drop offset)
    (found : (place, body) ∈ substitutions previous offset covered text) : body <+: source.drop place := by
  fun_induction substitutions previous offset covered text with
  | case1 => cases found
  | case2 previous offset c rest covered ih => exact ih (prefix_drop within 1) found
  | case3 previous offset c rest size? size read ih =>
    rcases List.mem_cons.mp found with here | later
    · cases here
      have behind := prefix_drop within 2
      rw [show (c :: rest).drop 2 = rest.drop 1 from rfl] at behind
      exact (List.take_prefix _ _).trans behind
    · exact ih (prefix_drop within 1) later
  | case4 previous offset c rest size? absent ih => exact ih (prefix_drop within 1) found

-- In a template a name is replaced by its expression alone.
theorem templateEdits_reads (cut : token.CutFrom source) (among : edit ∈ templateEdits live token) :
    live.lookup (edit.removed source) = some edit.text ∧ ∀ c ∈ edit.removed source, Text.isNameChar c = true := by
  have within : token.text <+: source.drop token.start := by
    rw [cut.slice]
    exact List.take_prefix _ _
  obtain ⟨⟨place, body⟩, substituted, made⟩ := List.mem_flatMap.mp among
  dsimp only at made
  split at made
  · obtain ⟨⟨start, name⟩, stands, replaced⟩ := List.mem_filterMap.mp made
    obtain ⟨expression, looked, rfl⟩ := Option.map_eq_some_iff.mp replaced
    obtain ⟨here, named⟩ := namesIn_stands (substitutions_stand within substituted) stands
    rw [removed_name here]
    exact ⟨looked, named⟩
  · cases made

theorem templateEdits_replace (cut : token.CutFrom source) (among : edit ∈ templateEdits live token) :
    Replaces source live edit := by
  obtain ⟨looked, named⟩ := templateEdits_reads cut among
  exact ⟨⟨edit.text, looked, .inl rfl⟩, named⟩

theorem leafEdits_replace (cut : token.CutFrom source) (among : edit ∈ leafEdits live level around token) :
    Replaces source live edit := by
  unfold leafEdits at among
  split at among
  · exact templateEdits_replace cut among
  · rename_i named
    split at among
    · rename_i expression looked
      obtain ⟨text, replaced, rfl⟩ := Option.map_eq_some_iff.mp (Option.mem_toList.mp among)
      have here : token.text <+: source.drop token.start := by
        rw [cut.slice]
        exact List.take_prefix _ _
      constructor
      · rw [Token.stop, removed_name here]
        exact ⟨expression, looked, replacement?_cases replaced⟩
      · rw [Token.stop, removed_name here]
        exact (cut.named (.inl named)).chars
    · cases among
  · cases among

mutual
theorem nodeEdits_leaf (level : Level) (around : Around) : (node : Node) →
    ∀ edit ∈ nodeEdits live level around node, ∃ token ∈ node.tokens, ∃ level around,
      edit ∈ leafEdits live level around token
  | .leaf token => by
    intro edit among
    rw [nodeEdits] at among
    exact ⟨token, by simp, level, around, among⟩
  | .group bracket children => by
    rw [Node.tokens_group, nodeEdits]
    exact levelEdits_leaf _ _ children

-- The edits of one nesting level are made for its tokens, one by one.
theorem levelEdits_leaf (level : Level) (before : List Sibling) : (nodes : List Node) →
    ∀ edit ∈ levelEdits live level before nodes, ∃ token ∈ nodes.flatMap Node.tokens, ∃ level around,
      edit ∈ leafEdits live level around token
  | [] => nofun
  | node :: nodes => by
    intro edit among
    rw [levelEdits] at among
    rw [List.flatMap_cons]
    rcases List.mem_append.mp among with here | later
    · obtain ⟨token, listed, made⟩ := nodeEdits_leaf level _ node edit here
      exact ⟨token, List.mem_append_left _ listed, made⟩
    · obtain ⟨token, listed, made⟩ := levelEdits_leaf level _ nodes edit later
      exact ⟨token, List.mem_append_right _ listed, made⟩
end

theorem edits_leaf (before : List Sibling) (covers : List.Forall₂ Rewriting.Covers items tokenLists) :
    ∀ edit ∈ edits live before items, ∃ token ∈ tokenLists.flatten, ∃ level around,
      edit ∈ leafEdits live level around token := by
  induction covers generalizing before with
  | nil => nofun
  | @cons item tokens rest lists here _ ih =>
    intro edit among
    unfold edits at among
    rw [List.flatten_cons]
    rcases List.mem_append.mp among with own | later
    · suffices inside : ∃ token ∈ tokens, ∃ level around, edit ∈ leafEdits live level around token by
        obtain ⟨token, listed, made⟩ := inside
        exact ⟨token, List.mem_append_left _ listed, made⟩
      cases here with
      | node node => exact nodeEdits_leaf _ _ node edit own
      | importExpression children => exact levelEdits_leaf _ _ children edit own
      | declaration parsed first last front back starts stops ends consumed =>
        dsimp only at own
        split at own
        · rename_i taken derived meaning
          unfold consumedEdits at own
          split at own
          · rename_i bracket children
            obtain ⟨head, rfl⟩ := consumed derived bracket children meaning
            obtain ⟨token, listed, made⟩ := levelEdits_leaf _ _ children edit own
            exact ⟨token, List.mem_append_right _ (List.mem_append_right _ listed), made⟩
          · cases own
        · cases own
    · obtain ⟨token, listed, made⟩ := ih _ edit later
      exact ⟨token, List.mem_append_right _ listed, made⟩

theorem edits_replace (before : List Sibling) (covers : List.Forall₂ Rewriting.Covers items tokenLists)
    (cuts : ∀ token ∈ tokenLists.flatten, token.CutFrom source) :
    ∀ edit ∈ edits live before items, Replaces source live edit := by
  intro edit among
  obtain ⟨token, listed, level, around, made⟩ := edits_leaf before covers edit among
  exact leafEdits_replace (cuts token listed) made

end Reference

namespace Prologue

-- No live name is a local name.
def Foreign (localNames : List Text) (live : LiveBindings) : Prop :=
  ∀ name, (live.lookup name).isSome = true → name ∉ localNames

theorem imports_foreign (localNames : List Text) (declarations : List Declaration) :
    Foreign localNames (imports localNames declarations).live := by
  refine imports_live (fun live name index imported free foreign => ?_) declarations nofun
  intro other isLive
  rw [Dictionary.lookup_put] at isLive
  split at isLive
  · rename_i same
    rw [eq_of_beq same]
    exact free
  · exact foreign other isLive

end Prologue

namespace Rewriting

-- Where a binding of a live name stands in the code it is an overlooked one, and what edits take out is
-- no name that is bound where bindings are seen: neither a binding nor a reference to one.
theorem live_unbound (accepted : transpile source = .ok result) :
    ∃ analysis parsed items, analyzeSource source = .ok analysis ∧
      analysis.transpiled source = result ∧ Syntax.parse (Masking.mask source) = .ok parsed ∧
      parsed.items.mapM sibling = .ok items ∧
      (∀ name overlooked, (analysis.imports.live.lookup name).isSome = true →
        Sibling.Bound items overlooked name → overlooked = true) ∧
      ∀ edit ∈ analysis.edits, (analysis.imports.live.lookup (edit.removed source)).isSome = true ∧
        ¬ Sibling.Bound items false (edit.removed source) := by
  obtain ⟨analysis, analyzed, same⟩ := transpile_analysis accepted
  obtain ⟨parsed, parses, meant⟩ := analyzeSource_parts analyzed
  obtain ⟨items, read, found, imports, _, edits⟩ := analyze_parts meant
  have foreign : Prologue.Foreign (Sibling.localNames items) analysis.imports.live :=
    imports ▸ Prologue.imports_foreign _ _
  have unbound : ∀ name overlooked, (analysis.imports.live.lookup name).isSome = true →
      Sibling.Bound items overlooked name → overlooked = true := by
    intro name overlooked isLive bound
    cases overlooked with
    | true => rfl
    | false => exact absurd (Sibling.bound_found bound rfl) (foreign name isLive)
  refine ⟨analysis, parsed, items, analyzed, same, parses, read, unbound, fun edit among => ?_⟩
  have laid := Syntax.parse_laid parses
  rw [List.flatMap_def] at laid
  rcases edits with none_ | edits
  · rw [none_] at among
    cases among
  · rw [edits] at among
    have replaces := (Reference.edits_replace [] (items_covers read) laid.cut edit among).unmask
    refine ⟨replaces.isLive, fun bound => ?_⟩
    cases unbound _ false replaces.isLive bound

end Rewriting

mutual
def Node.decideEq : (node other : Node) → Decidable (node = other)
  | .leaf token, .leaf token' =>
    decidable_of_iff (token = token') (by rw [Node.leaf.injEq])
  | .group bracket children, .group bracket' children' =>
    match Node.decideAll children children' with
    | .isTrue same => decidable_of_iff (bracket = bracket') (by rw [Node.group.injEq, and_iff_left same])
    | .isFalse apart => .isFalse fun same => apart (Node.group.inj same).2
  | .leaf _, .group _ _ | .group _ _, .leaf _ => .isFalse nofun

def Node.decideAll : (nodes others : List Node) → Decidable (nodes = others)
  | [], [] => .isTrue rfl
  | node :: nodes, other :: others =>
    match Node.decideEq node other, Node.decideAll nodes others with
    | .isTrue same, .isTrue rest => .isTrue (by rw [same, rest])
    | .isFalse apart, _ => .isFalse fun same => apart (List.cons.inj same).1
    | _, .isFalse apart => .isFalse fun same => apart (List.cons.inj same).2
  | [], _ :: _ | _ :: _, [] => .isFalse nofun
end

instance : DecidableEq Node := Node.decideEq

deriving instance DecidableEq for Consumed
deriving instance DecidableEq for Meaning
deriving instance DecidableEq for Declaration
deriving instance DecidableEq for Sibling

namespace Rewriting

def items? (source : Text) : Option (List Sibling) :=
  (Syntax.parse (Masking.mask source)).toOption.bind fun parsed => (parsed.items.mapM sibling).toOption

theorem items?_eq (parses : Syntax.parse (Masking.mask source) = .ok parsed)
    (read : parsed.items.mapM sibling = .ok items) : items? source = some items := by
  rw [items?, parses]
  simp only [Except.toOption, Option.bind_some, read]

-- A leaf on the first line.
def leafAt (terminal : Terminal) (text : String) (start : Nat) : Node :=
  .leaf ⟨terminal, text.toList, start, 1, start + 1⟩

def importing (names : List Text) (stop : Nat) : Sibling :=
  .declaration ⟨0, stop, .imports ("./a".toList.map Char.toNat) (names.map fun name => ⟨.named name, name⟩)⟩

def shadowedSource : Text := "import\x7bx,y\x7dfrom'./a';([y=x])=>y".toList

def shadowedPattern : Node := .group .square [leafAt (.opener .square) "[" 22, leafAt (.leaf .name) "y" 23,
  leafAt (.leaf .punctuator) "=" 24, leafAt (.leaf .name) "x" 25, leafAt (.closer .square) "]" 26]

def shadowedParameter : Node :=
  .group .paren [leafAt (.opener .paren) "(" 21, shadowedPattern, leafAt (.closer .paren) ")" 27]

def shadowedItems : List Sibling := [importing [['x'], ['y']] 20,
  .node (leafAt (.leaf .punctuator) ";" 20), .node shadowedParameter,
  .node (leafAt (.leaf .punctuator) "=>" 28), .node (leafAt (.leaf .name) "y" 30)]

theorem shadowed_bound : Sibling.Bound shadowedItems false ['y'] := by
  have whole : Node.Target .square false [leafAt (.leaf .name) "y" 23, leafAt (.leaf .punctuator) "=" 24,
      leafAt (.leaf .name) "x" 25] (leafAt (.leaf .name) "y" 23) := .plain rfl rfl
  have alone : Node.Target .paren false [shadowedPattern] shadowedPattern := .plain rfl rfl
  have inner : Node.Binds false shadowedPattern ['y'] := .element (by decide) whole (.name rfl)
  have binds : Node.Binds false shadowedParameter ['y'] := .element (by decide) alone inner
  exact .mk (show Sibling.Level _ false ([_, _] ++ _ :: _) from .top) (.arrow rfl rfl binds)

theorem shadowed_unbound : ∃ analysis, analyzeSource shadowedSource = .ok analysis ∧
    analysis.imports.live.lookup ['y'] = none ∧
    ∀ edit ∈ analysis.edits, edit.removed shadowedSource ≠ ['y'] := by
  have ⟨accepts, same⟩ : (transpile shadowedSource).isOk = true ∧
      items? shadowedSource = some shadowedItems := by
    unfold shadowedSource
    rw [String.toList_ofList]
    decide +kernel
  cases accepted : transpile shadowedSource with
  | error fault =>
    rw [accepted] at accepts
    cases accepts
  | ok result =>
    obtain ⟨analysis, parsed, items, analyzed, _, parses, read, unbound, edits⟩ := live_unbound accepted
    cases (items?_eq parses read).symm.trans same
    refine ⟨analysis, analyzed, ?_, fun edit among taken => (edits edit among).2 (taken ▸ shadowed_bound)⟩
    cases looked : analysis.imports.live.lookup ['y'] with
    | none => rfl
    | some expression => cases unbound ['y'] false (by rw [looked]; rfl) shadowed_bound

-- A parameter whose default value has a colon in it.
def capturedSource : Text := "import\x7bx\x7dfrom'./a';(\x7bx=c?1:2\x7d)=>x".toList

def capturedPattern : Node := .group .brace [leafAt (.opener .brace) "\x7b" 20,
  leafAt (.leaf .name) "x" 21, leafAt (.leaf .punctuator) "=" 22, leafAt (.leaf .name) "c" 23,
  leafAt (.leaf .punctuator) "?" 24, leafAt (.leaf .number) "1" 25, leafAt (.leaf .punctuator) ":" 26,
  leafAt (.leaf .number) "2" 27, leafAt (.closer .brace) "\x7d" 28]

def capturedParameter : Node :=
  .group .paren [leafAt (.opener .paren) "(" 19, capturedPattern, leafAt (.closer .paren) ")" 29]

def capturedItems : List Sibling := [importing [['x']] 18,
  .node (leafAt (.leaf .punctuator) ";" 18), .node capturedParameter,
  .node (leafAt (.leaf .punctuator) "=>" 30), .node (leafAt (.leaf .name) "x" 32)]

-- It is replaced by an expression, as are the references to it.
theorem captured_bound : items? capturedSource = some capturedItems ∧
    Sibling.Bound capturedItems true ['x'] ∧
    (analyzeSource capturedSource).toOption.map (fun analysis =>
        (analysis.imports.live.map Prod.fst, analysis.edits.map Edit.span))
      = some ([['x']], [(21, 22), (32, 33)]) := by
  have whole : Node.Target .brace true [leafAt (.leaf .name) "x" 21, leafAt (.leaf .punctuator) "=" 22,
      leafAt (.leaf .name) "c" 23, leafAt (.leaf .punctuator) "?" 24, leafAt (.leaf .number) "1" 25,
      leafAt (.leaf .punctuator) ":" 26, leafAt (.leaf .number) "2" 27] (leafAt (.leaf .name) "x" 21) :=
    .plain rfl rfl
  have alone : Node.Target .paren false [capturedPattern] capturedPattern := .plain rfl rfl
  have inner : Node.Binds true capturedPattern ['x'] := .element (by decide) whole (.name rfl)
  have binds : Node.Binds true capturedParameter ['x'] := .element (by decide) alone inner
  have ⟨read, edited⟩ : items? capturedSource = some capturedItems ∧
      (analyzeSource capturedSource).toOption.map (fun analysis =>
        (analysis.imports.live.map Prod.fst, analysis.edits.map Edit.span))
      = some ([['x']], [(21, 22), (32, 33)]) := by
    unfold capturedSource
    rw [String.toList_ofList]
    decide +kernel
  exact ⟨read, .mk (show Sibling.Level _ false ([_, _] ++ _ :: _) from .top) (.arrow rfl rfl binds), edited⟩

end Rewriting
end ModuleBundler
