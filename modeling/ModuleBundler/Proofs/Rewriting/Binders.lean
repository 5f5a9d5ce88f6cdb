import Mathlib.Data.List.TakeWhile
import ModuleBundler.Rewriting.Scope

/-!
Where code binds names, and which of these places are seen. Patterns are read element by element, as
the language does: a target alone, behind a rest mark or behind a key, with or without a default. The
flag of each relation tells of a place that is overlooked.
-/
namespace ModuleBundler

namespace Node

theorem partsBetween_eq (separates : α → Bool) (elements : List α) :
    partsBetween separates elements
      = (elements.splitOnP separates).filter fun part => !part.isEmpty := by
  -- The part under way and the finished parts behind it.
  let step (element : α) (state : List α × List (List α)) : List α × List (List α) :=
    if separates element then ([], if state.1.isEmpty then state.2 else state.1 :: state.2)
    else (element :: state.1, state.2)
  have folds : ∀ (elements part : List α) (parts : List (List α)), elements.splitOnP separates = part :: parts →
      elements.foldr step ([], []) = (part, parts.filter fun part => !part.isEmpty) := by
    intro elements
    induction elements with
    | nil =>
      intro part parts split
      rw [List.splitOnP_nil] at split
      cases split
      rfl
    | cons element elements ih =>
      intro part parts split
      obtain ⟨head, tail, behind⟩ := List.exists_cons_of_ne_nil (List.splitOnP_ne_nil separates elements)
      have folded := ih head tail behind
      rw [List.splitOnP_cons_eq_if_modifyHead, behind] at split
      rw [List.foldr_cons, folded]
      simp only [step]
      split at split
      · rename_i separated
        cases split
        rw [if_pos separated, List.filter_cons]
        cases head <;> rfl
      · rename_i inside
        cases split
        rw [if_neg inside]
  obtain ⟨part, parts, split⟩ := List.exists_cons_of_ne_nil (List.splitOnP_ne_nil separates elements)
  have folded := folds elements part parts split
  rw [split, List.filter_cons]
  change (if (elements.foldr step ([], [])).1.isEmpty then (elements.foldr step ([], [])).2
    else (elements.foldr step ([], [])).1 :: (elements.foldr step ([], [])).2) = _
  rw [folded]
  cases part <;> rfl

def isMark (node : Node) : Bool := node.token?.any fun token => token.terminal == .leaf .punctuator

theorem isPunctuator_plain {node : Node} (plain : node.isMark = false) (text : String) :
    node.isPunctuator text = false := by
  cases node with
  | leaf token =>
    have other : (token.terminal == .leaf .punctuator) = false := plain
    simp [isPunctuator, token?, Token.isPunctuator, other]
  | group => rfl

-- Nothing, or a default value.
def Defaulted (rest : List Node) : Prop := rest.head?.all (·.isPunctuator "=") = true

-- The target of one element of a pattern. In braces a colon in a default value is taken for the one
-- behind a key.
inductive Target (bracket : Bracket) : Bool → List Node → Node → Prop where
  | plain (default : Defaulted rest)
      (colon : (bracket == .brace && rest.any (·.isPunctuator ":")) = overlooked) :
      Target bracket overlooked (target :: rest) target
  | rest (dots : mark.isPunctuator "..." = true) : Target bracket false [mark, target] target
  | keyed (braces : bracket = .brace) (key : name.isMark = false) (colon : mark.isPunctuator ":" = true)
      (default : Defaulted rest) : Target bracket false (name :: mark :: target :: rest) target

-- A node, read as a name, a pattern or a list of parameters, binds a name.
inductive Binds : Bool → Node → Text → Prop where
  | name (named : token.isName = true) : Binds false (.leaf token) token.text
  | element (part : element ∈ (between children).splitOnP (·.isPunctuator ","))
      (aims : Target bracket overlooked element target) (binds : Binds deeper target name) :
      Binds (overlooked || deeper) (.group bracket children) name

variable {node target : Node} {element : List Node} {bracket : Bracket} {overlooked : Bool} {name : Text}

theorem Binds.plain (binds : Binds overlooked node name) : node.isMark = false := by
  cases binds with
  | @name token named =>
    have other : (token.terminal == .leaf .punctuator) = false := by
      rw [Token.isName, beq_iff_eq] at named
      rw [named]
      rfl
    exact other
  | element => rfl

theorem Target.nonempty (aims : Target bracket overlooked element target) : element ≠ [] := by
  cases aims <;> exact List.cons_ne_nil _ _

theorem eachBound_eq (nodes : List Node) : eachBound nodes = nodes.map fun node => (node,
    node.boundNames) := by
  induction nodes with
  | nil => rfl
  | cons node nodes ih => rw [eachBound, ih, List.map_cons]

theorem splitOnP_map (change : α → β) (separates : β → Bool) (elements : List α) :
    (elements.map change).splitOnP separates
      = (elements.splitOnP fun element => separates (change element)).map (List.map change) := by
  induction elements with
  | nil => rfl
  | cons element elements ih =>
    rw [List.map_cons, List.splitOnP_cons_eq_if_modifyHead, List.splitOnP_cons_eq_if_modifyHead, ih]
    split
    · rfl
    · cases elements.splitOnP fun element => separates (change element) <;> rfl

-- Splitting looks at the nodes alone.
theorem splitOnP_bound (nodes : List Node) (separates : Node → Bool) :
    (nodes.map fun node => ((node, node.boundNames) : Bound)).splitOnP (fun bound => separates bound.1)
      = (nodes.splitOnP separates).map (List.map fun node => (node, node.boundNames)) :=
  splitOnP_map _ _ nodes

theorem elementNames_target (aims : Target bracket false element target) (plain : target.isMark = false) :
    elementNames bracket (element.map fun node => (node, node.boundNames)) = target.boundNames := by
  have unmarked := isPunctuator_plain plain
  cases aims with
  | @plain rest _ _ default colon =>
    cases bracket with
    | brace =>
      have colonless : rest.any (·.isPunctuator ":") = false := by simpa using colon
      have none_ : ((target :: rest).map fun node => ((node, node.boundNames) : Bound)).dropWhile
          (fun bound => !bound.1.isPunctuator ":") = [] := by
        rw [List.dropWhile_eq_nil_iff]
        simp only [List.mem_map, forall_exists_index, and_imp, forall_apply_eq_imp_iff₂]
        intro node member
        rcases List.mem_cons.mp member with rfl | later
        · rw [unmarked]
          rfl
        · rw [List.any_eq_false] at colonless
          simpa using colonless node later
      rw [List.map_cons] at none_ ⊢
      simp only [elementNames, unmarked, if_true, Bool.false_eq_true, if_false, none_]
    | paren | square => simp [elementNames, unmarked]
  | rest dots =>
    cases bracket <;> simp [elementNames, dots, unmarked]
  | keyed braces key colon default =>
    subst braces
    have name := isPunctuator_plain key
    simp [elementNames, name, unmarked, colon]

-- What a pattern binds where it is not overlooked is found.
theorem binds_found (binds : Binds overlooked node name) (seen : overlooked = false) :
    name ∈ node.boundNames := by
  induction binds with
  | @name token named => simp [boundNames, named]
  | @element children element bracket overlooked target deeper name part aims binds ih =>
    rw [Bool.or_eq_false_iff] at seen
    obtain ⟨rfl, inner⟩ := seen
    have found := ih inner
    rw [boundNames, eachBound_eq, List.mem_flatMap]
    refine ⟨element.map fun node => (node, node.boundNames), ?_, ?_⟩
    · have inside : between (children.map fun node => ((node, node.boundNames) : Bound))
          = (between children).map fun node => (node, node.boundNames) := by
        rw [between, between, List.map_dropLast, List.map_drop]
      rw [inside, partsBetween_eq, splitOnP_bound _ (·.isPunctuator ","), List.mem_filter]
      refine ⟨List.mem_map_of_mem part, ?_⟩
      simpa using aims.nonempty
    · rwa [elementNames_target aims binds.plain]

-- The children of a group somewhere in a node.
inductive Inside : Node → List Node → Prop where
  | own : Inside (.group kind children) children
  | deeper (among : child ∈ children) (inside : Inside child level) :
      Inside (.group kind children) level

theorem levelsOf_eq (nodes : List Node) : levelsOf nodes = nodes.flatMap levels := by
  induction nodes with
  | nil => rfl
  | cons node nodes ih => rw [levelsOf, ih, List.flatMap_cons]

theorem inside_levels (inside : Inside node level) : level ∈ node.levels := by
  induction inside with
  | own => exact List.mem_cons_self
  | deeper among inside ih =>
    rw [levels, levelsOf_eq]
    exact List.mem_cons_of_mem _ (List.mem_flatMap.mpr ⟨_, among, ih⟩)

end Node

namespace Sibling
open Node (Binds Inside)

-- The later declarators of a list, each behind a comma and whatever initializes the one before it. Behind
-- a line break that looks like the end of the statement they are overlooked.
inductive Declarators : Bool → Sibling → List Sibling → Node → Prop where
  | next (comma : mark.isPunctuator "," = true) :
      Declarators (breaksLine (some previous) mark) previous (mark :: .node target :: rest) target
  | past (comma : mark.isPunctuator "," = true) (plain : other.isMark = false)
      (later : Declarators broken (.node other) rest target) :
      Declarators (breaksLine (some previous) mark || broken) previous (mark :: .node other :: rest) target
  | within (inside : item.isPunctuator "," = false) (open_ : item.isPunctuator ";" = false)
      (code : ∀ parsed, item ≠ .declaration parsed)
      (later : Declarators broken item rest target) :
      Declarators (breaksLine (some previous) item || broken) previous (item :: rest) target

def declarationWords : List String := ["var", "let", "const"]

def nameWords : List String := ["function", "class"]

def statementWords : List String := ["if", "for", "while", "switch", "with"]

-- The names bound at one place of a nesting level, by what stands behind it. Parentheses in front of a
-- body are parameters, or the binding of a catch; behind the words of statements they are overlooked,
-- also where the word is the name of a method.
inductive BindsAt : Bool → Option Sibling → Sibling → List Sibling → Text → Prop where
  | declarator (word : item.isWord declarationWords = true) (binds : Binds overlooked target name) :
      BindsAt overlooked previous item (.node target :: rest) name
  | laterDeclarator (word : item.isWord declarationWords = true)
      (listed : Declarators broken first rest target) (binds : Binds overlooked target name) :
      BindsAt (broken || overlooked) previous item (first :: rest) name
  | declared (word : item.isWord nameWords = true) (named : token.isName = true) :
      BindsAt false previous item (.node (.leaf token) :: rest) token.text
  | generator (word : item.isWord nameWords = true) (star : mark.isPunctuator "*" = true)
      (named : token.isName = true) :
      BindsAt false previous item (mark :: .node (.leaf token) :: rest) token.text
  | arrow (free : (Sibling.node parameter).isWord (declarationWords ++ nameWords) = false)
      (arrow : mark.isPunctuator "=>" = true) (binds : Binds overlooked parameter name) :
      BindsAt overlooked previous (.node parameter) (mark :: rest) name
  | parameters (group : (Sibling.node parameters).isGroup .paren = true)
      (body : braces.isGroup .brace = true) (binds : Binds overlooked parameters name) :
      BindsAt (previous.any (·.isWord statementWords) || overlooked) previous (.node parameters)
        (braces :: rest) name
  | defaultParameters (takes : parsed.meaning = .assignsDefault (some (.parameters group)) derived)
      (binds : Binds overlooked group name) :
      BindsAt overlooked previous (.declaration parsed) rest name

-- The nesting levels of a module. What stands in the parameters of an anonymous default function is
-- overlooked.
inductive Level (items : List Sibling) : Bool → List Sibling → Prop where
  | top : Level items false items
  | code (item : .node code ∈ items) (inside : Inside code level) : Level items false (level.map .node)
  | imported (item : .importExpression children ∈ items) : Level items false (children.map .node)
  | argument (item : .importExpression children ∈ items) (among : child ∈ children)
      (inside : Inside child level) : Level items false (level.map .node)
  | classBody (item : .declaration parsed ∈ items)
      (takes : parsed.meaning = .assignsDefault (some (.body group)) derived)
      (inside : Inside group level) : Level items false (level.map .node)
  | parameters (item : .declaration parsed ∈ items)
      (takes : parsed.meaning = .assignsDefault (some (.parameters group)) derived)
      (inside : Inside group level) : Level items true (level.map .node)

-- A name that the code of a module binds.
inductive Bound (items : List Sibling) : Bool → Text → Prop where
  | mk (level : Level items unseen (before ++ item :: following))
      (binds : BindsAt overlooked before.getLast? item following name) :
      Bound items (unseen || overlooked) name

variable {item : Sibling} {before : Option Sibling} {items rest following : List Sibling}
  {name : Text} {overlooked : Bool} {target : Node}

theorem isPunctuator_plain (plain : target.isMark = false) (text : String) :
    (Sibling.node target).isPunctuator text = false :=
  Node.isPunctuator_plain plain text

theorem mark_terminal {mark : Sibling} (punctuator : mark.isPunctuator text = true) :
    ∃ token, mark = .node (.leaf token) ∧ token.terminal = .leaf .punctuator := by
  cases mark with
  | node code =>
    cases code with
    | leaf token =>
      have both : token.terminal = .leaf .punctuator ∧ token.text = text.toList := by
        simpa [isPunctuator, token?, Node.token?, Token.isPunctuator] using punctuator
      exact ⟨token, rfl, both.1⟩
    | group => cases punctuator
  | importExpression | declaration => cases punctuator

-- A statement goes on behind a comma.
theorem breaksLine_mark {mark : Sibling} (punctuator : mark.isPunctuator text = true) (item : Sibling) :
    breaksLine (some mark) item = false := by
  obtain ⟨token, rfl, terminal⟩ := mark_terminal punctuator
  have goesOn : continues (.node (.leaf token)) item = true := by
    simp [continues, token?, Node.token?, terminal]
  simp only [breaksLine, goesOn, Bool.not_true, Bool.and_false]
  split <;> rfl

theorem trailingNames_mark {mark : Sibling} (comma : mark.isPunctuator "," = true)
    (unbroken : breaksLine (some previous) mark = false) :
    trailingNames (some previous) false (mark :: rest) = trailingNames (some mark) true rest := by
  obtain ⟨token, rfl, terminal⟩ := mark_terminal comma
  have other : (Sibling.node (.leaf token)).isPunctuator ";" = false := by
    have text : token.text = [','] := by
      simpa [isPunctuator, token?, Node.token?, Token.isPunctuator, terminal] using comma
    simp [isPunctuator, token?, Node.token?, Token.isPunctuator, text]
  simp [trailingNames, unbroken, other, comma]

theorem trailingNames_target {mark : Sibling} (comma : mark.isPunctuator "," = true)
    (plain : target.isMark = false) :
    trailingNames (some mark) true (.node target :: rest)
      = target.boundNames ++ trailingNames (some (.node target)) false rest := by
  simp [trailingNames, isPunctuator_plain plain, breaksLine_mark comma, boundNames]

theorem declarators_found (listed : Declarators broken previous items target) (seen : broken = false)
    (plain : target.isMark = false) :
    target.boundNames ⊆ trailingNames (some previous) false items := by
  induction listed with
  | next comma =>
    rw [trailingNames_mark comma seen, trailingNames_target comma plain]
    exact List.subset_append_left _ _
  | past comma other later ih =>
    obtain ⟨unbroken, seen⟩ := Bool.or_eq_false_iff.mp seen
    rw [trailingNames_mark comma unbroken, trailingNames_target comma other]
    exact List.Subset.trans (ih seen plain) (List.subset_append_right _ _)
  | @within item broken rest target previous inside open_ code later ih =>
    obtain ⟨unbroken, seen⟩ := Bool.or_eq_false_iff.mp seen
    have next : trailingNames (some previous) false (item :: rest) = trailingNames (some item) false rest := by
      cases item with
      | declaration parsed => exact absurd rfl (code parsed)
      | node | importExpression => simp [trailingNames, unbroken, open_, inside]
    rw [next]
    exact ih seen plain

theorem not_declarationWord (word : item.isWord nameWords = true) :
    item.isWord declarationWords = false := by
  simp only [isWord, Option.any_eq_true, Bool.and_eq_true, List.any_eq_true, beq_iff_eq] at word
  obtain ⟨token, itself, named, spelling, among, same⟩ := word
  have apart : ∀ spelling ∈ nameWords, ∀ other ∈ declarationWords, spelling.toList ≠ other.toList := by
    decide
  rw [isWord, itself, Option.any_some, named, Bool.true_and, List.any_eq_false]
  intro other listed
  rw [same, beq_iff_eq]
  exact apart spelling among other listed

theorem namesAt_eq (code : ∀ parsed, item ≠ .declaration parsed) :
    namesAt before item following =
      if item.isWord declarationWords && !following.isEmpty then
        match following with
        | target :: rest => target.boundNames ++ trailingNames (some target) false rest
        | [] => []
      else if item.isWord nameWords then declaredName following
      else if following.head?.any (·.isPunctuator "=>") then item.boundNames
      else if item.isGroup .paren && following.head?.any (·.isGroup .brace)
          && !before.any (·.isWord statementWords) then
        item.boundNames
      else [] := by
  cases item with
  | declaration parsed => exact absurd rfl (code parsed)
  | node | importExpression => rfl

theorem isWord_code (word : item.isWord words = true) : ∀ parsed, item ≠ .declaration parsed := by
  rintro parsed rfl
  cases word

theorem isWord_fewer (free : item.isWord words = false) (fewer : part ⊆ words) :
    item.isWord part = false := by
  rw [Bool.eq_false_iff] at free ⊢
  intro found
  refine free ?_
  simp only [isWord, Option.any_eq_true, Bool.and_eq_true, List.any_eq_true] at found ⊢
  obtain ⟨token, itself, named, spelling, among, same⟩ := found
  exact ⟨token, itself, named, spelling, fewer among, same⟩

theorem namesAt_declarator {first : Sibling} (word : item.isWord declarationWords = true) :
    namesAt before item (first :: rest)
      = first.boundNames ++ trailingNames (some first) false rest := by
  rw [namesAt_eq (isWord_code word), word]
  rfl

theorem namesAt_declared (word : item.isWord nameWords = true) :
    namesAt before item following = declaredName following := by
  rw [namesAt_eq (isWord_code word), not_declarationWord word, word]
  rfl

theorem declaredName_name (named : token.isName = true) (rest : List Sibling) :
    declaredName (.node (.leaf token) :: rest) = [token.text] := by
  have plain : (Sibling.node (.leaf token)).isPunctuator "*" = false :=
    isPunctuator_plain (Node.Binds.name named).plain "*"
  cases rest <;> simp [declaredName, plain, isName, token?, Node.token?, named, boundNames, Node.boundNames]

theorem declaredName_star {mark : Sibling} (star : mark.isPunctuator "*" = true)
    (named : token.isName = true) (rest : List Sibling) :
    declaredName (mark :: .node (.leaf token) :: rest) = [token.text] := by
  simp [declaredName, star, isName, token?, Node.token?, named, boundNames, Node.boundNames]

theorem namesAt_arrow {mark : Sibling}
    (free : (Sibling.node target).isWord (declarationWords ++ nameWords) = false)
    (arrow : mark.isPunctuator "=>" = true) :
    namesAt before (.node target) (mark :: rest) = target.boundNames := by
  have code : ∀ parsed, Sibling.node target ≠ .declaration parsed := fun _ => Sibling.noConfusion
  rw [namesAt_eq code, isWord_fewer free (List.subset_append_left _ _),
    isWord_fewer free (List.subset_append_right _ _)]
  simp [arrow, boundNames]

theorem namesAt_parameters {braces : Sibling} (group : (Sibling.node target).isGroup .paren = true)
    (body : braces.isGroup .brace = true) (apart : before.any (·.isWord statementWords) = false) :
    namesAt before (.node target) (braces :: rest) = target.boundNames := by
  have code : ∀ parsed, Sibling.node target ≠ .declaration parsed := fun _ => Sibling.noConfusion
  have wordless : ∀ words, (Sibling.node target).isWord words = false := by
    intro words
    cases target with
    | leaf => cases group
    | group => rfl
  have arrowless : braces.isPunctuator "=>" = false := by
    cases braces with
    | node code =>
      cases code with
      | leaf => cases body
      | group => rfl
    | importExpression | declaration => rfl
  rw [namesAt_eq code, wordless, wordless]
  simp [arrowless, group, body, apart, boundNames]

-- What is bound at a place where it is not overlooked is found there.
theorem bindsAt_found (binds : BindsAt overlooked before item following name)
    (seen : overlooked = false) : name ∈ namesAt before item following := by
  cases binds with
  | declarator word binds =>
    rw [namesAt_declarator word]
    exact List.mem_append_left _ (Node.binds_found binds seen)
  | laterDeclarator word listed binds =>
    obtain ⟨unbroken, seen⟩ := Bool.or_eq_false_iff.mp seen
    rw [namesAt_declarator word]
    exact List.mem_append_right _
      (declarators_found listed unbroken binds.plain (Node.binds_found binds seen))
  | declared word named =>
    rw [namesAt_declared word, declaredName_name named]
    exact List.mem_cons_self
  | generator word star named =>
    rw [namesAt_declared word, declaredName_star star named]
    exact List.mem_cons_self
  | arrow free arrow binds =>
    rw [namesAt_arrow free arrow]
    exact Node.binds_found binds seen
  | parameters group body binds =>
    obtain ⟨apart, seen⟩ := Bool.or_eq_false_iff.mp seen
    rw [namesAt_parameters group body apart]
    exact Node.binds_found binds seen
  | defaultParameters takes binds =>
    simp [namesAt, takes, Node.binds_found binds seen]

theorem levelNames_found (before : List Sibling)
    (found : name ∈ namesAt (before.getLast?.or previous) item following) :
    name ∈ levelNames previous (before ++ item :: following) := by
  induction before generalizing previous with
  | nil => exact List.mem_append_left _ found
  | cons first before ih =>
    refine List.mem_append_right _ (ih ?_)
    cases before with
    | nil => exact found
    | cons second before =>
      rw [List.getLast?_cons_cons] at found
      rw [List.getLast?_cons] at found ⊢
      exact found

theorem levelNames_whole {before : List Sibling}
    (found : name ∈ namesAt before.getLast? item following) :
    name ∈ levelNames none (before ++ item :: following) :=
  levelNames_found before (by rwa [Option.or_none])

theorem level_found (found : Level items unseen level) (seen : unseen = false) :
    level = items ∨ ∃ nodes ∈ items.flatMap innerLevels, level = nodes.map .node := by
  cases found with
  | top => exact .inl rfl
  | code item inside =>
    exact .inr ⟨_, List.mem_flatMap.mpr ⟨_, item, Node.inside_levels inside⟩, rfl⟩
  | imported item => exact .inr ⟨_, List.mem_flatMap.mpr ⟨_, item, List.mem_cons_self⟩, rfl⟩
  | argument item among inside =>
    refine .inr ⟨_, List.mem_flatMap.mpr ⟨_, item, List.mem_cons_of_mem _ ?_⟩, rfl⟩
    rw [Node.levelsOf_eq]
    exact List.mem_flatMap.mpr ⟨_, among, Node.inside_levels inside⟩
  | classBody item takes inside =>
    refine .inr ⟨_, List.mem_flatMap.mpr ⟨_, item, ?_⟩, rfl⟩
    rw [innerLevels, takes]
    exact Node.inside_levels inside
  | parameters => cases seen

-- Every name that is bound in a module and not overlooked is a local name of it.
theorem bound_found (bound : Bound items overlooked name) (seen : overlooked = false) :
    name ∈ localNames items := by
  obtain ⟨level, binds⟩ := bound
  obtain ⟨levelSeen, seen⟩ := Bool.or_eq_false_iff.mp seen
  have found := levelNames_whole (bindsAt_found binds seen)
  rcases level_found level levelSeen with whole | ⟨nodes, among, inner⟩
  · rw [whole] at found
    exact List.mem_append_left _ found
  · rw [inner] at found
    exact List.mem_append_right _ (List.mem_flatMap.mpr ⟨nodes, among, found⟩)

end Sibling
end ModuleBundler
