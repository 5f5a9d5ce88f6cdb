import ModuleBundler.Proofs.Rewriting.Moved
import ModuleBundler.Proofs.Rewriting.TemplateCode

/-!
The same code further on in a source binds the same names of its own, and its references are replaced alike.
-/
namespace ModuleBundler

variable {move : Move}

namespace Node

mutual
theorem levels_moved : ∀ node : Node, (node.moved move).levels = node.levels.map (movedAll move)
  | .leaf token => rfl
  | .group bracket children => by
    rw [moved, levels, levels, levelsOf_moved children, List.map_cons]

theorem levelsOf_moved : ∀ nodes : List Node,
    levelsOf (movedAll move nodes) = (levelsOf nodes).map (movedAll move)
  | [] => rfl
  | node :: nodes => by
    rw [movedAll, levelsOf, levelsOf, levels_moved node, levelsOf_moved nodes, List.map_append]
end

theorem siblings_moved (nodes : List Node) :
    (movedAll move nodes).map Sibling.node = (nodes.map Sibling.node).map (Sibling.moved move) := by
  rw [movedAll_eq_map, List.map_map, List.map_map]
  rfl

end Node

namespace Sibling

theorem isWord_moved (item : Sibling) (words : List String) : (item.moved move).isWord words = item.isWord words := by
  rw [isWord, isWord, token?_moved, Option.any_map]
  rfl

theorem isName_moved (item : Sibling) : (item.moved move).isName = item.isName := by
  rw [isName, isName, token?_moved, Option.any_map]
  rfl

theorem declaredName_moved (following : List Sibling) :
    declaredName (following.map (moved move)) = declaredName following := by
  match following with
  | [] => rfl
  | [name] => simp only [List.map_cons, List.map_nil, declaredName, isName_moved, boundNames_moved]
  | star :: name :: rest =>
    simp only [List.map_cons, declaredName, isPunctuator_moved]
    cases star.isPunctuator "*" with
    | true => simp only [if_true, isName_moved, boundNames_moved]
    | false => simp only [Bool.false_eq_true, if_false, isName_moved, boundNames_moved]

-- The names that code binds at one place are the same further on.
theorem namesAt_moved (previous : Option Sibling) (item : Sibling) (following : List Sibling) :
    namesAt (previous.map (moved move)) (item.moved move) (following.map (moved move))
      = namesAt previous item following := by
  rcases item.declares with code | ⟨⟨start, stop, meaning⟩, rfl⟩
  · have code' := moved_code code move
    cases following with
    | nil =>
      rw [List.map_nil, namesAt.eq_3 _ _ code, namesAt.eq_3 _ _ code']
      simp only [isWord_moved, boundNames_moved, List.head?_nil, Option.any_none, List.isEmpty_nil,
        Bool.not_true,
        Bool.and_false, Bool.false_and]
    | cons target rest =>
      have declared : declaredName (target.moved move :: rest.map (moved move)) = declaredName (target :: rest) :=
        declaredName_moved (target :: rest)
      have trailing : trailingNames (some (target.moved move)) false (rest.map (moved move))
          = trailingNames (some target) false rest := trailingNames_moved (some target) false rest
      rw [List.map_cons, namesAt.eq_2 _ _ _ _ code, namesAt.eq_2 _ _ _ _ code']
      simp only [isWord_moved, isGroup_moved, isPunctuator_moved, boundNames_moved, declared,
        trailing, List.head?_cons,
        List.isEmpty_cons, Option.any_some, Option.any_map]
      rfl
  · cases meaning with
    | assignsDefault consumed derived =>
      cases consumed with
      | none => rfl
      | some consumed =>
        cases consumed with
        | parameters group => exact group.boundNames_moved
        | body group => rfl
    | _ => rfl

theorem levelNames_moved (previous : Option Sibling) (items : List Sibling) :
    levelNames (previous.map (moved move)) (items.map (moved move)) = levelNames previous items := by
  induction items generalizing previous with
  | nil => rfl
  | cons item rest ih =>
    rw [List.map_cons, levelNames, levelNames, namesAt_moved, ← ih (some item)]
    rfl

-- The names that are bound inside the groups of an item.
def innerNames (item : Sibling) : List Text :=
  item.innerLevels.flatMap fun level => levelNames none (level.map .node)

theorem localNames_eq (items : List Sibling) :
    localNames items = levelNames none items ++ items.flatMap innerNames := by
  rw [localNames, List.flatMap_assoc]
  rfl

theorem innerLevels_moved (item : Sibling) :
    (item.moved move).innerLevels = item.innerLevels.map (Node.movedAll move) := by
  cases item with
  | node code => exact code.levels_moved
  | importExpression children =>
    rw [moved, innerLevels, innerLevels, ← Node.movedAll_eq_map, Node.levelsOf_moved, List.map_cons]
  | declaration parsed =>
    obtain ⟨start, stop, meaning⟩ := parsed
    cases meaning with
    | assignsDefault consumed derived =>
      cases consumed with
      | none => rfl
      | some consumed =>
        cases consumed with
        | parameters group => rfl
        | body group => exact group.levels_moved
    | _ => rfl

theorem innerNames_moved (item : Sibling) : (item.moved move).innerNames = item.innerNames := by
  rw [innerNames, innerNames, innerLevels_moved, List.flatMap_map]
  refine List.flatMap_congr fun level _ => ?_
  rw [Node.siblings_moved]
  exact levelNames_moved none _

end Sibling

namespace Reference

variable {live : LiveBindings}

theorem isAnyPunctuator_moved (item : Sibling) (texts : List String) :
    isAnyPunctuator (item.moved move) texts = isAnyPunctuator item texts := by
  have each : (item.moved move).isPunctuator = item.isPunctuator := funext item.isPunctuator_moved
  rw [isAnyPunctuator, each, isAnyPunctuator]

theorem isTerminal_moved (item : Sibling) (terminals : List Terminal) :
    isTerminal (item.moved move) terminals = isTerminal item terminals := by
  rw [isTerminal, isTerminal, Sibling.token?_moved, Option.any_map]
  rfl

theorem opensClassBody_moved (items : List Sibling) :
    opensClassBody (items.map (Sibling.moved move)) = opensClassBody items := by
  induction items with
  | nil => rfl
  | cons item items ih =>
    rcases item.declares with code | ⟨⟨start, stop, meaning⟩, rfl⟩
    · rw [List.map_cons, opensClassBody_code code, opensClassBody_code (Sibling.moved_code code move), ih,
        Sibling.isWord_moved, Sibling.isGroup_moved, isTerminal_moved, isAnyPunctuator_moved]
    · cases meaning <;> rfl

def Around.moved (move : Move) (around : Around) : Around :=
  ⟨around.before.map (Sibling.moved move), around.following.map (Sibling.moved move),
    around.after.map (Sibling.moved move)⟩

-- A name is a reference wherever its code stands.
theorem replacement?_moved (level : Level) (around : Around) (name expression : Text) :
    replacement? level (around.moved move) name expression = replacement? level around name expression := by
  simp only [replacement?, Around.moved, List.head?_map, Option.any_map, Sibling.isPunctuator_moved,
    Sibling.isGroup_moved, isTerminal_moved, isAnyPunctuator_moved]

theorem substitutions_moved (previous : Option Char) (offset covered far : Nat) (text : Text) :
    substitutions previous (offset + far) covered text
      = (substitutions previous offset covered text).map fun site => (site.1 + far, site.2) := by
  fun_induction substitutions previous offset covered text with
  | case1 => simp [substitutions]
  | case2 previous offset c rest covered ih => rw [substitutions, Nat.add_right_comm, ih]
  | case3 previous offset c rest size? size read ih =>
    dsimp only [size?] at read
    conv_lhs => unfold substitutions
    dsimp only
    rw [read]
    dsimp only
    rw [Nat.add_right_comm offset far 1, ih, Nat.add_right_comm offset far 2]
    rfl
  | case4 previous offset c rest size? absent ih =>
    dsimp only [size?] at absent
    conv_lhs => unfold substitutions
    dsimp only
    rw [absent]
    dsimp only
    rw [Nat.add_right_comm, ih]

theorem siteEdits_moved (live : LiveBindings) (far : Nat) (site : Nat × Text) :
    siteEdits live (site.1 + far, site.2) = (siteEdits live site).map (Edit.moved far) := by
  unfold siteEdits
  split
  · exact nameEdits_moved live site.1 far site.2
  · rfl

theorem leafEdits_moved (level : Level) (around : Around) (token : Token) :
    leafEdits live level (around.moved move) (token.moved move)
      = (leafEdits live level around token).map (Edit.moved move.far) := by
  have sites : found (token.moved move) = (found token).map fun site => (site.1 + move.far, site.2) :=
    substitutions_moved none token.start 0 move.far token.text
  have same : (token.moved move).terminal = token.terminal := rfl
  unfold leafEdits
  rw [same]
  split
  · rw [templateEdits_sites, templateEdits_sites, sites, List.flatMap_map, List.map_flatMap]
    exact List.flatMap_congr fun site _ => siteEdits_moved live move.far site
  · have text : (token.moved move).text = token.text := rfl
    rw [text]
    cases live.lookup token.text with
    | none => rfl
    | some expression =>
      dsimp only
      rw [replacement?_moved, token.stop_moved]
      cases replacement? level around token.text expression <;> rfl
  · rfl

mutual
theorem nodeEdits_moved (level : Level) (around : Around) : (node : Node) →
    nodeEdits live level (around.moved move) (node.moved move)
      = (nodeEdits live level around node).map (Edit.moved move.far)
  | .leaf token => leafEdits_moved level around token
  | .group bracket children => by
    have before : (around.moved move).before = around.before.map (Sibling.moved move) := rfl
    rw [Node.moved, nodeEdits, nodeEdits, before, opensClassBody_moved]
    exact levelEdits_moved _ [] children

theorem levelEdits_moved (level : Level) (before : List Sibling) : (nodes : List Node) →
    levelEdits live level (before.map (Sibling.moved move)) (Node.movedAll move nodes)
      = (levelEdits live level before nodes).map (Edit.moved move.far)
  | [] => rfl
  | node :: nodes => by
    have here := nodeEdits_moved level ⟨before, nodes.head?.map .node, (nodes.drop 1).head?.map .node⟩ node
    have later := levelEdits_moved level (.node node :: before) nodes
    rw [Node.movedAll, levelEdits, levelEdits, List.map_append, ← here, ← later,
      Node.movedAll_eq_map, ← List.map_drop,
      List.head?_map, List.head?_map, Around.moved, Option.map_map, Option.map_map, Option.map_map, Option.map_map]
    rfl
end

end Reference
end ModuleBundler
