import Mathlib.Data.List.Nodup
import ModuleBundler.Proofs.Rewriting.RegexLiterals

/-!
Every leaf of the code with what stands around it. The edits of a module are those made for its leaves,
leaf after leaf, and no leaf stands in two positions.
-/
namespace ModuleBundler
namespace Reference

-- Where a nesting level of the code stands. The siblings in front of a group are listed nearest first.
inductive Setting where
  | top
  -- Between the parts of an import expression.
  | expression
  -- In the body of an anonymous default class.
  | defaultClass
  | group (bracket : Bracket) (before : List Sibling)
  deriving DecidableEq

def Setting.level : Setting → Level
  | top | expression => ⟨false, false⟩
  | defaultClass => ⟨true, true⟩
  | group bracket before => ⟨bracket == .brace, bracket == .brace && opensClassBody before⟩

-- A leaf, with the siblings in front of it, nearest first, and those behind it.
structure Position where
  setting : Setting
  before : List Sibling
  token : Token
  behind : List Sibling
  deriving DecidableEq

namespace Position

def around (position : Position) : Around :=
  ⟨position.before, position.behind.head?, (position.behind.drop 1).head?⟩

def edits (live : LiveBindings) (position : Position) : List Edit :=
  leafEdits live position.setting.level position.around position.token

def replacement? (position : Position) (expression : Text) : Option Text :=
  Reference.replacement? position.setting.level position.around position.token.text expression

end Position

mutual
def nodePositions (setting : Setting) (before behind : List Sibling) : Node → List Position
  | .leaf token => [⟨setting, before, token, behind⟩]
  | .group bracket children => levelPositions (.group bracket before) [] children

def levelPositions (setting : Setting) (before : List Sibling) : List Node → List Position
  | [] => []
  | node :: nodes =>
    nodePositions setting before (nodes.map .node) node ++ levelPositions setting (.node node :: before) nodes
end

def consumedPositions : Option Consumed → List Position
  | some (.body (.group _ children)) => levelPositions .defaultClass [] children
  | _ => []

-- What a declaration takes along is no code, but for the body of a class.
def siblingPositions (before behind : List Sibling) : Sibling → List Position
  | .node node => nodePositions .top before behind node
  | .importExpression children => levelPositions .expression [] children
  | .declaration declaration =>
    match declaration.meaning with
    | .assignsDefault consumed _ => consumedPositions consumed
    | _ => []

-- The leaves of a module.
def positions (before : List Sibling) : List Sibling → List Position
  | [] => []
  | item :: rest => siblingPositions before rest item ++ positions (item :: before) rest

variable {live : LiveBindings} {position other : Position}

-- A name has one edit, if it is live and stands for a reference.
theorem Position.edits_name (named : position.token.terminal = .leaf .name) :
    position.edits live = (((live.lookup position.token.text).bind position.replacement?).map fun text =>
      ⟨position.token.start, position.token.stop, text⟩).toList := by
  unfold Position.edits leafEdits
  rw [named]
  dsimp only
  cases live.lookup position.token.text <;> rfl

theorem Position.edits_other (unnamed : position.token.terminal ≠ .leaf .name)
    (plain : position.token.terminal ≠ .leaf .template) : position.edits live = [] := by
  unfold Position.edits leafEdits
  split
  · contradiction
  · contradiction
  · rfl

-- A place in a list is its head or stands further back.
theorem exists_split_cons {place : List α → α → List α → Prop} (first : α) (items : List α) :
    (∃ front item back, first :: items = front ++ item :: back ∧ place front item back) ↔
      place [] first items ∨
        ∃ front item back, items = front ++ item :: back ∧ place (first :: front) item back := by
  constructor
  · rintro ⟨front, item, back, parts, here⟩
    cases front with
    | nil =>
      cases parts
      exact .inl here
    | cons head front =>
      cases parts
      exact .inr ⟨front, item, back, rfl, here⟩
  · rintro (here | ⟨front, item, back, rfl, here⟩)
    · exact ⟨[], first, items, rfl, here⟩
    · exact ⟨first :: front, item, back, rfl, here⟩

theorem mem_levelPositions (setting : Setting) (before : List Sibling) (nodes : List Node) :
    position ∈ levelPositions setting before nodes ↔ ∃ front node back, nodes = front ++ node :: back ∧
      position ∈ nodePositions setting ((front.map .node).reverse ++ before) (back.map .node) node := by
  induction nodes generalizing before with
  | nil => simp [levelPositions]
  | cons node nodes ih =>
    rw [levelPositions, List.mem_append, ih, exists_split_cons]
    simp

theorem mem_positions (before items : List Sibling) :
    position ∈ positions before items ↔ ∃ front item back, items = front ++ item :: back ∧
      position ∈ siblingPositions (front.reverse ++ before) back item := by
  induction items generalizing before with
  | nil => simp [positions]
  | cons item items ih =>
    rw [positions, List.mem_append, ih, exists_split_cons]
    simp

mutual
theorem nodeEdits_positions (setting : Setting) (before behind : List Sibling) : (node : Node) →
    nodeEdits live setting.level ⟨before, behind.head?, (behind.drop 1).head?⟩ node
      = (nodePositions setting before behind node).flatMap (Position.edits live)
  | .leaf token => by
    rw [nodeEdits, nodePositions, List.flatMap_singleton]
    rfl
  | .group bracket children => by
    rw [nodeEdits, nodePositions]
    exact levelEdits_positions (.group bracket before) [] children

theorem levelEdits_positions (setting : Setting) (before : List Sibling) : (nodes : List Node) →
    levelEdits live setting.level before nodes
      = (levelPositions setting before nodes).flatMap (Position.edits live)
  | [] => by rw [levelEdits, levelPositions, List.flatMap_nil]
  | node :: nodes => by
    have here := nodeEdits_positions setting before (nodes.map .node) node
    rw [← List.map_drop, List.head?_map, List.head?_map] at here
    rw [levelEdits, levelPositions, List.flatMap_append, ← here, levelEdits_positions]
end

theorem consumedEdits_positions : (consumed : Option Consumed) →
    consumedEdits live consumed = (consumedPositions consumed).flatMap (Position.edits live)
  | none | some (.parameters _) | some (.body (.leaf _)) => rfl
  | some (.body (.group _ children)) => levelEdits_positions .defaultClass [] children

theorem edits_positions (before items : List Sibling) :
    edits live before items = (positions before items).flatMap (Position.edits live) := by
  induction items generalizing before with
  | nil => rfl
  | cons item rest ih =>
    unfold edits positions
    rw [List.flatMap_append, ih]
    refine congrArg (· ++ _) ?_
    unfold siblingPositions
    cases item with
    | node node => exact nodeEdits_positions .top before rest node
    | importExpression children => exact levelEdits_positions .expression [] children
    | declaration declaration =>
      obtain ⟨start, stop, meaning⟩ := declaration
      cases meaning with
      | assignsDefault consumed derived => exact consumedEdits_positions consumed
      | _ => rfl

mutual
theorem nodePositions_tokens (setting : Setting) (before behind : List Sibling) : (node : Node) →
    (nodePositions setting before behind node).map Position.token = node.tokens
  | .leaf token => by
    rw [nodePositions, Node.tokens_leaf]
    rfl
  | .group bracket children => by
    rw [nodePositions, Node.tokens_group]
    exact levelPositions_tokens _ [] children

-- The leaves of a level are its tokens.
theorem levelPositions_tokens (setting : Setting) (before : List Sibling) : (nodes : List Node) →
    (levelPositions setting before nodes).map Position.token = nodes.flatMap Node.tokens
  | [] => by
    rw [levelPositions]
    rfl
  | node :: nodes => by
    rw [levelPositions, List.map_append, nodePositions_tokens, levelPositions_tokens, List.flatMap_cons]
end

-- The leaves of an item are tokens of it.
theorem siblingPositions_tokens (before behind : List Sibling) (here : Rewriting.Covers item tokens) :
    ((siblingPositions before behind item).map Position.token).Sublist tokens := by
  unfold siblingPositions
  cases here with
  | node node =>
    dsimp only
    rw [nodePositions_tokens]
  | importExpression children =>
    dsimp only
    rw [levelPositions_tokens]
  | declaration declaration first last front back starts stops ends consumed =>
    dsimp only
    split
    · rename_i taken derived meaning
      unfold consumedPositions
      split
      · rename_i bracket children
        obtain ⟨head, rfl⟩ := consumed derived bracket children meaning
        rw [levelPositions_tokens]
        exact (List.sublist_append_right _ _).trans (List.sublist_append_right _ _)
      · exact List.nil_sublist _
    · exact List.nil_sublist _

theorem positions_tokens (before : List Sibling) (covers : List.Forall₂ Rewriting.Covers items tokenLists) :
    ((positions before items).map Position.token).Sublist tokenLists.flatten := by
  induction covers generalizing before with
  | nil => exact List.nil_sublist _
  | @cons item tokens rest lists here _ ih =>
    rw [positions, List.map_append, List.flatten_cons]
    exact (siblingPositions_tokens before rest here).append (ih _)

-- An item without leaves has no token among those of the others.
theorem positions_tokens_skip (before : List Sibling) (none : ∀ before,
    siblingPositions before back item = [])
    (covers : List.Forall₂ Rewriting.Covers front frontLists)
    (others : List.Forall₂ Rewriting.Covers back backLists) :
    ((positions before (front ++ item :: back)).map Position.token).Sublist
      (frontLists.flatten ++ backLists.flatten) := by
  induction covers generalizing before with
  | nil =>
    rw [List.nil_append, positions, none, List.nil_append]
    exact positions_tokens _ others
  | @cons first tokens rest lists here _ ih =>
    rw [List.cons_append, positions, List.map_append, List.flatten_cons, List.append_assoc]
    exact (siblingPositions_tokens before _ here).append (ih _)

-- The leaves of an item stand between those of the others.
theorem positions_item (before front : List Sibling) (item : Sibling) (back : List Sibling) :
    ∃ others more, positions before (front ++ item :: back)
      = others ++ siblingPositions (front.reverse ++ before) back item ++ more := by
  induction front generalizing before with
  | nil => exact ⟨[], positions (item :: before) back, rfl⟩
  | cons first front ih =>
    obtain ⟨others, more, parts⟩ := ih (first :: before)
    refine ⟨siblingPositions before (front ++ item :: back) first ++ others, more, ?_⟩
    rw [List.cons_append, positions, parts, List.reverse_cons, List.append_assoc front.reverse]
    simp only [List.append_assoc, List.cons_append, List.nil_append]

mutual
theorem nodePositions_previous (setting : Setting) (before behind : List Sibling) : (node : Node) →
    position ∈ nodePositions setting before behind node → position.before = .node (.leaf first) :: ahead →
      (node = .leaf position.token ∧ position.before = before) ∨ [first, position.token].Sublist node.tokens
  | .leaf token, among, _ => by
    rw [nodePositions, List.mem_singleton] at among
    rw [among]
    exact .inl ⟨rfl, rfl⟩
  | .group bracket children, among, front => by
    rw [nodePositions] at among
    rw [Node.tokens_group]
    rcases levelPositions_previous _ [] children among front with ⟨nothing, _⟩ | both
    · cases nothing
    · exact .inr both

-- A leaf in front of a leaf comes before it in the text, unless the level begins with the second one.
theorem levelPositions_previous (setting : Setting) (before : List Sibling) : (nodes : List Node) →
    position ∈ levelPositions setting before nodes → position.before = .node (.leaf first) :: ahead →
      (before = .node (.leaf first) :: ahead ∧ position.token ∈ nodes.flatMap Node.tokens)
        ∨ [first, position.token].Sublist (nodes.flatMap Node.tokens)
  | [], among, _ => by
    rw [levelPositions] at among
    cases among
  | node :: nodes, among, front => by
    rw [levelPositions, List.mem_append] at among
    rw [List.flatMap_cons]
    rcases among with here | later
    · rcases nodePositions_previous setting before _ node here front with ⟨whole, same⟩ | both
      · refine .inl ⟨same ▸ front, List.mem_append_left _ ?_⟩
        rw [whole, Node.tokens_leaf]
        exact List.mem_singleton_self _
      · exact .inr (both.trans (List.sublist_append_left _ _))
    · rcases levelPositions_previous setting _ nodes later front with ⟨start, listed⟩ | both
      · cases start
        rw [Node.tokens_leaf]
        exact .inr (.cons_cons _ (List.singleton_sublist.mpr listed))
      · exact .inr (both.trans (List.sublist_append_right _ _))
end

theorem positions_previous (before : List Sibling) (covers : List.Forall₂ Rewriting.Covers items tokenLists)
    (among : position ∈ positions before items) (front : position.before = .node (.leaf first) :: ahead) :
    (before = .node (.leaf first) :: ahead ∧ position.token ∈ tokenLists.flatten)
      ∨ [first, position.token].Sublist tokenLists.flatten := by
  induction covers generalizing before with
  | nil => cases among
  | @cons item tokens rest lists here behind ih =>
    rw [positions, List.mem_append] at among
    rw [List.flatten_cons]
    rcases among with own | later
    · cases here with
      | node node =>
        rcases nodePositions_previous .top before rest node own front with ⟨whole, same⟩ | both
        · refine .inl ⟨same ▸ front, List.mem_append_left _ ?_⟩
          rw [whole, Node.tokens_leaf]
          exact List.mem_singleton_self _
        · exact .inr (both.trans (List.sublist_append_left _ _))
      | importExpression children =>
        rcases levelPositions_previous .expression [] children own front with ⟨nothing, _⟩ | both
        · cases nothing
        · exact .inr (both.trans (List.sublist_append_left _ _))
      | declaration declaration start last between back starts stops ends consumed =>
        unfold siblingPositions at own
        dsimp only at own
        split at own
        · rename_i taken derived meaning
          unfold consumedPositions at own
          split at own
          · rename_i bracket children
            obtain ⟨head, rfl⟩ := consumed derived bracket children meaning
            rcases levelPositions_previous .defaultClass [] children own front with ⟨nothing, _⟩ | both
            · cases nothing
            · have inside := (both.trans (List.sublist_append_right head _)).trans
                (List.sublist_append_right (start :: between) _)
              exact .inr (inside.trans (List.sublist_append_left _ _))
          · cases own
        · cases own
    · rcases ih _ later with ⟨start, listed⟩ | both
      · cases start
        cases here
        rw [Node.tokens_leaf]
        exact .inr (.cons_cons _ (List.singleton_sublist.mpr listed))
      · exact .inr (both.trans (List.sublist_append_right _ _))

end Reference

theorem Syntax.Laid.sublist (laid : Laid text low high tokens) (fewer : others.Sublist tokens) :
    Laid text low high others :=
  ⟨fun token among => laid.cut token (fewer.subset among), laid.ordered.sublist (fewer.map Token.span)⟩

-- The tokens of an item lie in the source.
theorem Syntax.item_laid (accepted : parse text = .ok parsed) (item : Item) (among : item ∈ parsed.items) :
    Laid text 0 text.length item.tokens := by
  refine (parse_laid accepted).sublist ?_
  rw [List.flatMap_def]
  exact List.sublist_flatten_of_mem (List.mem_map_of_mem among)

-- Tokens that lie one behind the other are distinct.
theorem Syntax.Laid.nodup (laid : Laid text low high tokens) : tokens.Nodup := by
  refine List.Pairwise.imp_of_mem ?_ (List.pairwise_map.mp laid.ordered.pairwise)
  rintro first second among _ before rfl
  exact absurd (laid.cut first among).start_lt (Nat.not_lt.mpr before)

namespace Rewriting
open Reference (Position positions)

variable {source : Text} {analysis : Analysis} {items : List Sibling} {position other : Position}

theorem items?_parts (read : items? source = some items) : ∃ parsed,
    Syntax.parse (Masking.mask source) = .ok parsed ∧ parsed.items.mapM sibling = .ok items := by
  obtain ⟨parsed, accepted, found⟩ := Option.bind_eq_some_iff.mp read
  exact ⟨parsed, ok_of_toOption accepted, ok_of_toOption found⟩

theorem analyze_edits (analyzed : analyze parsed = .ok analysis) (read : parsed.items.mapM sibling = .ok items) :
    analysis.edits = Reference.edits analysis.imports.live [] items := by
  unfold analyze at analyzed
  rw [read] at analyzed
  dsimp only [bind, Except.bind] at analyzed
  split at analyzed
  · cases analyzed
    exact (edits_nil [] items).symm
  · split at analyzed
    · cases analyzed
    · cases analyzed
      dsimp only
      split
      · rename_i none_
        rw [List.isEmpty_iff.mp none_, edits_nil]
      · rfl

-- The edits of an accepted module are those of its leaves.
theorem edits_leaves (analyzed : analyzeSource source = .ok analysis) (read : items? source = some items) :
    analysis.edits = (positions [] items).flatMap (Position.edits analysis.imports.live) := by
  obtain ⟨parsed, accepted, meant⟩ := analyzeSource_parts analyzed
  obtain ⟨other, accepted', found⟩ := items?_parts read
  rw [accepted] at accepted'
  cases accepted'
  rw [analyze_edits meant found, Reference.edits_positions]

theorem positions_sublist (read : items? source = some items)
    (accepted : Syntax.parse (Masking.mask source) = .ok parsed) :
    ((positions [] items).map Position.token).Sublist (parsed.items.flatMap Syntax.Item.tokens) := by
  obtain ⟨other, accepted', found⟩ := items?_parts read
  rw [accepted] at accepted'
  cases accepted'
  rw [List.flatMap_def]
  exact Reference.positions_tokens [] (items_covers found)

-- The leaves of a module are tokens of it, one behind the other.
theorem positions_laid (read : items? source = some items) :
    Syntax.Laid (Masking.mask source) 0 (Masking.mask source).length ((positions [] items).map Position.token) := by
  obtain ⟨parsed, accepted, _⟩ := items?_parts read
  exact (Syntax.parse_laid accepted).sublist (positions_sublist read accepted)

theorem position_cut (read : items? source = some items) (among : position ∈ positions [] items) :
    position.token.CutFrom (Masking.mask source) :=
  (positions_laid read).cut _ (List.mem_map_of_mem among)

-- A leaf stands in one place.
theorem position_unique (read : items? source = some items) (among : position ∈ positions [] items)
    (listed : other ∈ positions [] items) (same : position.token = other.token) : position = other :=
  List.inj_on_of_nodup_map (positions_laid read).nodup among listed same

-- A leaf that stands in front of a leaf of its level is another token of the source, and ends before it.
theorem previous_before (read : items? source = some items) (among : position ∈ positions [] items)
    (front : position.before = .node (.leaf first) :: ahead) :
    Syntax.Lexes (Masking.mask source) first ∧ first.stop ≤ position.token.start := by
  obtain ⟨parsed, accepted, found⟩ := items?_parts read
  rcases Reference.positions_previous [] (items_covers found) among front with ⟨nothing, _⟩ | both
  · cases nothing
  · rw [← List.flatMap_def] at both
    have ordered := (List.pairwise_map.mp (Syntax.parse_laid accepted).ordered.pairwise).sublist both
    exact ⟨(Syntax.parse_lexes _).1 parsed accepted first (both.subset List.mem_cons_self),
      List.rel_of_pairwise_cons ordered List.mem_cons_self⟩

theorem live_unbroken (analyzed : analyzeSource source = .ok analysis) :
    Reference.Unbroken analysis.imports.live := by
  obtain ⟨_, _, meant⟩ := analyzeSource_parts analyzed
  obtain ⟨_, _, _, imports, _⟩ := analyze_parts meant
  exact imports ▸ Prologue.imports_unbroken _ _

-- The edits of a leaf are made in it.
theorem position_edit (analyzed : analyzeSource source = .ok analysis) (read : items? source = some items)
    (among : position ∈ positions [] items) (made : edit ∈ position.edits analysis.imports.live) :
    position.token.start ≤ edit.start ∧ edit.start < edit.stop ∧ edit.stop ≤ position.token.stop := by
  obtain ⟨_, after, proper, before⟩ :=
    Reference.leafEdits_within (live_unbroken analyzed) (position_cut read among) made
  exact ⟨after, proper, before⟩

-- What overlaps a token is made for it.
theorem edit_position (analyzed : analyzeSource source = .ok analysis) (read : items? source = some items)
    (lexes : Syntax.Lexes (Masking.mask source) token) (among : edit ∈ analysis.edits)
    (ahead : edit.start < token.stop) (behind : token.start < edit.stop) :
    ∃ position ∈ positions [] items, position.token = token ∧ edit ∈ position.edits analysis.imports.live := by
  rw [edits_leaves analyzed read, List.mem_flatMap] at among
  obtain ⟨position, listed, made⟩ := among
  refine ⟨position, listed, ?_, made⟩
  obtain ⟨after, proper, before⟩ := position_edit analyzed read listed made
  obtain ⟨parsed, accepted, _⟩ := items?_parts read
  have taken := (positions_sublist read accepted).subset (List.mem_map_of_mem listed)
  by_contra distinct
  rcases (Syntax.parse_laid accepted).apart taken (lexes.taken accepted) distinct with earlier | later
  · omega
  · omega

-- A reference edit takes out a part of the token.
def Covered (analysis : Analysis) (token : Token) : Prop :=
  ∃ edit ∈ analysis.edits, edit.start < token.stop ∧ token.start < edit.stop

theorem covered_iff (analyzed : analyzeSource source = .ok analysis) (read : items? source = some items)
    (lexes : Syntax.Lexes (Masking.mask source) token) :
    Covered analysis token ↔
      ∃ position ∈ positions [] items, position.token = token ∧ position.edits analysis.imports.live ≠ [] := by
  constructor
  · rintro ⟨edit, among, ahead, behind⟩
    obtain ⟨position, listed, same, made⟩ := edit_position analyzed read lexes among ahead behind
    exact ⟨position, listed, same, List.ne_nil_of_mem made⟩
  · rintro ⟨position, listed, rfl, edited⟩
    obtain ⟨edit, made⟩ := List.exists_mem_of_ne_nil _ edited
    obtain ⟨after, proper, before⟩ := position_edit analyzed read listed made
    refine ⟨edit, ?_, by omega, by omega⟩
    rw [edits_leaves analyzed read]
    exact List.mem_flatMap_of_mem listed made

end Rewriting
end ModuleBundler
