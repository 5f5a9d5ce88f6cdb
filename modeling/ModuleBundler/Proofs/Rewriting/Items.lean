import Mathlib.Data.List.Forall2
import ModuleBundler.Logged
import ModuleBundler.Proofs.Masking.Frame
import ModuleBundler.Proofs.Rewriting.Edits
import ModuleBundler.Rewriting.Basic

/-!
All edits of a module in the order of its source: the rewrite of each declaration, with the
semicolon that it takes in, and the reference edits of each item.
-/
namespace ModuleBundler

theorem Edit.Fit.unmask (fit : Edit.Fit (Masking.mask source) low high edits) :
    Edit.Fit source low high edits := by
  refine ⟨fit.ordered, fun edit among => ?_⟩
  rw [fit.breaks edit among]
  exact Masking.newlines_mask source edit.start (edit.stop - edit.start)

namespace Prologue

-- Live names are read through imported bindings.
def Reads (live : LiveBindings) : Prop :=
  ∀ name expression, live.lookup name = some expression →
    ∃ index imported, expression = bindingExpression index imported

theorem require_live (imports : Imports) (specifier : CodePoints) :
    (imports.require specifier).1.live = imports.live := by
  unfold Imports.require
  split <;> rfl

section
variable {kept : LiveBindings → Prop} {localNames : List Text}
  (put : ∀ live name index imported, name ∉ localNames → kept live →
    kept (Dictionary.put live name (bindingExpression index imported)))
include put

theorem bind_live (index : Nat) (imports : Imports) (binding : ImportBinding) (holds : kept imports.live) :
    kept (imports.bind localNames index binding).live := by
  unfold Imports.bind
  dsimp only
  split
  · split
    · exact holds
    · exact holds
  · rename_i plain
    simp only [Bool.or_eq_true, List.contains_iff_mem, not_or] at plain
    split
    · exact put _ _ _ _ plain.2 holds
    · exact put _ _ _ _ plain.2 holds

theorem add_live (imports : Imports) (declaration : Declaration) (holds : kept imports.live) :
    kept (imports.add localNames declaration).live := by
  unfold Imports.add
  split
  · exact holds
  · rename_i specifier _
    rw [← require_live imports specifier] at holds
    dsimp only
    split
    · exact holds
    · rename_i bindings _ _
      exact List.foldlRecOn bindings _ (motive := fun imports : Imports => kept imports.live) holds
        fun _ holds binding _ => bind_live put _ _ binding holds
    · exact holds
    · exact holds

-- Names become live one by one, and only those that the code does not bind itself.
theorem imports_live (declarations : List Declaration) (start : kept []) :
    kept (imports localNames declarations).live :=
  List.foldlRecOn declarations _ (motive := fun imports : Imports => kept imports.live) start
    fun _ holds declaration _ => add_live put _ declaration holds
end

theorem imports_reads (localNames : List Text) (declarations : List Declaration) :
    Reads (imports localNames declarations).live := by
  refine imports_live (fun live name index imported _ reads => ?_) declarations nofun
  intro other expression looked
  rw [Dictionary.lookup_put] at looked
  split at looked
  · cases looked
    exact ⟨index, imported, rfl⟩
  · exact reads other expression looked

-- Live expressions are made of variable names and written literals.
theorem imports_unbroken (localNames : List Text) (declarations : List Declaration) :
    Reference.Unbroken (imports localNames declarations).live := by
  intro name expression looked
  obtain ⟨index, imported, rfl⟩ := imports_reads localNames declarations name expression looked
  exact Reference.newlines_eq_zero_of_visible (bindingExpression_visible index imported)

end Prologue

namespace Rewriting

open Syntax

-- The tokens of a sibling. A declaration begins with its first token and ends with another, and a
-- class body that it takes along stands behind that one.
inductive Covers : Sibling → List Token → Prop where
  | node (node : Node) : Covers (.node node) node.tokens
  | importExpression (children : List Node) :
    Covers (.importExpression children) (children.flatMap Node.tokens)
  | declaration (declaration : Declaration) (first last : Token) (front back : List Token)
    (starts : declaration.start = first.start)
    (stops : declaration.stop = last.stop)
    (ends : last ∈ first :: front)
    (consumed : ∀ derived bracket children,
      declaration.meaning = .assignsDefault (some (.body (.group bracket children))) derived →
        ∃ head, back = head ++ children.flatMap Node.tokens) :
    Covers (.declaration declaration) (first :: front ++ back)

-- A declaration whose span goes from its first token to its last.
theorem Covers.whole (declaration : Declaration) (first last : Token) (between : List Token)
    (starts : declaration.start = first.start) (stops : declaration.stop = last.stop)
    (plain : ∀ consumed derived, declaration.meaning ≠ .assignsDefault consumed derived) :
    Covers (.declaration declaration) (first :: (between ++ [last])) := by
  have covered := Covers.declaration declaration first last (between ++ [last]) [] starts stops
    (by simp) (fun derived bracket children same => absurd same (plain _ derived))
  rwa [List.append_nil] at covered

theorem exportMeaning_cases (read : exportMeaning body = .ok meaning) :
    (∃ word target, body = .default word target) ∨
    ∀ consumed derived, meaning ≠ .assignsDefault consumed derived := by
  cases body with
  | default word target => exact .inl ⟨word, target, rfl⟩
  | namesFrom list fromWord source | all star fromWord source
  | «namespace» star asWord name fromWord source =>
    obtain ⟨text, value, same⟩ := ok_of_bind read
    cases same
    exact .inr nofun
  | function head name | «class» classWord name | «variable» kind binding | names list =>
    cases read
    exact .inr nofun

theorem default_covers (word defaultWord : Token) (target : DefaultTarget)
    (read : exportMeaning (.default defaultWord target) = .ok meaning) :
    Covers (.declaration ⟨word.start, defaultWord.stop, meaning⟩)
      (word :: defaultWord :: target.tokens) := by
  refine .declaration _ word defaultWord [defaultWord] target.tokens rfl rfl (by simp) ?_
  intro derived bracket children same
  cases read
  cases target with
  | anonymousClass classWord body =>
    cases same
    exact ⟨[classWord], by simp [DefaultTarget.tokens]⟩
  | expression | async _ | namedFunction _ _ | anonymousFunction _ _ | namedClass _ _
  | derivedClass _ _ => cases same

theorem export_covers (word : Token) (body : ExportBody) (read : exportMeaning body = .ok meaning) :
    Covers (.declaration ⟨word.start, exportStop word body, meaning⟩) (word :: body.tokens) := by
  rcases exportMeaning_cases read with ⟨defaultWord, target, rfl⟩ | plain
  · exact default_covers word defaultWord target read
  · cases body with
    | default defaultWord target => exact default_covers word defaultWord target read
    | function head name =>
      exact .declaration _ word word [] _ rfl rfl (by simp) (fun _ _ _ same => absurd same (plain _ _))
    | «class» classWord name =>
      exact .declaration _ word word [] _ rfl rfl (by simp) (fun _ _ _ same => absurd same (plain _ _))
    | «variable» kind binding =>
      exact .declaration _ word kind [kind] _ rfl rfl (by simp)
        (fun _ _ _ same => absurd same (plain _ _))
    | names list =>
      exact .whole _ word list.closer (list.opener :: list.entries.flatMap Entry.tokens) rfl rfl plain
    | namesFrom list fromWord source =>
      have covered := Covers.whole ⟨word.start, source.stop, meaning⟩ word source
        (list.tokens ++ [fromWord]) rfl rfl plain
      rwa [List.append_assoc] at covered
    | all star fromWord source => exact .whole _ word source [star, fromWord] rfl rfl plain
    | «namespace» star asWord name fromWord source =>
      exact .whole _ word source [star, asWord, name, fromWord] rfl rfl plain

theorem sibling_covers (read : sibling item = .ok found) : Covers found item.tokens := by
  cases item with
  | node node =>
    cases read
    exact .node node
  | importCall word arguments =>
    cases read
    have tokens : (Item.importCall word arguments).tokens
        = [Node.leaf word, arguments].flatMap Node.tokens := by simp
    exact tokens ▸ .importExpression _
  | importMeta word dot name =>
    cases read
    have tokens : (Item.importMeta word dot name).tokens
        = [Node.leaf word, .leaf dot, .leaf name].flatMap Node.tokens := by simp
    exact tokens ▸ .importExpression _
  | importBare word source =>
    obtain ⟨text, value, same⟩ := ok_of_bind read
    cases same
    rw [Item.tokens_importBare]
    exact .whole _ word source [] rfl rfl nofun
  | importFrom word clause fromWord source =>
    obtain ⟨text, value, same⟩ := ok_of_bind read
    cases same
    rw [Item.tokens_importFrom]
    have covered := Covers.whole ⟨word.start, source.stop, .imports text clause.bindings⟩ word source
      (clause.tokens ++ [fromWord]) rfl rfl nofun
    rwa [List.append_assoc] at covered
  | «export» word body =>
    obtain ⟨meaning, value, same⟩ := ok_of_bind read
    cases same
    rw [Item.tokens_export]
    exact export_covers word body value

-- The edits in a class body that a declaration took along.
def bodyEdits (live : LiveBindings) (declaration : Declaration) : List Edit :=
  match declaration.meaning with
  | .assignsDefault consumed _ => Reference.consumedEdits live consumed
  | _ => []

-- Every edit of a module in the order of its items. A semicolon that was taken in is still an item.
def moduleEdits (source : Text) (live : LiveBindings) (before : List Sibling) :
    List Sibling → List Edit
  | [] => []
  | .declaration declaration :: rest =>
    declarationEdit source (complete declaration rest)
      :: (bodyEdits live declaration ++ moduleEdits source live (.declaration declaration :: before) rest)
  | .importExpression children :: rest =>
    Reference.levelEdits live ⟨false, false⟩ [] children
      ++ moduleEdits source live (.importExpression children :: before) rest
  | .node node :: rest =>
    Reference.nodeEdits live ⟨false, false⟩ ⟨before, rest.head?, (rest.drop 1).head?⟩ node
      ++ moduleEdits source live (.node node :: before) rest

theorem moduleEdits_perm (source : Text) (live : LiveBindings) (before items : List Sibling) :
    (moduleEdits source live before items).Perm (Reference.edits live before items
      ++ (declarations items).map (declarationEdit source)) := by
  induction items generalizing before with
  | nil => exact .nil
  | cons item rest ih =>
    have later := ih (item :: before)
    cases item with
    | declaration declaration =>
      have edits : Reference.edits live before (.declaration declaration :: rest)
          = bodyEdits live declaration
            ++ Reference.edits live (.declaration declaration :: before) rest := rfl
      rw [moduleEdits, edits, declarations, List.map_cons, List.append_assoc]
      refine .trans (.cons _ (later.append_left _)) ?_
      rw [← List.append_assoc, ← List.append_assoc]
      exact List.perm_middle.symm
    | importExpression children =>
      rw [moduleEdits, Reference.edits, List.append_assoc]
      exact later.append_left _
    | node node =>
      rw [moduleEdits, Reference.edits, List.append_assoc]
      exact later.append_left _

-- A declaration ends where it did, or behind the semicolon that follows the statement.
theorem complete_stop (declaration : Declaration) (rest : List Sibling) :
    (complete declaration rest).stop = declaration.stop ∨
    ∃ token later, rest = .node (.leaf token) :: later ∧ token.isPunctuator [';'] = true ∧
      (complete declaration rest).stop = token.stop ∧ declaration.isStatement = true := by
  unfold complete
  dsimp only
  split
  · rename_i next later
    split
    · rename_i absorbs
      simp only [Bool.and_eq_true] at absorbs
      obtain ⟨statement, semicolon⟩ := absorbs
      cases next with
      | node code =>
        cases code with
        | leaf token => exact .inr ⟨token, later, rfl, semicolon, rfl, statement⟩
        | group bracket children => cases semicolon
      | importExpression children => cases semicolon
      | declaration other => cases semicolon
    · exact .inl rfl
  · exact .inl rfl

@[simp] theorem declarationEdit_start (source : Text) (declaration : Declaration) :
    (declarationEdit source declaration).start = declaration.start := rfl

@[simp] theorem declarationEdit_stop (source : Text) (declaration : Declaration) :
    (declarationEdit source declaration).stop = declaration.stop := rfl

@[simp] theorem complete_start (declaration : Declaration) (following : List Sibling) :
    (complete declaration following).start = declaration.start := rfl

theorem declarationEdit_breaks (source : Text) (declaration : Declaration) :
    Text.newlines (declarationEdit source declaration).text
      = Text.newlines ((declarationEdit source declaration).removed source) := by
  have kept : ∀ (replacement : Text) (count : Nat), Text.newlines replacement = 0 →
      Text.newlines (replacement ++ List.replicate count '\n') = count := by
    intro replacement count unbroken
    unfold Text.newlines at unbroken ⊢
    rw [List.count_append, unbroken, List.count_replicate_self, Nat.zero_add]
  refine kept _ _ ?_
  split
  · decide
  · decide
  · rfl

variable {source : Text} {live : LiveBindings}

theorem Laid.fit_body (unbroken : Reference.Unbroken live)
    (covers : Covers (.declaration declaration) tokens)
    (laid : Laid (Masking.mask source) low high tokens) :
    low ≤ declaration.start ∧ declaration.start < declaration.stop ∧
      Edit.Fit source declaration.stop high (bodyEdits live declaration) := by
  cases covers with
  | declaration _ first last front back starts stops ends consumed =>
    obtain ⟨middle, own, behind⟩ := laid.split
    have among := own.ordered.bounds last.span (List.mem_map_of_mem ends)
    have start := own.ordered.1
    have proper : first.start < last.stop := by
      have positive := (own.cut last ends).start_lt
      rcases List.mem_cons.mp ends with rfl | later
      · exact positive
      · have after := (own.ordered.2.2.bounds last.span (List.mem_map_of_mem later)).1
        have first_lt := own.ordered.2.1
        simp only [Token.span] at after first_lt
        omega
    simp only [Token.span] at among start
    rw [starts, stops]
    refine ⟨start, proper, ?_⟩
    have none : Edit.Fit source last.stop high [] := .none (Nat.le_trans among.2.2 behind.ordered.le)
    unfold bodyEdits
    split
    · rename_i taken derived meaning
      unfold Reference.consumedEdits
      split
      · rename_i bracket children
        obtain ⟨head, rfl⟩ := consumed derived bracket children meaning
        obtain ⟨inner, passed, body⟩ := behind.split
        have edits := (Reference.levelEdits_fit unbroken ⟨true, true⟩ [] children body).unmask
        have stop_le := Nat.le_trans among.2.2 passed.ordered.le
        exact edits.widen stop_le (Nat.le_refl high)
      · exact none
    · exact none

-- The second part lets a declaration reach over the semicolon that follows it.
theorem moduleEdits_fit (unbroken : Reference.Unbroken live) (before : List Sibling)
    (covers : List.Forall₂ Covers items tokenLists)
    (laid : Laid (Masking.mask source) low high tokenLists.flatten) :
    Edit.Fit source low high (moduleEdits source live before items) ∧
    ∀ token later, items = .node (.leaf token) :: later → token.isPunctuator [';'] = true →
      low < token.stop ∧ Edit.Fit source token.stop high (moduleEdits source live before items) := by
  induction covers generalizing low before with
  | nil => exact ⟨.none laid.ordered.le, nofun⟩
  | @cons item tokens rest lists here _ ih =>
    rw [List.flatten_cons] at laid
    obtain ⟨middle, own, behind⟩ := laid.split
    cases here with
    | node node =>
      have edits := (Reference.nodeEdits_fit unbroken ⟨false, false⟩
        ⟨before, rest.head?, (rest.drop 1).head?⟩ node own).unmask
      obtain ⟨later, _⟩ := ih (.node node :: before) behind
      refine ⟨edits.append later, ?_⟩
      intro token following same semicolon
      cases same
      rw [Node.tokens_leaf] at own
      obtain ⟨after, proper, stop_le⟩ := own.ordered
      simp only [Token.span] at after proper stop_le
      have silent : Reference.nodeEdits live ⟨false, false⟩
          ⟨before, rest.head?, (rest.drop 1).head?⟩ (.leaf token) = [] := by
        simp only [Token.isPunctuator, Bool.and_eq_true, beq_iff_eq] at semicolon
        simp [Reference.nodeEdits, Reference.leafEdits, semicolon.1]
      rw [moduleEdits, silent, List.nil_append]
      exact ⟨by omega, later.widen stop_le (Nat.le_refl high)⟩
    | importExpression children =>
      have edits := (Reference.levelEdits_fit unbroken ⟨false, false⟩ [] children own).unmask
      obtain ⟨later, _⟩ := ih (.importExpression children :: before) behind
      exact ⟨edits.append later, nofun⟩
    | declaration declaration first last front back starts stops ends consumed =>
      obtain ⟨start_ge, proper, body⟩ := Laid.fit_body unbroken
        (.declaration declaration first last front back starts stops ends consumed) own
      obtain ⟨later, absorbed⟩ := ih (.declaration declaration :: before) behind
      refine ⟨?_, nofun⟩
      rw [moduleEdits]
      have breaks := declarationEdit_breaks source (complete declaration rest)
      rcases complete_stop declaration rest with stop | ⟨token, following, same, semicolon, stop, statement⟩
      · refine .cons start_ge ?_ breaks ?_
        · rwa [declarationEdit_start, declarationEdit_stop, complete_start, stop]
        · rw [declarationEdit_stop, stop]
          exact body.append later
      · obtain ⟨beyond, tail⟩ := absorbed token following same semicolon
        have stop_le := body.ordered.le
        have silent : bodyEdits live declaration = [] := by
          unfold Declaration.isStatement at statement
          unfold bodyEdits
          split
          · rename_i meaning
            simp [meaning] at statement
          · rfl
        rw [silent, List.nil_append]
        refine .cons start_ge ?_ breaks ?_
        · rw [declarationEdit_start, declarationEdit_stop, complete_start, stop]
          omega
        · rwa [declarationEdit_stop, stop]

-- Without live names there is nothing to edit but the declarations.
theorem leafEdits_nil (level : Reference.Level) (around : Reference.Around) (token : Token) :
    Reference.leafEdits [] level around token = [] := by
  unfold Reference.leafEdits
  split
  · simp [Reference.templateEdits]
  · rfl
  · rfl

mutual
theorem nodeEdits_nil (level : Reference.Level) (around : Reference.Around) :
    (node : Node) → Reference.nodeEdits [] level around node = []
  | .leaf token => by rw [Reference.nodeEdits, leafEdits_nil]
  | .group bracket children => by
    rw [Reference.nodeEdits]
    exact levelEdits_nil _ _ children

theorem levelEdits_nil (level : Reference.Level) (before : List Sibling) :
    (nodes : List Node) → Reference.levelEdits [] level before nodes = []
  | [] => by rw [Reference.levelEdits]
  | node :: nodes => by
    rw [Reference.levelEdits, nodeEdits_nil _ _ node, levelEdits_nil _ _ nodes]
    rfl
end

theorem edits_nil (before items : List Sibling) : Reference.edits [] before items = [] := by
  induction items generalizing before with
  | nil => rfl
  | cons item rest ih =>
    cases item with
    | node node => rw [Reference.edits, ih, List.append_nil, nodeEdits_nil _ _ node]
    | importExpression children => rw [Reference.edits, ih, List.append_nil, levelEdits_nil _ _ children]
    | declaration declaration =>
      have body : bodyEdits [] declaration = [] := by
        unfold bodyEdits
        split
        · unfold Reference.consumedEdits
          split
          · exact levelEdits_nil _ _ _
          · rfl
        · rfl
      have split : Reference.edits [] before (.declaration declaration :: rest)
          = bodyEdits [] declaration ++ Reference.edits [] (.declaration declaration :: before) rest := rfl
      rw [split, body, ih, List.append_nil]

end Rewriting
end ModuleBundler
