import ModuleBundler.Proofs.Rewriting.Items

/-!
Seams: the places where a declaration ended a statement and what follows is a group or a template
that would apply to the code in front of it. A walk over the items of a module finds them; it knows
the token that the rewritten code will have in front of the next item.
-/
namespace ModuleBundler

-- Whether a call, an index or a template behind the token applies to it. The word `async` has a
-- terminal of its own where it may be a name.
def Token.endsOperand (token : Token) : Bool :=
  match token.terminal with
  | .leaf .punctuator => false
  | .leaf _ | .closer .paren | .closer .square | .keyword .async => true
  | _ => false

-- Where the regex literals end that are blanked for the parser.
def Masking.regexStops (offset : Nat) : List Piece → List Nat
  | [] => []
  | piece :: rest =>
    let stop := offset + piece.text.length
    match piece.kind with
    | .regex _ => stop :: regexStops stop rest
    | _ => regexStops stop rest

namespace Syntax

-- The last token of a declaration that goes away as a whole.
def ExportBody.removedEnd? : ExportBody → Option Token
  | .names list => some list.closer
  | .namesFrom _ _ source | .all _ _ source | .namespace _ _ _ _ source => some source
  | _ => none

def Item.removedEnd? : Item → Option Token
  | .importBare _ source | .importFrom _ _ _ source => some source
  | .export _ body => body.removedEnd?
  | _ => none

-- The last token of an item that stays. Behind `export default` in front of an expression there is
-- none, because the two words give way to the beginning of an assignment.
def Item.keptEnd? : Item → Option Token
  | .node code | .importCall _ code | .export _ (.variable _ code)
  | .export _ (.default _ (.anonymousFunction _ code))
  | .export _ (.default _ (.anonymousClass _ code)) => code.lastToken?
  | .importMeta _ _ name | .export _ (.function _ name) | .export _ (.class _ name)
  | .export _ (.default _ (.async name)) | .export _ (.default _ (.namedFunction _ name))
  | .export _ (.default _ (.namedClass _ name)) | .export _ (.default _ (.derivedClass _ name)) =>
    some name
  | _ => none

-- The first token of a group or a template that can apply to what stands in front of it.
def Item.applied? : Item → Option Token
  | .node (.leaf token) => if token.terminal = .leaf .template then some token else none
  | .node (.group .paren (.leaf opener :: _)) | .node (.group .square (.leaf opener :: _)) =>
    some opener
  | _ => none

def Item.isSemicolon : Item → Bool
  | .node (.leaf token) => token.isPunctuator [';']
  | _ => false

-- A default function or class whose body is still to come. Its heritage may hold functions and
-- classes of its own, as many as are `nested`; a brace group is a body only behind an operand.
structure Awaited where
  nested : Nat
  complete : Bool
  deriving DecidableEq, Repr

def Awaited.behind (awaited : Awaited) (node : Node) : Awaited :=
  let isWord (words : List String) : Bool := (Sibling.node node).isWord words
  if node.isGroup .brace then ⟨if awaited.complete then awaited.nested - 1 else awaited.nested, true⟩
  else if isWord ["class", "function"] then ⟨awaited.nested + 1, true⟩
  else ⟨awaited.nested, !isWord ["extends", "new"]⟩

-- How a declaration ended the statement in front of an item.
inductive Ending where
  | removed (last : Token)
  | semicolon
  | body (closer : Token)
  deriving DecidableEq, Repr

def Ending.isRemoved : Ending → Bool
  | .removed _ => true
  | _ => false

-- Whether the next token belongs to a statement of its own.
def Ending.parts (next : Token) : Ending → Bool
  | .removed last | .body last => last.lastLine < next.line
  | .semicolon => true

-- What stands in front of an item: the token that the rewritten code has there, if a group behind it
-- would apply to it, and the declaration that came last, if the statement ended with it.
structure Front where
  left : Option Token := none
  ending : Option Ending := none
  awaited : Option Awaited := none
  deriving DecidableEq, Repr

namespace Front

-- A semicolon goes away with the statement in front of it.
def absorbs (front : Front) (item : Item) : Bool :=
  front.ending.any Ending.isRemoved && item.isSemicolon

def endsBody (front : Front) : Item → Bool
  | .export _ (.default _ (.anonymousClass _ _)) => true
  | .node node => node.isGroup .brace && front.awaited == some ⟨0, true⟩
  | _ => false

def awaitedBehind (front : Front) : Item → Option Awaited
  | .export _ (.default _ (.anonymousFunction _ _)) => some ⟨0, true⟩
  | .export _ (.default _ (.derivedClass _ _)) => some ⟨0, false⟩
  | .node node => front.awaited.map (·.behind node)
  | .importCall _ _ | .importMeta _ _ _ => front.awaited.map fun awaited => ⟨awaited.nested, true⟩
  | _ => none

-- A regex literal that the parser sees as two slashes ends an operand as well.
def step (regexes : List Nat) (front : Front) (item : Item) : Front :=
  match item.removedEnd? with
  | some last => { left := front.left, ending := some (.removed last) }
  | none =>
    let last? := item.keptEnd?
    if front.absorbs item then { left := front.left, ending := some .semicolon }
    else if front.endsBody item then { left := last?, ending := last?.map .body }
    else
      { left := last?.filter fun token => token.endsOperand || regexes.contains token.stop,
        awaited := front.awaitedBehind item }

end Front

-- Two tokens that the rewritten code has side by side, the last of one statement and the first of
-- another.
structure Seam where
  left : Token
  right : Token
  deriving DecidableEq, Repr

def Front.seam? (front : Front) (item : Item) : Option Seam :=
  match front.left, front.ending, item.applied? with
  | some left, some ending, some right => if ending.parts right then some ⟨left, right⟩ else none
  | _, _, _ => none

def seamsFrom (regexes : List Nat) (front : Front) : List Item → List Seam
  | [] => []
  | item :: rest => (front.seam? item).toList ++ seamsFrom regexes (front.step regexes item) rest

variable {regexes : List Nat} {front : Front} {item : Item}

theorem Front.seam?_parts (found : front.seam? item = some seam) :
    front.left = some seam.left ∧ item.applied? = some seam.right := by
  unfold seam? at found
  split at found
  · rename_i left _ applied
    split at found
    · cases found
      exact ⟨left, applied⟩
    · cases found
  · cases found

theorem Item.tokens_applied (applied : item.applied? = some right) :
    ∃ more, item.tokens = right :: more := by
  unfold applied? at applied
  split at applied
  · split at applied
    · cases applied
      exact ⟨[], Node.tokens_leaf right⟩
    · cases applied
  all_goals cases applied
  all_goals exact ⟨_, by simp [List.flatMap_cons]; rfl⟩

-- A statement that goes away leaves what stood in front of it.
theorem Front.step_removed (removed : item.removedEnd? = some last) :
    front.step regexes item = { left := front.left, ending := some (.removed last) } := by
  rw [step, removed]

theorem Item.isSemicolon_parts (semicolon : item.isSemicolon = true) :
    ∃ token, item = .node (.leaf token) ∧ token.isPunctuator [';'] = true := by
  unfold isSemicolon at semicolon
  split at semicolon
  · exact ⟨_, rfl, semicolon⟩
  · cases semicolon

theorem Front.step_semicolon (ending : front.ending = some (.removed last))
    (semicolon : token.isPunctuator [';'] = true) :
    front.step regexes (.node (.leaf token)) = { left := front.left, ending := some .semicolon } := by
  simp [step, Item.removedEnd?, absorbs, ending, Ending.isRemoved, Item.isSemicolon, semicolon]

theorem Node.getLast?_lastToken? {node : Node} (ends : node.lastToken? = some token) :
    node.tokens.getLast? = some token := by
  cases node with
  | leaf other =>
    cases ends
    rw [Node.tokens_leaf]
    rfl
  | group bracket children =>
    obtain ⟨last, found, isLeaf⟩ := Option.bind_eq_some_iff.mp ends
    obtain ⟨before, rfl⟩ := List.getLast?_eq_some_iff.mp found
    cases last with
    | group => cases isLeaf
    | leaf other =>
      cases isLeaf
      rw [Node.tokens_group, List.flatMap_append]
      simp

theorem Item.getLast?_keptEnd? (ends : item.keptEnd? = some token) :
    item.tokens.getLast? = some token := by
  have last : ∀ (front : List Token) {code : Node}, code.lastToken? = some token →
      (front ++ code.tokens).getLast? = some token := by
    intro front code ends
    rw [List.getLast?_append, Node.getLast?_lastToken? ends]
    rfl
  cases item with
  | node code => exact last [] ends
  | importCall word code =>
    rw [tokens_importCall]
    exact last [word] ends
  | importMeta word dot name =>
    cases ends
    rw [tokens_importMeta]
    rfl
  | importBare | importFrom => cases ends
  | «export» word body =>
    rw [tokens_export]
    cases body with
    | names | namesFrom | all | «namespace» => cases ends
    | «variable» kind code => exact last [word, kind] ends
    | function head name =>
      cases ends
      exact List.getLast?_concat (l := word :: head.tokens)
    | «class» =>
      cases ends
      rfl
    | default defaultWord target =>
      cases target with
      | expression => cases ends
      | anonymousFunction head code =>
        have found := last (word :: defaultWord :: head.tokens) ends
        rwa [List.cons_append, List.cons_append] at found
      | anonymousClass classWord code => exact last [word, defaultWord, classWord] ends
      | namedFunction head name =>
        cases ends
        exact List.getLast?_concat (l := word :: defaultWord :: head.tokens)
      | async | namedClass | derivedClass =>
        cases ends
        rfl

-- Behind any other item stands its last token, and a semicolon that follows is not taken in.
theorem Front.step_kept (kept : item.removedEnd? = none) (plain : front.absorbs item = false) :
    (∀ token, (front.step regexes item).left = some token → item.tokens.getLast? = some token) ∧
    ∀ next, (front.step regexes item).absorbs next = false := by
  simp only [step, kept, plain, Bool.false_eq_true, if_false]
  split
  · refine ⟨fun token found => Item.getLast?_keptEnd? found, fun next => ?_⟩
    cases item.keptEnd? <;> rfl
  · refine ⟨fun token found => ?_, fun next => rfl⟩
    exact Item.getLast?_keptEnd? (Option.filter_eq_some_iff.mp found).1

end Syntax

end ModuleBundler
