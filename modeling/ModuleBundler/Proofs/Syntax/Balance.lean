import ModuleBundler.Proofs.Syntax.Formed
import ModuleBundler.Proofs.Syntax.Nested

/-!
Texts in which no word begins a declaration. Whatever the parser stands in front of, it reads what can be read
without it; so such a text parses exactly if all of it can be read and its brackets match, and the groups of
its tree are the matching pairs.
-/
namespace ModuleBundler

def Token.isBracket (token : Token) : Bool :=
  match token.terminal with
  | .opener _ | .closer _ => true
  | _ => false

def brackets (tokens : List Token) : List Token := tokens.filter Token.isBracket

-- Brackets that match each other, with the pairs in the order of their opening brackets.
inductive Matched : List Token → List (Token × Token) → Prop where
  | none : Matched [] []
  | pair {opener closer : Token} {inner later : List Token} {nested others : List (Token × Token)}
      (opens : opener.terminal = .opener bracket) (closes : closer.terminal = .closer bracket)
      (inside : Matched inner nested) (behind : Matched later others) :
      Matched (opener :: (inner ++ closer :: later)) ((opener, closer) :: (nested ++ others))

-- A group that begins with the one bracket of a pair and ends with the other one.
def Delimits (pair : Token × Token) (group : Node) : Prop :=
  ∃ bracket inner, pair.1.terminal = .opener bracket ∧ pair.2.terminal = .closer bracket ∧
    group = Node.enclosed bracket pair.1 inner pair.2

namespace Node

-- All groups in a node, outer groups first.
mutual
def groups : Node → List Node
  | leaf _ => []
  | group bracket children => group bracket children :: groupsOf children

def groupsOf : List Node → List Node
  | [] => []
  | node :: nodes => groups node ++ groupsOf nodes
end

theorem groupsOf_eq (nodes : List Node) : groupsOf nodes = nodes.flatMap groups := by
  induction nodes with
  | nil => rfl
  | cons node nodes ih => rw [groupsOf, ih, List.flatMap_cons]

end Node

theorem brackets_append (tokens others : List Token) :
    brackets (tokens ++ others) = brackets tokens ++ brackets others :=
  List.filter_append tokens others

namespace Matched

open Syntax (openBehind)

variable {tokens others : List Token} {pairs more : List (Token × Token)}

theorem append (first : Matched tokens pairs) (second : Matched others more) :
    Matched (tokens ++ others) (pairs ++ more) := by
  induction first with
  | none => exact second
  | @pair bracket opener closer inner later nested others opens closes inside _ _ ih =>
    have joined := pair opens closes inside ih
    rwa [← List.cons_append, ← List.append_assoc, ← List.cons_append, ← List.append_assoc] at joined

-- Brackets that match leave open what was open in front of them.
theorem openBehind_append (matched : Matched tokens pairs) (stack : List Bracket) (rest : List Token) :
    openBehind stack (tokens ++ rest) = openBehind stack rest := by
  induction matched generalizing stack rest with
  | none => rfl
  | @pair bracket opener closer inner later nested others opens closes _ _ inner_ih later_ih =>
    have closed : openBehind (bracket :: stack) (closer :: (later ++ rest)) = openBehind stack (later ++ rest) := by
      simp [openBehind, closes]
    rw [List.cons_append, List.append_assoc, List.cons_append, openBehind, opens]
    exact ((inner_ih _ _).trans closed).trans (later_ih _ _)

theorem openBehind_closed (matched : Matched tokens pairs) : openBehind [] tokens = some [] := by
  have behind := matched.openBehind_append [] []
  rwa [List.append_nil] at behind

-- A closing bracket of its own does not match behind brackets that do.
theorem not_closer (matched : Matched within pairs) (closes : closer.terminal = .closer bracket)
    (longer : Matched (within ++ closer :: others) more) : False := by
  have closed := longer.openBehind_closed
  rw [matched.openBehind_append, openBehind, closes] at closed
  cases closed

-- The pairs of brackets that match are determined by the brackets.
theorem unique (matched : Matched tokens pairs) (also : Matched tokens more) : more = pairs := by
  induction matched generalizing more with
  | none =>
    cases also
    rfl
  | @pair bracket opener closer inner later nested others opens closes inside rest inner_ih later_ih =>
    generalize whole : opener :: (inner ++ closer :: later) = brackets at also
    cases also with
    | none => cases whole
    | @pair bracket' opener' closer' inner' later' nested' others' opens' closes' inside' rest' =>
      obtain ⟨rfl, parts⟩ := List.cons.inj whole
      -- Neither inner part goes on behind the other one.
      have same : inner = inner' ∧ closer :: later = closer' :: later' := by
        rcases List.append_eq_append_iff.mp parts with ⟨gap, longer, behind⟩ | ⟨gap, longer, behind⟩
        · cases gap with
          | nil => exact ⟨(List.append_nil inner ▸ longer).symm, behind⟩
          | cons first gap =>
            obtain ⟨rfl, _⟩ := List.cons.inj behind
            exact (inside.not_closer closes (longer ▸ inside')).elim
        · cases gap with
          | nil => exact ⟨List.append_nil inner' ▸ longer, behind.symm⟩
          | cons first gap =>
            obtain ⟨rfl, _⟩ := List.cons.inj behind
            exact (inside'.not_closer closes' (longer ▸ inside)).elim
      obtain ⟨rfl, tails⟩ := same
      obtain ⟨rfl, rfl⟩ := List.cons.inj tails
      rw [inner_ih inside', later_ih rest']

end Matched

namespace Node

theorem matched_flatMap {nodes : List Node} (each : ∀ node ∈ nodes, ∃ pairs,
    Matched (brackets node.tokens) pairs ∧ List.Forall₂ Delimits pairs node.groups) :
    ∃ pairs, Matched (brackets (nodes.flatMap Node.tokens)) pairs ∧
      List.Forall₂ Delimits pairs (nodes.flatMap groups) := by
  induction nodes with
  | nil => exact ⟨[], .none, .nil⟩
  | cons node nodes ih =>
    obtain ⟨here, later⟩ := List.forall_mem_cons.mp each
    obtain ⟨pairs, matched, delimits⟩ := here
    obtain ⟨more, others, delimit⟩ := ih later
    refine ⟨pairs ++ more, ?_, List.rel_append delimits delimit⟩
    rw [List.flatMap_cons, brackets_append]
    exact matched.append others

-- The brackets of code that is well formed match, and its groups are the pairs.
theorem Formed.matched {node : Node} (formed : node.Formed) :
    ∃ pairs, Matched (brackets node.tokens) pairs ∧ List.Forall₂ Delimits pairs node.groups := by
  induction formed with
  | @leaf token kind lexed =>
    have plain : token.isBracket = false := by rw [Token.isBracket, lexed]
    refine ⟨[], ?_, .nil⟩
    rw [Node.tokens_leaf, brackets, List.filter_cons_of_neg (by rw [plain]; nofun)]
    exact .none
  | @group nodes bracket opener closer opens closes _ ih =>
    obtain ⟨pairs, matched, delimits⟩ := matched_flatMap ih
    have opening : opener.isBracket = true := by rw [Token.isBracket, opens]
    have closing : closer.isBracket = true := by rw [Token.isBracket, closes]
    have outer : brackets (enclosed bracket opener nodes closer).tokens
        = opener :: (brackets (nodes.flatMap Node.tokens) ++ closer :: []) := by
      simp [enclosed, Node.tokens_group, Node.tokens_leaf, brackets, opening, closing]
    have groups : (enclosed bracket opener nodes closer).groups
        = enclosed bracket opener nodes closer :: nodes.flatMap Node.groups := by
      rw [enclosed, Node.groups, groupsOf_eq]
      simp [Node.groups]
    refine ⟨(opener, closer) :: (pairs ++ []), ?_, ?_⟩
    · rw [outer]
      exact .pair opens closes matched .none
    · rw [groups, List.append_nil]
      exact .cons ⟨bracket, nodes, opens, closes, rfl⟩ delimits

end Node

namespace Syntax

open Terminal
open Segment (Stands)

variable {machine next : Machine} {cursor : Cursor} {token : Token} {tokens : List Token}

theorem openBehind_brackets (stack : List Bracket) (tokens : List Token) :
    openBehind stack (brackets tokens) = openBehind stack tokens := by
  induction tokens generalizing stack with
  | nil => rfl
  | cons token tokens ih =>
    by_cases bracket : token.isBracket = true
    · rw [brackets, List.filter_cons_of_pos bracket, openBehind, openBehind]
      split
      · exact ih _
      · split
        · split
          · exact ih _
          · rfl
        · rfl
      · exact ih _
    · rw [brackets, List.filter_cons_of_neg bracket, openBehind]
      unfold Token.isBracket at bracket
      split
      · rename_i found
        rw [found] at bracket
        exact absurd rfl bracket
      · rename_i found
        rw [found] at bracket
        exact absurd rfl bracket
      · exact ih _

theorem nested_unreserved (stack : List Bracket) (unreserved : ∀ token ∈ tokens, token.isReserved = false) :
    Nested stack tokens := by
  intro before word after parts reserved
  rw [unreserved word (by simp [parts])] at reserved
  cases reserved

theorem led_unreserved (opened : Bool) (unreserved : ∀ token ∈ tokens, token.isReserved = false) :
    led opened tokens = true := by
  induction tokens generalizing opened with
  | nil => rfl
  | cons token tokens ih =>
    obtain ⟨here, later⟩ := List.forall_mem_cons.mp unreserved
    simp [led, here, ih _ later]

-- Where no word begins a declaration, the parser reads nothing or what is read without it.
theorem lexeme?_unreserved (stands : Stands stack machine)
    (unreserved : ∀ terminal size, Lexer.lexeme? (outer ++ closers) cursor.before cursor.rest
      = some (.token terminal size) → (cursor.token terminal size).isReserved = false) :
    Lexer.lexeme? machine.expected cursor.before cursor.rest
        = Lexer.lexeme? (outer ++ closers) cursor.before cursor.rest ∨
      Lexer.lexeme? machine.expected cursor.before cursor.rest = none := by
  rcases stands.expects with ⟨_, same | same⟩ | ⟨bracket, _, _, same⟩ | ⟨_, _, _, same⟩
  · rcases Lexer.lexeme?_closers cursor.before cursor.rest with alike | ⟨unread, _⟩
    · exact .inl (same ▸ alike.symm)
    · exact .inr (same ▸ unread)
  · exact .inl (by rw [same])
  · rw [same, Lexer.lexeme?_inner]
    cases read : Lexer.lexeme? (outer ++ closers) cursor.before cursor.rest with
    | none => exact .inl rfl
    | some lexed =>
      cases lexed with
      | skipped => exact .inl rfl
      | token terminal size =>
        have known := Lexer.lexeme?_expected Lexer.mem_codeSets_closers read
        cases terminal with
        | leaf | opener | mark => exact .inl rfl
        | closer other =>
          rw [Lexer.narrow]
          split
          · exact .inl rfl
          · exact .inr rfl
        | keyword word =>
          cases word with
          | import_ | export_ => cases unreserved _ _ read
          | _ => exact absurd known (by decide)
  · exact .inl (by rw [same])

theorem lexeme?_read (stands : Stands stack machine)
    (unreserved : ∀ token ∈ (readFrom (fuel + 1) cursor).1, token.isReserved = false)
    (read : Lexer.lexeme? machine.expected cursor.before cursor.rest = some lexed) :
    Lexer.lexeme? (outer ++ closers) cursor.before cursor.rest = some lexed := by
  have heads : ∀ terminal size, Lexer.lexeme? (outer ++ closers) cursor.before cursor.rest
      = some (.token terminal size) → (cursor.token terminal size).isReserved = false := by
    intro terminal size full
    refine unreserved _ ?_
    rw [readFrom, full]
    exact List.mem_cons_self
  rcases lexeme?_unreserved stands heads with same | unread
  · exact same.symm.trans read
  · cases unread.symm.trans read

-- All that is finished is code.
def Plain (machine : Machine) : Prop := ∃ nodes : List Node, machine.items = nodes.map Item.node

theorem feed_plain (plain : Plain machine) (idle : machine.progress = .idle afterNode)
    (unreserved : token.isReserved = false) (fed : machine.feed token = some next) : Plain next := by
  obtain ⟨items, progress, frames⟩ := machine
  obtain ⟨nodes, code⟩ := plain
  dsimp only at code idle
  subst code idle
  cases Machine.feed_step fed with
  | leaf | group | closesInner => exact ⟨nodes, rfl⟩
  | @closes frame => exact ⟨frame.closed token :: nodes, rfl⟩
  | begins _ _ begun =>
    cases begun with
    | leaf => exact ⟨.leaf token :: nodes, rfl⟩
    | group => exact ⟨nodes, rfl⟩
    | «import» lexed | «export» lexed =>
      rw [Token.isReserved, lexed] at unreserved
      cases unreserved
  | takes _ taken => cases taken
  | completes _ completed => cases completed
  | follows _ complete => cases complete
  | opens _ awaited => cases awaited

-- An accepted text is code alone, and its tokens are those that are read without the parser.
theorem parseFrom_read (fuel : Nat) (machine : Machine) (cursor : Cursor) (previous : Option Token)
    (standing : ∃ stack, Stands stack machine) (ready : machine.Ready) (plain : Plain machine)
    (unreserved : ∀ token ∈ (readFrom fuel cursor).1, token.isReserved = false)
    (accepted : parseFrom fuel machine cursor previous = .ok parsed) :
    parsed.items.flatMap Item.tokens = machine.tokens ++ (readFrom fuel cursor).1 ∧
      ∃ nodes : List Node, parsed.items = nodes.map Item.node := by
  fun_induction parseFrom fuel machine cursor previous with
  | case1 fuel machine cursor previous ended module ending =>
    cases accepted
    rw [readFrom_ended fuel ended, List.append_nil]
    refine ⟨Machine.result?_tokens ending, ?_⟩
    obtain ⟨stack, stands⟩ := standing
    obtain ⟨items, progress, frames⟩ := machine
    obtain ⟨_, ⟨afterNode, idle⟩, open_⟩ := stands
    obtain ⟨nodes, code⟩ := plain
    dsimp only at idle code
    subst idle code
    cases frames with
    | nil =>
      cases ending
      exact ⟨nodes.reverse, List.map_reverse.symm⟩
    | cons => cases ending
  | case2 | case3 | case4 | case7 => cases accepted
  | case5 machine cursor previous first tail remaining size fuel read ih =>
    obtain ⟨stack, stands⟩ := standing
    have full := lexeme?_read stands unreserved read
    have onward : readFrom (fuel + 1) cursor = readFrom fuel (cursor.advance size) := by
      rw [readFrom, full]
    rw [onward] at unreserved ⊢
    exact ih ⟨stack, stands⟩ ready plain unreserved accepted
  | case6 machine cursor previous first tail remaining terminal size fuel read token next fed ih =>
    obtain ⟨stack, stands⟩ := standing
    have full := lexeme?_read stands unreserved read
    have onward : readFrom (fuel + 1) cursor
        = (cursor.token terminal size :: (readFrom fuel (cursor.advance size)).1,
          (readFrom fuel (cursor.advance size)).2) := by
      rw [readFrom, full]
    rw [onward] at unreserved ⊢
    obtain ⟨own, later⟩ := List.forall_mem_cons.mp unreserved
    obtain ⟨taken, ready'⟩ := Machine.feed_tokens ready fed
    obtain ⟨afterNode, idle⟩ := stands.idle
    have followed := follows stands full fun reserved => absurd reserved (by rw [own]; exact Bool.false_ne_true)
    generalize walkStep stack (cursor.token terminal size) = step at followed
    cases followed with
    | takes again fed' stands' =>
      cases read.symm.trans again
      cases fed.symm.trans fed'
      obtain ⟨tokens, nodes⟩ := ih ⟨_, stands'⟩ ready' (feed_plain plain idle own fed) later accepted
      refine ⟨?_, nodes⟩
      rw [tokens, taken, List.append_assoc]
      rfl
    | refuses again refused =>
      cases read.symm.trans again
      cases fed.symm.trans refused
    | misses unread => cases read.symm.trans unread

theorem readFrom_terminals (fuel : Nat) (cursor : Cursor) :
    ∀ token ∈ (readFrom fuel cursor).1, token.terminal ∈ outer ++ closers := by
  fun_induction readFrom fuel cursor with
  | case1 | case2 => nofun
  | case3 fuel cursor size read ih => exact ih
  | case4 fuel cursor terminal size read behind ih =>
    exact List.forall_mem_cons.mpr ⟨Lexer.lexeme?_expected Lexer.mem_codeSets_closers read, ih⟩

theorem terminal_unreserved (token : Token) (known : token.terminal ∈ outer ++ closers)
    (unreserved : token.isReserved = false) : token.terminal ∈ Terminal.inner ++ closers := by
  rcases List.mem_cons.mp known with begins | known
  · rw [Token.isReserved, begins] at unreserved
    cases unreserved
  · rcases List.mem_cons.mp known with begins | known
    · rw [Token.isReserved, begins] at unreserved
      cases unreserved
    · exact known

-- A tree that is code alone: it has the tokens, and its groups are the pairs of brackets that match, of which
-- there is only one choice.
structure Grouped (tokens : List Token) (parsed : Module) (nodes : List Node) (pairs : List (Token × Token)) :
    Prop where
  items : parsed.items = nodes.map Item.node
  whole : nodes.flatMap Node.tokens = tokens
  matched : Matched (brackets tokens) pairs
  only : ∀ others, Matched (brackets tokens) others → others = pairs
  groups : List.Forall₂ Delimits pairs (nodes.flatMap Node.groups)

theorem parse_grouped (unreserved : ∀ token ∈ (read text).1, token.isReserved = false)
    (accepted : parse text = .ok parsed) : ∃ nodes pairs, Grouped (read text).1 parsed nodes pairs := by
  have standing : ∃ stack, Stands stack ({} : Machine) := ⟨[], ⟨rfl, ⟨false, rfl⟩, .nil⟩⟩
  obtain ⟨tokens, nodes, items⟩ := parseFrom_read _ {} _ none standing (Machine.ready_closed rfl) ⟨[], rfl⟩
    unreserved accepted
  have whole : nodes.flatMap Node.tokens = (read text).1 := by
    rw [items, List.flatMap_map] at tokens
    exact tokens
  have formed : ∀ node ∈ nodes, node.Formed := by
    intro node among
    have item := parse_formed accepted (.node node) (items ▸ List.mem_map_of_mem among)
    exact item node List.mem_cons_self
  obtain ⟨pairs, matched, delimits⟩ := Node.matched_flatMap fun node among => (formed node among).matched
  rw [whole] at matched
  exact ⟨nodes, pairs, items, whole, matched, fun others also => matched.unique also, delimits⟩

-- A text in which no word begins a declaration parses exactly if all of it can be read and its brackets match.
theorem parse_matched (unreserved : ∀ token ∈ (read text).1, token.isReserved = false) :
    (parse text).isOk = true ↔ (read text).2 = [] ∧ ∃ pairs, Matched (brackets (read text).1) pairs := by
  have balanced := parse_nested text (nested_unreserved [] unreserved)
  constructor
  · intro accepted
    obtain ⟨whole, _⟩ := balanced.mp accepted
    cases parsed : parse text with
    | error fault =>
      rw [parsed] at accepted
      cases accepted
    | ok module =>
      obtain ⟨_, pairs, grouped⟩ := parse_grouped unreserved parsed
      exact ⟨whole, pairs, grouped.matched⟩
  · rintro ⟨whole, pairs, matched⟩
    have closed := matched.openBehind_closed
    rw [openBehind_brackets] at closed
    exact balanced.mpr ⟨whole, closed, led_unreserved false unreserved⟩

end Syntax

open Syntax Terminal

-- Code in which no word begins a declaration is well formed exactly if all of it can be read, masked, as leaves,
-- brackets and gaps, and its brackets match. The groups of its tree are then the pairs of brackets.
theorem wellFormed_balanced (code : Text)
    (unreserved : ∀ token ∈ (read (Masking.mask code)).1, token.isReserved = false) :
    (isWellFormed code = true ↔ (read (Masking.mask code)).2 = [] ∧
      ∃ pairs, Matched (brackets (read (Masking.mask code)).1) pairs) ∧
    (∀ token ∈ (read (Masking.mask code)).1, token.terminal ∈ Terminal.inner ++ closers) ∧
    ∀ parsed, parse (Masking.mask code) = .ok parsed →
      ∃ nodes pairs, Grouped (read (Masking.mask code)).1 parsed nodes pairs := by
  refine ⟨parse_matched unreserved, ?_, fun parsed accepted => parse_grouped unreserved accepted⟩
  intro token among
  exact terminal_unreserved token (readFrom_terminals _ _ token among) (unreserved token among)

-- Brackets of all kinds, some of them in literals.
def bracketedCode : Text := "if(a)\x7bb=[/(/,'[',x.import]\x7d".toList

theorem bracketed_matched : isWellFormed bracketedCode = true ∧ ∃ parsed nodes pairs,
    Grouped (read (Masking.mask bracketedCode)).1 parsed nodes pairs ∧ pairs.length = 3 := by
  have ⟨unreserved, accepted, groups⟩ :
      (∀ token ∈ (read (Masking.mask bracketedCode)).1, token.isReserved = false) ∧
      isWellFormed bracketedCode = true ∧
      (parse (Masking.mask bracketedCode)).toOption.map (fun parsed =>
        (parsed.items.flatMap Item.nodes).flatMap Node.groups |>.length) = some 3 := by
    unfold bracketedCode
    rw [String.toList_ofList]
    decide +kernel
  obtain ⟨_, _, tree⟩ := wellFormed_balanced bracketedCode unreserved
  obtain ⟨module, parsed, three⟩ := ok_of_toOption_map groups
  obtain ⟨nodes, pairs, grouped⟩ := tree module parsed
  have inside : module.items.flatMap Item.nodes = nodes := by
    rw [grouped.items, List.flatMap_map]
    exact List.flatMap_singleton' nodes
  refine ⟨accepted, module, nodes, pairs, grouped, ?_⟩
  rw [grouped.groups.length_eq, ← inside]
  exact three

end ModuleBundler
