import ModuleBundler.Proofs.Rewriting.Exported
import ModuleBundler.Proofs.Rewriting.Patterns

/-!
Exported declarator lists, written out as a syntax of their own: names with a function, a class or an
expression on one line as their values. The names of the list are exported up to a value whose head is
broken by a line end.
-/
namespace ModuleBundler
namespace Sibling

variable {item previous : Sibling}

-- Code that is passed over inside the value of a declarator.
def isInner : Sibling → Bool
  | .declaration _ => false
  | item => !item.isPunctuator ";" && !item.isPunctuator ","

-- Whether a line break somewhere in the code looks like the end of the statement.
def splits : List Sibling → Bool
  | first :: second :: rest => breaksLine (some first) second || splits (second :: rest)
  | _ => false

theorem isInner_code (inner : item.isInner = true) : ∀ parsed, item ≠ .declaration parsed := by
  rintro parsed rfl
  cases inner

theorem isInner_marks (inner : item.isInner = true) :
    item.isPunctuator ";" = false ∧ item.isPunctuator "," = false := by
  cases item with
  | declaration => cases inner
  | node | importExpression => simpa [isInner] using inner

-- A statement goes on in front of a mark.
theorem breaksLine_before {mark : Sibling} (punctuator : mark.isPunctuator text = true) (previous : Option Sibling) :
    breaksLine previous mark = false := by
  obtain ⟨token, rfl, terminal⟩ := mark_terminal punctuator
  cases previous with
  | none => rfl
  | some previous =>
    have goesOn : continues previous (.node (.leaf token)) = true := by
      simp [continues, token?, Node.token?, terminal]
    simp only [breaksLine, goesOn, Bool.not_true, Bool.and_false]
    split <;> rfl

-- The scan passes over a value, if it does not end in it.
theorem trailingNames_inner (inner : ∀ item ∈ items,
    isInner item = true) (previous : Sibling) (rest : List Sibling) :
    trailingNames (some previous) false (items ++ rest) =
      if splits (previous :: items) then []
      else trailingNames (some ((previous :: items).getLast (List.cons_ne_nil _ _))) false rest := by
  induction items generalizing previous with
  | nil => rfl
  | cons item items ih =>
    obtain ⟨own, later⟩ := List.forall_mem_cons.mp inner
    obtain ⟨open_, inside⟩ := isInner_marks own
    rw [List.cons_append, trailingNames_code (isInner_code own), open_, inside, ih later, splits,
      Bool.false_or,
      List.getLast_cons (List.cons_ne_nil _ _)]
    cases breaksLine (some previous) item <;> rfl

end Sibling

open Node (Punctuator Name enclosed)

structure Word (spelling : String) where
  token : Token
  spelled : (token.isName && token.text == spelling.toList) = true

-- Brackets with the code between them.
structure Brackets (bracket : Bracket) where
  opener : Token
  code : List Node
  closer : Token

def Brackets.sibling (brackets : Brackets bracket) : Sibling :=
  .node (enclosed bracket brackets.opener brackets.code brackets.closer)

def leafSibling (token : Token) : Sibling := .node (.leaf token)

-- Whether a line ends between two tokens.
def below (earlier later : Token) : Bool := earlier.lastLine < later.line

structure FunctionExpression where
  asyncWord : Option (Word "async")
  word : Word "function"
  star : Option (Punctuator "*")
  name : Option Name
  parameters : Brackets .paren
  body : Brackets .brace
  -- Elsewhere the language does not take `async` for a part of the function.
  together : asyncWord.any (fun async => below async.token word.token) = false

structure Heritage where
  word : Word "extends"
  parts : List Sibling
  inner : ∀ item ∈ parts, item.isInner = true

structure ClassExpression where
  word : Word "class"
  name : Option Name
  heritage : Option Heritage
  body : Brackets .brace

structure LineExpression where
  line : Nat
  parts : List Sibling
  inner : ∀ item ∈ parts, item.isInner = true
  single : ∀ item ∈ parts, item.firstLine? = some line ∧ item.lastLine? = some line

inductive Initializer where
  | line (expression : LineExpression)
  | function (expression : FunctionExpression)
  | class (expression : ClassExpression)

namespace FunctionExpression

def fromWord (function : FunctionExpression) : List Sibling :=
  leafSibling function.word.token :: ((function.star.map (leafSibling ·.token)).toList
    ++ ((function.name.map (leafSibling ·.token)).toList ++ [function.parameters.sibling,
      function.body.sibling]))

def siblings (function : FunctionExpression) : List Sibling :=
  (function.asyncWord.map (leafSibling ·.token)).toList ++ function.fromWord

-- The line ends in front of the name, where no star stands between, or in front of the body.
def split (function : FunctionExpression) : Bool :=
  (function.star.isNone && function.name.any (below function.word.token ·.token))
    || below function.parameters.closer function.body.opener

end FunctionExpression

namespace ClassExpression

def heritageParts (expression : ClassExpression) : List Sibling :=
  match expression.heritage with
  | some heritage => leafSibling heritage.word.token :: heritage.parts
  | none => []

def siblings (expression : ClassExpression) : List Sibling :=
  leafSibling expression.word.token :: (expression.name.map (leafSibling ·.token)).toList
    ++ expression.heritageParts ++ [expression.body.sibling]

-- The word or the name that the head begins with.
def headEnd (expression : ClassExpression) : Token := (expression.name.map Name.token).getD expression.word.token

-- The line ends in front of the name, behind it, or in the heritage and in front of the body.
def split (expression : ClassExpression) : Bool :=
  expression.name.any (below expression.word.token ·.token) ||
    match expression.heritage with
    | some heritage => below expression.headEnd heritage.word.token
        || Sibling.splits (leafSibling heritage.word.token :: heritage.parts ++ [expression.body.sibling])
    | none => below expression.headEnd expression.body.opener

end ClassExpression

namespace Initializer

def siblings : Initializer → List Sibling
  | line expression => expression.parts
  | function expression => expression.siblings
  | «class» expression => expression.siblings

def split : Initializer → Bool
  | line _ => false
  | function expression => expression.split
  | «class» expression => expression.split

end Initializer

theorem Word.named (word : Word spelling) : word.token.isName = true := (Bool.and_eq_true_iff.mp word.spelled).1

section
variable {token first second : Token} {bracket : Bracket} (brackets : Brackets bracket)

theorem inner_name (named : token.isName = true) : (leafSibling token).isInner = true := by
  rw [Token.isName, beq_iff_eq] at named
  simp [Sibling.isInner, leafSibling, Sibling.isPunctuator, Sibling.token?, Node.token?,
    Token.isPunctuator, named]

theorem Brackets.inner : brackets.sibling.isInner = true := rfl

theorem Brackets.firstLine? : brackets.sibling.firstLine? = some brackets.opener.line := rfl

theorem Brackets.lastLine? : brackets.sibling.lastLine? = some brackets.closer.lastLine := by
  rw [sibling, enclosed, Sibling.lastLine?, Node.lastToken?, ← List.cons_append, List.getLast?_concat]
  rfl

theorem breaksLine_names (named : first.isName = true) (follows : second.isName = true) :
    Sibling.breaksLine (some (leafSibling first)) (leafSibling second) = below first second := by
  rw [Token.isName, beq_iff_eq] at named follows
  simp [Sibling.breaksLine, leafSibling, Sibling.firstLine?, Sibling.lastLine?, Node.firstToken?,
    Node.lastToken?,
    Sibling.continues, Sibling.token?, Node.token?, Sibling.isGroup, Node.isGroup, named, follows, below]

theorem breaksLine_parameters (brackets : Brackets .paren) (previous : Sibling) :
    Sibling.breaksLine (some previous) brackets.sibling = false := by
  have goesOn : Sibling.continues previous brackets.sibling = true := by
    simp [Sibling.continues, Brackets.sibling, enclosed, Sibling.isGroup, Node.isGroup]
  simp only [Sibling.breaksLine, goesOn, Bool.not_true, Bool.and_false]
  split <;> rfl

theorem breaksLine_body (brackets : Brackets .brace)
    (plain : ∀ token, previous.token? = some token → token.isName = true)
    (line : Sibling.lastLine? previous = some last) :
    Sibling.breaksLine (some previous) brackets.sibling = decide (last < brackets.opener.line) := by
  have unmarked : previous.token?.any (·.terminal == .leaf .punctuator) = false := by
    rw [Option.any_eq_false]
    intro token found
    have named := plain token found
    rw [Token.isName, beq_iff_eq] at named
    simp [named]
  have ended : Sibling.continues previous brackets.sibling = false := by
    rw [Sibling.continues, unmarked]
    rfl
  simp [Sibling.breaksLine, brackets.firstLine?, line, ended]
end

theorem breaksLine_nameBody (brackets : Brackets .brace) (named : token.isName = true) :
    Sibling.breaksLine (some (leafSibling token)) brackets.sibling = below token brackets.opener := by
  refine breaksLine_body brackets ?_ rfl
  rintro other ⟨⟩
  exact named

theorem breaksLine_groupBody (parameters : Brackets .paren) (body : Brackets .brace) :
    Sibling.breaksLine (some parameters.sibling) body.sibling = below parameters.closer body.opener :=
  breaksLine_body body nofun parameters.lastLine?

theorem leaf_punctuator (mark : Punctuator text) : (leafSibling mark.token).isPunctuator text = true := mark.spelled

-- The line may end in front of the name of a head, but not in front of its parameters.
theorem splits_head (named : token.isName = true) (name : Option Name) (parameters : Brackets .paren)
    (rest : List Sibling) :
    Sibling.splits (leafSibling token :: ((name.map (leafSibling ·.token)).toList ++ parameters.sibling :: rest))
      = (name.any (below token ·.token) || Sibling.splits (parameters.sibling :: rest)) := by
  cases name with
  | none => simp [Sibling.splits, breaksLine_parameters]
  | some name => simp [Sibling.splits, breaksLine_parameters, breaksLine_names named name.named]

theorem splits_star (star : Punctuator text) (name : Option Name) (parameters : Brackets .paren)
    (rest : List Sibling) :
    Sibling.splits (leafSibling star.token :: ((name.map (leafSibling ·.token)).toList ++ parameters.sibling :: rest))
      = Sibling.splits (parameters.sibling :: rest) := by
  have passes := Sibling.breaksLine_mark (leaf_punctuator star)
  cases name with
  | none => simp [Sibling.splits, passes]
  | some name => simp [Sibling.splits, breaksLine_parameters, passes]

theorem splits_pair (rest : List Sibling) : Sibling.splits (first :: second :: rest)
    = (Sibling.breaksLine (some first) second || Sibling.splits (second :: rest)) := rfl

theorem Punctuator.inner (mark : Punctuator text) (semicolon : text ≠ ";") (comma : text ≠ ",") :
    (leafSibling mark.token).isInner = true := by
  have plain : ∀ other : String, text ≠ other → (leafSibling mark.token).isPunctuator other = false :=
    fun other apart => mark.plain fun same => apart (String.toList_inj.mp same)
  rw [leafSibling] at plain ⊢
  rw [Sibling.isInner, plain _ semicolon, plain _ comma]
  · rfl
  · nofun

namespace FunctionExpression
variable (function : FunctionExpression)

theorem inner : ∀ item ∈ function.siblings, item.isInner = true := by
  obtain ⟨async, word, star, name, parameters, body, together⟩ := function
  simp only [siblings, fromWord, List.mem_append, List.mem_cons, Option.mem_toList, Option.map_eq_some_iff,
    List.not_mem_nil, or_false]
  rintro item (⟨async, rfl, rfl⟩ | rfl | ⟨star, rfl, rfl⟩ | ⟨name, rfl, rfl⟩ | rfl | rfl)
  · exact inner_name async.named
  · exact inner_name word.named
  · exact Punctuator.inner star (by decide) (by decide)
  · exact inner_name name.named
  · exact parameters.inner
  · exact body.inner

theorem splits_fromWord : Sibling.splits function.fromWord = function.split := by
  obtain ⟨async, word, star, name, parameters, body, together⟩ := function
  have parted : Sibling.splits [parameters.sibling, body.sibling] = below parameters.closer body.opener := by
    rw [splits_pair, breaksLine_groupBody]
    exact Bool.or_false _
  rw [fromWord, split, ← parted]
  cases star with
  | none => exact splits_head word.named name parameters [body.sibling]
  | some star =>
    have passes := Sibling.breaksLine_before (leaf_punctuator star) (some (leafSibling word.token))
    exact (splits_pair _).trans (congrArg₂ _ passes (splits_star star name parameters _))

-- The mark in front of a value takes no part in it.
theorem splits_siblings (mark : Punctuator text) :
    Sibling.splits (leafSibling mark.token :: function.siblings) = function.split := by
  have starts := Sibling.breaksLine_mark (leaf_punctuator mark)
  rw [← splits_fromWord, siblings]
  cases head : function.asyncWord with
  | none => exact (splits_pair _).trans (congrArg₂ _ (starts _) rfl)
  | some async =>
    have joined : Sibling.breaksLine (some (leafSibling async.token)) (leafSibling function.word.token) = false := by
      have together := function.together
      rw [head] at together
      exact (breaksLine_names async.named function.word.named).trans together
    refine (splits_pair _).trans (congrArg₂ _ (starts _) ?_)
    exact (splits_pair _).trans (congrArg₂ _ joined rfl)

end FunctionExpression

namespace ClassExpression
variable (expression : ClassExpression)

theorem inner : ∀ item ∈ expression.siblings, item.isInner = true := by
  obtain ⟨word, name, heritage, body⟩ := expression
  simp only [siblings, List.mem_append, List.mem_cons, Option.mem_toList, Option.map_eq_some_iff,
    List.not_mem_nil,
    or_false]
  rintro item (((rfl | ⟨name, rfl, rfl⟩) | among) | rfl)
  · exact inner_name word.named
  · exact inner_name name.named
  · cases heritage with
    | none => cases among
    | some heritage =>
      rcases List.mem_cons.mp among with rfl | among
      · exact inner_name heritage.word.named
      · exact heritage.inner item among
  · exact body.inner

theorem headEnd_named : expression.headEnd.isName = true := by
  obtain ⟨word, name, heritage, body⟩ := expression
  cases name with
  | none => exact word.named
  | some name => exact name.named

-- What stands behind the word and the name.
theorem splits_tail :
    Sibling.splits (leafSibling expression.headEnd :: expression.heritageParts ++ [expression.body.sibling])
    = match expression.heritage with
      | some heritage => below expression.headEnd heritage.word.token
          || Sibling.splits (leafSibling heritage.word.token :: heritage.parts ++ [expression.body.sibling])
      | none => below expression.headEnd expression.body.opener := by
  have named := expression.headEnd_named
  rw [heritageParts]
  cases expression.heritage with
  | none =>
    refine (splits_pair _).trans ?_
    rw [breaksLine_nameBody _ named]
    exact Bool.or_false _
  | some heritage => exact (splits_pair _).trans (congrArg₂ _ (breaksLine_names named heritage.word.named) rfl)

theorem splits_siblings (mark : Punctuator text) :
    Sibling.splits (leafSibling mark.token :: expression.siblings) = expression.split := by
  have starts := Sibling.breaksLine_mark (leaf_punctuator mark)
  have tail := expression.splits_tail
  rw [split, ← tail]
  refine (splits_pair _).trans ((congrArg₂ _ (starts _) rfl).trans (Bool.false_or _ |>.trans ?_))
  obtain ⟨word, name, heritage, body⟩ := expression
  cases name with
  | none => exact (Bool.false_or _).symm
  | some name =>
    exact (splits_pair _).trans (congrArg₂ _ (breaksLine_names word.named name.named) rfl)

end ClassExpression

-- No line ends inside an expression on one line.
theorem LineExpression.splits_parts (expression : LineExpression) : Sibling.splits expression.parts = false := by
  have single := expression.single
  generalize expression.parts = parts at single ⊢
  induction parts with
  | nil => rfl
  | cons first parts ih =>
    obtain ⟨own, later⟩ := List.forall_mem_cons.mp single
    cases parts with
    | nil => rfl
    | cons second parts =>
      have next := later second List.mem_cons_self
      rw [splits_pair, ih later, Bool.or_false]
      simp [Sibling.breaksLine, own.2, next.1]

namespace Initializer
variable (value : Initializer)

theorem inner : ∀ item ∈ value.siblings, item.isInner = true := by
  cases value with
  | line expression => exact expression.inner
  | function expression => exact expression.inner
  | «class» expression => exact expression.inner

theorem splits_siblings (mark : Punctuator text) :
    Sibling.splits (leafSibling mark.token :: value.siblings) = value.split := by
  cases value with
  | line expression =>
    have whole := expression.splits_parts
    rw [siblings]
    cases parts : expression.parts with
    | nil => rfl
    | cons first rest =>
      rw [parts] at whole
      rw [splits_pair, Sibling.breaksLine_mark (leaf_punctuator mark), whole]
      rfl
  | function expression => exact expression.splits_siblings mark
  | «class» expression => exact expression.splits_siblings mark

end Initializer
structure Declarator where
  name : Name
  mark : Punctuator "="
  value : Initializer

def Declarator.siblings (declarator : Declarator) : List Sibling :=
  leafSibling declarator.name.token :: leafSibling declarator.mark.token :: declarator.value.siblings

-- The declarators behind a value, and the semicolon at the end of the statement.
def trail (semicolon : Punctuator ";") : List (Punctuator "," × Declarator) → List Sibling
  | [] => [leafSibling semicolon.token]
  | (comma, declarator) :: later => leafSibling comma.token :: declarator.siblings ++ trail semicolon later

-- The names that are found behind a value: none if it is split.
def foundBehind (value : Initializer) : List (Punctuator "," × Declarator) → List Text
  | [] => []
  | (_, declarator) :: later =>
    if value.split then [] else declarator.name.token.text :: foundBehind declarator.value later

theorem trailingNames_equals (mark : Punctuator "=") (previous : Option Sibling) (rest : List Sibling) :
    Sibling.trailingNames previous false (leafSibling mark.token :: rest)
      = Sibling.trailingNames (some (leafSibling mark.token)) false rest := by
  have open_ : (leafSibling mark.token).isPunctuator ";" = false := mark.plain (by decide)
  have inside : (leafSibling mark.token).isPunctuator "," = false := mark.plain (by decide)
  have code : ∀ parsed, leafSibling mark.token ≠ .declaration parsed := by
    rintro _ ⟨⟩
  rw [Sibling.trailingNames_code code, open_, Sibling.breaksLine_before (leaf_punctuator mark), inside]
  rfl

-- The scan goes from a comma over the name behind it to the mark in front of its value.
theorem trailingNames_declarator (comma : Punctuator ",") (declarator : Declarator) (previous : Sibling)
    (rest : List Sibling) :
    Sibling.trailingNames (some previous) false (leafSibling comma.token :: declarator.siblings ++ rest)
      = declarator.name.token.text
        :: Sibling.trailingNames (some (leafSibling declarator.mark.token)) false
          (declarator.value.siblings ++ rest) := by
  have bound : (Node.leaf declarator.name.token).boundNames = [declarator.name.token.text] := by
    rw [Node.boundNames, if_pos declarator.name.named]
  have before := Sibling.breaksLine_before (leaf_punctuator comma) (some previous)
  refine (Sibling.trailingNames_mark (leaf_punctuator comma) before).trans ?_
  refine (Sibling.trailingNames_target (leaf_punctuator comma) declarator.name.plain).trans ?_
  rw [bound]
  exact congrArg _ (trailingNames_equals declarator.mark _ _)

theorem trailingNames_found (mark : Punctuator text) (value : Initializer) (semicolon : Punctuator ";")
    (later : List (Punctuator "," × Declarator)) (behind : List Sibling) :
    Sibling.trailingNames (some (leafSibling mark.token)) false (value.siblings ++ (trail semicolon later ++ behind))
      = foundBehind value later := by
  induction later generalizing value mark text with
  | nil =>
    have ended := fun previous => Sibling.trailingNames_ends (some previous) false [] behind
      (.inl (leaf_punctuator semicolon))
    rw [Sibling.trailingNames_inner value.inner, value.splits_siblings]
    split
    · rfl
    · exact ended _
  | cons first later ih =>
    obtain ⟨comma, declarator⟩ := first
    rw [Sibling.trailingNames_inner value.inner, value.splits_siblings, trail, foundBehind, List.append_assoc,
      trailingNames_declarator, ih]

-- An exported list of declarators with their values, from its declaration to the semicolon.
structure ExportedList where
  declaration : Declaration
  name : Name
  single : declaration.meaning = .exportsVariables [name.token.text]
  mark : Punctuator "="
  value : Initializer
  later : List (Punctuator "," × Declarator)
  semicolon : Punctuator ";"

namespace ExportedList
variable (list : ExportedList)

def siblings : List Sibling :=
  .declaration list.declaration :: leafSibling list.mark.token ::
    (list.value.siblings ++ trail list.semicolon list.later)

def names : List Text := list.name.token.text :: list.later.map (·.2.name.token.text)

def values : List Initializer := list.value :: list.later.map (·.2.value)

-- The names up to the first value that is split.
def found : List Text := list.name.token.text :: foundBehind list.value list.later

theorem trailingNames_value (behind : List Sibling) :
    Sibling.trailingNames none false (leafSibling list.mark.token
      :: (list.value.siblings ++ (trail list.semicolon list.later ++ behind))) = foundBehind list.value list.later :=
  (trailingNames_equals list.mark none _).trans
    (trailingNames_found list.mark list.value list.semicolon list.later behind)

theorem found_iff : list.found = list.names ↔ ∀ value ∈ list.values.dropLast, value.split = false := by
  obtain ⟨declaration, name, single, mark, value, later, semicolon⟩ := list
  simp only [found, names, values, List.cons.injEq, true_and]
  clear single
  induction later generalizing value with
  | nil => simp [foundBehind]
  | cons first later ih =>
    rw [foundBehind, List.map_cons, List.map_cons, List.dropLast_cons_of_ne_nil (by simp),
      List.forall_mem_cons]
    cases value.split with
    | true => simp
    | false => simpa using ih first.2.value

end ExportedList

theorem exportedNames_inner (inner : ∀ item ∈ items, Sibling.isInner item = true) (rest : List Sibling) :
    exportedNames (items ++ rest) = exportedNames rest := by
  induction items with
  | nil => rfl
  | cons item items ih =>
    obtain ⟨own, later⟩ := List.forall_mem_cons.mp inner
    rw [List.cons_append, exportedNames_code (Sibling.isInner_code own), ih later]

theorem exportedNames_trail (semicolon : Punctuator ";") (later : List (Punctuator "," × Declarator))
    (rest : List Sibling) :
    exportedNames (trail semicolon later ++ rest) = exportedNames rest := by
  induction later with
  | nil => rfl
  | cons first later ih =>
    obtain ⟨comma, declarator⟩ := first
    rw [trail, Declarator.siblings, List.append_assoc, ← ih]
    exact exportedNames_inner declarator.value.inner _

theorem ExportedList.exportedNames_siblings (list : ExportedList) (before behind : List Sibling) :
    exportedNames (before ++ list.siblings ++ behind)
      = exportedNames before ++ list.found ++ exportedNames behind := by
  have inner : exportedNames (leafSibling list.mark.token
      :: (list.value.siblings ++ (trail list.semicolon list.later ++ behind))) = exportedNames behind :=
    (exportedNames_inner list.value.inner _).trans (exportedNames_trail list.semicolon list.later behind)
  have scanned := list.trailingNames_value behind
  rw [List.append_assoc, ExportedList.siblings, List.cons_append, List.cons_append, List.append_assoc,
    exportedNames_split, exportedNames, inner, scanned, list.single, ExportedList.found, List.append_assoc]
  simp [Meaning.exported, Meaning.isList]

namespace Rewriting

-- A list exports its names once each, up to the first value with a head that a line end splits. All of them
-- are exported exactly if no value but the last one is split.
theorem exported_declarators (list : ExportedList) (read : items? source = some (before ++ list.siblings ++ behind)) :
    exported? source = distinct (exportedNames before ++ list.found ++ exportedNames behind) ∧
      (list.found = list.names ↔ ∀ value ∈ list.values.dropLast, value.split = false) := by
  refine ⟨?_, list.found_iff⟩
  rw [exported?_eq, read, Option.bind_some, list.exportedNames_siblings]

-- A token of a line that begins behind `passed` characters.
def placed (terminal : Terminal) (text : String) (passed line start : Nat) : Token :=
  ⟨terminal, text.toList, start, line, start + 1 - passed⟩

def placedMark (text : String) (passed line start : Nat) : Punctuator text :=
  ⟨placed (.leaf .punctuator) text passed line start, by simp [placed, Token.isPunctuator]⟩

-- `a` with an empty function and `b` with a number. The body of the function begins the line given.
def functionList (passed line body : Nat) : ExportedList where
  declaration := ⟨0, 12, .exportsVariables [['a']]⟩
  name := ⟨placed (.leaf .name) "a" 0 1 13, rfl⟩
  single := rfl
  mark := placedMark "=" 0 1 14
  value := .function {
    asyncWord := none, word := ⟨placed (.leaf .name) "function" 0 1 15, rfl⟩, star := none, name := none
    parameters := ⟨placed (.opener .paren) "(" 0 1 23, [], placed (.closer .paren) ")" 0 1 24⟩
    body := ⟨placed (.opener .brace) "\x7b" passed line body, [],
      placed (.closer .brace) "\x7d" passed line (body + 1)⟩
    together := rfl }
  later := [(placedMark "," passed line (body + 2), {
    name := ⟨placed (.leaf .name) "b" passed line (body + 3),
      rfl⟩, mark := placedMark "=" passed line (body + 4)
    value := .line {
      line := line, parts := [leafSibling (placed (.leaf .number) "2" passed line (body + 5))]
      inner := List.forall_mem_singleton.mpr rfl, single := List.forall_mem_singleton.mpr ⟨rfl, rfl⟩ } })]
  semicolon := placedMark ";" passed line (body + 6)

def closedSource : Text := "export const a=function()\x7b\x7d,b=2;".toList

theorem closed_exported : items? closedSource = some ([] ++ (functionList 0 1 25).siblings ++ []) ∧
    exported? closedSource = some [['a'], ['b']] := by
  have read : items? closedSource = some ([] ++ (functionList 0 1 25).siblings ++ []) := by
    unfold closedSource
    rw [String.toList_ofList]
    decide +kernel
  refine ⟨read, (exported_declarators (functionList 0 1 25) read).1.trans ?_⟩
  decide +kernel

-- The same with a line end in front of the body: the second name is lost.
def brokenSource : Text := "export const a=function()\n\x7b\x7d,b=2;".toList

theorem broken_lost : items? brokenSource = some (functionList 26 2 26).siblings ∧
    (functionList 26 2 26).names = [['a'], ['b']] ∧ exported? brokenSource = some [['a']] := by
  unfold brokenSource
  rw [String.toList_ofList]
  decide +kernel

end Rewriting
end ModuleBundler
