import ModuleBundler.Proofs.Masking.Frame
import ModuleBundler.Proofs.Syntax.Phrases
import ModuleBundler.Rewriting.Prologue

/-!
The lines of a prologue are written token by token and complete: where a module follows them on a new
line, it is parsed as it would be alone. Only a name that begins declarations would be in the way.
-/
namespace ModuleBundler

namespace Prologue

open Segment

theorem isName_variable (front : Text) (index : Nat) (named : Text.IsName front) :
    Text.IsName (front ++ Json.natText index) := by
  obtain ⟨c, rest, rfl, starts, letters⟩ := named
  refine ⟨c, rest ++ Json.natText index, rfl, starts, ?_⟩
  exact List.forall_mem_append.mpr ⟨letters, fun d member =>
    Json.isNameChar_of_isDigit (Json.natText_digits index d member)⟩

theorem free_variable (rest : Text) : '_' :: rest ∉ Lexer.reserved := by
  simp [Lexer.reserved, Keyword.spelling]

theorem phrase_dependency (index : Nat) :
    Phrase [.word (dependencyVariable index)] (dependencyVariable index) [] := by
  have front : "__dep".toList = '_' :: "_dep".toList := by decide
  have phrase := phrase_word (isName_variable "__dep".toList index (by decide))
  refine ⟨phrase.texts, phrase.sound, fun _ => phrase.free ?_⟩
  rintro word member
  rw [List.mem_singleton.mp member, front]
  exact free_variable _

theorem phrase_view (index : Nat) :
    Phrase [.word (viewVariable index)] (viewVariable index) [] := by
  have front : "__mod".toList = '_' :: "_mod".toList := by decide
  have phrase := phrase_word (isName_variable "__mod".toList index (by decide))
  refine ⟨phrase.texts, phrase.sound, fun _ => phrase.free ?_⟩
  rintro word member
  rw [List.mem_singleton.mp member, front]
  exact free_variable _

-- The variable that an expression begins with.
def root (expression : Text) : Text := expression.takeWhile Text.isNameChar

-- The variable that an imported binding is read from.
def carrier (index : Nat) : Imported → Text
  | .default => viewVariable index
  | .namespace | .named _ => dependencyVariable index

theorem root_before (named : Text.IsName name) (apart : Masking.NotName rest) :
    root (name ++ rest) = name := by
  rw [root, List.takeWhile_append_of_pos (Masking.spelled_of_isName named).2]
  cases rest with
  | nil => exact List.append_nil name
  | cons c rest => rw [List.takeWhile_cons_of_neg (by simp [apart c rfl]), List.append_nil]

theorem root_name (named : Text.IsName name) : root name = name := by
  have whole := root_before named (show Masking.NotName [] from nofun)
  rwa [List.append_nil] at whole

theorem root_bindingExpression (index : Nat) (imported : Imported) :
    root (bindingExpression index imported) = carrier index imported := by
  have dependency := isName_variable "__dep".toList index (by decide)
  have view := isName_variable "__mod".toList index (by decide)
  -- A property is read by a bracket behind the variable.
  have bracket : ∀ rest, Masking.NotName ('[' :: rest) := by
    intro rest c same
    cases same
    decide
  cases imported with
  | default => exact root_before view (bracket _)
  | «namespace» => exact root_name dependency
  | named name =>
    rw [bindingExpression, indexed, List.append_assoc]
    exact root_before dependency (bracket _)

-- How an imported binding is read.
def access (index : Nat) : Imported → List Segment
  | .default => [.word (viewVariable index), .opener .square, .literal Keyword.default.spelling,
      .closer .square]
  | .namespace => [.word (dependencyVariable index)]
  | .named name => [.word (dependencyVariable index), .opener .square, .literal name, .closer .square]

theorem spelled_access (index : Nat) (imported : Imported) :
    spelled (access index imported) = [root (bindingExpression index imported)] := by
  rw [root_bindingExpression]
  cases imported <;> rfl

theorem phrase_access (index : Nat) (imported : Imported) :
    Phrase (access index imported) (bindingExpression index imported) [] := by
  cases imported with
  | default =>
    have property : Phrase [.opener .square, .literal Keyword.default.spelling, .closer .square]
        "[\"default\"]".toList [] :=
      .fixed (by decide +kernel)
    exact (phrase_view index).append property
  | «namespace» => exact phrase_dependency index
  | named name =>
    have opened : Phrase [.opener .square] ['['] [] := .fixed (by decide)
    have closed : Phrase [.closer .square] [']'] [] := .fixed (by decide)
    exact ((phrase_dependency index).append (opened.append (phrase_literal name))).append closed

end Prologue

namespace Statement

open Segment Prologue

-- The parts of a line that the source spells.
def words : Statement → List Text
  | declare bindings => bindings.map Prod.fst
  | getter _ expression => [expression]
  | _ => []

-- The words of a property with a getter, up to what the getter returns.
def getsWords : List Text :=
  ["enumerable".toList, "true".toList, "get".toList, "function".toList, "return".toList]

-- The words of a line that copies exports, between the two reads of their module.
def copiesWords : List Text :=
  ["function".toList, "key".toList, "if".toList, "key".toList, "key".toList, "Object".toList,
    "exports".toList,
    "key".toList, "return".toList, "Object".toList, "exports".toList, "key".toList] ++ getsWords

-- All words of a line.
def spelled : Statement → List Text
  | require index _ => ["var".toList, dependencyVariable index, "require".toList]
  | view index => "var".toList :: viewVariable index :: List.replicate 4 (dependencyVariable index)
  | declare bindings =>
    "var".toList :: bindings.flatMap fun (name, expression) => [name, root expression]
  | exportAll index =>
    ["Object".toList, dependencyVariable index] ++ copiesWords ++ [dependencyVariable index, "key".toList]
  | getter _ expression => ["Object".toList, "exports".toList] ++ getsWords ++ [root expression]

-- What a line is made of where its module has been parsed.
def Proper : Statement → Prop
  | declare bindings => ∃ index, ∃ found : List ImportBinding, found ≠ [] ∧
      (∀ binding ∈ found, Text.IsName binding.localName) ∧
      bindings = found.map fun binding =>
        (binding.localName, bindingExpression index binding.imported)
  | getter _ expression =>
    (∃ index imported, expression = bindingExpression index imported) ∨ Text.IsName expression
  | require _ _ | view _ | exportAll _ => True

def assigned : List Segment := [.gap ' ', .punctuator ['='], .gap ' ']

def varWord : List Segment := [.word "var".toList, .gap ' ']

-- A property with a getter, up to what the getter returns.
def gets : List Segment :=
  [.punctuator [','], .gap ' ', .opener .brace, .gap ' ', .word "enumerable".toList, .punctuator [':'],
    .gap ' ', .word "true".toList, .punctuator [','], .gap ' ', .word "get".toList, .punctuator [':'],
    .gap ' ', .word "function".toList, .gap ' ', .opener .paren, .closer .paren, .gap ' ', .opener .brace,
    .gap ' ', .word "return".toList, .gap ' ']

theorem phrase_assigned : Phrase assigned " = ".toList [] :=
  .fixed (by decide +kernel)

theorem phrase_varWord : Phrase varWord "var ".toList [] :=
  .fixed (by decide +kernel)

theorem phrase_end : Phrase [.punctuator [';']] ";".toList [] :=
  .fixed (by decide +kernel)

theorem require_written (index : Nat) (specifier : CodePoints) :
    ∃ segments, Written segments (require index specifier).render [] ∧
      Segment.spelled segments = (require index specifier).spelled := by
  have called : Phrase (assigned ++ [.word "require".toList, .opener .paren]) " = require(".toList [] :=
    .fixed (by decide +kernel)
  have closed : Phrase [.closer .paren, .punctuator [';']] ");".toList [] :=
    .fixed (by decide +kernel)
  have phrase := (((phrase_varWord.append (phrase_dependency index)).append called).append
    (phrase_literal specifier)).append closed
  exact ⟨_, ⟨phrase, rfl, rfl, rfl, rfl⟩, rfl⟩

theorem view_written (index : Nat) : ∃ segments, Written segments (view index).render [] ∧
    Segment.spelled segments = (view index).spelled := by
  have conjunction : Phrase [.gap ' ', .punctuator ['&', '&'], .gap ' '] " && ".toList [] :=
    .fixed (by decide +kernel)
  have chosen : Phrase [.property "__esModule".toList, .gap ' ', .punctuator ['?'], .gap ' ']
      ".__esModule ? ".toList [] :=
    .fixed (by decide +kernel)
  have other : Phrase [.gap ' ', .punctuator [':'], .gap ' ', .opener .brace, .gap ' ',
      .literal "default".toList, .punctuator [':'], .gap ' '] " : \x7b \"default\": ".toList [] :=
    .fixed (by decide +kernel)
  have closed : Phrase [.gap ' ', .closer .brace, .punctuator [';']] " \x7d;".toList [] :=
    .fixed (by decide +kernel)
  have dependency := phrase_dependency index
  have named := ((phrase_varWord.append (phrase_view index)).append phrase_assigned).append dependency
  have tested := ((named.append conjunction).append dependency).append chosen
  have phrase := (((tested.append dependency).append other).append dependency).append closed
  exact ⟨_, ⟨phrase, rfl, rfl, rfl, rfl⟩, rfl⟩

theorem exportAll_written (index : Nat) :
    ∃ segments, Written segments (exportAll index).render [] ∧
      Segment.spelled segments = (exportAll index).spelled := by
  have keys : Phrase [.word "Object".toList, .property "keys".toList, .opener .paren]
      "Object.keys(".toList [] :=
    .fixed (by decide +kernel)
  have named : Phrase [.closer .paren, .property "forEach".toList, .opener .paren,
      .word "function".toList, .gap ' ', .opener .paren, .word "key".toList, .closer .paren, .gap ' ',
      .opener .brace, .gap ' ', .word "if".toList, .gap ' ', .opener .paren, .word "key".toList, .gap ' ',
      .punctuator ['=', '=', '='], .gap ' ', .literal "default".toList, .gap ' ', .punctuator ['|', '|'],
      .gap ' ', .word "key".toList, .gap ' ', .punctuator ['=', '=', '='], .gap ' ',
      .literal "__esModule".toList, .gap ' ', .punctuator ['|', '|'], .gap ' ']
      ").forEach(function (key) \x7b if (key === \"default\" || key === \"__esModule\" || ".toList [] :=
    .fixed (by decide +kernel)
  have owned : Phrase [.word "Object".toList, .property "prototype".toList,
      .property "hasOwnProperty".toList, .property "call".toList, .opener .paren, .word "exports".toList,
      .punctuator [','], .gap ' ', .word "key".toList, .closer .paren, .closer .paren, .gap ' ',
      .word "return".toList, .punctuator [';'], .gap ' ']
      "Object.prototype.hasOwnProperty.call(exports, key)) return; ".toList [] :=
    .fixed (by decide +kernel)
  have copied : Phrase [.word "Object".toList, .property "defineProperty".toList, .opener .paren,
      .word "exports".toList, .punctuator [','], .gap ' ', .word "key".toList, .punctuator [','], .gap ' ',
      .opener .brace, .gap ' ', .word "enumerable".toList, .punctuator [':'], .gap ' ', .word "true".toList,
      .punctuator [','], .gap ' ']
      "Object.defineProperty(exports, key, \x7b enumerable: true, ".toList [] :=
    .fixed (by decide +kernel)
  have getter : Phrase [.word "get".toList, .punctuator [':'], .gap ' ', .word "function".toList, .gap ' ',
      .opener .paren, .closer .paren, .gap ' ', .opener .brace, .gap ' ', .word "return".toList, .gap ' ']
      "get: function () \x7b return ".toList [] :=
    .fixed (by decide +kernel)
  have closed : Phrase [.opener .square, .word "key".toList, .closer .square, .punctuator [';'], .gap ' ',
      .closer .brace, .gap ' ', .closer .brace, .closer .paren, .punctuator [';'], .gap ' ', .closer .brace,
      .closer .paren, .punctuator [';']] "[key]; \x7d \x7d); \x7d);".toList [] :=
    .fixed (by decide +kernel)
  have dependency := phrase_dependency index
  have body := ((named.join owned).join copied).join getter
  have phrase := (((keys.append dependency).append body).append dependency).append closed
  exact ⟨_, ⟨phrase, rfl, rfl, rfl, rfl⟩, rfl⟩

def defined (name : Text) : List Segment :=
  [.word "Object".toList, .property "defineProperty".toList, .opener .paren, .word "exports".toList,
    .punctuator [','], .gap ' '] ++ [.literal name] ++ gets

theorem phrase_defined (name : Text) :
    Phrase (defined name) ("Object.defineProperty(exports, ".toList ++ Literal.write name
      ++ ", \x7b enumerable: true, get: function () \x7b return ".toList) [] := by
  have object : Phrase [.word "Object".toList, .property "defineProperty".toList, .opener .paren,
      .word "exports".toList, .punctuator [','], .gap ' '] "Object.defineProperty(exports, ".toList [] :=
    .fixed (by decide +kernel)
  have getter : Phrase gets ", \x7b enumerable: true, get: function () \x7b return ".toList [] :=
    .fixed (by decide +kernel)
  exact (object.append (phrase_literal name)).append getter

theorem phrase_returned : Phrase [.punctuator [';'], .gap ' ', .closer .brace, .gap ' ', .closer .brace,
    .closer .paren, .punctuator [';']] "; \x7d \x7d);".toList [] :=
  .fixed (by decide +kernel)

theorem render_getter (name expression : Text) :
    (getter name expression).render
      = "Object.defineProperty(exports, ".toList ++ Literal.write name
        ++ ", \x7b enumerable: true, get: function () \x7b return ".toList ++ expression
        ++ "; \x7d \x7d);".toList := by
  delta render
  rfl

theorem getter_written (name : Text) (proper : Proper (getter name expression)) :
    ∃ segments, Written segments (getter name expression).render [expression] ∧
      Segment.spelled segments = (getter name expression).spelled := by
  rw [render_getter, Statement.spelled]
  rcases proper with ⟨index, imported, rfl⟩ | named
  · have read := (phrase_access index imported).weaken
      (List.nil_subset [bindingExpression index imported])
    have phrase := ((phrase_defined name).append read).append phrase_returned
    rw [← spelled_access]
    cases imported <;> exact ⟨_, ⟨phrase, rfl, rfl, rfl, rfl⟩, rfl⟩
  · have phrase := ((phrase_defined name).append (phrase_word named)).append phrase_returned
    rw [root_name named]
    exact ⟨_, ⟨phrase, rfl, rfl, rfl, rfl⟩, rfl⟩

-- A getter cannot return a name that begins declarations.
theorem getter_blocks (name : Text) (begins : expression ∈ Lexer.reserved)
    (reaches : Reaches [] before ((getter name expression).render ++ more) statement) :
    ¬ statement := by
  have phrase := phrase_defined name
  rw [render_getter, ← phrase.texts, List.append_assoc, List.append_assoc] at reaches
  have visible := Masking.begins_word (Masking.spelled_of_isName (isName_reserved begins))
  have opened : walk [] (defined name) = some [(.brace, true), (.brace, true), (.paren, true)] := rfl
  have inside := reaches.run opened phrase.sound (phrase.free nofun) rfl (visible.notBlank _)
  refine inside.reserved_inside begins ?_
  intro c same
  have head : "; \x7d \x7d);".toList = ';' :: " \x7d \x7d);".toList := by decide
  rw [head] at same
  cases same
  decide

-- The binding of one name in a line that declares several.
def clause (index : Nat) (binding : ImportBinding) : Text :=
  binding.localName ++ " = ".toList ++ bindingExpression index binding.imported

def clauseSegments (index : Nat) (binding : ImportBinding) : List Segment :=
  [.word binding.localName] ++ assigned ++ access index binding.imported

def comma : List Segment := [.punctuator [','], .gap ' ']

theorem phrase_comma : Phrase comma ", ".toList [] := .fixed (by decide +kernel)

-- The rest of the line behind one binding.
def listed (index : Nat) : List ImportBinding → Text
  | [] => ";".toList
  | binding :: rest => ", ".toList ++ (clause index binding ++ listed index rest)

def listedSegments (index : Nat) : List ImportBinding → List Segment
  | [] => [.punctuator [';']]
  | binding :: rest => comma ++ (clauseSegments index binding ++ listedSegments index rest)

theorem render_declare (index : Nat) (first : ImportBinding) (rest : List ImportBinding) :
    (declare ((first :: rest).map fun binding =>
        (binding.localName, bindingExpression index binding.imported))).render
      = "var ".toList ++ (clause index first ++ listed index rest) := by
  have behind : listed index rest
      = (rest.map (clause index)).flatMap (", ".toList ++ ·) ++ ";".toList := by
    induction rest with
    | nil => rfl
    | cons binding rest ih => rw [listed, ih, List.map_cons, List.flatMap_cons, List.append_assoc,
      List.append_assoc]
  have joined := Text.joinWith_around ", ".toList [] (clause index first) (rest.map (clause index))
  rw [List.nil_append, List.flatMap_nil, List.nil_append] at joined
  rw [behind, ← List.append_assoc (clause index first), ← joined, ← List.append_assoc]
  delta render
  simp only [List.map_cons, List.map_map]
  rfl

theorem phrase_clause (index : Nat) (named : Text.IsName binding.localName) :
    Phrase (clauseSegments index binding) (clause index binding) [binding.localName] :=
  ((phrase_word named).append phrase_assigned).append (phrase_access index binding.imported)

theorem phrase_listed (index : Nat) (named : ∀ binding ∈ rest, Text.IsName binding.localName) :
    Phrase (listedSegments index rest) (listed index rest) (rest.map ImportBinding.localName) := by
  induction rest with
  | nil => exact phrase_end
  | cons binding rest ih =>
    obtain ⟨here, later⟩ := List.forall_mem_cons.mp named
    exact phrase_comma.append ((phrase_clause index here).append (ih later))

-- A clause fits in front of a comma or a semicolon.
theorem fits_clause (index : Nat) (binding : ImportBinding)
    (fitting : fits (.punctuator mark :: later) = true) :
    fits (clauseSegments index binding ++ .punctuator mark :: later) = true := by
  obtain ⟨imported, localName⟩ := binding
  cases imported <;> exact fitting

theorem walk_clause (index : Nat) (binding : ImportBinding) (later : List Segment) :
    walk [] (clauseSegments index binding ++ later) = walk [] later := by
  obtain ⟨imported, localName⟩ := binding
  cases imported <;> rfl

theorem listedSegments_parts (index : Nat) (rest : List ImportBinding) :
    (∃ mark later, listedSegments index rest = .punctuator mark :: later) ∧
      fits (listedSegments index rest) = true ∧ walk [] (listedSegments index rest) = some [] ∧
      (listedSegments index rest).getLast? = some (.punctuator [';']) := by
  induction rest with
  | nil => exact ⟨⟨_, _, rfl⟩, rfl, rfl, rfl⟩
  | cons binding rest ih =>
    obtain ⟨⟨mark, later, parts⟩, fitting, closed, ends⟩ := ih
    refine ⟨⟨_, _, rfl⟩, ?_, ?_, ?_⟩
    · rw [listedSegments, parts]
      rw [parts] at fitting
      exact fits_clause index binding fitting
    · rw [listedSegments]
      exact (walk_clause index binding _).trans closed
    · rw [listedSegments, List.getLast?_append, List.getLast?_append, ends]
      rfl

theorem spelled_clause (index : Nat) (binding : ImportBinding) :
    Segment.spelled (clauseSegments index binding)
      = [binding.localName, root (bindingExpression index binding.imported)] := by
  rw [clauseSegments, spelled_append, spelled_access]
  rfl

theorem spelled_listed (index : Nat) (rest : List ImportBinding) :
    Segment.spelled (listedSegments index rest) = rest.flatMap fun binding =>
      [binding.localName, root (bindingExpression index binding.imported)] := by
  induction rest with
  | nil => rfl
  | cons binding rest ih =>
    rw [listedSegments, spelled_append, spelled_append, spelled_clause, ih]
    rfl

theorem declare_written (proper : Proper (declare bindings)) :
    ∃ segments, Written segments (declare bindings).render (bindings.map Prod.fst) ∧
      Segment.spelled segments = (declare bindings).spelled := by
  obtain ⟨index, found, some_, named, rfl⟩ := proper
  obtain ⟨first, rest, rfl⟩ := List.exists_cons_of_ne_nil some_
  obtain ⟨here, later⟩ := List.forall_mem_cons.mp named
  have phrase := phrase_varWord.append ((phrase_clause index here).append (phrase_listed index later))
  obtain ⟨⟨mark, behind, parts⟩, fitting, closed, ends⟩ := listedSegments_parts index rest
  rw [render_declare]
  refine ⟨_, ⟨⟨phrase.texts, phrase.sound, ?_⟩, ?_, ?_, rfl, ?_⟩, ?_⟩
  · simpa using phrase.free
  · rw [parts]
    rw [parts] at fitting
    exact fits_clause index first fitting
  · exact (walk_clause index first _).trans closed
  · rw [List.getLast?_append, List.getLast?_append, ends]
    rfl
  · rw [spelled_append, spelled_append, spelled_clause, spelled_listed, Statement.spelled, List.flatMap_map]
    rfl

theorem clause_begins (index : Nat) (named : Text.IsName binding.localName) :
    Masking.Begins (clause index binding) :=
  ((Masking.begins_word (Masking.spelled_of_isName named)).append _).append _

theorem clause_blocks (begins : first.localName ∈ Lexer.reserved)
    (reaches : Reaches [] before (clause index first ++ more) statement) : ¬ statement := by
  have equals : " = ".toList = [' ', '=', ' '] := by decide
  rw [clause, equals, List.append_assoc, List.append_assoc] at reaches
  exact reaches.reserved_outside begins

-- No declared name can be a word that begins declarations.
theorem clauses_block (index : Nat) (named : ∀ binding ∈ first :: rest, Text.IsName binding.localName)
    (begins : ∃ binding ∈ first :: rest, binding.localName ∈ Lexer.reserved)
    (reaches : Reaches [] before (clause index first ++ (listed index rest ++ more)) statement) :
    ¬ statement := by
  induction rest generalizing first before with
  | nil =>
    obtain ⟨_, member, begins⟩ := begins
    cases List.mem_singleton.mp member
    exact clause_blocks begins reaches
  | cons second rest ih =>
    obtain ⟨here, later⟩ := List.forall_mem_cons.mp named
    by_cases first_begins : first.localName ∈ Lexer.reserved
    · exact clause_blocks first_begins reaches
    · have phrase := (phrase_clause index here).append phrase_comma
      have closed : walk [] (clauseSegments index first ++ comma) = some [] := walk_clause index first comma
      have fitting : fits (clauseSegments index first ++ comma) = true := fits_clause index first rfl
      have apart : lastApart (clauseSegments index first ++ comma)
          (clause index second ++ (listed index rest ++ more)) := by
        have last : (clauseSegments index first ++ comma).getLast? = some (.gap ' ') := by
          rw [List.getLast?_append]
          rfl
        rw [lastApart_of_getLast? last]
        exact (clause_begins index (later second List.mem_cons_self)).notBlank _
      rw [listed, List.append_assoc, List.append_assoc, ← List.append_assoc (clause index first),
        ← phrase.texts] at reaches
      have beyond := reaches.run closed phrase.sound (phrase.free (by simpa using first_begins)) fitting apart
      refine ih later ?_ beyond
      obtain ⟨binding, member, begins⟩ := begins
      rcases List.mem_cons.mp member with rfl | among
      · exact absurd begins first_begins
      · exact ⟨binding, among, begins⟩

theorem declare_blocks (proper : Proper (declare bindings))
    (begins : ∃ word ∈ bindings.map Prod.fst, word ∈ Lexer.reserved)
    (reaches : Reaches [] before ((declare bindings).render ++ more) statement) : ¬ statement := by
  obtain ⟨index, found, some_, named, rfl⟩ := proper
  obtain ⟨first, rest, rfl⟩ := List.exists_cons_of_ne_nil some_
  rw [render_declare, ← phrase_varWord.texts, List.append_assoc, List.append_assoc] at reaches
  have visible := (clause_begins index (named first List.mem_cons_self)).notBlank (listed index rest ++ more)
  have closed : walk [] varWord = some [] := rfl
  have beyond := reaches.run closed phrase_varWord.sound (phrase_varWord.free nofun) rfl visible
  refine clauses_block index named ?_ beyond
  simpa using begins

-- A proper line is written in its words.
theorem render_written (statement : Statement) (proper : statement.Proper) :
    ∃ segments, Written segments statement.render statement.words ∧
      Segment.spelled segments = statement.spelled := by
  cases statement with
  | require index specifier => exact require_written index specifier
  | view index => exact view_written index
  | exportAll index => exact exportAll_written index
  | declare bindings => exact declare_written proper
  | getter name expression => exact getter_written name proper

-- A line of a prologue, with the words in it that may begin a declaration.
structure Line (line : Text) (words : List Text) : Prop where
  written : ∃ segments, Written segments line words
  blocks : ∀ {before more : Text} {statement : Prop}, (∃ word ∈ words, word ∈ Lexer.reserved) →
    Reaches [] before (line ++ more) statement → ¬ statement

theorem render_line (statement : Statement) (proper : statement.Proper) :
    Line statement.render statement.words := by
  obtain ⟨segments, written, _⟩ := statement.render_written proper
  refine ⟨⟨segments, written⟩, ?_⟩
  cases statement with
  | require | view | exportAll => nofun
  | declare bindings => exact declare_blocks proper
  | getter name expression =>
    rintro before more statement ⟨word, member, begins⟩
    cases List.mem_singleton.mp member
    exact getter_blocks name begins

end Statement

namespace Prologue

open Segment

theorem strictLine_written : ∃ segments, Written segments strictLine [] ∧ Segment.spelled segments = [] :=
  ⟨[.literal "use strict".toList, .punctuator [';']],
    ⟨.fixed (by decide +kernel), rfl, rfl, rfl, rfl⟩, rfl⟩

def markerWords : List Text := ["Object".toList, "exports".toList, "value".toList, "true".toList]

theorem markerLine_written :
    ∃ segments, Written segments markerLine [] ∧ Segment.spelled segments = markerWords :=
  ⟨[.word "Object".toList, .property "defineProperty".toList, .opener .paren, .word "exports".toList,
      .punctuator [','], .gap ' ', .literal "__esModule".toList, .punctuator [','], .gap ' ', .opener .brace,
      .gap ' ', .word "value".toList, .punctuator [':'], .gap ' ', .word "true".toList, .gap ' ',
      .closer .brace, .closer .paren, .punctuator [';']],
    ⟨.fixed (by decide +kernel), rfl, rfl, rfl, rfl⟩, rfl⟩

theorem markerLine_line : Statement.Line markerLine [] := by
  obtain ⟨segments, written, _⟩ := markerLine_written
  exact ⟨⟨segments, written⟩, nofun⟩

-- The lines behind the first one, each with its words.
def linesBehind (hasExports : Bool) (statements : List Statement) : List (Text × List Text) :=
  (if hasExports then [(markerLine, [])] else [])
    ++ statements.map fun statement => (statement.render, statement.words)

def broken (lines : List (Text × List Text)) : Text := lines.flatMap fun line => '\n' :: line.1

theorem broken_head (lines : List (Text × List Text)) (more : Text) :
    (broken lines ++ '\n' :: more).head? = some '\n' := by
  cases lines <;> rfl

theorem render_lines (hasExports : Bool) (getters statements : List Statement) :
    render hasExports getters statements
      = strictLine ++ broken (linesBehind hasExports (getters ++ statements)) := by
  have joined : ∀ lines : List (Text × List Text),
      Text.joinWith ['\n'] (strictLine :: lines.map Prod.fst) = strictLine ++ broken lines := by
    intro lines
    have parts := Text.joinWith_around ['\n'] [] strictLine (lines.map Prod.fst)
    rw [List.nil_append, List.flatMap_nil, List.nil_append, List.flatMap_map] at parts
    exact parts
  have lines : (if hasExports then [markerLine] else []) ++ (getters ++ statements).map Statement.render
      = (linesBehind hasExports (getters ++ statements)).map Prod.fst := by
    cases hasExports <;> simp [linesBehind, Function.comp_def]
  rw [← joined, ← lines, render, List.append_assoc]
  rfl

theorem linesBehind_line (hasExports : Bool) (proper : ∀ statement ∈ statements, Statement.Proper statement) :
    ∀ line ∈ linesBehind hasExports statements, Statement.Line line.1 line.2 := by
  refine List.forall_mem_append.mpr ⟨?_, ?_⟩
  · cases hasExports with
    | false => nofun
    | true => simpa using markerLine_line
  · intro line member
    obtain ⟨statement, among, rfl⟩ := List.mem_map.mp member
    exact statement.render_line (proper statement among)

-- Behind a written text, what statements write on new lines.
theorem lines_written {statements : List Statement} (first : Written segments whole words)
    (proper : ∀ statement ∈ statements, Statement.Proper statement) :
    ∃ later, Written later
        (whole ++ broken (statements.map fun statement => (statement.render, statement.words)))
        (words ++ statements.flatMap Statement.words) ∧
      Segment.spelled later = Segment.spelled segments ++ statements.flatMap Statement.spelled := by
  induction statements generalizing segments whole words with
  | nil =>
    refine ⟨segments, ?_, (List.append_nil _).symm⟩
    rwa [List.map_nil, broken, List.flatMap_nil, List.flatMap_nil, List.append_nil, List.append_nil]
  | cons statement statements ih =>
    obtain ⟨here, later⟩ := List.forall_mem_cons.mp proper
    obtain ⟨own, written, words_⟩ := statement.render_written here
    obtain ⟨both, found, spells⟩ := ih (first.lines written) later
    refine ⟨both, ?_, ?_⟩
    · rwa [List.append_assoc, List.append_assoc] at found
    · rw [spells, spelled_append, List.append_assoc]
      exact congrArg (Segment.spelled segments ++ ·) (congrArg (· ++ _) words_)

theorem broken_blocks (behind : ∀ line ∈ lines, Statement.Line line.1 line.2)
    (begins : ∃ word ∈ lines.flatMap Prod.snd, word ∈ Lexer.reserved)
    (reaches : Reaches [] before (broken lines ++ '\n' :: more) statement) : ¬ statement := by
  induction lines generalizing before with
  | nil => simp at begins
  | cons line lines ih =>
    obtain ⟨here, later⟩ := List.forall_mem_cons.mp behind
    obtain ⟨own, written⟩ := here.written
    have parts : broken (line :: lines) ++ '\n' :: more
        = Segment.text (.gap '\n') ++ (line.1 ++ (broken lines ++ '\n' :: more)) := by
      simp [broken, Segment.text]
    rw [parts] at reaches
    have steps : walkStep [] (.gap '\n') = some [] := rfl
    have passed := reaches.pass steps (.inr rfl) trivial (written.notBlank _)
    by_cases first_begins : ∃ word ∈ line.2, word ∈ Lexer.reserved
    · exact here.blocks first_begins passed
    · have allowed : ∀ word ∈ line.2, word ∉ Lexer.reserved := by simpa using first_begins
      obtain ⟨beyond, reached⟩ := passed.written written allowed (broken_head lines more)
      refine ih later ?_ reached
      obtain ⟨word, member, begins⟩ := begins
      rw [List.flatMap_cons, List.mem_append] at member
      rcases member with here' | among
      · exact absurd begins (allowed word here')
      · exact ⟨word, among, begins⟩

-- The words of declarations that stand in a prologue.
def words (statements : List Statement) : List Text := statements.flatMap Statement.words

theorem linesBehind_words (hasExports : Bool) (statements : List Statement) :
    (linesBehind hasExports statements).flatMap Prod.snd = words statements := by
  cases hasExports <;> simp [linesBehind, words, List.flatMap_map]

variable {getters statements : List Statement}

-- All words of a prologue.
def spelled (hasExports : Bool) (statements : List Statement) : List Text :=
  (if hasExports then markerWords else []) ++ statements.flatMap Statement.spelled

theorem render_written (hasExports : Bool)
    (proper : ∀ statement ∈ getters ++ statements, Statement.Proper statement) :
    ∃ segments, Written segments (render hasExports getters statements)
        (words (getters ++ statements)) ∧
      Segment.spelled segments = spelled hasExports (getters ++ statements) := by
  obtain ⟨first, strict, none⟩ := strictLine_written
  rw [render_lines]
  cases hasExports with
  | false =>
    obtain ⟨segments, written, spells⟩ := lines_written strict proper
    rw [none] at spells
    exact ⟨segments, written, spells⟩
  | true =>
    obtain ⟨marker, marked, markers⟩ := markerLine_written
    obtain ⟨segments, written, spells⟩ := lines_written (strict.lines marked) proper
    rw [spelled_append, none] at spells
    rw [List.append_assoc] at written
    exact ⟨segments, written, spells.trans (congrArg (· ++ _) markers)⟩

-- A text behind a prologue parses without declarations exactly if it does so alone and the prologue
-- needs no name that begins a declaration.
theorem render_isPlain (hasExports : Bool)
    (proper : ∀ statement ∈ getters ++ statements, Statement.Proper statement) (more : Text) :
    Syntax.isPlain (render hasExports getters statements ++ '\n' :: more) = true ↔
      (∀ word ∈ words (getters ++ statements), word ∉ Lexer.reserved) ∧
        Syntax.isPlain ('\n' :: more) = true := by
  have reaches := reaches_start (render hasExports getters statements ++ '\n' :: more)
  by_cases allowed : ∀ word ∈ words (getters ++ statements), word ∉ Lexer.reserved
  · obtain ⟨segments, written, _⟩ := render_written hasExports proper
    obtain ⟨passed, reached⟩ := reaches.written written allowed rfl
    rw [reached.line, and_iff_right allowed]
  · have begins : ∃ word ∈ words (getters ++ statements), word ∈ Lexer.reserved := by simpa using allowed
    rw [← linesBehind_words hasExports] at begins
    obtain ⟨segments, strict, _⟩ := strictLine_written
    have lines := linesBehind_line hasExports proper
    rw [render_lines, List.append_assoc] at reaches ⊢
    obtain ⟨passed, reached⟩ := reaches.written strict nofun (broken_head _ more)
    exact ⟨fun plain => absurd plain (broken_blocks lines begins reached), fun both => absurd both.1 allowed⟩

theorem mask_render (hasExports : Bool)
    (proper : ∀ statement ∈ getters ++ statements, Statement.Proper statement) (more : Text) :
    Masking.mask (render hasExports getters statements ++ '\n' :: more)
      = render hasExports getters statements ++ Masking.mask ('\n' :: more) := by
  obtain ⟨segments, written, _⟩ := render_written hasExports proper
  refine written.mask ?_ more
  have strict : strictLine = '"' :: strictLine.tail := by decide
  rw [render_lines, strict]
  nofun

theorem mask_newline (more : Text) : ∃ shown, Masking.mask ('\n' :: more) = '\n' :: shown := by
  obtain ⟨first, shown, blanked, _, parts⟩ := List.forall₂_cons_right_iff.mp (Masking.mask_blanked ('\n' :: more))
  refine ⟨shown, ?_⟩
  rcases blanked with rfl | ⟨_, broken⟩
  · exact parts
  · exact absurd rfl broken

-- The prologue changes nothing about how a module is read on the next line.
theorem mask_render_isPlain (hasExports : Bool)
    (proper : ∀ statement ∈ getters ++ statements, Statement.Proper statement) (more : Text) :
    Syntax.isPlain (Masking.mask (render hasExports getters statements ++ '\n' :: more)) = true ↔
      (∀ word ∈ words (getters ++ statements), word ∉ Lexer.reserved) ∧
        Syntax.isPlain (Masking.mask ('\n' :: more)) = true := by
  obtain ⟨shown, parts⟩ := mask_newline more
  rw [mask_render hasExports proper, parts]
  exact render_isPlain hasExports proper shown

end Prologue
end ModuleBundler
