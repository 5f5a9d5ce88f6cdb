import ModuleBundler.Proofs.Rewriting.Positions

/-!
Names of properties: behind a dot, in front of the value of an object's property, and in class bodies. Apart
from a few places where a property is taken for a reference they stay as they are.
-/
namespace ModuleBundler

namespace Lexer
variable {before rest : Text} {expected : List Terminal}

-- A name may be a keyword and a punctuator a mark, where those are expected.
theorem leaf?_terminal (read : leaf? expected before rest kind = some (.token terminal size)) :
    expected.contains (.leaf kind) = true ∧ leafSize? kind before rest = some size ∧
      (terminal = .leaf kind ∨ (∃ word, terminal = .keyword word) ∨ ∃ mark, terminal = .mark mark) := by
  unfold leaf? at read
  split at read
  · rename_i expects
    obtain ⟨length, sized, same⟩ := Option.map_eq_some_iff.mp read
    cases kind with
    | name =>
      obtain ⟨rfl, rfl⟩ := Lexed.token.inj same
      refine ⟨expects, sized, ?_⟩
      unfold nameTerminal
      split
      · exact .inr (.inl ⟨_, rfl⟩)
      · exact .inl rfl
    | punctuator =>
      obtain ⟨rfl, rfl⟩ := Lexed.token.inj same
      refine ⟨expects, sized, ?_⟩
      unfold punctuatorTerminal
      split
      · exact .inr (.inr ⟨_, rfl⟩)
      · exact .inl rfl
    | _ =>
      cases same
      exact ⟨expects, sized, .inl rfl⟩
  · cases read

-- A leaf is read where leaves of its kind are expected.
theorem lexeme?_leaf (read : lexeme? expected before rest = some (.token (.leaf kind) size)) :
    expected.contains (.leaf kind) = true ∧ leafSize? kind before rest = some size := by
  rcases lexeme?_token_cases read with ⟨leaf, readLeaf⟩ | ⟨entry, among, lexed, _⟩
  · obtain ⟨expects, sized, own | ⟨_, word⟩ | ⟨_, mark⟩⟩ := leaf?_terminal readLeaf
    · cases own
      exact ⟨expects, sized⟩
    · cases word
    · cases mark
  · have apart : ∀ entry ∈ spelled, ∀ kind ∈ Leaf.all, entry.1 ≠ .leaf kind := by decide
    exact absurd lexed.symm (apart entry among kind (by cases kind <;> decide))

-- A property name is read together with the dot in front of it.
theorem lexeme?_member (expects : expected.contains (.leaf .member) = true)
    (read : Lexeme.member? rest = some size) : lexeme? expected before rest = some (.token (.leaf .member) size) := by
  have member : leaf? expected before rest .member = some (.token (.leaf .member) size) := by
    rw [leaf?, if_pos expects, leafSize?, read]
    rfl
  have others : leaf? expected before rest .regex = none ∧ ignored? before rest = none ∧
      leaf? expected before rest .name = none := by
    -- No comment, blank, regex or name begins with a dot or a question mark.
    have begins : ∀ c ∈ ['.', '?'], ∀ tail, Lexeme.blanks? (c :: tail) = none ∧ Lexeme.comment? (c :: tail) = none ∧
        Lexeme.hashbang? (c :: tail) = none ∧ Lexeme.name? (c :: tail) = none ∧
        Lexeme.regexBody? (c :: tail) = none := by
      intro c among tail
      simp only [List.mem_cons, List.not_mem_nil, or_false] at among
      rcases among with rfl | rfl
      all_goals exact ⟨rfl, rfl, rfl, rfl, rfl⟩
    obtain ⟨c, tail, rfl, among⟩ : ∃ c tail, rest = c :: tail ∧ c ∈ ['.', '?'] := by
      unfold Lexeme.member? at read
      split at read
      · exact ⟨_, _, rfl, by decide⟩
      · exact ⟨_, _, rfl, by decide⟩
      · cases read
    obtain ⟨blanks, comment, hashbang, name, regex⟩ := begins c among tail
    simp [leaf?, leafSize?, regex?, Lexeme.regex?, ignored?, blanks, comment, hashbang, name, regex]
  simp [lexeme?, others, member]

end Lexer

theorem Lexeme.propertyName?_gap (gapped : ∀ c ∈ gap,
    isMemberGap c = true) (starts : Text.isNameStart c = true)
    (more : Text) : (propertyName? (gap ++ c :: more)).isSome = true := by
  have apart : ∀ d, (c :: more).head? = some d → isMemberGap d = false := by
    rintro d ⟨⟩
    by_contra inside
    have blank := Bool.not_eq_false _ ▸ inside
    simp only [isMemberGap, Bool.or_eq_true, beq_iff_eq] at blank
    rcases blank with ((rfl | rfl) | rfl) | rfl
    all_goals revert starts; decide
  rw [propertyName?, run_append_apart _ _ apart, run_all gapped]
  simp [name?, starts]

namespace Syntax

-- A name behind a dot that is not read together with the dot has more in front of it than blanks and line ends.
theorem Lexes.dot_gap (lexes : Lexes text dot) (lexed : dot.terminal = .leaf .punctuator)
    (spelled : dot.text = ['.'] ∨ dot.text = ['?', '.']) (named : Text.IsName name)
    (behind : name <+: text.drop place) (after : dot.stop ≤ place) :
    ∃ c ∈ text.between dot.stop place, Lexeme.isMemberGap c = false := by
  by_contra only
  have gapped : ∀ c ∈ text.between dot.stop place, Lexeme.isMemberGap c = true := by
    simpa only [not_exists, not_and, Bool.not_eq_false] using only
  obtain ⟨expected, cursor, terminal, size, within, same, read, rfl⟩ := lexes.read
  cases lexed
  obtain ⟨c, letters, rfl, starts, _⟩ := named
  obtain ⟨more, parts⟩ := behind
  have rest : cursor.rest = (cursor.token (.leaf .punctuator) size).text
      ++ (text.between (cursor.token (.leaf .punctuator) size).stop place ++ c :: (letters ++ more)) := by
    rw [← List.cons_append, parts, ← Text.drop_between _ after, within.stop_token,
      ← (within.advance size).rest, Cursor.rest_advance]
    exact (List.take_append_drop size cursor.rest).symm
  have expects := (Lexer.lexeme?_leaf read).1
  have found : (Lexeme.member? cursor.rest).isSome = true := by
    have property := Lexeme.propertyName?_gap gapped starts (letters ++ more)
    rw [rest]
    rcases spelled with dot | dot
    · rw [dot]
      simpa [Lexeme.member?] using property
    · rw [dot]
      simpa [Lexeme.member?] using property
  obtain ⟨length, found⟩ := Option.isSome_iff_exists.mp found
  rw [Lexer.lexeme?_member ((same .member (by decide)).trans expects) found] at read
  cases read

end Syntax

namespace Reference

-- Code between `class` and the body, nearest first: the name and the heritage.
def isHeadPart : Sibling → Bool
  | .declaration _ => false
  | item => !isTerminal item Terminal.openers && !isAnyPunctuator item [";", "=", ",", ":", "=>", "?"]

-- Braces in the heritage hide the word in front of them.
def hidesClass (parts : List Sibling) : Bool :=
  (parts.takeWhile fun item => !item.isWord ["class"]).any (·.isGroup .brace)

def beginsClass : Sibling → Bool
  | .declaration declaration => declaration.opensClass
  | item => item.isWord ["class"]

-- The body of a class. It is overlooked where the head hides its word.
inductive ClassBody : Bool → Setting → Prop where
  | anonymous : ClassBody false .defaultClass
  | headed (parts : ∀ item ∈ head, isHeadPart item = true) (begins : beginsClass item = true) :
      ClassBody (hidesClass head) (.group .brace (head ++ item :: earlier))

theorem opensClassBody_code (code : ∀ declaration, item ≠ .declaration declaration) (earlier : List Sibling) :
    opensClassBody (item :: earlier) =
      if item.isWord ["class"] then true
      else if item.isGroup .brace || isTerminal item Terminal.openers then false
      else if isAnyPunctuator item [";", "=", ",", ":", "=>", "?"] then false
      else opensClassBody earlier := by
  cases item with
  | declaration declaration => exact absurd rfl (code declaration)
  | node | importExpression => rfl

theorem opensClassBody_head (parts : ∀ item ∈ head, isHeadPart item = true) (begins : beginsClass item = true)
    (earlier : List Sibling) : opensClassBody (head ++ item :: earlier) = !hidesClass head := by
  induction head with
  | nil =>
    cases item with
    | declaration => exact begins
    | node node =>
      have code : ∀ declaration, Sibling.node node ≠ .declaration declaration := by
        rintro _ ⟨⟩
      rw [List.nil_append, opensClassBody_code code]
      exact if_pos begins
    | importExpression => cases begins
  | cons part head ih =>
    obtain ⟨own, later⟩ := List.forall_mem_cons.mp parts
    have code : ∀ declaration, part ≠ .declaration declaration := by
      rintro declaration rfl
      cases own
    have plain : isTerminal part Terminal.openers = false ∧ isAnyPunctuator part [";", "=", ",",
      ":", "=>", "?"] = false := by
      cases part with
      | declaration => cases own
      | node | importExpression => simpa [isHeadPart] using own
    rw [List.cons_append, opensClassBody_code code, plain.1, plain.2, ih later, hidesClass,
      hidesClass, Bool.or_false,
      List.takeWhile_cons]
    cases part.isWord ["class"] with
    | true => rfl
    | false => cases group : part.isGroup .brace <;> simp [group]

theorem ClassBody.level (body : ClassBody missed setting) : setting.level = ⟨true, !missed⟩ := by
  cases body with
  | anonymous => rfl
  | headed parts begins => simp [Setting.level, opensClassBody_head parts begins]

def Position.isMethod (position : Position) : Bool :=
  position.behind.head?.any (·.isGroup .paren) && (position.behind.drop 1).head?.any (·.isGroup .brace)

def modifiers : List String := ["static", "get", "set", "async", "accessor"]

-- Words that take the name on the next line for their operand.
def operators : List String := ["new", "typeof", "void", "delete", "await", "yield", "in", "instanceof"]

-- Where the name of a class member stands, by what is in front of it. A sign at the end of the line before is
-- taken for an operator in front of the name.
inductive BeginsMember (name : Token) : Bool → Sibling → Prop where
  | first (opens : isTerminal previous [.opener .brace] = true) : BeginsMember name false previous
  | next (semicolon : previous.isPunctuator ";" = true) : BeginsMember name false previous
  | modified (word : previous.isWord modifiers = true) : BeginsMember name false previous
  | behindBody (body : previous.isGroup .brace = true) : BeginsMember name false previous
  | line (ends : previous.lastLine? = some last) (below : last < name.line)
      (plain : isTerminal previous [.leaf .punctuator] = false) (whole : previous.isWord operators = false) :
      BeginsMember name false previous
  | sign (ends : previous.lastLine? = some last) (below : last < name.line)
      (sign : isAnyPunctuator previous ["++", "--", "/"] = true) : BeginsMember name true previous

-- The places of property names. The flag says where a name is taken for a reference.
inductive PropertyName (position : Position) : Bool → Prop where
  | privateName {previous : Sibling} (front : position.before = previous :: before)
      (sign : previous.isPunctuator "#" = true) : PropertyName position false
  | method (shape : position.isMethod = true) : PropertyName position false
  | member {previous : Sibling} {before : List Sibling} (front : position.before = previous :: before)
      (dot : isAnyPunctuator previous [".", "?."] = true) (other : position.isMethod = false) :
      PropertyName position true
  | importMeta {previous : Sibling} (setting : position.setting = .expression)
      (front : position.before = previous :: before) (dot : isTerminal previous [.mark .dot] = true)
      (last : position.behind = []) : PropertyName position true
  | key {previous next : Sibling} {before behind outer : List Sibling}
      (braces : position.setting = .group .brace outer) (front : position.before = previous :: before)
      (begins : isTerminal previous [.opener .brace] = true ∨ previous.isPunctuator "," = true)
      (back : position.behind = next :: behind) (colon : next.isPunctuator ":" = true) :
      PropertyName position (opensClassBody outer && previous.isPunctuator ",")
  | field {previous : Sibling} {before : List Sibling} {missed misread : Bool}
      (body : ClassBody missed position.setting) (front : position.before = previous :: before)
      (begins : BeginsMember position.token misread previous) (other : position.isMethod = false)
      (keyless : position.behind.head?.any (·.isPunctuator ":") = false) :
      PropertyName position (missed || misread)

-- When a name is replaced at all.
theorem replacement?_isSome (level : Level) (around : Around) (name expression : Text) :
    (replacement? level around name expression).isSome =
      (!(around.before.head?.any (·.isPunctuator "#") ||
          around.following.any (·.isGroup .paren) && around.after.any (·.isGroup .brace)) &&
        if level.inClass then around.before.head?.any fun item =>
          isTerminal item [.leaf .punctuator] && !isAnyPunctuator item [";", "*"]
        else !(level.inBraces && around.before.head?.any (fun item =>
          isTerminal item [.opener .brace] || item.isPunctuator ",") && around.following.any (·.isPunctuator ":"))) := by
  unfold replacement?
  dsimp only
  generalize (around.before.head?.any (·.isPunctuator "#") ||
    around.following.any (·.isGroup .paren) && around.after.any (·.isGroup .brace)) = excluded
  generalize level.inClass = inClass
  cases excluded with
  | true => rfl
  | false =>
    generalize around.before.head?.any (fun item =>
      isTerminal item [.leaf .punctuator] && !isAnyPunctuator item [";", "*"]) = initial
    generalize around.before.head?.any (fun item =>
      isTerminal item [.opener .brace] || item.isPunctuator ",") = begins
    generalize around.following.any (·.isPunctuator ":") = colon
    cases inClass with
    | true => cases initial <;> rfl
    | false =>
      cases level.inBraces <;> cases begins <;> cases colon
      case true.true.false => simp [apply_ite Option.isSome]
      all_goals rfl

section
variable {item : Sibling}

theorem isTerminal_apart (lexed : isTerminal item [terminal] = true) (apart : terminal ≠ other) :
    isTerminal item [other] = false := by
  obtain ⟨token, found, same⟩ := (Option.any_eq_true _ _).mp lexed
  rw [List.contains_iff_mem, List.mem_singleton] at same
  rw [isTerminal, found, Option.any_some, same]
  simpa using apart

theorem isTerminal_punctuator (mark : item.isPunctuator text = true) : isTerminal item [.leaf .punctuator] = true := by
  obtain ⟨token, rfl, lexed⟩ := Sibling.mark_terminal mark
  simp [isTerminal, Sibling.token?, Node.token?, lexed]

theorem isPunctuator_plain (plain : isTerminal item [.leaf .punctuator] = false) (text : String) :
    item.isPunctuator text = false := by
  by_contra mark
  rw [isTerminal_punctuator (Bool.not_eq_false _ ▸ mark)] at plain
  cases plain

theorem isPunctuator_apart (mark : item.isPunctuator text = true) (apart : text ≠ other) :
    item.isPunctuator other = false := by
  obtain ⟨token, found, same⟩ := (Option.any_eq_true _ _).mp mark
  obtain ⟨_, spelled⟩ := Bool.and_eq_true_iff.mp same
  rw [beq_iff_eq] at spelled
  rw [Sibling.isPunctuator, found, Option.any_some, Token.isPunctuator, spelled]
  have distinct : text.toList ≠ other.toList := fun same => apart (String.toList_inj.mp same)
  simp [distinct]

theorem isTerminal_word (word : item.isWord words = true) : isTerminal item [.leaf .name] = true := by
  obtain ⟨token, found, same⟩ := (Option.any_eq_true _ _).mp word
  obtain ⟨named, _⟩ := Bool.and_eq_true_iff.mp same
  rw [Token.isName, beq_iff_eq] at named
  simp [isTerminal, found, named]

theorem isTerminal_group (group : item.isGroup bracket = true) (terminals : List Terminal) :
    isTerminal item terminals = false := by
  cases item with
  | node node =>
    cases node with
    | leaf => cases group
    | group => rfl
  | importExpression | declaration => cases group
end

-- What the check for initial values makes of the sibling in front of a member.
theorem BeginsMember.reads (begins : BeginsMember name misread previous) : previous.isPunctuator "#" = false ∧
    (isTerminal previous [.leaf .punctuator] && !isAnyPunctuator previous [";", "*"]) = misread := by
  have unmarked : isTerminal previous [.leaf .punctuator] = false → previous.isPunctuator "#" = false ∧
      (isTerminal previous [.leaf .punctuator] && !isAnyPunctuator previous [";", "*"]) = false :=
    fun plain => ⟨isPunctuator_plain plain "#", by rw [plain, Bool.false_and]⟩
  cases begins with
  | first opens => exact unmarked (isTerminal_apart opens nofun)
  | next semicolon =>
    refine ⟨isPunctuator_apart semicolon (by decide), ?_⟩
    simp [isAnyPunctuator, semicolon]
  | modified word => exact unmarked (isTerminal_apart (isTerminal_word word) nofun)
  | behindBody body => exact unmarked (isTerminal_group body _)
  | line ends below plain whole => exact unmarked plain
  | sign ends below sign =>
    obtain ⟨text, among, mark⟩ := List.any_eq_true.mp sign
    have apart : ∀ other ∈ ["#", ";", "*"], previous.isPunctuator other = false := by
      have texts : ∀ text ∈ ["++", "--", "/"], ∀ other ∈ ["#", ";", "*"], text ≠ other := by decide
      exact fun other listed => isPunctuator_apart mark (texts text among other listed)
    refine ⟨apart "#" (by decide), ?_⟩
    simp [isTerminal_punctuator mark, isAnyPunctuator, apart ";", apart "*"]

theorem Position.replacement?_isSome (position : Position) (expression : Text) :
    (position.replacement? expression).isSome =
      (!(position.before.head?.any (·.isPunctuator "#") || position.isMethod) &&
        if position.setting.level.inClass then position.before.head?.any fun item =>
          isTerminal item [.leaf .punctuator] && !isAnyPunctuator item [";", "*"]
        else !(position.setting.level.inBraces && position.before.head?.any (fun item =>
          isTerminal item [.opener .brace] || item.isPunctuator ",") &&
            position.behind.head?.any (·.isPunctuator ":"))) :=
  Reference.replacement?_isSome position.setting.level position.around position.token.text expression

theorem PropertyName.replaced (property : PropertyName position overlooked) (expression : Text) :
    (position.replacement? expression).isSome = overlooked := by
  rw [position.replacement?_isSome]
  cases property with
  | privateName front sign => simp [front, sign]
  | method shape => simp [shape]
  | @member previous before front dot other =>
    obtain ⟨text, among, mark⟩ := List.any_eq_true.mp dot
    have apart : ∀ other ∈ ["#", ";", "*", ","], previous.isPunctuator other = false := by
      have texts : ∀ text ∈ [".", "?."], ∀ other ∈ ["#", ";", "*", ","], text ≠ other := by decide
      exact fun other listed => isPunctuator_apart mark (texts text among other listed)
    have punctuator := isTerminal_punctuator mark
    have inner : isTerminal previous [.opener .brace] = false := isTerminal_apart punctuator nofun
    simp [front, other, punctuator, inner, isAnyPunctuator, apart]
  | importMeta setting front dot last =>
    have plain := isPunctuator_plain (isTerminal_apart dot nofun)
    simp [setting, front, last, plain, Position.isMethod, Setting.level]
  | @key previous next before behind outer braces front begins back colon =>
    have ungrouped : next.isGroup .paren = false := by
      by_contra group
      have plain := isTerminal_group (Bool.not_eq_false _ ▸ group) [.leaf .punctuator]
      rw [isTerminal_punctuator colon] at plain
      cases plain
    have other : position.isMethod = false := by simp [Position.isMethod, back, ungrouped]
    rw [braces, front, back, other, Setting.level]
    rcases begins with opens | comma
    · have plain : isTerminal previous [.leaf .punctuator] = false := isTerminal_apart opens nofun
      simp [opens, plain, isPunctuator_plain plain, colon]
    · have apart : ∀ other ∈ ["#", ";", "*"], previous.isPunctuator other = false := by
        have texts : ∀ other ∈ ["#", ";", "*"], "," ≠ other := by decide
        exact fun other listed => isPunctuator_apart comma (texts other listed)
      simp [comma, isTerminal_punctuator comma, isAnyPunctuator, apart, colon]
  | @field previous before missed misread body front begins other keyless =>
    obtain ⟨public_, initial⟩ := begins.reads
    rw [body.level, front, other, keyless]
    cases missed with
    | true => simp [public_]
    | false => simp [public_, initial]

end Reference

namespace Rewriting
open Reference (Position PropertyName positions)
variable {items : List Sibling} {position : Position}

theorem covered_property (analyzed : analyzeSource source = .ok analysis) (read : items? source = some items)
    (among : position ∈ positions [] items) (named : position.token.terminal = .leaf .name)
    (property : PropertyName position overlooked) :
    Covered analysis position.token ↔
      overlooked = true ∧ (analysis.imports.live.lookup position.token.text).isSome = true := by
  obtain ⟨parsed, accepted, _⟩ := analyzeSource_parts analyzed
  have taken := (positions_sublist read accepted).subset (List.mem_map_of_mem among)
  rw [covered_iff analyzed read ((Syntax.parse_lexes _).1 parsed accepted _ taken)]
  have edits : position.edits analysis.imports.live ≠ [] ↔
      overlooked = true ∧ (analysis.imports.live.lookup position.token.text).isSome = true := by
    rw [Position.edits_name named]
    cases looked : analysis.imports.live.lookup position.token.text with
    | none => simp
    | some expression =>
      rw [← property.replaced expression, Option.bind_some]
      cases position.replacement? expression <;> simp
  rw [← edits]
  constructor
  · rintro ⟨other, listed, same, edited⟩
    rwa [position_unique read listed among same] at edited
  · exact fun edited => ⟨position, among, rfl, edited⟩

-- A name that is read together with its dot is never taken for a reference, and more than blanks and line ends
-- stands between a dot and a name that is not. Of the other property names those are replaced that are live
-- and stand where they are overlooked.
theorem property_names (analyzed : analyzeSource source = .ok analysis) (read : items? source = some items) :
    (∀ token, Syntax.Lexes (Masking.mask source) token → token.terminal = .leaf .member → ¬Covered analysis token) ∧
    (∀ position ∈ positions [] items, position.token.terminal = .leaf .name → ∀ dot ahead,
      position.before = .node (.leaf dot) :: ahead → dot.terminal = .leaf .punctuator →
        dot.text = ['.'] ∨ dot.text = ['?', '.'] →
          ∃ c ∈ (Masking.mask source).between dot.stop position.token.start, Lexeme.isMemberGap c = false) ∧
    ∀ position ∈ positions [] items, position.token.terminal = .leaf .name → ∀ overlooked,
      PropertyName position overlooked → (Covered analysis position.token ↔
        overlooked = true ∧ (analysis.imports.live.lookup position.token.text).isSome = true) := by
  refine ⟨?_, ?_, fun position among named overlooked => covered_property analyzed read among named⟩
  · intro token lexes lexed covered
    obtain ⟨position, _, same, edited⟩ := (covered_iff analyzed read lexes).mp covered
    refine edited (Position.edits_other ?_ ?_)
    all_goals
      rw [same, lexed]
      nofun
  · intro position among named dot ahead front lexed spelled
    obtain ⟨lexes, before⟩ := previous_before read among front
    have cut := position_cut read among
    refine lexes.dot_gap lexed spelled (cut.named (.inl named)) ?_ before
    rw [cut.slice]
    exact List.take_prefix _ _

def keySource : Text := "import\x7bx\x7dfrom'./a';(\x7bx:1\x7d).x".toList

-- The key of the object.
def keyPosition : Position where
  setting := .group .brace [.node (leafAt (.opener .paren) "(" 19)]
  before := [.node (leafAt (.opener .brace) "\x7b" 20)]
  token := ⟨.leaf .name, ['x'], 21, 1, 22⟩
  behind := [.node (leafAt (.leaf .punctuator) ":" 22), .node (leafAt (.leaf .number) "1" 23),
    .node (leafAt (.closer .brace) "\x7d" 24)]

theorem key_kept : ∃ analysis, analyzeSource keySource = .ok analysis ∧
    (analysis.imports.live.lookup ['x']).isSome = true ∧ ¬Covered analysis keyPosition.token := by
  have ⟨accepts, listed⟩ : (analyzeSource keySource).toOption.any (fun analysis =>
      (analysis.imports.live.lookup ['x']).isSome) = true ∧
      (items? keySource).any (fun items => (positions [] items).contains keyPosition) = true := by
    unfold keySource
    rw [String.toList_ofList]
    decide +kernel
  obtain ⟨analysis, analyzed, live⟩ := (Option.any_eq_true _ _).mp accepts
  obtain ⟨items, read, among⟩ := (Option.any_eq_true _ _).mp listed
  have key : PropertyName keyPosition
      (Reference.opensClassBody [.node (leafAt (.opener .paren) "(" 19)] &&
        (Sibling.node (leafAt (.opener .brace) "\x7b" 20)).isPunctuator ",") := .key rfl rfl (.inl rfl) rfl rfl
  refine ⟨analysis, ok_of_toOption analyzed, live, fun covered => ?_⟩
  have kept := (property_names (ok_of_toOption analyzed) read).2.2 _ (List.contains_iff_mem.mp among) rfl _ key
  cases (kept.mp covered).1

-- A name with a comment between its dot and itself.
def commentSource : Text := "import\x7bx\x7dfrom'./a';o./**/x".toList

def commentPosition : Position where
  setting := .top
  before := [.node (leafAt (.leaf .punctuator) "." 20), .node (leafAt (.leaf .name) "o" 19),
    .node (leafAt (.leaf .punctuator) ";" 18), importing [['x']] 18]
  token := ⟨.leaf .name, ['x'], 25, 1, 26⟩
  behind := []

theorem comment_replaced : PropertyName commentPosition true ∧
    (items? commentSource).any (fun items => (positions [] items).contains commentPosition) = true ∧
    (analyzeSource commentSource).toOption.map (fun analysis => analysis.edits.map Edit.span) = some [(25, 26)] := by
  refine ⟨.member rfl rfl rfl, ?_⟩
  unfold commentSource
  rw [String.toList_ofList]
  decide +kernel

end Rewriting
end ModuleBundler
