import ModuleBundler.Proofs.Rewriting.Fixpoint
import ModuleBundler.Proofs.Rewriting.Moved
import ModuleBundler.Proofs.Syntax.LineEnds

/-!
Where a declarator list that is exported ends with its line, and what a semicolon at the end of the line
changes about the names that are exported.
-/
namespace ModuleBundler

namespace Syntax

-- Code that ends with a token. Declarations that are more than code do not say where they end.
def Item.EndsWith (token : Token) : Item → Prop
  | .node code => code.lastToken? = some token
  | .importCall _ arguments => arguments.lastToken? = some token
  | .importMeta _ _ name => name = token
  | _ => True

theorem Machine.attach_ends (machine : Machine) (ends : group.lastToken? = some token) :
    ∃ item items, (machine.attach group).items = item :: items ∧ item.EndsWith token := by
  obtain ⟨items, progress, frames⟩ := machine
  cases progress <;> exact ⟨_, _, rfl, by first | exact ends | trivial⟩

theorem Machine.Begins.ends {machine : Machine} (begun : machine.Begins token next) (closed : next.frames = [])
    (idle : next.progress = .idle afterNode) : ∃ item items, next.items = item :: items ∧ item.EndsWith token := by
  cases begun with
  | leaf => exact ⟨_, _, rfl, rfl⟩
  | group => cases closed
  | «import» | «export» => cases idle

theorem Progress.Takes.ne_idle (taken : Takes token progress longer) : longer ≠ .idle afterNode := by
  cases taken
  all_goals exact nofun

theorem Progress.Completes.ends (completed : Completes token progress item) : item.EndsWith token := by
  cases completed with
  | importMeta => exact rfl
  | _ => trivial

-- Where nothing is open behind a token, it is the last one of an item.
theorem Machine.feed_ends (machine : Machine) (fed : machine.feed token = some next) (closed : next.frames = [])
    (idle : next.progress = .idle afterNode) : ∃ item items, next.items = item :: items ∧ item.EndsWith token := by
  cases feed_step fed with
  | leaf | group | closesInner | opens => cases closed
  | closes =>
    refine attach_ends _ ?_
    simp [Frame.closed, Node.lastToken?, Node.token?]
  | begins _ _ begun => exact begun.ends closed idle
  | takes _ taken => exact absurd idle taken.ne_idle
  | completes _ completed => exact ⟨_, _, rfl, completed.ends⟩
  | follows _ _ begun => exact begun.ends closed idle

end Syntax

namespace Rewriting
open Syntax (Item Machine Comes)

-- An exported declarator list that ends where a text ends, as the parser comes to it in a source: the last
-- token is no punctuator, nothing is open behind it, and there is only code behind the first binding.
structure DeclaratorList (text behind : Text) where
  machine : Machine
  cursor : Cursor
  comes : Comes (Masking.mask (text ++ behind)) machine cursor
  terminal : Terminal
  size : Nat
  read : Lexer.lexeme? machine.expected cursor.before cursor.rest = some (.token terminal size)
  ends : cursor.offset + size = text.length
  unmarked : terminal ≠ .leaf .punctuator
  next : Machine
  fed : machine.feed (cursor.token terminal size) = some next
  closed : next.frames = []
  idle : ∃ afterNode, next.progress = .idle afterNode
  word : Token
  kind : Token
  binding : Node
  -- The code behind the first binding and the items in front of the list, the last ones first.
  more : List Item
  earlier : List Item
  items : next.items = more ++ .export word (.variable kind binding) :: earlier
  code : more.all Item.isCode = true

variable {text behind : Text}

namespace DeclaratorList

def last (list : DeclaratorList text behind) : Token := list.cursor.token list.terminal list.size

-- The names that the scan for declarators finds behind the list where it does not see that the line ends.
def taken (list : DeclaratorList text behind) : List Text :=
  ((items? (text ++ behind)).map fun items =>
    Sibling.trailingNames none false (items.drop list.next.items.length)).getD []

-- Reads on from a place that the parser comes to until the text ends, where a list can end with it.
def readFrom? (text behind : Text) : Nat → (machine : Machine) → (cursor : Cursor) →
    Comes (Masking.mask (text ++ behind)) machine cursor → Option (DeclaratorList text behind)
  | 0, _, _, _ => none
  | fuel + 1, machine, cursor, comes =>
    match read : Lexer.lexeme? machine.expected cursor.before cursor.rest with
    | none => none
    | some (.skipped _) => readFrom? text behind fuel machine _ (comes.skip read)
    | some (.token terminal size) =>
      match fed : machine.feed (cursor.token terminal size) with
      | none => none
      | some next =>
        if ends : cursor.offset + size = text.length then
          match idle : next.progress, split : next.items.dropWhile Item.isCode with
          | .idle _, .export word (.variable kind binding) :: earlier =>
            if settled : terminal ≠ .leaf .punctuator ∧ next.frames.isEmpty = true then
              some { machine, cursor, comes, terminal, size, read, ends, unmarked := settled.1, next, fed,
                     closed := List.isEmpty_iff.mp settled.2, idle := ⟨_, idle⟩, word, kind, binding,
                     more := next.items.takeWhile Item.isCode, earlier,
                     items := split ▸ List.takeWhile_append_dropWhile.symm, code := List.all_takeWhile }
            else none
          | _, _ => none
        else readFrom? text behind fuel next _ (comes.take read fed)

def read? (text behind : Text) : Option (DeclaratorList text behind) :=
  readFrom? text behind text.length _ _ .start

end DeclaratorList

-- Code ends on the line of its last token, and it is a mark only if that token is one.
theorem sibling_ends (code : item.isCode = true) (ends : Item.EndsWith token item) (read : sibling item = .ok found) :
    found.lastLine? = some token.lastLine ∧
      (token.terminal ≠ .leaf .punctuator → found.token?.any (·.terminal == .leaf .punctuator) = false) := by
  cases item with
  | node node =>
    cases read
    refine ⟨congrArg (Option.map Token.lastLine) ends, fun other => ?_⟩
    cases node with
    | leaf =>
      cases ends
      simpa [Sibling.token?, Node.token?] using other
    | group => rfl
  | importCall word arguments =>
    cases read
    exact ⟨congrArg (Option.map Token.lastLine) ends, fun _ => rfl⟩
  | importMeta word dot name =>
    cases read
    cases ends
    exact ⟨rfl, fun _ => rfl⟩
  | importBare | importFrom | «export» => cases code

-- A name on the next line does not go on with what ends with its line.
theorem breaksLine_name {before : Sibling} {word last : Token} (line : before.lastLine? = some last.lastLine)
    (plain : before.token?.any (·.terminal == .leaf .punctuator) = false) (named : word.terminal = .leaf .name)
    (below : last.lastLine < word.line) : Sibling.breaksLine (some before) (.node (.leaf word)) = true := by
  have first : (Sibling.node (.leaf word)).firstLine? = some word.line := rfl
  have token : (Sibling.node (.leaf word)).token? = some word := rfl
  have ended : Sibling.continues before (.node (.leaf word)) = false := by
    simp [Sibling.continues, plain, token, named, Sibling.isGroup, Node.isGroup]
  simp [Sibling.breaksLine, first, line, ended, below]

-- The code of a list, as the scan for declarators sees it.
theorem DeclaratorList.siblings (list : DeclaratorList text behind) :
    ∃ code, siblings? list.more.reverse = some code ∧ (list.more = [] ↔ code = []) ∧ declarations code = [] ∧
      ∀ word : Token, word.terminal = .leaf .name → list.last.lastLine < word.line → list.more ≠ [] →
        Sibling.breaksLine code.getLast? (.node (.leaf word)) = true := by
  have all : list.more.reverse.all Item.isCode = true := by
    rw [List.all_reverse]
    exact list.code
  obtain ⟨code, read⟩ := siblings_of_code all
  have sized := (forall₂_of_mapM read).length_eq
  have reads : siblings? list.more.reverse = some code := by
    rw [siblings?, read]
    rfl
  rw [List.length_reverse] at sized
  refine ⟨code, reads, by rw [← List.length_eq_zero_iff, ← List.length_eq_zero_iff, sized],
    (declarations_eq_nil read).mpr all, ?_⟩
  intro word named below nonempty
  obtain ⟨afterNode, idle⟩ := list.idle
  obtain ⟨item, others, parts, endsWith⟩ := Machine.feed_ends _ list.fed list.closed idle
  obtain ⟨first, rest, more⟩ := List.exists_cons_of_ne_nil nonempty
  have same : item = first := by
    have items := list.items
    rw [more, parts] at items
    exact (List.cons.inj items).1
  subst same
  have plain : item.isCode = true := List.all_eq_true.mp list.code item (more ▸ List.mem_cons_self)
  rw [more, List.reverse_cons, siblings?_append, siblings?_singleton] at reads
  obtain ⟨front, _, tail⟩ := Option.bind_eq_some_iff.mp reads
  obtain ⟨ending, readEnding, rfl⟩ := Option.map_eq_some_iff.mp tail
  obtain ⟨found, here, rfl⟩ := Option.map_eq_some_iff.mp readEnding
  obtain ⟨line, unmarked⟩ := sibling_ends plain endsWith (ok_of_toOption here)
  rw [List.getLast?_concat]
  exact breaksLine_name line (unmarked list.unmarked) named below

theorem DeclaratorList.meaning (list : DeclaratorList text behind) : ∃ parsed,
    siblings? [.export list.word (.variable list.kind list.binding)] = some [.declaration parsed] ∧
      parsed.meaning = .exportsVariables list.binding.boundNames := ⟨_, rfl, rfl⟩

-- What a masked list ends with is what it ends with.
theorem DeclaratorList.solid (list : DeclaratorList text behind) :
    Solid ((Masking.mask (text ++ behind)).take text.length) ∧ Solid text := by
  have blanked := List.forall₂_take_append _ text behind (Masking.mask_blanked (text ++ behind))
  have parts := List.take_append_drop text.length (Masking.mask (text ++ behind))
  generalize (Masking.mask (text ++ behind)).take text.length = shown at blanked parts ⊢
  have sized := blanked.length_eq
  have ends := list.ends
  have read := list.read
  rw [list.comes.within.rest, ← parts, List.drop_append_of_le_length (by omega)] at read
  have size : list.size = (shown.drop list.cursor.offset).length := by
    rw [List.length_drop]
    omega
  rw [size] at read
  have solid := (Lexer.lexeme?_solid read).behind (shown.take list.cursor.offset)
  rw [List.take_append_drop] at solid
  exact ⟨solid, Masking.solid_blanked blanked solid⟩

-- The items of both sources: those of the list, then what begins with the next line, a semicolon in between.
theorem DeclaratorList.items_lineEnd (list : DeclaratorList text ('\n' :: (name ++ rest))) (named : Text.IsName name)
    (free : name ∉ Lexer.reserved) (apart : Masking.NotName rest) :
    ∃ (word semicolon : Token) (later : Option Module), word.terminal = .leaf .name ∧
      list.last.lastLine < word.line ∧ semicolon.isPunctuator [';'] = true ∧
      items? (text ++ '\n' :: (name ++ rest)) = later.bind (fun later =>
        siblings? (list.next.items.reverse ++ .node (.leaf word) :: later.items.map (Item.moved (.lines 0)))) ∧
      items? (text ++ ';' :: '\n' :: (name ++ rest)) = later.bind (fun later =>
        siblings? (list.next.items.reverse ++ .node (.leaf semicolon) :: .node (.leaf (word.moved (.lines 1)))
          :: later.items.map (Item.moved (.lines 1)))) := by
  obtain ⟨solidShown, solid⟩ := list.solid
  obtain ⟨front, hidden, sized, bare, closed⟩ := Masking.mask_lineEnd solid (Masking.spelled_of_isName named) apart
  have comes := list.comes
  rw [bare, ← sized, List.take_left] at solidShown
  rw [bare] at comes
  have apartHidden : Masking.NotName hidden := by
    have blanked := List.forall₂_drop_append _ text _ (Masking.mask_blanked (text ++ '\n' :: (name ++ rest)))
    rw [bare, ← sized, List.drop_left, List.forall₂_cons] at blanked
    have behind := List.forall₂_drop_append _ name rest blanked.2
    rw [List.drop_left] at behind
    exact Masking.notName_blanked behind apart
  obtain ⟨afterNode, idle⟩ := list.idle
  obtain ⟨place, ended, line, first, second⟩ := comes.ends_line solidShown list.read list.fed (list.ends.trans sized.symm)
  obtain ⟨word, semicolon, later, lexed, below, marked, parsed, parsed'⟩ :=
    Syntax.parse_lineEnd ended list.closed idle named free apartHidden first second
  have items : ∀ move base,
      ((later.map (Syntax.onto move base)).bind fun parsed => (parsed.items.mapM sibling).toOption) = later.bind fun later =>
        siblings? (base.reverse ++ later.items.map (Item.moved move)) := by
    intro move base
    cases later <;> rfl
  refine ⟨word, semicolon, later, lexed, ?_, marked, ?_, ?_⟩
  · rw [below, line]
    exact Nat.lt_succ_self _
  · rw [items?, bare, parsed, items]
    simp only [List.reverse_cons, List.append_assoc, List.singleton_append]
  · rw [items?, closed, parsed', items]
    simp only [List.reverse_cons, List.append_assoc, List.cons_append]
    rfl

-- Without a semicolon names can come in, but only behind a list that is one bare binding.
theorem DeclaratorList.exported?_parts (list : DeclaratorList text ('\n' :: (name ++ rest))) (named : Text.IsName name)
    (free : name ∉ Lexer.reserved) (apart : Masking.NotName rest) :
    exported? (text ++ '\n' :: (name ++ rest)) = none ∧ exported? (text ++ ';' :: '\n' :: (name ++ rest)) = none ∨
      ∃ front later, exported? (text ++ '\n' :: (name ++ rest))
          = distinct (front ++ (if list.more = [] then list.taken else []) ++ later) ∧
        exported? (text ++ ';' :: '\n' :: (name ++ rest)) = distinct (front ++ later) := by
  obtain ⟨word, semicolon, later, lexed, below, marked, bare, closed⟩ := list.items_lineEnd named free apart
  obtain ⟨code, reads, bareList, plain, breaks⟩ := list.siblings
  obtain ⟨parsed, readParsed, meaning⟩ := list.meaning
  have base : siblings? list.next.items.reverse = (siblings? list.earlier.reverse).map fun front =>
      front ++ .declaration parsed :: code := by
    rw [list.items, List.reverse_append, List.reverse_cons, siblings?_append, siblings?_append,
      readParsed, reads]
    cases siblings? list.earlier.reverse <;> simp
  have node : ∀ code items, siblings? (.node code :: items) = (siblings? items).map (.node code :: ·) :=
    fun code items => siblings?_cons (.node code) items
  have names : ∀ front tail, exportedNames (front ++ .declaration parsed :: code ++ tail)
      = exportedNames front ++ list.binding.boundNames ++ Sibling.trailingNames none false (code ++ tail)
        ++ exportedNames tail := by
    intro front tail
    rw [List.append_assoc, List.cons_append, exportedNames_split, exportedNames,
      exportedNames_behind plain, meaning]
    simp only [Meaning.exported, Meaning.isList, if_true, List.append_assoc]
  rw [exported?_eq, exported?_eq, closed, DeclaratorList.taken, bare]
  cases later with
  | none => exact .inl ⟨rfl, rfl⟩
  | some later =>
    simp only [Option.bind_some, siblings?_append, base, node, siblings?_moved]
    cases earlier : siblings? list.earlier.reverse with
    | none => exact .inl ⟨rfl, rfl⟩
    | some front =>
      cases behind : siblings? later.items with
      | none => exact .inl ⟨rfl, rfl⟩
      | some rest =>
        have sized : list.next.items.length = (front ++ .declaration parsed :: code).length := by
          rw [earlier] at base
          have length := siblings?_length base
          rw [length, List.length_reverse]
        have ended : Sibling.trailingNames none false (code ++ .node (.leaf semicolon) :: .node (.leaf (word.moved (.lines 1)))
            :: rest.map (Sibling.moved (.lines 1))) = Sibling.trailingNames none false code :=
          Sibling.trailingNames_ends none false code _ (.inl marked)
        refine .inr ⟨exportedNames front ++ list.binding.boundNames ++ Sibling.trailingNames none false code,
          exportedNames rest, ?_, ?_⟩
        · simp only [Option.map_some, Option.bind_some, Option.getD_some, names, sized, List.drop_left]
          have behindName : exportedNames (.node (.leaf word) :: rest.map (Sibling.moved (.lines 0))) = exportedNames rest :=
            exportedNames_moved rest
          rw [behindName]
          split
          · rename_i nothing
            have start : Sibling.trailingNames none false [] = [] := rfl
            rw [bareList.mp nothing, start, List.append_nil, List.nil_append]
          · rename_i more
            have broken : Sibling.breaksLine (code.getLast?.or none) (.node (.leaf word)) = true := by
              rw [Option.or_none]
              exact breaks word lexed below more
            rw [Sibling.trailingNames_ends none false code _ (.inr broken), List.append_nil]
        · have behindName : exportedNames (.node (.leaf semicolon) :: .node (.leaf (word.moved (.lines 1)))
              :: rest.map (Sibling.moved (.lines 1))) = exportedNames rest := exportedNames_moved rest
          simp only [Option.map_some, Option.bind_some, names, ended, behindName]

-- The same names are exported without the semicolon exactly where the list has more than a bare binding, or
-- nothing is taken from the next statement, or where the names already repeat each other with it.
theorem exported_lineEnd (list : DeclaratorList text ('\n' :: (name ++ rest))) (named : Text.IsName name)
    (free : name ∉ Lexer.reserved) (apart : Masking.NotName rest) :
    exported? (text ++ '\n' :: (name ++ rest)) = exported? (text ++ ';' :: '\n' :: (name ++ rest)) ↔
      list.more ≠ [] ∨ list.taken = [] ∨ exported? (text ++ ';' :: '\n' :: (name ++ rest)) = none := by
  rcases list.exported?_parts named free apart with ⟨bare, closed⟩ | ⟨front, later, bare, closed⟩
  · rw [bare, closed]
    exact ⟨fun _ => .inr (.inr rfl), fun _ => rfl⟩
  · rw [bare, closed]
    split
    · rename_i nothing
      have fewer : (front ++ later).Sublist (front ++ list.taken ++ later) :=
        (List.sublist_append_left front list.taken).append_right later
      constructor
      · intro same
        by_cases once : (front ++ later).Nodup
        · have names : front ++ list.taken ++ later = front ++ later := by
            have found : distinct (front ++ later) = some (front ++ later) := if_pos once
            rw [found] at same
            unfold distinct at same
            split at same
            · exact Option.some.inj same
            · cases same
          have length := congrArg List.length names
          simp only [List.length_append] at length
          exact .inr (.inl (List.length_eq_zero_iff.mp (by omega)))
        · exact .inr (.inr (if_neg once))
      · rintro (more | none_ | repeated)
        · exact absurd nothing more
        · rw [none_, List.append_nil]
        · rw [repeated, distinct_fewer fewer repeated]
    · rename_i more
      rw [List.append_nil]
      exact ⟨fun _ => .inl more, fun _ => rfl⟩

-- The next line.
def furtherCode : Text := ",y".toList

def declaredText : Text := "export let x=1".toList

def declaredList : DeclaratorList declaredText ('\n' :: ("foo".toList ++ furtherCode)) :=
  (DeclaratorList.read? _ _).get (by decide +kernel)

theorem declared_lineEnd : declaredList.more ≠ [] ∧
    exported? (declaredText ++ '\n' :: ("foo".toList ++ furtherCode))
      = exported? (declaredText ++ ';' :: '\n' :: ("foo".toList ++ furtherCode)) := by
  have more : declaredList.more ≠ [] := by
    rw [← List.length_pos_iff]
    decide +kernel
  have apart : Masking.NotName furtherCode := by
    rintro c ⟨⟩
    rfl
  exact ⟨more, (exported_lineEnd declaredList (by decide +kernel) (by decide) apart).mpr (.inl more)⟩

-- One bare binding, and what is taken from the next line.
def bareText : Text := "export let x".toList

def bareList : DeclaratorList bareText ('\n' :: ("foo".toList ++ furtherCode)) :=
  (DeclaratorList.read? _ _).get (by decide +kernel)

theorem bare_taken : bareList.more.length = 0 ∧ bareList.taken = [['y']] ∧
    exported? (bareText ++ '\n' :: ("foo".toList ++ furtherCode)) = some [['x'], ['y']] ∧
    exported? (bareText ++ ';' :: '\n' :: ("foo".toList ++ furtherCode)) = some [['x']] := by
  decide +kernel

end Rewriting
end ModuleBundler
