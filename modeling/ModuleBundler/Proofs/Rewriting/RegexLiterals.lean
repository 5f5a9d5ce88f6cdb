import Mathlib.Data.List.Pairwise
import ModuleBundler.Proofs.Rewriting.Capture
import ModuleBundler.Proofs.Syntax.Slashes

/-!
Regex literals of accepted sources. Nothing but the flags of a literal can be taken for a name: its slashes
and its body stay as they are.
-/
namespace ModuleBundler

namespace Lexeme
variable {text : Text}

theorem regexBody?_least (read : regexBody? text = some body) : 3 ≤ body := by
  obtain ⟨c, rest, inner, rfl, plain, readInner, rfl⟩ := regexBody?_opened read
  obtain ⟨_, positive, _⟩ := regexRest?_line readInner
  have ends := regexRest?_last readInner
  by_contra short
  obtain rfl : inner = 1 := by omega
  exact plain (by simp_all)

theorem regexRest?_spaces (count : Nat) (more : Text) :
    regexRest? false (List.replicate count ' ' ++ '/' :: more) = some (count + 1) := by
  induction count with
  | zero => rfl
  | succ count ih =>
    rw [List.replicate_succ, List.cons_append,
      regexRest?.eq_8 _ _ (by simp) (by simp) (by simp) (by simp) (by simp)]
    simp [ih]

theorem regexBody?_spaces (count : Nat) (more : Text) :
    regexBody? ('/' :: (List.replicate (count + 1) ' ' ++ ['/'] ++ more)) = some (count + 3) := by
  rw [List.append_assoc, List.singleton_append, List.replicate_succ, List.cons_append, regexBody?,
    if_neg (by decide),
    ← List.cons_append, ← List.replicate_succ, regexRest?_spaces]
  rfl

theorem regexBody?_slashes {behind : Text} (read : regexBody? (text ++ behind) = some body)
    (bounded : body ≤ text.length) :
    text.take 1 = ['/'] ∧ text.drop (body - 1) = '/' :: text.drop body := by
  have least := regexBody?_least read
  have ends := regexBody?_last read
  rw [List.take_append_of_le_length bounded] at ends
  constructor
  · cases text with
    | nil => exact absurd (Nat.le_trans least bounded) (by decide)
    | cons c text =>
      rw [List.cons_append] at read
      by_cases slash : c = '/'
      · rw [slash]
        rfl
      · rw [regexBody?.eq_2 _ (by simp [slash])] at read
        cases read
  · obtain ⟨inner, closed⟩ := List.getLast?_eq_some_iff.mp ends
    have length := congrArg List.length closed
    rw [List.length_take, List.length_append, List.length_singleton, Nat.min_eq_left bounded] at length
    have parts := List.take_append_drop body text
    rw [closed, List.append_assoc] at parts
    conv_lhs => rw [← parts, List.drop_left' (by omega)]
    rfl

theorem run_prefix (within : Char → Bool) (text more : Text) : run within text ≤ run within (text ++ more) := by
  induction text with
  | nil => exact Nat.zero_le _
  | cons c text ih =>
    rw [List.cons_append, run, run]
    split
    · exact Nat.succ_le_succ ih
    · exact Nat.le_refl 0

end Lexeme

namespace Masking
open Lexeme

-- A regex literal of a source, from its opening slash through its flags.
structure RegexLiteral (source : Text) where
  front : List Piece
  body : Nat
  text : Text
  later : List Piece
  parted : pieces source = front ++ ⟨.regex body, text⟩ :: later

namespace RegexLiteral
variable {source : Text} (literal : RegexLiteral source)

def start : Nat := (literal.front.flatMap Piece.text).length

-- Where the flags begin.
def closed : Nat := literal.start + literal.body

def flags : Text := literal.text.drop literal.body

def stop : Nat := literal.start + literal.text.length

-- What the masked source shows of a literal: slashes, spaces and flags.
theorem shown : ∃ count, literal.body = count + 3 ∧ literal.body ≤ literal.text.length ∧
    (mask source).take literal.start = literal.front.flatMap Piece.masked ∧
    (mask source).drop literal.start = '/' :: (List.replicate (count + 1) ' ' ++ ['/'])
      ++ (literal.flags ++ literal.later.flatMap Piece.masked) := by
  obtain ⟨front, body, text, later, parted⟩ := literal
  have sized := length_masked parted
  rcases pieces_split parted with ⟨_, hashbang⟩ | ⟨_, readBody, size⟩
  · cases hashbang
  · rw [List.flatMap_cons] at readBody size
    dsimp only [start, flags] at readBody size ⊢
    obtain ⟨opening, closing⟩ := regexBody?_slashes readBody (by omega)
    obtain ⟨count, rfl⟩ := Nat.exists_eq_add_of_le' (regexBody?_least readBody)
    rw [show count + 3 - 1 = count + 2 from rfl] at closing
    refine ⟨count, rfl, by omega, ?_, ?_⟩
    · rw [mask, parted, List.flatMap_append, ← sized, List.take_left]
    · rw [mask, parted, List.flatMap_append, ← sized, List.drop_left, List.flatMap_cons]
      simp [Piece.masked, opening, closing]

theorem closed_after : literal.start < literal.closed := by
  obtain ⟨count, body, _⟩ := literal.shown
  rw [closed, body]
  omega

-- In front of its flags no character of it can stand in a name.
theorem nameless (after : literal.start ≤ place) (before : place < literal.closed) :
    ∃ c, (mask source)[place]? = some c ∧ Text.isNameChar c = false := by
  obtain ⟨count, body, _, _, shown⟩ := literal.shown
  obtain ⟨inner, rfl⟩ := Nat.exists_eq_add_of_le after
  have sized : ('/' :: (List.replicate (count + 1) ' ' ++ ['/'])).length = count + 3 := by simp
  have plain : ∀ c ∈ '/' :: (List.replicate (count + 1) ' ' ++ ['/']), Text.isNameChar c = false := by
    intro c among
    simp only [List.mem_cons, List.mem_append, List.mem_replicate, List.not_mem_nil, or_false] at among
    rcases among with rfl | ⟨_, rfl⟩ | rfl
    all_goals decide
  have within : inner < ('/' :: (List.replicate (count + 1) ' ' ++ ['/'])).length := by
    rw [closed] at before
    omega
  rw [← List.getElem?_drop, shown, List.getElem?_append_left within]
  exact ⟨_, List.getElem?_eq_getElem within, plain _ (List.getElem_mem within)⟩

-- A token that begins at a literal and has the mark or the word of an operand in front of it takes in the
-- body and all flags that are lower-case letters.
theorem token_reach (lexes : Syntax.Lexes (mask source) token) (here : token.start = literal.start)
    (operand : Lexer.operandExpected ((mask source).take literal.start).reverse = true) :
    token.terminal = .leaf .regex ∧ literal.closed + run Lexer.isFlag literal.flags ≤ token.stop := by
  obtain ⟨count, body, _, _, shown⟩ := literal.shown
  rw [List.cons_append, ← here] at shown
  have readBody := regexBody?_spaces count (literal.flags ++ literal.later.flatMap Piece.masked)
  obtain ⟨regex, _, reach⟩ := lexes.slash shown rfl
  have terminal := regex.mpr ⟨here ▸ operand, by rw [readBody]; rfl⟩
  obtain ⟨size, read, cut⟩ := reach terminal
  rw [regex?, readBody, Option.map_some, Option.some.injEq] at read
  have flags := run_prefix Lexer.isFlag literal.flags (literal.later.flatMap Piece.masked)
  have bounded := run_le Lexer.isFlag (literal.flags ++ literal.later.flatMap Piece.masked)
  have behind : ('/' :: (List.replicate (count + 1) ' ' ++ ['/']
      ++ (literal.flags ++ literal.later.flatMap Piece.masked))).drop (count + 3)
        = literal.flags ++ literal.later.flatMap Piece.masked := by
    rw [List.drop_succ_cons, List.drop_left' (by simp)]
  rw [behind] at read
  have length := congrArg List.length cut
  simp only [List.length_take, List.length_cons, List.length_append, List.length_replicate,
    List.length_nil] at length
  rw [List.length_append] at bounded
  refine ⟨terminal, ?_⟩
  rw [closed, body, Token.stop, ← here]
  omega

end RegexLiteral
end Masking

namespace Reference
variable {source : Text} {live : LiveBindings} {edit : Edit} {token : Token}

-- An edit lies in one token, a name or a template.
structure Within (edit : Edit) (token : Token) : Prop where
  readable : token.terminal = .leaf .name ∨ token.terminal = .leaf .template
  after : token.start ≤ edit.start
  proper : edit.start < edit.stop
  before : edit.stop ≤ token.stop

theorem leafEdits_within (unbroken : Unbroken live) (cut : token.CutFrom source)
    (among : edit ∈ leafEdits live level around token) : Within edit token := by
  have fit : Edit.Fit source token.start token.stop (leafEdits live level around token) := leafEdits_fit unbroken cut
  obtain ⟨after, proper, before⟩ := fit.ordered.bounds edit.span (List.mem_map_of_mem among)
  refine ⟨?_, after, proper, before⟩
  unfold leafEdits at among
  split at among
  · rename_i template
    exact .inr template
  · rename_i name
    exact .inl name
  · cases among

end Reference

-- What an edit takes out holds every character between its ends.
theorem Edit.mem_removed (edit : Edit) (after : edit.start ≤ place) (before : place < edit.stop)
    (here : source[place]? = some c) :
    c ∈ edit.removed source := by
  obtain ⟨inner, rfl⟩ := Nat.exists_eq_add_of_le after
  refine List.mem_of_getElem? (i := inner) ?_
  rw [Edit.removed, List.getElem?_take_of_lt (by omega), List.getElem?_drop, here]

def Token.Apart (token other : Token) : Prop := token.stop ≤ other.start ∨ other.stop ≤ token.start

instance : Std.Symm Token.Apart := ⟨fun _ _ => Or.symm⟩

-- Two tokens of a text do not overlap.
theorem Syntax.Laid.apart (laid : Laid text low high tokens) (among : token ∈ tokens) (listed : other ∈ tokens)
    (distinct : token ≠ other) : token.Apart other := by
  have pairs : tokens.Pairwise Token.Apart :=
    (List.pairwise_map.mp laid.ordered.pairwise).imp fun before => .inl before
  exact pairs.forall among listed distinct

namespace Rewriting
open Masking

-- An edit that overlaps a regex literal takes a live name out of its flags: all of them may be taken for a
-- name where the lexer does not read the literal, and those behind the lower-case ones where it does.
theorem regex_edits (analyzed : analyzeSource source = .ok analysis) (literal : RegexLiteral source)
    (among : edit ∈ analysis.edits) :
    edit.stop ≤ literal.start ∨ literal.stop ≤ edit.start ∨
      ((analysis.imports.live.lookup (edit.removed source)).isSome = true ∧ literal.closed ≤ edit.start ∧
        ((∃ token, Syntax.Lexes (mask source) token ∧ token.start = literal.start) →
          Lexer.operandExpected ((mask source).take literal.start).reverse = true →
            literal.closed + Lexeme.run Lexer.isFlag literal.flags ≤ edit.start)) := by
  by_cases ahead : edit.stop ≤ literal.start
  · exact .inl ahead
  by_cases past : literal.stop ≤ edit.start
  · exact .inr (.inl past)
  obtain ⟨parsed, accepted, meant⟩ := analyzeSource_parts analyzed
  obtain ⟨items, read, _, imports, _, edits⟩ := analyze_parts meant
  have laid := Syntax.parse_laid accepted
  have covers := items_covers read
  rcases edits with none_ | edits
  · rw [none_] at among
    cases among
  · rw [edits] at among
    obtain ⟨token, listed, level, around, made⟩ := Reference.edits_leaf [] covers edit among
    rw [← List.flatMap_def] at listed
    have within := Reference.leafEdits_within (imports ▸ Prologue.imports_unbroken _ _) (laid.cut token listed) made
    have replaces := Reference.leafEdits_replace (laid.cut token listed) made
    have behind : literal.closed ≤ edit.start := by
      by_contra inside
      have opened := literal.closed_after
      obtain ⟨c, here, plain⟩ := literal.nameless (Nat.le_max_right edit.start literal.start) (by omega)
      have proper := within.proper
      have taken := edit.mem_removed (by omega) (by omega) here
      exact Bool.false_ne_true (plain.symm.trans (replaces.named c taken))
    refine .inr (.inr ⟨replaces.unmask.isLive, behind, ?_⟩)
    rintro ⟨other, lexes, here⟩ operand
    obtain ⟨terminal, reach⟩ := literal.token_reach lexes here operand
    have apart : token ≠ other := by
      rintro rfl
      rcases within.readable with name | template
      · rw [terminal] at name
        cases name
      · rw [terminal] at template
        cases template
    obtain ⟨_, after, proper, before⟩ := within
    rcases laid.apart listed (lexes.taken accepted) apart with earlier | later
    · omega
    · exact Nat.le_trans reach (Nat.le_trans later after)

def importedFlag : List Piece := [⟨.word, "import".toList⟩, ⟨.mark, ['\x7b']⟩, ⟨.word, ['g']⟩,
    ⟨.mark, ['\x7d']⟩,
  ⟨.word, "from".toList⟩, ⟨.literal, "'./a'".toList⟩, ⟨.mark, [';']⟩]

-- A literal behind a mark that the lexer looks back at.
def assignedSource : Text := "import\x7bg\x7dfrom'./a';x=/a/g;g".toList

def assignedLiteral : RegexLiteral assignedSource where
  front := importedFlag ++ [⟨.word, ['x']⟩, ⟨.mark, ['=']⟩]
  body := 3
  text := "/a/g".toList
  later := [⟨.mark, [';']⟩, ⟨.word, ['g']⟩]
  parted := by decide +kernel

theorem assigned_kept : ∃ analysis, analyzeSource assignedSource = .ok analysis ∧ analysis.edits ≠ [] ∧
    ∀ edit ∈ analysis.edits, edit.stop ≤ assignedLiteral.start ∨ assignedLiteral.stop ≤ edit.start := by
  have accepts : (analyzeSource assignedSource).toOption.map (fun analysis => analysis.edits.isEmpty)
      = some false := by
    unfold assignedSource
    rw [String.toList_ofList]
    decide +kernel
  have ⟨read, operand⟩ :
      Syntax.leafAt? assignedSource assignedLiteral.start = some ⟨.leaf .regex, "/ /g".toList, 21, 1, 22⟩ ∧
      Lexer.operandExpected ((mask assignedSource).take assignedLiteral.start).reverse = true := by
    decide +kernel
  obtain ⟨analysis, analyzed, edited⟩ := ok_of_toOption_map accepts
  refine ⟨analysis, analyzed, List.isEmpty_eq_false_iff.mp edited, fun edit among => ?_⟩
  rcases regex_edits analyzed assignedLiteral among with ahead | behind | ⟨_, _, unread⟩
  · exact .inl ahead
  · exact .inr behind
  · exact .inr (unread ⟨_, Syntax.lexes_leafAt read⟩ operand)

-- Behind the head of a condition the lexer takes the slash for a division sign, and the flag for a name.
def conditionSource : Text := "import\x7bg\x7dfrom'./a';if(x)/a/g.test(y)".toList

def conditionLiteral : RegexLiteral conditionSource where
  front := importedFlag ++ [⟨.word, "if".toList⟩, ⟨.mark, ['(']⟩, ⟨.word, ['x']⟩, ⟨.mark, [')']⟩]
  body := 3
  text := "/a/g".toList
  later := [⟨.mark, ['.']⟩, ⟨.word, "test".toList⟩, ⟨.mark, ['(']⟩, ⟨.word, ['y']⟩, ⟨.mark, [')']⟩]
  parted := by decide +kernel

theorem condition_edited : (conditionLiteral.start, conditionLiteral.stop) = (24, 28) ∧
    (analyzeSource conditionSource).toOption.map (fun analysis => analysis.edits.map Edit.span) = some [(27, 28)] := by
  refine ⟨by decide +kernel, ?_⟩
  unfold conditionSource
  rw [String.toList_ofList]
  decide +kernel

end Rewriting
end ModuleBundler
