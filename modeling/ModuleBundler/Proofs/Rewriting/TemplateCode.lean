import ModuleBundler.Proofs.Masking.Blanks
import ModuleBundler.Proofs.Masking.LineEnds
import ModuleBundler.Proofs.Rewriting.NamePlaces
import ModuleBundler.Proofs.Rewriting.Separation
import ModuleBundler.Proofs.Rewriting.Substitutions
import ModuleBundler.Proofs.Syntax.Formed

/-!
The code of a substitution and the same text in parentheses: where the names that are replaced in the one are
those that are replaced in the other.
-/
namespace ModuleBundler

def Edit.moved (far : Nat) (edit : Edit) : Edit := ⟨edit.start + far, edit.stop + far, edit.text⟩

theorem Edit.moved_injective (far : Nat) : Function.Injective (Edit.moved far) := by
  rintro ⟨start, stop, text⟩ ⟨start', stop', text'⟩ same
  simpa [Edit.moved] using same

def Edit.Before (edit other : Edit) : Prop := edit.start < other.start

instance : Std.Irrefl Edit.Before := ⟨fun _ => Nat.lt_irrefl _⟩

instance : Std.Antisymm Edit.Before := ⟨fun _ _ before after => absurd before (Nat.lt_asymm after)⟩

theorem Edit.Fit.sorted (fit : Edit.Fit source low high edits) : edits.Pairwise Edit.Before := by
  have bounds := fun edit among => (fit.ordered.bounds (Edit.span edit) (List.mem_map_of_mem among)).2.1
  refine (List.pairwise_map.mp fit.ordered.pairwise).imp_of_mem fun among _ before => ?_
  exact Nat.lt_of_lt_of_le (bounds _ among) before

namespace Reference

-- A text in parentheses.
def parenthesized (body : Text) : Text := '(' :: (body ++ [')'])

variable {live : LiveBindings} {body : Text} {place : Nat} {name : Text}

-- A name of the text is one of the text in parentheses.
theorem nameAt_parenthesized :
    NameAt none 1 body (place, name) ↔ NameAt none 0 (parenthesized body) (place, name) := by
  have opener : ∀ last : Option Char, (last.or none).any glues = (last.or (some '(')).any glues := by
    rintro (_ | last)
    · rfl
    · rfl
  constructor
  · intro nameAt
    cases nameAt with
    | @mk _ back front word apart ends =>
      refine NameAt.cons ?_
      rw [List.append_assoc, List.append_assoc]
      refine .mk front word (opener _ ▸ apart) ?_
      cases back with
      | nil =>
        rintro c ⟨⟩
        rfl
      | cons d back => exact ends
  · intro nameAt
    rcases nameAt.split with ⟨_, starts, _⟩ | later
    · exact absurd starts (by decide)
    · generalize whole : body ++ [')'] = text at later
      cases later with
      | @mk _ back front word apart ends =>
        rcases List.eq_nil_or_concat back with rfl | ⟨inner, last, rfl⟩
        · rcases List.eq_nil_or_concat name with rfl | ⟨letters, last, rfl⟩
          · obtain ⟨_, _, nothing, _⟩ := word
            cases nothing
          · rw [List.append_nil, List.concat_eq_append, ← List.append_assoc] at whole
            obtain ⟨_, closer⟩ := List.append_inj' whole rfl
            cases closer
            exact absurd (word.chars ')' (by simp)) (by decide)
        · rw [List.concat_eq_append, ← List.append_assoc, ← List.append_assoc] at whole
          obtain ⟨rfl, _⟩ := List.append_inj' whole rfl
          rw [List.append_assoc]
          refine .mk front word (opener _ ▸ apart) ?_
          cases inner with
          | nil => nofun
          | cons d inner => exact ends

theorem mem_parenthesized :
    (place, name) ∈ namesIn none 1 0 body ↔ NameAt none 0 (parenthesized body) (place, name) :=
  (mem_namesIn (Nat.zero_le _) fun some_ => absurd rfl some_).trans nameAt_parenthesized

theorem namesIn_moved (before : Option Char) (offset covered far : Nat) (text : Text) :
    namesIn before (offset + far) covered text
      = (namesIn before offset covered text).map fun found => (found.1 + far, found.2) := by
  fun_induction namesIn before offset covered text with
  | case1 => simp [namesIn]
  | case2 before offset c rest covered ih => rw [namesIn, Nat.add_right_comm, ih]
  | case3 before offset c rest begins starts more ih =>
    conv_lhs => unfold namesIn
    dsimp only
    rw [if_pos starts, Nat.add_right_comm, ih]
    rfl
  | case4 before offset c rest begins starts ih =>
    conv_lhs => unfold namesIn
    dsimp only
    rw [if_neg starts, Nat.add_right_comm, ih]

theorem nameEdits_moved (live : LiveBindings) (offset far : Nat) (text : Text) :
    (namesIn none (offset + far) 0 text).filterMap (nameEdit? live)
      = ((namesIn none offset 0 text).filterMap (nameEdit? live)).map (Edit.moved far) := by
  rw [namesIn_moved, List.filterMap_map, List.map_filterMap]
  congr 1
  funext found
  simp only [Function.comp_apply, nameEdit?, Option.map_map]
  refine congrArg (fun edit => Option.map edit (live.lookup found.2)) (funext fun expression => ?_)
  simp [Edit.moved, Nat.add_right_comm]

end Reference

namespace Masking
open Reference (NameAt nameAt_iff glues)

variable {source seen original : Text} {place : Nat} {name : Text}

theorem mem_blanked (blanked : List.Forall₂ Blanked seen original) (listed : c ∈ seen) (visible : c ≠ ' ') :
    c ∈ original := by
  induction blanked with
  | nil => cases listed
  | @cons shown own _ _ here _ ih =>
    rcases List.mem_cons.mp listed with rfl | later
    · exact here.visible visible ▸ List.mem_cons_self
    · exact List.mem_cons_of_mem _ (ih later)

theorem apart_blanked (blanked : List.Forall₂ Blanked seen original)
    (apart : original.getLast?.any glues = false) : seen.getLast?.any glues = false := by
  rw [List.getLast?_eq_head?_reverse] at apart ⊢
  have turned := List.forall₂_reverse_iff.mpr blanked
  generalize seen.reverse = shown, original.reverse = hidden at turned apart
  cases turned with
  | nil => rfl
  | cons here _ =>
    rcases here with rfl | ⟨rfl, _⟩
    · exact apart
    · rfl

-- A name of a source that the mask shows is a name of the mask.
theorem nameAt_shown (nameAt : NameAt none 0 source (place, name))
    (shown : Text.startsWith ((mask source).drop place) name = true) : NameAt none 0 (mask source) (place, name) := by
  obtain ⟨word, ⟨back, behind, ends⟩, apart⟩ := nameAt_iff.mp nameAt
  obtain ⟨rest, parts⟩ := List.isPrefixOf_iff_prefix.mp shown
  have later := List.forall₂_drop place (mask_blanked source)
  rw [behind, ← parts] at later
  have tail := List.forall₂_drop name.length later
  rw [List.drop_left, List.drop_left] at tail
  exact nameAt_iff.mpr ⟨word, ⟨rest, parts.symm, notName_blanked tail ends⟩,
    apart_blanked (List.forall₂_take place (mask_blanked source)) apart⟩

-- Where the parser reads a name, the name stands in the source.
theorem name_stands (lexes : Syntax.Lexes (mask source) token) (cut : token.CutFrom (mask source))
    (named : token.terminal = .leaf .name) :
    ∃ back, source.drop token.start = token.text ++ back ∧ NotName back := by
  obtain ⟨before, veiled⟩ := (mask_veiled ' ' source).drop token.start
  rw [Syntax.drop_token cut] at veiled
  obtain ⟨back, parts, heads⟩ := veiled.name (cut.named (.inl named)).chars (.inl cut.nonempty)
  refine ⟨back, parts, ?_⟩
  unfold NotName
  rw [heads]
  exact lexes.name_ends named

end Masking

namespace Rewriting
open Reference

-- Nothing but blanks stands between the tokens.
def bare (text : Text) (tokens : List Token) : Bool :=
  text.zipIdx.all fun (c, place) =>
    Text.isBlank c || tokens.any fun token => token.start ≤ place && place < token.stop

-- A text that is code in parentheses, without comments.
structure InParentheses (body : Text) (node : Node) : Prop where
  read : items? (parenthesized body) = some [.node node]
  bare : bare (Masking.mask (parenthesized body)) ((positions [] [.node node]).map Position.token) = true

instance (body : Text) (node : Node) : Decidable (InParentheses body node) :=
  decidable_of_iff (_ ∧ _) ⟨fun both => ⟨both.1, both.2⟩, fun inside => ⟨inside.read, inside.bare⟩⟩

-- A place where no name of a template begins.
def glued (text : Text) (place : Nat) : Bool := (text.take place).getLast?.any glues

-- Where the code of a substitution is rewritten as it is in parentheses: a live name that is glued to what is
-- in front of it is no reference there, each other one is replaced by its expression alone; and no live name is
-- found in the name of a property or in a regex.
structure Agrees (live : LiveBindings) (body : Text) (node : Node) : Prop where
  names : ∀ position ∈ positions [] [.node node], position.token.isName = true →
    ∀ expression ∈ live.lookup position.token.text, position.replacement? expression
      = if glued (parenthesized body) position.token.start then none else some expression
  words : ∀ found ∈ namesIn none 1 0 body, (live.lookup found.2).isSome = true →
    Text.startsWith ((Masking.mask (parenthesized body)).drop found.1) found.2 = true ∧
      ∀ position ∈ positions [] [.node node], position.token.start ≤ found.1 → found.1 < position.token.stop →
        position.token.terminal ∉ [.leaf .member, .leaf .regex]

instance (live : LiveBindings) (body : Text) (node : Node) : Decidable (Agrees live body node) :=
  decidable_of_iff (_ ∧ _) ⟨fun both => ⟨both.1, both.2⟩, fun agrees => ⟨agrees.names, agrees.words⟩⟩

variable {live : LiveBindings} {body : Text} {place : Nat} {node : Node} {position : Position}

theorem positions_node (node : Node) : (positions [] [.node node]).map Position.token = node.tokens := by
  rw [positions, positions, List.append_nil]
  exact nodePositions_tokens .top [] [] node

namespace InParentheses

theorem reads (inside : InParentheses body node) (listed : token ∈ node.tokens) :
    Syntax.Lexes (Masking.mask (parenthesized body)) token ∧ token.CutFrom (Masking.mask (parenthesized body)) ∧
      token.terminal ∈ Terminal.inner ++ Terminal.closers := by
  obtain ⟨parsed, accepted, found⟩ := items?_parts inside.read
  obtain ⟨item, rest, same, none_, parts⟩ := List.forall₂_cons_right_iff.mp (forall₂_of_mapM found)
  cases none_
  cases sibling_node same
  have taken : token ∈ parsed.items.flatMap Syntax.Item.tokens := by
    rw [parts]
    simpa using listed
  have formed := Syntax.parse_formed accepted (.node node) (parts ▸ List.mem_cons_self)
  exact ⟨(Syntax.parse_lexes _).1 parsed accepted token taken, (Syntax.parse_laid accepted).cut token taken,
    (formed node (by simp [Syntax.Item.nodes])).terminal token listed⟩

theorem laid (inside : InParentheses body node) :
    Syntax.Laid (Masking.mask (parenthesized body)) 0 (Masking.mask (parenthesized body)).length node.tokens := by
  rw [← positions_node]
  exact positions_laid inside.read

theorem covered (inside : InParentheses body node) {c : Char} {more : Text}
    (here : (Masking.mask (parenthesized body)).drop place = c :: more) (visible : Text.isBlank c = false) :
    ∃ position ∈ positions [] [.node node], position.token.start ≤ place ∧ place < position.token.stop := by
  have listed : (c, place) ∈ (Masking.mask (parenthesized body)).zipIdx := by
    rw [List.mem_zipIdx_iff_getElem?]
    have first := congrArg List.head? here
    rwa [List.head?_drop] at first
  have shown := List.all_eq_true.mp inside.bare _ listed
  dsimp only at shown
  rw [visible, Bool.false_or, List.any_map, List.any_eq_true] at shown
  obtain ⟨position, among, within⟩ := shown
  rw [Function.comp_apply, Bool.and_eq_true, decide_eq_true_eq, decide_eq_true_eq] at within
  exact ⟨position, among, within⟩

end InParentheses

theorem includes_mem (listed : c ∈ text) : Text.includes [c] text = true := by
  induction text with
  | nil => cases listed
  | cons d rest ih =>
    rw [Text.includes, Bool.or_eq_true]
    rcases List.mem_cons.mp listed with rfl | later
    · exact .inl (by simp [Text.startsWith])
    · exact .inr (ih later)

theorem unquoted (plain : isPlainCode body = true) :
    ∀ quote ∈ ['"', '\'', '\x60'], quote ∉ Masking.mask (parenthesized body) := by
  intro quote among listed
  have signs : ∀ quote ∈ ['"', '\'', '\x60'], quote ≠ ' ' ∧ quote ≠ '(' ∧ quote ≠ ')' ∧
      [quote] ∈ ["\"", "'", "\x60", "=>", "function"].map String.toList := by decide
  obtain ⟨visible, opener, closer, sign⟩ := signs quote among
  have own := Masking.mem_blanked (Masking.mask_blanked _) listed visible
  rw [parenthesized, List.mem_cons, List.mem_append, List.mem_singleton] at own
  have inner : quote ∈ body := (own.resolve_left opener).resolve_right closer
  obtain ⟨text, marks, same⟩ := List.mem_map.mp sign
  have absent := List.any_eq_false.mp ((Bool.not_eq_true' _).mp plain) text marks
  rw [same] at absent
  exact absent (includes_mem inner)

-- Where the text of a substitution finds a live name.
theorem mem_names : edit ∈ (namesIn none 1 0 body).filterMap (nameEdit? live) ↔
    ∃ place name, NameAt none 0 (parenthesized body) (place, name) ∧ ∃ expression ∈ live.lookup name,
      edit = ⟨place, place + name.length, expression⟩ := by
  rw [List.mem_filterMap]
  constructor
  · rintro ⟨⟨place, name⟩, listed, made⟩
    obtain ⟨expression, looked, rfl⟩ := Option.map_eq_some_iff.mp made
    exact ⟨place, name, mem_parenthesized.mp listed, expression, looked, rfl⟩
  · rintro ⟨place, name, nameAt, expression, looked, rfl⟩
    exact ⟨(place, name), mem_parenthesized.mpr nameAt, Option.map_eq_some_iff.mpr ⟨expression, looked, rfl⟩⟩

namespace InParentheses

theorem listed (among : position ∈ positions [] [.node node]) : position.token ∈ node.tokens :=
  positions_node node ▸ List.mem_map_of_mem among

-- The edits of code without literals are those of its names.
theorem mem_edits (inside : InParentheses body node) (plain : isPlainCode body = true) :
    edit ∈ Reference.edits live [] [.node node] ↔ ∃ position ∈ positions [] [.node node],
      position.token.isName = true ∧ ∃ expression ∈ live.lookup position.token.text,
        ∃ text ∈ position.replacement? expression, edit = ⟨position.token.start,
          position.token.stop, text⟩ := by
  rw [edits_positions, List.mem_flatMap]
  refine exists_congr fun position => and_congr_right fun among => ?_
  by_cases named : position.token.terminal = .leaf .name
  · rw [Position.edits_name named, Option.mem_toList, Option.map_eq_some_iff]
    simp only [Option.bind_eq_some_iff, Token.isName, named, Option.mem_def, beq_self_eq_true, true_and]
    constructor
    · rintro ⟨text, ⟨expression, looked, replaced⟩, rfl⟩
      exact ⟨expression, looked, text, replaced, rfl⟩
    · rintro ⟨expression, looked, text, replaced, rfl⟩
      exact ⟨text, ⟨expression, looked, replaced⟩, rfl⟩
  · obtain ⟨lexes, cut, _⟩ := inside.reads (listed among)
    have other : position.token.terminal ≠ .leaf .template := fun template =>
      Syntax.quoted_absent (unquoted plain) cut (lexes.template_quoted template)
    rw [Position.edits_other named other]
    simp [Token.isName, named]

theorem sorted (inside : InParentheses body node) (unbroken : Unbroken live) :
    (Reference.edits live [] [.node node]).Pairwise Edit.Before := by
  have fit := nodeEdits_fit unbroken ⟨false, false⟩ ⟨[], none, none⟩ node inside.laid
  simpa [Reference.edits] using fit.sorted

-- A name of the code is found, unless it is glued to what is in front of it.
theorem finds (inside : InParentheses body node) (among : position ∈ positions [] [.node node])
    (named : position.token.isName = true) (apart : glued (parenthesized body) position.token.start = false) :
    NameAt none 0 (parenthesized body) (position.token.start, position.token.text) := by
  obtain ⟨lexes, cut, _⟩ := inside.reads (listed among)
  have kind := beq_iff_eq.mp named
  exact nameAt_iff.mpr ⟨cut.named (.inl kind), Masking.name_stands lexes cut kind, apart⟩

-- What is found is a name of the code, if it is shown and belongs to no property and no regex.
theorem found (inside : InParentheses body node) (plain : isPlainCode body = true)
    (nameAt : NameAt none 0 (parenthesized body) (place, name))
    (shown : Text.startsWith ((Masking.mask (parenthesized body)).drop place) name = true)
    (code : ∀ position ∈ positions [] [.node node],
      position.token.start ≤ place → place < position.token.stop →
      position.token.terminal ∉ [.leaf .member, .leaf .regex]) :
    ∃ position ∈ positions [] [.node node], position.token.isName = true ∧ position.token.start = place ∧
      position.token.text = name := by
  have masked := Masking.nameAt_shown nameAt shown
  obtain ⟨⟨c, letters, rfl, starts, _⟩, ⟨back, here, _⟩, _⟩ := nameAt_iff.mp masked
  have visible := (visible_name (Text.isNameChar_of_isNameStart starts)).1
  obtain ⟨position, among, after, before⟩ := inside.covered here visible
  obtain ⟨lexes, cut, terminal⟩ := inside.reads (listed among)
  obtain ⟨named, starts, text⟩ := lexes.name_at cut terminal (code position among after before) (unquoted plain)
    masked after before
  exact ⟨position, among, beq_iff_eq.mpr named, starts, text⟩

-- Only one token stands at a place.
theorem unique (inside : InParentheses body node) (among : token ∈ node.tokens) (listed : other ∈ node.tokens)
    (first : token.start ≤ place ∧ place < token.stop) (second : other.start ≤ place ∧ place < other.stop) :
    token = other := by
  by_contra distinct
  have apart := inside.laid.apart among listed distinct
  unfold Token.Apart at apart
  omega

end InParentheses

theorem agrees_edits (inside : InParentheses body node) (plain : isPlainCode body = true) (unbroken : Unbroken live)
    (agrees : Agrees live body node) :
    (namesIn none 1 0 body).filterMap (nameEdit? live) = Reference.edits live [] [.node node] := by
  have within : body <+: (parenthesized body).drop 1 := List.prefix_append body [')']
  have fit := @namesIn_fit _ _ _ _ _ none unbroken within (Nat.zero_le _)
  refine List.Pairwise.eq_of_mem_iff fit.sorted (inside.sorted unbroken) fun edit => ?_
  rw [mem_names, inside.mem_edits plain]
  constructor
  · rintro ⟨place, name, nameAt, expression, looked, rfl⟩
    have isLive : (live.lookup name).isSome = true := Option.isSome_of_mem looked
    obtain ⟨shown, code⟩ := agrees.words _ (mem_parenthesized.mpr nameAt) isLive
    obtain ⟨position, among, named, rfl, rfl⟩ := inside.found plain nameAt shown code
    have replaced := agrees.names position among named expression looked
    have apart : glued (parenthesized body) position.token.start = false := (nameAt_iff.mp nameAt).2.2
    rw [apart] at replaced
    exact ⟨position, among, named, expression, looked, expression, replaced, rfl⟩
  · rintro ⟨position, among, named, expression, looked, text, replaced, rfl⟩
    rw [agrees.names position among named expression looked, Option.mem_ite_none_left] at replaced
    obtain ⟨apart, same⟩ := replaced
    cases same
    exact ⟨_, _, inside.finds among named (Bool.not_eq_true _ ▸ apart), expression, looked, rfl⟩

-- Where the edits are the same, each name of the code has the one that is made for it in the text.
theorem names_agree (inside : InParentheses body node) (plain : isPlainCode body = true)
    (same : (namesIn none 1 0 body).filterMap (nameEdit? live) = Reference.edits live [] [.node node])
    (among : position ∈ positions [] [.node node]) (named : position.token.isName = true)
    (looked : expression ∈ live.lookup position.token.text) :
    position.replacement? expression
      = if glued (parenthesized body) position.token.start then none else some expression := by
  cases apart : glued (parenthesized body) position.token.start with
  | true =>
    rw [if_pos rfl]
    by_contra replaced
    obtain ⟨text, made⟩ := Option.ne_none_iff_exists'.mp replaced
    have listed := (inside.mem_edits plain).mpr ⟨position, among, named, expression, looked, text, made, rfl⟩
    rw [← same, mem_names] at listed
    obtain ⟨place, name, nameAt, _, _, edit⟩ := listed
    have before : glued (parenthesized body) place = false := (nameAt_iff.mp nameAt).2.2
    rw [← (Edit.mk.inj edit).1, apart] at before
    cases before
  | false =>
    rw [if_neg Bool.false_ne_true]
    have found := mem_names.mpr ⟨_, _, inside.finds among named apart, expression, looked, rfl⟩
    rw [same, inside.mem_edits plain] at found
    obtain ⟨other, others, _, expression', looked', text, made, edit⟩ := found
    obtain ⟨starts, _, rfl⟩ := Edit.mk.inj edit
    have proper := (inside.reads (InParentheses.listed among)).2.1.start_lt
    have proper' := (inside.reads (InParentheses.listed others)).2.1.start_lt
    have shared := inside.unique (InParentheses.listed among) (InParentheses.listed others)
      ⟨Nat.le_refl _, proper⟩ ⟨by omega, by omega⟩
    cases position_unique inside.read among others shared
    cases looked.symm.trans looked'
    exact made

-- And each live word that is found in the text is a name of the code.
theorem words_agree (inside : InParentheses body node) (plain : isPlainCode body = true)
    (same : (namesIn none 1 0 body).filterMap (nameEdit? live) = Reference.edits live [] [.node node])
    (among : (place, name) ∈ namesIn none 1 0 body) (isLive : (live.lookup name).isSome = true) :
    Text.startsWith ((Masking.mask (parenthesized body)).drop place) name = true ∧
      ∀ position ∈ positions [] [.node node], position.token.start ≤ place → place < position.token.stop →
        position.token.terminal ∉ [.leaf .member, .leaf .regex] := by
  obtain ⟨expression, looked⟩ := Option.isSome_iff_exists.mp isLive
  have nameAt := mem_parenthesized.mp among
  have made := mem_names.mpr ⟨_, _, nameAt, expression, looked, rfl⟩
  rw [same, inside.mem_edits plain] at made
  obtain ⟨position, listed, named, _, _, _, _, edit⟩ := made
  obtain ⟨rfl, _⟩ := Edit.mk.inj edit
  have own := InParentheses.listed listed
  obtain ⟨lexes, cut, _⟩ := inside.reads own
  have kind := beq_iff_eq.mp named
  obtain ⟨back, stands, ends⟩ := Masking.name_stands lexes cut kind
  obtain ⟨word, ⟨rest, here, apart⟩, _⟩ := nameAt_iff.mp nameAt
  cases name_unique (cut.named (.inl kind)) ends word apart (stands.symm.trans here)
  refine ⟨?_, fun other others after before => ?_⟩
  · rw [Syntax.drop_token cut]
    exact List.isPrefixOf_iff_prefix.mpr (List.prefix_append _ _)
  · rw [inside.unique (InParentheses.listed others) own ⟨after, before⟩ ⟨Nat.le_refl _, cut.start_lt⟩, kind]
    decide

theorem agrees_iff (inside : InParentheses body node) (plain : isPlainCode body = true) (unbroken : Unbroken live) :
    (namesIn none 1 0 body).filterMap (nameEdit? live) = Reference.edits live [] [.node node]
      ↔ Agrees live body node := by
  refine ⟨fun same => ⟨?_, ?_⟩, agrees_edits inside plain unbroken⟩
  · exact fun position among named expression looked => names_agree inside plain same among named looked
  · exact fun found among isLive => words_agree inside plain same among isLive

-- The edits in a substitution are those of its code in parentheses.
def RewrittenAsCode (analysis : Analysis) (site : Nat × Text) (node : Node) : Prop :=
  (analysis.edits.filter (Edit.inside site.1 (site.1 + site.2.length))).map (Edit.moved 1)
    = (Reference.edits analysis.imports.live [] [.node node]).map (Edit.moved site.1)

instance (analysis : Analysis) (site : Nat × Text) (node : Node) : Decidable (RewrittenAsCode analysis site node) :=
  inferInstanceAs (Decidable (_ = _))

variable {source : Text} {analysis : Analysis} {items : List Sibling} {token : Token} {site : Nat × Text}

theorem edits_template (template : position.token.terminal = .leaf .template) :
    position.edits live = templateEdits live position.token := by
  unfold Position.edits leafEdits
  rw [template]

theorem rewritten_iff (analyzed : analyzeSource source = .ok analysis) (read : items? source = some items)
    (among : position ∈ positions [] items) (template : position.token.terminal = .leaf .template)
    (listed : site ∈ Reference.found position.token) (plain : isPlainCode site.2 = true)
    (inside : InParentheses site.2 node) :
    RewrittenAsCode analysis site node ↔ Agrees analysis.imports.live site.2 node := by
  have unbroken := live_unbroken analyzed
  obtain ⟨after, before⟩ := found_within listed
  have own : (analysis.edits.filter (Edit.inside site.1 (site.1 + site.2.length))).map (Edit.moved 1)
      = ((namesIn none 1 0 site.2).filterMap (nameEdit? analysis.imports.live)).map (Edit.moved site.1) := by
    rw [edits_inside analyzed read among after before, edits_template template,
      templateEdits_inside unbroken (position_cut read among) listed, siteEdits, if_pos plain, ← nameEdits_moved,
      ← nameEdits_moved, Nat.add_comm]
  rw [RewrittenAsCode, own, (List.map_injective_iff.mpr (Edit.moved_injective _)).eq_iff]
  exact agrees_iff inside plain unbroken

-- A template literal has substitutions. Of those, the ones behind a backslash are missed, whatever the backslash
-- stands for; the others are found. Nothing is replaced but in a substitution that is found, and there the edits
-- are those of the code in parentheses exactly if the two agree on the names of the text.
theorem template_substitutions (analyzed : analyzeSource source = .ok analysis) (read : items? source = some items)
    (lexes : Syntax.Lexes (Masking.mask source) token) (template : token.terminal = .leaf .template) :
    (∃ holes, LiteralHoles token holes) ∧
    (∀ holes, LiteralHoles token holes →
      (∀ hole ∈ holes, hole.behind = true → hole.site ∉ Reference.found token) ∧
      ((∀ hole ∈ holes, hole.behind = true → ¬['$', '\x7b'] <:+: hole.body) →
        Reference.found token = (holes.filter fun hole => !hole.behind).map Hole.site)) ∧
    (∀ edit ∈ analysis.edits, edit.start < token.stop → token.start < edit.stop →
      token ∈ (positions [] items).map Position.token ∧ ∃ site ∈ Reference.found token,
        isPlainCode site.2 = true ∧ Edit.inside site.1 (site.1 + site.2.length) edit = true) ∧
    (token ∈ (positions [] items).map Position.token → ∀ site ∈ Reference.found token,
      isPlainCode site.2 = true →
      ∀ node, InParentheses site.2 node →
        (RewrittenAsCode analysis site node ↔ Agrees analysis.imports.live site.2 node)) := by
  refine ⟨?_, ?_, ?_, ?_⟩
  · obtain ⟨expected, cursor, terminal, size, within, _, lexed, rfl⟩ := lexes.read
    cases template
    exact literalHoles_exist (Lexer.lexeme?_leaf lexed).2 rfl
  · rintro holes ⟨text, opened, literal⟩
    rw [found_literal opened]
    exact ⟨fun hole among behind => literal.missed among behind, literal.substitutions⟩
  · intro edit among ahead behind
    obtain ⟨position, listed, rfl, made⟩ := edit_position analyzed read lexes among ahead behind
    rw [edits_template template, templateEdits_sites, List.mem_flatMap] at made
    obtain ⟨site, found, own⟩ := made
    have fit := siteEdits_fit (live_unbroken analyzed) (position_cut read listed) found
    obtain ⟨after, _, before⟩ := fit.ordered.bounds edit.span (List.mem_map_of_mem own)
    refine ⟨List.mem_map_of_mem listed, site, found, ?_, ?_⟩
    · by_contra other
      rw [siteEdits, if_neg other] at own
      cases own
    · simpa [Edit.inside, Edit.span] using And.intro after before
  · intro among site listed plain node inside
    obtain ⟨position, found, rfl⟩ := List.mem_map.mp among
    exact rewritten_iff analyzed read found template listed plain inside

def memberSource : Text := "import\x7bx\x7dfrom'./a';\x60$\x7bx.x\x7d\x60".toList

-- The code of the substitution in parentheses.
def memberNode : Node := .group .paren [leafAt (.opener .paren) "(" 0, leafAt (.leaf .name) "x" 1,
  leafAt (.leaf .member) ".x" 2, leafAt (.closer .paren) ")" 4]

theorem member_rewritten : ∃ analysis, analyzeSource memberSource = .ok analysis ∧ analysis.edits ≠ [] ∧
    RewrittenAsCode analysis (22, "x.x".toList) memberNode := by
  have ⟨accepts, stands, code, inside⟩ : (analyzeSource memberSource).toOption.any (fun analysis =>
      !analysis.edits.isEmpty && decide (Agrees analysis.imports.live "x.x".toList memberNode)) = true ∧
      (items? memberSource).any (fun items => (Syntax.leafAt? memberSource 19).any fun token =>
        token.terminal == .leaf .template && ((positions [] items).map Position.token).contains token &&
          (Reference.found token).contains (22, "x.x".toList)) = true ∧
      isPlainCode "x.x".toList = true ∧ InParentheses "x.x".toList memberNode := by
    unfold memberSource
    repeat rw [String.toList_ofList]
    decide +kernel
  obtain ⟨analysis, analyzed, both⟩ := (Option.any_eq_true _ _).mp accepts
  obtain ⟨items, read, literal⟩ := (Option.any_eq_true _ _).mp stands
  obtain ⟨token, here, parts⟩ := (Option.any_eq_true _ _).mp literal
  simp only [Bool.and_eq_true, List.contains_iff_mem, beq_iff_eq] at parts
  obtain ⟨⟨template, among⟩, listed⟩ := parts
  obtain ⟨edited, agrees⟩ := Bool.and_eq_true_iff.mp both
  refine ⟨analysis, ok_of_toOption analyzed, ?_, ?_⟩
  · rintro none_
    rw [none_] at edited
    cases edited
  · have rewritten :=
      (template_substitutions (ok_of_toOption analyzed) read (Syntax.lexes_leafAt here).1 template).2.2.2
    exact (rewritten among _ listed code memberNode inside).mpr (of_decide_eq_true agrees)

-- A reference behind three dots.
def spreadSource : Text := "import\x7bx\x7dfrom'./a';\x60$\x7bf(...x)\x7d\x60".toList

def spreadNode : Node := .group .paren [leafAt (.opener .paren) "(" 0, leafAt (.leaf .name) "f" 1,
  .group .paren [leafAt (.opener .paren) "(" 2, leafAt (.leaf .punctuator) "..." 3,
    leafAt (.leaf .name) "x" 6,
    leafAt (.closer .paren) ")" 7], leafAt (.closer .paren) ")" 8]

-- A substitution behind a backslash that another one escapes.
def escapedSource : Text := "import\x7bx\x7dfrom'./a';\x60\\\\$\x7bx\x7d\x60".toList

def escapedLiteral : Token := ⟨.leaf .template, "\x60\\\\$\x7bx\x7d\x60".toList, 19, 1, 20⟩

theorem spread_kept : (InParentheses "f(...x)".toList spreadNode ∧ isPlainCode "f(...x)".toList = true ∧
      (Syntax.leafAt? spreadSource 19).map Reference.found = some [(22, "f(...x)".toList)] ∧
      ∃ analysis, analyzeSource spreadSource = .ok analysis ∧
        ¬RewrittenAsCode analysis (22, "f(...x)".toList) spreadNode) ∧
    (Syntax.leafAt? escapedSource 19 = some escapedLiteral ∧
      LiteralHoles escapedLiteral [⟨24, ['x'], true⟩] ∧ Reference.found escapedLiteral = []) := by
  have ⟨inside, code, found, rewritten, escaped, overlooked⟩ : InParentheses "f(...x)".toList spreadNode ∧
      isPlainCode "f(...x)".toList = true ∧
      (Syntax.leafAt? spreadSource 19).map Reference.found = some [(22, "f(...x)".toList)] ∧
      (analyzeSource spreadSource).toOption.any (fun analysis =>
        !decide (RewrittenAsCode analysis (22, "f(...x)".toList) spreadNode)) = true ∧
      Syntax.leafAt? escapedSource 19 = some escapedLiteral ∧ Reference.found escapedLiteral = [] := by
    unfold spreadSource escapedSource escapedLiteral
    repeat rw [String.toList_ofList]
    decide +kernel
  obtain ⟨analysis, analyzed, other⟩ := (Option.any_eq_true _ _).mp rewritten
  have differs := of_decide_eq_false ((Bool.not_eq_true' _).mp other)
  refine ⟨⟨inside, code, found, analysis, ok_of_toOption analyzed, differs⟩, escaped, ?_, overlooked⟩
  exact ⟨_, rfl, .escape (@Literal.hole ['x'] ['\x60'] 22 [] '\\' rfl .close)⟩

end Rewriting
end ModuleBundler
