import ModuleBundler.Proofs.Rewriting.Positions

/-!
The substitutions of a template literal, as the lexer reads the literal, and those of them that are found
when names are replaced: a substitution is missed where a backslash stands in front of it.
-/
namespace ModuleBundler
namespace Reference

-- The code of a substitution, with its offset, and whether a backslash stands in front of the substitution.
structure Hole where
  place : Nat
  body : Text
  behind : Bool
  deriving DecidableEq

def Hole.site (hole : Hole) : Nat × Text := (hole.place, hole.body)

-- A template literal from some place in its text on. A backslash takes any character with it.
inductive Literal : Char → Nat → Text → List Hole → Prop where
  | close : Literal previous offset ['\x60'] []
  | escape (later : Literal c (offset + 2) rest holes) : Literal previous offset ('\\' :: c :: rest) holes
  | plain (mark : c ≠ '\x60') (unescaped : c ≠ '\\') (unopened : c = '$' → rest.head? ≠ some '{')
      (later : Literal c (offset + 1) rest holes) : Literal previous offset (c :: rest) holes
  | hole (closes : substitutionRest? .plain (body ++ '}' :: rest) = some (body.length + 1))
      (later : Literal '}' (offset + body.length + 3) rest holes) :
      Literal previous offset ('$' :: '{' :: (body ++ '}' :: rest)) (⟨offset + 2, body,
        previous == '\\'⟩ :: holes)

def LiteralHoles (token : Token) (holes : List Hole) : Prop :=
  ∃ text, token.text = '\x60' :: text ∧ Literal '\x60' (token.start + 1) text holes

-- The part of a substitution that a part of a literal is.
def substitutionPart? : Lexeme.TemplatePart → Option SubstitutionPart
  | .text => none
  | .substitution => some .plain
  | .nested => some .nested
  | .braces => some .braces

-- A text that begins in some part of a literal and ends with the literal.
def Completes (text : Text) : Option SubstitutionPart → Prop
  | none => ∀ previous offset, ∃ holes, Literal previous offset text holes
  | some part => ∃ body rest, text = body ++ '}' :: rest ∧
      substitutionRest? part (body ++ '}' :: rest) = some (body.length + 1) ∧
      ∀ previous offset, ∃ holes, Literal previous offset rest holes

theorem Completes.step {inner part : SubstitutionPart} (completes : Completes text (some inner)) (front : Text)
    (reads : ∀ later size, substitutionRest? inner later = some size →
      substitutionRest? part (front ++ later) = some (size + front.length)) :
    Completes (front ++ text) (some part) := by
  obtain ⟨body, rest, rfl, closes, later⟩ := completes
  refine ⟨front ++ body, rest, (List.append_assoc ..).symm, ?_, later⟩
  rw [List.append_assoc, reads _ _ closes, List.length_append]
  congr 1
  omega

-- Reading a literal to its end goes through its substitutions.
theorem templateRest?_completes (read : Lexeme.templateRest? part text = some size) :
    Completes (text.take size) (substitutionPart? part) := by
  fun_induction Lexeme.templateRest? part text generalizing size with
  | case1 rest =>
    cases read
    exact fun _ _ => ⟨[], .close⟩
  | case2 c rest ih =>
    obtain ⟨inner, readInner, rfl⟩ := Option.map_eq_some_iff.mp read
    intro previous offset
    obtain ⟨holes, later⟩ := ih readInner c (offset + 2)
    exact ⟨holes, .escape later⟩
  | case3 | case12 | case15 | case17 => cases read
  | case4 rest ih =>
    obtain ⟨inner, readInner, rfl⟩ := Option.map_eq_some_iff.mp read
    obtain ⟨body, behind, parts, closes, later⟩ := ih readInner
    intro previous offset
    obtain ⟨holes, later⟩ := later '}' (offset + body.length + 3)
    rw [List.take_succ_cons, List.take_succ_cons, parts]
    exact ⟨_, .hole closes later⟩
  | case5 c rest mark escaped single opened ih =>
    obtain ⟨inner, readInner, rfl⟩ := Option.map_eq_some_iff.mp read
    intro previous offset
    obtain ⟨holes, later⟩ := ih readInner c (offset + 1)
    refine ⟨holes, .plain mark (Lexeme.not_backslash single escaped) ?_ later⟩
    rintro rfl head
    cases rest with
    | nil => cases readInner
    | cons d rest =>
      cases inner with
      | zero => cases head
      | succ inner =>
        cases head
        exact opened rest rfl rfl
  | case6 rest ih =>
    obtain ⟨inner, readInner, rfl⟩ := Option.map_eq_some_iff.mp read
    exact ⟨[], rest.take inner, rfl, rfl, ih readInner⟩
  | case7 rest ih =>
    obtain ⟨inner, readInner, rfl⟩ := Option.map_eq_some_iff.mp read
    exact (ih readInner).step ['\x60'] fun later size reads => by simp [substitutionRest?, reads]
  | case8 rest ih =>
    obtain ⟨inner, readInner, rfl⟩ := Option.map_eq_some_iff.mp read
    exact (ih readInner).step ['{'] fun later size reads => by simp [substitutionRest?, reads]
  | case9 c rest closer mark opener ih =>
    obtain ⟨inner, readInner, rfl⟩ := Option.map_eq_some_iff.mp read
    exact (ih readInner).step [c] fun later size reads => by simp [substitutionRest?, reads]
  | case10 rest ih =>
    obtain ⟨inner, readInner, rfl⟩ := Option.map_eq_some_iff.mp read
    exact (ih readInner).step ['\x60'] fun later size reads => by simp [substitutionRest?, reads]
  | case11 c rest ih =>
    obtain ⟨inner, readInner, rfl⟩ := Option.map_eq_some_iff.mp read
    exact (ih readInner).step ['\\', c] fun later size reads => by simp [substitutionRest?, reads]
  | case13 c rest mark escaped single ih =>
    obtain ⟨inner, readInner, rfl⟩ := Option.map_eq_some_iff.mp read
    have plain := Lexeme.not_backslash single escaped
    exact (ih readInner).step [c] fun later size reads => by simp [substitutionRest?, reads, plain]
  | case14 rest ih =>
    obtain ⟨inner, readInner, rfl⟩ := Option.map_eq_some_iff.mp read
    exact (ih readInner).step ['}'] fun later size reads => by simp [substitutionRest?, reads]
  | case16 c rest closer opener ih =>
    obtain ⟨inner, readInner, rfl⟩ := Option.map_eq_some_iff.mp read
    exact (ih readInner).step [c] fun later size reads => by simp [substitutionRest?, reads]

theorem literalHoles_exist (read : Lexeme.template? text = some size) (same : token.text = text.take size) :
    ∃ holes, LiteralHoles token holes := by
  unfold Lexeme.template? at read
  split at read
  · rename_i rest
    obtain ⟨inner, readInner, rfl⟩ := Option.map_eq_some_iff.mp read
    obtain ⟨holes, literal⟩ := templateRest?_completes readInner '\x60' (token.start + 1)
    exact ⟨holes, rest.take inner, same, literal⟩
  · cases read

variable {previous : Char} {before : Option Char} {offset covered : Nat} {text : Text} {holes : List Hole}
  {hole : Hole} {site other : Nat × Text} {behind behind' : Bool}

-- A dollar sign and a brace in a text that goes on behind some character, and code behind them.
inductive Opens (before : Option Char) (offset : Nat) : Text → Nat × Text → Bool → Prop where
  | mk (front : Text) (code : body <+: rest) : Opens before offset (front ++ '$' :: '{' :: rest)
      (offset + front.length + 2, body) (front.getLast?.or before == some '\\')

theorem Opens.append (front : Text)
    (opens : Opens (front.getLast?.or before) (offset + front.length) text site behind) :
    Opens before offset (front ++ text) site behind := by
  cases opens with
  | @mk body rest more code =>
    have place : offset + front.length + more.length = offset + (front ++ more).length := by
      rw [List.length_append, Nat.add_assoc]
    rw [place, ← Option.or_assoc, ← List.getLast?_append, ← List.append_assoc]
    exact .mk _ code

theorem Opens.unique (opens : Opens before offset text site behind) (others : Opens before offset text other behind')
    (same : site.1 = other.1) : behind = behind' := by
  generalize shown : text = whole at others
  cases opens with
  | @mk body rest front code =>
    cases others with
    | @mk body' rest' front' code' =>
      have size : front.length = front'.length := by
        dsimp only at same
        omega
      rw [(List.append_inj shown size).1]

-- Each substitution of a literal stands in its text.
theorem Literal.opens (literal : Literal previous offset text holes) (among : hole ∈ holes) :
    Opens (some previous) offset text hole.site hole.behind := by
  induction literal with
  | close => cases among
  | escape later ih => exact (ih among).append ['\\', _]
  | plain _ _ _ later ih => exact (ih among).append [_]
  | @hole body rest offset holes previous closes later ih =>
    rcases List.mem_cons.mp among with rfl | among
    · exact .mk [] (List.prefix_append _ _)
    · have parts : '$' :: '{' :: (body ++ '}' :: rest) = '$' :: '{' :: (body ++ ['}']) ++ rest := by simp
      rw [parts]
      refine .append _ ?_
      have size : ('$' :: '{' :: (body ++ ['}'])).length = body.length + 3 := by simp
      rw [size, List.getLast?_cons_cons, ← List.cons_append, List.getLast?_concat]
      exact ih among

theorem substitutions_opens (found : site ∈ substitutions before offset covered text) :
    Opens before offset text site false := by
  fun_induction substitutions before offset covered text with
  | case1 => cases found
  | case2 before offset c rest covered ih => exact (ih found).append [c]
  | case3 before offset c rest size? size read ih =>
    rcases List.mem_cons.mp found with rfl | later
    · simp only [size?] at read
      split at read
      · rename_i body
        split at read
        · cases read
        · rename_i other
          rw [Bool.not_eq_true] at other
          rw [← other]
          exact .mk [] (List.take_prefix _ _)
      · cases read
    · exact (ih later).append [c]
  | case4 before offset c rest size? absent ih => exact (ih found).append [c]

-- A substitution behind a backslash is not found.
theorem Literal.missed (literal : Literal previous offset text holes) (among : hole ∈ holes)
    (behind : hole.behind = true) : hole.site ∉ substitutions (some previous) offset covered text := by
  intro found
  have other := (literal.opens among).unique (substitutions_opens found) rfl
  rw [behind] at other
  cases other

-- Where no substitution opens the search goes on.
theorem substitutions_next {c : Char} (unopened : c = '$' → text.head? = some '{' → before = some '\\') :
    substitutions before offset 0 (c :: text) = substitutions (some c) (offset + 1) 0 text := by
  by_cases opened : c = '$' ∧ text.head? = some '{'
  · obtain ⟨rfl, head⟩ := opened
    obtain ⟨body, rfl⟩ := List.head?_eq_some_iff.mp head
    rw [unopened rfl head, substitutions.eq_3]
    rfl
  · rw [substitutions.eq_4]
    rintro body rfl rfl
    exact opened ⟨rfl, rfl⟩

theorem substitutions_pass (front : Text) (c : Char) (rest : Text) :
    substitutions before offset (front.length + 1) (front ++ c :: rest)
      = substitutions (some c) (offset + front.length + 1) 0 rest := by
  induction front generalizing before offset with
  | nil => rfl
  | cons d front ih =>
    rw [List.length_cons, List.cons_append, substitutions, ih]
    congr 1
    omega

-- In a text without `${` nothing is found.
theorem substitutions_skip {c : Char} (bare : ¬['$', '{'] <:+: front) (other : c ≠ '{') (plain : c ≠ '$')
    (rest : Text) :
    substitutions before offset 0 (front ++ c :: rest)
      = substitutions (some c) (offset + front.length + 1) 0 rest := by
  induction front generalizing before offset with
  | nil => exact substitutions_next fun dollar => absurd dollar plain
  | cons d front ih =>
    rw [List.cons_append, substitutions_next, ih, List.length_cons]
    · congr 1
      omega
    · exact fun inside => bare (inside.trans (List.suffix_cons d front).isInfix)
    · rintro rfl brace
      cases front with
      | nil =>
        cases brace
        exact absurd rfl other
      | cons e front =>
        cases brace
        exact absurd (List.prefix_append ['$', '{'] front).isInfix bare

-- The substitutions that are found are those without a backslash in front of them, unless one that is missed
-- has code with another `${`.
theorem Literal.substitutions (literal : Literal previous offset text holes)
    (bare : ∀ hole ∈ holes, hole.behind = true → ¬['$', '{'] <:+: hole.body) :
    Reference.substitutions (some previous) offset 0 text
      = (holes.filter fun hole => !hole.behind).map Hole.site := by
  induction literal with
  | close => rfl
  | @escape c offset rest holes previous later ih =>
    rw [substitutions_next fun dollar => absurd dollar (by decide), substitutions_next fun _ _ => rfl]
    exact ih bare
  | @plain c offset rest holes previous mark unescaped unopened later ih =>
    rw [substitutions_next fun dollar head => absurd head (unopened dollar)]
    exact ih bare
  | @hole body rest offset holes previous closes later ih =>
    obtain ⟨own, others⟩ := List.forall_mem_cons.mp bare
    have later := ih others
    cases behind : previous == '\\' with
    | true =>
      rw [beq_iff_eq] at behind
      subst behind
      rw [substitutions_next fun _ _ => rfl, substitutions_next fun brace => absurd brace (by decide),
        substitutions_skip (own rfl) (by decide) (by decide), List.filter_cons_of_neg (by simp), ← later]
      congr 1
      dsimp only
      omega
    | false =>
      have other : (some previous == some '\\') = false := behind
      have code : (('{' :: (body ++ '}' :: rest)).drop 1).take body.length = body := List.take_left
      rw [substitutions.eq_3, if_neg (by rw [other]; decide), closes,
        List.filter_cons_of_pos (by simp), List.map_cons]
      dsimp only
      rw [Nat.add_sub_cancel, code]
      have passed := @substitutions_pass (some '$') (offset + 1) ('{' :: body) '}' rest
      rw [List.length_cons, List.cons_append] at passed
      rw [passed, ← later]
      have place : offset + 1 + (body.length + 1) + 1 = offset + body.length + 3 := by omega
      rw [place]
      rfl

-- What is found does not overlap.
theorem substitutions_apart : (substitutions before offset covered text).Pairwise
      (fun site later => site.1 + site.2.length < later.1) ∧
    ∀ site ∈ substitutions before offset covered text, offset + covered + 2 ≤ site.1 := by
  fun_induction substitutions before offset covered text with
  | case1 =>
    refine ⟨.nil, fun site among => ?_⟩
    cases among
  | case2 before offset c rest covered ih =>
    refine ⟨ih.1, fun site among => ?_⟩
    have behind := ih.2 site among
    omega
  | case3 before offset c rest size? size read ih =>
    have code : ((rest.drop 1).take (size - 1)).length ≤ size - 1 := List.length_take_le _ _
    refine ⟨.cons (fun site among => ?_) ih.1, fun site among => ?_⟩
    · have behind := ih.2 site among
      dsimp only
      omega
    · rcases List.mem_cons.mp among with rfl | later
      · exact Nat.le_refl _
      · have behind := ih.2 site later
        omega
  | case4 before offset c rest size? absent ih =>
    refine ⟨ih.1, fun site among => ?_⟩
    have behind := ih.2 site among
    omega

def found (token : Token) : List (Nat × Text) := substitutions none token.start 0 token.text

theorem found_within (among : site ∈ found token) : token.start ≤ site.1 ∧ site.1 + site.2.length ≤ token.stop := by
  have opens : Opens none token.start token.text site false := substitutions_opens among
  generalize whole : token.text = text, false = behind at opens
  cases opens with
  | @mk body rest front code =>
    have size := congrArg List.length whole
    have bounded := code.length_le
    simp only [List.length_append, List.length_cons] at size
    unfold Token.stop
    dsimp only
    omega

theorem found_literal (opened : token.text = '\x60' :: text) :
    found token = substitutions (some '\x60') (token.start + 1) 0 text := by
  rw [found, opened]
  exact substitutions_next fun dollar => absurd dollar (by decide)

-- No substitution that is found overlaps another one.
def Beside (site other : Nat × Text) : Prop :=
  site.1 + site.2.length < other.1 ∨ other.1 + other.2.length < site.1

instance : Std.Symm Beside := ⟨fun _ _ => Or.symm⟩

theorem found_beside (among : site ∈ found token) (listed : other ∈ found token) (distinct : site ≠ other) :
    Beside site other := by
  have pairs : (found token).Pairwise Beside := (@substitutions_apart none token.start 0 token.text).1.imp Or.inl
  exact pairs.forall among listed distinct

theorem found_nodup (token : Token) : (found token).Nodup := by
  refine (@substitutions_apart none token.start 0 token.text).1.imp ?_
  rintro site _ before rfl
  omega

-- The edits made for one site.
def siteEdits (live : LiveBindings) (site : Nat × Text) : List Edit :=
  if isPlainCode site.2 then (namesIn none site.1 0 site.2).filterMap (nameEdit? live) else []

theorem templateEdits_sites (live : LiveBindings) (token : Token) :
    templateEdits live token = (found token).flatMap (siteEdits live) := rfl

end Reference

-- Whether an edit lies between two offsets.
def Edit.inside (low high : Nat) (edit : Edit) : Bool := low ≤ edit.start && edit.stop ≤ high

theorem flatMap_unique {f : α → List β} {members : List α} (nodup : members.Nodup) (among : a ∈ members)
    (others : ∀ b ∈ members, b ≠ a → f b = []) : members.flatMap f = f a := by
  obtain ⟨front, back, rfl⟩ := List.append_of_mem among
  have apart := List.nodup_middle.mp nodup
  have none_ : ∀ part : List _, (∀ b ∈ part, b ∈ front ++ back) → part.flatMap f = [] := by
    intro part within
    refine List.flatMap_eq_nil_iff.mpr fun b listed => others b ?_ ?_
    · exact (List.perm_middle.mem_iff).mpr (List.mem_cons_of_mem _ (within b listed))
    · rintro rfl
      exact (List.nodup_cons.mp apart).1 (within b listed)
  rw [List.flatMap_append, List.flatMap_cons, none_ front (fun b listed => List.mem_append_left _ listed),
    none_ back (fun b listed => List.mem_append_right _ listed), List.append_nil, List.nil_append]

namespace Reference
variable {live : LiveBindings} {site : Nat × Text} {token : Token}

theorem siteEdits_fit (unbroken : Unbroken live) (cut : token.CutFrom source) (among : site ∈ found token) :
    Edit.Fit source site.1 (site.1 + site.2.length) (siteEdits live site) := by
  have within : token.text <+: source.drop token.start := by
    rw [cut.slice]
    exact List.take_prefix _ _
  unfold siteEdits
  split
  · exact namesIn_fit unbroken (substitutions_stand within among) (Nat.zero_le _)
  · exact .none (Nat.le_add_right _ _)

-- The edits in a substitution that is found are those made for it.
theorem templateEdits_inside (unbroken : Unbroken live) (cut : token.CutFrom source) (among : site ∈ found token) :
    (templateEdits live token).filter (Edit.inside site.1 (site.1 + site.2.length)) = siteEdits live site := by
  have bounds := fun site listed edit (made : edit ∈ siteEdits live site) =>
    (siteEdits_fit unbroken cut listed).ordered.bounds edit.span (List.mem_map_of_mem made)
  rw [templateEdits_sites, List.filter_flatMap, flatMap_unique (found_nodup token) among ?_,
    List.filter_eq_self]
  · intro edit made
    obtain ⟨after, _, before⟩ := bounds site among edit made
    simpa [Edit.inside, Edit.span] using And.intro after before
  · intro other listed distinct
    refine List.filter_eq_nil_iff.mpr fun edit made => ?_
    obtain ⟨after, proper, before⟩ := bounds other listed edit made
    have beside := found_beside among listed distinct.symm
    unfold Beside at beside
    simp only [Edit.inside, Bool.and_eq_true, decide_eq_true_eq]
    dsimp only [Edit.span] at after proper before
    omega

end Reference

namespace Rewriting
open Reference (Position positions)

variable {source : Text} {analysis : Analysis} {items : List Sibling} {position : Position}

-- The edits in a part of a token are those of the token.
theorem edits_inside (analyzed : analyzeSource source = .ok analysis) (read : items? source = some items)
    (among : position ∈ positions [] items) (after : position.token.start ≤ low)
    (before : high ≤ position.token.stop) :
    analysis.edits.filter (Edit.inside low high)
      = (position.edits analysis.imports.live).filter (Edit.inside low high) := by
  rw [edits_leaves analyzed read, List.filter_flatMap,
    flatMap_unique (positions_laid read).nodup.of_map among]
  intro other listed distinct
  have apart := (positions_laid read).apart (List.mem_map_of_mem among) (List.mem_map_of_mem listed) fun same =>
    distinct (position_unique read listed among same.symm)
  refine List.filter_eq_nil_iff.mpr fun edit made => ?_
  obtain ⟨starts, proper, stops⟩ := position_edit analyzed read listed made
  unfold Token.Apart at apart
  simp only [Edit.inside, Bool.and_eq_true, decide_eq_true_eq]
  omega

end Rewriting
end ModuleBundler
