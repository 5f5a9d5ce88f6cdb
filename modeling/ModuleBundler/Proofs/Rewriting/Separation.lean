import ModuleBundler.Proofs.Rewriting.Fixpoint
import ModuleBundler.Proofs.Rewriting.Seams
import ModuleBundler.Proofs.Syntax.Gaps

/-!
Rewriting puts nothing but gaps and line breaks between the two tokens of a seam, so at every seam
two statements become one. What a walk over the items knows of the rewritten code is kept by each
item; the statements of a module stay apart exactly if the walk finds no seam.
-/
namespace ModuleBundler

namespace Rewriting
open Syntax Masking

variable {regexes : List Nat} {earlier later edits : List Edit} {source text : Text} {live : LiveBindings}
  {front next : Front} {item : Item} {found : Sibling} {tokens : List Token}

-- What an edit leaves between two places.
def kept (edits : List Edit) (text : Text) (low high : Nat) : Text :=
  replaced edits low (text.between low high)

theorem kept_append (edits : List Edit) (text : Text) (first : low ≤ middle) (second : middle ≤ high)
    (inside : middle ≤ text.length) :
    kept edits text low high = kept edits text low middle ++ kept edits text middle high := by
  have size : low + (text.between low middle).length = middle := by
    rw [Text.length_between text inside]
    omega
  rw [kept, ← Text.between_append text first second, replaced_append, size, kept, kept]

-- A walk over items that has come to a place: its edits are passed, and behind the token that stands
-- in front there is nothing but a gap in the rewritten text.
structure Reached (source : Text) (front : Front) (low : Nat) (earlier : List Edit) : Prop where
  passed : ∀ edit ∈ earlier, edit.start < edit.stop ∧ edit.stop ≤ low
  gap : ∀ token, front.left = some token → 0 < token.stop ∧ token.stop ≤ low ∧
    Lexeme.Gap (kept earlier (mask source) token.stop low)

theorem Reached.start (source : Text) : Reached source {} 0 [] := ⟨nofun, nofun⟩

-- The gap goes on to the next token.
theorem Reached.lengthen (reached : Reached source front low earlier) (after : low ≤ place)
    (inside : place ≤ source.length)
    (gap : 0 < low → Lexeme.Gap ((mask source).between low place)) (left : front.left = some token) :
    Lexeme.Gap (kept earlier (mask source) token.stop place) := by
  obtain ⟨positive, behind, front_gap⟩ := reached.gap token left
  have size := length_mask source
  have untouched : kept earlier (mask source) low place = (mask source).between low place := by
    refine replaced_untouched _ fun edit among => ?_
    obtain ⟨proper, passed⟩ := reached.passed edit among
    exact ⟨proper, .inl passed⟩
  rw [kept_append earlier _ behind after (by omega), untouched]
  exact front_gap.append (gap (by omega))

-- Where a statement goes away there are only line breaks.
theorem Reached.remove (reached : Reached source front low earlier) (same : next.left = front.left)
    (after : low ≤ edit.start) (proper : edit.start < edit.stop) (inside : edit.stop ≤ source.length)
    (gap : 0 < low → Lexeme.Gap ((mask source).between low edit.start))
    (breaks : ∀ c ∈ edit.text, c = '\n') : Reached source next edit.stop (earlier ++ [edit]) where
  passed := by
    intro other among
    rcases List.mem_append.mp among with before | here
    · obtain ⟨proper', passed⟩ := reached.passed other before
      omega
    · cases List.mem_singleton.mp here
      omega
  gap := by
    intro token left
    rw [same] at left
    obtain ⟨positive, behind, _⟩ := reached.gap token left
    have size := length_mask source
    have front_gap := reached.lengthen after (by omega) gap left
    have ahead : kept (earlier ++ [edit]) (mask source) token.stop edit.start
        = kept earlier (mask source) token.stop edit.start := by
      refine replaced_ahead _ fun other among => ?_
      cases List.mem_singleton.mp among
      rw [Text.length_between _ (by omega)]
      omega
    have passed : ∀ other ∈ earlier, other.start < other.stop ∧ other.stop ≤ edit.start := by
      intro other among
      obtain ⟨proper', stop_le⟩ := reached.passed other among
      omega
    have span : kept (earlier ++ [edit]) (mask source) edit.start edit.stop = edit.text := by
      rw [kept, replaced_passed _ passed]
      refine replaced_span edit _ proper ?_ (Nat.le_refl edit.stop)
      rw [Text.length_between _ (by omega)]
      omega
    refine ⟨positive, by omega, ?_⟩
    rw [kept_append _ _ (by omega) (Nat.le_of_lt proper) (by omega), ahead, span]
    refine front_gap.append (.blanks fun c member => ?_)
    rw [breaks c member]
    decide

-- Where an item stays the gap begins behind its last token.
theorem Reached.keep (reached : Reached source front low earlier)
    (within : ∀ edit ∈ edits, edit.start < edit.stop ∧ edit.stop ≤ reach low tokens)
    (grown : low ≤ reach low tokens)
    (ends : ∀ token, next.left = some token → tokens.getLast? = some token ∧ 0 < token.stop) :
    Reached source next (reach low tokens) (earlier ++ edits) where
  passed := by
    intro edit among
    rcases List.mem_append.mp among with before | here
    · obtain ⟨proper, passed⟩ := reached.passed edit before
      omega
    · exact within edit here
  gap := by
    intro token left
    obtain ⟨last, positive⟩ := ends token left
    rw [reach_last low last, kept, Text.between_self]
    exact ⟨positive, Nat.le_refl _, .nil⟩

-- An export goes away exactly if it has no code of its own, and then to its last token.
theorem export_removed (read : exportMeaning body = .ok meaning) (removed : body.removedEnd? = some last) :
    (∀ start stop, Declaration.isStatement ⟨start, stop, meaning⟩ = true) ∧
      (∀ word, exportStop word body = last.stop) ∧ ∃ between, body.tokens = between ++ [last] := by
  cases body with
  | default | function | «class» | «variable» => cases removed
  | names list =>
    cases read
    cases removed
    exact ⟨fun _ _ => rfl, fun _ => rfl, list.opener :: list.entries.flatMap Entry.tokens, rfl⟩
  | namesFrom list fromWord source =>
    obtain ⟨_, _, same⟩ := ok_of_bind read
    cases same
    cases removed
    exact ⟨fun _ _ => rfl, fun _ => rfl, list.tokens ++ [fromWord], by simp [ExportBody.tokens]⟩
  | all star fromWord source =>
    obtain ⟨_, _, same⟩ := ok_of_bind read
    cases same
    cases removed
    exact ⟨fun _ _ => rfl, fun _ => rfl, [star, fromWord], rfl⟩
  | «namespace» star asWord name fromWord source =>
    obtain ⟨_, _, same⟩ := ok_of_bind read
    cases same
    cases removed
    exact ⟨fun _ _ => rfl, fun _ => rfl, [star, asWord, name, fromWord], rfl⟩

theorem export_kept (read : exportMeaning body = .ok meaning) (kept : body.removedEnd? = none)
    (start stop : Nat) : Declaration.isStatement ⟨start, stop, meaning⟩ = false := by
  cases body with
  | names | namesFrom | all | «namespace» => cases kept
  | function | «class» | «variable» =>
    cases read
    rfl
  | default word target =>
    cases read
    cases target <;> rfl

-- The declarations that go away are those with a statement of their own, from their first token to
-- their last.
theorem sibling_removed (read : sibling item = .ok found) (removed : item.removedEnd? = some last) :
    ∃ declaration first between, found = .declaration declaration ∧
      declaration.isStatement = true ∧ declaration.start = first.start ∧
      declaration.stop = last.stop ∧ item.tokens = first :: (between ++ [last]) := by
  cases item with
  | node | importCall | importMeta => cases removed
  | importBare word source =>
    obtain ⟨_, _, same⟩ := ok_of_bind read
    cases same
    cases removed
    exact ⟨_, word, [], rfl, rfl, rfl, rfl, Item.tokens_importBare word last⟩
  | importFrom word clause fromWord source =>
    obtain ⟨_, _, same⟩ := ok_of_bind read
    cases same
    cases removed
    exact ⟨_, word, clause.tokens ++ [fromWord], rfl, rfl, rfl, rfl, by simp⟩
  | «export» word body =>
    obtain ⟨meaning, meant, same⟩ := ok_of_bind read
    cases same
    obtain ⟨statement, stops, between, tokens⟩ := export_removed meant removed
    exact ⟨_, word, between, rfl, statement _ _, rfl, stops word, by rw [Item.tokens_export, tokens]⟩

theorem sibling_kept (read : sibling item = .ok found) (kept : item.removedEnd? = none) :
    ∀ declaration, found = .declaration declaration → declaration.isStatement = false := by
  rintro declaration rfl
  cases item with
  | node | importCall | importMeta => cases read
  | importBare | importFrom => cases kept
  | «export» word body =>
    obtain ⟨meaning, meant, same⟩ := ok_of_bind read
    cases same
    exact export_kept meant kept _ _

-- In place of a statement there are its line breaks.
theorem declarationEdit_statement (source : Text) (rest : List Sibling)
    (statement : declaration.isStatement = true) :
    ∀ c ∈ (declarationEdit source (complete declaration rest)).text, c = '\n' := by
  obtain ⟨start, stop, meaning⟩ := declaration
  cases meaning with
  | assignsDefault | exportsLocal | exportsVariables => cases statement
  | imports | exportsNames | reexports | reexportsAll | reexportsNamespace =>
    intro c member
    simp only [declarationEdit, complete, List.nil_append] at member
    exact List.eq_of_mem_replicate member

theorem bodyEdits_statement (live : LiveBindings) (statement : declaration.isStatement = true) :
    bodyEdits live declaration = [] := by
  unfold Declaration.isStatement at statement
  unfold bodyEdits
  split
  · rename_i meaning
    rw [meaning] at statement
    cases statement
  · rfl

-- The edits of an item that stays lie in its tokens.
theorem moduleEdits_kept (unbroken : Reference.Unbroken live) (before rest : List Sibling)
    (covers : Covers found tokens) (laid : Laid (mask source) low high tokens)
    (stays : ∀ declaration, found = .declaration declaration → declaration.isStatement = false) :
    ∃ own, moduleEdits source live before (found :: rest)
        = own ++ moduleEdits source live (found :: before) rest ∧
      ∀ edit ∈ own, edit.start < edit.stop ∧ edit.stop ≤ high := by
  have bounds : ∀ {low own}, Edit.Fit (mask source) low high own ∨ Edit.Fit source low high own →
      ∀ edit ∈ own, edit.start < edit.stop ∧ edit.stop ≤ high := by
    rintro low own (fit | fit) edit among
    · exact (fit.ordered.bounds edit.span (List.mem_map_of_mem among)).2
    · exact (fit.ordered.bounds edit.span (List.mem_map_of_mem among)).2
  cases covers with
  | node node =>
    exact ⟨_, rfl, bounds (.inl (Reference.nodeEdits_fit unbroken _ _ node laid))⟩
  | importExpression children =>
    exact ⟨_, rfl, bounds (.inl (Reference.levelEdits_fit unbroken _ _ children laid))⟩
  | declaration declaration first last front back starts stops ends consumed =>
    obtain ⟨start_ge, proper, body⟩ := Laid.fit_body unbroken
      (.declaration declaration first last front back starts stops ends consumed) laid
    refine ⟨declarationEdit source (complete declaration rest) :: bodyEdits live declaration, ?_, ?_⟩
    · rw [moduleEdits, List.cons_append]
    · intro edit among
      rcases List.mem_cons.mp among with rfl | inside
      · rcases complete_stop declaration rest with stop | ⟨_, _, _, _, _, statement⟩
        · rw [declarationEdit_start, declarationEdit_stop, complete_start, stop]
          exact ⟨proper, body.ordered.le⟩
        · rw [stays declaration rfl] at statement
          cases statement
      · exact bounds (.inr body) edit inside

-- At a seam the masked source, once it is edited, has nothing but a gap.
structure Clear (source : Text) (edits : List Edit) (seam : Seam) : Prop where
  ordered : seam.left.stop ≤ seam.right.start
  inside : seam.right.start ≤ source.length
  gap : Lexeme.Gap (kept edits (mask source) seam.left.stop seam.right.start)

variable {seam : Seam}

theorem Reached.clear (reached : Reached source front low earlier) (found : front.seam? item = some seam)
    (laid : Laid (mask source) low source.length (item.tokens ++ tokens))
    (apart : Spaced (mask source) low (item.tokens ++ tokens))
    (ahead : ∀ edit ∈ later, seam.right.start ≤ edit.start) : Clear source (earlier ++ later) seam := by
  obtain ⟨left, applied⟩ := Front.seam?_parts found
  obtain ⟨more, begins⟩ := Item.tokens_applied applied
  rw [begins, List.cons_append] at laid apart
  obtain ⟨after, proper, behind⟩ := laid.ordered
  have stop_le := behind.le
  simp only [Token.span] at after proper stop_le
  obtain ⟨positive, passed, _⟩ := reached.gap seam.left left
  have size := length_mask source
  cases apart with
  | cons _ gap _ _ =>
    refine ⟨by omega, by omega, ?_⟩
    have untouched : kept (earlier ++ later) (mask source) seam.left.stop seam.right.start
        = kept earlier (mask source) seam.left.stop seam.right.start := by
      refine replaced_ahead _ fun edit among => ?_
      have beyond := ahead edit among
      rw [Text.length_between _ (by omega)]
      omega
    rw [untouched]
    exact reached.lengthen after (by omega) gap left

-- However a walk has come to some items, the seams in them are clear once the edits are made.
def Walked (source : Text) (live : LiveBindings) (siblings : List Sibling) (items : List Item) : Prop :=
  ∀ before front low earlier, (∀ item ∈ items.head?, front.absorbs item = false) →
    Laid (mask source) low source.length (items.flatMap Item.tokens) →
    Spaced (mask source) low (items.flatMap Item.tokens) → Reached source front low earlier →
    ∀ regexes, ∀ seam ∈ seamsFrom regexes front items,
      Clear source (earlier ++ moduleEdits source live before siblings) seam

theorem complete_semicolon (statement : declaration.isStatement = true)
    (semicolon : token.isPunctuator [';'] = true) (rest : List Sibling) :
    (complete declaration (.node (.leaf token) :: rest)).stop = token.stop := by
  have taken : (Sibling.node (.leaf token)).isPunctuator ";" = true := semicolon
  simp [complete, statement, taken, Sibling.token?, Node.token?]

theorem sibling_node (read : sibling item = .ok (.node node)) : item = .node node := by
  cases item with
  | node =>
    cases read
    rfl
  | importCall | importMeta => cases read
  | importBare | importFrom | «export» =>
    obtain ⟨_, _, same⟩ := ok_of_bind read
    cases same

-- No edit begins in front of the tokens it is made for.
theorem moduleEdits_behind (unbroken : Reference.Unbroken live) (before : List Sibling)
    (reads : List.Forall₂ (fun item found => sibling item = .ok found) items siblings)
    (laid : Laid (mask source) low high (items.flatMap Item.tokens))
    (begins : items.flatMap Item.tokens = token :: tokens) :
    ∀ edit ∈ moduleEdits source live before siblings, token.start ≤ edit.start := by
  have covers : List.Forall₂ Covers siblings (items.map Item.tokens) := by
    rw [List.forall₂_map_right_iff]
    exact reads.flip.imp fun _ _ => sibling_covers
  have from_first : Laid (mask source) token.start high (items.map Item.tokens).flatten := by
    rw [← List.flatMap_def]
    refine ⟨laid.cut, ?_⟩
    have ordered := laid.ordered
    rw [begins] at ordered ⊢
    exact ⟨Nat.le_refl _, ordered.2⟩
  have fit := (moduleEdits_fit unbroken before covers from_first).1
  exact fun edit among => (fit.ordered.bounds edit.span (List.mem_map_of_mem among)).1

-- A statement goes away, together with the semicolon behind it.
theorem walked_removed (read : sibling item = .ok found) (removed : item.removedEnd? = some last)
    (reads : List.Forall₂ (fun item found => sibling item = .ok found) items siblings)
    (walked : Walked source live siblings items)
    (behind : ∀ semicolon rest, items = .node (.leaf semicolon) :: rest →
      semicolon.isPunctuator [';'] = true → Walked source live siblings rest)
    (before : List Sibling)
    (laid : Laid (mask source) low source.length (item.tokens ++ items.flatMap Item.tokens))
    (apart : Spaced (mask source) low (item.tokens ++ items.flatMap Item.tokens))
    (reached : Reached source front low earlier) :
    ∀ seam ∈ seamsFrom regexes (front.step regexes item) items,
      Clear source (earlier ++ moduleEdits source live before (found :: siblings)) seam := by
  obtain ⟨declaration, first, inner, rfl, statement, starts, stops, tokens⟩ := sibling_removed read removed
  have ends : item.tokens.getLast? = some last := by
    rw [tokens, ← List.cons_append, List.getLast?_concat]
  have reaches := reach_last low ends
  obtain ⟨own, laid'⟩ := laid.split_reach
  have apart' := apart.behind_reach
  rw [reaches] at own laid' apart'
  have last_stop := laid'.ordered.le
  rw [tokens] at own apart
  obtain ⟨after, proper, inner_ordered⟩ := own.ordered
  have inner_le := inner_ordered.le
  simp only [Token.span] at after proper inner_le
  rw [moduleEdits, bodyEdits_statement live statement, List.nil_append, Front.step_removed removed,
    List.append_cons]
  have gap : 0 < low → Lexeme.Gap ((mask source).between low first.start) := by
    cases apart with
    | cons _ gap _ _ => exact gap
  have breaks := declarationEdit_statement source siblings statement
  have remove : ∀ {next : Front} {place}, next.left = front.left → place ≤ source.length →
      last.stop ≤ place → (complete declaration siblings).stop = place →
      Reached source next place (earlier ++ [declarationEdit source (complete declaration siblings)]) := by
    intro next place same inside beyond stop
    subst stop
    have begins : (declarationEdit source (complete declaration siblings)).start = first.start := starts
    refine reached.remove same ?_ ?_ inside ?_ breaks
    · rwa [begins]
    · rw [begins, declarationEdit_stop]
      omega
    · rwa [begins]
  by_cases taken : ∃ token rest, items = .node (.leaf token) :: rest ∧ token.isPunctuator [';'] = true
  · obtain ⟨token, rest, rfl, semicolon⟩ := taken
    obtain ⟨_, siblings, same, _, rfl⟩ := List.forall₂_cons_left_iff.mp reads
    cases same
    rw [List.flatMap_cons, Item.tokens_node, Node.tokens_leaf] at laid' apart'
    obtain ⟨token_laid, rest_laid⟩ := laid'.split_reach
    have rest_apart := apart'.behind_reach
    have stop_le := rest_laid.ordered.le
    have beyond := token_laid.ordered.le
    rw [reach_cons, reach_nil] at rest_laid rest_apart stop_le beyond
    have silent : Front.seam? ⟨front.left, some (.removed last), none⟩ (.node (.leaf token)) = none := by
      simp only [Token.isPunctuator, Bool.and_eq_true, beq_iff_eq] at semicolon
      simp [Front.seam?, Item.applied?, semicolon.1]
    rw [seamsFrom, silent, Option.toList_none, List.nil_append, Front.step_semicolon rfl semicolon]
    exact behind token rest rfl semicolon _ ⟨front.left, some .semicolon, none⟩ token.stop _
      (fun _ _ => rfl) rest_laid rest_apart
      (remove rfl stop_le beyond (complete_semicolon statement semicolon siblings)) regexes
  · have plain : ∀ next ∈ items.head?,
        Front.absorbs ⟨front.left, some (.removed last), none⟩ next = false := by
      intro next head
      refine Bool.eq_false_iff.mpr fun absorbs => taken ?_
      simp only [Front.absorbs, Option.any_some, Ending.isRemoved, Bool.true_and] at absorbs
      obtain ⟨token, rfl, semicolon⟩ := Item.isSemicolon_parts absorbs
      obtain ⟨rest, all⟩ := List.head?_eq_some_iff.mp head
      exact ⟨token, rest, all, semicolon⟩
    have stop : (complete declaration siblings).stop = last.stop := by
      rcases complete_stop declaration siblings with stop | ⟨token, rest, rfl, semicolon, _, _⟩
      · exact stop.trans stops
      · obtain ⟨next, items, nextRead, _, rfl⟩ := List.forall₂_cons_right_iff.mp reads
        exact absurd ⟨token, items, by rw [sibling_node nextRead], semicolon⟩ taken
    exact walked _ _ last.stop _ plain laid' apart' (remove rfl last_stop (Nat.le_refl _) stop)
      regexes

theorem walked (unbroken : Reference.Unbroken live)
    (reads : List.Forall₂ (fun item found => sibling item = .ok found) items siblings) :
    Walked source live siblings items ∧
    ∀ semicolon rest, items = .node (.leaf semicolon) :: rest →
      semicolon.isPunctuator [';'] = true → Walked source live siblings rest := by
  induction reads with
  | nil => exact ⟨fun _ _ _ _ _ _ _ _ _ _ member => absurd member List.not_mem_nil, nofun⟩
  | @cons item found items siblings read reads ih =>
    obtain ⟨whole, behind⟩ := ih
    refine ⟨?_, ?_⟩
    · intro before front low earlier plain laid apart reached regexes seam member
      rw [seamsFrom, List.mem_append, Option.mem_toList] at member
      have all : (item :: items).flatMap Item.tokens = item.tokens ++ items.flatMap Item.tokens :=
        List.flatMap_cons
      rcases member with here | later
      · obtain ⟨more, begins⟩ := Item.tokens_applied (Front.seam?_parts here).2
        have ahead := moduleEdits_behind unbroken before (.cons read reads) laid
          (by rw [all, begins, List.cons_append])
        rw [all] at laid apart
        exact reached.clear here laid apart ahead
      · rw [all] at laid apart
        cases removed : item.removedEnd? with
        | some last =>
          exact walked_removed read removed reads whole behind before laid apart reached seam later
        | none =>
          have plain' := plain item rfl
          obtain ⟨left, unabsorbed⟩ := Front.step_kept removed plain'
          obtain ⟨own, laid'⟩ := laid.split_reach
          obtain ⟨edits, split, within⟩ := moduleEdits_kept unbroken before siblings (sibling_covers read)
            own (sibling_kept read removed)
          rw [split, ← List.append_assoc]
          refine whole _ _ _ _ (fun next _ => unabsorbed next) laid' apart.behind_reach ?_ _ seam later
          refine reached.keep within own.ordered.le fun token found => ?_
          have last := left token found
          have cut := (own.cut token (List.mem_of_getLast? last)).start_lt
          exact ⟨last, by omega⟩
    · rintro semicolon rest ⟨⟩ punctuator before front low earlier plain laid apart reached
      cases read
      have silent : Reference.nodeEdits live ⟨false, false⟩
          ⟨before, siblings.head?, (siblings.drop 1).head?⟩ (.leaf semicolon) = [] := by
        simp only [Token.isPunctuator, Bool.and_eq_true, beq_iff_eq] at punctuator
        simp [Reference.nodeEdits, Reference.leafEdits, punctuator.1]
      rw [moduleEdits, silent, List.nil_append]
      exact whole _ front low earlier plain laid apart reached

-- All edits of an analysed source are those of its items, for some live names.
theorem spans_items (analyzed : analyzeSource source = .ok analysis) :
    ∃ parsed siblings live, Syntax.parse (mask source) = .ok parsed ∧
      parsed.items.mapM sibling = .ok siblings ∧ analysis.declarations = declarations siblings ∧
      Reference.Unbroken live ∧
      (analysis.spans source).Perm (moduleEdits source live [] siblings) := by
  obtain ⟨parsed, accepted, meant⟩ := analyzeSource_parts analyzed
  obtain ⟨items, read, found, imports, _, edits⟩ := analyze_parts meant
  rcases edits with none | edits
  · refine ⟨parsed, items, [], accepted, read, found, nofun, ?_⟩
    have perm := (moduleEdits_perm source [] [] items).symm
    rw [edits_nil] at perm
    rwa [Analysis.spans, none, found]
  · refine ⟨parsed, items, analysis.imports.live, accepted, read, found, ?_, ?_⟩
    · exact imports ▸ Prologue.imports_unbroken _ _
    · rw [Analysis.spans, edits, found]
      exact (moduleEdits_perm source analysis.imports.live [] items).symm

-- Code alone has no seams.
theorem seamsFrom_code {items : List Item} (code : items.all Item.isCode = true)
    (open_ : front.ending = none ∧ front.awaited = none) : seamsFrom regexes front items = [] := by
  induction items generalizing front with
  | nil => rfl
  | cons item items ih =>
    obtain ⟨ending, awaited⟩ := open_
    simp only [List.all_cons, Bool.and_eq_true] at code
    have none_here : front.seam? item = none := by
      unfold Front.seam?
      rw [ending]
      split
      · rename_i found _
        cases found
      · rfl
    have next : (front.step regexes item).ending = none ∧
        (front.step regexes item).awaited = none := by
      cases item with
      | node | importCall | importMeta =>
        simp [Front.step, Item.removedEnd?, Front.absorbs, ending, Front.endsBody, awaited,
          Front.awaitedBehind]
      | importBare | importFrom | «export» => cases code.1
    rw [seamsFrom, none_here, ih code.2 next]
    rfl

-- The seams of an analysed source. A regex literal that was blanked for the parser still stands in the
-- code, so tokens with one between them are not side by side.
def seams (source : Text) (analysis : Analysis) (parsed : Module) : List Seam :=
  (seamsFrom (regexStops 0 (pieces source)) {} parsed.items).filter fun seam =>
    kept (analysis.spans source) (mask source) seam.left.stop seam.right.start
      == kept (analysis.spans source) source seam.left.stop seam.right.start

-- What the code has between the two tokens of a seam: everything in front of it is what became of
-- the source up to the first one, and everything behind it what became of the rest.
def Between (kind : Text → Prop) (source : Text) (analysis : Analysis) (code : Text) (seam : Seam) : Prop :=
  ∃ gap, code = analysis.prologue ++ '\n' :: replaced (analysis.spans source) 0 (source.take seam.left.stop)
      ++ gap ++ replaced (analysis.spans source) seam.right.start (source.drop seam.right.start) ∧
    kind gap

variable {analysis : Analysis}

theorem between_unique (one : Between kind source analysis code seam)
    (other : Between another source analysis code seam) : ∃ gap, kind gap ∧ another gap := by
  obtain ⟨gap, same, holds⟩ := one
  obtain ⟨gap', same', holds'⟩ := other
  have equal := same.symm.trans same'
  rw [List.append_left_inj, List.append_right_inj] at equal
  exact ⟨gap, holds, equal ▸ holds'⟩

theorem replaced_parts (edits : List Edit) (text : Text) (ordered : low ≤ high)
    (inside : high ≤ text.length) :
    replaced edits 0 text = replaced edits 0 (text.take low)
      ++ (kept edits text low high ++ replaced edits high (text.drop high)) := by
  have front : 0 + (text.take low).length = low := by
    rw [List.length_take]
    omega
  have middle : low + (text.between low high).length = high := by
    rw [Text.length_between text inside]
    omega
  conv_lhs => rw [← List.take_append_drop low text, Text.drop_between text ordered]
  rw [replaced_append, front, replaced_append, middle, kept]

-- A source with a seam has a declaration.
theorem declarations_of_seam {parsed : Module} (read : parsed.items.mapM sibling = .ok siblings)
    (among : seam ∈ seamsFrom regexes {} parsed.items) : declarations siblings ≠ [] := by
  intro none
  have code := (declarations_eq_nil read).mp none
  rw [seamsFrom_code code ⟨rfl, rfl⟩] at among
  cases among

theorem seams_joined (analyzed : analyzeSource source = .ok analysis)
    (accepted : Syntax.parse (mask source) = .ok parsed) :
    ∀ seam ∈ seams source analysis parsed,
      Between Lexeme.Gap source analysis (analysis.transpiled source).code seam := by
  obtain ⟨parsed', siblings, live, accepted', read, declared, unbroken, perm⟩ := spans_items analyzed
  obtain ⟨inOrder, perm', fit⟩ := spans_fit analyzed
  rw [accepted] at accepted'
  cases accepted'
  intro seam among
  obtain ⟨found, same⟩ := List.mem_filter.mp among
  rw [beq_iff_eq] at same
  have laid := parse_laid accepted
  rw [length_mask] at laid
  obtain ⟨ordered, inside, gap⟩ := (walked unbroken (forall₂_of_mapM read)).1 [] {} 0 []
    (fun _ _ => rfl) laid (parse_spaced accepted) (.start source) _ seam found
  have edits : kept (moduleEdits source live [] siblings) = kept (analysis.spans source) := by
    funext text low high
    rw [kept, kept, replaced_perm (perm.symm.trans perm') fit.ordered, replaced_perm perm' fit.ordered]
  refine ⟨kept (analysis.spans source) source seam.left.stop seam.right.start, ?_, ?_⟩
  · rw [transpiled_code analyzed (declared ▸ declarations_of_seam read found),
      replaced_parts _ source ordered inside]
    simp only [List.append_assoc, List.cons_append]
  · rwa [List.nil_append, edits, same] at gap

theorem not_parted_of_joined (joined : Between Lexeme.Gap source analysis code seam) :
    ¬ Between Lexeme.Parted source analysis code seam := by
  intro parted
  obtain ⟨_, gap, semicolon⟩ := between_unique joined parted
  exact gap.not_parted semicolon

-- At every seam the two statements become one: rewriting leaves nothing between them but blanks,
-- comments and line breaks. So statements are kept apart exactly in the sources without seams.
theorem statements_parted_iff (accepted : transpile source = .ok result) :
    ∃ analysis parsed, analyzeSource source = .ok analysis ∧
      Syntax.parse (mask source) = .ok parsed ∧
      (∀ seam ∈ seams source analysis parsed, Between Lexeme.Gap source analysis result.code seam) ∧
      ((∀ seam ∈ seams source analysis parsed, Between Lexeme.Parted source analysis result.code seam) ↔
        seams source analysis parsed = []) := by
  obtain ⟨analysis, analyzed, rfl⟩ := transpile_analysis accepted
  obtain ⟨parsed, read, _⟩ := analyzeSource_parts analyzed
  have joined := seams_joined analyzed read
  refine ⟨analysis, parsed, analyzed, read, joined, ?_, ?_⟩
  · intro parted
    refine List.eq_nil_iff_forall_not_mem.mpr fun seam among => ?_
    exact not_parted_of_joined (joined seam among) (parted seam among)
  · intro none seam among
    rw [none] at among
    cases among

def seamedSource : Text :=
  "a\nimport './b';\n(c)\nexport default class extends D \x7b\x7d\n\x60t\x60\nexport \x7bc\x7d\n[0]\n".toList

def seamedCode : Text :=
  "\"use strict\";\n".toList
    ++ "Object.defineProperty(exports, \"__esModule\", \x7b value: true \x7d);\n".toList
    ++ "Object.defineProperty(exports, \"c\", \x7b enumerable: true, ".toList
    ++ "get: function () \x7b return c; \x7d \x7d);\n".toList
    ++ "var __dep0 = require(\"./b\");\n".toList
    ++ "a\n\n(c)\nexports[\"default\"] = class extends D \x7b\x7d\n\x60t\x60\n\n[0]\n".toList

-- A call behind a removed import, a tagged template behind a class, an index behind an export list.
theorem seamed_parts : ∃ analysis parsed, analyzeSource seamedSource = .ok analysis ∧
    Syntax.parse (mask seamedSource) = .ok parsed ∧
    (seams seamedSource analysis parsed).map (fun seam => (seam.left.text, seam.right.text))
      = [(['a'], ['(']), (['\x7d'], ['\x60', 't', '\x60']), (['\x60', 't', '\x60'], ['['])] ∧
    (analysis.transpiled seamedSource).code = seamedCode := by
  have found : (analyzeSource seamedSource).toOption.bind (fun analysis =>
      (Syntax.parse (mask seamedSource)).toOption.map fun parsed =>
        ((seams seamedSource analysis parsed).map fun seam => (seam.left.text, seam.right.text),
          analysis.declarations.isEmpty,
          analysis.prologue ++ '\n' :: replaced (analysis.spans seamedSource) 0 seamedSource))
      = some ([(['a'], ['(']), (['\x7d'], ['\x60', 't', '\x60']), (['\x60', 't', '\x60'], ['['])],
          false, seamedCode) := by
    unfold seamedSource seamedCode
    repeat rw [String.toList_ofList]
    decide +kernel
  obtain ⟨analysis, given, rest⟩ := Option.bind_eq_some_iff.mp found
  obtain ⟨parsed, read, shown⟩ := ok_of_toOption_map rest
  have analyzed := ok_of_toOption given
  simp only [Prod.mk.injEq, List.isEmpty_eq_false_iff] at shown
  obtain ⟨seams, some_, code⟩ := shown
  exact ⟨analysis, parsed, analyzed, read, seams, (transpiled_code analyzed some_).trans code⟩

theorem seamed_accepted : ∃ result, transpile seamedSource = .ok result := by
  obtain ⟨analysis, _, analyzed, _⟩ := seamed_parts
  exact ⟨analysis.transpiled seamedSource, by rw [transpile, analyzed]; rfl⟩

theorem seamed_joined : ∃ result analysis parsed, transpile seamedSource = .ok result ∧
    analyzeSource seamedSource = .ok analysis ∧ Syntax.parse (mask seamedSource) = .ok parsed ∧
    (seams seamedSource analysis parsed).length = 3 ∧
    ∀ seam ∈ seams seamedSource analysis parsed,
      Between Lexeme.Gap seamedSource analysis result.code seam := by
  obtain ⟨result, accepted⟩ := seamed_accepted
  obtain ⟨analysis, parsed, analyzed, read, joined, _⟩ := statements_parted_iff accepted
  obtain ⟨analysis', parsed', analyzed', read', three, _⟩ := seamed_parts
  rw [analyzed] at analyzed'
  rw [read] at read'
  cases analyzed'
  cases read'
  have size := congrArg List.length three
  rw [List.length_map] at size
  exact ⟨result, analysis, parsed, accepted, analyzed, read, size, joined⟩

-- No semicolon stands where the import was: the code calls what it names in front of it.
theorem seamed_unparted : ∃ result analysis parsed, transpile seamedSource = .ok result ∧
    analyzeSource seamedSource = .ok analysis ∧ Syntax.parse (mask seamedSource) = .ok parsed ∧
    result.code = seamedCode ∧ ∃ seam ∈ seams seamedSource analysis parsed,
      seam.left.text = ['a'] ∧ seam.right.text = ['('] ∧
      ¬ Between Lexeme.Parted seamedSource analysis result.code seam := by
  obtain ⟨analysis, parsed, analyzed, read, three, code⟩ := seamed_parts
  have accepted : transpile seamedSource = .ok (analysis.transpiled seamedSource) := by
    rw [transpile, analyzed]
    rfl
  refine ⟨_, analysis, parsed, accepted, analyzed, read, code, ?_⟩
  obtain ⟨seam, rest, all, first, _⟩ := List.map_eq_cons_iff.mp three
  have among : seam ∈ seams seamedSource analysis parsed := all ▸ List.mem_cons_self
  simp only [Prod.mk.injEq] at first
  exact ⟨seam, among, first.1, first.2, not_parted_of_joined (seams_joined analyzed read seam among)⟩

end Rewriting
end ModuleBundler
