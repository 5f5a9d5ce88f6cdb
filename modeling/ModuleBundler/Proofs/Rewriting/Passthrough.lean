import Mathlib.Data.List.Sort
import ModuleBundler.Proofs.Rewriting.Items

/-!
The rewritten module is its source with the spans of its edits replaced, and every other character
keeps its line.
-/
namespace ModuleBundler

theorem Text.length_lines (text : Text) : (lines text).length = newlines text + 1 := by
  induction text with
  | nil => rfl
  | cons c rest ih =>
    unfold lines newlines at ih ⊢
    rw [splitOn]
    split
    · rename_i broken
      rw [List.length_cons, ih, beq_iff_eq.mp broken, List.count_cons_self]
    · rename_i unbroken
      rw [List.count_cons_of_ne (by simpa using unbroken)]
      cases parts : splitOn '\n' rest with
      | nil => exact absurd parts (splitOn_ne_nil _ _)
      | cons part parts' => rw [← ih, parts, List.length_cons, List.length_cons]

namespace Rewriting

-- Whether an edit takes out the character at a place.
def covers (position : Nat) (edit : Edit) : Bool := edit.start ≤ position && position < edit.stop

-- A text that begins at `position`, with the texts of the edits in place of the characters that
-- they take out.
def replaced (edits : List Edit) (position : Nat) : Text → Text
  | [] => []
  | c :: rest =>
    (edits.filter (·.start == position)).flatMap Edit.text
      ++ (if edits.any (covers position) then [] else [c])
      ++ replaced edits (position + 1) rest

theorem replaced_append (edits : List Edit) (position : Nat) (front back : Text) :
    replaced edits position (front ++ back)
      = replaced edits position front ++ replaced edits (position + front.length) back := by
  induction front generalizing position with
  | nil => rfl
  | cons c front ih =>
    have places : position + 1 + front.length = position + (c :: front).length := by
      rw [List.length_cons]
      omega
    rw [List.cons_append, replaced, replaced, ih, places, List.append_assoc _ _ (replaced edits _ back)]

theorem not_covers_of_apart (proper : edit.start < edit.stop)
    (apart : edit.stop ≤ position ∨ position < edit.start) :
    (edit.start == position) = false ∧ covers position edit = false := by
  simp only [covers, Bool.and_eq_false_iff, decide_eq_false_iff_not, beq_eq_false_iff_ne]
  omega

-- Where no edit lies nothing is replaced.
theorem replaced_untouched (text : Text)
    (apart : ∀ edit ∈ edits, edit.start < edit.stop ∧
      (edit.stop ≤ position ∨ position + text.length ≤ edit.start)) :
    replaced edits position text = text := by
  induction text generalizing position with
  | nil => rfl
  | cons c rest ih =>
    rw [List.length_cons] at apart
    have free : ∀ edit ∈ edits, (edit.start == position) = false ∧ covers position edit = false := by
      intro edit among
      obtain ⟨proper, beside⟩ := apart edit among
      exact not_covers_of_apart proper (by omega)
    have none_here : edits.filter (·.start == position) = [] :=
      List.filter_eq_nil_iff.mpr fun edit among => by simp [(free edit among).1]
    have uncovered : edits.any (covers position) = false :=
      List.any_eq_false.mpr fun edit among => by simp [(free edit among).2]
    have later : replaced edits (position + 1) rest = rest := ih fun edit among =>
      ⟨(apart edit among).1, by have beside := (apart edit among).2; omega⟩
    rw [replaced, none_here, uncovered, later]
    rfl

theorem replaced_nil (position : Nat) (text : Text) : replaced [] position text = text :=
  replaced_untouched text (by simp)

-- An edit that has been passed does nothing any more.
theorem replaced_behind (edit : Edit) (text : Text) (proper : edit.start < edit.stop)
    (passed : edit.stop ≤ position) :
    replaced (edit :: edits) position text = replaced edits position text := by
  induction text generalizing position with
  | nil => rfl
  | cons c rest ih =>
    obtain ⟨other, uncovered⟩ := not_covers_of_apart proper (.inl passed)
    rw [replaced, replaced, List.filter_cons, other, List.any_cons, uncovered, ih (by omega)]
    rfl

-- Edits behind a text do nothing to it, and neither do those that have been passed.
theorem replaced_ahead {earlier later : List Edit} (text : Text)
    (ahead : ∀ edit ∈ later, position + text.length ≤ edit.start) :
    replaced (earlier ++ later) position text = replaced earlier position text := by
  induction text generalizing position with
  | nil => rfl
  | cons c rest ih =>
    rw [List.length_cons] at ahead
    have none_here : later.filter (·.start == position) = [] := by
      refine List.filter_eq_nil_iff.mpr fun edit among => ?_
      have beyond := ahead edit among
      simp only [beq_iff_eq]
      omega
    have uncovered : later.any (covers position) = false := by
      refine List.any_eq_false.mpr fun edit among => ?_
      have beyond := ahead edit among
      simp only [covers, Bool.and_eq_true, decide_eq_true_eq]
      omega
    have later_ahead : ∀ edit ∈ later, position + 1 + rest.length ≤ edit.start := fun edit among => by
      have beyond := ahead edit among
      omega
    rw [replaced, replaced, List.filter_append, none_here, List.append_nil, List.any_append, uncovered,
      Bool.or_false, ih later_ahead]

theorem replaced_passed {earlier later : List Edit} (text : Text)
    (passed : ∀ edit ∈ earlier, edit.start < edit.stop ∧ edit.stop ≤ position) :
    replaced (earlier ++ later) position text = replaced later position text := by
  induction earlier with
  | nil => rfl
  | cons edit earlier ih =>
    obtain ⟨proper, behind⟩ := passed edit List.mem_cons_self
    rw [List.cons_append, replaced_behind edit text proper behind]
    exact ih fun other among => passed other (List.mem_cons_of_mem _ among)

theorem replaced_swallowed (text : Text) (among : edit ∈ edits) (inside : edit.start < position)
    (within : position + text.length ≤ edit.stop)
    (alone : ∀ other ∈ edits, other.start < position ∨ position + text.length ≤ other.start) :
    replaced edits position text = [] := by
  induction text generalizing position with
  | nil => rfl
  | cons c rest ih =>
    rw [List.length_cons] at within alone
    have none_here : edits.filter (·.start == position) = [] := by
      refine List.filter_eq_nil_iff.mpr fun other member => ?_
      have beside := alone other member
      simp only [beq_iff_eq]
      omega
    have covered : edits.any (covers position) = true := by
      refine List.any_eq_true.mpr ⟨edit, among, ?_⟩
      simp only [covers, Bool.and_eq_true, decide_eq_true_eq]
      omega
    have later : replaced edits (position + 1) rest = [] := ih (by omega) (by omega) fun other member => by
      have beside := alone other member
      omega
    rw [replaced, none_here, covered, later]
    rfl

-- The span of an edit gives way to the text of the edit.
theorem replaced_span (edit : Edit) (text : Text) (proper : edit.start < edit.stop)
    (size : edit.start + text.length = edit.stop)
    (ordered : Span.Ordered edit.stop high (edits.map Edit.span)) :
    replaced (edit :: edits) edit.start text = edit.text := by
  have behind : ∀ other ∈ edits, edit.stop ≤ other.start := fun other among =>
    (ordered.bounds other.span (List.mem_map_of_mem among)).1
  cases text with
  | nil =>
    rw [List.length_nil] at size
    omega
  | cons c rest =>
    rw [List.length_cons] at size
    have alone : edits.filter (·.start == edit.start) = [] := by
      refine List.filter_eq_nil_iff.mpr fun other among => ?_
      have beyond := behind other among
      simp only [beq_iff_eq]
      omega
    have covered : covers edit.start edit = true := by
      simp only [covers, Bool.and_eq_true, decide_eq_true_eq]
      omega
    have swallowed : replaced (edit :: edits) (edit.start + 1) rest = [] := by
      refine replaced_swallowed rest List.mem_cons_self (Nat.lt_succ_self _) (by omega) ?_
      intro other among
      rcases List.mem_cons.mp among with rfl | later
      · exact .inl (Nat.lt_succ_self _)
      · have beyond := behind other later
        omega
    rw [replaced, List.filter_cons, alone, List.any_cons, covered, swallowed]
    simp

-- A text cut around the span of its first edit.
theorem parts_around (text : Text) (edit : Edit) (after : position ≤ edit.start)
    (proper : edit.start < edit.stop) :
    text = text.take (edit.start - position)
      ++ ((text.drop (edit.start - position)).take (edit.stop - edit.start)
        ++ text.drop (edit.stop - position)) := by
  have later : edit.stop - position = edit.start - position + (edit.stop - edit.start) := by omega
  rw [later, ← List.drop_drop, List.take_append_drop, List.take_append_drop]

theorem replaced_cons (edit : Edit) (text : Text)
    (ordered : Span.Ordered position high ((edit :: edits).map Edit.span))
    (long : edit.stop ≤ position + text.length) :
    replaced (edit :: edits) position text
      = text.take (edit.start - position) ++ edit.text
        ++ replaced edits edit.stop (text.drop (edit.stop - position)) := by
  obtain ⟨after, proper, later⟩ := ordered
  simp only [Edit.span] at after proper later
  have size : (text.take (edit.start - position)).length = edit.start - position := by
    rw [List.length_take]
    omega
  have span : ((text.drop (edit.start - position)).take (edit.stop - edit.start)).length
      = edit.stop - edit.start := by
    rw [List.length_take, List.length_drop]
    omega
  have front : replaced (edit :: edits) position (text.take (edit.start - position))
      = text.take (edit.start - position) := by
    refine replaced_untouched _ fun other among => ?_
    rcases List.mem_cons.mp among with rfl | behind
    · exact ⟨proper, .inr (by omega)⟩
    · obtain ⟨beyond, proper', _⟩ := later.bounds other.span (List.mem_map_of_mem behind)
      simp only [Edit.span] at beyond proper'
      exact ⟨proper', .inr (by omega)⟩
  conv_lhs => rw [parts_around text edit after proper]
  rw [replaced_append, replaced_append, front, size, span, show position + (edit.start - position)
    = edit.start by omega, replaced_span edit _ proper (by omega) later, show edit.start + (edit.stop -
    edit.start) = edit.stop by omega, replaced_behind edit _ proper (Nat.le_refl _), List.append_assoc]

-- Edits in order are carried out at their places.
theorem applyEdits_eq_replaced
    (ordered : Span.Ordered position (position + text.length) (edits.map Edit.span)) :
    applyEdits position text edits = replaced edits position text := by
  induction edits generalizing position text with
  | nil => exact (replaced_nil position text).symm
  | cons edit edits ih =>
    obtain ⟨after, proper, later⟩ := ordered
    have stop_le := later.le
    simp only [Edit.span] at after proper later stop_le
    have size : edit.stop + (text.drop (edit.stop - position)).length = position + text.length := by
      rw [List.length_drop]
      omega
    rw [applyEdits, ih (size ▸ later), replaced_cons edit text ⟨after, proper, later⟩ stop_le]

-- Up to a place that no edit takes out, the number of line breaks is that of the source.
theorem newlines_replaced (fit : Edit.Fit source position high edits)
    (long : position + count ≤ source.length)
    (free : ∀ edit ∈ edits, edit.stop ≤ position + count ∨ position + count ≤ edit.start) :
    Text.newlines (replaced edits position ((source.drop position).take count))
      = Text.newlines ((source.drop position).take count) := by
  induction edits generalizing position count with
  | nil => rw [replaced_nil]
  | cons edit edits ih =>
    obtain ⟨after, proper, later⟩ := fit.ordered
    simp only [Edit.span] at after proper later
    have size : ((source.drop position).take count).length = count := by
      rw [List.length_take, List.length_drop]
      omega
    rcases free edit List.mem_cons_self with passed | ahead
    · have rest : Edit.Fit source edit.stop high edits :=
        ⟨later, fun other among => fit.breaks other (List.mem_cons_of_mem _ among)⟩
      have inside : edit.stop + (position + count - edit.stop) ≤ source.length := by omega
      have counted := ih rest inside fun other among => by
        have beside := free other (List.mem_cons_of_mem _ among)
        omega
      have removed : (((source.drop position).take count).drop (edit.start - position)).take
          (edit.stop - edit.start) = edit.removed source := by
        have start : position + (edit.start - position) = edit.start := by omega
        have least : min (edit.stop - edit.start) (count - (edit.start - position))
            = edit.stop - edit.start := by omega
        rw [List.drop_take, List.drop_drop, List.take_take, Edit.removed, start, least]
      have behind : ((source.drop position).take count).drop (edit.stop - position)
          = (source.drop edit.stop).take (position + count - edit.stop) := by
        have stop : position + (edit.stop - position) = edit.stop := by omega
        have left : count - (edit.stop - position) = position + count - edit.stop := by omega
        rw [List.drop_take, List.drop_drop, stop, left]
      have breaks := fit.breaks edit List.mem_cons_self
      have parts := parts_around ((source.drop position).take count) edit after proper
      rw [removed, behind] at parts
      rw [replaced_cons edit _ fit.ordered (by omega), behind]
      conv_rhs => rw [parts]
      unfold Text.newlines at counted breaks ⊢
      simp only [List.count_append, counted, breaks, Nat.add_assoc]
    · rw [replaced_untouched]
      intro other among
      rw [size]
      rcases List.mem_cons.mp among with rfl | behind
      · exact ⟨proper, .inr ahead⟩
      · obtain ⟨beyond, proper', _⟩ := later.bounds other.span (List.mem_map_of_mem behind)
        simp only [Edit.span] at beyond proper'
        exact ⟨proper', .inr (by omega)⟩

variable {edits others : List Edit}

-- At most one of several edits that lie one behind the other begins at a place.
theorem filter_start_le_one (ordered : Span.Ordered low high (edits.map Edit.span)) (position : Nat) :
    (edits.filter (·.start == position)).length ≤ 1 := by
  induction edits generalizing low with
  | nil => exact Nat.zero_le 1
  | cons edit edits ih =>
    obtain ⟨_, proper, later⟩ := ordered
    simp only [Edit.span] at proper later
    rw [List.filter_cons]
    split
    · rename_i here
      have rest : edits.filter (·.start == position) = [] := by
        refine List.filter_eq_nil_iff.mpr fun other among => ?_
        have beyond := (later.bounds other.span (List.mem_map_of_mem among)).1
        simp only [Edit.span] at beyond
        simp only [beq_iff_eq] at here ⊢
        omega
      rw [rest]
      exact Nat.le_refl 1
    · exact ih later

theorem eq_of_start (ordered : Span.Ordered low high (edits.map Edit.span)) (among : edit ∈ edits)
    (also : other ∈ edits) (same : edit.start = other.start) : edit = other := by
  have few := filter_start_le_one ordered other.start
  have here : edit ∈ edits.filter (·.start == other.start) := by simp [among, same]
  have there : other ∈ edits.filter (·.start == other.start) := by simp [also]
  match found : edits.filter (·.start == other.start) with
  | [] =>
    rw [found] at here
    cases here
  | [only] =>
    rw [found] at here there
    exact (List.mem_singleton.mp here).trans (List.mem_singleton.mp there).symm
  | _ :: _ :: _ =>
    rw [found] at few
    simp at few

-- The order in which the edits are listed does not matter.
theorem replaced_perm (perm : others.Perm edits)
    (ordered : Span.Ordered low high (edits.map Edit.span)) (position : Nat) (text : Text) :
    replaced others position text = replaced edits position text := by
  induction text generalizing position with
  | nil => rfl
  | cons c rest ih =>
    have starting : others.filter (·.start == position) = edits.filter (·.start == position) := by
      have filtered := perm.filter (·.start == position)
      have few := filter_start_le_one ordered position
      match found : edits.filter (·.start == position) with
      | [] =>
        rw [found, List.perm_nil] at filtered
        exact filtered.trans found.symm
      | [edit] =>
        rw [found, List.perm_singleton] at filtered
        exact filtered.trans found.symm
      | _ :: _ :: _ =>
        rw [found] at few
        simp at few
    rw [replaced, replaced, starting, perm.any_eq, ih]

theorem sortedEdits_eq (perm : others.Perm edits)
    (ordered : Span.Ordered low high (edits.map Edit.span)) : sortedEdits others = edits := by
  let le (left right : Edit) : Bool :=
    left.start < right.start || (left.start == right.start && left.stop ≤ right.stop)
  have le_iff : ∀ left right, le left right = true ↔
      left.start < right.start ∨ (left.start = right.start ∧ left.stop ≤ right.stop) := by
    simp [le]
  have trans : ∀ a b c, le a b = true → le b c = true → le a c = true := by
    intro a b c
    simp only [le_iff]
    omega
  have total : ∀ a b, (le a b || le b a) = true := by
    intro a b
    simp only [Bool.or_eq_true, le_iff]
    omega
  have apart := List.pairwise_map.mp ordered.pairwise
  have proper : ∀ edit ∈ edits, edit.start < edit.stop := fun edit among =>
    (ordered.bounds edit.span (List.mem_map_of_mem among)).2.1
  have inOrder : edits.Pairwise fun left right => le left right = true := by
    refine apart.imp_of_mem fun {left right} leftAmong _ before => ?_
    have size := proper left leftAmong
    simp only [Edit.span] at before
    rw [le_iff]
    omega
  have sorted : (sortedEdits others).Pairwise fun left right => le left right = true :=
    List.pairwise_mergeSort trans total others
  have same : (sortedEdits others).Perm edits := (List.mergeSort_perm others _).trans perm
  refine same.eq_of_pairwise (fun a b aAmong bAmong before behind => ?_) sorted inOrder
  rw [le_iff] at before behind
  exact eq_of_start ordered (same.mem_iff.mp aAmong) bAmong (by omega)

theorem ok_of_mapError {first : Except ε α} {change : ε → δ} (read : first.mapError change = .ok found) :
    first = .ok found := by
  cases first with
  | error fault => cases read
  | ok result =>
    cases read
    rfl

-- Reading several things reads each of them.
theorem forall₂_of_mapM {read : α → Except ε β} {sources : List α}
    (all : sources.mapM read = .ok found) :
    List.Forall₂ (fun source found => read source = .ok found) sources found := by
  induction sources generalizing found with
  | nil =>
    cases all
    exact .nil
  | cons source sources ih =>
    rw [List.mapM_cons] at all
    obtain ⟨first, here, behind⟩ := ok_of_bind all
    obtain ⟨rest, later, same⟩ := ok_of_bind behind
    cases same
    exact .cons here (ih later)

theorem items_covers {items : List Syntax.Item} (read : items.mapM sibling = .ok siblings) :
    List.Forall₂ Covers siblings (items.map Syntax.Item.tokens) := by
  rw [List.forall₂_map_right_iff]
  exact (forall₂_of_mapM read).flip.imp fun _ _ => sibling_covers

-- What an analysis holds: the declarations of its items with what they import and export, and
-- reference edits where names are live.
theorem analyze_parts (analyzed : analyze parsed = .ok analysis) :
    ∃ items, parsed.items.mapM sibling = .ok items ∧ analysis.declarations = declarations items ∧
      analysis.imports = Prologue.imports (Sibling.localNames items) analysis.declarations ∧
      analysis.getters = (analysis.declarations.flatMap (Prologue.exports analysis.imports)).filterMap
        (fun (name, expression?) => expression?.map (Statement.getter name)) ∧
      (analysis.edits = [] ∨ analysis.edits = Reference.edits analysis.imports.live [] items) := by
  unfold analyze at analyzed
  obtain ⟨items, read, analyzed⟩ := ok_of_bind analyzed
  refine ⟨items, read, ?_⟩
  dsimp only at analyzed
  split at analyzed
  · rename_i nothing
    cases analyzed
    exact ⟨nothing.symm, rfl, rfl, .inl rfl⟩
  · split at analyzed
    · cases analyzed
    · cases analyzed
      refine ⟨rfl, rfl, rfl, ?_⟩
      dsimp only
      split
      · exact .inl rfl
      · exact .inr rfl

theorem analyzeSource_parts (analyzed : analyzeSource source = .ok analysis) :
    ∃ parsed, Syntax.parse (Masking.mask source) = .ok parsed ∧ analyze parsed = .ok analysis := by
  unfold analyzeSource at analyzed
  obtain ⟨parsed, accepted, meant⟩ := ok_of_bind analyzed
  exact ⟨parsed, ok_of_mapError accepted, ok_of_mapError meant⟩

theorem transpile_analysis (accepted : transpile source = .ok result) :
    ∃ analysis, analyzeSource source = .ok analysis ∧ analysis.transpiled source = result := by
  unfold transpile at accepted
  cases analyzed : analyzeSource source with
  | error fault =>
    rw [analyzed] at accepted
    cases accepted
  | ok analysis =>
    rw [analyzed] at accepted
    exact ⟨analysis, rfl, Except.ok.inj accepted⟩

-- Every span that is rewritten, with what takes its place.
def Analysis.spans (source : Text) (analysis : Analysis) : List Edit :=
  analysis.edits ++ analysis.declarations.map (declarationEdit source)

def Analysis.prologue (analysis : Analysis) : Text :=
  Prologue.render (analysis.declarations.any (!·.isImport)) analysis.getters
    analysis.imports.statements

theorem declarationEdits_sublist (source : Text) (live : LiveBindings)
    (before items : List Sibling) :
    ((declarations items).map (declarationEdit source)).Sublist
      (moduleEdits source live before items) := by
  induction items generalizing before with
  | nil => exact .slnil
  | cons item rest ih =>
    cases item with
    | declaration declaration =>
      rw [moduleEdits, declarations, List.map_cons]
      exact .cons_cons _ ((ih _).trans (List.sublist_append_right _ _))
    | importExpression children => exact (ih _).trans (List.sublist_append_right _ _)
    | node node => exact (ih _).trans (List.sublist_append_right _ _)

-- The spans of a module have an order in which they lie one behind the other.
theorem spans_fit (analyzed : analyzeSource source = .ok analysis) :
    ∃ inOrder, (analysis.spans source).Perm inOrder ∧ Edit.Fit source 0 source.length inOrder := by
  obtain ⟨parsed, accepted, meant⟩ := analyzeSource_parts analyzed
  obtain ⟨items, read, found, imports, _, edits⟩ := analyze_parts meant
  have laid := Syntax.parse_laid accepted
  rw [Masking.length_mask, List.flatMap_def] at laid
  rcases edits with none | edits
  · have unbroken : Reference.Unbroken [] := nofun
    have fit := (moduleEdits_fit unbroken [] (items_covers read) laid).1
    have fewer := declarationEdits_sublist source [] [] items
    refine ⟨_, .refl _, ?_⟩
    rw [Analysis.spans, none, List.nil_append, found]
    exact ⟨fit.ordered.sublist (fewer.map Edit.span), fun edit among => fit.breaks edit (fewer.subset among)⟩
  · have unbroken : Reference.Unbroken analysis.imports.live := imports ▸ Prologue.imports_unbroken _ _
    have fit := (moduleEdits_fit unbroken [] (items_covers read) laid).1
    refine ⟨_, ?_, fit⟩
    rw [Analysis.spans, edits, found]
    exact (moduleEdits_perm source analysis.imports.live [] items).symm

-- A kept character is the one behind the rewritten beginning of the source.
theorem replaced_split (kept : source[place]? = some c)
    (uncovered : edits.any (covers place) = false)
    (proper : ∀ edit ∈ edits, edit.start < edit.stop) :
    ∃ back, replaced edits 0 source = replaced edits 0 (source.take place) ++ c :: back := by
  obtain ⟨inside, rfl⟩ := List.getElem?_eq_some_iff.mp kept
  have size : 0 + (source.take place).length = place := by
    rw [List.length_take]
    omega
  have none_here : edits.filter (·.start == place) = [] := by
    refine List.filter_eq_nil_iff.mpr fun edit among starts => ?_
    have covering := List.any_eq_false.mp uncovered edit among
    have positive := proper edit among
    simp only [beq_iff_eq] at starts
    simp only [covers, Bool.and_eq_true, decide_eq_true_eq] at covering
    omega
  refine ⟨replaced edits (place + 1) (source.drop (place + 1)), ?_⟩
  conv_lhs => rw [← List.take_append_drop place source, List.drop_eq_getElem_cons inside]
  rw [replaced_append, size, replaced, none_here, uncovered]
  rfl

variable {source : Text} {analysis : Analysis}

theorem spans_proper (analyzed : analyzeSource source = .ok analysis) :
    ∀ edit ∈ analysis.spans source, edit.start < edit.stop ∧ edit.stop ≤ source.length := by
  obtain ⟨inOrder, perm, fit⟩ := spans_fit analyzed
  exact fun edit among => (fit.ordered.bounds edit.span (List.mem_map_of_mem (perm.mem_iff.mp among))).2

-- What a source with declarations becomes.
theorem transpiled_code (analyzed : analyzeSource source = .ok analysis)
    (some_ : analysis.declarations ≠ []) :
    (analysis.transpiled source).code
      = analysis.prologue ++ '\n' :: replaced (analysis.spans source) 0 source := by
  obtain ⟨inOrder, perm, fit⟩ := spans_fit analyzed
  have ordered : Span.Ordered 0 (0 + source.length) (inOrder.map Edit.span) := by
    rw [Nat.zero_add]
    exact fit.ordered
  rw [replaced_perm perm fit.ordered, ← applyEdits_eq_replaced ordered, ← sortedEdits_eq perm fit.ordered]
  unfold Analysis.transpiled Analysis.prologue Analysis.spans
  split
  · rename_i none
    exact absurd none some_
  · rfl

-- Up to a place between the spans the source keeps its lines.
theorem newlines_spans (analyzed : analyzeSource source = .ok analysis) (inside : place ≤ source.length)
    (free : ∀ edit ∈ analysis.spans source, edit.stop ≤ place ∨ place ≤ edit.start) :
    Text.newlines (replaced (analysis.spans source) 0 (source.take place))
      = Text.newlines (source.take place) := by
  obtain ⟨inOrder, perm, fit⟩ := spans_fit analyzed
  have within : 0 + place ≤ source.length := by omega
  have counted := newlines_replaced fit within fun edit among => by
    have beside := free edit (perm.mem_iff.mpr among)
    omega
  rw [List.drop_zero] at counted
  rw [replaced_perm perm fit.ordered, counted]

-- A source without declarations is its own code. Any other is kept but for the spans of its
-- declarations and references, which lie apart; nothing moves to another line, and the prologue
-- pushes all lines down by as many as it has.
theorem transpile_passthrough (accepted : transpile source = .ok result) :
    ∃ analysis, analyzeSource source = .ok analysis ∧
      (analysis.declarations = [] → result = ⟨⟨[]⟩, source⟩) ∧
      (analysis.declarations ≠ [] →
        (∀ edit ∈ analysis.spans source, edit.start < edit.stop ∧ edit.stop ≤ source.length) ∧
        (analysis.spans source).Pairwise
          (fun one other => one.stop ≤ other.start ∨ other.stop ≤ one.start) ∧
        (∀ edit ∈ analysis.spans source,
          Text.newlines edit.text = Text.newlines (edit.removed source)) ∧
        result.code = analysis.prologue ++ '\n' :: replaced (analysis.spans source) 0 source ∧
        ∀ (place : Nat) (c : Char), source[place]? = some c →
          (analysis.spans source).any (covers place) = false →
            ∃ front back, result.code = front ++ c :: back ∧
              front = analysis.prologue ++ '\n' :: replaced (analysis.spans source) 0 (source.take place) ∧
              Text.newlines front
                = Text.newlines (source.take place) + (Text.lines analysis.prologue).length) := by
  obtain ⟨analysis, analyzed, rfl⟩ := transpile_analysis accepted
  refine ⟨analysis, analyzed, ?_, ?_⟩
  · intro none
    simp [Analysis.transpiled, none]
  · intro some_
    obtain ⟨inOrder, perm, fit⟩ := spans_fit analyzed
    have bounds := spans_proper analyzed
    have code := transpiled_code analyzed some_
    refine ⟨bounds, ?_, ?_, code, ?_⟩
    · have apart : inOrder.Pairwise fun one other =>
          one.stop ≤ other.start ∨ other.stop ≤ one.start :=
        (List.pairwise_map.mp fit.ordered.pairwise).imp .inl
      exact (perm.pairwise_iff fun beside => beside.symm).mpr apart
    · intro edit among
      exact fit.breaks edit (perm.mem_iff.mp among)
    · intro place c kept uncovered
      obtain ⟨back, split⟩ := replaced_split kept uncovered fun edit among => (bounds edit among).1
      refine ⟨_, back, ?_, rfl, ?_⟩
      · rw [code, split, List.append_assoc, List.cons_append]
      · obtain ⟨inside, _⟩ := List.getElem?_eq_some_iff.mp kept
        have counted := newlines_spans analyzed (Nat.le_of_lt inside) fun edit among => by
          have covering := List.any_eq_false.mp uncovered edit among
          simp only [covers, Bool.and_eq_true, decide_eq_true_eq] at covering
          omega
        rw [Text.length_lines]
        unfold Text.newlines at counted ⊢
        rw [List.count_append, List.count_cons_self, counted]
        omega

def calledSource : Text := "import \x7b\n  a\n\x7d from './a';\nexport const b = a(1);\n".toList

def calledCode : Text :=
  "\"use strict\";\n".toList
    ++ "Object.defineProperty(exports, \"__esModule\", \x7b value: true \x7d);\n".toList
    ++ "Object.defineProperty(exports, \"b\", \x7b enumerable: true, ".toList
    ++ "get: function () \x7b return b; \x7d \x7d);\n".toList
    ++ "var __dep0 = require(\"./a\");\nvar a = __dep0[\"a\"];\n".toList
    ++ "\n\n\nvar b = __dep0[\"a\"](1);\n".toList

theorem transpile_called : ∃ result, transpile calledSource = .ok result ∧ result.code = calledCode := by
  have found : (analyzeSource calledSource).toOption.map (fun analysis =>
      (analysis.declarations.isEmpty,
        analysis.prologue ++ '\n' :: replaced (analysis.spans calledSource) 0 calledSource))
      = some (false, calledCode) := by
    unfold calledSource calledCode
    repeat rw [String.toList_ofList]
    decide +kernel
  obtain ⟨analysis, analyzed, shown⟩ := ok_of_toOption_map found
  simp only [Prod.mk.injEq, List.isEmpty_eq_false_iff] at shown
  have accepted : transpile calledSource = .ok (analysis.transpiled calledSource) := by
    rw [transpile, analyzed]
    rfl
  obtain ⟨same, analyzed', _, declared⟩ := transpile_passthrough accepted
  cases analyzed.symm.trans analyzed'
  obtain ⟨_, _, _, code, _⟩ := declared shown.1
  exact ⟨_, accepted, code.trans shown.2⟩

end Rewriting
end ModuleBundler
