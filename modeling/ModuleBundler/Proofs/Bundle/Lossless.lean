import ModuleBundler.Proofs.Bundle.Table
import ModuleBundler.Proofs.Json.Reading

/-!
What the string format keeps of a graph. It cannot end a script element that it stands in, every module is one
literal in printable ASCII, and the whole text can be taken apart in one way only. Two surrogates that stand
together are written and read like the character that they are the halves of; nothing else is lost.
-/
namespace ModuleBundler

namespace Literal

-- Text without a closing tag, in which nothing is left to guard.
def Guarded (text : Text) : Prop := guardClosers text = text

theorem guarded_slashless (absent : '/' ∉ text) : Guarded text :=
  Text.replace_absent (c := '/') (by decide) absent

theorem Guarded.cons (guarded : Guarded rest) (other : c = '<' → rest.head? ≠ some '/') :
    Guarded (c :: rest) := by
  rw [Guarded, guardClosers_cons c rest, guarded]
  intro later opens same
  exact other opens (by rw [same]; rfl)

theorem head_guardClosers (c : Char) (rest : Text) : (guardClosers (c :: rest)).head? = some c := by
  obtain ⟨later, rfl, rfl, guarded⟩ | ⟨_, kept⟩ := guardClosers_cases c rest
  · rw [guarded]
    rfl
  · rw [kept]
    rfl

theorem guarded_guardClosers (text : Text) : Guarded (guardClosers text) := by
  induction text with
  | nil => rfl
  | cons c rest ih =>
    obtain ⟨later, rfl, rfl, guarded⟩ | ⟨other, kept⟩ := guardClosers_cases c rest
    · rw [guarded]
      exact (ih.cons (c := '\\') fun opens => absurd opens (by decide)).cons fun _ => by simp
    · rw [kept]
      refine ih.cons fun opens slash => ?_
      cases rest with
      | nil => cases slash
      | cons d rest =>
        rw [head_guardClosers] at slash
        exact other rest opens (by rw [Option.some.inj slash])

theorem Guarded.no_closer (guarded : Guarded text) : ¬ ['<', '/'] <:+: text := by
  rintro ⟨before, after, rfl⟩
  have size := congrArg List.length guarded
  rw [List.append_assoc, guardClosers_append _ (by simp)] at size
  have first := length_guardClosers before
  have second := length_guardClosers after
  simp only [List.cons_append, List.nil_append, guardClosers_closer, List.length_append,
    List.length_cons] at size
  omega

-- Text without a closing tag that can stand behind any other.
structure Sheltered (text : Text) : Prop where
  guarded : Guarded text
  plain : text.head? ≠ some '/'

theorem Guarded.append (first : Guarded text) (second : Sheltered more) : Guarded (text ++ more) := by
  rw [Guarded, guardClosers_append more second.plain, first, second.guarded]

theorem Sheltered.append (first : Sheltered text) (second : Sheltered more) :
    Sheltered (text ++ more) := by
  refine ⟨first.guarded.append second, ?_⟩
  cases text with
  | nil => exact second.plain
  | cons c rest => exact first.plain

theorem sheltered_slashless (absent : '/' ∉ text) : Sheltered text :=
  ⟨guarded_slashless absent, fun begins => absent (List.mem_of_head? begins)⟩

theorem sheltered_writeCodes (codes : CodePoints) : Sheltered (writeCodes codes) := by
  refine ⟨guarded_guardClosers _, ?_⟩
  rw [writeCodes_body]
  exact fun same => absurd (Option.some.inj same) (by decide)

theorem sheltered_flatMap {written : α → Text} {parts : List α}
    (each : ∀ part ∈ parts, Sheltered (written part)) : Sheltered (parts.flatMap written) := by
  induction parts with
  | nil => exact ⟨rfl, nofun⟩
  | cons part parts ih =>
    rw [List.flatMap_cons]
    exact (each part List.mem_cons_self).append
      (ih fun part among => each part (List.mem_cons_of_mem _ among))

theorem sheltered_joinWith (separator : Sheltered between) (each : ∀ part ∈ parts, Sheltered part) :
    Sheltered (Text.joinWith between parts) := by
  cases parts with
  | nil => exact ⟨rfl, nofun⟩
  | cons part parts =>
    have listed := Text.joinWith_around between [] part parts
    simp only [List.nil_append, List.flatMap_nil] at listed
    rw [listed]
    exact (each part List.mem_cons_self).append (sheltered_flatMap fun part among =>
      separator.append (each part (List.mem_cons_of_mem _ among)))

end Literal

namespace Bundle

open Literal

theorem guarded_banner (count : Nat) (entry : Asset) : Guarded (banner count entry) := by
  obtain ⟨inner, parts, absent⟩ := banner_parts count entry
  have closing : Sheltered ['*', '/', '\n'] := ⟨rfl, by decide⟩
  rw [parts, List.cons_append, List.cons_append, List.append_assoc]
  exact (((guarded_slashless absent).append closing).cons fun opens => absurd opens (by decide)).cons
    fun opens => absurd opens (by decide)

theorem sheltered_tableOpening : Sheltered tableOpening := by
  obtain ⟨_, _, guarded, _⟩ := tableOpening_read
  obtain ⟨rest, parts⟩ := tableOpening_parts
  refine ⟨guardClosers_plain (by simpa using guarded), ?_⟩
  rw [parts]
  exact fun same => absurd (Option.some.inj same) (by decide)

-- How a list is taken apart: parts that end where a separator or the closing begins, which are told
-- from one another by how they begin. `shown` is what the text of a part tells about it.
structure Listing {α β : Type} (written : α → Text) (valid : α → Prop) (shown : α → β)
    (separator closing : Text) : Prop where
  cancel : ∀ first second more later, valid first → valid second →
    (separator <+: more ∨ closing <+: more) → (separator <+: later ∨ closing <+: later) →
    written first ++ more = written second ++ later → shown first = shown second ∧ more = later
  apart : ∀ more later, separator ++ more ≠ closing ++ later
  begins : ∀ part more later, written part ++ more ≠ closing ++ later

section
variable {α β : Type} {written : α → Text} {valid : α → Prop} {shown : α → β}
  {separator closing more later : Text}

theorem begins_behind (parts : List α) :
    separator <+: parts.flatMap (fun part => separator ++ written part) ++ (closing ++ more) ∨
      closing <+: parts.flatMap (fun part => separator ++ written part) ++ (closing ++ more) := by
  cases parts with
  | nil => exact .inr (List.prefix_append _ _)
  | cons part parts =>
    rw [List.flatMap_cons, List.append_assoc, List.append_assoc]
    exact .inl (List.prefix_append _ _)

theorem Listing.cancel_behind (listing : Listing written valid shown separator closing) (first second : List α)
    (sound : ∀ part ∈ first, valid part) (sound' : ∀ part ∈ second, valid part)
    (same : first.flatMap (fun part => separator ++ written part) ++ (closing ++ more)
      = second.flatMap (fun part => separator ++ written part) ++ (closing ++ later)) :
    first.map shown = second.map shown ∧ more = later := by
  induction first generalizing second with
  | nil =>
    cases second with
    | nil => exact ⟨rfl, List.append_cancel_left same⟩
    | cons other second =>
      rw [List.flatMap_cons, List.append_assoc, List.append_assoc] at same
      exact absurd same.symm (listing.apart _ _)
  | cons part first ih =>
    cases second with
    | nil =>
      rw [List.flatMap_cons, List.append_assoc, List.append_assoc] at same
      exact absurd same (listing.apart _ _)
    | cons other second =>
      obtain ⟨valid, rest⟩ := List.forall_mem_cons.mp sound
      obtain ⟨valid', rest'⟩ := List.forall_mem_cons.mp sound'
      simp only [List.flatMap_cons, List.append_assoc] at same
      obtain ⟨here, behind⟩ := listing.cancel _ _ _ _ valid valid' (begins_behind first)
        (begins_behind second) (List.append_cancel_left same)
      obtain ⟨others, ends⟩ := ih second rest rest' behind
      exact ⟨by rw [List.map_cons, List.map_cons, here, others], ends⟩

theorem joinWith_cons (part : α) (parts : List α) :
    Text.joinWith separator ((part :: parts).map written)
      = written part ++ parts.flatMap fun part => separator ++ written part := by
  have listed := Text.joinWith_around separator [] (written part) (parts.map written)
  rwa [List.nil_append, List.flatMap_nil, List.nil_append, List.flatMap_map] at listed

-- A list with its closing tells what its parts show.
theorem Listing.cancel_all (listing : Listing written valid shown separator closing) (first second : List α)
    (sound : ∀ part ∈ first, valid part) (sound' : ∀ part ∈ second, valid part)
    (same : Text.joinWith separator (first.map written) ++ (closing ++ more)
      = Text.joinWith separator (second.map written) ++ (closing ++ later)) :
    first.map shown = second.map shown ∧ more = later := by
  cases first with
  | nil =>
    cases second with
    | nil => exact ⟨rfl, List.append_cancel_left same⟩
    | cons other second =>
      rw [joinWith_cons, List.append_assoc] at same
      exact absurd same.symm (listing.begins _ _ _)
  | cons part first =>
    cases second with
    | nil =>
      rw [joinWith_cons, List.append_assoc] at same
      exact absurd same (listing.begins _ _ _)
    | cons other second =>
      obtain ⟨valid, rest⟩ := List.forall_mem_cons.mp sound
      obtain ⟨valid', rest'⟩ := List.forall_mem_cons.mp sound'
      rw [joinWith_cons, joinWith_cons, List.append_assoc, List.append_assoc] at same
      obtain ⟨here, behind⟩ := listing.cancel _ _ _ _ valid valid' (begins_behind first)
        (begins_behind second) same
      obtain ⟨others, ends⟩ := listing.cancel_behind first second rest rest' behind
      exact ⟨by rw [List.map_cons, List.map_cons, here, others], ends⟩
end

-- What a bundle tells about a module.
structure Content where
  id : Int
  code : CodePoints
  mapping : Dictionary CodePoints Int
  deriving DecidableEq, Repr

def content (asset : Asset) : Content := ⟨asset.id, withFinalNewline asset.code, asset.mapping⟩

namespace Content

def entryText (entry : CodePoints × Int) : Text :=
  memberText (Literal.writeCodes entry.1, Json.intText entry.2)

def text (content : Content) : Text :=
  Literal.write (Json.intText content.id) ++ ([':', ' ', '[']
    ++ ("new Function(\"require\", \"module\", \"exports\", ".toList
      ++ (Literal.writeCodes content.code ++ ([')', ',', ' ', '{']
        ++ (Text.joinWith [',', ' '] (content.mapping.map entryText) ++ (['}', ']'] ++ []))))))

-- All is made of code points that there are.
def Bounded (content : Content) : Prop :=
  content.code.Bounded ∧ ∀ entry ∈ content.mapping, CodePoints.Bounded entry.1

-- No two surrogates stand together.
def Parted (content : Content) : Prop :=
  content.code.Parted ∧ ∀ entry ∈ content.mapping, CodePoints.Parted entry.1

def joinedEntry (entry : CodePoints × Int) : CodePoints × Int := (CodePoints.joined entry.1, entry.2)

def joined (content : Content) : Content :=
  ⟨content.id, content.code.joined, content.mapping.map joinedEntry⟩

theorem joined_eq_iff (content : Content) : content.joined = content ↔ content.Parted := by
  have entries : content.mapping.map joinedEntry = content.mapping ↔
      ∀ entry ∈ content.mapping, CodePoints.Parted entry.1 := by
    have each := List.map_inj_left (f := joinedEntry) (g := fun entry => entry) (l := content.mapping)
    rw [List.map_id'] at each
    refine each.trans (forall₂_congr fun entry _ => ?_)
    rw [← CodePoints.joined_eq_iff, joinedEntry, Prod.ext_iff]
    exact and_iff_left rfl
  obtain ⟨id, code, mapping⟩ := content
  simp only [joined, Parted, Content.mk.injEq, true_and, CodePoints.joined_eq_iff, entries]

-- The text is the same with pairs joined.
theorem text_joined (content : Content) : content.joined.text = content.text := by
  have entries : entryText ∘ joinedEntry = entryText := by
    funext entry
    rw [Function.comp_apply, entryText, joinedEntry, Literal.writeCodes_joined]
    rfl
  simp only [text, joined, Literal.writeCodes_joined, List.map_map, entries]

end Content

open Content

theorem mapping_listing :
    Listing entryText (fun entry => entry.1.Bounded) joinedEntry [',', ' '] ['}', ']'] where
  cancel first second more later bounded bounded' ends ends' same := by
    have digitless : ∀ {more : Text}, [',', ' '] <+: more ∨ ['}', ']'] <+: more → Json.NotDigit more := by
      rintro _ (⟨rest, rfl⟩ | ⟨rest, rfl⟩) c same
      · cases same
        decide
      · cases same
        decide
    simp only [entryText, memberText, List.append_assoc] at same
    obtain ⟨key, rest⟩ := Literal.writeCodes_cancel bounded bounded' same
    obtain ⟨id, rest⟩ := Json.intText_cancel (digitless ends) (digitless ends')
      (List.append_cancel_left rest)
    exact ⟨Prod.ext key id, rest⟩
  apart more later same := absurd (List.cons.inj same).1 (by decide)
  begins entry more later same := by
    have quoted := congrArg List.head? same
    simp [entryText, memberText, Literal.writeCodes_body] at quoted

theorem function_string (code : CodePoints) :
    (Body.string code).render
      = "new Function(\"require\", \"module\", \"exports\", ".toList
        ++ (Literal.writeCodes code ++ [')']) := by
  have opening : "new Function(".toList ++ (Literal.write "require".toList ++ (", ".toList
      ++ (Literal.write "module".toList ++ (", ".toList ++ (Literal.write "exports".toList
        ++ ", ".toList))))) = "new Function(\"require\", \"module\", \"exports\", ".toList := by
    decide +kernel
  rw [render_string, ← opening]
  simp only [parameters, List.map_cons, List.map_nil, List.cons_append, List.nil_append, Text.joinWith,
    List.append_assoc]

theorem rowOf_content (asset : Asset) : (rowOf .string asset).text = (content asset).text := by
  have body : body .string asset.code = .string (withFinalNewline asset.code) := rfl
  simp only [Row.text, rowOf, body, function_string, content, Content.text, List.map_map,
    List.append_assoc, List.cons_append, List.nil_append, List.append_nil]
  rfl

theorem rows_listing : Listing Content.text Content.Bounded joined [',', '\n'] "\n\x7d, 0);\n".toList where
  cancel first second more later bounded bounded' _ _ same := by
    simp only [Content.text, List.append_assoc, List.nil_append] at same
    obtain ⟨key, same⟩ := Literal.write_cancel same
    have ids : Json.intText first.id ++ [] = Json.intText second.id ++ [] := by simpa using key
    have id : first.id = second.id := by
      refine (Json.intText_cancel ?_ ?_ ids).1 <;> nofun
    obtain ⟨code, same⟩ := Literal.writeCodes_cancel bounded.1 bounded'.1
      (List.append_cancel_left (List.append_cancel_left same))
    obtain ⟨mapping, same⟩ := mapping_listing.cancel_all _ _ bounded.2 bounded'.2
      (List.append_cancel_left same)
    refine ⟨?_, same⟩
    rw [joined, joined, id, code, mapping]
  apart more later same := absurd (List.cons.inj same).1 (by decide)
  begins content more later same := by
    have quoted := congrArg List.head? same
    simp [Content.text, Literal.write, Literal.writeCodes_body] at quoted

-- The bundle that some contents make, in the string format and without a banner.
def contentsText (contents : List Content) : Text :=
  tableOpening ++ (Text.joinWith [',', '\n'] (contents.map Content.text) ++ "\n\x7d, 0);\n".toList)

-- Contents have one text exactly if they are the same with pairs joined.
theorem contentsText_eq_iff {first second : List Content} (bounded : ∀ content ∈ first, content.Bounded)
    (bounded' : ∀ content ∈ second, content.Bounded) :
    contentsText first = contentsText second ↔ first.map joined = second.map joined := by
  constructor
  · intro same
    have table := List.append_cancel_left same
    rw [← List.append_nil "\n\x7d, 0);\n".toList] at table
    exact (rows_listing.cancel_all _ _ bounded bounded' table).1
  · intro same
    have texts : ∀ contents : List Content,
        contents.map Content.text = (contents.map joined).map Content.text := fun contents => by
      simp only [List.map_map, Function.comp_def, text_joined]
    rw [contentsText, contentsText, texts first, same, ← texts second]

theorem sheltered_content (content : Content) : Sheltered content.text := by
  have separator : Sheltered [',', ' '] := sheltered_slashless (by decide)
  have number : ∀ n, '/' ∉ Json.natText n := fun n member =>
    absurd (Json.natText_digits n _ member) (by decide)
  have entry : ∀ entry, Sheltered (entryText entry) := by
    intro entry
    refine (sheltered_writeCodes _).append (sheltered_slashless ?_)
    unfold Json.intText
    split <;> simp [number]
  have entries : Sheltered (Text.joinWith [',', ' '] (content.mapping.map entryText)) := by
    refine sheltered_joinWith separator fun part among => ?_
    obtain ⟨listed, _, rfl⟩ := List.mem_map.mp among
    exact entry listed
  have opening : Sheltered "new Function(\"require\", \"module\", \"exports\", ".toList :=
    sheltered_slashless (by decide +kernel)
  have keyed : Sheltered [':', ' ', '['] := sheltered_slashless (by decide)
  have mapped : Sheltered [')', ',', ' ', '{'] := sheltered_slashless (by decide)
  have closing : Sheltered (['}', ']'] ++ []) := sheltered_slashless (by decide)
  have behind := (sheltered_writeCodes content.code).append (mapped.append (entries.append closing))
  exact (sheltered_writeCodes _).append (keyed.append (opening.append behind))

theorem sheltered_contentsText (contents : List Content) : Sheltered (contentsText contents) := by
  have separator : Sheltered [',', '\n'] := sheltered_slashless (by decide)
  have closing : Sheltered "\n\x7d, 0);\n".toList := sheltered_slashless (by decide +kernel)
  refine sheltered_tableOpening.append (Sheltered.append (sheltered_joinWith separator ?_) closing)
  intro part among
  obtain ⟨content, _, rfl⟩ := List.mem_map.mp among
  exact sheltered_content content

theorem guarded_bannerText (hasBanner : Bool) (graph : Graph) : Guarded (bannerText hasBanner graph) := by
  unfold bannerText
  split
  · rfl
  · split
    · exact guarded_banner _ _
    · rfl

-- A function whose body is one literal in printable ASCII, and what the literal reads back as.
def HoldsLiteral (function : Text) (value : Json) : Prop :=
  ∃ literal, function
      = "new Function(\"require\", \"module\", \"exports\", ".toList ++ (literal ++ [')']) ∧
    literal.head? = some '"' ∧ (∀ c ∈ literal, Text.Visible c) ∧ Json.read literal = .ok value

theorem holdsLiteral_render {code : CodePoints} (bounded : code.Bounded) :
    HoldsLiteral (Body.string code).render (Json.ofCodePoints code.joined) := by
  refine ⟨Literal.writeCodes code, function_string code, ?_, Literal.writeCodes_visible code,
    Json.read_writeCodes bounded⟩
  rw [Literal.writeCodes_body]
  rfl

theorem holdsLiteral_row (asset : Asset) :
    HoldsLiteral (rowOf .string asset).function (.string (withFinalNewline asset.code)) := by
  have held := holdsLiteral_render (CodePoints.bounded_ofText (withFinalNewline asset.code))
  rw [CodePoints.joined_ofText, Json.ofCodePoints_ofText] at held
  exact held

theorem emit_contents (hasBanner : Bool) (some_ : graph ≠ []) :
    (emit .string hasBanner graph).outcome
      = .ok (bannerText hasBanner graph ++ contentsText (graph.map content)) := by
  have rows : (graph.map (rowOf .string)).map Row.text = (graph.map content).map Content.text := by
    simp only [List.map_map, Function.comp_def, rowOf_content]
  rw [emit_rows .string hasBanner some_, rows]
  rfl

theorem bounded_content (bounded : ∀ key ∈ asset.mapping.keys, CodePoints.Bounded key) :
    (content asset).Bounded :=
  ⟨CodePoints.bounded_ofText _, fun _ among => bounded _ (List.mem_map_of_mem among)⟩

-- What holds of every specifier that a graph sends anywhere.
def EachKey (holds : CodePoints → Prop) (graph : Graph) : Prop :=
  ∀ asset ∈ graph, ∀ key ∈ asset.mapping.keys, holds key

theorem bounded_contents {graph : Graph} (bounded : EachKey CodePoints.Bounded graph) :
    ∀ part ∈ graph.map content, part.Bounded := by
  intro part among
  obtain ⟨asset, member, rfl⟩ := List.mem_map.mp among
  exact bounded_content (bounded asset member)

-- Where no two halves stand together, joining changes nothing.
theorem joined_contents {graph : Graph} (parted : EachKey CodePoints.Parted graph) :
    (graph.map content).map joined = graph.map content := by
  rw [List.map_map]
  refine List.map_congr_left fun asset among => ?_
  exact (joined_eq_iff _).mpr ⟨CodePoints.parted_ofText _,
    fun _ listed => parted asset among _ (List.mem_map_of_mem listed)⟩

-- Bundles without a banner are the same if the contents are, with pairs joined. An empty graph has none.
theorem emit_same_iff {graph other : Graph} (some_ : graph ≠ [])
    (bounded : EachKey CodePoints.Bounded graph) (bounded' : EachKey CodePoints.Bounded other) :
    (emit .string false other).outcome = (emit .string false graph).outcome ↔
      (other.map content).map joined = (graph.map content).map joined := by
  rw [emit_contents false some_]
  obtain ⟨entry, graph, rfl⟩ := List.exists_cons_of_ne_nil some_
  cases other with
  | nil => exact iff_of_false nofun nofun
  | cons asset other =>
    rw [emit_contents false (List.cons_ne_nil _ _), Except.ok.injEq]
    exact contentsText_eq_iff (bounded_contents bounded') (bounded_contents bounded)

-- In the string format every graph has a bundle without a closing tag, in which each module is one literal.
-- The bundle is the text of its contents, and contents have one text exactly if they are the same with pairs
-- joined. So the text tells the contents of graphs in which no two halves stand together.
theorem string_format_lossless {graph : Graph} (some_ : graph ≠ [])
    (bounded : EachKey CodePoints.Bounded graph) :
    (∀ hasBanner, (emit .string hasBanner graph).outcome
        = .ok (bannerText hasBanner graph ++ contentsText (graph.map content)) ∧
      ¬ ['<', '/'] <:+: bannerText hasBanner graph ++ contentsText (graph.map content)) ∧
    (∀ asset ∈ graph,
      HoldsLiteral (rowOf .string asset).function (.string (withFinalNewline asset.code))) ∧
    (∀ contents : List Content, (∀ part ∈ contents, part.Bounded) →
      (¬ ['<', '/'] <:+: contentsText contents) ∧
      (∀ part ∈ contents, HoldsLiteral (Body.string part.code).render
        (Json.ofCodePoints part.code.joined)) ∧
      ∀ others : List Content, (∀ part ∈ others, part.Bounded) →
        (contentsText others = contentsText contents ↔ others.map joined = contents.map joined)) ∧
    (∀ part : Content, part.joined = part ↔ part.Parted) ∧
    ∀ other : Graph, EachKey CodePoints.Bounded other →
      ((emit .string false other).outcome = (emit .string false graph).outcome ↔
        (other.map content).map joined = (graph.map content).map joined) ∧
      (EachKey CodePoints.Parted graph → EachKey CodePoints.Parted other →
        (emit .string false other).outcome = (emit .string false graph).outcome →
          other.map content = graph.map content) := by
  refine ⟨fun hasBanner => ⟨emit_contents hasBanner some_, ?_⟩, fun asset _ => holdsLiteral_row asset, ?_,
    joined_eq_iff, fun other bounded' => ?_⟩
  · exact ((guarded_bannerText hasBanner graph).append (sheltered_contentsText _)).no_closer
  · intro contents valid
    exact ⟨(sheltered_contentsText contents).guarded.no_closer,
      fun part among => holdsLiteral_render (valid part among).1,
      fun others valid' => contentsText_eq_iff valid' valid⟩
  · have same_iff := emit_same_iff some_ bounded bounded'
    refine ⟨same_iff, fun here there same => ?_⟩
    rw [← joined_contents there, ← joined_contents here]
    exact same_iff.mp same

-- A module with a closing tag and a character beyond the first plane, which ends in a newline or not.
def taggedModule (newline : Text) : Asset :=
  ⟨3, "/</a.js".toList, [], "'</script>\\';😀".toList ++ newline, [("./</b.js".toList, -1)]⟩

theorem tagged_lossless :
    (rowOf .string (taggedModule [])).text
      = "\"3\": [new Function(\"require\", \"module\", \"exports\", ".toList
        ++ "\"'<\\/script>\\\\';\\ud83d\\ude00\\n\"), \x7b\"./<\\/b.js\": -1\x7d]".toList ∧
    (emit .string false [taggedModule ['\n']]).outcome = (emit .string false [taggedModule []]).outcome ∧
    [taggedModule ['\n']].map content = [taggedModule []].map content := by
  have bounded : ∀ newline, EachKey CodePoints.Bounded [taggedModule newline] := fun _ =>
    List.forall_mem_singleton.mpr (List.forall_mem_singleton.mpr (CodePoints.bounded_ofText _))
  have parted : ∀ newline, EachKey CodePoints.Parted [taggedModule newline] := fun _ =>
    List.forall_mem_singleton.mpr (List.forall_mem_singleton.mpr (CodePoints.parted_ofText _))
  have same : (emit .string false [taggedModule ['\n']]).outcome
      = (emit .string false [taggedModule []]).outcome := by
    rw [emit_rows .string false (List.cons_ne_nil _ _), emit_rows .string false (List.cons_ne_nil _ _)]
    rfl
  have row : (rowOf .string (taggedModule [])).text
      = "\"3\": [new Function(\"require\", \"module\", \"exports\", ".toList
        ++ "\"'<\\/script>\\\\';\\ud83d\\ude00\\n\"), \x7b\"./<\\/b.js\": -1\x7d]".toList := by
    unfold taggedModule
    repeat rw [String.toList_ofList]
    decide +kernel
  obtain ⟨_, _, _, _, told⟩ := string_format_lossless (List.cons_ne_nil _ _) (bounded [])
  exact ⟨row, same, (told _ (bounded ['\n'])).2 (parted []) (parted ['\n']) same⟩

-- A module that sends one specifier to itself.
def sentModule (specifier : CodePoints) : Asset := ⟨0, "/w/a.js".toList, [specifier], [], [(specifier, 0)]⟩

-- Two halves, and the character that they make.
theorem halves_confused :
    (emit .string false [sentModule [55357, 56832]]).outcome
        = (emit .string false [sentModule [128512]]).outcome ∧
      [sentModule [55357, 56832]].map content ≠ [sentModule [128512]].map content := by
  refine ⟨?_, by decide +kernel⟩
  have bounded : ∀ specifier, CodePoints.Bounded specifier →
      EachKey CodePoints.Bounded [sentModule specifier] := fun _ valid =>
    List.forall_mem_singleton.mpr (List.forall_mem_singleton.mpr valid)
  refine (emit_same_iff (List.cons_ne_nil _ _) (bounded _ ?_) (bounded _ ?_)).mpr ?_
  all_goals decide +kernel

end Bundle
end ModuleBundler
