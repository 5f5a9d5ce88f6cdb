import ModuleBundler.Proofs.Rewriting.Capture

/-!
The binding patterns of the language, written out as a syntax of their own, and the names that they
bind in source order. What is read off the node of a pattern are these names, but for one kind of
element: a name in braces whose default value has a colon of its own.
-/
namespace ModuleBundler
namespace Node

structure Punctuator (text : String) where
  token : Token
  spelled : token.isPunctuator text.toList = true

structure Name where
  token : Token
  named : token.isName = true

-- A default value is any expression: it goes on to the next comma of its level.
structure Default where
  mark : Punctuator "="
  value : List Node
  whole : value.any (·.isPunctuator ",") = false

inductive Key where
  | word (token : Token) (known : token.terminal ∈ [Leaf.name, .string, .number].map Terminal.leaf)
  | computed (expression : List Node)

-- A name in braces that is the key of its own target.
structure Shorthand where
  name : Name
  default : Option Default

mutual
inductive Pattern where
  | name (name : Name)
  | group (bracket : Bracket) (nested : bracket ≠ .paren) (opener : Token) (elements : Elements bracket)
      (closer : Token)

inductive Element : Bracket → Type where
  | target (keyless : bracket ≠ .brace) (target : Pattern) (default : Option Default) : Element bracket
  | shorthand (shorthand : Shorthand) : Element .brace
  | keyed (key : Key) (colon : Punctuator ":") (target : Pattern) (default : Option Default) : Element .brace
  | rest (dots : Punctuator "...") (target : Pattern) : Element bracket

-- A comma may follow the last element, and in square brackets a place may be left empty.
inductive Elements : Bracket → Type where
  | none : Elements bracket
  | last (element : Element bracket) : Elements bracket
  | more (element : Element bracket) (comma : Punctuator ",") (others : Elements bracket) : Elements bracket
  | hole (comma : Punctuator ",") (others : Elements .square) : Elements .square
end

-- What a declaration binds: a pattern, or a list of parameters in parentheses.
inductive Binding where
  | pattern (target : Pattern)
  | parameters (opener : Token) (elements : Elements .paren) (closer : Token)

def Default.nodes : Option Default → List Node
  | some default => .leaf default.mark.token :: default.value
  | none => []

def Key.node : Key → Node
  | word token _ => .leaf token
  | computed expression => .group .square expression

def Shorthand.nodes (shorthand : Shorthand) : List Node :=
  .leaf shorthand.name.token :: Default.nodes shorthand.default

def enclosed (bracket : Bracket) (opener : Token) (nodes : List Node) (closer : Token) : Node :=
  .group bracket (.leaf opener :: (nodes ++ [.leaf closer]))

mutual
def Pattern.node : Pattern → Node
  | .name name => .leaf name.token
  | .group bracket _ opener elements closer => enclosed bracket opener elements.nodes closer

def Element.nodes : Element bracket → List Node
  | .target _ target default => target.node :: Default.nodes default
  | .shorthand shorthand => shorthand.nodes
  | .keyed key colon target default => key.node :: .leaf colon.token :: target.node :: Default.nodes default
  | .rest dots target => [.leaf dots.token, target.node]

def Elements.nodes : Elements bracket → List Node
  | .none => []
  | .last element => element.nodes
  | .more element comma others => element.nodes ++ .leaf comma.token :: others.nodes
  | .hole comma others => .leaf comma.token :: others.nodes
end

-- The names of a pattern, given those of its shorthands.
section
variable (read : Shorthand → List Text)

mutual
def Pattern.namesBy : Pattern → List Text
  | .name name => [name.token.text]
  | .group _ _ _ elements _ => elements.namesBy

def Element.namesBy : Element bracket → List Text
  | .target _ target _ => target.namesBy
  | .shorthand shorthand => read shorthand
  | .keyed _ _ target _ => target.namesBy
  | .rest _ target => target.namesBy

def Elements.namesBy : Elements bracket → List Text
  | .none => []
  | .last element => element.namesBy
  | .more element _ others => element.namesBy ++ others.namesBy
  | .hole _ others => others.namesBy
end
end

mutual
def Pattern.shorthands : Pattern → List Shorthand
  | .name _ => []
  | .group _ _ _ elements _ => elements.shorthands

def Element.shorthands : Element bracket → List Shorthand
  | .target _ target _ => target.shorthands
  | .shorthand shorthand => [shorthand]
  | .keyed _ _ target _ => target.shorthands
  | .rest _ target => target.shorthands

def Elements.shorthands : Elements bracket → List Shorthand
  | .none => []
  | .last element => element.shorthands
  | .more element _ others => element.shorthands ++ others.shorthands
  | .hole _ others => others.shorthands
end

namespace Shorthand

-- A shorthand binds its name.
def names (shorthand : Shorthand) : List Text := [shorthand.name.token.text]

def overlooked (shorthand : Shorthand) : Bool :=
  shorthand.nodes.any (·.isPunctuator ":")

-- The colon of a default value is taken for the one behind a key, and what follows it for the target.
def found (shorthand : Shorthand) : List Text :=
  match shorthand.nodes.dropWhile (!·.isPunctuator ":") with
  | _ :: target :: _ => target.boundNames
  | [_] => []
  | [] => shorthand.names

end Shorthand

namespace Binding

def node : Binding → Node
  | .pattern target => target.node
  | .parameters opener elements closer => enclosed .paren opener elements.nodes closer

def namesBy (read : Shorthand → List Text) : Binding → List Text
  | .pattern target => target.namesBy read
  | .parameters _ elements _ => elements.namesBy read

def shorthands : Binding → List Shorthand
  | .pattern target => target.shorthands
  | .parameters _ elements _ => elements.shorthands

-- The identifiers that the language binds, in source order.
def names : Binding → List Text := namesBy Shorthand.names

end Binding

variable {bracket : Bracket} {element others : List Node}

theorem Punctuator.plain (mark : Punctuator text) (apart : text.toList ≠ other.toList) :
    (leaf mark.token).isPunctuator other = false := by
  obtain ⟨terminal, spelled⟩ := Bool.and_eq_true_iff.mp mark.spelled
  rw [beq_iff_eq] at spelled
  simp [isPunctuator, token?, Token.isPunctuator, spelled, apart]

theorem Name.plain (name : Name) : (leaf name.token).isMark = false :=
  (Binds.name name.named).plain

theorem Key.plain (key : Key) : key.node.isMark = false := by
  cases key with
  | word token known =>
    have other : token.terminal ≠ .leaf .punctuator := by
      intro same
      rw [same] at known
      revert known
      decide
    simpa [node, isMark, token?] using other
  | computed => rfl

theorem Pattern.plain (pattern : Pattern) : pattern.node.isMark = false := by
  cases pattern with
  | name name => exact name.plain
  | group => rfl

theorem Default.defaulted (default : Option Default) : Defaulted (Default.nodes default) := by
  cases default with
  | none => rfl
  | some default => exact default.mark.spelled

theorem Default.uncut (default : Option Default) :
    (Default.nodes default).any (·.isPunctuator ",") = false := by
  cases default with
  | none => rfl
  | some default =>
    rw [Default.nodes, List.any_cons, default.mark.plain (by decide), default.whole]
    rfl

-- An element ends at the comma behind it.
theorem Element.uncut (element : Element bracket) : element.nodes.any (·.isPunctuator ",") = false := by
  cases element with
  | target keyless target default =>
    rw [Element.nodes, List.any_cons, isPunctuator_plain target.plain, Default.uncut]
    rfl
  | shorthand shorthand =>
    rw [Element.nodes, Shorthand.nodes, List.any_cons, isPunctuator_plain shorthand.name.plain, Default.uncut]
    rfl
  | keyed key colon target default =>
    rw [Element.nodes, List.any_cons, List.any_cons, List.any_cons, isPunctuator_plain key.plain,
      colon.plain (by decide), isPunctuator_plain target.plain, Default.uncut]
    rfl
  | rest dots target =>
    rw [Element.nodes, List.any_cons, List.any_cons, isPunctuator_plain target.plain, dots.plain (by decide)]
    rfl

def withNames (node : Node) : Bound := (node, node.boundNames)

-- The names of the elements between commas.
def namesBetween (bracket : Bracket) (nodes : List Node) : List Text :=
  (nodes.splitOnP (·.isPunctuator ",")).flatMap fun element => elementNames bracket (element.map withNames)

theorem elementNames_nil (bracket : Bracket) : elementNames bracket [] = [] := by
  cases bracket <;> rfl

theorem boundNames_enclosed (opener closer : Token) (nodes : List Node) :
    (enclosed bracket opener nodes closer).boundNames = namesBetween bracket nodes := by
  have inside : between (eachBound (leaf opener :: (nodes ++ [leaf closer]))) = nodes.map withNames := by
    rw [eachBound_eq, List.map_cons, List.map_append, List.map_singleton, between, List.drop_one,
      List.tail_cons,
      List.dropLast_concat]
    rfl
  rw [enclosed, boundNames, inside, partsBetween_eq]
  change ((List.splitOnP (fun bound : Bound => bound.1.isPunctuator ",")
    (nodes.map fun node => (node, node.boundNames))).filter _).flatMap _ = _
  rw [splitOnP_bound nodes (·.isPunctuator ","), namesBetween]
  induction nodes.splitOnP (·.isPunctuator ",") with
  | nil => rfl
  | cons part parts ih =>
    rw [List.map_cons, List.flatMap_cons, ← ih, List.filter_cons]
    cases part with
    | nil =>
      rw [List.map_nil, List.map_nil, elementNames_nil]
      rfl
    | cons => rfl

theorem namesBetween_last (uncut : element.any (·.isPunctuator ",") = false) :
    namesBetween bracket element = elementNames bracket (element.map withNames) := by
  simp only [List.any_eq_false, Bool.not_eq_true] at uncut
  rw [namesBetween, List.splitOnP_eq_singleton uncut, List.flatMap_singleton]

theorem namesBetween_more (uncut : element.any (·.isPunctuator ",") = false) (comma : Punctuator ",") :
    namesBetween bracket (element ++ .leaf comma.token :: others)
      = elementNames bracket (element.map withNames) ++ namesBetween bracket others := by
  simp only [List.any_eq_false, Bool.not_eq_true] at uncut
  have separates : (leaf comma.token).isPunctuator "," = true := comma.spelled
  rw [namesBetween, List.splitOnP_append_cons_of_forall_mem uncut _ separates, List.flatMap_cons,
    namesBetween]

theorem boundNames_mark {node : Node} (mark : node.isPunctuator text = true) : node.boundNames = [] := by
  cases node with
  | leaf token =>
    have terminal : token.terminal = .leaf .punctuator := by
      simpa using (Bool.and_eq_true_iff.mp mark).1
    simp [boundNames, Token.isName, terminal]
  | group => cases mark

theorem Shorthand.elementNames_nodes (shorthand : Shorthand) :
    elementNames .brace (shorthand.nodes.map withNames) = shorthand.found := by
  have dotless : (withNames (leaf shorthand.name.token)).1.isPunctuator "..." = false :=
    isPunctuator_plain shorthand.name.plain "..."
  have unmarked : (withNames (leaf shorthand.name.token)).1.isPunctuator "=" = false :=
    isPunctuator_plain shorthand.name.plain "="
  have own : (withNames (leaf shorthand.name.token)).2 = shorthand.names := by
    simp [withNames, boundNames, shorthand.name.named, names]
  have mapped : (shorthand.nodes.map withNames).dropWhile (fun bound => !bound.1.isPunctuator ":")
      = (shorthand.nodes.dropWhile (!·.isPunctuator ":")).map withNames := List.dropWhile_map ..
  rw [found]
  cases behind : shorthand.nodes.dropWhile (!·.isPunctuator ":") with
  | nil =>
    rw [behind, nodes, List.map_cons] at mapped
    simp [elementNames, nodes, dotless, mapped, unmarked, own]
  | cons colon rest =>
    rw [behind, nodes, List.map_cons] at mapped
    cases rest with
    | nil => simp [elementNames, nodes, dotless, mapped]
    | cons target rest =>
      have aimed : (if (withNames target).1.isPunctuator "=" then [] else (withNames target).2)
          = target.boundNames := by
        split
        · rename_i mark
          exact (boundNames_mark mark).symm
        · rfl
      simp [elementNames, nodes, dotless, mapped, aimed]

mutual
-- What is read off a pattern are its names, each shorthand as it is found.
theorem Pattern.boundNames_node : ∀ pattern : Pattern,
    pattern.node.boundNames = pattern.namesBy Shorthand.found
  | .name name => by simp [Pattern.node, boundNames, name.named, Pattern.namesBy]
  | .group bracket nested opener elements closer => by
    rw [Pattern.node, boundNames_enclosed, elements.namesBetween_nodes, Pattern.namesBy]

theorem Element.elementNames_nodes : ∀ {bracket : Bracket} (element : Element bracket),
    elementNames bracket (element.nodes.map withNames) = element.namesBy Shorthand.found
  | bracket, .target keyless target default => by
    have braceless : (bracket == .brace) = false := beq_false_of_ne keyless
    have aims : Target bracket false (target.node :: Default.nodes default) target.node :=
      .plain (Default.defaulted default) (by rw [braceless, Bool.false_and])
    rw [Element.nodes, Element.namesBy, ← target.boundNames_node]
    exact elementNames_target aims target.plain
  | _, .shorthand shorthand => shorthand.elementNames_nodes
  | _, .keyed key colon target default => by
    have aims : Target .brace false (key.node :: .leaf colon.token :: target.node :: Default.nodes default)
        target.node :=
      .keyed rfl key.plain colon.spelled (Default.defaulted default)
    rw [Element.nodes, Element.namesBy, ← target.boundNames_node]
    exact elementNames_target aims target.plain
  | bracket, .rest dots target => by
    have aims : Target bracket false [.leaf dots.token, target.node] target.node := .rest dots.spelled
    rw [Element.nodes, Element.namesBy, ← target.boundNames_node]
    exact elementNames_target aims target.plain

theorem Elements.namesBetween_nodes : ∀ {bracket : Bracket} (elements : Elements bracket),
    namesBetween bracket elements.nodes = elements.namesBy Shorthand.found
  | bracket, .none => (namesBetween_last rfl).trans (elementNames_nil bracket)
  | _, .last element => by
    rw [Elements.nodes, namesBetween_last element.uncut, element.elementNames_nodes, Elements.namesBy]
  | _, .more element comma others => by
    rw [Elements.nodes, namesBetween_more element.uncut, element.elementNames_nodes,
      others.namesBetween_nodes,
      Elements.namesBy]
  | _, .hole comma others => by
    have skipped : namesBetween .square ([] ++ .leaf comma.token :: others.nodes) = _ :=
      namesBetween_more rfl comma
    rw [List.nil_append, List.map_nil, elementNames_nil, List.nil_append] at skipped
    rw [Elements.nodes, skipped, others.namesBetween_nodes, Elements.namesBy]
end

section
variable {read other : Shorthand → List Text}

mutual
theorem Pattern.namesBy_congr : ∀ pattern : Pattern,
    (∀ shorthand ∈ pattern.shorthands, read shorthand = other shorthand) →
      pattern.namesBy read = pattern.namesBy other
  | .name _, _ => rfl
  | .group _ _ _ elements _, same => elements.namesBy_congr same

theorem Element.namesBy_congr : ∀ {bracket : Bracket} (element : Element bracket),
    (∀ shorthand ∈ element.shorthands, read shorthand = other shorthand) →
      element.namesBy read = element.namesBy other
  | _, .target _ target _, same => target.namesBy_congr same
  | _, .shorthand shorthand, same => same shorthand (List.mem_singleton.mpr rfl)
  | _, .keyed _ _ target _, same => target.namesBy_congr same
  | _, .rest _ target, same => target.namesBy_congr same

theorem Elements.namesBy_congr : ∀ {bracket : Bracket} (elements : Elements bracket),
    (∀ shorthand ∈ elements.shorthands, read shorthand = other shorthand) →
      elements.namesBy read = elements.namesBy other
  | _, .none, _ => rfl
  | _, .last element, same => element.namesBy_congr same
  | _, .more element _ others, same => by
    rw [Elements.shorthands] at same
    rw [Elements.namesBy, Elements.namesBy,
      element.namesBy_congr fun shorthand among => same shorthand (List.mem_append_left _ among),
      others.namesBy_congr fun shorthand among => same shorthand (List.mem_append_right _ among)]
  | _, .hole _ others, same => others.namesBy_congr same
end
end

theorem Shorthand.found_names {shorthand : Shorthand} (seen : shorthand.overlooked = false) :
    shorthand.found = shorthand.names := by
  have colonless : shorthand.nodes.dropWhile (!·.isPunctuator ":") = [] := by
    rw [List.dropWhile_eq_nil_iff]
    intro node among
    rw [overlooked, List.any_eq_false] at seen
    simpa using seen node among
  rw [found, colonless]

-- The names read off a binding are those it binds, in source order, but for a shorthand whose default
-- value has a colon of its own: it is read as a key and its target.
theorem boundNames_binding (binding : Binding) :
    binding.node.boundNames = binding.namesBy Shorthand.found ∧
    ((∀ shorthand ∈ binding.shorthands, shorthand.overlooked = false) →
      binding.node.boundNames = binding.names) := by
  have read : binding.node.boundNames = binding.namesBy Shorthand.found := by
    cases binding with
    | pattern target => exact target.boundNames_node
    | parameters opener elements closer =>
      rw [Binding.node, boundNames_enclosed, elements.namesBetween_nodes, Binding.namesBy]
  refine ⟨read, fun seen => read.trans ?_⟩
  have same : ∀ shorthand ∈ binding.shorthands, shorthand.found = shorthand.names :=
    fun shorthand among => Shorthand.found_names (seen shorthand among)
  cases binding with
  | pattern target => exact target.namesBy_congr same
  | parameters opener elements closer => exact elements.namesBy_congr same

end Node

namespace Rewriting
open Node

def exportedBinding? (source : Text) : Option Node :=
  (Syntax.parse (Masking.mask source)).toOption.bind fun parsed =>
    parsed.items.findSome? fun
      | .export _ (.variable _ binding) => some binding
      | _ => none

def punctuatorAt (text : String) (start : Nat) : Punctuator text :=
  ⟨⟨.leaf .punctuator, text.toList, start, 1, start + 1⟩, by simp [Token.isPunctuator]⟩

def nameAt (text : String) (start : Nat) : Name := ⟨⟨.leaf .name, text.toList, start, 1, start + 1⟩, rfl⟩

def bracketAt (terminal : Terminal) (text : String) (start : Nat) : Token :=
  ⟨terminal, text.toList, start, 1, start + 1⟩

-- Renames, a hole, a computed key, and colons in default values that are not overlooked.
def nestedSource : Text := "export const\x7ba:[,b=c?1:2],[k]:d=x=>(\x7by:x\x7d),...e\x7d=o".toList

def nestedElements : Elements .square :=
  .hole (punctuatorAt "," 16) (.last (.target (by decide) (.name (nameAt "b" 17)) (some
    ⟨punctuatorAt "=" 18, [leafAt (.leaf .name) "c" 19, leafAt (.leaf .punctuator) "?" 20,
      leafAt (.leaf .number) "1" 21, leafAt (.leaf .punctuator) ":" 22, leafAt (.leaf .number) "2" 23], rfl⟩)))

def nestedArrow : Default :=
  ⟨punctuatorAt "=" 31, [leafAt (.leaf .name) "x" 32, leafAt (.leaf .punctuator) "=>" 33,
    .group .paren [leafAt (.opener .paren) "(" 35,
      .group .brace [leafAt (.opener .brace) "\x7b" 36, leafAt (.leaf .name) "y" 37,
        leafAt (.leaf .punctuator) ":" 38, leafAt (.leaf .name) "x" 39, leafAt (.closer .brace) "\x7d" 40],
      leafAt (.closer .paren) ")" 41]], rfl⟩

def nestedBinding : Binding :=
  .pattern (.group .brace (by decide) (bracketAt (.opener .brace) "\x7b" 12)
    (.more (.keyed (.word (nameAt "a" 13).token (by decide)) (punctuatorAt ":" 14)
        (.group .square (by decide) (bracketAt (.opener .square) "[" 15) nestedElements
          (bracketAt (.closer .square) "]" 24)) none) (punctuatorAt "," 25)
      (.more (.keyed (.computed [leafAt (.opener .square) "[" 26, leafAt (.leaf .name) "k" 27,
          leafAt (.closer .square) "]" 28]) (punctuatorAt ":" 29) (.name (nameAt "d" 30)) (some nestedArrow))
        (punctuatorAt "," 42)
        (.last (.rest (punctuatorAt "..." 43) (.name (nameAt "e" 46))))))
    (bracketAt (.closer .brace) "\x7d" 47))

theorem nested_bound : exportedBinding? nestedSource = some nestedBinding.node ∧
    nestedBinding.node.boundNames = [['b'], ['d'], ['e']] := by
  refine ⟨?_, (boundNames_binding nestedBinding).2 (by decide)⟩
  unfold nestedSource
  rw [String.toList_ofList]
  decide +kernel

-- A shorthand with a colon in its default value.
def ternarySource : Text := "export const\x7bx=c?1:2\x7d=o".toList

def ternaryBinding : Binding :=
  .pattern (.group .brace (by decide) (bracketAt (.opener .brace) "\x7b" 12)
    (.last (.shorthand ⟨nameAt "x" 13, some ⟨punctuatorAt "=" 14, [leafAt (.leaf .name) "c" 15,
      leafAt (.leaf .punctuator) "?" 16, leafAt (.leaf .number) "1" 17, leafAt (.leaf .punctuator) ":" 18,
      leafAt (.leaf .number) "2" 19], rfl⟩⟩))
    (bracketAt (.closer .brace) "\x7d" 20))

theorem ternary_unbound : exportedBinding? ternarySource = some ternaryBinding.node ∧
    ternaryBinding.names = [['x']] ∧ ternaryBinding.node.boundNames = [] := by
  unfold ternarySource
  rw [String.toList_ofList]
  decide +kernel

end Rewriting
end ModuleBundler
