import ModuleBundler.Proofs.Rewriting.Patterns

/-!
The shape of the code in a parsed module: its leaves are leaves of code, and each group stands between an
opening and a closing bracket of its own kind.
-/
namespace ModuleBundler

inductive Node.Formed : Node → Prop where
  | leaf (kind : Leaf) (lexed : token.terminal = .leaf kind) : Formed (.leaf token)
  | group (opens : opener.terminal = .opener bracket) (closes : closer.terminal = .closer bracket)
      (inner : ∀ node ∈ nodes, Formed node) : Formed (enclosed bracket opener nodes closer)

-- A leaf or a bracket, and no word or mark of a declaration.
theorem Node.Formed.terminal {node : Node} (formed : node.Formed) :
    ∀ token ∈ node.tokens, token.terminal ∈ Terminal.inner ++ Terminal.closers := by
  induction formed with
  | leaf kind lexed =>
    rw [Node.tokens_leaf]
    refine List.forall_mem_singleton.mpr ?_
    rw [lexed]
    cases kind <;> decide
  | @group nodes bracket opener closer opens closes inner ih =>
    intro token listed
    rw [Node.enclosed, Node.tokens_group, List.flatMap_cons, List.flatMap_append, List.flatMap_singleton,
      Node.tokens_leaf, Node.tokens_leaf, List.singleton_append, List.mem_cons, List.mem_append,
      List.mem_singleton] at listed
    rcases listed with rfl | listed | rfl
    · rw [opens]
      cases bracket <;> decide
    · obtain ⟨node, among, inside⟩ := List.mem_flatMap.mp listed
      exact ih node among token inside
    · rw [closes]
      cases bracket <;> decide

namespace Syntax

-- The code in an item, declarations included.
def Item.nodes : Item → List Node
  | .node code => [code]
  | .importCall _ arguments => [arguments]
  | .export _ (.default _ (.anonymousFunction _ group)) | .export _ (.default _ (.anonymousClass _ group)) => [group]
  | .export _ (.variable _ binding) => [binding]
  | _ => []

def Item.Formed (item : Item) : Prop := ∀ node ∈ item.nodes, node.Formed

-- An open group has its opening bracket and whole code behind it.
inductive Frame.Formed : Frame → Prop where
  | mk {kind : Bracket} (opens : opener.terminal = .opener kind) (inner : ∀ node ∈ nodes, Node.Formed node) :
    Formed ⟨kind, nodes ++ [.leaf opener]⟩

structure Machine.Formed (machine : Machine) : Prop where
  items : ∀ item ∈ machine.items, item.Formed
  frames : ∀ frame ∈ machine.frames, frame.Formed

variable {machine next : Machine} {frame : Frame} {item : Item} {node group : Node} {token : Token}

theorem Frame.Formed.push (formed : frame.Formed) (code : node.Formed) :
    Frame.Formed { frame with children := node :: frame.children } := by
  cases formed with
  | mk opens inner => exact .mk opens (List.forall_mem_cons.mpr ⟨code, inner⟩)

theorem Frame.Formed.close (formed : frame.Formed) (closes : token.terminal = .closer frame.bracket) :
    Node.Formed (.group frame.bracket (.leaf token :: frame.children).reverse) := by
  cases formed with
  | @mk nodes opener bracket opens inner =>
    have children : (Node.leaf token :: (nodes ++ [.leaf opener])).reverse
        = .leaf opener :: (nodes.reverse ++ [.leaf token]) := by simp
    dsimp only
    rw [children]
    exact .group opens closes fun node among => inner node (List.mem_reverse.mp among)

theorem Item.formed_codeless (codeless : item.nodes = []) : item.Formed := by
  rw [Item.Formed, codeless]
  exact nofun

-- The binding of a declarator is the only code that is a token of its own.
theorem Progress.Completes.formed (completed : Completes token progress item) : item.Formed := by
  cases completed with
  | «variable» lexed => exact List.forall_mem_singleton.mpr (.leaf .name lexed)
  | _ => exact Item.formed_codeless rfl

theorem Progress.Complete.formed (complete : Complete progress item) : item.Formed := by
  cases complete
  all_goals exact Item.formed_codeless rfl

namespace Machine

theorem opened_formed (formed : machine.Formed) (opens : token.terminal = .opener bracket) :
    (machine.opened bracket token).Formed := by
  have bare : Frame.Formed ⟨bracket, [] ++ [.leaf token]⟩ := .mk opens nofun
  exact ⟨formed.items, List.forall_mem_cons.mpr ⟨bare, formed.frames⟩⟩

theorem finish_formed (formed : machine.Formed) (whole : item.Formed) : (machine.finish item afterNode).Formed :=
  ⟨List.forall_mem_cons.mpr ⟨whole, formed.items⟩, formed.frames⟩

theorem addNode_formed (formed : machine.Formed) (code : node.Formed) : (machine.addNode node).Formed :=
  ⟨List.forall_mem_cons.mpr ⟨List.forall_mem_singleton.mpr code, formed.items⟩, formed.frames⟩

theorem attach_formed (formed : machine.Formed) (code : group.Formed) : (machine.attach group).Formed := by
  unfold attach
  split
  · exact finish_formed formed (List.forall_mem_singleton.mpr code)
  · exact finish_formed formed (List.forall_mem_singleton.mpr code)
  · exact finish_formed formed (List.forall_mem_singleton.mpr code)
  · exact finish_formed formed (List.forall_mem_singleton.mpr code)
  · exact addNode_formed formed code

theorem Begins.formed (begun : machine.Begins token next) (formed : machine.Formed) : next.Formed := by
  cases begun with
  | leaf lexed => exact addNode_formed formed (.leaf _ lexed)
  | group lexed =>
    have idle : Formed { machine with progress := .idle true } := ⟨formed.items, formed.frames⟩
    exact opened_formed idle lexed
  | «import» | «export» => exact ⟨formed.items, formed.frames⟩

theorem feed_formed (formed : machine.Formed) (fed : machine.feed token = some next) : next.Formed := by
  cases feed_step fed with
  | leaf within lexed =>
    obtain ⟨innermost, outers⟩ := List.forall_mem_cons.mp (within ▸ formed.frames)
    exact ⟨formed.items, List.forall_mem_cons.mpr ⟨innermost.push (.leaf _ lexed), outers⟩⟩
  | group _ lexed | opens _ _ lexed => exact opened_formed formed lexed
  | closesInner within lexed =>
    obtain ⟨innermost, outers⟩ := List.forall_mem_cons.mp (within ▸ formed.frames)
    obtain ⟨outer, others⟩ := List.forall_mem_cons.mp outers
    exact ⟨formed.items, List.forall_mem_cons.mpr ⟨outer.push (innermost.close lexed), others⟩⟩
  | closes within lexed =>
    have innermost := List.forall_mem_singleton.mp (within ▸ formed.frames)
    have outside : Formed { machine with frames := [] } := ⟨formed.items, nofun⟩
    exact attach_formed outside (innermost.close lexed)
  | begins _ _ begun => exact begun.formed formed
  | takes => exact ⟨formed.items, formed.frames⟩
  | completes _ completed => exact finish_formed formed completed.formed
  | follows _ complete begun => exact begun.formed (finish_formed formed complete.formed)

theorem result?_formed (formed : machine.Formed) (ended : machine.result? = some parsed) :
    ∀ item ∈ parsed.items, item.Formed := by
  have last : ∀ item : Item, item.nodes = [] → ∀ other ∈ (item :: machine.items).reverse, other.Formed := by
    intro item none_ other among
    rcases List.mem_cons.mp (List.mem_reverse.mp among) with rfl | earlier
    · exact Item.formed_codeless none_
    · exact formed.items other earlier
  unfold result? at ended
  split at ended
  all_goals cases ended
  · exact fun item among => formed.items item (List.mem_reverse.mp among)
  · exact last _ rfl
  · exact last _ rfl
  · exact last _ rfl

end Machine

theorem parseFrom_formed (formed : machine.Formed) (accepted : parseFrom fuel machine cursor previous = .ok parsed) :
    ∀ item ∈ parsed.items, item.Formed := by
  fun_induction parseFrom fuel machine cursor previous with
  | case1 fuel machine cursor previous ended module ending =>
    cases accepted
    exact Machine.result?_formed formed ending
  | case2 | case3 | case4 | case7 => cases accepted
  | case5 machine cursor previous first tail remaining size fuel read ih => exact ih formed accepted
  | case6 machine cursor previous first tail remaining terminal size fuel read token next fed ih =>
    exact ih (Machine.feed_formed formed fed) accepted

theorem parse_formed (accepted : parse text = .ok parsed) : ∀ item ∈ parsed.items, item.Formed := by
  have start : Machine.Formed {} :=
    ⟨fun _ among => absurd among List.not_mem_nil, fun _ among => absurd among List.not_mem_nil⟩
  exact parseFrom_formed start accepted

end Syntax
end ModuleBundler
