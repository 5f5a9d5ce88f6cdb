import ModuleBundler.Proofs.Syntax.Tokens

/-!
Modules that declare nothing. Once something is declared it stays declared; and where nothing is, the
parser goes by the open brackets and by what the next token can be, not by the code it has passed.
-/
namespace ModuleBundler.Syntax

def Item.isCode : Item → Bool
  | .node _ | .importCall _ _ | .importMeta _ _ _ => true
  | _ => false

-- An import that is not a declaration yet may still become one.
def Progress.isCode : Progress → Bool
  | .idle _ | .importing _ | .importMeta _ _ => true
  | _ => false

def Machine.isCode (machine : Machine) : Bool :=
  machine.progress.isCode && machine.items.all Item.isCode

-- A text that parses and declares nothing.
def isPlain (text : Text) : Bool :=
  match parse text with
  | .ok parsed => parsed.items.all Item.isCode
  | .error _ => false

variable {machine next : Machine} {token : Token}

namespace Progress

theorem Takes.declared (taken : Takes token progress longer) (declared : progress.isCode = false) :
    longer.isCode = false := by
  cases taken
  all_goals first
    | rfl
    | cases declared

theorem Completes.declared (completed : Completes token progress item) (declared : progress.isCode = false) :
    item.isCode = false := by
  cases completed
  all_goals first
    | rfl
    | cases declared

theorem Complete.declared (complete : Complete progress item) : item.isCode = false := by
  cases complete
  all_goals rfl

end Progress

namespace Machine

theorem Begins.declared (begun : machine.Begins token next) (declared : machine.items.all Item.isCode = false) :
    next.isCode = false := by
  cases begun
  all_goals simp [isCode, addNode, opened, declared]

theorem attach_declared (group : Node) (waits : machine.progress.takesGroup = true)
    (declared : machine.isCode = false) : (machine.attach group).isCode = false := by
  obtain ⟨items, progress, frames⟩ := machine
  cases progress
  case idle | importing => simpa [isCode, Progress.isCode, attach, addNode, finish,
    Item.isCode] using declared
  case exportDefaultFunction | exportDefaultClass | exportVariable =>
    simp [isCode, attach, finish, Item.isCode]
  all_goals cases waits

-- What is declared stays declared.
theorem feed_declared (ready : machine.Ready) (declared : machine.isCode = false)
    (fed : machine.feed token = some next) : next.isCode = false := by
  cases feed_step fed with
  | leaf | group | closesInner | opens => exact declared
  | closes within => exact attach_declared _ (ready (by simp [within])) declared
  | begins _ idle begun => exact begun.declared (by simpa [isCode, idle, Progress.isCode] using declared)
  | takes _ taken =>
    rw [isCode, Bool.and_eq_false_iff] at declared ⊢
    exact declared.imp_left taken.declared
  | completes _ completed =>
    rw [isCode, Bool.and_eq_false_iff] at declared
    simp only [isCode, finish, List.all_cons, Bool.and_eq_false_iff]
    exact .inr (declared.imp_left completed.declared)
  | follows _ complete begun => exact begun.declared (by simp [finish, complete.declared])

theorem result?_declared (declared : machine.isCode = false) (ended : machine.result? = some parsed) :
    parsed.items.all Item.isCode = false := by
  obtain ⟨items, progress, frames⟩ := machine
  unfold result? at ended
  split at ended
  all_goals cases ended
  all_goals rename_i progressed
  all_goals cases progressed
  · simpa [isCode, Progress.isCode] using declared
  all_goals simp [Item.isCode]

end Machine

-- The parser comes to the end from here, and nothing is declared.
def Accepts (fuel : Nat) (machine : Machine) (cursor : Cursor) (previous : Option Token) : Prop :=
  ∃ parsed, parseFrom fuel machine cursor previous = .ok parsed ∧ parsed.items.all Item.isCode = true

theorem not_accepts_declared (ready : machine.Ready) (declared : machine.isCode = false) :
    ¬ Accepts fuel machine cursor previous := by
  rintro ⟨parsed, accepted, code⟩
  fun_induction parseFrom fuel machine cursor previous with
  | case1 fuel machine cursor previous ended module ending =>
    cases accepted
    rw [Machine.result?_declared declared ending] at code
    cases code
  | case2 | case3 | case4 | case7 => cases accepted
  | case5 machine cursor previous first tail remaining size fuel read ih => exact ih ready declared accepted
  | case6 machine cursor previous first tail remaining terminal size fuel read token next fed ih =>
    exact ih (Machine.feed_tokens ready fed).2 (Machine.feed_declared ready declared fed) accepted

theorem isPlain_iff (text : Text) :
    isPlain text = true ↔ Accepts text.length {} (Cursor.start text) none := by
  unfold isPlain Accepts parse
  cases parseFrom text.length {} (Cursor.start text) none <;> simp

end ModuleBundler.Syntax
