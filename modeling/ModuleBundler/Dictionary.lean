/-!
Dictionaries that keep the order of their keys: a key stays where it was first put.
-/
namespace ModuleBundler

abbrev Dictionary (κ : Type) (α : Type) := List (κ × α)

namespace Dictionary

-- A key that is there already keeps its place and takes the new value.
def put [BEq κ] (entries : Dictionary κ α) (key : κ) (value : α) : Dictionary κ α :=
  match entries with
  | [] => [(key, value)]
  | (k, v) :: rest => if k == key then (key, value) :: rest else (k, v) :: put rest key value

def erase [BEq κ] (entries : Dictionary κ α) (key : κ) : Dictionary κ α :=
  entries.filter fun entry => !(entry.1 == key)

def keys (entries : Dictionary κ α) : List κ := entries.map Prod.fst

theorem lookup_put [BEq κ] [LawfulBEq κ] (entries : Dictionary κ α) (key other : κ) (value : α) :
    (put entries key value).lookup other
      = if other == key then some value else entries.lookup other := by
  induction entries with
  | nil =>
    cases same : other == key
    · simp [put, List.lookup_cons, same]
    · simp [put, List.lookup_cons, same]
  | cons entry rest ih =>
    obtain ⟨k, v⟩ := entry
    by_cases found : k = key
    · subst found
      cases same : other == k
      · simp [put, List.lookup_cons, same]
      · simp [put, List.lookup_cons, same]
    · cases here : other == k
      · simp [put, found, List.lookup_cons, here, ih]
      · have equal : other = k := eq_of_beq here
        subst equal
        simp [put, found]

end Dictionary
end ModuleBundler
