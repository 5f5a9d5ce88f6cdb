import ModuleBundler.Proofs.Rewriting.Fixpoint
import ModuleBundler.Proofs.Syntax.Opaque

/-!
Modules whose import and export words all stand inside brackets. The words are refused behind the first
token between two brackets; everywhere else they are names like others, and the module is left as it is.
-/
namespace ModuleBundler.Rewriting

open Syntax (Nested Detached renamed led parse read)

-- With such words in it a text is accepted exactly if it is accepted with other names in their place and
-- each of them stands directly behind an opening bracket. What is accepted depends on nothing and is not
-- rewritten.
theorem nested_accepted_iff (ordinary : Ordinary word) (nested : Nested [] (read text).1)
    (detached : Detached text (read text).1) :
    ((parse text).isOk = true ↔
        (parse (renamed word text)).isOk = true ∧ led false (read text).1 = true) ∧
      ∀ source, Masking.mask source = text → (parse text).isOk = true →
        transpile source = .ok ⟨⟨[]⟩, source⟩ := by
  refine ⟨Syntax.parse_renamed ordinary nested detached, fun source masked parses => ?_⟩
  rw [transpile_fixed_iff_plain, masked]
  exact Syntax.isPlain_nested text nested parses

def loadSource : Text := "load(import('./a'));\n".toList

theorem nested_load : transpile loadSource = .ok ⟨⟨[]⟩, loadSource⟩ := by
  have ⟨masked, ordinary, nested, detached, parses⟩ : Masking.mask loadSource = loadSource ∧
      Ordinary "loader".toList ∧ Nested [] (read loadSource).1 ∧ Detached loadSource (read loadSource).1 ∧
      (parse (renamed "loader".toList loadSource)).isOk = true ∧ led false (read loadSource).1 = true := by
    unfold loadSource
    repeat rw [String.toList_ofList]
    decide +kernel
  have accepted := nested_accepted_iff ordinary nested detached
  exact accepted.2 loadSource masked (accepted.1.mpr parses)

-- A dynamic import behind the first token of a function body.
def lazySource : Text := "function f() \x7b return import('./a'); \x7d\n".toList

theorem nested_lazy_refused : Ordinary "loader".toList ∧ Nested [] (read lazySource).1 ∧
    Detached lazySource (read lazySource).1 ∧ Masking.mask lazySource = lazySource ∧
    (parse (renamed "loader".toList lazySource)).isOk = true ∧ (parse lazySource).isOk = false := by
  unfold lazySource
  repeat rw [String.toList_ofList]
  decide +kernel

end ModuleBundler.Rewriting
