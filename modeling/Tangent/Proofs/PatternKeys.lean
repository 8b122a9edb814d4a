import Mathlib
import Tangent.Routine.Validate

/-!
# Routines with other keys

The key of a shared pattern only says which pattern it is. With other keys, a routine is the same
routine: whether it is valid, and what is wrong with it, depends on the patterns alone
(`Routine.validate_rekey`).
-/

namespace Tangent

/-- The pattern with another key. -/
def SharedPattern.rekey (ρ : Nat → Nat) (sp : SharedPattern) : SharedPattern :=
  { sp with key := ρ sp.key }

/-- The instruction with other keys. -/
def Instr.rekey {K : Type} (ρ : Nat → Nat) : Instr K → Instr K
  | bilinear slot a sp x y => bilinear slot a (sp.map (·.rekey ρ)) x y
  | rank1 a sp alpha x y => rank1 a (sp.map (·.rekey ρ)) alpha x y
  | project source spSource target spTarget temporary =>
    project source (spSource.map (·.rekey ρ)) target (spTarget.map (·.rekey ρ)) temporary
  | transpose source spSource target spTarget temporary =>
    transpose source (spSource.map (·.rekey ρ)) target (spTarget.map (·.rekey ρ)) temporary
  | multiply x spX y spY z spZ temporary transposed =>
    multiply x (spX.map (·.rekey ρ)) y (spY.map (·.rekey ρ)) z (spZ.map (·.rekey ρ)) temporary
      transposed
  | instr => instr

/-- The routine with other keys. -/
def Routine.rekey {K : Type} (ρ : Nat → Nat) (f : Routine K) : Routine K :=
  { f with
    inputs := f.inputs.map (Option.map (·.rekey ρ))
    outputs := f.outputs.map (Option.map (·.rekey ρ))
    body := f.body.map (·.rekey ρ) }

variable {K : Type} {ρ : Nat → Nat}

theorem SharedPattern.rekey_of_eq {sp : SharedPattern} (h : ρ sp.key = sp.key) :
    sp.rekey ρ = sp := by
  rw [rekey, h]

theorem missingPatterns_rekey (operands : List (String × Option SharedPattern)) :
    missingPatterns (operands.map (Prod.map id (Option.map (·.rekey ρ)))) =
      missingPatterns operands := by
  simp [missingPatterns, List.filterMap_map]

namespace Routine

section Fields

variable (f : Routine K)

@[simp]
theorem name_rekey : (f.rekey ρ).name = f.name :=
  rfl

@[simp]
theorem inputs_rekey : (f.rekey ρ).inputs = f.inputs.map (Option.map (·.rekey ρ)) :=
  rfl

@[simp]
theorem outputs_rekey : (f.rekey ρ).outputs = f.outputs.map (Option.map (·.rekey ρ)) :=
  rfl

@[simp]
theorem body_rekey : (f.rekey ρ).body = f.body.map (·.rekey ρ) :=
  rfl

end Fields

theorem nonzeroIssues_rekey (f : Routine K) (side : Side) (patterns : List (Option SharedPattern))
    (arg nonzero : Int64) (what : String) (slot : Int64) :
    (f.rekey ρ).nonzeroIssues side (patterns.map (Option.map (·.rekey ρ))) arg nonzero what slot =
      f.nonzeroIssues side patterns arg nonzero what slot := by
  have hnnz : nonzeros [((patterns.map (Option.map (·.rekey ρ)))[arg.toNatClampNeg]?).join] =
      nonzeros [(patterns[arg.toNatClampNeg]?).join] := by
    rw [List.getElem?_map]
    rcases patterns[arg.toNatClampNeg]? with _ | _ | sp <;> rfl
  unfold nonzeroIssues
  rw [List.length_map, hnnz]
  rfl

theorem missingArguments_rekey (side : Side) (patterns : List (Option SharedPattern)) :
    missingArguments side (patterns.map (Option.map (·.rekey ρ))) =
      missingArguments side patterns := by
  unfold missingArguments
  rw [List.zipIdx_map, List.map_map]
  refine Eq.trans ?_ (missingPatterns_rekey (ρ := ρ) _)
  rw [List.map_map]
  rfl

end Routine

/-- What is wrong with an instruction does not depend on keys. -/
theorem Instr.issues_rekey (f : Routine K) (instr : Instr K) :
    (instr.rekey ρ).issues (f.rekey ρ) = instr.issues f := by
  cases instr with
  | input slot arg nonzero => exact congrArg Except.ok (f.nonzeroIssues_rekey ..)
  | output res nonzero slot => exact congrArg Except.ok (f.nonzeroIssues_rekey ..)
  | bilinear slot a sp x y => cases sp <;> rfl
  | rank1 a sp alpha x y => cases sp <;> rfl
  | project source spSource target spTarget temporary =>
    cases spSource <;> cases spTarget <;> rfl
  | transpose source spSource target spTarget temporary =>
    cases spSource <;> cases spTarget <;> rfl
  | multiply x spX y spY z spZ temporary transposed =>
    cases spX <;> cases spY <;> cases spZ <;> rfl
  | _ => rfl

namespace Routine

theorem instrError_rekey (f : Routine K) (instr : Instr K) (i : Nat) :
    (f.rekey ρ).instrError (instr.rekey ρ) i = f.instrError instr i := by
  rw [instrError, Instr.issues_rekey, instrError]

theorem filterMapM_map {α β γ ε : Type} (g : α → β) (h : β → Except ε (Option γ)) :
    ∀ xs : List α, (xs.map g).filterMapM h = xs.filterMapM fun x => h (g x)
  | [] => rfl
  | x :: xs => by
    rw [List.map_cons, List.filterMapM_cons, List.filterMapM_cons, filterMapM_map g h xs]

/-- Whether a routine is valid, and what is wrong with it, does not depend on keys. -/
theorem validate_rekey (f : Routine K) : (f.rekey ρ).validate = f.validate := by
  unfold validate
  simp only [name_rekey, inputs_rekey, outputs_rekey, body_rekey, missingArguments_rekey,
    List.zipIdx_map, filterMapM_map, Prod.map, instrError_rekey, id]

end Routine

end Tangent
