import ArcFile.Finding
/-!
Putting findings together. Every way of adding findings to others appends, so that what one place adds can be told apart
from what the others do.
-/
namespace ArcFile

namespace Findings

theorem append_eq (all more : Findings) :
    all ++ more = ⟨all.errors ++ more.errors, all.warnings ++ more.warnings⟩ := rfl

theorem append_none (all : Findings) : all ++ none = all := by
  simp [append_eq, none]

theorem none_append (all : Findings) : none ++ all = all := by
  simp [append_eq, none]

theorem append_assoc (a b c : Findings) : a ++ b ++ c = a ++ (b ++ c) := by
  simp [append_eq]

theorem append_eq_none {all more : Findings} : all ++ more = none ↔ all = none ∧ more = none := by
  cases all
  cases more
  simp [append_eq, none, and_and_and_comm]

theorem addError_eq (all : Findings) (finding : Finding) : all.addError finding = all ++ ⟨[finding], []⟩ := by
  simp [append_eq, addError]

theorem addErrors_eq (all : Findings) (more : List Finding) : all.addErrors more = all ++ ⟨more, []⟩ := by
  simp [append_eq, addErrors]

/-- All errors and warnings are so. -/
def All (p : Finding → Prop) (all : Findings) : Prop := ∀ finding ∈ all.toList, p finding

variable {p : Finding → Prop} {all more : Findings}

theorem all_none : All p .none := by
  intro finding among
  cases among

theorem all_append (h : All p all) (h' : All p more) : All p (all ++ more) := by
  intro finding among
  simp only [toList, append_eq, List.mem_append] at among
  rcases among with (among | among) | (among | among)
  · exact h finding (List.mem_append_left _ among)
  · exact h' finding (List.mem_append_left _ among)
  · exact h finding (List.mem_append_right _ among)
  · exact h' finding (List.mem_append_right _ among)

theorem all_errors {errors : List Finding} (h : ∀ finding ∈ errors, p finding) : All p ⟨errors, []⟩ := by
  intro finding among
  rw [toList, List.append_nil] at among
  exact h finding among

theorem all_error {finding : Finding} (h : p finding) : All p ⟨[finding], []⟩ := by
  apply all_errors
  intro other among
  rwa [List.mem_singleton.1 among]

end Findings

end ArcFile
