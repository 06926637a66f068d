import Relock.Proofs.Text.Blank
import Relock.Record

/-!
# Labels and sources of records

A record notes a label or a source without the blanks at its ends, and a blank one not at all.
-/

namespace Relock.ImportRecord

theorem nonBlank?_eq (text : String) :
    nonBlank? text = if Text.isBlankText text then none else some (Text.trim text) := by
  unfold nonBlank?
  by_cases hblank : Text.isBlankText text = true
  · simp [hblank, Text.isBlankText_iff.mp hblank]
  · have hne : Text.trim text ≠ "" := fun h => hblank (Text.isBlankText_iff.mpr h)
    simp [hblank, hne]

/-- Trimming beforehand makes no difference. -/
@[simp] theorem nonBlank?_trim (text : String) : nonBlank? (Text.trim text) = nonBlank? text := by
  simp [nonBlank?, Text.trim_trim]

@[simp] theorem nonBlank?_empty : nonBlank? "" = none := by
  decide

end Relock.ImportRecord
