import Mathlib.Data.Prod.Lex
import Mathlib.Order.Monotone.Basic
import SchemaCompiler.Text.Offset

/-!
# The order of positions

A position comes before another one if its line does, or on the same line its column. Every
character moves a position on, so the position of an offset grows with the offset.
-/

set_option autoImplicit false
set_option relaxedAutoImplicit false

namespace SchemaCompiler.Position

/-- Positions in the order of lines, and within a line of columns. -/
instance : LinearOrder Position :=
  LinearOrder.lift' (fun position ↦ toLex (position.line, position.column)) <| by
    rintro ⟨line, column⟩ ⟨otherLine, otherColumn⟩ hequal
    simpa using hequal

theorem le_iff {first second : Position} :
    first ≤ second ↔
      first.line < second.line ∨ first.line = second.line ∧ first.column ≤ second.column :=
  Prod.Lex.toLex_le_toLex

theorem le_advance (position : Position) (character : Char) :
    position ≤ position.advance character := by
  rw [le_iff, advance]
  split_ifs
  · exact Or.inl (Nat.lt_succ_self _)
  · exact Or.inr ⟨rfl, Nat.le_succ _⟩

theorem le_after (position : Position) (text : List Char) (offset : Nat) :
    position ≤ position.after text offset := by
  induction text generalizing position offset with
  | nil => exact le_rfl
  | cons character rest ih =>
    rw [after]
    split_ifs
    · exact le_rfl
    · exact (position.le_advance character).trans (ih _ _)

theorem after_monotone (position : Position) (text : List Char) :
    Monotone (position.after text) := by
  induction text generalizing position with
  | nil => exact fun _ _ _ ↦ le_rfl
  | cons character rest ih =>
    intro first second hle
    simp only [after]
    split_ifs with hfirst hsecond hsecond
    · exact le_rfl
    · exact (position.le_advance character).trans (le_after _ _ _)
    · omega
    · exact ih _ (by omega)

/-- The position of an offset grows with the offset. -/
theorem ofOffset_monotone (source : List Char) : Monotone (ofOffset source) :=
  after_monotone first source

end SchemaCompiler.Position
