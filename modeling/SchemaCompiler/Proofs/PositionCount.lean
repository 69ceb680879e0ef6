import Mathlib.Data.List.DropRight
import Mathlib.Order.Monotone.Defs
import SchemaCompiler.Proofs.LineEnds
import SchemaCompiler.Proofs.PositionOrder

/-!
# Lines and columns as counts

The position of an offset is found by a scan that counts bytes and moves a line and a column. What
it amounts to depends only on the characters that begin before the offset (`Text.begun`): the line
counts the newlines among them, and the column those after the last newline
(`Position.foldl_advance_first`). An offset on a boundary between two characters has exactly the
characters before it, so two boundaries never have the same position.
-/

set_option autoImplicit false
set_option relaxedAutoImplicit false

namespace SchemaCompiler

namespace Text

/-- The characters of a text that begin less than `offset` bytes into it. -/
def begun (text : List Char) (offset : Nat) : List Char :=
  (text.zipIdx.filter fun entry ↦ width (text.take entry.2) < offset).map Prod.fst

/-- An offset between two characters, or at an end of the text. -/
def IsBoundary (text : List Char) (offset : Nat) : Prop :=
  ∃ before, before <+: text ∧ width before = offset

@[simp] theorem begun_nil (offset : Nat) : begun [] offset = [] := rfl

theorem begun_cons (character : Char) (rest : List Char) (offset : Nat) :
    begun (character :: rest) offset =
      if offset = 0 then [] else character :: begun rest (offset - character.utf8Size) := by
  have hwidth (index : Nat) : width ((character :: rest).take (index + 1)) < offset ↔
      width (rest.take index) < offset - character.utf8Size := by
    rw [List.take_succ_cons, width_cons]
    omega
  have hfirst : width ((character :: rest).take 0) < offset ↔ offset ≠ 0 := Nat.pos_iff_ne_zero
  unfold begun
  rw [List.zipIdx_cons, List.zipIdx_succ, List.filter_cons, List.filter_map]
  simp only [Function.comp_def, hwidth, hfirst]
  by_cases hzero : offset = 0
  · simp [hzero]
  · simp [hzero, Function.comp_def]

theorem begun_of_width_le {text : List Char} {offset : Nat} (hoffset : width text ≤ offset) :
    begun text offset = text := by
  induction text generalizing offset with
  | nil => rfl
  | cons character rest ih =>
    rw [width_cons] at hoffset
    have hpos := character.utf8Size_pos
    rw [begun_cons, if_neg (by omega), ih (by omega)]

end Text

namespace Position

open Text

/-- The scan goes over the characters that begin before the offset. -/
theorem after_eq_foldl (position : Position) (text : List Char) (offset : Nat) :
    position.after text offset = (begun text offset).foldl advance position := by
  induction text generalizing position offset with
  | nil => rfl
  | cons character rest ih =>
    rw [after, begun_cons]
    split_ifs
    · rfl
    · rw [ih, List.foldl_cons]

/-- From the first position, the characters of a text lead to the line after its newlines and to the
column after its last line. -/
theorem foldl_advance_first (text : List Char) :
    text.foldl advance first =
      ⟨1 + text.count '\n', 1 + (text.rtakeWhile (· != '\n')).length⟩ := by
  induction text using List.reverseRecOn with
  | nil => rfl
  | append_singleton text character ih =>
    rw [List.foldl_append, ih, List.foldl_cons, List.foldl_nil, advance, List.count_append,
      List.rtakeWhile_concat]
    split_ifs with hnewline hother hother
    · simp [hnewline] at hother
    · simp [hnewline, Nat.add_assoc]
    · simp [hnewline, Nat.add_assoc]
    · simp [hnewline] at hother

/-! ### Boundaries -/

theorem lt_advance (position : Position) (character : Char) :
    position < position.advance character := by
  refine (position.le_advance character).lt_of_ne fun hsame ↦ ?_
  unfold advance at hsame
  split_ifs at hsame
  · exact Nat.succ_ne_self _ (congrArg line hsame).symm
  · exact Nat.succ_ne_self _ (congrArg column hsame).symm

theorem le_foldl_advance (position : Position) (text : List Char) :
    position ≤ text.foldl advance position := by
  induction text generalizing position with
  | nil => exact le_rfl
  | cons character rest ih => exact (position.le_advance character).trans (ih _)

/-- A boundary comes after exactly the characters before it. -/
theorem ofOffset_width {source before : List Char} (hbefore : before <+: source) :
    ofOffset source (width before) = before.foldl advance first := by
  obtain ⟨rest, rfl⟩ := hbefore
  exact after_append first before rest

/-- A later boundary has a later position: there is a character in between. -/
theorem ofOffset_strictMonoOn (source : List Char) :
    StrictMonoOn (ofOffset source) {offset | IsBoundary source offset} := by
  rintro _ ⟨before, hbefore, rfl⟩ _ ⟨longer, hlonger, rfl⟩ hlt
  rcases List.prefix_or_prefix_of_prefix hbefore hlonger with ⟨rest, rfl⟩ | ⟨rest, rfl⟩
  · cases rest with
    | nil => simp at hlt
    | cons character rest =>
      rw [ofOffset_width hbefore, ofOffset_width hlonger, List.foldl_append, List.foldl_cons]
      exact (lt_advance _ character).trans_le (le_foldl_advance _ rest)
  · rw [width_append] at hlt
    omega

/-- A position tells the number of newlines among the characters that begin before an offset, and
the number of such characters after the last of these newlines. It grows with the offset, tells the
boundaries apart, and stays the same past the end of the text. -/
theorem ofOffset_counts (source : List Char) :
    (∀ offset, ofOffset source offset = ⟨1 + (begun source offset).count '\n',
        1 + ((begun source offset).rtakeWhile (· != '\n')).length⟩) ∧
      Monotone (ofOffset source) ∧
      StrictMonoOn (ofOffset source) {offset | IsBoundary source offset} ∧
      Set.InjOn (ofOffset source) {offset | IsBoundary source offset} ∧
      ∀ offset, width source ≤ offset → ofOffset source offset = ofOffset source (width source) := by
  have hscan (offset : Nat) : ofOffset source offset = (begun source offset).foldl advance first :=
    after_eq_foldl first source offset
  have hstrict := ofOffset_strictMonoOn source
  refine ⟨fun offset ↦ ?_, ofOffset_monotone source, hstrict, hstrict.injOn, fun offset hle ↦ ?_⟩
  · rw [hscan, foldl_advance_first]
  · rw [hscan, hscan, begun_of_width_le hle, begun_of_width_le le_rfl]

-- The second letter is two bytes wide, and the offset 4 lies inside the third one.
example : [0, 1, 3, 4, 5, 9].map (ofOffset "aé∀\nb".toList) =
    [⟨1, 1⟩, ⟨1, 2⟩, ⟨1, 3⟩, ⟨1, 4⟩, ⟨1, 4⟩, ⟨2, 2⟩] := by
  decide

end Position

end SchemaCompiler
