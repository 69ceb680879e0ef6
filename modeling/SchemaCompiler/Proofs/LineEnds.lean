import SchemaCompiler.Proofs.Tokenization

/-!
# What stands at the ends of lines

A text may be padded: before the end of any line, blanks and then a comment may be put in
(`Text.Padded`). Nothing that is put in is read, so two readers of a text and of a padded one find
the same tokens, the same raw texts and the same stray characters.

`Beside` is the relation between the places of the two readers. What is left of the one text is
padded in the other, and the places are in the same column, except at the end of a line, where the
second reader may have padding before it or behind it. Every step of a reader keeps the relation
(`Beside.scan`, `Beside.raw`). The padded text may also follow other lines, by which all places are
further down; so the relation also compares a text with the same text at the end of a longer one.
-/

set_option autoImplicit false
set_option relaxedAutoImplicit false

namespace SchemaCompiler

namespace Text

/-! ### Padding -/

/-- What may be put in at the end of a line: blanks, and a comment after them. -/
def IsPadding (padding : List Char) : Prop :=
  ∃ blanks comment, padding = blanks ++ comment ∧
    (∀ character ∈ blanks, isLineBlank character = true) ∧
    (comment = [] ∨ ∃ body, comment = '#' :: body ∧ '\n' ∉ body)

/-- A text, and the text with padding put in before the ends of its lines and before its own end. -/
inductive Padded : List Char → List Char → Prop
  | finish {padding : List Char} (hpadding : IsPadding padding) : Padded [] padding
  | newline {padding rest other : List Char} (hpadding : IsPadding padding)
      (hrest : Padded rest other) : Padded ('\n' :: rest) (padding ++ '\n' :: other)
  | keep {character : Char} {rest other : List Char} (hinside : character ≠ '\n')
      (hrest : Padded rest other) : Padded (character :: rest) (character :: other)

theorem isPadding_nil : IsPadding [] := ⟨[], [], rfl, by simp, Or.inl rfl⟩

theorem isLineBlank_newline : isLineBlank '\n' = false := by decide

theorem not_mem_of_isLineBlank {blanks : List Char}
    (hblanks : ∀ character ∈ blanks, isLineBlank character = true) : '\n' ∉ blanks :=
  fun hmember ↦ by simpa [isLineBlank_newline] using hblanks '\n' hmember

theorem trim_append_blanks {line blanks : List Char}
    (hblanks : ∀ character ∈ blanks, isBlank character = true) :
    trim (line ++ blanks) = trim line := by
  have hend (text : List Char) : trimEnd (text ++ blanks) = trimEnd text := by
    simp only [trimEnd, List.reverse_append]
    rw [List.dropWhile_append_of_pos (by simpa using hblanks)]
  rw [trim, trim, List.dropWhile_append]
  split_ifs with hempty
  · rw [List.isEmpty_iff] at hempty
    rw [hempty, List.dropWhile_eq_nil_iff.2 hblanks]
  · exact hend _

namespace IsPadding

variable {padding rest : List Char}

theorem newline_not_mem (hpadding : IsPadding padding) : '\n' ∉ padding := by
  obtain ⟨blanks, comment, rfl, hblanks, hcomment⟩ := hpadding
  rw [List.mem_append]
  rintro (hmember | hmember)
  · exact not_mem_of_isLineBlank hblanks hmember
  · rcases hcomment with rfl | ⟨body, rfl, hbody⟩
    · cases hmember
    · simp [hbody] at hmember

/-- What goes on neither with a blank nor with a comment does not go on with padding. -/
theorem stops (hpadding : IsPadding padding) {continues : Char → Bool}
    (hsolid : ∀ character, continues character = true → IsSolid character)
    (hrest : Stops continues rest) : Stops continues (padding ++ rest) := by
  intro character hhead
  by_contra hcontinues
  have hcharacter := hsolid character (by simpa using hcontinues)
  obtain ⟨blanks, comment, rfl, hblanks, hcomment⟩ := hpadding
  cases blanks with
  | cons first blanks =>
    obtain rfl : first = character := by simpa using hhead
    simpa [hcharacter.1] using hblanks first (by simp)
  | nil =>
    rcases hcomment with rfl | ⟨body, rfl, -⟩
    · exact hcontinues (hrest character hhead)
    · exact hcharacter.2 (by simpa using hhead.symm)

end IsPadding

namespace Padded

variable {piece rest other text : List Char} {character : Char}

theorem refl (text : List Char) : Padded text text := by
  induction text with
  | nil => exact .finish isPadding_nil
  | cons character rest ih =>
    by_cases hnewline : character = '\n'
    · subst hnewline
      exact .newline isPadding_nil ih
    · exact .keep hnewline ih

theorem exists_newline (hpadded : Padded ('\n' :: rest) text) :
    ∃ padding other, text = padding ++ '\n' :: other ∧ IsPadding padding ∧ Padded rest other := by
  cases hpadded with
  | newline hpadding hrest => exact ⟨_, _, rfl, hpadding, hrest⟩
  | keep hinside => exact absurd rfl hinside

theorem append (hpadded : Padded rest other) (hpiece : '\n' ∉ piece) :
    Padded (piece ++ rest) (piece ++ other) := by
  induction piece with
  | nil => exact hpadded
  | cons character piece ih =>
    rw [List.mem_cons, not_or] at hpiece
    exact .keep (Ne.symm hpiece.1) (ih hpiece.2)

/-- Nothing is put in before the end of a line. -/
theorem exists_append (hpadded : Padded (piece ++ rest) text) (hpiece : '\n' ∉ piece) :
    ∃ other, text = piece ++ other ∧ Padded rest other := by
  induction piece generalizing text with
  | nil => exact ⟨text, rfl, hpadded⟩
  | cons character piece ih =>
    rw [List.mem_cons, not_or] at hpiece
    cases hpadded with
    | newline => exact absurd rfl hpiece.1
    | keep _ hrest =>
      obtain ⟨other, rfl, hother⟩ := ih hrest hpiece.2
      exact ⟨other, rfl, hother⟩

/-- At the end of a line there is padding, and then the line ends in both texts. -/
theorem exists_padding (hpadded : Padded rest text) (hend : Stops (· != '\n') rest) :
    ∃ padding other, text = padding ++ other ∧ IsPadding padding ∧ Padded rest other ∧
      other.head? = rest.head? := by
  cases hpadded with
  | finish hpadding => exact ⟨_, [], by simp, hpadding, .finish isPadding_nil, rfl⟩
  | newline hpadding hrest => exact ⟨_, _, rfl, hpadding, .newline isPadding_nil hrest, rfl⟩
  | keep hinside => exact absurd (by simpa using hend) hinside

/-- Where raw text ends, it goes on with blanks at most in the padded text. -/
theorem exists_blanks (hpadded : Padded rest text) (hraw : Stops isRaw rest) :
    ∃ blanks other, text = blanks ++ other ∧
      (∀ character ∈ blanks, isLineBlank character = true) ∧ Stops isRaw other ∧
      Padded rest other ∧ (blanks = [] ∨ Stops (· != '\n') rest) := by
  cases hpadded with
  | finish hpadding =>
    obtain ⟨blanks, comment, rfl, hblanks, hcomment⟩ := hpadding
    refine ⟨blanks, comment, rfl, hblanks, ?_, .finish ⟨[], comment, rfl, by simp, hcomment⟩,
      Or.inr stops_nil⟩
    rcases hcomment with rfl | ⟨body, rfl, -⟩ <;> simp [isRaw]
  | @newline _ rest other hpadding hrest =>
    obtain ⟨blanks, comment, rfl, hblanks, hcomment⟩ := hpadding
    refine ⟨blanks, comment ++ '\n' :: other, by simp, hblanks, ?_,
      .newline ⟨[], comment, rfl, by simp, hcomment⟩ hrest, Or.inr (by simp)⟩
    rcases hcomment with rfl | ⟨body, rfl, -⟩ <;> simp [isRaw]
  | keep hinside hrest =>
    exact ⟨[], _, rfl, by simp, by simpa using hraw, .keep hinside hrest, Or.inl rfl⟩

/-- What does not go on in a text does not go on in the padded text. -/
theorem stops (hpadded : Padded rest text) {continues : Char → Bool}
    (hsolid : ∀ character, continues character = true → IsSolid character)
    (hrest : Stops continues rest) : Stops continues text := by
  cases hpadded with
  | finish hpadding => simpa using hpadding.stops hsolid stops_nil
  | newline hpadding => exact hpadding.stops hsolid (by simpa using hrest)
  | keep => simpa using hrest

end Padded

end Text

/-! ### Positions -/

namespace Position

open Text

/-- A position in a text that follows a number of lines. -/
def down (position : Position) (lines : Nat) : Position :=
  ⟨position.line + lines, position.column⟩

theorem after_append (position : Position) (before rest : List Char) :
    position.after (before ++ rest) (width before) = before.foldl advance position := by
  induction before generalizing position with
  | nil => cases rest <;> simp [after]
  | cons character before ih =>
    have hpos := character.utf8Size_pos
    rw [List.cons_append, after, if_neg (by simp; omega), width_cons, Nat.add_sub_cancel_left, ih]
    rfl

theorem foldl_advance {piece : List Char} (hpiece : '\n' ∉ piece) (position : Position) :
    piece.foldl advance position = ⟨position.line, position.column + piece.length⟩ := by
  induction piece generalizing position with
  | nil => rfl
  | cons character piece ih =>
    rw [List.mem_cons, not_or] at hpiece
    rw [List.foldl_cons, ih hpiece.2, advance, if_neg (Ne.symm hpiece.1), List.length_cons]
    simp only [Nat.add_assoc, Nat.add_comm 1]

theorem ofOffset_zero (text : List Char) : ofOffset text 0 = .first := by
  cases text <;> simp [ofOffset, after]

end Position

/-- The same fault in a text that follows a number of lines. -/
def LexicalFault.down (fault : LexicalFault) (lines : Nat) : LexicalFault :=
  ⟨fault.character, fault.position.down lines⟩

/-- A place in a text. -/
def Cursor.Within (source : List Char) (cursor : Cursor) : Prop :=
  ∃ before, source = before ++ cursor.rest ∧ cursor.offset = Text.width before

theorem Cursor.Within.step {source piece rest : List Char} {offset : Nat}
    (hwithin : Cursor.Within source ⟨piece ++ rest, offset⟩) :
    Cursor.Within source ⟨rest, offset + Text.width piece⟩ ∧
      Position.ofOffset source (offset + Text.width piece) =
        piece.foldl Position.advance (.ofOffset source offset) := by
  obtain ⟨before, rfl, rfl⟩ := hwithin
  have hwidth : Text.width before + Text.width piece = Text.width (before ++ piece) := by simp
  refine ⟨⟨before ++ piece, by simp, hwidth⟩, ?_⟩
  simp only [Position.ofOffset, Position.after_append, ← List.foldl_append]
  rw [hwidth, ← List.append_assoc, Position.after_append]

/-- Padding is a gap up to the end of its line. -/
theorem Cursor.skipGap_padding {padding rest : List Char} (hpadding : Text.IsPadding padding)
    (hend : Text.Stops (· != '\n') rest) (offset : Nat) :
    (⟨padding ++ rest, offset⟩ : Cursor).skipGap = ⟨rest, offset + Text.width padding⟩ := by
  have hsettled (place : Nat) : Settled ⟨rest, place⟩ := by
    intro character hhead
    obtain rfl : character = '\n' := by simpa using hend character hhead
    exact Text.isSolid_toChar .newline
  obtain ⟨blanks, comment, rfl, hblanks, hcomment⟩ := hpadding
  induction blanks generalizing offset with
  | nil =>
    rcases hcomment with rfl | ⟨body, rfl, hbody⟩
    · simpa using (hsettled offset).skipGap_eq
    · simpa using skipGap_comment offset (fun _ hmember heq ↦ hbody (heq ▸ hmember)) hend
  | cons character blanks ih =>
    rw [List.forall_mem_cons] at hblanks
    rw [List.cons_append, List.cons_append, skipGap_blank hblanks.1, ih _ hblanks.2,
      Text.width_cons, Nat.add_assoc]

/-! ### Two readers -/

/-- A text, a text whose end pads it, and the number of lines by which the end is further down. -/
structure Pages where
  source : List Char
  padded : List Char
  lines : Nat

namespace Pages

open Text

/-- Places of two readers at which the same is left to read, apart from padding. At the end of a
line the columns need not be the same. -/
structure Beside (pages : Pages) (first second : Cursor) : Prop where
  first_within : first.Within pages.source
  second_within : second.Within pages.padded
  padded : Padded first.rest second.rest
  line_eq : (Position.ofOffset pages.padded second.offset).line =
    (Position.ofOffset pages.source first.offset).line + pages.lines
  column_eq : (Position.ofOffset pages.padded second.offset).column =
      (Position.ofOffset pages.source first.offset).column ∨ Stops (· != '\n') first.rest

/-- Two stray characters are the same, on the same line and in the same column. -/
def Strays (pages : Pages) (stray other : Stray) : Prop :=
  other.locate pages.padded = (stray.locate pages.source).down pages.lines

/-- What two readers find is the same, at places beside each other. -/
inductive Finds (pages : Pages) : Scan → Scan → Prop
  | token {reading other : Reading} (htoken : other.token = reading.token)
      (hstart : pages.Beside reading.start other.start)
      (hstop : pages.Beside reading.stop other.stop) : pages.Finds (.token reading) (.token other)
  | stray {start other : Cursor} {character : Char} (hstart : pages.Beside start other)
      (hstrays : pages.Strays ⟨start.offset, character⟩ ⟨other.offset, character⟩) :
      pages.Finds (.stray start character) (.stray other character)
  | finish {stop other : Cursor} (hstop : pages.Beside stop other) :
      pages.Finds (.finish stop) (.finish other)

namespace Beside

variable {pages : Pages} {first second : Cursor} {piece rest other text : List Char}
  {offset place : Nat} {character : Char}

/-- Within a line, the places have the same column. -/
theorem ofOffset_eq (hbeside : pages.Beside ⟨character :: rest, offset⟩ second)
    (hinside : character ≠ '\n') :
    Position.ofOffset pages.padded second.offset =
      (Position.ofOffset pages.source offset).down pages.lines := by
  have hcolumn := hbeside.column_eq.resolve_right (by simpa using hinside)
  rw [Position.down, ← hcolumn, ← hbeside.line_eq]

/-- Both readers step over a part of a line. -/
theorem append (hbeside : pages.Beside ⟨piece ++ rest, offset⟩ ⟨text, place⟩)
    (hpiece : '\n' ∉ piece) :
    ∃ other, text = piece ++ other ∧
      pages.Beside ⟨rest, offset + width piece⟩ ⟨other, place + width piece⟩ := by
  obtain ⟨other, rfl, hother⟩ := hbeside.padded.exists_append hpiece
  obtain ⟨hfirst, hfirstPosition⟩ := hbeside.first_within.step
  obtain ⟨hsecond, hsecondPosition⟩ := hbeside.second_within.step
  rw [Position.foldl_advance hpiece] at hfirstPosition hsecondPosition
  refine ⟨other, rfl, hfirst, hsecond, hother, ?_, ?_⟩
  · rw [hfirstPosition, hsecondPosition]
    exact hbeside.line_eq
  · rcases hbeside.column_eq with hcolumn | hend
    · refine Or.inl ?_
      rw [hfirstPosition, hsecondPosition]
      exact congrArg (· + piece.length) hcolumn
    · -- at the end of a line, the part is empty
      cases piece with
      | nil => exact Or.inr hend
      | cons character piece => simp_all

theorem newline (hbeside : pages.Beside ⟨'\n' :: rest, offset⟩ ⟨'\n' :: other, place⟩) :
    pages.Beside ⟨rest, offset + '\n'.utf8Size⟩ ⟨other, place + '\n'.utf8Size⟩ := by
  obtain ⟨hfirst, hfirstPosition⟩ := @Cursor.Within.step _ ['\n'] _ _ hbeside.first_within
  obtain ⟨hsecond, hsecondPosition⟩ := @Cursor.Within.step _ ['\n'] _ _ hbeside.second_within
  simp only [width_cons, width_nil, Nat.add_zero, List.foldl_cons, List.foldl_nil,
    Position.advance, if_true] at hfirst hfirstPosition hsecond hsecondPosition
  refine ⟨hfirst, hsecond, ?_, ?_, Or.inl ?_⟩
  · obtain ⟨padding, others, hsplit, hpadding, hrest⟩ := hbeside.padded.exists_newline
    cases padding with
    | nil => simpa [(List.cons.inj hsplit).2] using hrest
    | cons character padding =>
      obtain ⟨rfl, -⟩ := List.cons.inj hsplit
      exact absurd List.mem_cons_self hpadding.newline_not_mem
  · rw [hfirstPosition, hsecondPosition]
    have hline := hbeside.line_eq
    simp only at hline ⊢
    omega
  · rw [hfirstPosition, hsecondPosition]

/-- At the end of a line, the second reader steps over a part of the padding. -/
theorem pad (hbeside : pages.Beside ⟨rest, offset⟩ ⟨piece ++ other, place⟩)
    (hend : Stops (· != '\n') rest) (hpiece : '\n' ∉ piece) (hother : Padded rest other) :
    pages.Beside ⟨rest, offset⟩ ⟨other, place + width piece⟩ := by
  obtain ⟨hsecond, hposition⟩ := hbeside.second_within.step
  rw [Position.foldl_advance hpiece] at hposition
  refine ⟨hbeside.first_within, hsecond, hother, ?_, Or.inr hend⟩
  rw [hposition]
  exact hbeside.line_eq

/-- At the end of a line, the second reader steps over the padding, and the line ends for both. -/
theorem exists_padding (hbeside : pages.Beside ⟨rest, offset⟩ ⟨text, place⟩)
    (hend : Stops (· != '\n') rest) :
    ∃ padding other, text = padding ++ other ∧ IsPadding padding ∧ other.head? = rest.head? ∧
      pages.Beside ⟨rest, offset⟩ ⟨other, place + width padding⟩ := by
  obtain ⟨padding, other, rfl, hpadding, hother, hhead⟩ := hbeside.padded.exists_padding hend
  exact ⟨padding, other, rfl, hpadding, hhead,
    hbeside.pad hend hpadding.newline_not_mem hother⟩

/-! ### Gaps -/

/-- After gaps, the same character follows in both texts. -/
theorem skipGap (hbeside : pages.Beside first second) :
    pages.Beside first.skipGap second.skipGap ∧
      second.skipGap.rest.head? = first.skipGap.rest.head? := by
  refine @Cursor.of_skipGap (fun offset text ↦ ∀ second, pages.Beside ⟨text, offset⟩ second →
    pages.Beside (⟨text, offset⟩ : Cursor).skipGap second.skipGap ∧
      second.skipGap.rest.head? = (⟨text, offset⟩ : Cursor).skipGap.rest.head?)
    ?gap first ?settled second hbeside
  case gap =>
    rintro offset piece rest hgap ih ⟨text, place⟩ hbeside
    rw [Cursor.skipGap_of_isGap hgap]
    cases hgap with
    | @blank character _ hblank =>
      have hinside : '\n' ∉ [character] := by
        simpa using fun heq : '\n' = character ↦ by simp [← heq, isLineBlank_newline] at hblank
      obtain ⟨other, rfl, hrest⟩ := hbeside.append hinside
      rw [Cursor.skipGap_of_isGap (.blank hblank)]
      exact ih _ hrest
    | @comment body _ hbody hstops =>
      have hinside : '\n' ∉ '#' :: body := by simpa using fun hmember ↦ hbody _ hmember rfl
      obtain ⟨other, rfl, hrest⟩ := hbeside.append hinside
      obtain ⟨padding, tail, rfl, hpadding, hhead, hend⟩ := hrest.exists_padding hstops
      -- the comment goes on through the padding
      have hlonger : IsGap ('#' :: (body ++ padding)) tail := by
        refine .comment ?_ (by simpa [Stops, hhead] using hstops)
        intro character hmember heq
        subst heq
        rcases List.mem_append.1 hmember with hmember | hmember
        · exact hbody _ hmember rfl
        · exact hpadding.newline_not_mem hmember
      have hskip := Cursor.skipGap_of_isGap hlonger place
      rw [List.cons_append, List.append_assoc, ← List.cons_append, ← List.cons_append,
        width_append, ← Nat.add_assoc] at hskip
      rw [hskip]
      exact ih _ hend
  case settled =>
    rintro ⟨text, place⟩ hbeside
    have hsettled := Cursor.settled_skipGap first
    generalize first.skipGap = start at hbeside hsettled ⊢
    obtain ⟨rest, offset⟩ := start
    rw [hsettled.skipGap_eq]
    by_cases hend : Stops (· != '\n') rest
    · obtain ⟨padding, other, rfl, hpadding, hhead, hother⟩ := hbeside.exists_padding hend
      have hstops : Stops (· != '\n') other := by simpa [Stops, hhead] using hend
      rw [Cursor.skipGap_padding hpadding hstops]
      exact ⟨hother, hhead⟩
    · cases rest with
      | nil => exact absurd stops_nil hend
      | cons character rest =>
        have hinside : character ≠ '\n' := by simpa using hend
        obtain ⟨other, rfl, -⟩ :=
          @append _ [character] _ _ _ _ hbeside (by simpa using hinside.symm)
        have hsolid := Cursor.settled_cons.1 hsettled
        rw [List.singleton_append] at hbeside ⊢
        rw [(Cursor.settled_cons.2 hsolid).skipGap_eq]
        exact ⟨hbeside, rfl⟩

/-! ### Tokens -/

theorem token {token : Token} (hvalid : token.Valid) (hstops : Stops token.continues rest)
    (hbeside : pages.Beside ⟨token.text.toList ++ rest, offset⟩ ⟨text, place⟩)
    (hhead : text.head? = (token.text.toList ++ rest).head?) :
    pages.Finds (⟨token.text.toList ++ rest, offset⟩ : Cursor).scan
      (⟨text, place⟩ : Cursor).scan := by
  obtain ⟨other, rfl, hother, hrest⟩ : ∃ other, text = token.text.toList ++ other ∧
      Stops token.continues other ∧ pages.Beside ⟨rest, offset + width token.text.toList⟩
        ⟨other, place + width token.text.toList⟩ := by
    by_cases hnewline : token = .mark .newline
    · subst hnewline
      obtain ⟨other, rfl⟩ := List.head?_eq_some_iff.1 hhead
      exact ⟨other, rfl, Token.stops_continues_mark _ _, hbeside.newline⟩
    · obtain ⟨other, rfl, hrest⟩ := hbeside.append (newline_not_mem_of_valid hvalid hnewline)
      exact ⟨other, rfl, hrest.padded.stops (fun _ ↦ isSolid_of_continues) hstops, hrest⟩
  rw [Cursor.scan_append offset hvalid hstops, Cursor.scan_append place hvalid hother]
  exact .token rfl hbeside hrest

theorem stray (hnothing : BeginsNothing character)
    (hbeside : pages.Beside ⟨character :: rest, offset⟩ ⟨character :: other, place⟩) :
    pages.Finds (⟨character :: rest, offset⟩ : Cursor).scan
      (⟨character :: other, place⟩ : Cursor).scan := by
  rw [Cursor.scan_of_beginsNothing hnothing, Cursor.scan_of_beginsNothing hnothing]
  have hinside : character ≠ '\n' := (hnothing.mark .newline).symm
  refine .stray hbeside ?_
  simp only [Strays, Stray.locate, LexicalFault.down, hbeside.ofOffset_eq hinside]

/-- Two readers beside each other find the same. -/
theorem scan (hbeside : pages.Beside first second) : pages.Finds first.scan second.scan := by
  obtain ⟨hgap, hhead⟩ := hbeside.skipGap
  rw [← first.scan_skipGap, ← second.scan_skipGap]
  generalize second.skipGap = found at hgap hhead ⊢
  obtain ⟨text, place⟩ := found
  cases hscan : first.scan with
  | token reading =>
    obtain ⟨hstart, hexact⟩ := Cursor.exact_of_scan hscan
    have hplace : first.skipGap =
        ⟨reading.token.text.toList ++ reading.stop.rest, reading.start.offset⟩ := by
      rw [← hstart, ← hexact.rest_eq]
    rw [hplace] at hgap hhead ⊢
    exact hgap.token hexact.valid hexact.stops hhead
  | stray start character =>
    obtain ⟨rfl, ⟨rest, hrest⟩, hnothing⟩ := Cursor.beginsNothing_of_scan hscan
    generalize first.skipGap = start at hgap hhead hrest ⊢
    obtain ⟨start, offset⟩ := start
    obtain rfl : start = character :: rest := hrest
    obtain ⟨other, rfl⟩ := List.head?_eq_some_iff.1 hhead
    exact hgap.stray hnothing
  | finish stop =>
    obtain ⟨rfl, hrest⟩ := Cursor.skipGap_of_scan_finish hscan
    generalize first.skipGap = start at hgap hhead hrest ⊢
    obtain ⟨start, offset⟩ := start
    obtain rfl : start = [] := hrest
    obtain rfl : text = [] := by simpa using hhead
    simp only [Cursor.scan, (Cursor.settled_nil _).skipGap_eq]
    exact .finish hgap

/-! ### Raw text -/

/-- Two readers take the same raw text. -/
theorem raw (hbeside : pages.Beside first second) :
    (second.skip isLineBlank).rawText.text = (first.skip isLineBlank).rawText.text ∧
      pages.Beside ((first.skip isLineBlank).skip isRaw)
        ((second.skip isLineBlank).skip isRaw) := by
  obtain ⟨source, offset⟩ := first
  obtain ⟨text, place⟩ := second
  obtain ⟨line, rest, rfl, hline, hstops⟩ : ∃ line rest, source = line ++ rest ∧
      (∀ character ∈ line, isRaw character = true) ∧ Stops isRaw rest :=
    ⟨_, _, List.takeWhile_append_dropWhile.symm, forall_mem_takeWhile isRaw source,
      stops_dropWhile isRaw source⟩
  have hinside : '\n' ∉ line := fun hmember ↦ absurd (hline '\n' hmember) (by decide)
  obtain ⟨other, rfl, hrest⟩ := hbeside.append hinside
  obtain ⟨blanks, tail, rfl, hblanks, htail, hpadded, hend⟩ := hrest.padded.exists_blanks hstops
  have hlonger : ∀ character ∈ line ++ blanks, isRaw character = true := by
    intro character hmember
    rcases List.mem_append.1 hmember with hmember | hmember
    · exact hline character hmember
    · by_contra hraw
      exact absurd (hblanks character hmember)
        (by simp [isLineBlank_eq_false_of_isRaw (by simpa using hraw)])
  rw [← List.append_assoc, Cursor.rawText_append offset hline hstops,
    Cursor.rawText_append place hlonger htail, Cursor.skip_raw_append offset hline hstops,
    Cursor.skip_raw_append place hlonger htail]
  constructor
  · have hblank : ∀ character ∈ blanks, isBlank character = true := by
      intro character hmember
      exact ((Bool.and_eq_true _ _).mp (hblanks character hmember)).2
    simp only [DefaultText.ofLine, trim_append_blanks hblank]
  · rw [width_append, ← Nat.add_assoc]
    rcases hend with rfl | hend
    · simpa using hrest
    · exact hrest.pad hend (not_mem_of_isLineBlank hblanks) hpadded

end Beside

end Pages

/-! ### All lexemes -/

/-- Two results are both values or both faults, and alike. -/
inductive Agree {ε ε' α β : Type} (faults : ε → ε' → Prop) (values : α → β → Prop) :
    Except ε α → Except ε' β → Prop
  | ok {value : α} {other : β} (hvalues : values value other) :
      Agree faults values (.ok value) (.ok other)
  | error {fault : ε} {other : ε'} (hfaults : faults fault other) :
      Agree faults values (.error fault) (.error other)

namespace Agree

variable {ε ε' α β : Type} {faults : ε → ε' → Prop} {values : α → β → Prop} {first : Except ε α}
  {second : Except ε' β}

theorem map {γ δ : Type} {others : γ → δ → Prop} {convert : α → γ} {change : β → δ}
    (hagree : Agree faults values first second)
    (hvalues : ∀ value other, values value other → others (convert value) (change other)) :
    Agree faults others (first.map convert) (second.map change) := by
  cases hagree with
  | ok hvalue => exact .ok (hvalues _ _ hvalue)
  | error hfault => exact .error hfault

theorem bind {γ δ : Type} {others : γ → δ → Prop} {next : α → Except ε γ}
    {otherNext : β → Except ε' δ} (hagree : Agree faults values first second)
    (hnext : ∀ {value other}, first = .ok value → second = .ok other → values value other →
      Agree faults others (next value) (otherNext other)) :
    Agree faults others (first >>= next) (second >>= otherNext) := by
  cases hagree with
  | ok hvalue => exact hnext rfl rfl hvalue
  | error hfault => exact .error hfault

theorem mapError {γ δ : Type} {others : γ → δ → Prop} {convert : ε → γ} {change : ε' → δ}
    (hagree : Agree faults values first second)
    (hfaults : ∀ fault other, faults fault other → others (convert fault) (change other)) :
    Agree others values (first.mapError convert) (second.mapError change) := by
  cases hagree with
  | ok hvalue => exact .ok hvalue
  | error hfault => exact .error (hfaults _ _ hfault)

end Agree

/-- A limit that the characters left do not exceed is no limit. -/
theorem Cursor.lexemes_eq {cursor : Cursor} {limit : Nat} (hlimit : cursor.rest.length ≤ limit) :
    cursor.lexemes limit =
      match cursor.scan with
      | .token reading => (reading.stop.lexemes (limit - 1)).map (reading.lexeme :: ·)
      | .stray start character => .error ⟨start.offset, character⟩
      | .finish _ => .ok [] := by
  cases limit with
  | zero =>
    obtain ⟨rest, offset⟩ := cursor
    obtain rfl : rest = [] := List.length_eq_zero_iff.mp (Nat.le_zero.mp hlimit)
    simp [lexemes, scan, (settled_nil offset).skipGap_eq]
  | succ limit => rfl

theorem Pages.Beside.lexemes {pages : Pages} {first second : Cursor} {limit other : Nat}
    (hbeside : pages.Beside first second) (hlimit : first.rest.length ≤ limit)
    (hother : second.rest.length ≤ other) :
    Agree pages.Strays (fun lexemes others ↦ others.map Lexeme.token = lexemes.map Lexeme.token)
      (first.lexemes limit) (second.lexemes other) := by
  induction hlength : first.rest.length using Nat.strong_induction_on
    generalizing first second limit other with
  | _ length ih =>
    rw [Cursor.lexemes_eq hlimit, Cursor.lexemes_eq hother]
    have hfinds := hbeside.scan
    generalize hfirst : first.scan = found at hfinds ⊢
    generalize hsecond : second.scan = also at hfinds ⊢
    cases hfinds with
    | token htoken _ hstop =>
      have hshorter := Cursor.length_stop_lt hfirst
      have hothers := Cursor.length_stop_lt hsecond
      refine (ih _ (hlength ▸ hshorter) hstop (by omega) (by omega) rfl).map fun _ _ hvalues ↦ ?_
      simpa [Reading.lexeme, htoken] using hvalues
    | stray _ hstrays => exact .error hstrays
    | finish _ => exact .ok rfl

theorem Pages.beside_begin {source padded : List Char} (hpadded : Text.Padded source padded) :
    (⟨source, padded, 0⟩ : Pages).Beside (.begin source) (.begin padded) := by
  refine ⟨⟨[], rfl, rfl⟩, ⟨[], rfl, rfl⟩, hpadded, ?_, Or.inl ?_⟩ <;>
    simp [Cursor.begin, Position.ofOffset_zero]

/-- Padding changes neither the tokens of a text nor the stray character at which its division
fails. -/
theorem agree_tokenize {source padded : String}
    (hpadded : Text.Padded source.toList padded.toList) :
    Agree Eq (fun lexemes others ↦ others.map Lexeme.token = lexemes.map Lexeme.token)
      (tokenize source) (tokenize padded) :=
  ((Pages.beside_begin hpadded).lexemes le_rfl le_rfl).mapError fun _ _ hstrays ↦ hstrays.symm

end SchemaCompiler
