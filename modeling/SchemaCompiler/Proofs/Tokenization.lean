import SchemaCompiler.Proofs.Spelling

/-!
# The division of a text into lexemes

`tokenize` divides a text into lexemes or stops at a character that begins none. In the first case
(`Text.DividedInto`) every lexeme stands where its span says and is as long as possible, the spans
follow one another, and a character lies outside of them exactly if it is blank within its line or
in a comment. Comments are recognized by the text alone: a character is in a comment if there is a
`#` on its line, at it or before it (`Text.EndsInComment`). In the second case (`Text.StuckAt`) the
text before the character can be divided, and the character is of none of the classes that could go
on there.

Both follow from a relation between texts and lexemes, `Lexed`, with one rule for what is dropped
and one for tokens. `tokenize` finds the lexemes of this relation (`tokenize_eq_ok_iff`), and what
holds of a division is shown by induction on the rules, with texts that begin at any offset.
-/

set_option autoImplicit false
set_option relaxedAutoImplicit false

namespace SchemaCompiler

/-! ### What a division is -/

namespace Text

/-- A text that ends within a comment: there is a `#` on its last line. -/
def EndsInComment (text : List Char) : Prop :=
  ∃ earlier line, text = earlier ++ '#' :: line ∧ '\n' ∉ line

/-- A character that begins neither a gap nor a token. -/
structure BeginsNothing (character : Char) : Prop where
  blank : isBlank character = false
  comment : character ≠ '#'
  letter : character.isAlpha = false
  digit : character.isDigit = false
  mark : ∀ mark : Mark, mark.toChar ≠ character

end Text

/-- A lexeme stands in a text where its span says, and does not go on after it. -/
structure Lexeme.Stands (source : List Char) (lexeme : Lexeme) : Prop where
  nonempty : lexeme.span.start < lexeme.span.stop
  inside : lexeme.span.stop ≤ Text.width source
  text : lexeme.span.text? source = some lexeme.token.text.toList
  valid : lexeme.token.Valid
  maximal : ∃ rest, Text.dropBytes source lexeme.span.stop = some rest ∧
    Text.Stops lexeme.token.continues rest

/-- A text is divided into lexemes that follow one another. A character lies in one of them exactly
if it is neither blank within its line nor in a comment. -/
structure Text.DividedInto (source : List Char) (lexemes : List Lexeme) : Prop where
  stands : ∀ lexeme ∈ lexemes, lexeme.Stands source
  apart : lexemes.Pairwise fun first second ↦ first.span.stop ≤ second.span.start
  covers : ∀ before character after, source = before ++ character :: after →
    ((∃ lexeme ∈ lexemes, lexeme.span.start ≤ width before ∧ width before < lexeme.span.stop) ↔
      ¬ (isLineBlank character = true ∨ EndsInComment (before ++ [character])))

/-- The character of a fault stands in a text after a part that can be divided. It is in no comment,
begins neither a gap nor a token, and does not belong to the lexeme right before it. -/
structure Text.StuckAt (source before after : List Char) (fault : LexicalFault) : Prop where
  source_eq : source = before ++ fault.character :: after
  position : fault.position = .ofOffset source (width before)
  divided : ∃ lexemes, tokenize (String.ofList before) = .ok lexemes ∧
    ∀ lexeme ∈ lexemes, lexeme.span.stop = width before →
      lexeme.token.continues fault.character = false
  outside : ¬ EndsInComment (before ++ [fault.character])
  stray : BeginsNothing fault.character

/-! ### Texts in two parts -/

namespace Text

variable {piece rest before after : List Char} {character : Char}

/-- A character of a text in two parts stands in one of them. -/
theorem split_append (hsplit : piece ++ rest = before ++ character :: after) :
    (∃ inner, piece = before ++ character :: inner) ∨
      ∃ outer, before = piece ++ outer ∧ rest = outer ++ character :: after := by
  rcases List.append_eq_append_iff.mp hsplit with ⟨outer, hbefore, hrest⟩ | ⟨inner, hpiece, hrest⟩
  · exact Or.inr ⟨outer, hbefore, hrest⟩
  · cases inner with
    | nil => exact Or.inr ⟨[], by simpa using hpiece.symm, hrest.symm⟩
    | cons first inner =>
      obtain ⟨rfl, -⟩ := List.cons.inj hrest
      exact Or.inl ⟨inner, hpiece⟩

theorem width_pos {text : List Char} (hne : text ≠ []) : 0 < width text := by
  cases text with
  | nil => exact absurd rfl hne
  | cons character rest =>
    have hsize := character.utf8Size_pos
    rw [width_cons]
    omega

theorem dropBytes_cons (character : Char) (rest : List Char) (offset : Nat) :
    dropBytes (character :: rest) (character.utf8Size + offset) = dropBytes rest offset := by
  obtain ⟨size, hsize⟩ := Nat.exists_eq_add_one.mpr character.utf8Size_pos
  rw [hsize, Nat.add_right_comm, dropBytes, hsize, if_pos (by omega),
    show size + offset + 1 - (size + 1) = offset by omega]

theorem takeBytes_cons (character : Char) (rest : List Char) (offset : Nat) :
    takeBytes (character :: rest) (character.utf8Size + offset) =
      (takeBytes rest offset).map (character :: ·) := by
  obtain ⟨size, hsize⟩ := Nat.exists_eq_add_one.mpr character.utf8Size_pos
  rw [hsize, Nat.add_right_comm, takeBytes, hsize, if_pos (by omega),
    show size + offset + 1 - (size + 1) = offset by omega]

theorem dropBytes_append (before rest : List Char) :
    dropBytes (before ++ rest) (width before) = some rest := by
  induction before with
  | nil => simp [dropBytes]
  | cons character before ih => rw [List.cons_append, width_cons, dropBytes_cons, ih]

theorem takeBytes_append (before rest : List Char) :
    takeBytes (before ++ rest) (width before) = some before := by
  induction before with
  | nil => simp [takeBytes]
  | cons character before ih =>
    rw [List.cons_append, width_cons, takeBytes_cons, ih, Option.map_some]

/-! ### Comments -/

theorem not_endsInComment {text : List Char} (hnone : '#' ∉ text) : ¬ EndsInComment text := by
  rintro ⟨earlier, line, rfl, -⟩
  simp at hnone

/-- What comes before a text does not decide whether it ends in a comment, if no comment begins
there or a line ends in between. -/
theorem endsInComment_append_iff {text : List Char} (hapart : '#' ∉ piece ∨ '\n' ∈ text) :
    EndsInComment (piece ++ text) ↔ EndsInComment text := by
  constructor
  · rintro ⟨earlier, line, hsplit, hline⟩
    rcases split_append hsplit with ⟨inner, rfl⟩ | ⟨outer, rfl, rfl⟩
    · have htext : inner ++ text = line := by simpa using hsplit
      rcases hapart with hpiece | hnewline
      · simp at hpiece
      · exact absurd (htext ▸ List.mem_append_right inner hnewline) hline
    · exact ⟨outer, line, rfl, hline⟩
  · rintro ⟨earlier, line, rfl, hline⟩
    exact ⟨piece ++ earlier, line, by simp, hline⟩

namespace IsGap

theorem ne_nil (hgap : IsGap piece rest) : piece ≠ [] := by
  cases hgap <;> simp

/-- The characters of a gap are blank or in a comment. -/
theorem blank_or_comment {inner : List Char} (hgap : IsGap (before ++ character :: inner) rest) :
    isLineBlank character = true ∨ EndsInComment (before ++ [character]) := by
  generalize hpiece : before ++ character :: inner = piece at hgap
  cases hgap with
  | blank hblank =>
    rw [List.append_eq_singleton_iff] at hpiece
    simp only [reduceCtorEq, and_false, or_false] at hpiece
    obtain ⟨rfl, hcharacter⟩ := hpiece
    obtain ⟨rfl, -⟩ := List.cons.inj hcharacter
    exact Or.inl hblank
  | @comment body _ hbody _ =>
    refine Or.inr ?_
    cases before with
    | nil =>
      obtain ⟨rfl, -⟩ := List.cons.inj hpiece
      exact ⟨[], [], rfl, List.not_mem_nil⟩
    | cons first before =>
      obtain ⟨hfirst, hrest⟩ := List.cons.inj hpiece
      refine ⟨[], before ++ [character], by simp [hfirst], fun hnewline ↦ hbody '\n' ?_ rfl⟩
      rw [← hrest]
      exact List.append_subset.mpr ⟨List.subset_append_left _ _, by simp⟩ hnewline

/-- After a gap, no comment goes on. -/
theorem endsInComment_iff (hgap : IsGap piece (before ++ character :: after)) :
    EndsInComment (piece ++ (before ++ [character])) ↔ EndsInComment (before ++ [character]) := by
  apply endsInComment_append_iff
  cases hgap with
  | @blank found _ hblank =>
    refine Or.inl fun hmark ↦ ?_
    rw [← List.mem_singleton.mp hmark] at hblank
    exact absurd hblank (by decide)
  | comment _ hstops =>
    cases before with
    | nil => simp_all
    | cons first before => simp_all

/-- A gap is one before any part of the text that follows. -/
theorem of_append (hgap : IsGap piece (before ++ after)) : IsGap piece before := by
  cases hgap with
  | blank hblank => exact .blank hblank
  | comment hbody hstops =>
    refine .comment hbody ?_
    cases before with
    | nil => simp
    | cons first before => simpa using hstops

end IsGap

theorem isSolid_of_isSymbolChar {character : Char} (hsymbol : isSymbolChar character = true) :
    IsSolid character := by
  rcases (Bool.or_eq_true _ _).mp hsymbol with hunderscore | hletter
  · rw [beq_iff_eq.mp hunderscore]
    exact ⟨by decide, by decide⟩
  · exact isSolid_of_isAlpha hletter

/-- No gap goes on where a token goes on. -/
theorem isSolid_of_continues {token : Token} {character : Char}
    (hcontinues : token.continues character = true) : IsSolid character := by
  cases token with
  | symbol name => exact isSolid_of_isSymbolChar hcontinues
  | number digits => exact isSolid_of_isDigit hcontinues
  | mark sign => exact absurd hcontinues Bool.false_ne_true

theorem isSolid_of_valid {token : Token} (hvalid : token.Valid) :
    ∀ character ∈ token.text.toList, IsSolid character := by
  intro character hmember
  cases token with
  | symbol name => exact isSolid_of_isSymbolChar (hvalid.forall_isSymbolChar character hmember)
  | number digits => exact isSolid_of_isDigit (hvalid.2 character hmember)
  | mark sign =>
    obtain rfl : character = sign.toChar := by simpa [Token.text] using hmember
    exact isSolid_toChar sign

theorem not_mem_text_of_valid {token : Token} (hvalid : token.Valid) :
    '#' ∉ token.text.toList :=
  fun hmark ↦ (isSolid_of_valid hvalid '#' hmark).2 rfl

theorem newline_not_mem_of_valid {token : Token} (hvalid : token.Valid)
    (hother : token ≠ .mark .newline) : '\n' ∉ token.text.toList := by
  intro hmember
  cases token with
  | symbol name => exact absurd (hvalid.forall_isSymbolChar '\n' hmember) (by decide)
  | number digits => exact absurd (hvalid.2 '\n' hmember) (by decide)
  | mark sign =>
    have hsign : '\n' = sign.toChar := by simpa [Token.text] using hmember
    cases sign <;> simp_all [Mark.toChar]

end Text

/-! ### The rules of division -/

/-- A text from an offset on is divided into lexemes. -/
inductive Lexed : (offset : Nat) → (text : List Char) → List Lexeme → Prop
  /-- The end of the text. -/
  | done (offset : Nat) : Lexed offset [] []
  /-- Blanks and comments are dropped. -/
  | gap {offset : Nat} {piece rest : List Char} {lexemes : List Lexeme}
      (hgap : Text.IsGap piece rest) (hrest : Lexed (offset + Text.width piece) rest lexemes) :
      Lexed offset (piece ++ rest) lexemes
  /-- A token is as long as possible. -/
  | token {offset : Nat} {token : Token} {rest : List Char} {lexemes : List Lexeme}
      (hvalid : token.Valid) (hstops : Text.Stops token.continues rest)
      (hrest : Lexed (offset + Text.width token.text.toList) rest lexemes) :
      Lexed offset (token.text.toList ++ rest)
        (⟨token, ⟨offset, offset + Text.width token.text.toList⟩⟩ :: lexemes)

namespace Lexed

open Text

variable {offset : Nat} {text : List Char} {lexemes : List Lexeme}

/-- Every lexeme stands somewhere in the text and stops there. -/
theorem exists_split (hlexed : Lexed offset text lexemes) {lexeme : Lexeme}
    (hlexeme : lexeme ∈ lexemes) :
    ∃ before after, text = before ++ (lexeme.token.text.toList ++ after) ∧
      lexeme.span = ⟨offset + width before,
        offset + width before + width lexeme.token.text.toList⟩ ∧
      lexeme.token.Valid ∧ Stops lexeme.token.continues after := by
  induction hlexed with
  | done => cases hlexeme
  | @gap _ piece _ _ _ _ ih =>
    obtain ⟨before, after, rfl, hspan, hvalid, hstops⟩ := ih hlexeme
    exact ⟨piece ++ before, after, by simp, by simpa [Nat.add_assoc] using hspan, hvalid, hstops⟩
  | @token _ token rest _ hvalid hstops _ ih =>
    rcases List.mem_cons.mp hlexeme with rfl | hlexeme
    · exact ⟨[], rest, rfl, rfl, hvalid, hstops⟩
    · obtain ⟨before, after, rfl, hspan, hvalid, hstops⟩ := ih hlexeme
      exact ⟨token.text.toList ++ before, after, by simp, by simpa [Nat.add_assoc] using hspan,
        hvalid, hstops⟩

theorem span_bounds (hlexed : Lexed offset text lexemes) {lexeme : Lexeme}
    (hlexeme : lexeme ∈ lexemes) :
    offset ≤ lexeme.span.start ∧ lexeme.span.start < lexeme.span.stop ∧
      lexeme.span.stop ≤ offset + width text := by
  obtain ⟨before, after, rfl, hspan, hvalid, -⟩ := hlexed.exists_split hlexeme
  have hpos := width_pos (List.length_pos_iff.mp (Cursor.length_pos_of_valid hvalid))
  rw [hspan]
  simp only [width_append]
  omega

theorem stands (hlexed : Lexed 0 text lexemes) {lexeme : Lexeme} (hlexeme : lexeme ∈ lexemes) :
    lexeme.Stands text := by
  obtain ⟨-, hnonempty, hinside⟩ := hlexed.span_bounds hlexeme
  obtain ⟨before, after, rfl, hspan, hvalid, hstops⟩ := hlexed.exists_split hlexeme
  rw [Nat.zero_add] at hspan hinside
  refine ⟨hnonempty, hinside, ?_, hvalid, after, ?_, hstops⟩
  · rw [hspan, Span.text?, if_pos (Nat.le_add_right _ _), Nat.add_sub_cancel_left,
      dropBytes_append, Option.bind_some, takeBytes_append]
  · rw [hspan, ← List.append_assoc, ← width_append, dropBytes_append]

theorem pairwise (hlexed : Lexed offset text lexemes) :
    lexemes.Pairwise fun first second ↦ first.span.stop ≤ second.span.start := by
  induction hlexed with
  | done => exact .nil
  | gap _ _ ih => exact ih
  | token _ _ hrest ih =>
    exact List.pairwise_cons.mpr ⟨fun lexeme hlexeme ↦ (hrest.span_bounds hlexeme).1, ih⟩

/-- A character lies in a lexeme exactly if it is neither blank nor in a comment. -/
theorem covers (hlexed : Lexed offset text lexemes) {before after : List Char} {character : Char}
    (htext : text = before ++ character :: after) :
    (∃ lexeme ∈ lexemes, lexeme.span.start ≤ offset + width before ∧
        offset + width before < lexeme.span.stop) ↔
      ¬ (isLineBlank character = true ∨ EndsInComment (before ++ [character])) := by
  induction hlexed generalizing before with
  | done => simp at htext
  | @gap offset piece rest lexemes hgap hrest ih =>
    rcases split_append htext with ⟨inner, rfl⟩ | ⟨outer, rfl, rfl⟩
    · refine iff_of_false ?_ (not_not_intro hgap.blank_or_comment)
      rintro ⟨lexeme, hlexeme, hstart, -⟩
      have hbounds := (hrest.span_bounds hlexeme).1
      have hsize := character.utf8Size_pos
      simp only [width_append, width_cons] at hbounds
      omega
    · rw [List.append_assoc, hgap.endsInComment_iff, ← ih rfl, width_append, Nat.add_assoc]
  | @token offset token rest lexemes hvalid _ hrest ih =>
    rcases split_append htext with ⟨inner, hinner⟩ | ⟨outer, rfl, rfl⟩
    · have hmember : ∀ found ∈ before ++ [character], found ∈ token.text.toList := by
        rw [hinner]
        exact List.append_subset.mpr ⟨List.subset_append_left _ _, by simp⟩
      have hsolid := isSolid_of_valid hvalid character (hmember character (by simp))
      refine iff_of_true ⟨_, List.mem_cons_self, Nat.le_add_right _ _, ?_⟩ ?_
      · have hsize := character.utf8Size_pos
        simp only [hinner, width_append, width_cons]
        omega
      · rintro (hblank | hcomment)
        · exact absurd (hsolid.1.symm.trans hblank) Bool.false_ne_true
        · exact not_endsInComment
            (fun hmark ↦ not_mem_text_of_valid hvalid (hmember '#' hmark)) hcomment
    · rw [List.append_assoc, endsInComment_append_iff (Or.inl (not_mem_text_of_valid hvalid)),
        ← ih rfl, width_append, Nat.add_assoc]
      simp only [List.mem_cons, or_and_right, exists_or, exists_eq_left]
      refine or_iff_right fun hbetween ↦ absurd hbetween.2 ?_
      omega

theorem dividedInto (hlexed : Lexed 0 text lexemes) : DividedInto text lexemes where
  stands := fun _ ↦ hlexed.stands
  apart := hlexed.pairwise
  covers := by
    intro before character after htext
    simpa using hlexed.covers htext

/-- A gap before a place changes nothing. -/
theorem of_skipGap {cursor : Cursor}
    (hlexed : Lexed cursor.skipGap.offset cursor.skipGap.rest lexemes) :
    Lexed cursor.offset cursor.rest lexemes :=
  @Cursor.of_skipGap (fun offset text ↦ Lexed offset text lexemes) .gap cursor hlexed

end Lexed

/-! ### Scanning follows the rules -/

/-- A text from an offset on is divided up to a stray character. -/
structure Halts (offset : Nat) (text : List Char) (stray : Stray) (before after : List Char)
    (lexemes : List Lexeme) : Prop where
  text_eq : text = before ++ stray.character :: after
  offset_eq : stray.offset = offset + Text.width before
  lexed : Lexed offset before lexemes
  apart : ∀ lexeme ∈ lexemes, lexeme.span.stop = stray.offset →
    lexeme.token.continues stray.character = false
  outside : ¬ Text.EndsInComment (before ++ [stray.character])
  stray : Text.BeginsNothing stray.character

namespace Halts

open Text

variable {offset : Nat} {piece rest before after : List Char} {stray : Stray}
  {lexemes : List Lexeme}

theorem gap (hgap : IsGap piece rest)
    (hhalts : Halts (offset + width piece) rest stray before after lexemes) :
    Halts offset (piece ++ rest) stray (piece ++ before) after lexemes := by
  obtain ⟨rfl, hoffset, hlexed, hapart, houtside, hstray⟩ := hhalts
  refine ⟨by simp, by simpa [Nat.add_assoc] using hoffset, .gap hgap.of_append hlexed, hapart, ?_,
    hstray⟩
  rwa [List.append_assoc, hgap.endsInComment_iff]

theorem token {token : Token} (hvalid : token.Valid) (hstops : Stops token.continues rest)
    (hhalts : Halts (offset + width token.text.toList) rest stray before after lexemes) :
    Halts offset (token.text.toList ++ rest) stray (token.text.toList ++ before) after
      (⟨token, ⟨offset, offset + width token.text.toList⟩⟩ :: lexemes) := by
  obtain ⟨rfl, hoffset, hlexed, hapart, houtside, hstray⟩ := hhalts
  refine ⟨by simp, by simpa [Nat.add_assoc] using hoffset, .token hvalid ?_ hlexed, ?_, ?_, hstray⟩
  · cases before with
    | nil => simp
    | cons first before => simpa using hstops
  · refine List.forall_mem_cons.mpr ⟨fun hstop ↦ ?_, hapart⟩
    -- nothing stands between the token and the stray character
    have hbefore : before = [] := by
      by_contra hne
      have hpos := width_pos hne
      simp only at hstop
      omega
    simpa [hbefore] using hstops
  · rwa [List.append_assoc, endsInComment_append_iff (Or.inl (not_mem_text_of_valid hvalid))]

end Halts

namespace Cursor

open Text

variable {cursor : Cursor} {lexemes : List Lexeme}

/-- A stray character that is scanned stands after the gap, and nothing begins with it. -/
theorem beginsNothing_of_scan {start : Cursor} {character : Char}
    (hscan : cursor.scan = .stray start character) :
    start = cursor.skipGap ∧ (∃ rest, start.rest = character :: rest) ∧
      BeginsNothing character := by
  have hsettled := settled_skipGap cursor
  unfold scan at hscan
  simp only at hscan
  split at hscan
  · cases hscan
  · next found rest hrest =>
    split_ifs at hscan with hletter hdigit
    split at hscan
    · cases hscan
    · next hmark =>
      obtain ⟨rfl, rfl⟩ := Scan.stray.inj hscan
      have hnone : ∀ mark : Mark, mark.toChar ≠ found := by
        rintro mark rfl
        rw [Mark.ofChar?_toChar] at hmark
        cases hmark
      obtain ⟨hblank, hcomment⟩ := hsettled found (by simp [hrest])
      have hnewline : found ≠ '\n' := (hnone .newline).symm
      exact ⟨rfl, ⟨rest, hrest⟩, by simpa [isLineBlank, hnewline] using hblank, hcomment,
        by simpa using hletter, by simpa using hdigit, hnone⟩

theorem scan_of_beginsNothing {character : Char} (hnothing : BeginsNothing character)
    (rest : List Char) (offset : Nat) :
    (⟨character :: rest, offset⟩ : Cursor).scan = .stray ⟨character :: rest, offset⟩ character := by
  have hsolid : IsSolid character :=
    ⟨by simp [isLineBlank, hnothing.blank], hnothing.comment⟩
  have hmark : Mark.ofChar? character = none := by
    simpa [Mark.ofChar?] using fun mark _ ↦ hnothing.mark mark
  simp [scan, (settled_cons.2 hsolid).skipGap_eq, hnothing.letter, hnothing.digit, hmark]

/-- The lexemes that are found from a place on are those of its text. -/
theorem lexed_of_lexemes {limit : Nat} (hlimit : cursor.rest.length ≤ limit)
    (hlexemes : cursor.lexemes limit = .ok lexemes) : Lexed cursor.offset cursor.rest lexemes := by
  induction limit generalizing cursor lexemes with
  | zero =>
    obtain ⟨rest, offset⟩ := cursor
    obtain rfl : rest = [] := List.length_eq_zero_iff.mp (Nat.le_zero.mp hlimit)
    cases hlexemes
    exact .done offset
  | succ limit ih =>
    unfold Cursor.lexemes at hlexemes
    split at hlexemes
    · next reading hscan =>
      obtain ⟨hstart, hexact⟩ := exact_of_scan hscan
      have hshorter := length_stop_lt hscan
      cases hothers : reading.stop.lexemes limit with
      | error stray =>
        rw [hothers] at hlexemes
        cases hlexemes
      | ok others =>
        rw [hothers] at hlexemes
        cases hlexemes
        have hrest := ih (by omega) hothers
        apply Lexed.of_skipGap
        rw [← hstart, hexact.rest_eq, Reading.lexeme, hexact.offset_eq]
        exact .token hexact.valid hexact.stops (hexact.offset_eq ▸ hrest)
    · cases hlexemes
    · next stop hscan =>
      cases hlexemes
      obtain ⟨rfl, hrest⟩ := skipGap_of_scan_finish hscan
      apply Lexed.of_skipGap
      rw [hrest]
      exact .done _

/-- All lexemes of a text are found. -/
theorem lexemes_of_lexed {offset limit : Nat} {text : List Char}
    (hlexed : Lexed offset text lexemes) (hlimit : text.length ≤ limit) :
    (⟨text, offset⟩ : Cursor).lexemes limit = .ok lexemes := by
  induction hlexed generalizing limit with
  | done offset =>
    cases limit with
    | zero => rfl
    | succ limit => simp [Cursor.lexemes, scan, (settled_nil offset).skipGap_eq]
  | @gap offset piece rest lexemes hgap _ ih =>
    have hpiece := List.length_pos_iff.mpr hgap.ne_nil
    rw [List.length_append] at hlimit
    cases limit with
    | zero => omega
    | succ limit =>
      have hscan : (⟨piece ++ rest, offset⟩ : Cursor).scan
          = (⟨rest, offset + width piece⟩ : Cursor).scan := by
        rw [← scan_skipGap, skipGap_of_isGap hgap, scan_skipGap]
      have hrest := @ih (limit + 1) (by omega)
      rw [Cursor.lexemes] at hrest ⊢
      rw [hscan, hrest]
  | @token offset token rest lexemes hvalid hstops _ ih =>
    have hpos := length_pos_of_valid hvalid
    rw [List.length_append] at hlimit
    cases limit with
    | zero => omega
    | succ limit =>
      rw [Cursor.lexemes, scan_append offset hvalid hstops]
      simp only [@ih limit (by omega)]
      rfl

/-- Where no lexemes are found, the text is divided up to the stray character. -/
theorem halts_of_lexemes {limit : Nat} {stray : Stray}
    (hstray : cursor.lexemes limit = .error stray) :
    ∃ before after lexemes, Halts cursor.offset cursor.rest stray before after lexemes := by
  induction limit generalizing cursor with
  | zero => cases hstray
  | succ limit ih =>
    refine @of_skipGap (fun offset text ↦ ∃ before after lexemes,
      Halts offset text stray before after lexemes) ?_ cursor ?_
    · rintro offset piece rest hgap ⟨before, after, lexemes, hhalts⟩
      exact ⟨piece ++ before, after, lexemes, hhalts.gap hgap⟩
    · unfold Cursor.lexemes at hstray
      split at hstray
      · next reading hscan =>
        obtain ⟨hstart, hexact⟩ := exact_of_scan hscan
        cases hothers : reading.stop.lexemes limit with
        | error other =>
          rw [hothers] at hstray
          cases hstray
          obtain ⟨before, after, lexemes, hhalts⟩ := ih hothers
          rw [hexact.offset_eq] at hhalts
          rw [← hstart, hexact.rest_eq]
          exact ⟨_, _, _, hhalts.token hexact.valid hexact.stops⟩
        | ok others =>
          rw [hothers] at hstray
          cases hstray
      · next start character hscan =>
        cases hstray
        obtain ⟨rfl, ⟨rest, hrest⟩, hnothing⟩ := beginsNothing_of_scan hscan
        refine ⟨[], rest, [], hrest, rfl, .done _, by simp, not_endsInComment ?_, hnothing⟩
        simpa using hnothing.comment.symm
      · cases hstray

end Cursor

/-- Tokenizing a text finds the lexemes into which it is divided. -/
theorem tokenize_eq_ok_iff {source : String} {lexemes : List Lexeme} :
    tokenize source = .ok lexemes ↔ Lexed 0 source.toList lexemes := by
  unfold tokenize
  constructor
  · intro htokenize
    cases hlexemes : (Cursor.begin source.toList).lexemes source.toList.length with
    | error stray =>
      rw [hlexemes] at htokenize
      cases htokenize
    | ok found =>
      rw [hlexemes] at htokenize
      cases htokenize
      exact Cursor.lexed_of_lexemes (le_refl source.toList.length) hlexemes
  · intro hlexed
    rw [Cursor.begin, Cursor.lexemes_of_lexed hlexed le_rfl]
    rfl

theorem stuckAt_of_tokenize {source : String} {fault : LexicalFault}
    (htokenize : tokenize source = .error fault) :
    ∃ before after, Text.StuckAt source.toList before after fault := by
  unfold tokenize at htokenize
  cases hlexemes : (Cursor.begin source.toList).lexemes source.toList.length with
  | ok lexemes =>
    rw [hlexemes] at htokenize
    cases htokenize
  | error stray =>
    rw [hlexemes] at htokenize
    cases htokenize
    obtain ⟨before, after, lexemes, hhalts⟩ := Cursor.halts_of_lexemes hlexemes
    obtain ⟨htext, hoffset, hlexed, hapart, houtside, hstray⟩ := hhalts
    have hwidth : stray.offset = Text.width before := hoffset.trans (Nat.zero_add _)
    refine ⟨before, after, htext, ?_, ⟨lexemes, ?_, ?_⟩, houtside, hstray⟩
    · exact congrArg (Position.ofOffset source.toList) hwidth
    · rw [tokenize_eq_ok_iff, String.toList_ofList]
      exact hlexed
    · rw [← hwidth]
      exact hapart

/-- Tokenizing a text divides it into lexemes that are as long as possible, or reports the first
character with which it cannot go on. -/
theorem tokenize_divides (source : String) :
    match tokenize source with
    | .ok lexemes => Text.DividedInto source.toList lexemes
    | .error fault => ∃ before after, Text.StuckAt source.toList before after fault := by
  split
  · next lexemes htokenize => exact (tokenize_eq_ok_iff.mp htokenize).dividedInto
  · next fault htokenize => exact stuckAt_of_tokenize htokenize

-- the comment holds a character of two bytes
example : tokenize "ab_c1 # é\n^" =
    .ok [⟨.symbol "ab_c", ⟨0, 4⟩⟩, ⟨.number "1", ⟨4, 5⟩⟩, ⟨.mark .newline, ⟨10, 11⟩⟩,
      ⟨.mark .caret, ⟨11, 12⟩⟩] := by
  decide +kernel

-- an underscore continues a symbol, and nothing else
example : tokenize "a_1_" = .error ⟨'_', ⟨1, 4⟩⟩ := by decide +kernel

end SchemaCompiler
