import SchemaCompiler.Proofs.PositionOrder
import SchemaCompiler.Proofs.ViableDocuments

/-!
# Parsing and tokenizing agree on stray characters

`tokenize` divides all of a text into lexemes, while a parser takes the defaults of fields as they
stand. So a text may parse and have no division, but only because of its defaults, and a parser
never finds a stray character before `tokenize` does (`parse_agrees_with_tokenize`).

What is lexed in a default ends where the default ends: no token reaches over the end of a line or
into a comment. Both readings are therefore at the same place after every default, unless a stray
character stands in it, and the division fails there (`FailsBy.line`).
-/

set_option autoImplicit false
set_option relaxedAutoImplicit false

namespace SchemaCompiler

open Text

/-! ### Where a division fails -/

/-- The division of a text into lexemes fails at a bound or before. -/
structure FailsBy (bound offset : Nat) (text : List Char) : Prop where
  le_bound : offset ≤ bound
  fails (limit : Nat) (hlimit : text.length ≤ limit) :
    ∃ stray, (⟨text, offset⟩ : Cursor).lexemes limit = .error stray ∧ stray.offset ≤ bound

namespace FailsBy

variable {bound offset : Nat} {piece line rest : List Char}

theorem stray {character : Char} (hnothing : BeginsNothing character) (hle : offset ≤ bound) :
    FailsBy bound offset (character :: rest) := by
  refine ⟨hle, fun limit hlimit ↦ ?_⟩
  cases limit with
  | zero => simp at hlimit
  | succ limit =>
    refine ⟨⟨offset, character⟩, ?_, hle⟩
    simp [Cursor.lexemes, Cursor.scan_of_beginsNothing hnothing]

theorem gap (hgap : IsGap piece rest) (hrest : FailsBy bound (offset + width piece) rest) :
    FailsBy bound offset (piece ++ rest) := by
  refine ⟨(Nat.le_add_right _ _).trans hrest.le_bound, fun limit hlimit ↦ ?_⟩
  have hpiece := List.length_pos_iff.mpr hgap.ne_nil
  rw [List.length_append] at hlimit
  obtain ⟨limit, rfl⟩ : ∃ fewer, limit = fewer + 1 := ⟨limit - 1, by omega⟩
  have hscan : (⟨piece ++ rest, offset⟩ : Cursor).scan
      = (⟨rest, offset + width piece⟩ : Cursor).scan := by
    rw [← Cursor.scan_skipGap, Cursor.skipGap_of_isGap hgap, Cursor.scan_skipGap]
  have hfails := hrest.fails (limit + 1) (by omega)
  rw [Cursor.lexemes] at hfails ⊢
  rwa [hscan]

theorem token {token : Token} (hvalid : token.Valid) (hstops : Stops token.continues rest)
    (hrest : FailsBy bound (offset + width token.text.toList) rest) :
    FailsBy bound offset (token.text.toList ++ rest) := by
  refine ⟨(Nat.le_add_right _ _).trans hrest.le_bound, fun limit hlimit ↦ ?_⟩
  have hpos := Cursor.length_pos_of_valid hvalid
  rw [List.length_append] at hlimit
  obtain ⟨limit, rfl⟩ : ∃ fewer, limit = fewer + 1 := ⟨limit - 1, by omega⟩
  obtain ⟨stray, hstray, hle⟩ := hrest.fails limit (by omega)
  refine ⟨stray, ?_, hle⟩
  rw [Cursor.lexemes, Cursor.scan_append offset hvalid hstops]
  simp only [hstray]
  rfl

end FailsBy

/-- A token that begins within a line stays in it, and out of comments. -/
theorem isRaw_of_valid {token : Token} (hvalid : token.Valid)
    (hhead : ∀ character ∈ token.text.toList.head?, isRaw character = true) :
    ∀ character ∈ token.text.toList, isRaw character = true := by
  intro character hmember
  have hcomment : character ≠ '#' := (isSolid_of_valid hvalid character hmember).2
  suffices hnewline : character ≠ '\n' by simp [isRaw, hnewline, hcomment]
  rintro rfl
  refine newline_not_mem_of_valid hvalid ?_ hmember
  rintro rfl
  exact absurd (hhead '\n' (by simp [Token.text, Mark.toChar])) (by decide)

/-- A token at the beginning of a raw text is a part of it. -/
theorem exists_line_of_token {token : Token} {line rest after : List Char} (hvalid : token.Valid)
    (hne : line ≠ []) (hline : ∀ character ∈ line, isRaw character = true)
    (hstops : Stops isRaw rest) (hsplit : line ++ rest = token.text.toList ++ after) :
    ∃ others, line = token.text.toList ++ others ∧ after = others ++ rest := by
  have hraw : ∀ character ∈ token.text.toList, isRaw character = true := by
    refine isRaw_of_valid hvalid fun character hhead ↦ hline character ?_
    have hfirst : (line ++ rest).head? = some character := by
      rw [hsplit, List.head?_append, hhead]
      rfl
    rw [List.head?_append_of_ne_nil _ hne] at hfirst
    exact List.mem_of_mem_head? hfirst
  refine ⟨after.takeWhile isRaw, ?_, ?_⟩
  · rw [← hstops.takeWhile_append hline, hsplit, List.takeWhile_append_of_pos hraw]
  · have hrest : rest = after.dropWhile isRaw := by
      rw [← hstops.dropWhile_append hline, hsplit, List.dropWhile_append_of_pos hraw]
    rw [hrest, List.takeWhile_append_dropWhile]

/-- The division fails in raw text, or where it fails after raw text. -/
theorem FailsBy.raw {bound offset : Nat} {line rest : List Char}
    (hline : ∀ character ∈ line, isRaw character = true) (hstops : Stops isRaw rest)
    (hrest : FailsBy bound (offset + width line) rest) : FailsBy bound offset (line ++ rest) := by
  induction hlength : line.length using Nat.strong_induction_on generalizing line offset with
  | _ length ih =>
    subst hlength
    cases line with
    | nil => simpa using hrest
    | cons character others =>
      by_cases hblank : isLineBlank character = true
      · refine @gap bound offset [character] (others ++ rest) (.blank hblank) ?_
        refine ih _ (by simp) (fun other hother ↦ hline other (by simp [hother])) ?_ rfl
        simpa [Nat.add_assoc] using hrest
      have hcomment : character ≠ '#' := by
        rintro rfl
        exact absurd (hline '#' (by simp)) (by decide)
      have hsettled := (@Cursor.settled_cons character (others ++ rest) offset).2
        ⟨by simpa using hblank, hcomment⟩
      rw [List.cons_append]
      cases hscan : (⟨character :: (others ++ rest), offset⟩ : Cursor).scan with
      | finish stop =>
        obtain ⟨rfl, hend⟩ := Cursor.skipGap_of_scan_finish hscan
        simp [hsettled.skipGap_eq] at hend
      | stray start found =>
        obtain ⟨rfl, ⟨after, hafter⟩, hnothing⟩ := Cursor.beginsNothing_of_scan hscan
        rw [hsettled.skipGap_eq] at hafter
        obtain ⟨rfl, -⟩ := List.cons.inj hafter
        exact stray hnothing ((Nat.le_add_right _ _).trans hrest.le_bound)
      | token reading =>
        obtain ⟨hstart, hexact⟩ := Cursor.exact_of_scan hscan
        have hsplit : character :: others ++ rest =
            reading.token.text.toList ++ reading.stop.rest := by
          rw [← hexact.rest_eq, hstart, hsettled.skipGap_eq]
          rfl
        obtain ⟨line, hhead, htail⟩ :=
          exists_line_of_token hexact.valid (by simp) hline hstops hsplit
        have hpos := Cursor.length_pos_of_valid hexact.valid
        rw [← List.cons_append, hsplit]
        refine token hexact.valid hexact.stops ?_
        rw [htail]
        rw [hhead] at hline hrest
        refine ih _ (by rw [hhead, List.length_append]; omega)
          (fun other hother ↦ hline other (by simp [hother])) ?_ rfl
        simpa [Nat.add_assoc] using hrest

theorem FailsBy.of_spells {cursor stop : Cursor} {items : List Item} {character : Char}
    (hstray : stop.ShowsStray character) (hspells : cursor.skipGap.Spells items stop) :
    FailsBy stop.offset cursor.offset cursor.rest := by
  refine @Cursor.Spells.induction (fun offset text _ ↦ FailsBy stop.offset offset text) _ _ _
    hspells ?_ gap token ?_
  · obtain ⟨hnothing, rest, hrest⟩ := hstray
    rw [hrest]
    exact stray hnothing le_rfl
  · intro offset line rest _ hline hstops _ hrest
    refine @token _ _ _ (.mark .equal) trivial (Token.stops_continues_mark _ _)
      (raw hline hstops ?_)
    simpa [Token.text, Mark.toChar, Nat.add_assoc] using hrest

/-- A stray character that a parser reports is not before the one at which the division of the text
fails. -/
theorem exists_tokenize_eq_error {source : String} {fault : LexicalFault}
    (hparse : Document.parse source = .error (.lexical fault)) :
    ∃ earlier, tokenize source = .error earlier ∧ earlier.position ≤ fault.position := by
  obtain ⟨begun, stop, -, hspells, hstray, hposition⟩ := exists_begun hparse
  obtain ⟨stray, hfails, hle⟩ := (FailsBy.of_spells hstray hspells).fails _ le_rfl
  refine ⟨stray.locate source.toList, ?_, ?_⟩
  · have hlexemes : (Cursor.begin source.toList).lexemes source.toList.length = .error stray :=
      hfails
    rw [tokenize, hlexemes]
    rfl
  · rw [hposition]
    exact Position.ofOffset_monotone source.toList hle

/-! ### Documents without defaults -/

/-- A text that is read without defaults is divided into lexemes. -/
theorem Reads.exists_lexed {offset : Nat} {text : List Char} {items : List Item}
    (hreads : Reads offset text items) (hplain : ∀ initial, .initial initial ∉ items) :
    ∃ lexemes, Lexed offset text lexemes := by
  induction hreads with
  | done offset => exact ⟨[], .done offset⟩
  | @blank offset character rest items hblank _ ih =>
    obtain ⟨lexemes, hlexed⟩ := ih hplain
    exact ⟨lexemes,
      @Lexed.gap offset [character] rest lexemes (.blank hblank) (by simpa using hlexed)⟩
  | comment hbody hstops _ ih =>
    obtain ⟨lexemes, hlexed⟩ := ih hplain
    exact ⟨lexemes, .gap (.comment hbody hstops) hlexed⟩
  | token hvalid hstops _ ih =>
    obtain ⟨lexemes, hlexed⟩ := ih fun initial hmember ↦ hplain initial (by simp [hmember])
    exact ⟨_, .token hvalid hstops hlexed⟩
  | initial => exact absurd List.mem_cons_self (hplain _)

theorem exists_tokenize_eq_ok {source : String} {document : Document}
    (hparse : Document.parse source = .ok document)
    (hdefaults : ∀ statement ∈ document.statements, ∀ field ∈ statement.fields,
      field.initial = none) :
    ∃ lexemes, tokenize source = .ok lexemes := by
  obtain ⟨items, hreads, hwritten⟩ := Document.parse_eq_ok_iff.1 hparse
  obtain ⟨lexemes, hlexed⟩ := hreads.exists_lexed fun initial hmember ↦ by
    rw [← Item.mem_initials_iff, hwritten.initials_eq, Document.mem_defaults_iff] at hmember
    obtain ⟨statement, hstatement, field, hfield, hinitial⟩ := hmember
    simp [hdefaults statement hstatement field hfield] at hinitial
  exact ⟨lexemes, tokenize_eq_ok_iff.2 hlexed⟩

/-! ### Agreement -/

/-- Parsing and tokenizing agree on stray characters. A text that can be tokenized is never given up
because of a stray character. Where it is, tokenizing it fails at the character or before. A text
that parses to a document without defaults can be tokenized. -/
theorem parse_agrees_with_tokenize (source : String) :
    (∀ lexemes, tokenize source = .ok lexemes →
      ∀ fault, Document.parse source ≠ .error (.lexical fault)) ∧
    (∀ fault, Document.parse source = .error (.lexical fault) →
      ∃ earlier, tokenize source = .error earlier ∧ earlier.position ≤ fault.position) ∧
    ∀ document, Document.parse source = .ok document →
      (∀ statement ∈ document.statements, ∀ field ∈ statement.fields, field.initial = none) →
        ∃ lexemes, tokenize source = .ok lexemes := by
  refine ⟨fun lexemes htokenize fault hparse ↦ ?_, fun _ ↦ exists_tokenize_eq_error,
    fun _ ↦ exists_tokenize_eq_ok⟩
  obtain ⟨earlier, hfails, -⟩ := exists_tokenize_eq_error hparse
  cases htokenize.symm.trans hfails

/-- A text with a stray character in a default, and another one after it. -/
def brokenTwice : String := "A(id: int) \x7b\n at: Day = now($)\n to: R $ \x7d"

/-- A text without defaults. -/
def plainPage : String := "A(id: int~) \x7b at: Day? \x7d\nB^ <-> A \x7b\x7d"

theorem parse_agrees_with_tokenize_pages :
    (Document.parse brokenTwice = .error (.lexical ⟨'$', ⟨3, 8⟩⟩) ∧
      ∃ earlier, tokenize brokenTwice = .error earlier ∧ earlier.position ≤ ⟨3, 8⟩) ∧
    ∃ document, Document.parse plainPage = .ok document ∧
      ∃ lexemes, tokenize plainPage = .ok lexemes ∧
        ∀ fault, Document.parse plainPage ≠ .error (.lexical fault) := by
  have hbroken : Document.parse brokenTwice = .error (.lexical ⟨'$', ⟨3, 8⟩⟩) := by decide +kernel
  have hplain : (Document.parse plainPage).toOption.any (fun document ↦
      document.statements.all fun statement ↦
        statement.fields.all fun field ↦ field.initial.isNone) = true := by
    decide +kernel
  obtain ⟨document, hparse⟩ : ∃ document, Document.parse plainPage = .ok document := by
    cases hparse : Document.parse plainPage with
    | error fault => simp [hparse, Except.toOption] at hplain
    | ok document => exact ⟨document, rfl⟩
  obtain ⟨hclean, -, hdefaults⟩ := parse_agrees_with_tokenize plainPage
  obtain ⟨lexemes, hlexemes⟩ := hdefaults document hparse (by
    simpa [hparse, Except.toOption] using hplain)
  exact ⟨⟨hbroken, (parse_agrees_with_tokenize brokenTwice).2.1 _ hbroken⟩, document, hparse,
    lexemes, hlexemes, hclean lexemes hlexemes⟩

end SchemaCompiler
