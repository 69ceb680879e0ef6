import Mathlib.Data.List.Forall2
import SchemaCompiler.Proofs.Recognition

/-!
# Looking ahead changes nothing

A parser sends requests to a reader: it takes the next lexeme, looks at one of the lexemes to come,
or takes the rest of a line (`Request`). What it takes depends on the place at which the reader
stands, and not on what the reader holds already (`Lexer.Faithful.next_fst`,
`Lexer.alike_restOfLine`); a look ahead leaves the place alone. So two readers at one place
answer alike, also if only the first of them is asked to look ahead
(`Lexer.Faithful.forall₂_serve`).

Reading ahead may pass a comment. A raw text that is empty has then no fixed place: it stands before
the comment or after it.
-/

set_option autoImplicit false
set_option relaxedAutoImplicit false

namespace SchemaCompiler

/-- What a parser asks of a reader. -/
inductive Request where
  | next
  | peek (count : Nat)
  | restOfLine
deriving Repr, DecidableEq

/-- Whether a request takes something from the text. -/
def Request.takes : Request → Bool
  | peek _ => false
  | next | restOfLine => true

/-- What a reader answers. -/
inductive Answer where
  | lexeme (lexeme : Option Lexeme)
  | raw (text : RawText)
deriving Repr, DecidableEq

/-- Answers with the same lexeme, or with the same raw text, which also stands at the same place
unless it is empty. -/
inductive Answer.Alike : Answer → Answer → Prop
  | lexeme (lexeme : Option Lexeme) : Alike (.lexeme lexeme) (.lexeme lexeme)
  | raw {first second : RawText} (htext : first.text = second.text)
      (hspan : first.text ≠ [] → first.span = second.span) : Alike (.raw first) (.raw second)

namespace Lexer

/-- The answer to a request, and the reader after it. -/
def answer (lexer : Lexer) : Request → Answer × Lexer
  | .next => (.lexeme lexer.next.1, lexer.next.2)
  | .peek count => (.lexeme (lexer.peek count).1, (lexer.peek count).2)
  | .restOfLine => (.raw lexer.restOfLine.1, lexer.restOfLine.2)

/-- Requests in turn, each with its answer. -/
def serve (lexer : Lexer) : List Request → List (Request × Answer)
  | [] => []
  | request :: requests =>
    (request, (lexer.answer request).1) :: (lexer.answer request).2.serve requests

/-- The reader after requests. -/
def afterAll (lexer : Lexer) (requests : List Request) : Lexer :=
  requests.foldl (fun reader request ↦ (reader.answer request).2) lexer

end Lexer

/-! ### Raw text before and after a gap -/

namespace Cursor

open Text

/-- A comment between a place and the raw text is passed in the end. -/
theorem afterRaw_skip (cursor : Cursor) :
    (cursor.skip isLineBlank).afterRaw = cursor.skipGap.afterRaw := by
  have hblank : (cursor.skip isLineBlank).skip isLineBlank = cursor.skip isLineBlank :=
    skip_of_stops (stops_dropWhile isLineBlank cursor.rest)
  cases hstart : (cursor.skip isLineBlank).rest with
  | nil => simp [skipGap, hstart]
  | cons character rest =>
    by_cases hcomment : character = '#'
    · subst hcomment
      have hgap : cursor.skipGap = (cursor.skip isLineBlank).skip (· != '\n') := by
        simp [skipGap, hstart]
      -- at a comment, and at the end of a line, there is no raw text
      have hbefore : Stops isRaw (cursor.skip isLineBlank).rest := by
        simp [hstart, isRaw]
      have hafter : Stops isRaw cursor.skipGap.rest := by
        intro letter hhead
        rw [hgap] at hhead
        have hnewline := stops_dropWhile (· != '\n') _ letter hhead
        simp only [bne_eq_false_iff_eq] at hnewline
        simp [isRaw, hnewline]
      rw [afterRaw, afterRaw, skip_of_stops hbefore, skip_of_stops hafter, skipGap_skipGap, hgap,
        skipGap]
      simp [hblank, hstart]
    · simp [skipGap, hstart, hcomment]

/-- The raw text is the same before a gap and after it, and stands at the same place unless it is
empty. -/
theorem rawText_skip (cursor : Cursor) :
    (cursor.skip isLineBlank).rawText.text = cursor.skipGap.rawText.text ∧
      ((cursor.skip isLineBlank).rawText.text ≠ "" →
        (cursor.skip isLineBlank).rawText = cursor.skipGap.rawText) := by
  by_cases hempty : (cursor.skip isLineBlank).rawText.text = ""
  · refine ⟨hempty.trans ?_, fun hne ↦ absurd hempty hne⟩
    by_contra hne
    have hskip := skipGap_eq_skip (Or.inl (Ne.symm hne))
    rw [hskip] at hne
    exact hne hempty.symm
  · have hskip := skipGap_eq_skip (Or.inr hempty)
    rw [hskip]
    exact ⟨rfl, fun _ ↦ rfl⟩

/-- The lexeme that is scanned at a place. -/
def lexeme? (cursor : Cursor) : Option Lexeme :=
  match cursor.scan with
  | .token reading => some reading.lexeme
  | _ => none

/-- The place of a reader that was asked at a place. -/
def afterRequest (cursor : Cursor) : Request → Cursor
  | .next => cursor.after
  | .peek _ => cursor
  | .restOfLine => cursor.afterRaw

end Cursor

/-! ### Two readers at one place -/

namespace Lexer

variable {lexer first second : Lexer}

/-- The next lexeme is the one at the place of a reader. -/
theorem Faithful.next_fst (hlexer : lexer.Faithful) : lexer.next.1 = lexer.place.lexeme? := by
  obtain ⟨hfilled, hplace⟩ := hlexer.fill 1
  have hleads := hfilled.leads
  have htoken := hlexer.getElem?_fill Nat.one_pos
  unfold Lexer.next
  simp only
  cases hahead : (lexer.fill 1).ahead with
  | nil =>
    have hnone : lexer.place.token? = none := by
      simpa [hahead, Cursor.tokenAt?] using htoken.symm
    unfold Cursor.token? at hnone
    unfold Cursor.lexeme?
    split at hnone
    · cases hnone
    · next hother => split <;> simp_all
  | cons reading readings =>
    rw [hahead, hplace] at hleads
    simp [Cursor.lexeme?, hleads.1]

theorem alike_restOfLine (hplace : first.place = second.place) :
    (Answer.raw first.restOfLine.1).Alike (.raw second.restOfLine.1) := by
  have hfirst := first.front.rawText_skip
  have hsecond := second.front.rawText_skip
  rw [← restOfLine_eq] at hfirst hsecond
  have hgap : first.front.skipGap = second.front.skipGap := hplace
  rw [hgap] at hfirst
  have htext : first.restOfLine.1.text = second.restOfLine.1.text :=
    String.ofList_inj.1 (hfirst.1.trans hsecond.1.symm)
  refine .raw htext fun hne ↦ ?_
  have hstart := hfirst.2 (by simpa using hne)
  have hother := hsecond.2 (by simpa [← htext] using hne)
  exact congrArg DefaultText.span (hstart.trans hother.symm)

/-- A request keeps a reader faithful, and where the reader stands afterwards depends only on where
it stood. -/
theorem Faithful.answer (hlexer : lexer.Faithful) (request : Request) :
    (lexer.answer request).2.Faithful ∧
      (lexer.answer request).2.place = lexer.place.afterRequest request := by
  cases request with
  | next => exact hlexer.next
  | peek count => exact ⟨(hlexer.peek count).1, (hlexer.peek count).2.1⟩
  | restOfLine =>
    exact ⟨hlexer.restOfLine.1, hlexer.restOfLine.2.trans lexer.front.afterRaw_skip⟩

/-- Readers at one place answer alike to a request that takes something. -/
theorem Faithful.alike_answer (hfirst : first.Faithful) (hsecond : second.Faithful)
    (hplace : first.place = second.place) {request : Request} (htakes : request.takes = true) :
    (first.answer request).1.Alike (second.answer request).1 := by
  cases request with
  | next =>
    have hnext : first.next.1 = second.next.1 := by
      rw [hfirst.next_fst, hsecond.next_fst, hplace]
    simpa only [Lexer.answer, hnext] using .lexeme _
  | peek count => cases htakes
  | restOfLine => exact alike_restOfLine hplace

/-- Of two readers at one place, one that is asked to look ahead now and then gives the other
requests the answers of the one that is not. -/
theorem Faithful.forall₂_serve (requests : List Request) (hfirst : first.Faithful)
    (hsecond : second.Faithful) (hplace : first.place = second.place) :
    List.Forall₂ (fun seen plain ↦ seen.1 = plain.1 ∧ seen.2.Alike plain.2)
      ((first.serve requests).filter fun entry ↦ entry.1.takes)
      (second.serve (requests.filter Request.takes)) := by
  induction requests generalizing first second with
  | nil => exact .nil
  | cons request requests ih =>
    obtain ⟨hnext, hstop⟩ := hfirst.answer request
    cases htakes : request.takes with
    | true =>
      obtain ⟨hother, hotherStop⟩ := hsecond.answer request
      simp only [serve, List.filter_cons, htakes, if_true]
      refine .cons ⟨rfl, hfirst.alike_answer hsecond hplace htakes⟩ (ih hnext hother ?_)
      rw [hstop, hotherStop, hplace]
    | false =>
      have hstays : (first.answer request).2.place = first.place := by
        cases request with
        | peek count => exact hstop
        | next => cases htakes
        | restOfLine => cases htakes
      simp only [serve, List.filter_cons, htakes]
      exact ih hnext hsecond (hstays.trans hplace)

theorem Faithful.afterAll (requests : List Request) (hlexer : lexer.Faithful) :
    (lexer.afterAll requests).Faithful := by
  induction requests generalizing lexer with
  | nil => exact hlexer
  | cons request requests ih => exact ih (hlexer.answer request).1

/-- Requests to look ahead can be left out: the lexemes and raw texts that are taken stay the same,
and so do the places of the raw texts that are not empty. After any requests, a stray character that
was met stands behind all that was read ahead, so the rest of a line is taken without it. -/
theorem serve_without_looks (source : List Char) (requests : List Request) :
    List.Forall₂ (fun seen plain ↦ seen.1 = plain.1 ∧ seen.2.Alike plain.2)
        (((ofSource source).serve requests).filter fun entry ↦ entry.1.takes)
        ((ofSource source).serve (requests.filter Request.takes)) ∧
      (∀ stray ∈ ((ofSource source).afterAll requests).stray,
        ∀ reading ∈ ((ofSource source).afterAll requests).ahead,
          reading.lexeme.span.stop ≤ stray.offset) ∧
      ((ofSource source).afterAll requests).restOfLine.2.stray = none := by
  have hstart := faithful_ofSource source
  have hreader := hstart.afterAll requests
  exact ⟨hstart.forall₂_serve requests hstart rfl,
    fun stray hstray ↦ (hreader.offset_le_stray hstray).2, hreader.stray_restOfLine⟩

-- A look ahead passes the comment, and the empty raw text then stands behind it.
example : (ofSource "= # now".toList).serve [.next, .peek 0, .restOfLine] =
      [(.next, .lexeme (some ⟨.mark .equal, ⟨0, 1⟩⟩)), (.peek 0, .lexeme none),
        (.restOfLine, .raw ⟨[], ⟨7, 7⟩⟩)] ∧
    (ofSource "= # now".toList).serve [.next, .restOfLine] =
      [(.next, .lexeme (some ⟨.mark .equal, ⟨0, 1⟩⟩)), (.restOfLine, .raw ⟨[], ⟨2, 2⟩⟩)] := by
  decide

end Lexer

end SchemaCompiler
