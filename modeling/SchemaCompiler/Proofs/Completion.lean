import SchemaCompiler.Proofs.ViableDocuments

/-!
# Completing the text before a stray character

A stray character is reported only where a document was still possible: the text before it can be
completed to a text that parses (`lexical_fault_leaves_viable_text`).

The items before the character begin a document, and tokens alone complete it. The tokens are
written after the text, with a blank before each. The text is still read as before: what ended the
last item, or the gap after it, was the stray character or something in front of it, and now is a
blank or the end of the text. `Reaches` says this, by the rules of reading.
-/

set_option autoImplicit false
set_option relaxedAutoImplicit false

namespace SchemaCompiler

open Text

/-! ### Tokens with blanks between them -/

/-- A text that is empty or begins with a blank. -/
def IsSpaced (text : List Char) : Prop := Stops (· != ' ') text

theorem IsSpaced.stops_continues {text : List Char} (htext : IsSpaced text) (token : Token) :
    Stops token.continues text := by
  intro character hhead
  obtain rfl : character = ' ' := by simpa using htext character hhead
  cases token <;> rfl

/-- Tokens that can be written are read from a text that begins with a blank. -/
theorem exists_spaced {items : List Item} (hitems : Plain items) :
    ∃ text, IsSpaced text ∧ ∀ offset, Reads offset text items := by
  induction items with
  | nil => exact ⟨[], by simp [IsSpaced], .done⟩
  | cons item items ih =>
    obtain ⟨token, hvalid, rfl⟩ := hitems item (by simp)
    obtain ⟨text, htext, hreads⟩ := ih fun other hother ↦ hitems other (by simp [hother])
    refine ⟨' ' :: (token.text.toList ++ text), by simp [IsSpaced], fun offset ↦ ?_⟩
    exact .blank (by decide) (.token hvalid (htext.stops_continues token) (hreads _))

/-! ### Texts that are read up to a place -/

/-- A text is read as a list of items up to a place, and so is any text that goes on there with a
blank or ends. -/
def Reaches (stop : Cursor) (offset : Nat) (text : List Char) (items : List Item) : Prop :=
  ∃ before, text = before ++ stop.rest ∧ stop.offset = offset + width before ∧
    ∀ {tail rest}, IsSpaced tail → Reads stop.offset tail rest →
      Reads offset (before ++ tail) (items ++ rest)

/-- What stops before a text also stops before a changed text, if it does so where all of the text
is changed. -/
theorem stops_change {continues : Char → Bool} {before rest tail : List Char}
    (hstops : Stops continues (before ++ rest)) (htail : before = [] → Stops continues tail) :
    Stops continues (before ++ tail) := by
  cases before with
  | nil => exact htail rfl
  | cons first before => simpa using hstops

namespace Reaches

variable {stop : Cursor} {character : Char} {offset : Nat} {piece line text : List Char}
  {items : List Item}

theorem nil (stop : Cursor) : Reaches stop stop.offset stop.rest [] :=
  ⟨[], rfl, by simp, fun _ hreads ↦ hreads⟩

theorem gap (hstop : stop.ShowsStray character) (hgap : IsGap piece text)
    (hreaches : Reaches stop (offset + width piece) text items) :
    Reaches stop offset (piece ++ text) items := by
  obtain ⟨before, rfl, hoffset, hreads⟩ := hreaches
  refine ⟨piece ++ before, by simp, by simpa [Nat.add_assoc] using hoffset,
    fun {tail rest} htail hrest ↦ ?_⟩
  rw [List.append_assoc]
  have hafter := hreads htail hrest
  cases hgap with
  | blank hblank => exact .blank hblank (by simpa using hafter)
  | comment hbody hstops =>
    refine .comment hbody (stops_change hstops ?_) hafter
    -- a comment goes on up to the end of a line, which is no stray character
    rintro rfl
    obtain ⟨hnothing, others, hothers⟩ := hstop
    rw [List.nil_append, hothers, stops_cons, bne_eq_false_iff_eq] at hstops
    exact absurd hstops.symm (hnothing.mark .newline)

theorem token {token : Token} (hvalid : token.Valid) (hstops : Stops token.continues text)
    (hreaches : Reaches stop (offset + width token.text.toList) text items) :
    Reaches stop offset (token.text.toList ++ text) (.token token :: items) := by
  obtain ⟨before, rfl, hoffset, hreads⟩ := hreaches
  refine ⟨token.text.toList ++ before, by simp, by simpa [Nat.add_assoc] using hoffset,
    fun {tail rest} htail hrest ↦ ?_⟩
  rw [List.append_assoc]
  exact .token hvalid (stops_change hstops fun _ ↦ htail.stops_continues token) (hreads htail hrest)

theorem initial (hstop : stop.ShowsStray character)
    (hline : ∀ character ∈ line, isRaw character = true)
    (hstops : Stops isRaw text) (htext : trim line ≠ [])
    (hreaches : Reaches stop (offset + width ('=' :: line)) text items) :
    Reaches stop offset ('=' :: (line ++ text))
      (.initial (.ofLine (offset + '='.utf8Size) line) :: items) := by
  obtain ⟨before, rfl, hoffset, hreads⟩ := hreaches
  refine ⟨'=' :: (line ++ before), by simp, by simpa [Nat.add_assoc] using hoffset,
    fun {tail rest} htail hrest ↦ ?_⟩
  rw [List.cons_append, List.append_assoc]
  refine .initial hline (stops_change hstops ?_) htext (hreads htail hrest)
  -- raw text goes on up to the end of a line or a comment, which are no stray characters
  rintro rfl
  obtain ⟨hnothing, others, hothers⟩ := hstop
  rw [List.nil_append, hothers, stops_cons] at hstops
  have hnewline : character = '\n' := by simpa [isRaw, hnothing.comment] using hstops
  exact absurd hnewline.symm (hnothing.mark .newline)

theorem of_spells {cursor : Cursor} (hstop : stop.ShowsStray character)
    (hspells : cursor.skipGap.Spells items stop) :
    Reaches stop cursor.offset cursor.rest items :=
  hspells.induction (nil stop) (gap hstop) token (initial hstop)

end Reaches

/-- A stray character is reported only where a document was still possible: the text before it can
be completed to a document. -/
theorem lexical_fault_leaves_viable_text {source : String} {fault : LexicalFault}
    (hparse : Document.parse source = .error (.lexical fault)) :
    ∃ before after, source.toList = before ++ fault.character :: after ∧
      fault.position = .ofOffset source.toList (width before) ∧
      ∃ completion document,
        Document.parse (String.ofList before ++ completion) = .ok document := by
  obtain ⟨begun, stop, ⟨rest, hplain, document, hwritten⟩, hspells, hstray, hposition⟩ :=
    exists_begun hparse
  obtain ⟨before, hbefore, hoffset, hreads⟩ := Reaches.of_spells hstray hspells
  obtain ⟨-, after, hafter⟩ := hstray
  obtain ⟨tail, htail, hrest⟩ := exists_spaced hplain
  refine ⟨before, after, hafter ▸ hbefore, ?_, String.ofList tail, document, ?_⟩
  · rw [hposition, hoffset]
    simp [Cursor.begin]
  · rw [Document.parse_eq_ok_iff]
    refine ⟨begun ++ rest, ?_, hwritten⟩
    simpa [Cursor.begin] using hreads htail (hrest stop.offset)

/-- A text that stops after the name of a field. -/
def brokenNote : String := "A(id: int) \x7b # note\n at$"

theorem lexical_fault_leaves_viable_text_note :
    Document.parse brokenNote = .error (.lexical ⟨'$', ⟨2, 4⟩⟩) ∧
      ∃ before after, brokenNote.toList = before ++ '$' :: after ∧
        (⟨2, 4⟩ : Position) = .ofOffset brokenNote.toList (width before) ∧
        ∃ completion document,
          Document.parse (String.ofList before ++ completion) = .ok document := by
  have hparse : Document.parse brokenNote = .error (.lexical ⟨'$', ⟨2, 4⟩⟩) := by decide +kernel
  exact ⟨hparse, lexical_fault_leaves_viable_text hparse⟩

end SchemaCompiler
