import SchemaCompiler.Proofs.ParallelReading

/-!
# One text after another

If two texts can be parsed, so can the text that has one after the other, with the end of a line in
between: its document has the statements of both (`Document.parse_successive`).

The first text is read as before, whatever follows the end of its last line (`Reads.append`). The
second text is read at another place than before. A reader of the text alone and a reader of the
text at the end of the longer one are beside each other, with nothing put in (`Text.Padded.refl`);
so they take the same statements, up to the spans of defaults.
-/

set_option autoImplicit false
set_option relaxedAutoImplicit false

namespace SchemaCompiler

open Text

/-! ### The first text -/

theorem Text.Stops.append_newline {continues : Char → Bool} {rest tail : List Char}
    (hstops : Stops continues rest) (hnewline : continues '\n' = false) :
    Stops continues (rest ++ '\n' :: tail) := by
  cases rest with
  | nil => simpa using hnewline
  | cons character rest => simpa using hstops

theorem Token.continues_newline (token : Token) : token.continues '\n' = false := by
  cases token with
  | symbol name => simp only [continues]; decide
  | number digits => simp only [continues]; decide
  | mark sign => rfl

/-- What follows the end of a line does not change what is read before it. -/
theorem Reads.append {offset : Nat} {text tail : List Char} {items others : List Item}
    (hreads : Reads offset text items)
    (htail : Reads (offset + width text) ('\n' :: tail) others) :
    Reads offset (text ++ '\n' :: tail) (items ++ others) := by
  induction hreads with
  | done offset => simpa using htail
  | blank hblank _ ih => exact .blank hblank (ih (by simpa [Nat.add_assoc] using htail))
  | comment hbody hstops _ ih =>
    rw [List.cons_append, List.append_assoc]
    refine .comment hbody (hstops.append_newline rfl) (ih ?_)
    simpa [Nat.add_assoc] using htail
  | token hvalid hstops _ ih =>
    rw [List.append_assoc]
    refine .token hvalid (hstops.append_newline (Token.continues_newline _)) (ih ?_)
    simpa [Nat.add_assoc] using htail
  | initial hline hstops htext _ ih =>
    rw [List.cons_append, List.append_assoc]
    refine .initial hline (hstops.append_newline rfl) htext (ih ?_)
    simpa [Nat.add_assoc] using htail

/-! ### The second text -/

/-- A reader of a text is beside a reader of the same text at the end of a longer one. -/
theorem Pages.exists_beside (before text : List Char) :
    ∃ lines, (⟨text, before ++ '\n' :: text, lines⟩ : Pages).Beside (.begin text)
      ⟨text, width (before ++ ['\n'])⟩ := by
  have hposition : Position.ofOffset (before ++ '\n' :: text) (width (before ++ ['\n'])) =
      ⟨(before.foldl Position.advance .first).line + 1, 1⟩ := by
    rw [← List.singleton_append, ← List.append_assoc, Position.ofOffset, Position.after_append,
      List.foldl_append]
    rfl
  refine ⟨(before.foldl Position.advance .first).line, ⟨[], rfl, rfl⟩,
    ⟨before ++ ['\n'], by simp, rfl⟩, .refl text, ?_, Or.inl ?_⟩
  · rw [hposition, Cursor.begin, Position.ofOffset_zero]
    exact Nat.add_comm _ _
  · rw [hposition, Cursor.begin, Position.ofOffset_zero]
    rfl

/-- A text that is parsed alone is read as a document with the same statements at the end of a
longer text. -/
theorem Document.exists_reads {text : String} {document : Document} (before : List Char)
    (hparse : parse text = .ok document) :
    ∃ (moved : Document) (items : List Item), moved.withoutSpans = document.withoutSpans ∧
      Reads (width (before ++ ['\n'])) text.toList items ∧ moved.Written items := by
  obtain ⟨last, hrun, hstray⟩ := parse_eq_ok_iff_run.1 hparse
  obtain ⟨lines, hbeside⟩ := Pages.exists_beside before text.toList
  let lexer : Lexer :=
    { source := before ++ '\n' :: text.toList, cursor := ⟨text.toList, width (before ++ ['\n'])⟩ }
  obtain ⟨hlexer, hplace⟩ : lexer.Faithful ∧ lexer.place = lexer.cursor.skipGap :=
    Lexer.faithful_of_leads rfl (by simp [lexer])
  have hreaders : (⟨text.toList, before ++ '\n' :: text.toList, lines⟩ : Pages).Readers
      (.ofSource text.toList) lexer :=
    ⟨rfl, rfl, Lexer.faithful_ofSource _, hlexer, hbeside, .nil, .none⟩
  have hagree := Parser.agrees_statements.run hreaders
  rw [hrun] at hagree
  generalize hother : Parser.statements.run lexer = result at hagree
  cases hagree with
  | @ok _ pair hvalues =>
    obtain ⟨statements, next⟩ := pair
    obtain ⟨hstatements, hnext⟩ := hvalues
    have hclear : next.stray = none := by
      have hstrays : Option.Rel _ last.stray next.stray := hnext.stray
      rw [hstray] at hstrays
      generalize next.stray = found at hstrays ⊢
      cases hstrays
      rfl
    obtain ⟨-, ⟨items, hwritten, hspells⟩, -⟩ :=
      Parser.recognizes_statements.sound hlexer hother
    rw [hplace] at hspells
    have hend := (Parser.stray_eq_none_iff hlexer hother).1 hclear
    exact ⟨⟨statements⟩, items, congrArg Document.mk (map_eq_of_forall₂ hstatements),
      reads_iff.2 ⟨_, hspells, hend⟩, hwritten⟩

/-! ### Both texts -/

namespace Document

/-- Ends of lines in front of a document change nothing. -/
theorem Written.below {document : Document} {items : List Item} (number : Nat)
    (hitems : document.Written items) : document.Written (newlines number ++ items) := by
  obtain ⟨before, body, after, hbody, rfl⟩ := hitems
  exact ⟨number + before, body, after, hbody, by simp [newlines_add]⟩

/-- The statements of two documents, the second on lines of its own. -/
theorem Written.append {document other : Document} {items others : List Item}
    (hitems : document.Written items) (hothers : other.Written others) :
    Written ⟨document.statements ++ other.statements⟩ (items ++ .mark .newline :: others) := by
  obtain ⟨before, body, after, hbody, rfl⟩ := hitems
  have hjoined : Written ⟨document.statements ++ other.statements⟩
      (body ++ (newlines (after + 1) ++ others)) := by
    rcases hbody with ⟨hnil, rfl⟩ | hbody
    · rw [hnil]
      exact hothers.below (after + 1)
    · generalize document.statements = statements at hbody ⊢
      induction hbody with
      | one hwritten =>
        rw [newlines_succ]
        exact Written.cons hwritten (hothers.below after)
      | more hwritten hgap _ ih =>
        obtain ⟨count, rfl⟩ := hgap
        simp only [List.append_assoc]
        rw [newlines_succ]
        exact Written.cons hwritten (ih.below count)
  have hplaced := hjoined.below before
  rw [newlines_add after 1] at hplaced
  simpa [newlines] using hplaced

/-- A text after another one, with the end of a line in between, has the statements of both. -/
theorem parse_successive {source text : String} {document other : Document}
    (hsource : parse source = .ok document) (htext : parse text = .ok other) :
    ∃ moved : Document, moved.withoutSpans = other.withoutSpans ∧
      parse (source ++ "\n" ++ text) = .ok ⟨document.statements ++ moved.statements⟩ := by
  obtain ⟨items, hreads, hwritten⟩ := parse_eq_ok_iff.1 hsource
  obtain ⟨moved, others, hsame, hothers, hmoved⟩ := exists_reads source.toList htext
  have hnewline : Reads (0 + width source.toList) ('\n' :: text.toList)
      (.mark .newline :: others) := by
    refine @Reads.token _ (.mark .newline) text.toList _ trivial (Token.stops_continues_mark _ _) ?_
    simpa [Token.text, Mark.toChar] using hothers
  have hboth := hreads.append hnewline
  refine ⟨moved, hsame, parse_eq_ok_iff.2 ⟨_, ?_, hwritten.append hmoved⟩⟩
  simpa [String.toList_append] using hboth

end Document

end SchemaCompiler
