import SchemaCompiler.Proofs.Tokenization

/-!
# Tokens written with blanks between them

`Token.joined` writes a list of tokens with one blank between two neighbours. Tokenizing this text
gives the tokens back, exactly if all of them can be written at all (`exists_tokenize_joined_iff`).
The tokens of any text can be written, so a text may be replaced by the texts of its tokens: none is
lost, split or joined with its neighbour (`tokenize_joined`).

A blank continues no token, so every token ends where the blank after it begins.
-/

set_option autoImplicit false
set_option relaxedAutoImplicit false

namespace SchemaCompiler

namespace Token

/-- The texts of tokens with a blank between two neighbours. -/
def joined (tokens : List Token) : String := String.intercalate " " (tokens.map text)

theorem stops_continues_blank (token : Token) (rest : List Char) :
    Text.Stops token.continues (' ' :: rest) := by
  rw [Text.stops_cons]
  cases token <;> rfl

end Token

namespace Lexed

/-- The tokens that are read from a text can be written. -/
theorem valid {offset : Nat} {text : List Char} {lexemes : List Lexeme}
    (hlexed : Lexed offset text lexemes) : ∀ token ∈ lexemes.map Lexeme.token, token.Valid := by
  simp only [List.forall_mem_map]
  intro lexeme hlexeme
  obtain ⟨_, _, -, -, hvalid, -⟩ := hlexed.exists_split hlexeme
  exact hvalid

/-- Tokens that can be written are read where they stand with blanks between them. -/
theorem exists_joined {tokens : List Token} (hvalid : ∀ token ∈ tokens, token.Valid)
    (offset : Nat) :
    ∃ lexemes, Lexed offset ([' '].intercalate (tokens.map fun token ↦ token.text.toList)) lexemes ∧
      lexemes.map Lexeme.token = tokens := by
  induction tokens generalizing offset with
  | nil => exact ⟨[], .done offset, rfl⟩
  | cons token others ih =>
    obtain ⟨htoken, hothers⟩ := List.forall_mem_cons.mp hvalid
    cases others with
    | nil =>
      have hlexed := @Lexed.token offset token [] [] htoken Text.stops_nil (.done _)
      exact ⟨_, by simpa using hlexed, rfl⟩
    | cons next others =>
      obtain ⟨lexemes, hrest, htokens⟩ :=
        ih hothers (offset + Text.width token.text.toList + ' '.utf8Size)
      have hgap := @Lexed.gap _ [' '] _ _ (.blank (by decide)) (by simpa using hrest)
      have hlexed := Lexed.token htoken (token.stops_continues_blank _) hgap
      refine ⟨⟨token, ⟨offset, offset + Text.width token.text.toList⟩⟩ :: lexemes, ?_,
        congrArg (token :: ·) htokens⟩
      simpa [List.intercalate_cons_cons] using hlexed

end Lexed

/-- A list of tokens is read back from their joined texts exactly if all of them can be written. -/
theorem exists_tokenize_joined_iff {tokens : List Token} :
    (∃ lexemes, tokenize (Token.joined tokens) = .ok lexemes ∧
      lexemes.map Lexeme.token = tokens) ↔ ∀ token ∈ tokens, token.Valid := by
  simp only [tokenize_eq_ok_iff]
  constructor
  · rintro ⟨lexemes, hlexed, rfl⟩
    exact hlexed.valid
  · intro hvalid
    simpa [Token.joined, String.toList_intercalate, Function.comp_def] using
      Lexed.exists_joined hvalid 0

/-- Tokens that can be written are read back from their joined texts. The tokens of a text are such
tokens. -/
theorem tokenize_joined :
    (∀ tokens : List Token, (∀ token ∈ tokens, token.Valid) →
      ∃ lexemes, tokenize (Token.joined tokens) = .ok lexemes ∧
        lexemes.map Lexeme.token = tokens) ∧
    ∀ source lexemes, tokenize source = .ok lexemes →
      ∃ again, tokenize (Token.joined (lexemes.map Lexeme.token)) = .ok again ∧
        again.map Lexeme.token = lexemes.map Lexeme.token := by
  refine ⟨fun tokens ↦ exists_tokenize_joined_iff.mpr, fun source lexemes htokenize ↦ ?_⟩
  exact exists_tokenize_joined_iff.mpr (tokenize_eq_ok_iff.mp htokenize).valid

/-- Tokens that their neighbours would continue if there were no blanks. -/
def crowded : List Token :=
  [.symbol "a_", .symbol "b", .number "07", .number "7", .mark .newline, .mark .less, .mark .less]

theorem tokenize_joined_crowded :
    Token.joined crowded = "a_ b 07 7 \n < <" ∧
    (∃ lexemes, tokenize (Token.joined crowded) = .ok lexemes ∧
      lexemes.map Lexeme.token = crowded) ∧
    ∃ lexemes, tokenize "a_7<<" = .ok lexemes ∧
      ∃ again, tokenize (Token.joined (lexemes.map Lexeme.token)) = .ok again ∧
        again.map Lexeme.token = lexemes.map Lexeme.token := by
  have hvalid : ∀ token ∈ crowded, token.Valid := by
    simp only [crowded, List.forall_mem_cons, Token.Valid, IsNumeral]
    exact ⟨⟨'a', ['_'], rfl, rfl, List.all_eq_true.mp rfl⟩,
      ⟨'b', [], rfl, rfl, List.forall_mem_nil _⟩,
      ⟨by decide, List.all_eq_true.mp rfl⟩, ⟨by decide, List.all_eq_true.mp rfl⟩,
      trivial, trivial, trivial, List.forall_mem_nil _⟩
  refine ⟨by decide +kernel, tokenize_joined.1 crowded hvalid, ?_⟩
  have htokenize : (tokenize "a_7<<").isOk = true := by decide +kernel
  cases hlexemes : tokenize "a_7<<" with
  | error fault => simp [hlexemes, Except.isOk, Except.toBool] at htokenize
  | ok lexemes => exact ⟨lexemes, rfl, tokenize_joined.2 _ _ hlexemes⟩

end SchemaCompiler
