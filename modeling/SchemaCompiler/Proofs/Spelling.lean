import Mathlib.Data.List.TakeWhile
import SchemaCompiler.Document
import SchemaCompiler.Token.Lexer

/-!
# How a text spells its items

A document is read as a list of items: tokens, and the `=` of a field together with the raw text
that follows it. `Reads` says, character by character, when a text from a given offset on is read
as a list of items. Blanks and comments are dropped, symbols and numbers are as long as possible,
and raw text goes up to the end of its line, a comment or the end of the text. The rules leave one
choice open: an `=` may stand for itself or begin a default. Only the grammar of documents decides
it, so a text is not divided into items before it is parsed.

`Cursor.Spells` says the same of a place in a text, in terms of the tokens that are scanned there.
A parser moves through such places, and `reads_iff` leads from them back to the characters.
-/

set_option autoImplicit false
set_option relaxedAutoImplicit false

namespace SchemaCompiler

/-! ### Runs of characters -/

namespace Text

/-- Whether a character belongs to raw text, which a newline or a comment ends. -/
def isRaw (character : Char) : Bool := character != '\n' && character != '#'

/-- A text that does not begin with a character of a class. -/
def Stops (continues : Char → Bool) (text : List Char) : Prop :=
  ∀ character ∈ text.head?, continues character = false

/-- What ends raw text is not blank within a line. -/
theorem isLineBlank_eq_false_of_isRaw {character : Char} (hraw : isRaw character = false) :
    isLineBlank character = false := by
  by_cases hnewline : character = '\n'
  · simp [hnewline, isLineBlank]
  · obtain rfl : character = '#' := by simpa [isRaw, hnewline] using hraw
    decide

variable {continues : Char → Bool} {run rest : List Char}

@[simp] theorem stops_nil : Stops continues [] := by simp [Stops]

@[simp] theorem stops_cons {character : Char} :
    Stops continues (character :: rest) ↔ continues character = false := by
  simp [Stops]

theorem stops_dropWhile (continues : Char → Bool) (text : List Char) :
    Stops continues (text.dropWhile continues) := by
  induction text with
  | nil => simp
  | cons character rest ih =>
    by_cases hcontinues : continues character <;> simp [hcontinues, ih]

theorem Stops.takeWhile_append (hrest : Stops continues rest)
    (hrun : ∀ character ∈ run, continues character = true) :
    (run ++ rest).takeWhile continues = run := by
  rw [List.takeWhile_append_of_pos hrun]
  cases rest with
  | nil => simp
  | cons character rest => simp [stops_cons.1 hrest]

theorem Stops.dropWhile_append (hrest : Stops continues rest)
    (hrun : ∀ character ∈ run, continues character = true) :
    (run ++ rest).dropWhile continues = rest := by
  rw [List.dropWhile_append_of_pos hrun]
  cases rest with
  | nil => simp
  | cons character rest => simp [stops_cons.1 hrest]

theorem forall_mem_takeWhile (continues : Char → Bool) (text : List Char) :
    ∀ character ∈ text.takeWhile continues, continues character = true :=
  fun _ hmem ↦ List.mem_takeWhile_imp hmem

@[simp] theorem width_nil : width [] = 0 := rfl

@[simp] theorem width_cons (character : Char) (rest : List Char) :
    width (character :: rest) = character.utf8Size + width rest := rfl

@[simp] theorem width_append (first second : List Char) :
    width (first ++ second) = width first + width second := by
  induction first with
  | nil => simp
  | cons character first ih => simp [ih, Nat.add_assoc]

/-! ### Letters, digits and marks are visible -/

/-- The visible characters of the basic range are not blank. -/
theorem isBlank_eq_false_of_toNat {character : Char} (hlow : 0x21 ≤ character.toNat)
    (hhigh : character.toNat ≤ 0x7E) : isBlank character = false := by
  simp only [isBlank, inRanges, blankRanges, List.any_cons, List.any_nil, Bool.or_false,
    Bool.or_eq_false_iff, Bool.and_eq_false_iff, decide_eq_false_iff_not]
  omega

theorem toNat_of_isAlpha {character : Char} (halpha : character.isAlpha = true) :
    (65 ≤ character.toNat ∧ character.toNat ≤ 90) ∨
      (97 ≤ character.toNat ∧ character.toNat ≤ 122) := by
  rcases (Bool.or_eq_true _ _).mp halpha with hupper | hlower
  · exact .inl (of_decide_eq_true hupper)
  · obtain ⟨hlow, hhigh⟩ := (Bool.and_eq_true _ _).mp hlower
    exact .inr ⟨of_decide_eq_true hlow, of_decide_eq_true hhigh⟩

theorem toNat_of_isDigit {character : Char} (hdigit : character.isDigit = true) :
    48 ≤ character.toNat ∧ character.toNat ≤ 57 := by
  simpa [Char.isDigit, UInt32.le_iff_toNat_le] using hdigit

/-- A character at which no gap goes on: neither a blank within a line nor the beginning of a
comment. -/
def IsSolid (character : Char) : Prop := isLineBlank character = false ∧ character ≠ '#'

theorem isSolid_of_toNat {character : Char} (hlow : 0x24 ≤ character.toNat)
    (hhigh : character.toNat ≤ 0x7E) : IsSolid character := by
  constructor
  · simp [isLineBlank, isBlank_eq_false_of_toNat (by omega) hhigh]
  · rintro rfl
    simp at hlow

theorem isSolid_of_isAlpha {character : Char} (halpha : character.isAlpha = true) :
    IsSolid character := by
  have hcode := toNat_of_isAlpha halpha
  exact isSolid_of_toNat (by omega) (by omega)

theorem isSolid_of_isDigit {character : Char} (hdigit : character.isDigit = true) :
    IsSolid character := by
  have hcode := toNat_of_isDigit hdigit
  exact isSolid_of_toNat (by omega) (by omega)

theorem isAlpha_eq_false_of_isDigit {character : Char} (hdigit : character.isDigit = true) :
    character.isAlpha = false := by
  by_contra halpha
  have hletter := toNat_of_isAlpha (by simpa using halpha)
  have hcode := toNat_of_isDigit hdigit
  omega

theorem isSolid_toChar (mark : Mark) : IsSolid mark.toChar := by
  cases mark <;> exact ⟨by decide, by decide⟩

theorem isAlpha_toChar (mark : Mark) : mark.toChar.isAlpha = false := by
  cases mark <;> decide

theorem isDigit_toChar (mark : Mark) : mark.toChar.isDigit = false := by
  cases mark <;> decide

/-- What is dropped before the rest of a text: a blank within a line, or a comment, which goes up to
the end of its line. -/
inductive IsGap : (piece rest : List Char) → Prop
  | blank {character : Char} {rest : List Char} (hblank : isLineBlank character = true) :
      IsGap [character] rest
  | comment {body rest : List Char} (hbody : ∀ character ∈ body, character ≠ '\n')
      (hstops : Stops (· != '\n') rest) : IsGap ('#' :: body) rest

end Text

/-! ### Gaps -/

namespace Cursor

open Text

theorem skip_append {skips : Char → Bool} {run rest : List Char} (offset : Nat)
    (hrun : ∀ character ∈ run, skips character = true) (hrest : Stops skips rest) :
    (⟨run ++ rest, offset⟩ : Cursor).skip skips = ⟨rest, offset + width run⟩ := by
  simp [skip, hrest.takeWhile_append hrun, hrest.dropWhile_append hrun]

theorem skip_of_stops {skips : Char → Bool} {cursor : Cursor} (hstops : Stops skips cursor.rest) :
    cursor.skip skips = cursor := by
  simpa using @skip_append skips [] cursor.rest cursor.offset (by simp) hstops

theorem length_skip_le (cursor : Cursor) (skips : Char → Bool) :
    (cursor.skip skips).rest.length ≤ cursor.rest.length :=
  List.length_dropWhile_le _ _

/-- A place at which no gap goes on. -/
def Settled (cursor : Cursor) : Prop :=
  ∀ character ∈ cursor.rest.head?, IsSolid character

theorem settled_nil (offset : Nat) : Settled ⟨[], offset⟩ := by
  simp [Settled]

theorem settled_cons {character : Char} {rest : List Char} {offset : Nat} :
    Settled ⟨character :: rest, offset⟩ ↔ IsSolid character := by
  simp [Settled]

theorem Settled.skipGap_eq {cursor : Cursor} (hsettled : cursor.Settled) :
    cursor.skipGap = cursor := by
  have hskip : cursor.skip isLineBlank = cursor :=
    skip_of_stops fun character hhead ↦ (hsettled character hhead).1
  unfold skipGap
  simp only [hskip]
  split
  · next heq => exact absurd rfl (hsettled '#' (by simp [heq])).2
  · rfl

theorem settled_skipGap (cursor : Cursor) : cursor.skipGap.Settled := by
  unfold skipGap
  simp only
  split
  · -- a comment is skipped up to the end of its line
    intro character hhead
    have hnewline := stops_dropWhile (· != '\n') (cursor.skip isLineBlank).rest character hhead
    simp only [bne_eq_false_iff_eq] at hnewline
    subst hnewline
    exact isSolid_toChar .newline
  · next hcomment =>
    intro character hhead
    refine ⟨stops_dropWhile isLineBlank cursor.rest character hhead, ?_⟩
    rintro rfl
    obtain ⟨rest, hrest⟩ := List.head?_eq_some_iff.1 hhead
    exact hcomment rest hrest

@[simp] theorem skipGap_skipGap (cursor : Cursor) : cursor.skipGap.skipGap = cursor.skipGap :=
  (settled_skipGap cursor).skipGap_eq

theorem length_skipGap_le (cursor : Cursor) :
    cursor.skipGap.rest.length ≤ cursor.rest.length := by
  unfold skipGap
  simp only
  split
  · exact (length_skip_le _ _).trans (length_skip_le _ _)
  · exact length_skip_le _ _

theorem skipGap_blank {character : Char} (hblank : isLineBlank character = true)
    (rest : List Char) (offset : Nat) :
    (⟨character :: rest, offset⟩ : Cursor).skipGap
      = (⟨rest, offset + character.utf8Size⟩ : Cursor).skipGap := by
  simp [skipGap, skip, hblank, Nat.add_assoc]

theorem skipGap_comment {body rest : List Char} (offset : Nat)
    (hbody : ∀ character ∈ body, character ≠ '\n') (hrest : Stops (· != '\n') rest) :
    (⟨'#' :: (body ++ rest), offset⟩ : Cursor).skipGap
      = ⟨rest, offset + width ('#' :: body)⟩ := by
  have hstart : (⟨'#' :: (body ++ rest), offset⟩ : Cursor).skip isLineBlank
      = ⟨'#' :: (body ++ rest), offset⟩ :=
    skip_of_stops (by simp; decide)
  unfold skipGap
  simp only [hstart]
  have hrun : ∀ character ∈ '#' :: body, (character != '\n') = true := by
    simpa using hbody
  exact skip_append offset hrun hrest

theorem skipGap_of_isGap {piece rest : List Char} (hgap : IsGap piece rest) (offset : Nat) :
    (⟨piece ++ rest, offset⟩ : Cursor).skipGap
      = (⟨rest, offset + width piece⟩ : Cursor).skipGap := by
  cases hgap with
  | blank hblank => exact skipGap_blank hblank rest offset
  | @comment body _ hbody hstops =>
    have hskip := skipGap_comment offset hbody hstops
    have hsettled := settled_skipGap ⟨'#' :: (body ++ rest), offset⟩
    rw [hskip] at hsettled
    rw [hsettled.skipGap_eq]
    exact hskip

/-- What gaps before a text do not change holds before the gap at a place if it holds after it. -/
theorem of_skipGap {holds : Nat → List Char → Prop}
    (hgap : ∀ {offset piece rest}, IsGap piece rest → holds (offset + width piece) rest →
      holds offset (piece ++ rest))
    {cursor : Cursor} (hholds : holds cursor.skipGap.offset cursor.skipGap.rest) :
    holds cursor.offset cursor.rest := by
  have hblanks : ∀ {run rest : List Char} {offset : Nat},
      (∀ character ∈ run, isLineBlank character = true) → holds (offset + width run) rest →
        holds offset (run ++ rest) := by
    intro run
    induction run with
    | nil => exact fun _ hrest ↦ hrest
    | cons character run ih =>
      intro rest offset hrun hrest
      rw [List.forall_mem_cons] at hrun
      refine @hgap offset [character] (run ++ rest) (.blank hrun.1) (ih hrun.2 ?_)
      simpa [Nat.add_assoc] using hrest
  have hskip : holds (cursor.skip isLineBlank).offset (cursor.skip isLineBlank).rest := by
    unfold skipGap at hholds
    generalize cursor.skip isLineBlank = start at hholds ⊢
    simp only at hholds
    split at hholds
    · next body hbody =>
      rw [hbody, ← @List.takeWhile_append_dropWhile _ (· != '\n') body]
      refine hgap (.comment (by simpa using forall_mem_takeWhile (· != '\n') body)
        (stops_dropWhile _ _)) ?_
      simpa [skip, hbody] using hholds
    · exact hholds
  simpa [skip] using hblanks (forall_mem_takeWhile isLineBlank cursor.rest) hskip

/-! ### What is scanned at a place -/

@[simp] theorem scan_skipGap (cursor : Cursor) : cursor.skipGap.scan = cursor.scan := by
  simp [scan]

theorem skipGap_of_scan_stray {cursor start : Cursor} {character : Char}
    (hscan : cursor.scan = .stray start character) :
    start = cursor.skipGap ∧ start.rest ≠ [] := by
  unfold scan at hscan
  grind

theorem skipGap_of_scan_finish {cursor stop : Cursor} (hscan : cursor.scan = .finish stop) :
    stop = cursor.skipGap ∧ stop.rest = [] := by
  unfold scan at hscan
  grind

end Cursor

/-- A letter, and then letters and underscores. -/
def IsSymbol (name : List Char) : Prop :=
  ∃ letter body, name = letter :: body ∧ letter.isAlpha = true ∧
    ∀ character ∈ body, isSymbolChar character = true

/-- One digit or more. -/
def IsNumeral (digits : List Char) : Prop :=
  digits ≠ [] ∧ ∀ character ∈ digits, character.isDigit = true

namespace Token

/-- A token that can be written. -/
def Valid : Token → Prop
  | symbol name => IsSymbol name.toList
  | number digits => IsNumeral digits.toList
  | mark _ => True

/-- Whether a character right after a token would belong to it. -/
def continues : Token → Char → Bool
  | symbol _ => isSymbolChar
  | number _ => Char.isDigit
  | mark _ => fun _ ↦ false

@[simp] theorem stops_continues_mark (mark : Mark) (rest : List Char) :
    Text.Stops (Token.mark mark).continues rest := by
  simp [Text.Stops, continues]

end Token

theorem IsSymbol.forall_isSymbolChar {name : List Char} (hname : IsSymbol name) :
    ∀ character ∈ name, isSymbolChar character = true := by
  obtain ⟨letter, body, rfl, hletter, hbody⟩ := hname
  simpa [isSymbolChar, hletter] using hbody

namespace Cursor

open Text

/-- A run of characters that begins a token is read up to where it stops. -/
theorem run_append {run rest : List Char} {continues : Char → Bool} (token : String → Token)
    (offset : Nat) (hrun : ∀ character ∈ run, continues character = true)
    (hrest : Stops continues rest) :
    (⟨run ++ rest, offset⟩ : Cursor).run continues token
      = ⟨⟨run ++ rest, offset⟩, token (String.ofList run), ⟨rest, offset + width run⟩⟩ := by
  simp only [Cursor.run, skip_append offset hrun hrest, hrest.takeWhile_append hrun]

/-- A token that is as long as possible is read where it stands. -/
theorem scan_append {token : Token} {rest : List Char} (offset : Nat) (hvalid : token.Valid)
    (hrest : Stops token.continues rest) :
    (⟨token.text.toList ++ rest, offset⟩ : Cursor).scan
      = .token ⟨⟨token.text.toList ++ rest, offset⟩, token,
          ⟨rest, offset + width token.text.toList⟩⟩ := by
  cases token with
  | symbol name =>
    have hrun := run_append .symbol offset hvalid.forall_isSymbolChar hrest
    obtain ⟨letter, body, hname, hletter, -⟩ := hvalid
    have hsettled : Settled ⟨letter :: (body ++ rest), offset⟩ :=
      settled_cons.2 (isSolid_of_isAlpha hletter)
    simp only [Token.text, scan, hname, List.cons_append] at hrun ⊢
    simp [hsettled.skipGap_eq, hletter, hrun, ← hname]
  | number digits =>
    have hrun := run_append .number offset hvalid.2 hrest
    obtain ⟨digit, body, hdigits⟩ := List.exists_cons_of_ne_nil hvalid.1
    have hdigit : digit.isDigit = true := hvalid.2 digit (by simp [hdigits])
    have hsettled : Settled ⟨digit :: (body ++ rest), offset⟩ :=
      settled_cons.2 (isSolid_of_isDigit hdigit)
    simp only [Token.text, scan, hdigits, List.cons_append] at hrun ⊢
    simp [hsettled.skipGap_eq, isAlpha_eq_false_of_isDigit hdigit, hdigit, hrun, ← hdigits]
  | mark sign =>
    have hsettled : Settled ⟨sign.toChar :: rest, offset⟩ := settled_cons.2 (isSolid_toChar sign)
    simp [Token.text, scan, hsettled.skipGap_eq, isAlpha_toChar, isDigit_toChar,
      Mark.ofChar?_toChar]

end Cursor

/-- A reading of a token that can be written, up to where it stops. -/
structure Reading.Exact (reading : Reading) : Prop where
  valid : reading.token.Valid
  stops : Text.Stops reading.token.continues reading.stop.rest
  rest_eq : reading.start.rest = reading.token.text.toList ++ reading.stop.rest
  offset_eq : reading.stop.offset = reading.start.offset + Text.width reading.token.text.toList

namespace Cursor

open Text

theorem run_exact {start : Cursor} {continues : Char → Bool} {token : String → Token}
    (htext : ∀ run, (token run).text = run) (hcontinues : ∀ run, (token run).continues = continues)
    (hvalid : (token (String.ofList (start.rest.takeWhile continues))).Valid) :
    (start.run continues token).Exact where
  valid := hvalid
  stops := by
    simpa [Cursor.run, hcontinues, skip] using stops_dropWhile continues start.rest
  rest_eq := by
    simp [Cursor.run, htext, skip]
  offset_eq := by
    simp [Cursor.run, htext, skip]

/-- What a scan reads begins after the gap and is exact. -/
theorem exact_of_scan {cursor : Cursor} {reading : Reading} (hscan : cursor.scan = .token reading) :
    reading.start = cursor.skipGap ∧ reading.Exact := by
  unfold scan at hscan
  simp only at hscan
  split at hscan
  · simp at hscan
  · next character rest hrest =>
    split_ifs at hscan with halpha hdigit
    · simp only [Scan.token.injEq] at hscan
      subst hscan
      have hhead : isSymbolChar character = true := by simp [isSymbolChar, halpha]
      refine ⟨rfl, run_exact (fun _ ↦ rfl) (fun _ ↦ rfl) ?_⟩
      refine ⟨character, rest.takeWhile isSymbolChar, ?_, halpha, forall_mem_takeWhile _ _⟩
      simp [hrest, hhead]
    · simp only [Scan.token.injEq] at hscan
      subst hscan
      refine ⟨rfl, run_exact (fun _ ↦ rfl) (fun _ ↦ rfl) ⟨?_, ?_⟩⟩
      · simp [hrest, hdigit]
      · simpa using forall_mem_takeWhile _ _
    · split at hscan
      · next mark hmark =>
        simp only [Scan.token.injEq] at hscan
        subst hscan
        have htext := Mark.toChar_of_ofChar?_eq_some hmark
        exact ⟨rfl, trivial, Token.stops_continues_mark _ _, by simp [Token.text, htext, hrest],
          by simp [Token.text, htext]⟩
      · simp at hscan

theorem length_pos_of_valid {token : Token} (hvalid : token.Valid) :
    0 < token.text.toList.length := by
  cases token with
  | symbol name =>
    obtain ⟨letter, body, hname, -⟩ := hvalid
    simp [Token.text, hname]
  | number digits => exact List.length_pos_iff.2 hvalid.1
  | mark sign => simp [Token.text]

/-! ### Tokens ahead of a place -/

/-- The token that is scanned at a place. -/
def token? (cursor : Cursor) : Option Token :=
  match cursor.scan with
  | .token reading => some reading.token
  | _ => none

/-- The place after the token that is scanned at a place, and after the gap that follows it. -/
def after (cursor : Cursor) : Cursor :=
  match cursor.scan with
  | .token reading => reading.stop.skipGap
  | _ => cursor.skipGap

/-- The token that follows the next `count` tokens. -/
def tokenAt? : Nat → Cursor → Option Token
  | 0, cursor => cursor.token?
  | count + 1, cursor => if cursor.token?.isSome then cursor.after.tokenAt? count else none

theorem token?_of_scan {cursor : Cursor} {reading : Reading}
    (hscan : cursor.scan = .token reading) : cursor.token? = some reading.token := by
  simp [token?, hscan]

theorem after_of_scan {cursor : Cursor} {reading : Reading}
    (hscan : cursor.scan = .token reading) : cursor.after = reading.stop.skipGap := by
  simp [after, hscan]

theorem exists_scan_of_token? {cursor : Cursor} {token : Token}
    (htoken : cursor.token? = some token) :
    ∃ reading, cursor.scan = .token reading ∧ reading.token = token := by
  unfold token? at htoken
  split at htoken
  · next reading hscan => exact ⟨reading, hscan, Option.some.inj htoken⟩
  · simp at htoken

@[simp] theorem token?_skipGap (cursor : Cursor) : cursor.skipGap.token? = cursor.token? := by
  simp [token?]

@[simp] theorem after_skipGap (cursor : Cursor) : cursor.skipGap.after = cursor.after := by
  simp [after]

theorem settled_after (cursor : Cursor) : cursor.after.Settled := by
  unfold after
  split
  · exact settled_skipGap _
  · exact settled_skipGap _

theorem length_stop_lt {cursor : Cursor} {reading : Reading}
    (hscan : cursor.scan = .token reading) :
    reading.stop.rest.length < cursor.rest.length := by
  obtain ⟨hstart, hexact⟩ := exact_of_scan hscan
  have hlength := congrArg List.length (hstart ▸ hexact.rest_eq)
  rw [List.length_append] at hlength
  have hpos := length_pos_of_valid hexact.valid
  have hgap := length_skipGap_le cursor
  omega

theorem length_after_lt {cursor : Cursor} {token : Token} (htoken : cursor.token? = some token) :
    cursor.after.rest.length < cursor.rest.length := by
  obtain ⟨reading, hscan, -⟩ := exists_scan_of_token? htoken
  rw [after_of_scan hscan]
  exact (length_skipGap_le reading.stop).trans_lt (length_stop_lt hscan)

theorem token?_of_rest_eq_nil {cursor : Cursor} (hrest : cursor.rest = []) :
    cursor.token? = none := by
  by_contra hsome
  obtain ⟨token, htoken⟩ := Option.ne_none_iff_exists'.1 hsome
  have hafter := length_after_lt htoken
  simp [hrest] at hafter

/-! ### Raw text -/

/-- The raw text at a place. -/
def rawText (cursor : Cursor) : DefaultText :=
  let text := trimEnd (cursor.rest.takeWhile isRaw)
  ⟨String.ofList text, ⟨cursor.offset, cursor.offset + width text⟩⟩

/-- The place after the raw text at a place, and after the gap that follows it. -/
def afterRaw (cursor : Cursor) : Cursor := (cursor.skip isRaw).skipGap

theorem settled_afterRaw (cursor : Cursor) : cursor.afterRaw.Settled := settled_skipGap _

/-- After raw text, only the end of a line or of the text follows. -/
theorem stops_afterRaw (cursor : Cursor) : Stops (· != '\n') cursor.afterRaw.rest := by
  have hraw := stops_dropWhile isRaw cursor.rest
  have hstart : (cursor.skip isRaw).skip isLineBlank = cursor.skip isRaw :=
    skip_of_stops fun character hhead ↦ isLineBlank_eq_false_of_isRaw (hraw character hhead)
  unfold afterRaw skipGap
  simp only [hstart]
  split
  · exact stops_dropWhile _ _
  · next hcomment =>
    intro character hhead
    obtain ⟨rest, hrest⟩ := List.head?_eq_some_iff.1 hhead
    have hne : character ≠ '#' := fun heq ↦ hcomment rest (heq ▸ hrest)
    simpa [isRaw, hne] using hraw character hhead

theorem token?_afterRaw {cursor : Cursor} {token : Token}
    (htoken : cursor.afterRaw.token? = some token) : token = .mark .newline := by
  obtain ⟨reading, hscan, rfl⟩ := exists_scan_of_token? htoken
  obtain ⟨hstart, hexact⟩ := exact_of_scan hscan
  have hstops := stops_afterRaw cursor
  rw [← cursor.settled_afterRaw.skipGap_eq, ← hstart, hexact.rest_eq] at hstops
  have hvalid := hexact.valid
  cases htext : reading.token with
  | symbol name =>
    rw [htext] at hstops hvalid
    obtain ⟨letter, body, hname, hletter, -⟩ := hvalid
    obtain rfl : letter = '\n' := by simpa [Token.text, hname] using hstops
    simp at hletter
  | number digits =>
    rw [htext] at hstops hvalid
    obtain ⟨hne, hdigits⟩ := hvalid
    obtain ⟨digit, body, hcons⟩ := List.exists_cons_of_ne_nil hne
    obtain rfl : digit = '\n' := by simpa [Token.text, hcons] using hstops
    simp [hcons] at hdigits
  | mark sign =>
    have hsign : sign.toChar = '\n' := by simpa [htext, Token.text] using hstops
    cases sign <;> simp_all [Mark.toChar]

theorem rawText_of_stops {cursor : Cursor} (hstops : Stops isRaw cursor.rest) :
    cursor.rawText.text = "" := by
  have hrun : cursor.rest.takeWhile isRaw = [] := by
    simpa using @Stops.takeWhile_append isRaw [] cursor.rest hstops (by simp)
  simp [rawText, hrun, trimEnd]

/-- Where raw text stands in a line, only blanks come before it. -/
theorem skipGap_eq_skip {cursor : Cursor}
    (hraw : cursor.skipGap.rawText.text ≠ "" ∨ (cursor.skip isLineBlank).rawText.text ≠ "") :
    cursor.skipGap = cursor.skip isLineBlank := by
  unfold skipGap at hraw ⊢
  simp only at hraw ⊢
  split at hraw
  · next rest hrest =>
    -- at a comment, the raw text is empty before it as well as after it
    have hafter : Stops isRaw ((cursor.skip isLineBlank).skip (· != '\n')).rest := by
      intro character hhead
      have hnewline := stops_dropWhile (· != '\n') _ character hhead
      simp only [bne_eq_false_iff_eq] at hnewline
      simp [isRaw, hnewline]
    have hbefore : Stops isRaw (cursor.skip isLineBlank).rest := by
      simp [hrest, isRaw]
    simp [rawText_of_stops hafter, rawText_of_stops hbefore] at hraw
  · rfl

end Cursor

/-- The default that a line after `=` holds, from the offset of the line on. -/
def DefaultText.ofLine (offset : Nat) (line : List Char) : DefaultText :=
  let start := offset + Text.width (line.takeWhile Text.isBlank)
  ⟨String.ofList (Text.trim line), ⟨start, start + Text.width (Text.trim line)⟩⟩

namespace Cursor

open Text

variable {line rest : List Char}

theorem skip_lineBlank_append (offset : Nat) (hline : ∀ character ∈ line, isRaw character = true)
    (hrest : Stops isRaw rest) :
    (⟨line ++ rest, offset⟩ : Cursor).skip isLineBlank
      = ⟨line.dropWhile isBlank ++ rest, offset + width (line.takeWhile isBlank)⟩ := by
  have hblanks : ∀ character ∈ line.takeWhile isBlank, isLineBlank character = true := by
    intro character hmem
    have hraw := hline character (List.takeWhile_subset _ hmem)
    simp only [isRaw, Bool.and_eq_true] at hraw
    simp [isLineBlank, hraw.1, List.mem_takeWhile_imp hmem]
  have hstops : Stops isLineBlank (line.dropWhile isBlank ++ rest) := by
    intro character hhead
    rw [List.head?_append] at hhead
    cases hbody : (line.dropWhile isBlank).head? with
    | none =>
      exact isLineBlank_eq_false_of_isRaw (hrest character (by simpa [hbody] using hhead))
    | some first =>
      have hfirst : first = character := by simpa [hbody] using hhead
      have hvisible := stops_dropWhile isBlank line first hbody
      simp [isLineBlank, ← hfirst, hvisible]
  have happend := skip_append offset hblanks hstops
  rwa [← List.append_assoc, List.takeWhile_append_dropWhile] at happend

theorem rawText_append (offset : Nat) (hline : ∀ character ∈ line, isRaw character = true)
    (hrest : Stops isRaw rest) :
    ((⟨line ++ rest, offset⟩ : Cursor).skip isLineBlank).rawText
      = DefaultText.ofLine offset line := by
  have hbody : ∀ character ∈ line.dropWhile isBlank, isRaw character = true :=
    fun character hmem ↦ hline character (List.dropWhile_subset _ hmem)
  simp [skip_lineBlank_append offset hline hrest, rawText, hrest.takeWhile_append hbody,
    DefaultText.ofLine, trim]

theorem skip_raw_append (offset : Nat) (hline : ∀ character ∈ line, isRaw character = true)
    (hrest : Stops isRaw rest) :
    ((⟨line ++ rest, offset⟩ : Cursor).skip isLineBlank).skip isRaw
      = ⟨rest, offset + width line⟩ := by
  have hbody : ∀ character ∈ line.dropWhile isBlank, isRaw character = true :=
    fun character hmem ↦ hline character (List.dropWhile_subset _ hmem)
  rw [skip_lineBlank_append offset hline hrest, skip_append _ hbody hrest, Nat.add_assoc,
    ← width_append, List.takeWhile_append_dropWhile]

/-- After an `=` that is scanned, the line is the longest run of raw characters. -/
theorem exists_line_of_scan {cursor : Cursor} {reading : Reading}
    (hscan : cursor.scan = .token reading) (hequal : reading.token = .mark .equal)
    (hraw : reading.stop.skipGap.rawText.text ≠ "") :
    ∃ line rest, cursor.skipGap.rest = '=' :: (line ++ rest) ∧
      (∀ character ∈ line, isRaw character = true) ∧ Stops isRaw rest ∧ trim line ≠ [] ∧
      reading.stop.skipGap.rawText = .ofLine (cursor.skipGap.offset + '='.utf8Size) line ∧
      reading.stop.skipGap.skip isRaw
        = ⟨rest, cursor.skipGap.offset + width ('=' :: line)⟩ := by
  obtain ⟨hstart, hexact⟩ := exact_of_scan hscan
  have htext : reading.token.text.toList = ['='] := by
    simp [hequal, Token.text, Mark.toChar]
  have hoffset : reading.stop.offset = reading.start.offset + '='.utf8Size := by
    simp [hexact.offset_eq, htext]
  have hline := forall_mem_takeWhile isRaw reading.stop.rest
  have hstops := stops_dropWhile isRaw reading.stop.rest
  have hrawText := rawText_append reading.stop.offset hline hstops
  have hafterRaw := skip_raw_append reading.stop.offset hline hstops
  simp only [List.takeWhile_append_dropWhile] at hrawText hafterRaw
  have hgap := skipGap_eq_skip (Or.inl hraw)
  rw [hgap] at hraw ⊢
  rw [hrawText] at hraw ⊢
  refine ⟨_, _, ?_, hline, hstops, by simpa [DefaultText.ofLine] using hraw, ?_, ?_⟩
  · rw [← hstart, hexact.rest_eq, htext, List.takeWhile_append_dropWhile]
    rfl
  · rw [hoffset, hstart]
  · rw [hafterRaw, hoffset, hstart, width_cons, Nat.add_assoc]

end Cursor

/-! ### Items -/

/-- A part of a document: a token, or the `=` of a field together with the raw text after it. -/
inductive Item where
  | token (content : Token)
  | initial (text : DefaultText)
deriving Repr, DecidableEq

/-- The item of a mark. -/
abbrev Item.mark (mark : Mark) : Item := .token (.mark mark)

/-- The item of a symbol. -/
abbrev Item.symbol (name : String) : Item := .token (.symbol name)

/-- The token that begins an item. -/
def Item.first : Item → Token
  | .token content => content
  | .initial _ => .mark .equal

/-- A text from an offset on is read as a list of items. -/
inductive Reads : (offset : Nat) → (text : List Char) → List Item → Prop
  /-- The end of the text. -/
  | done (offset : Nat) : Reads offset [] []
  /-- Blanks within a line are dropped. -/
  | blank {offset : Nat} {character : Char} {rest : List Char} {items : List Item}
      (hblank : Text.isLineBlank character = true)
      (hrest : Reads (offset + character.utf8Size) rest items) :
      Reads offset (character :: rest) items
  /-- A comment goes up to the end of its line and is dropped. -/
  | comment {offset : Nat} {body rest : List Char} {items : List Item}
      (hbody : ∀ character ∈ body, character ≠ '\n') (hstops : Text.Stops (· != '\n') rest)
      (hrest : Reads (offset + Text.width ('#' :: body)) rest items) :
      Reads offset ('#' :: (body ++ rest)) items
  /-- A token is as long as possible. -/
  | token {offset : Nat} {token : Token} {rest : List Char} {items : List Item}
      (hvalid : token.Valid) (hstops : Text.Stops token.continues rest)
      (hrest : Reads (offset + Text.width token.text.toList) rest items) :
      Reads offset (token.text.toList ++ rest) (.token token :: items)
  /-- A default goes up to the end of its line, a comment or the end of the text, and is trimmed. -/
  | initial {offset : Nat} {line rest : List Char} {items : List Item}
      (hline : ∀ character ∈ line, Text.isRaw character = true)
      (hstops : Text.Stops Text.isRaw rest) (htext : Text.trim line ≠ [])
      (hrest : Reads (offset + Text.width ('=' :: line)) rest items) :
      Reads offset ('=' :: (line ++ rest))
        (.initial (.ofLine (offset + '='.utf8Size) line) :: items)

/-- From one place to another, a text is read as a list of items. -/
def Cursor.Spells : Cursor → List Item → Cursor → Prop
  | cursor, [], stop => stop = cursor
  | cursor, .token token :: items, stop =>
    cursor.token? = some token ∧ cursor.after.Spells items stop
  | cursor, .initial text :: items, stop =>
    cursor.token? = some (.mark .equal) ∧ (cursor.after.rawText = text ∧ text.text ≠ "") ∧
      cursor.after.afterRaw.Spells items stop

namespace Cursor

variable {cursor stop : Cursor} {items : List Item}

@[simp] theorem spells_nil : cursor.Spells [] stop ↔ stop = cursor := Iff.rfl

@[simp] theorem spells_token_cons {token : Token} :
    cursor.Spells (.token token :: items) stop ↔
      cursor.token? = some token ∧ cursor.after.Spells items stop :=
  Iff.rfl

@[simp] theorem spells_initial_cons {text : DefaultText} :
    cursor.Spells (.initial text :: items) stop ↔
      cursor.token? = some (.mark .equal) ∧ (cursor.after.rawText = text ∧ text.text ≠ "") ∧
        cursor.after.afterRaw.Spells items stop :=
  Iff.rfl

theorem spells_append {front back : List Item} :
    cursor.Spells (front ++ back) stop ↔
      ∃ middle, cursor.Spells front middle ∧ middle.Spells back stop := by
  induction front generalizing cursor with
  | nil => simp
  | cons item front ih =>
    cases item with
    | token token => simp [ih, and_assoc]
    | initial text => simp [ih, and_assoc]

theorem Spells.token? {item : Item} (hspells : cursor.Spells (item :: items) stop) :
    cursor.token? = some item.first := by
  cases item with
  | token token => exact hspells.1
  | initial text => exact hspells.1

theorem length_afterRaw_le (cursor : Cursor) :
    cursor.afterRaw.rest.length ≤ cursor.rest.length :=
  (length_skipGap_le _).trans (length_skip_le _ _)

theorem Spells.length_le (hspells : cursor.Spells items stop) :
    stop.rest.length ≤ cursor.rest.length := by
  induction items generalizing cursor with
  | nil => exact (congrArg (·.rest.length) (spells_nil.1 hspells)).le
  | cons item items ih =>
    have hafter := length_after_lt hspells.token?
    cases item with
    | token token => exact (ih hspells.2).trans hafter.le
    | initial text =>
      exact (ih hspells.2.2).trans ((length_afterRaw_le cursor.after).trans hafter.le)

/-- Every item takes characters. -/
theorem Spells.length_lt {item : Item} (hspells : cursor.Spells (item :: items) stop) :
    stop.rest.length < cursor.rest.length := by
  have hafter := length_after_lt hspells.token?
  cases item with
  | token token => exact hspells.2.length_le.trans_lt hafter
  | initial text =>
    exact (hspells.2.2.length_le.trans (length_afterRaw_le cursor.after)).trans_lt hafter

end Cursor

/-! ### Characters and places -/

/-- What the rules of reading keep, from the end of some items to their beginning, holds of a text
that spells the items. -/
theorem Cursor.Spells.induction {holds : Nat → List Char → List Item → Prop} {cursor stop : Cursor}
    {items : List Item} (hspells : cursor.skipGap.Spells items stop)
    (hstop : holds stop.offset stop.rest [])
    (hgap : ∀ {offset piece rest items}, Text.IsGap piece rest →
      holds (offset + Text.width piece) rest items → holds offset (piece ++ rest) items)
    (htoken : ∀ {offset token rest items}, token.Valid → Text.Stops token.continues rest →
      holds (offset + Text.width token.text.toList) rest items →
        holds offset (token.text.toList ++ rest) (.token token :: items))
    (hinitial : ∀ {offset line rest items}, (∀ character ∈ line, Text.isRaw character = true) →
      Text.Stops Text.isRaw rest → Text.trim line ≠ [] →
        holds (offset + Text.width ('=' :: line)) rest items →
          holds offset ('=' :: (line ++ rest))
            (.initial (.ofLine (offset + '='.utf8Size) line) :: items)) :
    holds cursor.offset cursor.rest items := by
  induction items generalizing cursor with
  | nil =>
    refine @of_skipGap (fun offset text ↦ holds offset text []) hgap cursor ?_
    rwa [← spells_nil.1 hspells]
  | cons item items ih =>
    refine @of_skipGap (fun offset text ↦ holds offset text (item :: items)) hgap cursor ?_
    obtain ⟨reading, hscan, hfirst⟩ := exists_scan_of_token? hspells.token?
    rw [scan_skipGap] at hscan
    have hafter := after_of_scan hscan
    cases item with
    | token content =>
      obtain ⟨-, htail⟩ := hspells
      rw [after_skipGap, hafter] at htail
      obtain rfl : reading.token = content := hfirst
      obtain ⟨hstart, hexact⟩ := exact_of_scan hscan
      rw [← hstart, hexact.rest_eq]
      exact htoken hexact.valid hexact.stops (hexact.offset_eq ▸ ih htail)
    | initial content =>
      obtain ⟨-, ⟨rfl, hraw⟩, htail⟩ := hspells
      rw [after_skipGap, hafter] at htail hraw ⊢
      obtain ⟨line, rest, hstart, hline, hstops, htext, hrawText, hafterRaw⟩ :=
        exists_line_of_scan hscan hfirst hraw
      have hrest := ih htail
      rw [hafterRaw] at hrest
      rw [hstart, hrawText]
      exact hinitial hline hstops htext hrest

namespace Reads

open Text

variable {offset : Nat} {text rest : List Char} {items : List Item} {stop : Cursor}

theorem exists_spells (hreads : Reads offset text items) :
    ∃ stop, (⟨text, offset⟩ : Cursor).skipGap.Spells items stop ∧ stop.rest = [] := by
  induction hreads with
  | done offset => exact ⟨⟨[], offset⟩, by simp [(Cursor.settled_nil offset).skipGap_eq]⟩
  | blank hblank _ ih => rwa [Cursor.skipGap_blank hblank]
  | comment hbody hstops _ ih =>
    rwa [← Cursor.skipGap_of_isGap (.comment hbody hstops)] at ih
  | @token offset token rest items hvalid hstops _ ih =>
    obtain ⟨stop, hspells, hstop⟩ := ih
    have hscan := Cursor.scan_append offset hvalid hstops
    refine ⟨stop, ⟨?_, ?_⟩, hstop⟩
    · simpa using Cursor.token?_of_scan hscan
    · simpa [Cursor.after_of_scan hscan] using hspells
  | @initial offset line rest items hline hstops htext _ ih =>
    obtain ⟨stop, hspells, hstop⟩ := ih
    have hscan := @Cursor.scan_append (.mark .equal) (line ++ rest) offset trivial (by simp)
    have hraw := Cursor.rawText_append (offset + '='.utf8Size) hline hstops
    have hne : (DefaultText.ofLine (offset + '='.utf8Size) line).text ≠ "" := by
      simpa [DefaultText.ofLine] using htext
    have hafter : (⟨'=' :: (line ++ rest), offset⟩ : Cursor).after
        = (⟨line ++ rest, offset + '='.utf8Size⟩ : Cursor).skip isLineBlank := by
      rw [← Cursor.skipGap_eq_skip (Or.inr (hraw ▸ hne))]
      simpa [Token.text, Mark.toChar] using Cursor.after_of_scan hscan
    refine ⟨stop, ⟨?_, ⟨?_, hne⟩, ?_⟩, hstop⟩
    · simpa [Token.text, Mark.toChar] using Cursor.token?_of_scan hscan
    · rw [Cursor.after_skipGap, hafter, hraw]
    · rw [Cursor.after_skipGap, hafter, Cursor.afterRaw,
        Cursor.skip_raw_append _ hline hstops]
      simpa [Nat.add_assoc] using hspells

theorem of_spells {cursor : Cursor} (hspells : cursor.skipGap.Spells items stop)
    (hstop : stop.rest = []) : Reads cursor.offset cursor.rest items := by
  refine hspells.induction (hstop ▸ .done stop.offset) (fun hgap hrest ↦ ?_) .token .initial
  cases hgap with
  | blank hblank => exact .blank hblank (by simpa using hrest)
  | comment hbody hstops => exact .comment hbody hstops hrest

end Reads

/-- A text is read as a list of items exactly if its beginning spells them up to the end. -/
theorem reads_iff {offset : Nat} {text : List Char} {items : List Item} :
    Reads offset text items ↔
      ∃ stop, (⟨text, offset⟩ : Cursor).skipGap.Spells items stop ∧ stop.rest = [] := by
  constructor
  · exact Reads.exists_spells
  · rintro ⟨stop, hspells, hstop⟩
    exact Reads.of_spells hspells hstop

end SchemaCompiler
