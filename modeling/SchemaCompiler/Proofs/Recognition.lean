import SchemaCompiler.Document.Parser
import SchemaCompiler.Proofs.Spelling

/-!
# What a parser recognizes

A reader that looks ahead may hold lexemes it has not handed out yet, so one place in a text
corresponds to several states of the reader. `Lexer.Faithful` says that what is held is what stands
in the text after `Lexer.place`; every operation of a reader keeps it, and moves the place as if
nothing had been read ahead.

`Parser.Recognizes` states what a parser does in terms of places alone. It holds of a parser and a
relation between a place, a value and a later place if the parser succeeds exactly where the
relation holds, with that value and up to that place. Both directions are carried through sequences,
choices and repetitions by one lemma each, so the relation of a parser is composed as the parser is.
-/

set_option autoImplicit false
set_option relaxedAutoImplicit false

namespace SchemaCompiler

/-! ### Places of a reader -/

namespace Cursor

/-- Whether a symbol stands at a place. -/
def beginsSymbol (cursor : Cursor) : Bool :=
  match cursor.token? with
  | some (.symbol _) => true
  | _ => false

theorem beginsSymbol_iff {cursor : Cursor} :
    cursor.beginsSymbol = true ↔ ∃ name, cursor.token? = some (.symbol name) := by
  unfold beginsSymbol
  split
  · next name hname => simp [hname]
  · next hother => simpa using hother

/-- From one place to another, a text is read as a list of tokens. -/
def Leads : Cursor → List Reading → Cursor → Prop
  | cursor, [], stop => stop.skipGap = cursor.skipGap
  | cursor, reading :: readings, stop =>
    cursor.scan = .token reading ∧ reading.stop.Leads readings stop

/-- A character that begins no token stands at a place. -/
def IsStray (cursor : Cursor) : Prop := ∃ start character, cursor.scan = .stray start character

/-- A stray character stands right at a place. -/
def Shows (cursor : Cursor) (stray : Stray) : Prop :=
  cursor.scan = .stray cursor stray.character ∧ cursor.offset = stray.offset

variable {cursor stop : Cursor} {readings : List Reading}

theorem after_of_token?_eq_none (hnone : cursor.token? = none) : cursor.after = cursor.skipGap := by
  cases hscan : cursor.scan with
  | token reading => simp [token?, hscan] at hnone
  | stray start character => simp [after, hscan]
  | finish stop => simp [after, hscan]

theorem IsStray.token?_eq_none (hstray : cursor.IsStray) : cursor.token? = none := by
  obtain ⟨start, character, hscan⟩ := hstray
  simp [token?, hscan]

theorem IsStray.rest_ne_nil (hstray : cursor.IsStray) : cursor.skipGap.rest ≠ [] := by
  obtain ⟨start, character, hscan⟩ := hstray
  obtain ⟨rfl, hrest⟩ := skipGap_of_scan_stray hscan
  exact hrest

/-- Where no token stands, a text ends or goes on with a stray character. -/
theorem rest_eq_nil_or_isStray (hnone : cursor.token? = none) :
    cursor.skipGap.rest = [] ∨ cursor.IsStray := by
  cases hscan : cursor.scan with
  | token reading => simp [token?, hscan] at hnone
  | stray start character => exact Or.inr ⟨start, character, hscan⟩
  | finish stop =>
    obtain ⟨rfl, hrest⟩ := skipGap_of_scan_finish hscan
    exact Or.inl hrest

theorem Shows.isStray {stray : Stray} (hshows : cursor.Shows stray) : cursor.IsStray :=
  ⟨cursor, stray.character, hshows.1⟩

theorem Shows.skipGap_eq {stray : Stray} (hshows : cursor.Shows stray) : cursor.skipGap = cursor :=
  (skipGap_of_scan_stray hshows.1).1.symm

theorem offset_le_skipGap (cursor : Cursor) : cursor.offset ≤ cursor.skipGap.offset := by
  unfold Cursor.skipGap
  simp only
  split
  · simp only [skip]
    omega
  · exact Nat.le_add_right _ _

theorem Leads.of_skipGap_eq {other : Cursor} (hleads : cursor.Leads readings stop)
    (hother : other.skipGap = cursor.skipGap) : other.Leads readings stop := by
  cases readings with
  | nil => exact hleads.trans hother.symm
  | cons reading readings =>
    refine ⟨?_, hleads.2⟩
    rw [← scan_skipGap, hother, scan_skipGap]
    exact hleads.1

theorem Leads.skipGap (hleads : cursor.Leads readings stop) :
    cursor.Leads readings stop.skipGap := by
  induction readings generalizing cursor with
  | nil => simpa [Leads] using hleads
  | cons reading readings ih => exact ⟨hleads.1, ih hleads.2⟩

/-- One more token is read at the end. -/
theorem Leads.concat {reading : Reading} (hleads : cursor.Leads readings stop)
    (hscan : stop.scan = .token reading) :
    cursor.Leads (readings ++ [reading]) reading.stop := by
  induction readings generalizing cursor with
  | nil =>
    refine ⟨?_, rfl⟩
    rw [← scan_skipGap, ← (hleads : stop.skipGap = cursor.skipGap), scan_skipGap, hscan]
  | cons first readings ih => exact ⟨hleads.1, ih hleads.2⟩

/-- What has been read stands between the two places. -/
theorem Leads.offset_le (hleads : cursor.Leads readings stop) :
    cursor.offset ≤ stop.skipGap.offset ∧
      ∀ reading ∈ readings, reading.stop.offset ≤ stop.skipGap.offset := by
  induction readings generalizing cursor with
  | nil =>
    rw [(hleads : stop.skipGap = cursor.skipGap)]
    exact ⟨offset_le_skipGap cursor, by simp⟩
  | cons reading readings ih =>
    obtain ⟨hstart, hexact⟩ := exact_of_scan hleads.1
    obtain ⟨hstop, hrest⟩ := ih hleads.2
    have hgap := offset_le_skipGap cursor
    rw [← hstart] at hgap
    have hoffset := hexact.offset_eq
    exact ⟨by omega, List.forall_mem_cons.2 ⟨hstop, hrest⟩⟩

/-- What has been read ahead are the tokens that follow a place, unless there are fewer. -/
theorem Leads.getElem? (hleads : cursor.Leads readings stop) {count : Nat}
    (hcount : count < readings.length ∨ stop.token? = none) :
    readings[count]?.map Reading.token = cursor.tokenAt? count := by
  induction readings generalizing cursor count with
  | nil =>
    have hnone : cursor.token? = none := by
      rw [← token?_skipGap, ← (hleads : stop.skipGap = cursor.skipGap), token?_skipGap]
      simpa using hcount
    cases count with
    | zero => simp [tokenAt?, hnone]
    | succ count => simp [tokenAt?, hnone]
  | cons reading readings ih =>
    have htoken := token?_of_scan hleads.1
    cases count with
    | zero => simp [tokenAt?, htoken]
    | succ count =>
      have hrest : readings[count]?.map Reading.token = reading.stop.tokenAt? count :=
        ih hleads.2 (by simpa using hcount)
      have hafter : cursor.after.tokenAt? count = reading.stop.tokenAt? count := by
        rw [after_of_scan hleads.1]
        cases count <;> simp [tokenAt?]
      simp [tokenAt?, htoken, hafter, hrest]

end Cursor

namespace Lexer

/-- The place at which a reader stands: after the gap before the next lexeme. -/
def place (lexer : Lexer) : Cursor := lexer.front.skipGap

/-- What a reader holds is what stands in the text. -/
structure Faithful (lexer : Lexer) : Prop where
  leads : lexer.place.Leads lexer.ahead lexer.cursor
  stray : ∀ stray ∈ lexer.stray, lexer.cursor.Shows stray

theorem faithful_ofSource (source : List Char) : (ofSource source).Faithful :=
  ⟨by simp [ofSource, place, front, Cursor.Leads], by simp [ofSource]⟩

variable {lexer : Lexer}

theorem Faithful.isStray (hlexer : lexer.Faithful) (hstray : lexer.stray.isSome = true) :
    lexer.cursor.IsStray := by
  obtain ⟨stray, hsome⟩ := Option.isSome_iff_exists.1 hstray
  exact (hlexer.stray stray hsome).isStray

/-- The place of a reader is where its lexemes lead from. -/
theorem place_eq {cursor : Cursor} (hleads : cursor.Leads lexer.ahead lexer.cursor) :
    lexer.place = cursor.skipGap := by
  unfold place front
  cases hahead : lexer.ahead with
  | nil =>
    rw [hahead] at hleads
    exact hleads
  | cons reading readings =>
    rw [hahead] at hleads
    have hstart := (Cursor.exact_of_scan hleads.1).1
    simp [hstart]

@[simp] theorem skipGap_place (lexer : Lexer) : lexer.place.skipGap = lexer.place := by
  simp [place]

/-- A reader that holds what follows a place stands there. -/
theorem faithful_of_leads {cursor : Cursor} (hleads : cursor.Leads lexer.ahead lexer.cursor)
    (hstray : ∀ stray ∈ lexer.stray, lexer.cursor.Shows stray) :
    lexer.Faithful ∧ lexer.place = cursor.skipGap :=
  have hplace := place_eq hleads
  ⟨⟨hleads.of_skipGap_eq (by simp [hplace]), hstray⟩, hplace⟩

/-! ### Reading ahead -/

theorem Faithful.extend (hlexer : lexer.Faithful) :
    lexer.extend.Faithful ∧ lexer.extend.place = lexer.place := by
  rw [← lexer.skipGap_place]
  unfold Lexer.extend
  split
  · exact ⟨hlexer, by simp⟩
  · next hnone =>
    split
    · next reading hscan => exact faithful_of_leads (hlexer.leads.concat hscan) (by simp [hnone])
    · next start character hscan =>
      obtain ⟨rfl, -⟩ := Cursor.skipGap_of_scan_stray hscan
      refine faithful_of_leads hlexer.leads.skipGap ?_
      rintro _ ⟨⟩
      exact ⟨by simpa using hscan, rfl⟩
    · next stop hscan =>
      obtain ⟨rfl, -⟩ := Cursor.skipGap_of_scan_finish hscan
      exact faithful_of_leads hlexer.leads.skipGap (by simp [hnone])

/-- A reader that is extended holds one lexeme more, or there is none to come. -/
theorem Faithful.length_extend (hlexer : lexer.Faithful) :
    (lexer.extend.ahead.length = lexer.ahead.length + 1 ∧ lexer.cursor.token? ≠ none) ∨
      lexer.extend.cursor.token? = none := by
  unfold Lexer.extend
  split
  · next stray hstray =>
    exact Or.inr (hlexer.isStray (by simp [hstray])).token?_eq_none
  · split
    · next reading hscan => simp [Cursor.token?_of_scan hscan]
    · next start character hscan =>
      obtain ⟨rfl, -⟩ := Cursor.skipGap_of_scan_stray hscan
      simp [Cursor.token?, hscan]
    · next stop hscan =>
      obtain ⟨rfl, -⟩ := Cursor.skipGap_of_scan_finish hscan
      simp [Cursor.token?, hscan]

theorem Faithful.fill (hlexer : lexer.Faithful) (count : Nat) :
    (lexer.fill count).Faithful ∧ (lexer.fill count).place = lexer.place := by
  induction count with
  | zero => exact ⟨hlexer, rfl⟩
  | succ count ih =>
    obtain ⟨hfilled, hplace⟩ := ih
    unfold Lexer.fill
    simp only
    split_ifs
    · exact ⟨hfilled.extend.1, hfilled.extend.2.trans hplace⟩
    · exact ⟨hfilled, hplace⟩

/-- A reader that is filled holds as many lexemes as asked for, or there is none to come. -/
theorem Faithful.length_fill (hlexer : lexer.Faithful) (count : Nat) :
    count ≤ (lexer.fill count).ahead.length ∨ (lexer.fill count).cursor.token? = none := by
  induction count with
  | zero => simp
  | succ count ih =>
    have hextend := (hlexer.fill count).1.length_extend
    unfold Lexer.fill
    simp only
    split_ifs with hlength
    · rcases hextend with ⟨hmore, hsome⟩ | hnone
      · have hle := ih.resolve_right hsome
        exact Or.inl (by omega)
      · exact Or.inr hnone
    · exact Or.inl (by omega)

theorem Faithful.getElem?_fill (hlexer : lexer.Faithful) {count total : Nat}
    (hcount : count < total) :
    (lexer.fill total).ahead[count]?.map Reading.token = lexer.place.tokenAt? count := by
  obtain ⟨hfilled, hplace⟩ := hlexer.fill total
  rw [← hplace]
  apply hfilled.leads.getElem?
  rcases hlexer.length_fill total with hlength | hnone
  · exact Or.inl (by omega)
  · exact Or.inr hnone

theorem Faithful.peek (hlexer : lexer.Faithful) (count : Nat) :
    (lexer.peek count).2.Faithful ∧ (lexer.peek count).2.place = lexer.place ∧
      (lexer.peek count).1.map Lexeme.token = lexer.place.tokenAt? count := by
  obtain ⟨hfilled, hplace⟩ := hlexer.fill (count + 1)
  refine ⟨hfilled, hplace, ?_⟩
  have htoken := hlexer.getElem?_fill (Nat.lt_add_one count)
  simpa [Lexer.peek, Function.comp_def, Reading.lexeme] using htoken

theorem Faithful.next (hlexer : lexer.Faithful) :
    lexer.next.2.Faithful ∧ lexer.next.2.place = lexer.place.after := by
  obtain ⟨hfilled, hplace⟩ := hlexer.fill 1
  have htoken := hlexer.getElem?_fill Nat.one_pos
  unfold Lexer.next
  simp only
  cases hahead : (lexer.fill 1).ahead with
  | nil =>
    have hnone : lexer.place.token? = none := by
      simpa [hahead, Cursor.tokenAt?] using htoken.symm
    rw [Cursor.after_of_token?_eq_none hnone, skipGap_place]
    exact ⟨hfilled, hplace⟩
  | cons reading readings =>
    have hleads := hfilled.leads
    rw [hahead, hplace] at hleads
    rw [Cursor.after_of_scan hleads.1]
    exact faithful_of_leads hleads.2 hfilled.stray

/-- A stray character that stops a reader is remembered. -/
theorem isSome_stray_extend (hahead : lexer.extend.ahead = [])
    (hstray : lexer.extend.cursor.IsStray) : lexer.extend.stray.isSome = true := by
  unfold Lexer.extend at hahead hstray ⊢
  split at hahead
  · next hsome => simp [hsome]
  · next hnone =>
    simp only [hnone] at hstray ⊢
    cases hscan : lexer.cursor.scan with
    | token reading => simp [hscan] at hahead
    | stray start character => rfl
    | finish stop =>
      obtain ⟨rfl, hrest⟩ := Cursor.skipGap_of_scan_finish hscan
      simp only [hscan] at hstray
      exact absurd (by simpa using hrest) hstray.rest_ne_nil

/-- After a look at the next token that found none, a reader that holds no stray character is at the
end of the text. -/
theorem Faithful.stray_peek (hlexer : lexer.Faithful) (hnone : (lexer.peek 0).1 = none) :
    (lexer.peek 0).2.stray = none ↔ lexer.place.rest = [] := by
  have hahead : (lexer.fill 1).ahead = [] := by
    simpa [Lexer.peek] using hnone
  obtain ⟨hfilled, hplace⟩ := hlexer.fill 1
  have hfront : (lexer.fill 1).cursor.skipGap = lexer.place := by
    rw [← hplace, Lexer.place, Lexer.front, hahead]
  change (lexer.fill 1).stray = none ↔ lexer.place.rest = []
  constructor
  · intro hstray
    have htoken := (hlexer.length_fill 1).resolve_left (by simp [hahead])
    rw [← hfront]
    refine (Cursor.rest_eq_nil_or_isStray htoken).resolve_right fun hcursor ↦ ?_
    have hextend : lexer.fill 1 = lexer.extend := by
      by_cases hlength : lexer.ahead.length < 1
      · simp [Lexer.fill, hlength]
      · simp [Lexer.fill, hlength] at hahead
        simp [hahead] at hlength
    rw [hextend] at hahead hcursor hstray
    simpa [hstray] using isSome_stray_extend hahead hcursor
  · intro hrest
    by_contra hstray
    have hcursor := hfilled.isStray (Option.isSome_iff_ne_none.2 hstray)
    exact hcursor.rest_ne_nil (hfront ▸ hrest)

/-! ### Raw text -/

theorem restOfLine_eq (lexer : Lexer) :
    (⟨String.ofList lexer.restOfLine.1.text, lexer.restOfLine.1.span⟩ : DefaultText)
      = (lexer.front.skip Text.isLineBlank).rawText :=
  rfl

/-- A stray character that was met stands after all that was read ahead. -/
theorem Faithful.offset_le_stray (hlexer : lexer.Faithful) {stray : Stray}
    (hstray : stray ∈ lexer.stray) :
    lexer.front.offset ≤ stray.offset ∧
      ∀ reading ∈ lexer.ahead, reading.stop.offset ≤ stray.offset := by
  have hshows := hlexer.stray stray hstray
  obtain ⟨hplace, hahead⟩ := hlexer.leads.offset_le
  rw [hshows.skipGap_eq, hshows.2] at hplace hahead
  exact ⟨(Cursor.offset_le_skipGap lexer.front).trans hplace, hahead⟩

/-- So it is given up with what was read ahead. -/
theorem Faithful.stray_restOfLine (hlexer : lexer.Faithful) :
    lexer.restOfLine.2.stray = none := by
  refine Option.filter_eq_none_iff.2 fun stray hstray ↦ ?_
  simpa using (hlexer.offset_le_stray hstray).1

theorem Faithful.restOfLine (hlexer : lexer.Faithful) :
    lexer.restOfLine.2.Faithful ∧
      lexer.restOfLine.2.place = (lexer.front.skip Text.isLineBlank).afterRaw := by
  have hleads : lexer.restOfLine.2.cursor.Leads lexer.restOfLine.2.ahead
      lexer.restOfLine.2.cursor := rfl
  exact faithful_of_leads hleads (by simp [hlexer.stray_restOfLine])

end Lexer

/-! ### Recognition -/

namespace Parser

variable {α β : Type}

theorem run_bind_eq_ok {first : Parser α} {second : α → Parser β} {lexer last : Lexer}
    {value : β} :
    (first >>= second).run lexer = .ok (value, last) ↔
      ∃ item next, first.run lexer = .ok (item, next) ∧
        (second item).run next = .ok (value, last) := by
  rw [StateT.run_bind]
  cases hfirst : first.run lexer with
  | error fault => simp [bind, Except.bind]
  | ok pair =>
    obtain ⟨item, next⟩ := pair
    simp [bind, Except.bind, and_assoc]

theorem run_pure_eq_ok {value item : α} {lexer next : Lexer} :
    (Pure.pure value : Parser α).run lexer = .ok (item, next) ↔ item = value ∧ next = lexer := by
  have hrun : (Pure.pure value : Parser α).run lexer = .ok (value, lexer) := rfl
  simp [hrun, @eq_comm _ value, @eq_comm _ lexer]

theorem run_throw (fault : ParseFault) (lexer : Lexer) :
    (throw fault : Parser α).run lexer = .error fault :=
  rfl

/-- A parser succeeds exactly where a relation between a place, a value and a later place holds. -/
structure Recognizes (parser : Parser α) (relation : Cursor → α → Cursor → Prop) : Prop where
  sound {lexer next : Lexer} {value : α} (hlexer : lexer.Faithful)
    (hrun : parser.run lexer = .ok (value, next)) :
    next.Faithful ∧ relation lexer.place value next.place
  complete {lexer : Lexer} {value : α} {stop : Cursor} (hlexer : lexer.Faithful)
    (hrelation : relation lexer.place value stop) :
    ∃ next, parser.run lexer = .ok (value, next) ∧ next.Faithful ∧ next.place = stop

namespace Recognizes

variable {parser other : Parser α} {relation otherRelation : Cursor → α → Cursor → Prop}

theorem congr (hparser : parser.Recognizes relation)
    (hiff : ∀ cursor value stop,
      relation cursor value stop ↔ otherRelation cursor value stop) :
    parser.Recognizes otherRelation := by
  have heq : relation = otherRelation := by
    funext cursor value stop
    exact propext (hiff cursor value stop)
  exact heq ▸ hparser

theorem pure (value : α) :
    (Pure.pure value : Parser α).Recognizes
      fun cursor item stop ↦ item = value ∧ stop = cursor where
  sound := by
    intro lexer next item hlexer hrun
    obtain ⟨rfl, rfl⟩ := run_pure_eq_ok.1 hrun
    exact ⟨hlexer, rfl, rfl⟩
  complete := by
    rintro lexer item stop hlexer ⟨rfl, rfl⟩
    exact ⟨lexer, run_pure_eq_ok.2 ⟨rfl, rfl⟩, hlexer, rfl⟩

theorem bind {second : α → Parser β} {secondRelation : α → Cursor → β → Cursor → Prop}
    (hparser : parser.Recognizes relation)
    (hsecond : ∀ item, (second item).Recognizes (secondRelation item)) :
    (parser >>= second).Recognizes fun cursor value stop ↦
      ∃ item middle, relation cursor item middle ∧ secondRelation item middle value stop where
  sound := by
    intro lexer last value hlexer hrun
    obtain ⟨item, next, hfirst, hlast⟩ := run_bind_eq_ok.1 hrun
    obtain ⟨hnext, hrelation⟩ := hparser.sound hlexer hfirst
    obtain ⟨hfaithful, hstop⟩ := (hsecond item).sound hnext hlast
    exact ⟨hfaithful, item, next.place, hrelation, hstop⟩
  complete := by
    rintro lexer value stop hlexer ⟨item, middle, hrelation, hstop⟩
    obtain ⟨next, hfirst, hnext, rfl⟩ := hparser.complete hlexer hrelation
    obtain ⟨last, hlast, hfaithful, hplace⟩ := (hsecond item).complete hnext hstop
    exact ⟨last, run_bind_eq_ok.2 ⟨item, next, hfirst, hlast⟩, hfaithful, hplace⟩

theorem map (convert : α → β) (hparser : parser.Recognizes relation) :
    (convert <$> parser).Recognizes fun cursor value stop ↦
      ∃ item, relation cursor item stop ∧ value = convert item := by
  have hmap : convert <$> parser = parser >>= fun item ↦ Pure.pure (convert item) :=
    map_eq_pure_bind convert parser
  rw [hmap]
  refine (hparser.bind fun item ↦ .pure (convert item)).congr fun cursor value stop ↦ ?_
  constructor
  · rintro ⟨item, middle, hitem, rfl, rfl⟩
    exact ⟨item, hitem, rfl⟩
  · rintro ⟨item, hitem, rfl⟩
    exact ⟨item, stop, hitem, rfl, rfl⟩

/-- What a parser sees without moving decides how it goes on. -/
theorem look {view : Cursor → α} {second : α → Parser β}
    {secondRelation : α → Cursor → β → Cursor → Prop}
    (hparser : parser.Recognizes fun cursor item stop ↦ item = view cursor ∧ stop = cursor)
    (hsecond : ∀ item, (second item).Recognizes (secondRelation item)) :
    (parser >>= second).Recognizes fun cursor value stop ↦
      secondRelation (view cursor) cursor value stop :=
  (hparser.bind hsecond).congr <| by
    intro cursor value stop
    constructor
    · rintro ⟨_, _, ⟨rfl, rfl⟩, hrelation⟩
      exact hrelation
    · intro hrelation
      exact ⟨_, _, ⟨rfl, rfl⟩, hrelation⟩

theorem ite {condition : Prop} [Decidable condition] (hparser : parser.Recognizes relation)
    (hother : other.Recognizes otherRelation) :
    (if condition then parser else other).Recognizes fun cursor value stop ↦
      if condition then relation cursor value stop else otherRelation cursor value stop := by
  by_cases hcondition : condition
  · simpa [hcondition] using hparser
  · simpa [hcondition] using hother

end Recognizes

/-! ### Single tokens -/

theorem run_peek (count : Nat) (lexer : Lexer) :
    (peek count).run lexer
      = .ok ((lexer.peek count).1.map Lexeme.token, (lexer.peek count).2) :=
  rfl

theorem recognizes_peek (count : Nat) :
    (peek count).Recognizes fun cursor token stop ↦
      token = cursor.tokenAt? count ∧ stop = cursor where
  sound := by
    intro lexer next token hlexer hrun
    obtain ⟨hfaithful, hplace, htoken⟩ := hlexer.peek count
    obtain ⟨rfl, rfl⟩ : (lexer.peek count).1.map Lexeme.token = token ∧
        (lexer.peek count).2 = next := by
      simpa [run_peek] using hrun
    exact ⟨hfaithful, htoken, hplace⟩
  complete := by
    rintro lexer token stop hlexer ⟨rfl, rfl⟩
    obtain ⟨hfaithful, hplace, htoken⟩ := hlexer.peek count
    refine ⟨(lexer.peek count).2, ?_, hfaithful, hplace⟩
    rw [run_peek, htoken]

theorem recognizes_advance :
    advance.Recognizes fun cursor _ stop ↦ stop = cursor.after where
  sound := by
    intro lexer next _ hlexer hrun
    obtain rfl : lexer.next.2 = next := by
      simpa [advance, Pure.pure, Except.pure] using hrun
    exact hlexer.next
  complete := by
    rintro lexer _ stop hlexer rfl
    exact ⟨lexer.next.2, rfl, hlexer.next⟩

theorem run_fail_ne_ok {rule : Rule} {expected : Expected} {lexer next : Lexer} {value : α} :
    (fail rule expected : Parser α).run lexer ≠ .ok (value, next) := by
  intro hrun
  obtain ⟨current, _, -, hfail⟩ := run_bind_eq_ok.1 hrun
  cases hstray : (current.peek 0).2.stray with
  | none =>
    simp only [hstray, run_throw] at hfail
    cases hfail
  | some stray =>
    simp only [hstray, run_throw] at hfail
    cases hfail

theorem recognizes_fail (rule : Rule) (expected : Expected) :
    (fail rule expected : Parser α).Recognizes fun _ _ _ ↦ False where
  sound := fun _ hrun ↦ absurd hrun run_fail_ne_ok
  complete := fun _ hfalse ↦ hfalse.elim

theorem recognizes_isMark (count : Nat) (mark : Mark) :
    (isMark count mark).Recognizes fun cursor found stop ↦
      found = (cursor.tokenAt? count == some (.mark mark)) ∧ stop = cursor :=
  (recognizes_peek count).look fun _ ↦ .pure _

theorem recognizes_isSymbol :
    isSymbol.Recognizes fun cursor found stop ↦
      found = cursor.beginsSymbol ∧ stop = cursor := by
  have hanswer : ∀ token : Option Token,
      (match token with
        | some (.symbol _) => return true
        | _ => return false : Parser Bool).Recognizes fun cursor found stop ↦
          found = (match token with
            | some (.symbol _) => true
            | _ => false) ∧ stop = cursor := by
    intro token
    split
    · exact .pure true
    · exact .pure false
  exact (recognizes_peek 0).look hanswer

theorem recognizes_isSymbolBefore (mark : Mark) :
    (isSymbolBefore mark).Recognizes fun cursor found stop ↦
      found = (cursor.beginsSymbol && cursor.tokenAt? 1 == some (.mark mark)) ∧ stop = cursor :=
  (recognizes_isSymbol.look fun _ ↦ .ite (recognizes_isMark 1 mark) (.pure false)).congr <| by
    intro cursor found stop
    cases cursor.beginsSymbol <;> simp

theorem recognizes_accept (mark : Mark) :
    (accept mark).Recognizes fun cursor taken stop ↦
      if taken then cursor.Spells [.mark mark] stop
      else cursor.token? ≠ some (.mark mark) ∧ stop = cursor :=
  ((recognizes_isMark 0 mark).look fun _ ↦
      .ite (recognizes_advance.bind fun _ ↦ .pure true) (.pure false)).congr <| by
    intro cursor taken stop
    by_cases hmark : cursor.token? = some (.mark mark) <;> cases taken <;>
      simp [Cursor.tokenAt?, hmark]

/-- A mark that may follow decides how a parser goes on. -/
theorem recognizes_branch (mark : Mark) {taken other : Parser α}
    {takenRelation otherRelation : Cursor → α → Cursor → Prop}
    (htaken : taken.Recognizes takenRelation) (hother : other.Recognizes otherRelation) :
    (do if ← accept mark then taken else other : Parser α).Recognizes fun cursor value stop ↦
      if cursor.token? = some (.mark mark) then takenRelation cursor.after value stop
      else otherRelation cursor value stop :=
  ((recognizes_accept mark).bind fun _ ↦ .ite htaken hother).congr <| by
    intro cursor value stop
    by_cases hmark : cursor.token? = some (.mark mark) <;> simp [hmark]

theorem recognizes_expect (rule : Rule) (mark : Mark) :
    (expect rule mark).Recognizes fun cursor _ stop ↦ cursor.Spells [.mark mark] stop :=
  (recognizes_branch mark (.pure ()) (recognizes_fail rule (.mark mark))).congr <| by
    intro cursor _ stop
    simp

theorem recognizes_symbol (rule : Rule) :
    (symbol rule).Recognizes fun cursor name stop ↦ cursor.Spells [.symbol name] stop := by
  have hanswer : ∀ token : Option Token,
      (match token with
        | some (.symbol name) => do
          advance
          return name
        | _ => fail rule .symbol : Parser String).Recognizes fun cursor name stop ↦
          token = some (.symbol name) ∧ stop = cursor.after := by
    intro token
    split
    · next name =>
      refine (recognizes_advance.bind fun _ ↦ .pure name).congr fun cursor value stop ↦ ?_
      constructor
      · rintro ⟨_, _, rfl, rfl, rfl⟩
        exact ⟨rfl, rfl⟩
      · rintro ⟨hname, rfl⟩
        obtain rfl : name = value := by simpa using hname
        exact ⟨(), _, rfl, rfl, rfl⟩
    · next hother =>
      refine (recognizes_fail rule .symbol).congr fun cursor value stop ↦ ?_
      simp only [false_iff, not_and]
      intro htoken
      exact absurd htoken (hother value)
  exact (recognizes_peek 0).look hanswer

theorem recognizes_keyword (rule : Rule) (word : String) :
    (keyword rule word).Recognizes fun cursor _ stop ↦ cursor.Spells [.symbol word] stop :=
  ((recognizes_peek 0).look fun _ ↦
      .ite recognizes_advance (recognizes_fail rule (.word word))).congr <| by
    intro cursor _ stop
    simp [Cursor.tokenAt?]

/-! ### Raw text -/

theorem run_defaultText (lexer : Lexer) :
    defaultText.run lexer =
      (if lexer.restOfLine.1.text.isEmpty then fail .defaultText .defaultText
        else return (lexer.front.skip Text.isLineBlank).rawText : Parser DefaultText).run
        lexer.restOfLine.2 :=
  rfl

/-- Before raw text, the place of a reader is reached over blanks alone. -/
theorem place_eq_skip {lexer : Lexer}
    (hraw : lexer.place.rawText.text ≠ "" ∨ lexer.restOfLine.1.text ≠ []) :
    lexer.place = lexer.front.skip Text.isLineBlank := by
  apply Cursor.skipGap_eq_skip
  rcases hraw with hplace | hline
  · exact Or.inl hplace
  · refine Or.inr fun hempty ↦ hline ?_
    rw [← lexer.restOfLine_eq] at hempty
    simpa using hempty

theorem recognizes_defaultText :
    defaultText.Recognizes fun cursor text stop ↦
      (cursor.rawText = text ∧ text.text ≠ "") ∧ stop = cursor.afterRaw where
  sound := by
    intro lexer next text hlexer hrun
    rw [run_defaultText] at hrun
    obtain ⟨hfaithful, hafter⟩ := hlexer.restOfLine
    split_ifs at hrun with hempty
    · exact absurd hrun run_fail_ne_ok
    · have hline : lexer.restOfLine.1.text ≠ [] := by simpa using hempty
      obtain ⟨hnext, rfl, hplace⟩ := (Recognizes.pure _).sound hfaithful hrun
      rw [place_eq_skip (Or.inr hline)]
      refine ⟨hnext, ⟨rfl, ?_⟩, hplace.trans hafter⟩
      simpa [← lexer.restOfLine_eq] using hline
  complete := by
    rintro lexer text stop hlexer ⟨⟨rfl, hraw⟩, rfl⟩
    obtain ⟨hfaithful, hafter⟩ := hlexer.restOfLine
    have hplace := place_eq_skip (Or.inl hraw)
    rw [hplace, ← lexer.restOfLine_eq] at hraw
    refine ⟨lexer.restOfLine.2, ?_, hfaithful, by rw [hafter, hplace]⟩
    rw [run_defaultText, if_neg (by simpa using hraw), hplace]
    rfl

/-! ### Repetition -/

/-- A step is repeated, with one item each, until it answers with nothing. -/
def Chain (step : Cursor → Option α → Cursor → Prop) : Cursor → List α → Cursor → Prop
  | cursor, [], stop => step cursor none stop
  | cursor, item :: items, stop =>
    ∃ middle, step cursor (some item) middle ∧ Chain step middle items stop

/-- A step that answers with an item takes characters. -/
def Progresses (step : Cursor → Option α → Cursor → Prop) : Prop :=
  ∀ {cursor stop : Cursor} {item : α}, step cursor (some item) stop →
    stop.rest.length < cursor.rest.length

section Repetition

variable {step : Parser (Option α)} {relation : Cursor → Option α → Cursor → Prop}

theorem run_repeatUpTo_succ {limit : Nat} {lexer last : Lexer} {items : List α} :
    (repeatUpTo step (limit + 1)).run lexer = .ok (items, last) ↔
      (items = [] ∧ step.run lexer = .ok (none, last)) ∨
        ∃ item others next, items = item :: others ∧ step.run lexer = .ok (some item, next) ∧
          (repeatUpTo step limit).run next = .ok (others, last) := by
  rw [repeatUpTo, run_bind_eq_ok]
  constructor
  · rintro ⟨answer, next, hstep, hrest⟩
    cases answer with
    | none =>
      obtain ⟨rfl, rfl⟩ := run_pure_eq_ok.1 hrest
      exact Or.inl ⟨rfl, hstep⟩
    | some item =>
      obtain ⟨others, _, hothers, hpure⟩ := run_bind_eq_ok.1 hrest
      obtain ⟨rfl, rfl⟩ := run_pure_eq_ok.1 hpure
      exact Or.inr ⟨item, others, next, rfl, hstep, hothers⟩
  · rintro (⟨rfl, hstep⟩ | ⟨item, others, next, rfl, hstep, hothers⟩)
    · exact ⟨none, last, hstep, run_pure_eq_ok.2 ⟨rfl, rfl⟩⟩
    · exact ⟨some item, next, hstep,
        run_bind_eq_ok.2 ⟨others, last, hothers, run_pure_eq_ok.2 ⟨rfl, rfl⟩⟩⟩

/-- Within a limit that is not reached, a repetition goes through a chain of steps, and its last
step answers with nothing. -/
theorem repeatUpTo_sound (hstep : step.Recognizes relation) (hprogresses : Progresses relation)
    {limit : Nat} {lexer last : Lexer} {items : List α} (hlexer : lexer.Faithful)
    (hlimit : lexer.place.rest.length < limit)
    (hrun : (repeatUpTo step limit).run lexer = .ok (items, last)) :
    Chain relation lexer.place items last.place ∧
      ∃ before, before.Faithful ∧ step.run before = .ok (none, last) := by
  induction limit generalizing lexer items with
  | zero => simp at hlimit
  | succ limit ih =>
    rcases run_repeatUpTo_succ.1 hrun with ⟨rfl, hnone⟩ | ⟨item, others, next, rfl, hsome, hrest⟩
    · exact ⟨(hstep.sound hlexer hnone).2, lexer, hlexer, hnone⟩
    · obtain ⟨hnext, hitem⟩ := hstep.sound hlexer hsome
      have hshorter := hprogresses hitem
      obtain ⟨hchain, hlast⟩ := ih hnext (by omega) hrest
      exact ⟨⟨next.place, hitem, hchain⟩, hlast⟩

theorem repeatUpTo_complete (hstep : step.Recognizes relation)
    (hprogresses : Progresses relation) {limit : Nat} {lexer : Lexer} {items : List α}
    {stop : Cursor} (hlexer : lexer.Faithful) (hlimit : lexer.place.rest.length < limit)
    (hchain : Chain relation lexer.place items stop) :
    ∃ last, (repeatUpTo step limit).run lexer = .ok (items, last) ∧ last.Faithful ∧
      last.place = stop := by
  induction limit generalizing lexer items with
  | zero => simp at hlimit
  | succ limit ih =>
    cases items with
    | nil =>
      obtain ⟨last, hrun, hlast⟩ := hstep.complete hlexer hchain
      exact ⟨last, run_repeatUpTo_succ.2 (Or.inl ⟨rfl, hrun⟩), hlast⟩
    | cons item items =>
      obtain ⟨middle, hitem, hrest⟩ := hchain
      obtain ⟨next, hsome, hnext, rfl⟩ := hstep.complete hlexer hitem
      have hshorter := hprogresses hitem
      obtain ⟨last, hrun, hlast⟩ := ih hnext (by omega) hrest
      exact ⟨last, run_repeatUpTo_succ.2 (Or.inr ⟨item, items, next, rfl, hsome, hrun⟩), hlast⟩

theorem length_place_lt (lexer : Lexer) : lexer.place.rest.length < lexer.remaining + 1 :=
  Nat.lt_succ_of_le (Cursor.length_skipGap_le _)

theorem run_many (lexer : Lexer) :
    (many step).run lexer = (repeatUpTo step (lexer.remaining + 1)).run lexer :=
  rfl

theorem many_sound (hstep : step.Recognizes relation) (hprogresses : Progresses relation)
    {lexer last : Lexer} {items : List α} (hlexer : lexer.Faithful)
    (hrun : (many step).run lexer = .ok (items, last)) :
    Chain relation lexer.place items last.place ∧
      ∃ before, before.Faithful ∧ step.run before = .ok (none, last) :=
  repeatUpTo_sound hstep hprogresses hlexer (length_place_lt lexer) (run_many lexer ▸ hrun)

theorem recognizes_many (hstep : step.Recognizes relation) (hprogresses : Progresses relation) :
    (many step).Recognizes (Chain relation) where
  sound := by
    intro lexer last items hlexer hrun
    obtain ⟨hchain, before, hbefore, hnone⟩ := many_sound hstep hprogresses hlexer hrun
    exact ⟨(hstep.sound hbefore hnone).1, hchain⟩
  complete := by
    intro lexer items stop hlexer hchain
    rw [run_many]
    exact repeatUpTo_complete hstep hprogresses hlexer (length_place_lt lexer) hchain

/-- A step takes the items of its answer, or stays at an end and answers with nothing. -/
def TakesOrEnds (items : α → List Item) (ends : Cursor → Prop) :
    Cursor → Option α → Cursor → Prop
  | cursor, some item, stop => cursor.Spells (items item) stop
  | cursor, none, stop => ends cursor ∧ stop = cursor

theorem progresses_takesOrEnds {items : α → List Item} {ends : Cursor → Prop}
    (hitems : ∀ item, items item ≠ []) : Progresses (TakesOrEnds items ends) := by
  intro cursor stop item hspells
  obtain ⟨first, others, hcons⟩ := List.exists_cons_of_ne_nil (hitems item)
  exact (hcons ▸ hspells : cursor.Spells (first :: others) stop).length_lt

/-- The repetition of such a step takes the items of all answers, up to an end. -/
theorem recognizes_many_items {items : α → List Item} {ends : Cursor → Prop}
    (hstep : step.Recognizes (TakesOrEnds items ends)) (hitems : ∀ item, items item ≠ []) :
    (many step).Recognizes fun cursor values stop ↦
      cursor.Spells (values.flatMap items) stop ∧ ends stop := by
  refine (recognizes_many hstep (progresses_takesOrEnds hitems)).congr fun cursor values stop ↦ ?_
  induction values generalizing cursor with
  | nil =>
    simp only [Chain, TakesOrEnds, List.flatMap_nil, Cursor.spells_nil]
    constructor
    · rintro ⟨hends, rfl⟩
      exact ⟨rfl, hends⟩
    · rintro ⟨rfl, hends⟩
      exact ⟨hends, rfl⟩
  | cons item values ih =>
    simp only [Chain, TakesOrEnds, ih, List.flatMap_cons, Cursor.spells_append]
    constructor
    · rintro ⟨middle, hitem, hrest, hends⟩
      exact ⟨⟨middle, hitem, hrest⟩, hends⟩
    · rintro ⟨⟨middle, hitem, hrest⟩, hends⟩
      exact ⟨middle, hitem, hrest, hends⟩

end Repetition

theorem recognizes_countStep (mark : Mark) :
    (do return if ← accept mark then some () else none : Parser (Option Unit)).Recognizes
      (TakesOrEnds (fun _ ↦ [.mark mark]) fun cursor ↦ cursor.token? ≠ some (.mark mark)) := by
  refine ((recognizes_accept mark).bind fun taken ↦ .pure _).congr fun cursor answer stop ↦ ?_
  cases answer <;> simp [TakesOrEnds]

theorem recognizes_count (mark : Mark) :
    (count mark).Recognizes fun cursor number stop ↦
      cursor.Spells (List.replicate number (.mark mark)) stop ∧
        stop.token? ≠ some (.mark mark) := by
  have hmany := recognizes_many_items (recognizes_countStep mark) (by simp)
  refine (hmany.bind fun taken ↦ .pure taken.length).congr fun cursor number stop ↦ ?_
  have hmarks (taken : List Unit) :
      taken.flatMap (fun _ ↦ [Item.mark mark]) = List.replicate taken.length (.mark mark) := by
    induction taken with
    | nil => rfl
    | cons _ taken ih => simp [List.replicate_succ, ih]
  constructor
  · rintro ⟨taken, middle, hspells, rfl, rfl⟩
    rwa [hmarks] at hspells
  · intro hspells
    refine ⟨List.replicate number (), stop, ?_, by simp, rfl⟩
    rwa [hmarks, List.length_replicate]

end Parser

end SchemaCompiler
