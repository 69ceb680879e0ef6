import Mathlib
import SchemaCompiler.Proofs.Recognition

/-!
# Where parsers stumble

A parser that meets a stray character reports it, and then nothing else is reported. This module
says what has been read by then. `Parser.Follows` ties a parser to a language of items: where the
parser succeeds it has taken a word of the language, and where it stumbles over a stray character
the items before the character begin a word (`Viable`), which tokens can complete. Sequences follow
products of languages, choices follow unions and repetitions follow stars.

A parser looks ahead, so it may meet the character before it has taken all items in front of it.
`Lexer.Meets` says which items may stand between a reader and the character that it remembers:
mostly none, and one symbol where a rule looks at the token after the next one.
-/

set_option autoImplicit false
set_option relaxedAutoImplicit false

open scoped Computability

namespace SchemaCompiler

/-! ### Words that are begun -/

/-- Items that are tokens which can be written. -/
def Plain (items : List Item) : Prop :=
  ∀ item ∈ items, ∃ token : Token, token.Valid ∧ item = .token token

/-- Items that begin a word of a language, which goes on with tokens alone. -/
def Viable (language : Language Item) (begun : List Item) : Prop :=
  ∃ rest, Plain rest ∧ begun ++ rest ∈ language

/-- The language of a single token. -/
def word (token : Token) : Language Item := {[.token token]}

/-- The language of single symbols. -/
def symbols : Language Item := {items | ∃ name, items = [.symbol name]}

@[simp] theorem mem_word {token : Token} {items : List Item} :
    items ∈ word token ↔ items = [.token token] :=
  Iff.rfl

@[simp] theorem mem_symbols {items : List Item} :
    items ∈ symbols ↔ ∃ name, items = [.symbol name] :=
  Iff.rfl

theorem word_symbol_le (name : String) : word (.symbol name) ≤ symbols := by
  rintro items rfl
  exact ⟨name, rfl⟩

@[simp] theorem plain_nil : Plain [] := by simp [Plain]

@[simp] theorem plain_cons {token : Token} {items : List Item} :
    Plain (.token token :: items) ↔ token.Valid ∧ Plain items := by
  simp [Plain]

theorem valid_id : (Token.symbol "id").Valid :=
  ⟨'i', ['d'], rfl, rfl, by simp [isSymbolChar]⟩

theorem Plain.append {front back : List Item} (hfront : Plain front) (hback : Plain back) :
    Plain (front ++ back) := by
  intro item hitem
  rcases List.mem_append.mp hitem with hitem | hitem
  · exact hfront item hitem
  · exact hback item hitem

namespace Viable

variable {language other : Language Item} {begun items : List Item}

theorem of_mem (hitems : items ∈ language) : Viable language items :=
  ⟨[], plain_nil, by simpa using hitems⟩

theorem mono (hle : language ≤ other) (hbegun : Viable language begun) : Viable other begun := by
  obtain ⟨rest, hrest, hmember⟩ := hbegun
  exact ⟨rest, hrest, hle hmember⟩

/-- A word that is begun goes on as itself, and then as any further word. -/
theorem mul_right (hbegun : Viable language begun) (hother : Viable other []) :
    Viable (language * other) begun := by
  obtain ⟨rest, hrest, hmember⟩ := hbegun
  obtain ⟨further, hfurther, hword⟩ := hother
  refine ⟨rest ++ further, hrest.append hfurther, ?_⟩
  rw [← List.append_assoc]
  exact Language.append_mem_mul hmember hword

theorem append (hitems : items ∈ language) (hbegun : Viable other begun) :
    Viable (language * other) (items ++ begun) := by
  obtain ⟨rest, hrest, hmember⟩ := hbegun
  refine ⟨rest, hrest, ?_⟩
  rw [List.append_assoc]
  exact Language.append_mem_mul hitems hmember

theorem word {token : Token} (hvalid : token.Valid) : Viable (word token) [] :=
  ⟨[.token token], by simpa using hvalid, rfl⟩

theorem symbols : Viable symbols [] :=
  ⟨[.symbol "id"], by simpa using valid_id, "id", rfl⟩

end Viable

/-! ### Readers that met a stray character -/

/-- The fault of a text is the stray character that stands at a place. -/
def Cursor.Faults (source : List Char) (cursor : Cursor) (fault : LexicalFault) : Prop :=
  ∃ start character, cursor.scan = .stray start character ∧
    fault = Stray.locate ⟨start.offset, character⟩ source

theorem Cursor.Faults.token?_eq_none {source : List Char} {cursor : Cursor} {fault : LexicalFault}
    (hfaults : cursor.Faults source fault) : cursor.token? = none := by
  obtain ⟨start, character, hscan, -⟩ := hfaults
  exact IsStray.token?_eq_none ⟨start, character, hscan⟩

/-- What has been read ahead is spelled where it was read. -/
theorem Cursor.Leads.spells {cursor stop : Cursor} {readings : List Reading}
    (hleads : cursor.Leads readings stop) :
    cursor.skipGap.Spells (readings.map fun reading ↦ .token reading.token) stop.skipGap := by
  induction readings generalizing cursor with
  | nil => exact hleads
  | cons reading readings ih =>
    obtain ⟨hscan, hrest⟩ := hleads
    refine ⟨by simpa using token?_of_scan hscan, ?_⟩
    rw [after_skipGap, after_of_scan hscan]
    exact ih hrest

namespace Lexer

/-- A reader of a text holds what stands there. If it met a stray character, the items of a word
of `between` stand before the character. -/
structure Meets (source : List Char) (between : Language Item) (lexer : Lexer) : Prop where
  faithful : lexer.Faithful
  source_eq : lexer.source = source
  stray : ∀ stray ∈ lexer.stray, ∃ items ∈ between, ∃ stop,
    lexer.place.Spells items stop ∧ stop.Faults source (stray.locate source)

theorem meets_ofSource (source : List Char) : (ofSource source).Meets source 1 :=
  ⟨faithful_ofSource source, rfl, by simp [ofSource]⟩

variable {source : List Char} {between other : Language Item} {lexer : Lexer}

theorem Meets.mono (hle : between ≤ other) (hlexer : lexer.Meets source between) :
    lexer.Meets source other := by
  refine ⟨hlexer.faithful, hlexer.source_eq, fun stray hstray ↦ ?_⟩
  obtain ⟨items, hitems, hstop⟩ := hlexer.stray stray hstray
  exact ⟨items, hle hitems, hstop⟩

/-- A stray character that a reader meets stands after what is waiting. -/
theorem Meets.extend (hlexer : lexer.Meets source between)
    (hahead : (lexer.ahead.map fun reading ↦ Item.token reading.token) ∈ between) :
    lexer.extend.Meets source between := by
  obtain ⟨hfaithful, hplace⟩ := hlexer.faithful.extend
  have hspells := hlexer.faithful.leads.spells
  rw [skipGap_place] at hspells
  refine ⟨hfaithful, ?_, ?_⟩
  · unfold Lexer.extend
    split
    · exact hlexer.source_eq
    · split <;> exact hlexer.source_eq
  · rw [hplace]
    unfold Lexer.extend
    split
    · exact hlexer.stray
    · next hnone =>
      split
      · simp [hnone]
      · next start character hscan =>
        rintro stray ⟨⟩
        exact ⟨_, hahead, _, hspells, start, character, by simpa using hscan, rfl⟩
      · simp [hnone]

theorem Meets.fill_one (hlexer : lexer.Meets source between) (hnil : [] ∈ between) :
    (lexer.fill 1).Meets source between := by
  change (if lexer.ahead.length < 1 then lexer.extend else lexer).Meets source between
  split_ifs with hlength
  · refine hlexer.extend ?_
    rwa [List.length_eq_zero_iff.mp (Nat.lt_one_iff.mp hlength)]
  · exact hlexer

/-- A reader that looks at the token after the next one may meet a stray character there. -/
theorem Meets.peek_one {token : Token} (hlexer : lexer.Meets source 1)
    (htoken : lexer.place.token? = some token) :
    (lexer.peek 1).2.Meets source (1 + word token) := by
  have hfilled : (lexer.fill 1).Meets source (1 + word token) :=
    (hlexer.fill_one Language.nil_mem_one).mono le_self_add
  have hplace := (hlexer.faithful.fill 1).2
  change (lexer.fill 2).Meets source (1 + word token)
  unfold Lexer.fill
  simp only
  split_ifs with hlength
  · refine hfilled.extend ?_
    cases hahead : (lexer.fill 1).ahead with
    | nil => exact Or.inl rfl
    | cons reading readings =>
      obtain rfl : readings = [] := by
        rw [hahead, List.length_cons] at hlength
        exact List.length_eq_zero_iff.mp (by omega)
      have hleads := hfilled.faithful.leads
      rw [hahead, hplace] at hleads
      have hfound := Cursor.token?_of_scan hleads.1
      obtain rfl : token = reading.token := by simpa [htoken] using hfound
      exact Or.inr rfl
  · exact hfilled

/-- The symbol before a stray character that a reader met is the one at its place. -/
theorem Meets.word {name : String} (hlexer : lexer.Meets source (1 + symbols))
    (hname : lexer.place.token? = some (.symbol name)) :
    lexer.Meets source (1 + word (.symbol name)) := by
  refine ⟨hlexer.faithful, hlexer.source_eq, fun stray hstray ↦ ?_⟩
  obtain ⟨items, hitems, stop, hspells, hfaults⟩ := hlexer.stray stray hstray
  refine ⟨items, ?_, stop, hspells, hfaults⟩
  rcases hitems with rfl | ⟨found, rfl⟩
  · exact Or.inl rfl
  · obtain rfl : found = name := by simpa [hname] using hspells.1.symm
    exact Or.inr rfl

/-- Before a stray character that a reader met, it takes a symbol at most. -/
theorem Meets.next {token : Token} (hlexer : lexer.Meets source (1 + symbols))
    (htoken : lexer.place.token? = some token) : lexer.next.2.Meets source 1 := by
  obtain ⟨hfaithful, hplace⟩ := hlexer.faithful.next
  have hfilled := hlexer.fill_one (Or.inl rfl)
  have hstill := (hlexer.faithful.fill 1).2
  have hnext : lexer.next.2.source = (lexer.fill 1).source ∧
      lexer.next.2.stray = (lexer.fill 1).stray := by
    unfold Lexer.next
    simp only
    split <;> exact ⟨rfl, rfl⟩
  refine ⟨hfaithful, hnext.1.trans hfilled.source_eq, ?_⟩
  rw [hnext.2, hplace]
  intro stray hstray
  obtain ⟨items, hitems, stop, hspells, hfaults⟩ := hfilled.stray stray hstray
  rw [hstill] at hspells
  rcases hitems with rfl | ⟨name, rfl⟩
  · obtain rfl : stop = lexer.place := hspells
    simp [hfaults.token?_eq_none] at htoken
  · exact ⟨[], rfl, stop, hspells.2, hfaults⟩

/-- A reader stands at a place with a property. -/
structure Views (source : List Char) (between : Language Item) (holds : Cursor → Prop)
    (lexer : Lexer) : Prop where
  meets : lexer.Meets source between
  holds : holds lexer.place

theorem Meets.views (hlexer : lexer.Meets source between) :
    lexer.Views source between fun _ ↦ True :=
  ⟨hlexer, trivial⟩

theorem meets_restOfLine (hlexer : lexer.Meets source between) :
    lexer.restOfLine.2.Meets source 1 :=
  ⟨hlexer.faithful.restOfLine.1, hlexer.source_eq, by simp [hlexer.faithful.stray_restOfLine]⟩

end Lexer

/-! ### Parsers that follow a language -/

namespace Parser

variable {α β : Type}

theorem run_bind_eq_error {first : Parser α} {second : α → Parser β} {lexer : Lexer}
    {fault : ParseFault} :
    (first >>= second).run lexer = .error fault ↔
      first.run lexer = .error fault ∨
        ∃ item next, first.run lexer = .ok (item, next) ∧
          (second item).run next = .error fault := by
  rw [StateT.run_bind]
  cases hfirst : first.run lexer with
  | error other => simp [bind, Except.bind]
  | ok pair =>
    obtain ⟨item, next⟩ := pair
    simp [bind, Except.bind]

/-- Started on a reader of one kind, a parser takes a word of a language and leaves a reader of
another kind, or stumbles where a word is begun. -/
structure Follows (source : List Char) (before : Lexer → Prop) (parser : Parser α)
    (after : α → Lexer → Prop) (language : Language Item) : Prop where
  opens : Viable language []
  takes {lexer next : Lexer} {value : α} (hlexer : before lexer)
    (hrun : parser.run lexer = .ok (value, next)) :
    after value next ∧ ∃ items ∈ language, lexer.place.Spells items next.place
  stumbles {lexer : Lexer} {fault : LexicalFault} (hlexer : before lexer)
    (hrun : parser.run lexer = .error (.lexical fault)) :
    ∃ begun, Viable language begun ∧ ∃ stop, lexer.place.Spells begun stop ∧
      stop.Faults source fault

variable {source : List Char} {before earlier : Lexer → Prop} {after : α → Lexer → Prop}
  {last : β → Lexer → Prop} {between language other : Language Item} {parser : Parser α}

namespace Follows

/-- A parser follows a larger language, where the items that stand at the place of the reader
decide which words have to be in it. -/
theorem widen (hparser : parser.Follows source before after language) (hopens : Viable other [])
    (hnil : [] ∈ language → [] ∈ other)
    (hwords : ∀ {lexer item items rest stop}, before lexer →
      lexer.place.Spells (item :: items) stop → item :: items ++ rest ∈ language →
        item :: items ++ rest ∈ other) :
    parser.Follows source before after other where
  opens := hopens
  takes := by
    intro lexer next value hlexer hrun
    obtain ⟨hnext, items, hitems, hspells⟩ := hparser.takes hlexer hrun
    refine ⟨hnext, items, ?_, hspells⟩
    cases items with
    | nil => exact hnil hitems
    | cons item items =>
      have hword := @hwords lexer item items [] next.place hlexer hspells
      simpa using hword (by simpa using hitems)
  stumbles := by
    intro lexer fault hlexer hrun
    obtain ⟨begun, ⟨rest, hrest, hmember⟩, stop, hspells, hfaults⟩ := hparser.stumbles hlexer hrun
    cases begun with
    | nil => exact ⟨[], hopens, stop, hspells, hfaults⟩
    | cons item begun =>
      exact ⟨item :: begun, ⟨rest, hrest, hwords hlexer hspells hmember⟩, stop, hspells, hfaults⟩

theorem mono (hle : language ≤ other) (hparser : parser.Follows source before after language) :
    parser.Follows source before after other :=
  hparser.widen (hparser.opens.mono hle) (fun hnil ↦ hle hnil) fun _ _ hword ↦ hle hword

theorem restrict (hle : ∀ lexer, earlier lexer → before lexer)
    (hparser : parser.Follows source before after language) :
    parser.Follows source earlier after language where
  opens := hparser.opens
  takes hlexer hrun := hparser.takes (hle _ hlexer) hrun
  stumbles hlexer hrun := hparser.stumbles (hle _ hlexer) hrun

theorem pure {value : α} (hafter : ∀ lexer, before lexer → after value lexer) :
    (Pure.pure value : Parser α).Follows source before after 1 where
  opens := .of_mem rfl
  takes := by
    intro lexer next item hlexer hrun
    obtain ⟨rfl, rfl⟩ := run_pure_eq_ok.1 hrun
    exact ⟨hafter next hlexer, [], rfl, rfl⟩
  stumbles := by
    intro lexer fault hlexer hrun
    cases hrun

theorem bind [Nonempty α] {second : α → Parser β}
    (hparser : parser.Follows source before after language)
    (hsecond : ∀ item, (second item).Follows source (after item) last other) :
    (parser >>= second).Follows source before last (language * other) where
  opens := hparser.opens.mul_right (hsecond (Classical.arbitrary α)).opens
  takes := by
    intro lexer next value hlexer hrun
    obtain ⟨item, between, hfirst, hlast⟩ := run_bind_eq_ok.1 hrun
    obtain ⟨hbetween, items, hitems, hspells⟩ := hparser.takes hlexer hfirst
    obtain ⟨hnext, others, hothers, hrest⟩ := (hsecond item).takes hbetween hlast
    exact ⟨hnext, _, Language.append_mem_mul hitems hothers,
      Cursor.spells_append.2 ⟨_, hspells, hrest⟩⟩
  stumbles := by
    intro lexer fault hlexer hrun
    rcases run_bind_eq_error.1 hrun with hfirst | ⟨item, between, hfirst, hlast⟩
    · obtain ⟨begun, hbegun, hstop⟩ := hparser.stumbles hlexer hfirst
      exact ⟨begun, hbegun.mul_right (hsecond (Classical.arbitrary α)).opens, hstop⟩
    · obtain ⟨hbetween, items, hitems, hspells⟩ := hparser.takes hlexer hfirst
      obtain ⟨begun, hbegun, stop, hrest, hfaults⟩ := (hsecond item).stumbles hbetween hlast
      exact ⟨items ++ begun, .append hitems hbegun, stop,
        Cursor.spells_append.2 ⟨_, hspells, hrest⟩, hfaults⟩

/-- What a parser sees without taking anything decides how it goes on. -/
theorem look [Nonempty α] {second : α → Parser β}
    (hparser : parser.Follows source before after 1)
    (hsecond : ∀ item, (second item).Follows source (after item) last language) :
    (parser >>= second).Follows source before last language := by
  simpa using hparser.bind hsecond

theorem answer [Nonempty α] {convert : α → β}
    (hparser : parser.Follows source before after language)
    (hafter : ∀ value lexer, after value lexer → last (convert value) lexer) :
    (parser >>= fun value ↦ Pure.pure (convert value)).Follows source before last language := by
  simpa using hparser.bind fun value ↦ .pure (hafter value)

theorem ite {condition : Prop} [Decidable condition] {otherwise : Parser α}
    (hparser : condition → parser.Follows source before after language)
    (hother : ¬condition → otherwise.Follows source before after language) :
    (if condition then parser else otherwise).Follows source before after language := by
  split_ifs with hcondition
  · exact hparser hcondition
  · exact hother hcondition

end Follows

/-! ### Single tokens -/

theorem follows_peek {holds : Cursor → Prop} (hnil : [] ∈ between) :
    (peek 0).Follows source (Lexer.Views source between holds)
      (fun token ↦ Lexer.Views source between fun cursor ↦ holds cursor ∧ cursor.token? = token)
      1 where
  opens := .of_mem rfl
  takes := by
    rintro lexer next token ⟨hlexer, hholds⟩ hrun
    obtain ⟨-, hplace, htoken⟩ := hlexer.faithful.peek 0
    obtain ⟨rfl, rfl⟩ : (lexer.peek 0).1.map Lexeme.token = token ∧ (lexer.peek 0).2 = next := by
      simpa [run_peek] using hrun
    refine ⟨⟨hlexer.fill_one hnil, ?_⟩, [], rfl, hplace⟩
    rw [hplace]
    exact ⟨hholds, htoken.symm⟩
  stumbles := by
    intro lexer fault hlexer hrun
    cases hrun

theorem follows_isMark {holds : Cursor → Prop} (mark : Mark) (hnil : [] ∈ between) :
    (isMark 0 mark).Follows source (Lexer.Views source between holds)
      (fun found ↦ Lexer.Views source between fun cursor ↦
        holds cursor ∧ (found = true ↔ cursor.token? = some (.mark mark)))
      1 :=
  (follows_peek hnil).look fun token ↦ .pure fun lexer hlexer ↦
    ⟨hlexer.meets, hlexer.holds.1, by simp [hlexer.holds.2]⟩

theorem follows_advance {token : Token} (hle : between ≤ 1 + symbols)
    (hopens : Viable language []) (hword : [.token token] ∈ language) :
    advance.Follows source (Lexer.Views source between fun cursor ↦ cursor.token? = some token)
      (fun _ ↦ Lexer.Meets source 1) language where
  opens := hopens
  takes := by
    rintro lexer next _ ⟨hlexer, htoken⟩ hrun
    obtain rfl : lexer.next.2 = next := by
      simpa [advance, Pure.pure, Except.pure] using hrun
    exact ⟨(hlexer.mono hle).next htoken, _, hword, htoken, hlexer.faithful.next.2⟩
  stumbles := by
    intro lexer fault hlexer hrun
    cases hrun

theorem fail_bind {rule : Rule} {expected : Expected} {next : α → Parser β} :
    fail rule expected >>= next = fail rule expected := by
  funext lexer
  cases hstray : (lexer.peek 0).2.stray <;>
    simp [fail, bind, StateT.bind, Except.bind, get, getThe, MonadStateOf.get, StateT.get,
      pure, Except.pure, throw, throwThe, MonadExceptOf.throw, StateT.lift, hstray]

/-- A parser that fails stumbles if a stray character was met. -/
theorem follows_fail {rule : Rule} {expected : Expected} (hnil : [] ∈ between)
    (hbegun : ∀ begun ∈ between, Viable language begun) :
    (fail rule expected : Parser α).Follows source (Lexer.Meets source between) after language where
  opens := hbegun [] hnil
  takes hlexer hrun := absurd hrun run_fail_ne_ok
  stumbles := by
    intro lexer fault hlexer hrun
    obtain ⟨-, hplace, -⟩ := hlexer.faithful.peek 0
    have hpeek : (lexer.peek 0).2.Meets source between := hlexer.fill_one hnil
    obtain ⟨current, _, hget, hfail⟩ :=
      (run_bind_eq_error.1 hrun).resolve_left (by intro hnone; cases hnone)
    cases hget
    cases hstray : (lexer.peek 0).2.stray with
    | none =>
      simp only [hstray, run_throw] at hfail
      cases hfail
    | some stray =>
      simp only [hstray, run_throw] at hfail
      cases hfail
      obtain ⟨items, hitems, stop, hspells, hfaults⟩ := hpeek.stray stray hstray
      rw [hplace] at hspells
      rw [hpeek.source_eq]
      exact ⟨items, hbegun items hitems, stop, hspells, hfaults⟩

theorem follows_accept (mark : Mark) {rest : Bool → Parser β}
    (hnil : [] ∈ between) (hle : between ≤ 1 + symbols)
    (htaken : (rest true).Follows source (Lexer.Meets source 1) last language)
    (hother : (rest false).Follows source (Lexer.Meets source between) last other) :
    (accept mark >>= rest).Follows source (Lexer.Meets source between) last
      (word (.mark mark) * language + other) := by
  have haccept : accept mark >>= rest = isMark 0 mark >>= fun found ↦
      if found then advance >>= fun _ ↦ rest true else rest false := by
    rw [accept, bind_assoc]
    congr 1
    funext found
    cases found <;> simp
  rw [haccept]
  refine ((follows_isMark mark hnil).look fun found ↦ .ite (fun hfound ↦ ?_) fun _ ↦ ?_).restrict
    fun _ ↦ Lexer.Meets.views
  · have hadvance := @follows_advance source between (word (.mark mark)) (.mark mark) hle
      (.word trivial) rfl
    refine ((hadvance.bind fun _ ↦ htaken).mono le_self_add).restrict fun lexer hlexer ↦ ?_
    exact ⟨hlexer.meets, hlexer.holds.2.1 hfound⟩
  · exact (hother.mono le_add_self).restrict fun _ hlexer ↦ hlexer.meets

theorem follows_accept_alone (mark : Mark) :
    (accept mark).Follows source (Lexer.Meets source 1) (fun _ ↦ Lexer.Meets source 1)
      (word (.mark mark) + 1) := by
  have haccept := @follows_accept _ source (fun _ ↦ Lexer.Meets source 1) 1 1 1 mark Pure.pure
    Language.nil_mem_one le_self_add (.pure fun _ hlexer ↦ hlexer) (.pure fun _ hlexer ↦ hlexer)
  simpa using haccept

theorem run_accept_ne_error {mark : Mark} {lexer : Lexer} {fault : ParseFault} :
    (accept mark).run lexer ≠ .error fault := by
  intro hrun
  rcases run_bind_eq_error.1 hrun with hlook | ⟨found, next, -, hrest⟩
  · cases hlook
  · split_ifs at hrest <;> cases hrest

theorem follows_expect {rule : Rule} {mark : Mark} (hnil : [] ∈ between)
    (hle : between ≤ 1 + symbols) (hbegun : ∀ begun ∈ between, Viable language begun)
    (hword : word (.mark mark) ≤ language) :
    (expect rule mark).Follows source (Lexer.Meets source between)
      (fun _ ↦ Lexer.Meets source 1) language := by
  have hexpect := @follows_accept _ source (fun _ ↦ Lexer.Meets source 1) between 1 language mark
    (fun found ↦ if found then pure () else fail rule (.mark mark)) hnil hle
    (.pure fun _ hlexer ↦ hlexer) (follows_fail hnil hbegun)
  exact hexpect.mono (by simpa using hword)

theorem follows_mark {rule : Rule} (mark : Mark) :
    (expect rule mark).Follows source (Lexer.Meets source 1) (fun _ ↦ Lexer.Meets source 1)
      (word (.mark mark)) := by
  refine follows_expect Language.nil_mem_one le_self_add ?_ le_rfl
  rintro begun rfl
  exact .word trivial

theorem follows_symbol (rule : Rule) :
    (symbol rule).Follows source (Lexer.Meets source (1 + symbols))
      (fun _ ↦ Lexer.Meets source 1) symbols := by
  have hnil : [] ∈ 1 + symbols := Or.inl rfl
  refine ((follows_peek hnil).look fun token ↦ ?_).restrict fun _ ↦ Lexer.Meets.views
  split
  · next name =>
    have hadvance := @follows_advance source (1 + symbols) symbols (.symbol name) le_rfl .symbols
      ⟨name, rfl⟩
    refine .restrict (fun lexer hlexer ↦ ?_) (.answer hadvance fun _ _ hlexer ↦ hlexer)
    exact ⟨hlexer.meets, hlexer.holds.2⟩
  · refine (follows_fail hnil ?_).restrict fun _ hlexer ↦ hlexer.meets
    rintro begun (rfl | hbegun)
    · exact .symbols
    · exact .of_mem hbegun

theorem follows_keyword {rule : Rule} {name : String} (hvalid : (Token.symbol name).Valid) :
    (keyword rule name).Follows source (Lexer.Meets source (1 + word (.symbol name)))
      (fun _ ↦ Lexer.Meets source 1) (word (.symbol name)) := by
  have hnil : [] ∈ 1 + word (.symbol name) := Or.inl rfl
  have hle : 1 + word (.symbol name) ≤ 1 + symbols := by
    gcongr
    exact word_symbol_le name
  refine ((follows_peek hnil).look fun token ↦ .ite (fun htoken ↦ ?_) fun _ ↦ ?_).restrict
    fun _ ↦ Lexer.Meets.views
  · refine (follows_advance hle (.word hvalid) rfl).restrict fun lexer hlexer ↦ ?_
    exact ⟨hlexer.meets, hlexer.holds.2.trans (by simpa using htoken)⟩
  · refine (follows_fail hnil ?_).restrict fun _ hlexer ↦ hlexer.meets
    rintro begun (rfl | hbegun)
    · exact .word hvalid
    · exact .of_mem hbegun

/-! ### Looking ahead -/

theorem follows_isSymbol :
    isSymbol.Follows source (Lexer.Meets source 1)
      (fun found ↦ Lexer.Views source 1 fun cursor ↦
        found = true → ∃ name, cursor.token? = some (.symbol name)) 1 := by
  refine ((follows_peek Language.nil_mem_one).look fun token ↦ ?_).restrict
    fun _ ↦ Lexer.Meets.views
  split
  · next name => exact .pure fun lexer hlexer ↦ ⟨hlexer.meets, fun _ ↦ ⟨name, hlexer.holds.2⟩⟩
  · exact .pure fun lexer hlexer ↦ ⟨hlexer.meets, by simp⟩

/-- A look at the token after a symbol may meet a stray character there. -/
theorem follows_isMark_one (mark : Mark) :
    (isMark 1 mark).Follows source
      (Lexer.Views source 1 fun cursor ↦ ∃ name, cursor.token? = some (.symbol name))
      (fun _ ↦ Lexer.Meets source (1 + symbols)) 1 where
  opens := .of_mem rfl
  takes := by
    rintro lexer next found ⟨hlexer, name, hname⟩ hrun
    obtain rfl : (lexer.peek 1).2 = next := by
      obtain ⟨_, _, hpeek, hpure⟩ := run_bind_eq_ok.1 hrun
      cases hpeek
      exact (run_pure_eq_ok.1 hpure).2.symm
    refine ⟨(hlexer.peek_one hname).mono ?_, [], rfl, (hlexer.faithful.peek 1).2.1⟩
    gcongr
    exact word_symbol_le name
  stumbles := by
    intro lexer fault hlexer hrun
    cases hrun

theorem follows_isSymbolBefore (mark : Mark) :
    (isSymbolBefore mark).Follows source (Lexer.Meets source 1)
      (fun _ ↦ Lexer.Meets source (1 + symbols)) 1 := by
  refine follows_isSymbol.look fun found ↦ .ite (fun hfound ↦ ?_) fun _ ↦ ?_
  · exact (follows_isMark_one mark).restrict fun lexer hlexer ↦ ⟨hlexer.meets, hlexer.holds hfound⟩
  · exact .pure fun lexer hlexer ↦ hlexer.meets.mono le_self_add

/-! ### Repetition -/

theorem repeatUpTo_succ_bind (step : Parser (Option α)) (limit : Nat) (rest : List α → Parser β) :
    repeatUpTo step (limit + 1) >>= rest = step >>= fun answer ↦
      match answer with
      | none => rest []
      | some item => repeatUpTo step limit >>= fun items ↦ rest (item :: items) := by
  rw [repeatUpTo, bind_assoc]
  congr 1
  funext answer
  cases answer <;> simp

/-- A repetition and what comes after it follow a language if a step does before either: before
what comes after the repetition, and before more steps. -/
theorem follows_many {ended : Lexer → Prop} {step : Parser (Option α)} {rest : List α → Parser β}
    (hstep : ∀ next : Option α → Parser β, (next none).Follows source ended last language →
      (∀ item, (next (some item)).Follows source before last language) →
        (step >>= next).Follows source before last language)
    (hended : ∀ lexer, before lexer → ended lexer)
    (hrest : ∀ items, (rest items).Follows source ended last language) :
    (many step >>= rest).Follows source before last language := by
  have hloop (limit : Nat) :
      (repeatUpTo step limit >>= rest).Follows source before last language := by
    induction limit generalizing rest with
    | zero => exact (hrest []).restrict hended
    | succ limit ih =>
      rw [repeatUpTo_succ_bind]
      exact hstep _ (hrest []) fun item ↦ ih fun items ↦ hrest (item :: items)
  have hrun (lexer : Lexer) : (many step >>= rest).run lexer
      = (repeatUpTo step (lexer.remaining + 1) >>= rest).run lexer := rfl
  exact ⟨(hloop 0).opens, fun hlexer hmany ↦ (hloop _).takes hlexer (hrun _ ▸ hmany),
    fun hlexer hmany ↦ (hloop _).stumbles hlexer (hrun _ ▸ hmany)⟩

theorem follows_star {step : Parser (Option α)}
    (hstep : step.Follows source before (fun _ ↦ before) language) :
    (many step).Follows source before (fun _ ↦ before) language∗ := by
  have hmany : (many step >>= Pure.pure).Follows source before (fun _ ↦ before) language∗ := by
    refine follows_many (fun next hnone hsome ↦ ?_) (fun _ hlexer ↦ hlexer) fun items ↦
      .mono one_le_kstar (.pure fun _ hlexer ↦ hlexer)
    refine (hstep.bind fun answer ↦ ?_).mono mul_kstar_le_kstar
    cases answer with
    | none => exact hnone
    | some item => exact hsome item
  simpa using hmany

end Parser

end SchemaCompiler
