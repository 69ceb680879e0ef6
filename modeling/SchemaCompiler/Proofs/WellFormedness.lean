import SchemaCompiler.Proofs.Grammar

/-!
# Well formed documents

A document is well formed if it could have been written: its symbols are symbols, its tables have a
primary key, its markers are one or two, and its defaults are texts that a line can hold. No field
of a primary key has a default, since a default goes up to the end of its line and would take the
parenthesis that closes the key. `Document.WrittenAs.wellFormed` says that a text writes none but
well formed documents.
-/

set_option autoImplicit false
set_option relaxedAutoImplicit false

namespace SchemaCompiler

/-! ### Well formed syntax -/

/-- A text that can stand as a default in a line. -/
structure DefaultText.WellFormed (initial : DefaultText) : Prop where
  ne_empty : initial.text ≠ ""
  isRaw : ∀ character ∈ initial.text.toList, character ≠ '\n' ∧ character ≠ '#'
  head : ∀ character ∈ initial.text.toList.head?, Text.isBlank character = false
  last : ∀ character ∈ initial.text.toList.getLast?, Text.isBlank character = false

structure Field.WellFormed (field : Field) : Prop where
  name : IsSymbol field.name.toList
  type : IsSymbol field.type.toList
  initial : ∀ text ∈ field.initial, text.WellFormed

structure TableDefinition.WellFormed (definition : TableDefinition) : Prop where
  name : IsSymbol definition.name.toList
  primaries_ne_nil : definition.primaries ≠ []
  primaries : ∀ field ∈ definition.primaries, field.WellFormed ∧ field.initial = none
  fields : ∀ field ∈ definition.fields, field.WellFormed
  shown : ∀ names, definition.shown = some (.fields names) →
    names ≠ [] ∧ ∀ name ∈ names, IsSymbol name.toList

structure Side.WellFormed (side : Side) : Prop where
  symbol : IsSymbol side.symbol.toList
  markers : side.markers = 1 ∨ side.markers = 2

structure Relation.WellFormed (relation : Relation) : Prop where
  left : relation.left.WellFormed
  right : relation.right.WellFormed
  fields : ∀ field ∈ relation.fields, field.WellFormed

def Statement.WellFormed : Statement → Prop
  | .table definition => definition.WellFormed
  | .relation sides => sides.WellFormed

def Document.WellFormed (document : Document) : Prop :=
  ∀ statement ∈ document.statements, statement.WellFormed

/-! ### Trimmed text -/

namespace Text

theorem trimEnd_append (text : List Char) :
    trimEnd text ++ (text.reverse.takeWhile isBlank).reverse = text := by
  rw [trimEnd, ← List.reverse_append, List.takeWhile_append_dropWhile, List.reverse_reverse]

theorem stops_reverse_trimEnd (text : List Char) : Stops isBlank (trimEnd text).reverse := by
  simpa [trimEnd] using stops_dropWhile isBlank text.reverse

/-- A text that does not end with a blank is trimmed. -/
theorem trimEnd_of_stops {text : List Char} (hlast : Stops isBlank text.reverse) :
    trimEnd text = text := by
  have hreverse : text.reverse.dropWhile isBlank = text.reverse := by
    simpa using @Stops.dropWhile_append isBlank [] text.reverse hlast (by simp)
  simp [trimEnd, hreverse]

end Text

/-! ### Items that are read -/

/-- An item that can be written. -/
def Item.Valid : Item → Prop
  | .token content => content.Valid
  | .initial text => text.WellFormed

namespace Cursor

variable {cursor stop : Cursor} {items : List Item}

theorem valid_of_token? {token : Token} (htoken : cursor.token? = some token) : token.Valid := by
  obtain ⟨reading, hscan, rfl⟩ := exists_scan_of_token? htoken
  exact (exact_of_scan hscan).2.valid

/-- Raw text after a gap is trimmed at both ends. -/
theorem wellFormed_rawText (hsettled : cursor.Settled) (hraw : cursor.rawText.text ≠ "") :
    cursor.rawText.WellFormed where
  ne_empty := hraw
  isRaw := by
    intro character hmem
    have hline : character ∈ cursor.rest.takeWhile Text.isRaw := by
      rw [← Text.trimEnd_append (cursor.rest.takeWhile Text.isRaw)]
      exact List.mem_append_left _ (by simpa [rawText] using hmem)
    simpa [Text.isRaw] using List.mem_takeWhile_imp hline
  head := by
    intro character hhead
    have hline : (cursor.rest.takeWhile Text.isRaw).head? = some character := by
      have htrim : (Text.trimEnd (cursor.rest.takeWhile Text.isRaw)).head? = some character := by
        simpa [rawText] using hhead
      rw [← Text.trimEnd_append (cursor.rest.takeWhile Text.isRaw), List.head?_append, htrim]
      rfl
    rw [List.head?_takeWhile, Option.filter_eq_some_iff] at hline
    have hsolid := (hsettled character hline.1).1
    have hnewline : character ≠ '\n' := by
      rintro rfl
      simp [Text.isRaw] at hline
    simpa [Text.isLineBlank, hnewline] using hsolid
  last := by
    intro character hlast
    apply Text.stops_reverse_trimEnd (cursor.rest.takeWhile Text.isRaw)
    simpa [rawText] using hlast

theorem Spells.valid (hspells : cursor.Spells items stop) : ∀ item ∈ items, item.Valid := by
  induction items generalizing cursor with
  | nil => simp
  | cons item items ih =>
    cases item with
    | token token =>
      obtain ⟨htoken, hrest⟩ := hspells
      simpa using ⟨valid_of_token? htoken, ih hrest⟩
    | initial text =>
      obtain ⟨-, ⟨rfl, hraw⟩, hrest⟩ := hspells
      simpa using ⟨wellFormed_rawText (settled_after cursor) hraw, ih hrest⟩

/-- After a default, a line ends. -/
theorem Spells.eq_newline {text : DefaultText} {item : Item}
    (hspells : cursor.Spells (.initial text :: item :: items) stop) : item = .mark .newline := by
  obtain ⟨-, -, hrest⟩ := hspells
  exact Item.eq_mark_of_first_eq (token?_afterRaw hrest.token?) (by decide)

/-- A field before anything but the end of its line has no default. -/
theorem Spells.initial_eq_none {field : Field} {item : Item}
    (hspells : cursor.Spells (field.items ++ item :: items) stop) (hitem : item ≠ .mark .newline) :
    field.initial = none := by
  by_contra hsome
  obtain ⟨text, htext⟩ := Option.ne_none_iff_exists'.1 hsome
  simp only [Field.items, htext, Option.map_some, Option.toList_some, List.cons_append,
    List.append_assoc, List.nil_append, spells_token_cons, spells_append] at hspells
  obtain ⟨-, -, -, middle, -, hrest⟩ := hspells
  exact hitem hrest.eq_newline

end Cursor

/-! ### Documents that are written -/

/-- The items of each value are among the items of a list. -/
theorem Separated.exists_subset {α : Type} {separates : List Item → Prop}
    {writes : α → List Item → Prop} {values : List α} {items : List Item} {value : α}
    (hvalues : Separated separates writes values items) (hmem : value ∈ values) :
    ∃ own, writes value own ∧ own ⊆ items := by
  induction hvalues with
  | one hvalue =>
    obtain rfl := List.mem_singleton.1 hmem
    exact ⟨_, hvalue, List.Subset.refl _⟩
  | more hvalue _ _ ih =>
    rcases List.mem_cons.1 hmem with rfl | hrest
    · exact ⟨_, hvalue, List.subset_append_left _ _⟩
    · obtain ⟨own, hwrites, hsubset⟩ := ih hrest
      exact ⟨own, hwrites, fun item hitem ↦ by simp [hsubset hitem]⟩

theorem Separated.ne_nil {α : Type} {separates : List Item → Prop}
    {writes : α → List Item → Prop} {values : List α} {items : List Item}
    (hvalues : Separated separates writes values items) : values ≠ [] := by
  cases hvalues <;> simp

theorem FieldLines.tail_subset {tail block : List Item} {fields : List Field}
    (hblock : FieldLines tail fields block) : tail ⊆ block := by
  induction hblock with
  | nil => exact List.Subset.refl _
  | line count _ ih => exact fun item hitem ↦ by simp [ih hitem]
  | beforeBrace _ _ ih => exact fun item hitem ↦ by simp [ih hitem]

theorem FieldLines.items_subset {tail block : List Item} {fields : List Field} {field : Field}
    (hblock : FieldLines tail fields block) (hmem : field ∈ fields) : field.items ⊆ block := by
  induction hblock with
  | nil => simp at hmem
  | line count _ ih =>
    rcases List.mem_cons.1 hmem with rfl | hrest
    · exact List.subset_append_left _ _
    · exact fun item hitem ↦ by simp [ih hrest hitem]
  | beforeBrace _ _ ih =>
    rcases List.mem_cons.1 hmem with rfl | hrest
    · exact List.subset_append_left _ _
    · exact fun item hitem ↦ by simp [ih hrest hitem]

theorem Field.wellFormed_of_valid {field : Field} (hvalid : ∀ item ∈ field.items, item.Valid) :
    field.WellFormed where
  name := hvalid (.symbol field.name) (by simp [items])
  type := hvalid (.symbol field.type) (by simp [items])
  initial := fun text htext ↦ hvalid (.initial text) (by simp_all [items])

/-- No field of a primary key has a default. -/
theorem Separated.initial_eq_none {fields : List Field} {key rest : List Item}
    {cursor stop : Cursor} (hkey : Separated IsComma (fun field own ↦ own = field.items) fields key)
    (hspells : cursor.Spells (key ++ .mark .closeParen :: rest) stop) :
    ∀ field ∈ fields, field.initial = none := by
  induction hkey generalizing cursor with
  | one hfield =>
    subst hfield
    simpa using hspells.initial_eq_none (by simp)
  | more hfield hcomma _ ih =>
    subst hfield hcomma
    simp only [List.append_assoc] at hspells
    obtain ⟨middle, -, -, hrest⟩ := Cursor.spells_append.1 hspells
    simpa using ⟨hspells.initial_eq_none (by simp), ih hrest⟩

section Written

variable {cursor stop : Cursor} {items : List Item}

theorem TableDefinition.Written.wellFormed {definition : TableDefinition}
    (hwritten : definition.Written items) (hspells : cursor.Spells items stop) :
    definition.WellFormed := by
  have hvalid := hspells.valid
  obtain ⟨key, before, gap, clause, after, block, hkey, hclause, hblock, rfl⟩ := hwritten
  obtain ⟨-, -, hkeySpells⟩ := hspells
  refine ⟨hvalid (.symbol definition.name) (by simp), hkey.ne_nil, fun field hmem ↦ ⟨?_, ?_⟩,
    fun field hmem ↦ ?_, fun names hnames ↦ ?_⟩
  · obtain ⟨own, rfl, hsubset⟩ := hkey.exists_subset hmem
    exact Field.wellFormed_of_valid fun item hitem ↦ hvalid item (by simp [hsubset hitem])
  · exact hkey.initial_eq_none hkeySpells field hmem
  · have hsubset := hblock.items_subset hmem
    exact Field.wellFormed_of_valid fun item hitem ↦ hvalid item (by simp [hsubset hitem])
  · rw [hnames] at hclause
    obtain ⟨_, body, _, hbody, rfl⟩ := hclause
    refine ⟨hbody.ne_nil, fun name hmem ↦ ?_⟩
    obtain ⟨own, rfl, hsubset⟩ := hbody.exists_subset hmem
    have hitem : Item.symbol name ∈ body := hsubset (by simp)
    have htail := hblock.tail_subset (by simp [hitem] : Item.symbol name ∈ _)
    exact hvalid (.symbol name) (by simp [htail])

theorem Relation.Written.wellFormed {relation : Relation} (hwritten : relation.Written items)
    (hspells : cursor.Spells items stop) : relation.WellFormed := by
  have hvalid := hspells.valid
  obtain ⟨dash, before, gap, block, hleft, hright, -, hblock, rfl⟩ := hwritten
  refine ⟨⟨hvalid (.symbol relation.left.symbol) (by simp), hleft⟩,
    ⟨hvalid (.symbol relation.right.symbol) (by simp), hright⟩, fun field hmem ↦ ?_⟩
  have hsubset := hblock.items_subset hmem
  exact Field.wellFormed_of_valid fun item hitem ↦ hvalid item (by simp [hsubset hitem])

theorem Statement.Written.wellFormed {statement : Statement} (hwritten : statement.Written items)
    (hspells : cursor.Spells items stop) : statement.WellFormed := by
  cases statement with
  | table definition => exact TableDefinition.Written.wellFormed hwritten hspells
  | relation sides => exact Relation.Written.wellFormed hwritten hspells

end Written

/-- Each statement of a list is spelled somewhere. -/
theorem Separated.exists_spells {α : Type} {separates : List Item → Prop}
    {writes : α → List Item → Prop} {values : List α} {items : List Item} {value : α}
    {cursor stop : Cursor} (hvalues : Separated separates writes values items)
    (hspells : cursor.Spells items stop) (hmem : value ∈ values) :
    ∃ own, ∃ start last : Cursor, writes value own ∧ start.Spells own last := by
  induction hvalues generalizing cursor with
  | one hvalue =>
    obtain rfl := List.mem_singleton.1 hmem
    exact ⟨_, cursor, stop, hvalue, hspells⟩
  | more hvalue _ _ ih =>
    obtain ⟨middle, hown, hrest⟩ := Cursor.spells_append.1 hspells
    obtain ⟨next, -, hrest⟩ := Cursor.spells_append.1 hrest
    rcases List.mem_cons.1 hmem with rfl | hmem
    · exact ⟨_, cursor, middle, hvalue, hown⟩
    · exact ih hrest hmem

/-- A text writes none but well formed documents. -/
theorem Document.WrittenAs.wellFormed {document : Document} {source : String}
    (hwritten : document.WrittenAs source) : document.WellFormed := by
  obtain ⟨items, hreads, before, body, after, hbody, rfl⟩ := hwritten
  obtain ⟨stop, hspells, -⟩ := reads_iff.1 hreads
  obtain ⟨start, -, hspells⟩ := Cursor.spells_append.1 hspells
  obtain ⟨last, hspells, -⟩ := Cursor.spells_append.1 hspells
  intro statement hmem
  rcases hbody with ⟨hnil, -⟩ | hbody
  · simp [hnil] at hmem
  · obtain ⟨own, first, next, hstatement, hown⟩ := hbody.exists_spells hspells hmem
    exact hstatement.wellFormed hown

end SchemaCompiler
