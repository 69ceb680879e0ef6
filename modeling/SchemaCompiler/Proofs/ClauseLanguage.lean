import Mathlib.Data.List.TakeWhile
import SchemaCompiler.Command.Clause
import SchemaCompiler.Proofs.Entries

/-!
# The language of import clauses

The trailing arguments of a command are lines up to the first word `import`, and the words of all
later arguments form clauses. `Import.splitTrailing` succeeds exactly if these words, without
further words `import`, are one clause or more after another, and answers with what they say
(`splitTrailing_reads_clauses`). So it does not matter how the words are spread over arguments, and
imports that are written as one argument each are read back.

The words of a text are found at its blanks: a blank divides the words before it from those after it
(`Text.words_append_blank`), and all that is said of words here follows from this equation.
-/

set_option autoImplicit false
set_option relaxedAutoImplicit false

namespace SchemaCompiler

/-! ### Words -/

namespace Text

variable {separates : Char → Bool}

theorem pieces_ne_nil (separates : Char → Bool) (text : List Char) :
    pieces separates text ≠ [] := by
  cases text with
  | nil => simp [pieces]
  | cons character rest =>
    by_cases hseparates : separates character = true
    · simp [pieces, hseparates]
    · simp only [pieces, hseparates]
      cases pieces separates rest <;> simp

/-- A separator divides the pieces before it from those after it. -/
theorem pieces_append_cons {character : Char} (hseparates : separates character = true)
    (before after : List Char) :
    pieces separates (before ++ character :: after) =
      pieces separates before ++ pieces separates after := by
  induction before with
  | nil => simp [pieces, hseparates]
  | cons first before ih =>
    obtain ⟨piece, others, hpieces⟩ := List.exists_cons_of_ne_nil (pieces_ne_nil separates before)
    by_cases hfirst : separates first = true <;> simp [pieces, hfirst, ih, hpieces]

theorem pieces_eq_singleton {text : List Char}
    (htext : ∀ character ∈ text, separates character = false) : pieces separates text = [text] := by
  induction text with
  | nil => rfl
  | cons character rest ih =>
    obtain ⟨hfirst, hrest⟩ := List.forall_mem_cons.mp htext
    simp [pieces, hfirst, ih hrest]

/-- A blank divides the words before it from those after it. -/
theorem words_append_blank {character : Char} (hblank : isBlank character = true)
    (before after : List Char) :
    words (before ++ character :: after) = words before ++ words after := by
  rw [words, pieces_append_cons hblank, List.filter_append]
  rfl

/-- A text without blanks is one word, unless it is empty. -/
theorem words_eq_singleton {text : List Char} (hne : text ≠ [])
    (htext : ∀ character ∈ text, isBlank character = false) : words text = [text] := by
  simp [words, pieces_eq_singleton htext, hne]

end Text

/-- A word: a text that is not empty and has no blanks. -/
def IsUnbroken (word : String) : Prop :=
  word ≠ "" ∧ ∀ character ∈ word.toList, Text.isBlank character = false

instance : DecidablePred IsUnbroken := fun word ↦
  decidable_of_iff (word ≠ "" ∧ word.toList.all (fun character ↦ !Text.isBlank character) = true)
    (by simp [IsUnbroken])

namespace Import

/-- The words of an argument. -/
def wordsIn (argument : String) : List String := (Text.words argument.toList).map String.ofList

/-- The words of a clause. -/
def clause (item : Import) : List String := [item.name, "from", item.module]

/-- A clause in one argument. -/
def sentence (item : Import) : String := item.name ++ " " ++ "from" ++ " " ++ item.module

theorem wordsIn_eq_singleton {word : String} (hword : IsUnbroken word) : wordsIn word = [word] := by
  rw [wordsIn, Text.words_eq_singleton (by simpa using hword.1) hword.2, List.map_singleton,
    String.ofList_toList]

theorem wordsIn_append_blank (before after : String) :
    wordsIn (before ++ " " ++ after) = wordsIn before ++ wordsIn after := by
  have hwords := @Text.words_append_blank ' ' (by decide) before.toList after.toList
  simp [wordsIn, hwords]

theorem clauseWords_eq (arguments : List String) :
    clauseWords arguments = (arguments.flatMap wordsIn).filter (· != keyword) :=
  rfl

/-! ### Clauses -/

/-- Words are read as imports exactly if they are the words of their clauses. -/
theorem ofWords_eq_ok_iff {words : List String} {imports : List Import} :
    ofWords words = .ok imports ↔ words = imports.flatMap clause := by
  fun_induction ofWords words generalizing imports with
  | case1 => cases imports <;> simp [clause]
  | case2 name module rest ih =>
    cases imports with
    | nil => cases ofWords rest <;> simp [Except.map]
    | cons item others =>
      obtain ⟨ownName, ownModule⟩ := item
      have hothers := @ih others
      cases hrest : ofWords rest <;> simp_all [Except.map, clause, and_assoc]
  | case3 name rest hincomplete =>
    cases imports with
    | nil => simp
    | cons item others => simp_all [clause]

variable {lines rest : List String} {first : String}

/-- Arguments without the word `import` are lines. -/
theorem splitTrailing_of_lines (hlines : ∀ line ∈ lines, isKeyword line = false) :
    splitTrailing lines = .ok (lines, []) := by
  have hbefore : ∀ line ∈ lines, (!isKeyword line) = true := by simpa using hlines
  rw [splitTrailing, List.dropWhile_eq_nil_iff.mpr hbefore, List.takeWhile_eq_self_iff.mpr hbefore]

/-- After the first word `import`, only the words of clauses count. -/
theorem splitTrailing_of_keyword (hlines : ∀ line ∈ lines, isKeyword line = false)
    (hfirst : isKeyword first = true) :
    splitTrailing (lines ++ first :: rest) = (do
      let imports ← ofWords (clauseWords rest)
      if imports.isEmpty then throw .none else return (lines, imports)) := by
  have hbefore : ∀ line ∈ lines, (!isKeyword line) = true := by simpa using hlines
  rw [splitTrailing, List.takeWhile_append_of_pos hbefore, List.dropWhile_append_of_pos hbefore]
  simp [hfirst]

theorem splitTrailing_eq_ok_iff (hlines : ∀ line ∈ lines, isKeyword line = false)
    (hfirst : isKeyword first = true) {found : List String} {imports : List Import} :
    splitTrailing (lines ++ first :: rest) = .ok (found, imports) ↔
      found = lines ∧ imports ≠ [] ∧ clauseWords rest = imports.flatMap clause := by
  rw [splitTrailing_of_keyword hlines hfirst, bind_eq_ok_iff]
  simp only [ofWords_eq_ok_iff]
  constructor
  · rintro ⟨read, hread, hanswer⟩
    split at hanswer
    · cases hanswer
    · next hsome =>
      cases hanswer
      exact ⟨rfl, by simpa using hsome, hread⟩
  · rintro ⟨rfl, hsome, hread⟩
    refine ⟨imports, hread, ?_⟩
    rw [if_neg (by simpa using hsome)]
    rfl

/-! ### Imports that are written -/

theorem wordsIn_sentence {item : Import} (hname : IsUnbroken item.name)
    (hmodule : IsUnbroken item.module) : wordsIn item.sentence = item.clause := by
  have hfrom : wordsIn "from" = ["from"] := wordsIn_eq_singleton (by decide)
  rw [sentence, wordsIn_append_blank, wordsIn_append_blank, wordsIn_eq_singleton hname, hfrom,
    wordsIn_eq_singleton hmodule]
  rfl

/-- An import that can be written: its name and its module are words other than `import`. -/
structure Writable (item : Import) : Prop where
  name : IsUnbroken item.name ∧ item.name ≠ keyword
  module : IsUnbroken item.module ∧ item.module ≠ keyword

theorem clauseWords_sentences {imports : List Import} (himports : ∀ item ∈ imports, item.Writable) :
    clauseWords (imports.map sentence) = imports.flatMap clause := by
  have hwords : (imports.map sentence).flatMap wordsIn = imports.flatMap clause := by
    rw [List.flatMap_map]
    refine List.flatMap_congr fun item hitem ↦ ?_
    exact wordsIn_sentence (himports item hitem).name.1 (himports item hitem).module.1
  rw [clauseWords_eq, hwords, List.filter_eq_self]
  intro word hword
  obtain ⟨item, hitem, hmember⟩ := List.mem_flatMap.mp hword
  have hwritable := himports item hitem
  simp only [clause, List.mem_cons, List.not_mem_nil, or_false] at hmember
  rcases hmember with rfl | rfl | rfl
  · simpa using hwritable.name.2
  · decide
  · simpa using hwritable.module.2

/-- The trailing arguments are lines and clauses. Without the word `import` all of them are lines.
After the first word `import`, the words of the later arguments, further words `import` left out,
must be the words of one clause or more, and say what is imported. How the words are spread over the
arguments does not matter, and imports that are written one an argument are read back. -/
theorem splitTrailing_reads_clauses :
    (∀ lines, (∀ line ∈ lines, isKeyword line = false) → splitTrailing lines = .ok (lines, [])) ∧
    (∀ lines first rest, (∀ line ∈ lines, isKeyword line = false) → isKeyword first = true →
      (∀ found imports, splitTrailing (lines ++ first :: rest) = .ok (found, imports) ↔
        found = lines ∧ imports ≠ [] ∧
          (rest.flatMap wordsIn).filter (· != "import") = imports.flatMap clause) ∧
      ∀ others, others.flatMap wordsIn = rest.flatMap wordsIn →
        splitTrailing (lines ++ first :: others) = splitTrailing (lines ++ first :: rest)) ∧
    ∀ lines imports, (∀ line ∈ lines, isKeyword line = false) → imports ≠ [] →
      (∀ item ∈ imports, item.Writable) →
        splitTrailing (lines ++ "import" :: imports.map sentence) = .ok (lines, imports) := by
  refine ⟨fun lines ↦ splitTrailing_of_lines, fun lines first rest hlines hfirst ↦
    ⟨fun found imports ↦ splitTrailing_eq_ok_iff hlines hfirst, fun others hothers ↦ ?_⟩,
    fun lines imports hlines hsome himports ↦ ?_⟩
  · have hwords : clauseWords others = clauseWords rest := by
      rw [clauseWords_eq, clauseWords_eq, hothers]
    rw [splitTrailing_of_keyword hlines hfirst, splitTrailing_of_keyword hlines hfirst, hwords]
  · rw [splitTrailing_eq_ok_iff hlines (by decide +kernel)]
    exact ⟨rfl, hsome, clauseWords_sentences himports⟩

/-- Two imports, the first of which has the word between name and module for its name. -/
def borrowed : List Import := [⟨"from", "a.b"⟩, ⟨"Sex", "m"⟩]

theorem splitTrailing_reads_clauses_borrowed :
    splitTrailing ["x", "imports"] = .ok (["x", "imports"], []) ∧
    splitTrailing (["x"] ++ "\timport " :: ["from from", "a.b import Sex", " from m"]) =
      .ok (["x"], borrowed) ∧
    splitTrailing (["x"] ++ "\timport " :: ["from", "from a.b", "import", "Sex from m"]) =
      splitTrailing (["x"] ++ "\timport " :: ["from from", "a.b import Sex", " from m"]) ∧
    splitTrailing (["x"] ++ "import" :: borrowed.map sentence) = .ok (["x"], borrowed) := by
  obtain ⟨hlines, hclauses, hwritten⟩ := splitTrailing_reads_clauses
  have hline : ∀ line ∈ ["x"], isKeyword line = false := by decide +kernel
  obtain ⟨hread, hspread⟩ := hclauses ["x"] "\timport " ["from from", "a.b import Sex", " from m"]
    hline (by decide +kernel)
  have hwritable : ∀ item ∈ borrowed, item.Writable := by
    simp only [borrowed, List.forall_mem_cons]
    refine ⟨⟨by decide, by decide⟩, ⟨by decide, by decide⟩, List.forall_mem_nil _⟩
  refine ⟨hlines _ (by decide +kernel), (hread _ _).mpr ⟨rfl, by decide, by decide +kernel⟩,
    hspread _ (by decide +kernel), hwritten _ _ hline (by decide) hwritable⟩

end Import

end SchemaCompiler
