import SchemaCompiler.Code.Plan
import SchemaCompiler.Proofs.WellFormedness

/-!
# Identifiers of symbols

The names of the written code are symbols of the document or follow from them: small letters, keys,
collections and storage names are made of letters and underscores too. A symbol has an identifier,
marked as raw if it is a keyword, unless it is one of the words that stand for a place among modules
(`Plan.identifier_of_isSymbol`); no collection is such a word. The name of a delete procedure is
neither a keyword nor such a word, so that it is always written as it stands
(`Plan.identifier_delete`).
-/

set_option autoImplicit false
set_option relaxedAutoImplicit false

namespace SchemaCompiler

/-! ### Characters -/

/-- The letters by their codes. -/
theorem Text.isAlpha_iff {character : Char} : character.isAlpha = true ↔
    (65 ≤ character.toNat ∧ character.toNat ≤ 90) ∨
      (97 ≤ character.toNat ∧ character.toNat ≤ 122) := by
  have hletter : character.isAlpha =
      (decide ('A'.val ≤ character.val ∧ character.val ≤ 'Z'.val) ||
        (decide ('a'.val ≤ character.val) && decide (character.val ≤ 'z'.val))) := rfl
  rw [hletter]
  simp only [Bool.or_eq_true, Bool.and_eq_true, decide_eq_true_eq, UInt32.le_iff_toNat_le]
  rfl

theorem Text.isAlpha_toLower {character : Char} (halpha : character.isAlpha = true) :
    character.toLower.isAlpha = true := by
  unfold Char.toLower
  split
  next hcapital =>
    have hlow := UInt32.le_iff_toNat_le.mp hcapital.1
    have hhigh := UInt32.le_iff_toNat_le.mp hcapital.2
    rw [isAlpha_iff]
    simp at hlow hhigh ⊢
    omega
  next => exact halpha

theorem isSymbolChar_toLower {character : Char} (hsymbol : isSymbolChar character = true) :
    isSymbolChar character.toLower = true := by
  simp only [isSymbolChar, Bool.or_eq_true, beq_iff_eq] at hsymbol ⊢
  rcases hsymbol with rfl | halpha
  · exact Or.inl (by decide)
  · exact Or.inr (Text.isAlpha_toLower halpha)

theorem Text.isIdentifierStart_of_isSymbolChar {character : Char}
    (hsymbol : isSymbolChar character = true) : isIdentifierStart character = true := by
  have hcode : character.toNat < 0x80 := by
    simp only [isSymbolChar, Bool.or_eq_true, beq_iff_eq, isAlpha_iff] at hsymbol
    rcases hsymbol with rfl | hcapital | hsmall
    · decide
    · omega
    · omega
  unfold isIdentifierStart
  rw [if_pos hcode, Bool.or_comm]
  exact hsymbol

/-! ### Names -/

/-- A name of letters and underscores, the underscores in any place. -/
def IsWord (name : String) : Prop := ∀ character ∈ name.toList, isSymbolChar character = true

instance (name : String) : Decidable (IsWord name) :=
  decidable_of_iff (name.toList.all isSymbolChar = true) List.all_eq_true

theorem IsSymbol.isWord {name : String} (hname : IsSymbol name.toList) : IsWord name :=
  hname.forall_isSymbolChar

theorem IsWord.append {first second : String} (hfirst : IsWord first) (hsecond : IsWord second) :
    IsWord (first ++ second) := by
  intro character hcharacter
  rw [String.toList_append] at hcharacter
  rcases List.mem_append.mp hcharacter with hmember | hmember
  · exact hfirst character hmember
  · exact hsecond character hmember

theorem IsSymbol.append {first second : String} (hfirst : IsSymbol first.toList)
    (hsecond : IsWord second) : IsSymbol (first ++ second).toList := by
  obtain ⟨letter, body, hlist, hletter, hbody⟩ := hfirst
  refine ⟨letter, body ++ second.toList, ?_, hletter, ?_⟩
  · rw [String.toList_append, hlist, List.cons_append]
  · intro character hcharacter
    rcases List.mem_append.mp hcharacter with hmember | hmember
    · exact hbody character hmember
    · exact hsecond character hmember

namespace Name

theorem isSymbol_lower {symbol : String} (hsymbol : IsSymbol symbol.toList) :
    IsSymbol (lower symbol).toList := by
  obtain ⟨letter, body, hlist, hletter, hbody⟩ := hsymbol
  refine ⟨letter.toLower, body.map Char.toLower, ?_, Text.isAlpha_toLower hletter, ?_⟩
  · rw [lower, Text.lower, hlist, List.map_cons, String.toList_ofList]
  · intro character hcharacter
    obtain ⟨other, hother, rfl⟩ := List.mem_map.mp hcharacter
    exact isSymbolChar_toLower (hbody other hother)

theorem isSymbol_link {left right : String} (hleft : IsSymbol left.toList)
    (hright : IsSymbol right.toList) : IsSymbol (link left right).toList :=
  hleft.append hright.isWord

theorem isSymbol_key {lower : String} (hlower : IsSymbol lower.toList) :
    IsSymbol (key lower).toList := by
  have hend : IsWord "_id" := by decide
  exact hlower.append hend

theorem isSymbol_collection {lower : String} (hlower : IsSymbol lower.toList) :
    IsSymbol (collection lower).toList := by
  have hbody : IsWord "ef_" := by decide
  have hstart : IsSymbol "ref_".toList := ⟨'r', "ef_".toList, by decide, by decide, hbody⟩
  have hend : IsWord "s" := by decide
  exact (hstart.append hlower.isWord).append hend

end Name

/-! ### Storage names -/

namespace Text

theorem mem_of_mem_pieces {separates : Char → Bool} {text piece : List Char} {character : Char}
    (hpiece : piece ∈ pieces separates text) (hcharacter : character ∈ piece) :
    character ∈ text := by
  induction text generalizing piece with
  | nil => simp_all [pieces]
  | cons first rest ih =>
    unfold pieces at hpiece
    split at hpiece
    · rcases List.mem_cons.mp hpiece with rfl | hrest
      · exact absurd hcharacter List.not_mem_nil
      · exact List.mem_cons_of_mem _ (ih hrest hcharacter)
    · split at hpiece
      next hnone =>
        rw [List.mem_singleton.mp hpiece, List.mem_singleton] at hcharacter
        exact List.mem_cons.mpr (Or.inl hcharacter)
      next head others hsome =>
        rcases List.mem_cons.mp hpiece with rfl | hothers
        · rcases List.mem_cons.mp hcharacter with rfl | hhead
          · exact List.mem_cons_self
          · exact List.mem_cons_of_mem _ (ih (hsome ▸ List.mem_cons_self) hhead)
        · exact List.mem_cons_of_mem _ (ih (hsome ▸ List.mem_cons_of_mem _ hothers) hcharacter)

theorem mem_of_mem_caseWords {mode : CaseMode} {current text word : List Char} {character : Char}
    (hword : word ∈ caseWords mode current text) (hcharacter : character ∈ word) :
    character ∈ current ++ text := by
  fun_induction caseWords mode current text with
  | case1 => cases hword
  | case2 mode current last =>
    rw [List.mem_singleton.mp hword] at hcharacter
    exact hcharacter
  | case3 mode current first next rest _ ih =>
    rcases List.mem_cons.mp hword with rfl | hrest
    · grind
    · grind
  | case4 mode current first next rest _ _ ih =>
    rcases List.mem_cons.mp hword with rfl | hrest
    · exact List.mem_append_left _ hcharacter
    · grind
  | case5 mode current first next rest _ _ ih => grind

theorem isSymbolChar_of_mem_intercalate {words : List (List Char)}
    (hwords : ∀ word ∈ words, ∀ character ∈ word, isSymbolChar character = true) :
    ∀ character ∈ "_".toList.intercalate words, isSymbolChar character = true := by
  induction words with
  | nil => simp
  | cons first rest ih =>
    rw [List.forall_mem_cons] at hwords
    cases rest with
    | nil => simpa using hwords.1
    | cons second others =>
      intro character hcharacter
      rw [List.intercalate_cons_cons, List.mem_append, List.mem_append] at hcharacter
      rcases hcharacter with (hfirst | hline) | hothers
      · exact hwords.1 character hfirst
      · have hword : IsWord "_" := by decide
        exact hword character hline
      · exact ih hwords.2 character hothers

/-- Snake case keeps letters and underscores. -/
theorem isWord_snakeCase {text : String} (htext : IsWord text) : IsWord (snakeCase text) := by
  intro character hcharacter
  simp only [snakeCase, String.toList_intercalate, List.map_map] at hcharacter
  refine isSymbolChar_of_mem_intercalate ?_ character hcharacter
  intro small hsmall letter hletter
  obtain ⟨word, hword, rfl⟩ := List.mem_map.mp hsmall
  rw [Function.comp_apply, String.toList_ofList] at hletter
  obtain ⟨capital, hcapital, rfl⟩ := List.mem_map.mp hletter
  obtain ⟨run, hrun, hwords⟩ := List.mem_flatMap.mp hword
  exact isSymbolChar_toLower
    (htext capital (mem_of_mem_pieces hrun (mem_of_mem_caseWords hwords hcapital)))

end Text

theorem Name.isWord_storage {symbol : String} (hsymbol : IsSymbol symbol.toList) :
    IsWord (Name.storage symbol) :=
  Text.isWord_snakeCase hsymbol.isWord

/-! ### Identifiers -/

namespace Target

/-- The identifier of a symbol that has one. -/
def Identifier.word (name : String) : Identifier :=
  ⟨if name ∈ keywords then "r#" ++ name else name⟩

theorem isIdentifierText_of_isSymbol {name : String} (hname : IsSymbol name.toList) :
    isIdentifierText name = true := by
  have hword := hname.isWord
  obtain ⟨letter, body, hlist, -, -⟩ := hname
  unfold IsWord at hword
  rw [hlist, List.forall_mem_cons] at hword
  simp only [isIdentifierText, hlist, Bool.and_eq_true, List.all_eq_true]
  refine ⟨Text.isIdentifierStart_of_isSymbolChar hword.1, fun character hcharacter ↦ ?_⟩
  simp [Text.isIdentifierContinue,
    Text.isIdentifierStart_of_isSymbolChar (hword.2 character hcharacter)]

theorem Identifier.ofName_of_isSymbol {name : String} (hname : IsSymbol name.toList) :
    ofName name = if name ∈ placeWords then .error .refused else .ok (.word name) := by
  have hline : (name == "_") = false := by
    rw [beq_eq_false_iff_ne]
    rintro rfl
    obtain ⟨letter, body, hlist, hletter, -⟩ := hname
    obtain ⟨rfl, -⟩ := List.cons.inj (hlist.symm.trans (by decide : "_".toList = ['_']))
    exact absurd hletter (by decide)
  unfold ofName Identifier.word
  rw [if_pos (isIdentifierText_of_isSymbol hname), hline, Bool.or_false]
  simp only [List.contains_iff_mem]
  split_ifs <;> rfl

end Target

open Target (placeWords)

namespace Name

theorem collection_not_mem_placeWords (lower : String) : collection lower ∉ placeWords := by
  have hstart : ∀ word ∈ placeWords, word.toList.take 4 ≠ "ref_".toList := by decide
  refine fun hmember ↦ hstart _ hmember ?_
  simp [collection]

end Name

namespace Plan

/-- A symbol has an identifier unless it stands for a place among modules. -/
theorem identifier_of_isSymbol {name : String} (hname : IsSymbol name.toList) :
    identifier name = if name ∈ placeWords then .error (.refused (.unusableName name))
      else .ok (.word name) := by
  rw [identifier, Target.Identifier.ofName_of_isSymbol hname]
  split_ifs <;> rfl

/-- Delete procedures are named as they are written. -/
theorem identifier_delete {name : String} (hname : IsWord name) :
    identifier ("delete_" ++ name) = .ok ⟨"delete_" ++ name⟩ := by
  have hbody : IsWord "elete_" := by decide
  have hstart : IsSymbol "delete_".toList := ⟨'d', "elete_".toList, by decide, by decide, hbody⟩
  have htake : ("delete_" ++ name).toList.take 7 = "delete_".toList := by simp
  have hkeyword : ∀ word ∈ Target.keywords, word.toList.take 7 ≠ "delete_".toList := by decide
  have hplace : ∀ word ∈ placeWords, word.toList.take 7 ≠ "delete_".toList := by decide
  rw [identifier_of_isSymbol (hstart.append hname), if_neg fun hmember ↦ hplace _ hmember htake,
    Target.Identifier.word, if_neg fun hmember ↦ hkeyword _ hmember htake]

end Plan

end SchemaCompiler
