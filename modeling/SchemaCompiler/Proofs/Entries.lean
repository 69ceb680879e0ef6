import Mathlib.Data.List.Forall2
import Mathlib.Data.List.Nodup
import SchemaCompiler.Ordered

/-!
# Entries of ordered maps

A key of an ordered map has one entry, so that looking up a key and finding its entry are the same
thing (`get?_eq_some_iff`). With that, what an insertion or a change does to the look-ups is also
what it does to the entries. The same holds of any list whose keys do not repeat (`filter_key_eq`).

The last part carries an invariant through a fold that may fail (`foldlM_ok_invariant`): the passes
that build a schema are such folds. Steps that do not depend on one another succeed together if each
does (`mapM_eq_ok_iff`), and otherwise the first that does not says why (`mapM_eq_error_iff`).
-/

set_option autoImplicit false
set_option relaxedAutoImplicit false

namespace SchemaCompiler

namespace OrderedMap

variable {Value : Type} {map : OrderedMap Value} {key : String} {value : Value}

theorem mem_of_get?_eq_some (hget : map.get? key = some value) : (key, value) ∈ map.entries := by
  obtain ⟨entry, hfound, rfl⟩ := Option.map_eq_some_iff.mp hget
  have hkey : entry.1 = key := by simpa using List.find?_some hfound
  rw [← hkey]
  exact List.mem_of_find?_eq_some hfound

theorem get?_eq_some_of_mem (hmember : (key, value) ∈ map.entries) : map.get? key = some value := by
  cases hget : map.get? key with
  | none =>
    exact absurd (List.mem_map_of_mem hmember) (not_mem_keys_of_get?_eq_none hget)
  | some other =>
    have hother := mem_of_get?_eq_some hget
    have hsame := List.inj_on_of_nodup_map map.nodup hmember hother rfl
    rw [← (Prod.mk.inj hsame).2]

/-- Looking up a key finds its entry. -/
theorem get?_eq_some_iff : map.get? key = some value ↔ (key, value) ∈ map.entries :=
  ⟨mem_of_get?_eq_some, get?_eq_some_of_mem⟩

theorem mem_values_iff : value ∈ map.values ↔ ∃ name, map.get? name = some value := by
  simp only [values, List.mem_map, get?_eq_some_iff]
  constructor
  · rintro ⟨entry, hentry, rfl⟩
    exact ⟨entry.1, hentry⟩
  · rintro ⟨name, hentry⟩
    exact ⟨(name, value), hentry, rfl⟩

theorem get?_ne_none_iff : map.get? key ≠ none ↔ key ∈ map.entries.map Prod.fst := by
  constructor
  · intro hsome
    obtain ⟨value, hvalue⟩ := Option.ne_none_iff_exists'.mp hsome
    exact List.mem_map_of_mem (mem_of_get?_eq_some hvalue)
  · intro hmember hnone
    exact not_mem_keys_of_get?_eq_none hnone hmember

/-- A map is its entries. -/
theorem eq_of_entries_eq {first second : OrderedMap Value}
    (hentries : first.entries = second.entries) : first = second := by
  cases first
  cases second
  congr

/-- Look-ups do not depend on the order of the entries. -/
theorem get?_eq_of_perm {first second : OrderedMap Value}
    (hperm : first.entries.Perm second.entries) (key : String) :
    first.get? key = second.get? key := by
  ext value
  rw [get?_eq_some_iff, get?_eq_some_iff, hperm.mem_iff]

theorem contains_eq_false_iff : map.contains key = false ↔ map.get? key = none := by
  simp [contains]

theorem entries_insert_of_get?_eq_none (hnone : map.get? key = none) :
    (map.insert key value).entries = map.entries ++ [(key, value)] := by
  rw [insert, dif_pos hnone]

theorem get?_insert_eq_none_iff {other : String} :
    (map.insert key value).get? other = none ↔ other ≠ key ∧ map.get? other = none := by
  rw [get?_insert]
  by_cases hother : other = key
  · simp [hother]
  · simp [hother]

/-- A key is free after a number of insertions exactly if it was and none of them took it. -/
theorem get?_foldl_insert_eq_none_iff {Item : Type} {name : Item → String} {content : Item → Value}
    {items : List Item} :
    (items.foldl (fun map item ↦ map.insert (name item) (content item)) map).get? key = none ↔
      map.get? key = none ∧ key ∉ items.map name := by
  induction items generalizing map with
  | nil => simp
  | cons item rest ih =>
    rw [List.foldl_cons, ih, get?_insert_eq_none_iff, List.map_cons, List.mem_cons, not_or]
    exact and_right_comm.trans and_comm

/-- Insertions under new keys add their entries in turn. -/
theorem entries_foldl_insert {Item : Type} {name : Item → String} {content : Item → Value}
    {items : List Item} (hnodup : (items.map name).Nodup)
    (hfree : ∀ item ∈ items, map.get? (name item) = none) :
    (items.foldl (fun map item ↦ map.insert (name item) (content item)) map).entries =
      map.entries ++ items.map fun item ↦ (name item, content item) := by
  induction items generalizing map with
  | nil => simp
  | cons item rest ih =>
    rw [List.map_cons, List.nodup_cons] at hnodup
    rw [List.forall_mem_cons] at hfree
    have hnext : ∀ other ∈ rest, (map.insert (name item) (content item)).get? (name other) =
        none := by
      intro other hother
      refine get?_insert_eq_none_iff.mpr ⟨fun hsame ↦ hnodup.1 ?_, hfree.2 other hother⟩
      exact hsame ▸ List.mem_map_of_mem hother
    rw [List.foldl_cons, ih hnodup.2 hnext, entries_insert_of_get?_eq_none hfree.1,
      List.append_assoc]
    rfl

end OrderedMap

/-! ### Searching by keys -/

/-- A key that none of some items has is not found among them. -/
theorem key_beq_eq_false {Item Key : Type} [BEq Key] [LawfulBEq Key] {key : Item → Key}
    {items : List Item} {wanted : Key} (hnone : wanted ∉ items.map key) :
    ∀ item ∈ items, ¬ (key item == wanted) = true := by
  intro item hitem hsame
  rw [← beq_iff_eq.mp hsame] at hnone
  exact hnone (List.mem_map_of_mem hitem)

/-- Where keys do not repeat, the items with a key are the first one that has it. -/
theorem filter_key_eq {Item Key : Type} [BEq Key] [LawfulBEq Key] {key : Item → Key}
    {items : List Item} (hnodup : (items.map key).Nodup) (wanted : Key) :
    items.filter (fun item ↦ key item == wanted) =
      (items.find? fun item ↦ key item == wanted).toList := by
  induction items with
  | nil => rfl
  | cons item rest ih =>
    rw [List.map_cons, List.nodup_cons] at hnodup
    by_cases hkey : key item = wanted
    · have hrest : rest.filter (fun other ↦ key other == wanted) = [] :=
        List.filter_eq_nil_iff.mpr (key_beq_eq_false (hkey ▸ hnodup.1))
      simp [hkey, hrest]
    · simp [hkey, ih hnodup.2]

/-! ### Folds that may fail -/

theorem bind_eq_ok_iff {Fault Item Result : Type} {first : Except Fault Item}
    {next : Item → Except Fault Result} {result : Result} :
    first >>= next = .ok result ↔ ∃ item, first = .ok item ∧ next item = .ok result := by
  cases first with
  | ok item =>
    constructor
    · intro hnext
      exact ⟨item, rfl, hnext⟩
    · rintro ⟨_, ⟨⟩, hnext⟩
      exact hnext
  | error fault =>
    constructor
    · intro hnext
      cases hnext
    · rintro ⟨_, ⟨⟩, _⟩

theorem bind_eq_error_iff {Fault Item Result : Type} {first : Except Fault Item}
    {next : Item → Except Fault Result} {fault : Fault} :
    first >>= next = .error fault ↔
      first = .error fault ∨ ∃ item, first = .ok item ∧ next item = .error fault := by
  cases first with
  | ok item =>
    constructor
    · intro hnext
      exact Or.inr ⟨item, rfl, hnext⟩
    · rintro (hfirst | ⟨_, ⟨⟩, hnext⟩)
      · cases hfirst
      · exact hnext
  | error other =>
    constructor
    · intro hfirst
      cases hfirst
      exact Or.inl rfl
    · rintro (hfirst | ⟨_, hfirst, -⟩) <;> cases hfirst
      rfl

theorem exists_of_isOk {Fault Item : Type} {result : Except Fault Item}
    (hok : result.isOk = true) : ∃ item, result = .ok item := by
  cases result with
  | ok item => exact ⟨item, rfl⟩
  | error fault => cases hok

theorem toOption_eq_some_iff {Fault Value : Type} {result : Except Fault Value} {value : Value} :
    result.toOption = some value ↔ result = .ok value := by
  cases result <;> simp [Except.toOption]

/-- What every successful step keeps, a successful fold keeps. -/
theorem foldlM_ok_invariant {Fault State Item : Type} {step : State → Item → Except Fault State}
    (holds : State → Prop)
    (hstep : ∀ state item next, holds state → step state item = .ok next → holds next) :
    ∀ (items : List Item) (first last : State), holds first →
      items.foldlM step first = .ok last → holds last := by
  intro items
  induction items with
  | nil =>
    intro first last hfirst hfold
    cases hfold
    exact hfirst
  | cons item rest ih =>
    intro first last hfirst hfold
    rw [List.foldlM_cons] at hfold
    obtain ⟨next, hnext, hrest⟩ := bind_eq_ok_iff.mp hfold
    exact ih next last (hstep first item next hfirst hnext) hrest

/-! ### Steps that may fail -/

theorem mapM_eq_ok_iff {Fault Item Result : Type} {step : Item → Except Fault Result}
    {items : List Item} {results : List Result} :
    items.mapM step = .ok results ↔
      List.Forall₂ (fun item result ↦ step item = .ok result) items results := by
  induction items generalizing results with
  | nil => simp [pure, Except.pure, @eq_comm _ _ results]
  | cons item rest ih =>
    rw [List.mapM_cons, bind_eq_ok_iff, List.forall₂_cons_left_iff]
    refine exists_congr fun first ↦ ?_
    rw [bind_eq_ok_iff, ← exists_and_left]
    refine exists_congr fun others ↦ ?_
    rw [ih]
    simp [pure, Except.pure, @eq_comm _ _ results]

/-- Steps fail exactly if one of them does after all before it succeeded. -/
theorem mapM_eq_error_iff {Fault Item Result : Type} {step : Item → Except Fault Result}
    {items : List Item} {fault : Fault} :
    items.mapM step = .error fault ↔ ∃ before item after, items = before ++ item :: after ∧
      (∀ other ∈ before, ∃ result, step other = .ok result) ∧ step item = .error fault := by
  constructor
  · intro hall
    induction items with
    | nil => cases hall
    | cons first rest ih =>
      rw [List.mapM_cons, bind_eq_error_iff] at hall
      rcases hall with hfirst | ⟨result, hresult, hrest⟩
      · exact ⟨[], first, rest, rfl, by simp, hfirst⟩
      · rcases bind_eq_error_iff.mp hrest with hrest | ⟨results, -, ⟨⟩⟩
        obtain ⟨before, item, after, rfl, hbefore, hitem⟩ := ih hrest
        exact ⟨first :: before, item, after, rfl,
          List.forall_mem_cons.mpr ⟨⟨result, hresult⟩, hbefore⟩, hitem⟩
  · rintro ⟨before, item, after, rfl, hbefore, hitem⟩
    induction before with
    | nil =>
      rw [List.nil_append, List.mapM_cons, hitem]
      rfl
    | cons first rest ih =>
      obtain ⟨⟨result, hresult⟩, hrest⟩ := List.forall_mem_cons.mp hbefore
      rw [List.cons_append, List.mapM_cons, hresult, bind_eq_error_iff]
      exact Or.inr ⟨result, rfl, bind_eq_error_iff.mpr (Or.inl (ih hrest))⟩

theorem exists_of_mapM_eq_error {Fault Item Result : Type} {step : Item → Except Fault Result}
    {items : List Item} {fault : Fault} (hall : items.mapM step = .error fault) :
    ∃ item ∈ items, step item = .error fault := by
  obtain ⟨before, item, after, rfl, -, hitem⟩ := mapM_eq_error_iff.mp hall
  exact ⟨item, List.mem_append_right before List.mem_cons_self, hitem⟩

/-- Steps that succeed under a condition, and then with a known result. -/
theorem mapM_eq_ok_map_iff {Fault Item Result : Type} {step : Item → Except Fault Result}
    {fits : Item → Prop} {value : Item → Result} {items : List Item} {results : List Result}
    (hstep : ∀ item ∈ items, ∀ result, step item = .ok result ↔ fits item ∧ result = value item) :
    items.mapM step = .ok results ↔
      (∀ item ∈ items, fits item) ∧ results = items.map value := by
  induction items generalizing results with
  | nil => simp [pure, Except.pure, @eq_comm _ _ results]
  | cons item rest ih =>
    rw [List.forall_mem_cons] at hstep
    rw [List.mapM_cons, bind_eq_ok_iff, List.forall_mem_cons, List.map_cons]
    simp only [hstep.1, bind_eq_ok_iff, ih hstep.2, pure, Except.pure, Except.ok.injEq]
    constructor
    · rintro ⟨_, ⟨hitem, rfl⟩, _, ⟨hrest, rfl⟩, rfl⟩
      exact ⟨⟨hitem, hrest⟩, rfl⟩
    · rintro ⟨⟨hitem, hrest⟩, rfl⟩
      exact ⟨_, ⟨hitem, rfl⟩, _, ⟨hrest, rfl⟩, rfl⟩

theorem mapM_eq_ok_map {Fault Item Result : Type} {step : Item → Except Fault Result}
    {value : Item → Result} {items : List Item}
    (hstep : ∀ item ∈ items, step item = .ok (value item)) :
    items.mapM step = .ok (items.map value) := by
  rw [mapM_eq_ok_iff, List.forall₂_map_right_iff, List.forall₂_same]
  exact hstep

theorem exists_mapM_eq_ok {Fault Item Result : Type} {step : Item → Except Fault Result}
    {items : List Item} (hstep : ∀ item ∈ items, ∃ result, step item = .ok result) :
    ∃ results, items.mapM step = .ok results := by
  cases hall : items.mapM step with
  | ok results => exact ⟨results, rfl⟩
  | error fault =>
    obtain ⟨item, hitem, hfault⟩ := exists_of_mapM_eq_error hall
    obtain ⟨result, hresult⟩ := hstep item hitem
    rw [hresult] at hfault
    cases hfault

/-- What stands on the right of two related lists has a partner on the left. -/
theorem exists_left_of_forall₂ {Item Result : Type} {related : Item → Result → Prop}
    {items : List Item} {results : List Result} (hall : List.Forall₂ related items results)
    {result : Result} (hresult : result ∈ results) : ∃ item ∈ items, related item result := by
  induction hall with
  | nil => cases hresult
  | cons hfirst _ ih =>
    rcases List.mem_cons.mp hresult with rfl | hrest
    · exact ⟨_, List.mem_cons_self, hfirst⟩
    · obtain ⟨item, hitem, hrelated⟩ := ih hrest
      exact ⟨item, List.mem_cons_of_mem _ hitem, hrelated⟩

/-- What stands on the left of two related lists has a partner on the right. -/
theorem exists_right_of_forall₂ {Item Result : Type} {related : Item → Result → Prop}
    {items : List Item} {results : List Result} (hall : List.Forall₂ related items results)
    {item : Item} (hitem : item ∈ items) : ∃ result ∈ results, related item result :=
  exists_left_of_forall₂ (List.Forall₂.flip (R := flip related) hall) hitem

end SchemaCompiler
