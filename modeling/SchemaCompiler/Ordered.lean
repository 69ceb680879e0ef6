/-!
# Maps and sets that keep insertion order

An `OrderedMap` holds its entries in the order in which their keys were first inserted; inserting
under a present key replaces the value and leaves the order alone. An `OrderedSet` is the same idea
without values. Keys never repeat, and that fact is part of both types, so a reader of a map may
treat its entry list as a finite function. `get?_insert`, `get?_modify` and `get?_erase` say what
each operation does to that function, and `keys_insert` what insertion does to the order.
-/

set_option autoImplicit false
set_option relaxedAutoImplicit false

namespace SchemaCompiler

/-- A finite map from names to values that remembers the order of its keys. -/
structure OrderedMap (Value : Type) where
  entries : List (String × Value)
  nodup : (entries.map Prod.fst).Nodup := by simp
deriving Repr, DecidableEq

namespace OrderedMap

variable {Value : Type}

/-- The map without entries. -/
def empty : OrderedMap Value := ⟨[], List.nodup_nil⟩

instance : Inhabited (OrderedMap Value) := ⟨empty⟩

/-- The keys in insertion order. -/
def keys (map : OrderedMap Value) : List String := map.entries.map Prod.fst

/-- The values in the order of their keys. -/
def values (map : OrderedMap Value) : List Value := map.entries.map Prod.snd

/-- The number of entries. -/
def size (map : OrderedMap Value) : Nat := map.entries.length

/-- Whether the map has no entry. -/
def isEmpty (map : OrderedMap Value) : Bool := map.entries.isEmpty

/-- The value under a key. -/
def get? (map : OrderedMap Value) (key : String) : Option Value :=
  (map.entries.find? fun entry ↦ entry.1 == key).map Prod.snd

/-- Whether a key is present. -/
def contains (map : OrderedMap Value) (key : String) : Bool := (map.get? key).isSome

/-- The entries with the value under one key changed. -/
def replaceIn (entries : List (String × Value)) (key : String) (change : Value → Value) :
    List (String × Value) :=
  entries.map fun entry ↦ if entry.1 == key then (entry.1, change entry.2) else entry

theorem map_fst_replaceIn (entries : List (String × Value)) (key : String)
    (change : Value → Value) :
    (replaceIn entries key change).map Prod.fst = entries.map Prod.fst := by
  simp only [replaceIn, List.map_map]
  apply List.map_congr_left
  intro entry _
  simp only [Function.comp_apply]
  split <;> rfl

/-- Changes the value under a key, if the key is present. -/
def modify (map : OrderedMap Value) (key : String) (change : Value → Value) : OrderedMap Value :=
  ⟨replaceIn map.entries key change, by rw [map_fst_replaceIn]; exact map.nodup⟩

theorem not_mem_keys_of_get?_eq_none {map : OrderedMap Value} {key : String}
    (hnone : map.get? key = none) : key ∉ map.entries.map Prod.fst := by
  simp only [get?, Option.map_eq_none_iff, List.find?_eq_none, beq_iff_eq] at hnone
  intro hmember
  obtain ⟨entry, hentry, hkey⟩ := List.mem_map.mp hmember
  exact hnone entry hentry hkey

/-- Sets the value under a key: in place if the key is present, at the end otherwise. -/
def insert (map : OrderedMap Value) (key : String) (value : Value) : OrderedMap Value :=
  if hnone : map.get? key = none then
    ⟨map.entries ++ [(key, value)], by
      simp only [List.map_append, List.map_cons, List.map_nil]
      exact List.nodup_append.mpr ⟨map.nodup, by simp, by
        intro member hmember other hother
        simp only [List.mem_singleton] at hother
        subst hother
        rintro rfl
        exact not_mem_keys_of_get?_eq_none hnone hmember⟩⟩
  else map.modify key fun _ ↦ value

/-- Removes a key and keeps the order of the others. -/
def erase (map : OrderedMap Value) (key : String) : OrderedMap Value :=
  ⟨map.entries.filter fun entry ↦ !(entry.1 == key),
    map.nodup.sublist (List.filter_sublist.map Prod.fst)⟩

/-- Sets the value under a key to a function of the present value, or of `initial` if there is
none. -/
def upsert (map : OrderedMap Value) (key : String) (initial : Value) (change : Value → Value) :
    OrderedMap Value :=
  map.insert key (change ((map.get? key).getD initial))

/-! ### What the operations do to look-ups -/

@[simp] theorem get?_empty (key : String) : (empty : OrderedMap Value).get? key = none := rfl

theorem find?_replaceIn (entries : List (String × Value)) (key other : String)
    (change : Value → Value) :
    ((replaceIn entries key change).find? fun entry ↦ entry.1 == other).map Prod.snd
      = ((entries.find? fun entry ↦ entry.1 == other).map Prod.snd).map
        (if other = key then change else id) := by
  induction entries with
  | nil => rfl
  | cons entry rest ih =>
    simp only [replaceIn, List.map_cons] at ih ⊢
    by_cases hkey : entry.1 = key <;> by_cases hother : entry.1 = other <;> simp_all

theorem get?_modify (map : OrderedMap Value) (key other : String) (change : Value → Value) :
    (map.modify key change).get? other
      = (map.get? other).map (if other = key then change else id) :=
  find?_replaceIn map.entries key other change

theorem get?_insert (map : OrderedMap Value) (key other : String) (value : Value) :
    (map.insert key value).get? other = if other = key then some value else map.get? other := by
  unfold insert
  split
  next hnone =>
    by_cases hother : other = key
    · subst hother
      simp only [get?, Option.map_eq_none_iff] at hnone
      simp [get?, hnone]
    · have hkey : key ≠ other := fun h ↦ hother h.symm
      simp [get?, hother, hkey]
  next hsome =>
    rw [get?_modify]
    by_cases hother : other = key
    · subst hother
      obtain ⟨present, hpresent⟩ := Option.ne_none_iff_exists'.mp hsome
      simp [hpresent]
    · simp [hother]

theorem get?_erase (map : OrderedMap Value) (key other : String) :
    (map.erase key).get? other = if other = key then none else map.get? other := by
  unfold erase get?
  rw [List.find?_filter]
  split
  next hother => subst hother; simp
  next hother =>
    congr 2
    funext entry
    by_cases hentry : entry.1 = other <;> simp_all

theorem keys_insert (map : OrderedMap Value) (key : String) (value : Value) :
    (map.insert key value).keys
      = if map.get? key = none then map.keys ++ [key] else map.keys := by
  unfold insert
  split <;> simp [keys, modify, map_fst_replaceIn]

end OrderedMap

/-- A finite set of names that remembers the order of insertion. -/
structure OrderedSet where
  elements : List String
  nodup : elements.Nodup := by simp
deriving Repr, DecidableEq

namespace OrderedSet

/-- The set without elements. -/
def empty : OrderedSet := ⟨[], List.nodup_nil⟩

instance : Inhabited OrderedSet := ⟨empty⟩

/-- Adds an element at the end unless it is present. -/
def insert (set : OrderedSet) (element : String) : OrderedSet :=
  if hmember : element ∈ set.elements then set
  else ⟨set.elements ++ [element], List.nodup_append.mpr ⟨set.nodup, by simp, by
    intro member hother single hsingle
    simp only [List.mem_singleton] at hsingle
    subst hsingle
    rintro rfl
    exact hmember hother⟩⟩

/-- Removes an element and keeps the order of the others. -/
def erase (set : OrderedSet) (element : String) : OrderedSet :=
  ⟨set.elements.filter fun member ↦ !(member == element), set.nodup.sublist List.filter_sublist⟩

end OrderedSet

/-- A map from ordered pairs of names to names, grouped by the first name. -/
abbrev PairMap := OrderedMap (OrderedMap String)

namespace PairMap

/-- The value under a pair of names. -/
def pair? (map : PairMap) (first second : String) : Option String :=
  (OrderedMap.get? map first).bind fun inner ↦ inner.get? second

/-- Sets the value under a pair of names. -/
def insertPair (map : PairMap) (first second value : String) : PairMap :=
  OrderedMap.upsert map first .empty fun inner ↦ inner.insert second value

/-- Removes a pair; the group of its first name stays, possibly empty. -/
def erasePair (map : PairMap) (first second : String) : PairMap :=
  OrderedMap.modify map first fun inner ↦ inner.erase second

theorem pair?_insertPair (map : PairMap) (first second value : String) (left right : String) :
    (map.insertPair first second value).pair? left right
      = if left = first ∧ right = second then some value else map.pair? left right := by
  unfold pair? insertPair OrderedMap.upsert
  rw [OrderedMap.get?_insert]
  by_cases hleft : left = first
  · subst hleft
    rw [if_pos rfl]
    simp only [Option.bind_some, OrderedMap.get?_insert, true_and]
    split
    · rfl
    · cases OrderedMap.get? map left <;> rfl
  · simp [hleft]

end PairMap

end SchemaCompiler
