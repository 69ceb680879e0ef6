import SchemaCompiler.Text.Case

/-!
# Names that follow from symbols

Tables, link entities, accessors, key columns and sequences are named after the symbols of a
document by fixed rules.
-/

set_option autoImplicit false
set_option relaxedAutoImplicit false

namespace SchemaCompiler.Name

/-- The storage name of a table: `UserItem` is stored as `user_item`. -/
def storage (symbol : String) : String := Text.snakeCase symbol

/-- The small name under which relations know a table: `UserItem` is `useritem`. -/
def lower (symbol : String) : String := Text.lower symbol

/-- The link entity of a relation: `User` and `Item` are linked by `UserItem`. -/
def link (left right : String) : String := left ++ right

/-- The accessor that lists the link rows to a related table: `item` gives `ref_items`. -/
def collection (lower : String) : String := "ref_" ++ lower ++ "s"

/-- The column by which a link entity refers to one of its sides: `user` gives `user_id`. -/
def key (lower : String) : String := lower ++ "_id"

/-- The sequence that a column of a table asks for: `User` gives `user_id_seq`. -/
def sequence (table : String) : String := lower table ++ "_id_seq"

end SchemaCompiler.Name
