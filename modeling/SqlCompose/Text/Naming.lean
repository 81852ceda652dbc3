/-!
# Naming rules for columns
-/

namespace SqlCompose.Naming

/-- One character of a snake-case name: a capital letter from `A` to `Z` becomes an underscore and
its small letter, and every other character stays. -/
def snakeChar (c : Char) : List Char :=
  if c.isUpper then ['_', c.toLower] else [c]

/-- The snake-case name of a camel-case field. -/
def snakeCase (field : String) : String :=
  String.ofList (field.toList.flatMap snakeChar)

end SqlCompose.Naming
