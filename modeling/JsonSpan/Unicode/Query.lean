import JsonSpan.Unicode.Property
import JsonSpan.Unicode.Script

/-!
# Looking up properties by name

Property names are matched loosely: case, blanks, hyphens and underscores do not count, nor does a
leading `is`. A bare name is looked up as a property, then as a general category, then as a script.
-/

namespace JsonSpan.Unicode

/-- A name as loose matching sees it. -/
def looseName (name : String) : String :=
  let significant (cs : List Char) : List Char :=
    (cs.filter fun c => c != ' ' && c != '_' && c != '-' && c.toNat < 0x80).map Char.toLower
  match name.toList with
  | i :: s :: rest =>
    if (i == 'i' || i == 'I') && (s == 's' || s == 'S') then
      match significant rest with
      | ['c'] => "isc"
      | cs => String.ofList cs
    else String.ofList (significant (i :: s :: rest))
  | cs => String.ofList (significant cs)

/-- The short names that are those of a category and of a property, and mean the category. -/
def isCategoryFirst (name : String) : Bool :=
  name == "cf" || name == "sc" || name == "lc"

/-- The characters that a bare name stands for. -/
def byName? (name : String) : Option CharSet :=
  let name := looseName name
  let property := if isCategoryFirst name then none else property? name
  property <|> category? name <|> script? name

/-- The characters for which a property has a value. Age and the breaks of graphemes, words and
sentences are properties too, but there are no tables for them here, so they count as unknown. -/
def byValue? (property value : String) : Option CharSet :=
  let value := looseName value
  match looseName property with
  | "gc" | "generalcategory" | "category" => category? value
  | "sc" | "script" => script? value
  | "scx" | "scriptextensions" => scriptExtensions? value
  | _ => none

end JsonSpan.Unicode
