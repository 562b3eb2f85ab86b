/-
The script of a level.

`Level.script` writes a level as a script that returns one table, a line per simple field and a
line per element of a list.  Overrides are sorted by name, those of one name keeping their order,
so that the text depends on the order of the record only where names repeat.
-/
import LuaConfig.Script.Dialect
import LuaConfig.Script.Literal

namespace LuaConfig

namespace Script

/-- The text of a field's value: on the line of its key, or as a block with a line per element. -/
inductive Rendition where
  | inline (text : String)
  | block (items : List String)

/-- The lines of a field.  A block without elements stays on one line. -/
def Rendition.lines (name : String) : Rendition → List String
  | inline text => ["  " ++ key name ++ "=" ++ text ++ ","]
  | block [] => ["  " ++ key name ++ "=\x7b\x7d,"]
  | block items =>
    ("  " ++ key name ++ "=\x7b") :: items.map (fun item => "    " ++ item ++ ",") ++ ["  \x7d,"]

/-- The overrides in the order of their names. -/
def sortedOverrides (overrides : List Override) : List Override :=
  overrides.mergeSort fun a b => !decide (b.name < a.name)

/-- An override as an element of its block. -/
def assignment (o : Override) : String :=
  key o.name ++ "=" ++ scalar o.value

/-- The values that a level script can carry, as they are written. -/
def rendition? : (kind : Kind) → kind.Value → Option Rendition
  | .text, s => some (.inline (quoted s))
  | .flag, b => some (.inline (switch b))
  | .number, x => some (.inline (number x))
  | .whole, n => some (.inline (number (Decimal.ofInt n.toInt)))
  | .scalar, v => some (.inline (scalar v))
  | .texts, items => some (.block (items.map quoted))
  | .numbers, items => some (.block (items.map number))
  | .overrides, items => some (.block ((sortedOverrides items).map assignment))
  | .choice, _ => none
  | .limit, _ => none
  | .items, _ => none
  | .options, _ => none

/-- The lines of one field of a record. -/
def fieldLines {ρ : Type} (record : ρ) (field : Field ρ) : List String :=
  match rendition? field.kind (field.get record) with
  | some r => r.lines field.key
  | none => []

end Script

/-- The lines of a level's script. -/
def Level.scriptLines (level : Level) (dialect : Dialect) : List String :=
  "return \x7b" :: dialect.fields.flatMap (Script.fieldLines level) ++ ["\x7d"]

/-- The script of a level: its lines, each ended. -/
def Level.script (level : Level) (dialect : Dialect) : String :=
  String.join ((level.scriptLines dialect).map (· ++ "\n"))

end LuaConfig
