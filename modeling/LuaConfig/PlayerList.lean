/-
Lists of players: a text with one name on each line.
-/
import LuaConfig.Text.Blank

namespace LuaConfig.PlayerList

/-- A line without a carriage return at its end. -/
def withoutReturn (line : List Char) : List Char :=
  if line.getLast? = some '\r' then line.dropLast else line

/-- The lines of a text.  A line ends at a line feed, and neither that nor a carriage return right
before it is part of the line; what follows the last line feed is a line unless it is empty. -/
def lines (text : List Char) : List (List Char) :=
  let pieces := text.splitOn '\n'
  let ended := pieces.dropLast.map withoutReturn
  match pieces.getLast? with
  | some (c :: last) => ended ++ [c :: last]
  | _ => ended

/-- The names in a text: its lines without the white space at their ends, empty ones left out. -/
def parse (text : String) : List String :=
  ((lines text.toList).map Text.trim).filterMap fun line =>
    if line.isEmpty then none else some (String.ofList line)

/-- The text of a list of names. -/
def render (names : List String) : String :=
  String.join (names.map (· ++ "\n"))

end LuaConfig.PlayerList
