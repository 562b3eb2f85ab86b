import LuaConfig.CommandLine.FileTree
import LuaConfig.CommandLine.Help
import LuaConfig.CommandLine.Run
import LuaConfig.Decimal.Binary64
import LuaConfig.Decimal.Plain
import LuaConfig.Decimal.Reading
import LuaConfig.Decimal.Shortest
import LuaConfig.Json.Codec
import LuaConfig.Json.Document
import LuaConfig.Json.Reader
import LuaConfig.Json.Records
import LuaConfig.Lua.Keyword
import LuaConfig.Main
import LuaConfig.PlayerList
import LuaConfig.Proofs.CommandLine.Arguments
import LuaConfig.Proofs.CommandLine.FileSystem
import LuaConfig.Proofs.CommandLine.Folder
import LuaConfig.Proofs.CommandLine.Generate
import LuaConfig.Proofs.CommandLine.Output
import LuaConfig.Proofs.Decimal.Bits
import LuaConfig.Proofs.Decimal.Integer
import LuaConfig.Proofs.Decimal.Nearest
import LuaConfig.Proofs.Decimal.Plain
import LuaConfig.Proofs.Decimal.Shortest
import LuaConfig.Proofs.Decimal.Whole
import LuaConfig.Proofs.Json.Edit
import LuaConfig.Proofs.Json.Layout
import LuaConfig.Proofs.Json.Number
import LuaConfig.Proofs.Json.Read
import LuaConfig.Proofs.Json.Record
import LuaConfig.Proofs.Json.Refuse
import LuaConfig.Proofs.Json.Skip
import LuaConfig.Proofs.Json.String
import LuaConfig.Proofs.PlayerList
import LuaConfig.Proofs.Record.Field
import LuaConfig.Proofs.Lua.Guards
import LuaConfig.Proofs.Lua.Lexeme
import LuaConfig.Proofs.Lua.Limits
import LuaConfig.Proofs.Lua.Machine
import LuaConfig.Proofs.Lua.Numeral
import LuaConfig.Proofs.Lua.Octets
import LuaConfig.Proofs.Lua.Parse
import LuaConfig.Proofs.Lua.Reader
import LuaConfig.Proofs.Lua.Store
import LuaConfig.Proofs.Lua.Table
import LuaConfig.Proofs.Lua.Token
import LuaConfig.Proofs.Lua.Unwinding
import LuaConfig.Proofs.Lua.Value
import LuaConfig.Proofs.Sandbox.Budget
import LuaConfig.Proofs.Sandbox.Globals
import LuaConfig.Proofs.Sandbox.Guards
import LuaConfig.Proofs.Sandbox.Limits
import LuaConfig.Proofs.Sandbox.Outcome
import LuaConfig.Proofs.Sandbox.Run
import LuaConfig.Proofs.Script.Code
import LuaConfig.Proofs.Script.Coercion
import LuaConfig.Proofs.Script.Described
import LuaConfig.Proofs.Script.Evaluation
import LuaConfig.Proofs.Script.Extent
import LuaConfig.Proofs.Script.Fixpoint
import LuaConfig.Proofs.Script.Footprint
import LuaConfig.Proofs.Script.Layout
import LuaConfig.Proofs.Script.Lines
import LuaConfig.Proofs.Script.Literal
import LuaConfig.Proofs.Script.Lookup
import LuaConfig.Proofs.Script.Metatables
import LuaConfig.Proofs.Script.Number
import LuaConfig.Proofs.Script.Order
import LuaConfig.Proofs.Script.Overrides
import LuaConfig.Proofs.Script.Quoted
import LuaConfig.Proofs.Script.Required
import LuaConfig.Proofs.Script.Reread
import LuaConfig.Proofs.Script.Returned
import LuaConfig.Proofs.Script.RoundTrip
import LuaConfig.Proofs.Script.Strays
import LuaConfig.Proofs.Script.Tokens
import LuaConfig.Proofs.Script.Update
import LuaConfig.Proofs.Script.Whole
import LuaConfig.Record.Basic
import LuaConfig.Record.Field
import LuaConfig.Record.Level
import LuaConfig.Record.ModInfo
import LuaConfig.Record.Scalar
import LuaConfig.Sandbox.Options
import LuaConfig.Script.Dialect
import LuaConfig.Script.Level
import LuaConfig.Script.Literal
import LuaConfig.Text.Blank
import LuaConfig.Text.Utf8
