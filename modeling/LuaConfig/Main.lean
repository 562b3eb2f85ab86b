/-
The program that reads and writes configuration scripts.
-/
import LuaConfig.CommandLine.Run

open LuaConfig

namespace LuaConfig.CommandLine

/-- The files of the machine that the program runs on. -/
def machineFiles : Files IO where
  read path := do
    try return some (← IO.FS.readFile path) catch _ => return none
  write path text := do
    try IO.FS.writeFile path text; return true catch _ => return false

end LuaConfig.CommandLine

def main (args : List String) : IO UInt32 := do
  let report ← CommandLine.run {} CommandLine.machineFiles args
  (← IO.getStdout).putStr report.stdout
  (← IO.getStderr).putStr report.stderr
  return UInt32.ofNat report.code
