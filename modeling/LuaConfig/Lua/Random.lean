/-
Random numbers.

The state is four words, from which one step makes the next number.  A state begins with two words
that are given, and is stepped over several times before it is used.
-/
namespace LuaConfig.Lua

/-- The state of the random numbers. -/
structure Random where
  a : UInt64
  b : UInt64
  c : UInt64
  d : UInt64

namespace Random

def rotateLeft (x n : UInt64) : UInt64 := (x <<< n) ||| (x >>> (64 - n))

/-- The next number, and the state after it. -/
def next (r : Random) : UInt64 × Random :=
  let c := r.c ^^^ r.a
  let d := r.d ^^^ r.b
  (rotateLeft (r.b * 5) 7 * 9,
    { a := r.a ^^^ d, b := r.b ^^^ c, c := c ^^^ (r.b <<< 17), d := rotateLeft d 45 })

/-- The state after `n` numbers. -/
def skip : (n : Nat) → Random → Random
  | 0, r => r
  | n + 1, r => skip n r.next.2

/-- The state that two words stand for. -/
def ofSeed (seed : UInt64 × UInt64) : Random := skip 16 ⟨seed.1, 0xff, seed.2, 0⟩

/-- The least number of ones that reaches as far as `n`. -/
def mask (n : UInt64) : UInt64 :=
  let n := n ||| (n >>> 1)
  let n := n ||| (n >>> 2)
  let n := n ||| (n >>> 4)
  let n := n ||| (n >>> 8)
  let n := n ||| (n >>> 16)
  n ||| (n >>> 32)

/-- A number from 0 to `limit`: the given one if it is small enough behind the mask, or else the
first later one that is, `fuel` of them being tried. -/
def project (limit : UInt64) : (fuel : Nat) → (bits : UInt64) → Random → UInt64 × Random
  | 0, bits, r => (bits % (limit + 1), r)
  | fuel + 1, bits, r =>
    let bits := bits &&& mask limit
    if bits ≤ limit then (bits, r)
    else
      let (bits, r) := r.next
      project limit fuel bits r

end Random

end LuaConfig.Lua
