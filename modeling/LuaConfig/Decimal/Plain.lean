/-
Plain decimal text of a double: the shortest digits that read back, never with an exponent, and
without a point when the number is whole.
-/
import LuaConfig.Decimal.Shortest

namespace LuaConfig.Decimal

/-- `n` zeros. -/
def zeros (n : Nat) : String :=
  String.ofList (List.replicate n '0')

/-- `digits` with a point before its last `places` characters, zeros being put in front where it
is too short. -/
def withPoint (digits : String) (places : Nat) : String :=
  let padded := (zeros (places + 1 - digits.length) ++ digits).toList
  let whole := padded.length - places
  String.ofList (padded.take whole) ++ "." ++ String.ofList (padded.drop whole)

/-- A decimal without exponent. -/
def Scaled.positional (d : Scaled) : String :=
  let digits := Nat.repr d.digits
  if 0 ≤ d.exponent then digits ++ zeros d.exponent.toNat
  else withPoint digits (-d.exponent).toNat

/-- A minus sign in front of negative numbers. -/
def signed (negative : Bool) (text : String) : String :=
  if negative then "-" ++ text else text

/-- The plain text of a double; of two shortest decimals equally near, the upper one. -/
def plain (x : Float) : String :=
  match Binary64.ofFloat x with
  | .nan => "NaN"
  | .infinite negative => signed negative "inf"
  | .finite negative m q =>
    signed negative (if m = 0 then "0" else (shortest .up m q).positional)

end LuaConfig.Decimal
