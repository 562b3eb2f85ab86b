/-
Decimal text with a chosen number of digits.

`Layout` has three members: with a fixed number of digits behind the point, with one digit before
the point and an exponent, and the general one, which takes either form by the size of the number
and leaves out zeros at the end.  The number is exact until it is rounded, a half going to the even
digit.
-/
import LuaConfig.Decimal.Plain

namespace LuaConfig.Decimal

-- powers are the built-in ones
attribute [local instance (2000)] instPowNat

/-- How the digits of a number are laid out. -/
inductive Layout where
  | fixed
  | scientific
  | general
  deriving DecidableEq, Repr

/-- `m · 2 ^ q · 10 ^ places` rounded to a natural number. -/
def scaledRound (m : Nat) (q places : Int) : Nat :=
  roundDiv (m * 2 ^ q.toNat * 10 ^ places.toNat) (2 ^ (-q).toNat * 10 ^ (-places).toNat)

/-- Is `10 ^ e ≤ m · 2 ^ q`? -/
def reaches (m : Nat) (q e : Int) : Bool :=
  10 ^ e.toNat * 2 ^ (-q).toNat ≤ m * 2 ^ q.toNat * 10 ^ (-e).toNat

/-- The largest exponent, from `e` downward, whose power of ten `m · 2 ^ q` reaches. -/
def lastReached (m : Nat) (q : Int) : (fuel : Nat) → (e : Int) → Int
  | 0, e => e
  | fuel + 1, e => if reaches m q e then e else lastReached m q fuel (e - 1)

/-- `count` significant digits of `m · 2 ^ q`, and the exponent of the first of them. -/
def significant (m : Nat) (q : Int) (count : Nat) : Nat × Int :=
  if m = 0 then (0, 0)
  else
    let e := lastReached m q 8 (topExponent m q)
    let digits := scaledRound m q ((count : Int) - 1 - e)
    if digits < 10 ^ count then (digits, e) else (digits / 10, e + 1)

/-- Digits of which the last `places` stand behind a point; without such digits there is none,
unless `pointed` asks for it. -/
def pointAt (digits : String) (places : Nat) (pointed : Bool) : String :=
  if places = 0 then if pointed then digits ++ "." else digits
  else withPoint digits places

/-- An exponent with its sign and two digits at least. -/
def exponentText (e : Int) : String :=
  let digits := Nat.repr e.natAbs
  (if e < 0 then "e-" else "e+") ++ zeros (2 - digits.length) ++ digits

/-- Digits with one of them before the point, and an exponent. -/
def scientificText (digits : String) (e : Int) (pointed : Bool) : String :=
  pointAt digits (digits.length - 1) pointed ++ exponentText e

/-- Digits without the zeros at their end; of `keep` digits none is left out. -/
def dropZeros (digits : String) (keep : Nat) : String :=
  let chars := digits.toList
  let trailing := ((chars.drop keep).reverse.takeWhile (· = '0')).length
  String.ofList (chars.take (chars.length - trailing))

/-- The text of `m · 2 ^ q`.  With `alternate` the point is always written and no zero is left
out. -/
def Layout.text (layout : Layout) (precision : Nat) (alternate : Bool) (m : Nat) (q : Int) :
    String :=
  match layout with
  | fixed => pointAt (Nat.repr (scaledRound m q precision)) precision alternate
  | scientific =>
    let (digits, e) := significant m q (precision + 1)
    let text := Nat.repr digits
    scientificText (text ++ zeros (precision + 1 - text.length)) e alternate
  | general =>
    let count := max 1 precision
    let (digits, e) := significant m q count
    let text := Nat.repr digits
    let padded := text ++ zeros (count - text.length)
    if -4 ≤ e ∧ e < count then
      let whole := (e + 1).toNat
      let places := ((count : Int) - 1 - e).toNat
      if alternate then pointAt padded places true
      else
        let kept := dropZeros padded whole
        pointAt kept (places - (padded.length - kept.length)) false
    else if alternate then scientificText padded e true
    else scientificText (dropZeros padded 1) e false

end LuaConfig.Decimal
