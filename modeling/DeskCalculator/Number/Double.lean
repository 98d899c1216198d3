/-!
Doubles as exact numbers. A double is either no number, an infinity or exactly
± mantissa · 2 ^ exponent; rounding to an integer and remainders are computed on that reading and
packed again, so each of them is exact.
-/
namespace DeskCalculator.Number

open Float.Model

inductive Reading where
  | nan
  | infinite (negative : Bool)
  | finite (negative : Bool) (mantissa : Nat) (exponent : Int)
deriving Repr, DecidableEq

/-- The exact reading of a double; both zeros have mantissa zero and keep their sign. -/
def reading (x : Float) : Reading :=
  match x.toModel.unpack with
  | .notANumber => .nan
  | .infinity sign => .infinite (sign matches .negative)
  | .zero sign => .finite (sign matches .negative) 0 0
  | .finite sign mantissa exponent _ => .finite (sign matches .negative) mantissa exponent

/-- The double nearest to ± mantissa · 2 ^ exponent, ties to even. -/
def nearest (negative : Bool) (mantissa : Nat) (exponent : Int) : Float :=
  .ofModel (pack (UnpackedFloat.round Format.binary64
    (if negative then .negative else .positive) mantissa exponent))

def ofNat (n : Nat) : Float := nearest false n 0

/-- Rounds to an integer, given when the magnitude goes up: `up` is told the sign, what is left of
the magnitude beyond its whole part, and the unit in which that rest is counted. A double without
fraction is returned as it is, and a result of zero keeps the sign. -/
def integral (up : (negative : Bool) → (rest unit : Nat) → Bool) (x : Float) : Float :=
  match reading x with
  | .finite negative mantissa (.negSucc k) =>
    let unit := Nat.pow 2 (k + 1)
    let whole := mantissa / unit
    nearest negative (if up negative (mantissa % unit) unit then whole + 1 else whole) 0
  | _ => x

def floor (x : Float) : Float := integral (fun negative rest _ => negative && rest != 0) x

def ceil (x : Float) : Float := integral (fun negative rest _ => !negative && rest != 0) x

/-- The integer nearest to `x`; halves go away from zero. -/
def round (x : Float) : Float := integral (fun _ rest unit => unit ≤ 2 * rest) x

/-- What is left of `x` after taking away as many whole `y` as fit, with the sign of `x`. -/
def remainder (x y : Float) : Float :=
  match reading x, reading y with
  | .finite negative m e, .finite _ n f =>
    if n = 0 then 0.0 / 0.0
    else
      let unit := min e f
      nearest negative (m * Nat.pow 2 (e - unit).toNat % (n * Nat.pow 2 (f - unit).toNat)) unit
  | .finite .., .infinite _ => x
  | _, _ => 0.0 / 0.0

end DeskCalculator.Number
