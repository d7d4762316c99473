/-
# Arithmetic on binary64

Sums, products and quotients are the exact ones rounded once by `Binary64.ofRatio`; the remainder is
exact and takes the sign of the dividend. Rounding to a whole number (`floor`, `ceil`, `round`) goes
through the integers, so its zero is always positive. There are two sums of a list: `sum` rounds at every
step, and `carefulSum` makes good what the steps lose.

| operation | case | result |
| --- | --- | --- |
| sum | opposite infinities | `nan` |
| sum | equal magnitudes, opposite signs | `+0` |
| product | zero and infinity | `nan` |
| quotient | `0 / 0`, `∞ / ∞` | `nan` |
| quotient | by zero | infinity, signs multiplied |
| remainder | of an infinity, by zero | `nan` |
| remainder | by an infinity | the dividend |
-/

import Tariff.Number.Binary64

namespace Tariff
namespace Binary64

def neg : Binary64 → Binary64
  | finite s m => finite (!s) m
  | infinite s => infinite (!s)
  | nan => nan

def add : Binary64 → Binary64 → Binary64
  | nan, _ | _, nan => nan
  | infinite s, infinite t => if s = t then infinite s else nan
  | infinite s, finite _ _ => infinite s
  | finite _ _, infinite t => infinite t
  | finite s a, finite t b =>
    if s = t then ofRatio s (a.units + b.units) 1
    else if a.units = b.units then zero
    else if b.units < a.units then ofRatio s (a.units - b.units) 1
    else ofRatio t (b.units - a.units) 1

def sub (x y : Binary64) : Binary64 := x.add y.neg

def mul : Binary64 → Binary64 → Binary64
  | nan, _ | _, nan => nan
  | infinite s, infinite t => infinite (s ^^ t)
  | infinite s, finite t b => if b.units = 0 then nan else infinite (s ^^ t)
  | finite s a, infinite t => if a.units = 0 then nan else infinite (s ^^ t)
  | finite s a, finite t b => ofRatio (s ^^ t) (a.units * b.units) unitsPerOne

def div : Binary64 → Binary64 → Binary64
  | nan, _ | _, nan => nan
  | infinite _, infinite _ => nan
  | infinite s, finite t _ => infinite (s ^^ t)
  | finite s _, infinite t => finite (s ^^ t) .zero
  | finite s a, finite t b =>
    if b.units = 0 then
      if a.units = 0 then nan else infinite (s ^^ t)
    else ofRatio (s ^^ t) (a.units * unitsPerOne) b.units

/-- The remainder of the quotient cut towards zero. -/
def rem : Binary64 → Binary64 → Binary64
  | nan, _ | _, nan => nan
  | infinite _, _ => nan
  | finite s a, infinite _ => finite s a
  | finite s a, finite _ b => if b.units = 0 then nan else ofRatio s (a.units % b.units) 1

instance : Neg Binary64 := ⟨neg⟩
instance : Add Binary64 := ⟨add⟩
instance : Sub Binary64 := ⟨sub⟩
instance : Mul Binary64 := ⟨mul⟩
instance : Div Binary64 := ⟨div⟩
instance : Mod Binary64 := ⟨rem⟩

/-- The signed number of units of a finite number. -/
def signedUnits (negative : Bool) (m : Magnitude) : Int :=
  if negative then -m.units else m.units

/-- Replace a finite number by a whole number found from its signed units. -/
def toWhole (whole : Int → Int) : Binary64 → Binary64
  | finite s m => ofInt (whole (signedUnits s m))
  | x => x

/-- The largest whole number that is not above. -/
def floor : Binary64 → Binary64 :=
  toWhole fun u => u.fdiv unitsPerOne

/-- The least whole number that is not below. -/
def ceil : Binary64 → Binary64 :=
  toWhole fun u => -((-u).fdiv unitsPerOne)

/-- The nearest whole number, halves upwards: `2.5` gives `3` and `-2.5` gives `-2`. -/
def round : Binary64 → Binary64 :=
  toWhole fun u => (2 * u + unitsPerOne).fdiv (2 * unitsPerOne)

/-- The whole part of a finite number, cut towards zero. -/
def truncate? : Binary64 → Option Int
  | finite s m => some ((signedUnits s m).tdiv unitsPerOne)
  | _ => none

/-- The first of the largest numbers of a list; `nan` if it holds one. -/
def maximum (x : Binary64) (xs : List Binary64) : Binary64 :=
  if (x :: xs).any isNan then nan
  else xs.foldl (fun best v => if best.lt v then v else best) x

/-- The first of the least numbers of a list; `nan` if it holds one. -/
def minimum (x : Binary64) (xs : List Binary64) : Binary64 :=
  if (x :: xs).any isNan then nan
  else xs.foldl (fun best v => if v.lt best then v else best) x

/-- Sum from the left, starting from positive zero. -/
def sum (xs : List Binary64) : Binary64 := xs.foldl add zero

/-- The size of a number. -/
def abs : Binary64 → Binary64
  | finite _ m => finite false m
  | infinite _ => infinite false
  | nan => nan

/-- What the sum of two numbers lacks of the exact one. -/
def lack (x y : Binary64) : Binary64 :=
  if y.abs.le x.abs then (x - (x + y)) + y else (y - (x + y)) + x

/-- Sum from the left, what each step lacks added up beside it and to it in the end. -/
def carefulSum (xs : List Binary64) : Binary64 :=
  let (total, lacking) := xs.foldl (fun (s, l) x => (s + x, l + lack s x)) (zero, zero)
  if lacking.isFinite then total + lacking else total

example : one + one.neg = zero ∧ (finite true .zero + finite true .zero) = finite true .zero ∧
    one / zero.neg = infinite true ∧ (ofInt (-7)) % (ofInt 2) = ofInt (-1) ∧
    (ofInt (-5) / ofInt 2).round = ofInt (-2) ∧ (ofInt (-1) / ofInt 2).ceil = zero := by
  decide +kernel

example : let big := ofInt (10 ^ 17)
    sum [big, one, -big] = zero ∧ carefulSum [big, one, -big] = one := by
  decide +kernel

end Binary64
end Tariff
