/-!
# Binary floating point

A finite number is a sign and a magnitude. A magnitude is its place in the increasing list of all
finite magnitudes, so equal places are equal magnitudes and the order of places is the order of
magnitudes. Every magnitude is a whole number of units of 2^-1074. The arithmetic is exact in units
and rounds once, to the nearest magnitude, a tie going to the even place.
-/

namespace NoteQuery

set_option autoImplicit false

namespace Magnitude

def octave : Nat := Nat.pow 2 52

def count : Nat := 2047 * octave

def one : Nat := Nat.pow 2 1074

end Magnitude

/-- A finite magnitude, by its place among all finite magnitudes. -/
structure Magnitude where
  place : Nat
  place_lt : place < Magnitude.count
  deriving DecidableEq

namespace Magnitude

def zero : Magnitude := ⟨0, by decide⟩

def shift (m : Magnitude) : Nat := m.place / octave - 1

def significand (m : Magnitude) : Nat := m.place - m.shift * octave

/-- The value as a count of units of 2^-1074. -/
def units (m : Magnitude) : Nat := m.significand * Nat.pow 2 m.shift

/-- The natural number nearest to `num / den`, a tie going to the even one. -/
def roundQuotient (num den : Nat) : Nat :=
  let q := num / den
  let r := num % den
  if den < 2 * r ∨ (2 * r = den ∧ q % 2 = 1) then q + 1 else q

/-- The magnitude nearest to `num / den` units, unless that lies past the largest one. -/
def nearest? (num den : Nat) : Option Magnitude :=
  let shift := (num / den).log2 - 52
  let place := shift * octave + roundQuotient num (den * Nat.pow 2 shift)
  if h : place < count then some ⟨place, h⟩ else none

end Magnitude

inductive Binary64 where
  | nan
  | infinity (negative : Bool)
  | finite (negative : Bool) (magnitude : Magnitude)
  deriving DecidableEq

namespace Binary64

def zero : Binary64 := finite false Magnitude.zero

instance : Inhabited Binary64 := ⟨zero⟩

/-- The number nearest to `num / den` units with a given sign; an infinity past the largest magnitude. -/
def ofUnits (negative : Bool) (num den : Nat) : Binary64 :=
  (Magnitude.nearest? num den).elim (infinity negative) (finite negative)

def ofInt (n : Int) : Binary64 := ofUnits (decide (n < 0)) (n.natAbs * Magnitude.one) 1

def ofNat (n : Nat) : Binary64 := ofUnits false (n * Magnitude.one) 1

def isNaN : Binary64 → Bool
  | nan => true
  | _ => false

def isFinite : Binary64 → Bool
  | finite _ _ => true
  | _ => false

def isZero : Binary64 → Bool
  | finite _ m => m.place == 0
  | _ => false

/-- A signed place: it orders all numbers but NaN, and gives both zeros the same rank. -/
def rank : Binary64 → Int
  | nan => 0
  | infinity s => if s then -(Magnitude.count : Int) else Magnitude.count
  | finite s m => if s then -(m.place : Int) else m.place

def compare? (x y : Binary64) : Option Ordering :=
  if x.isNaN || y.isNaN then none else some (compare x.rank y.rank)

/-- Numeric equality: the zeros are equal, NaN equals nothing. -/
def numEq (x y : Binary64) : Bool := x.compare? y == some .eq

def neg : Binary64 → Binary64
  | nan => nan
  | infinity s => infinity (!s)
  | finite s m => finite (!s) m

def signedUnits (negative : Bool) (m : Magnitude) : Int :=
  if negative then -(m.units : Int) else m.units

def add : Binary64 → Binary64 → Binary64
  | nan, _ => nan
  | _, nan => nan
  | infinity s, infinity t => if s == t then infinity s else nan
  | infinity s, finite _ _ => infinity s
  | finite _ _, infinity t => infinity t
  | finite s m, finite t k =>
    let sum := signedUnits s m + signedUnits t k
    if sum = 0 then finite (s && t) Magnitude.zero else ofUnits (decide (sum < 0)) sum.natAbs 1

def sub (x y : Binary64) : Binary64 := x.add y.neg

def mul : Binary64 → Binary64 → Binary64
  | nan, _ => nan
  | _, nan => nan
  | infinity s, infinity t => infinity (s != t)
  | infinity s, finite t k => if k.place = 0 then nan else infinity (s != t)
  | finite s m, infinity t => if m.place = 0 then nan else infinity (s != t)
  | finite s m, finite t k => ofUnits (s != t) (m.units * k.units) Magnitude.one

def div : Binary64 → Binary64 → Binary64
  | nan, _ => nan
  | _, nan => nan
  | infinity _, infinity _ => nan
  | infinity s, finite t _ => infinity (s != t)
  | finite s _, infinity t => finite (s != t) Magnitude.zero
  | finite s m, finite t k =>
    if k.place = 0 then (if m.place = 0 then nan else infinity (s != t))
    else ofUnits (s != t) (m.units * Magnitude.one) k.units

/-- The remainder of the division that rounds its quotient toward zero; it
has the sign of the dividend. -/
def rem : Binary64 → Binary64 → Binary64
  | nan, _ => nan
  | _, nan => nan
  | infinity _, _ => nan
  | finite s m, infinity _ => finite s m
  | finite s m, finite _ k => if k.place = 0 then nan else ofUnits s (m.units % k.units) 1

instance : Neg Binary64 := ⟨neg⟩
instance : Add Binary64 := ⟨add⟩
instance : Sub Binary64 := ⟨sub⟩
instance : Mul Binary64 := ⟨mul⟩
instance : Div Binary64 := ⟨div⟩
instance : Mod Binary64 := ⟨rem⟩

/-- The natural number that this number equals, if there is one. -/
def toNat? : Binary64 → Option Nat
  | finite s m =>
    if (s && m.place != 0) || m.units % Magnitude.one != 0 then none else some (m.units / Magnitude.one)
  | _ => none

end Binary64

end NoteQuery
