import NoteQuery.Number.Binary64

/-!
# Decimal numbers and their texts

A decimal is a natural number times a power of ten. This module reads decimals from text, rounds
them to binary numbers, finds the shortest decimal that a magnitude reads back from, and writes
decimals in plain or exponent form.
-/

namespace NoteQuery

set_option autoImplicit false

/-- The number `digits * 10 ^ exponent`. -/
structure Decimal where
  digits : Nat
  exponent : Int
  deriving DecidableEq

namespace Decimal

/-- The nearest magnitude. An exponent far outside the range of magnitudes is
decided without its power of ten. -/
def magnitude? (d : Decimal) : Option Magnitude :=
  if d.digits = 0 then some Magnitude.zero
  else if 309 < d.exponent then none
  else if d.exponent < -326 - ((Nat.toDigits 10 d.digits).length : Int) then some Magnitude.zero
  else if d.exponent < 0 then
    Magnitude.nearest? (d.digits * Magnitude.one) (Nat.pow 10 d.exponent.natAbs)
  else Magnitude.nearest? (d.digits * Nat.pow 10 d.exponent.natAbs * Magnitude.one) 1

def toBinary64 (negative : Bool) (d : Decimal) : Binary64 :=
  d.magnitude?.elim (.infinity negative) (.finite negative)

def dropZeros : Nat → Decimal → Decimal
  | 0, d => d
  | k + 1, d => if d.digits % 10 = 0 then dropZeros k ⟨d.digits / 10, d.exponent + 1⟩ else d

def normalize (d : Decimal) : Decimal := d.dropZeros (Nat.toDigits 10 d.digits).length

end Decimal

inductive Tie where
  | up
  | toEven
  deriving DecidableEq

namespace Magnitude

def leadingExponent (m : Magnitude) : Int :=
  (Nat.toDigits 10 (m.units * Nat.pow 10 324 / Magnitude.one)).length - 325

/-- Numerator and denominator of the magnitude as a multiple of `10 ^ e`. -/
def asMultipleOf (m : Magnitude) (e : Int) : Nat × Nat :=
  if e < 0 then (m.units * Nat.pow 10 e.natAbs, Magnitude.one)
  else (m.units, Magnitude.one * Nat.pow 10 e.natAbs)

/-- Of the two multiples of `10 ^ e` around `num / den` of them, the nearer one that
reads back as the magnitude. -/
def around? (tie : Tie) (m : Magnitude) (e : Int) (num den : Nat) : Option Decimal :=
  let low : Decimal := ⟨num / den, e⟩
  let high : Decimal := ⟨num / den + 1, e⟩
  let twice := 2 * (num % den)
  let lowReads := low.magnitude? == some m
  let highReads := high.magnitude? == some m
  let lowWins := twice < den || (twice == den && tie == .toEven && low.digits % 2 == 0)
  if lowReads && (lowWins || !highReads) then some low
  else if highReads then some high
  else none

/-- The decimal with at most `count` digits that lies nearest and reads back, if one does. -/
def withDigits? (tie : Tie) (m : Magnitude) (count : Nat) : Option Decimal :=
  let e := m.leadingExponent - (count - 1)
  let ratio := m.asMultipleOf e
  m.around? tie e ratio.1 ratio.2

def exactDecimal (m : Magnitude) : Decimal := ⟨m.units * Nat.pow 5 1074, -1074⟩

def shortest (tie : Tie) (m : Magnitude) : Decimal :=
  (((List.range' 1 17).findSome? (m.withDigits? tie)).getD m.exactDecimal).normalize

end Magnitude

namespace Decimal

/-- Which leading exponents are written in plain form, whether a whole number gets a fraction,
whether a positive exponent gets a sign, and how ties are settled. -/
structure Style where
  least : Int
  greatest : Int
  wholeFraction : Bool
  plusSign : Bool
  tie : Tie

def plainText (style : Style) (d : Decimal) : List Char :=
  let ds := Nat.toDigits 10 d.digits
  if 0 ≤ d.exponent then
    ds ++ List.replicate d.exponent.toNat '0' ++ (if style.wholeFraction then ['.', '0'] else [])
  else
    let places := d.exponent.natAbs
    if places < ds.length then ds.take (ds.length - places) ++ '.' :: ds.drop (ds.length - places)
    else '0' :: '.' :: (List.replicate (places - ds.length) '0' ++ ds)

def exponentText (style : Style) (d : Decimal) (leading : Int) : List Char :=
  let sign := if leading < 0 then ['-'] else if style.plusSign then ['+'] else []
  let power := sign ++ Nat.toDigits 10 leading.natAbs
  match Nat.toDigits 10 d.digits with
  | [] => []
  | [c] => c :: 'e' :: power
  | c :: cs => c :: '.' :: (cs ++ 'e' :: power)

def text (style : Style) (d : Decimal) : List Char :=
  let leading := d.exponent + (Nat.toDigits 10 d.digits).length - 1
  if style.least ≤ leading ∧ leading ≤ style.greatest then d.plainText style
  else d.exponentText style leading

def digitValue (c : Char) : Nat := c.toNat - '0'.toNat

def isDigit (c : Char) : Bool := '0' ≤ c && c ≤ '9'

theorem isDigit_iff {c : Char} : isDigit c = true ↔ 48 ≤ c.toNat ∧ c.toNat ≤ 57 := by
  simp only [isDigit, Bool.and_eq_true, decide_eq_true_eq]
  exact Iff.rfl

def ofDigits (cs : List Char) : Nat := cs.foldl (fun n c => 10 * n + digitValue c) 0

def readExponent? (cs : List Char) : Option Int :=
  let (negative, ds) := match cs with
    | '-' :: r => (true, r)
    | '+' :: r => (false, r)
    | r => (false, r)
  if ds.isEmpty || !ds.all isDigit then none
  else some (if negative then -(ofDigits ds : Int) else ofDigits ds)

/-- Digits with an optional point and an optional exponent; at least one digit
stands before the exponent. -/
def read? (cs : List Char) : Option Decimal :=
  let whole := cs.takeWhile isDigit
  let afterWhole := cs.dropWhile isDigit
  let (fraction, rest) := match afterWhole with
    | '.' :: r => (r.takeWhile isDigit, r.dropWhile isDigit)
    | r => ([], r)
  if whole.isEmpty && fraction.isEmpty then none
  else
    let plain : Decimal := ⟨ofDigits (whole ++ fraction), -(fraction.length : Int)⟩
    match rest with
    | [] => some plain
    | c :: r =>
      if c = 'e' ∨ c = 'E' then
        (readExponent? r).map fun e => ⟨plain.digits, plain.exponent + e⟩
      else none

end Decimal

namespace Binary64

def read? : List Char → Option Binary64
  | '-' :: r => (Decimal.read? r).map (Decimal.toBinary64 true)
  | '+' :: r => (Decimal.read? r).map (Decimal.toBinary64 false)
  | r => (Decimal.read? r).map (Decimal.toBinary64 false)

end Binary64

end NoteQuery
