/-
  Text/Hex.lean --- hexadecimal text of words, both ways.

  WHAT THIS FILE IS FOR.  Addresses, sizes and page numbers are shown in lower
  case hexadecimal, bare (`1f`), marked (`0x1f`) or marked and filled with
  zeros to a width; bytes in scripts are written as two digits each.  This file
  holds those forms and the readers for the marked form and for byte strings.
-/

set_option autoImplicit false

namespace GuardedHeap.Hex

/-! ## Writing -/

/-- The digits of `n` in base sixteen, lower case, without leading zeros. -/
def digits (n : Nat) : List Char := Nat.toDigits 16 n

/-- The bare form, `1f`. -/
def bare (n : Nat) : String := String.ofList (digits n)

/-- The marked form, `0x1f`. -/
def marked (n : Nat) : String := "0x" ++ bare n

/-- The marked form with zeros between mark and digits up to `width`
characters in all. -/
def padded (width n : Nat) : String :=
  let ds := digits n
  "0x" ++ String.ofList (List.replicate (width - 2 - ds.length) '0' ++ ds)

/-- A byte as exactly two digits. -/
def byte (b : UInt8) : String :=
  String.ofList [Nat.digitChar (b.toNat / 16), Nat.digitChar (b.toNat % 16)]

/-! ## Reading -/

/-- The value of one digit, either case. -/
def digit? (c : Char) : Option Nat :=
  if '0' ≤ c ∧ c ≤ '9' then some (c.toNat - '0'.toNat)
  else if 'a' ≤ c ∧ c ≤ 'f' then some (c.toNat - 'a'.toNat + 10)
  else if 'A' ≤ c ∧ c ≤ 'F' then some (c.toNat - 'A'.toNat + 10)
  else none

/-- The number a digit sequence denotes after the digits read so far. -/
def valueFrom? : Nat → List Char → Option Nat
  | acc, [] => some acc
  | acc, c :: cs =>
    match digit? c with
    | some d => valueFrom? (16 * acc + d) cs
    | none => none

/-- A text that starts with the mark. -/
def isMarked (s : String) : Bool :=
  match s.toList with
  | '0' :: 'x' :: _ => true
  | _ => false

/-- Reads the marked form; at least one digit is needed. -/
def value? (s : String) : Option Nat :=
  match s.toList with
  | '0' :: 'x' :: c :: cs => valueFrom? 0 (c :: cs)
  | _ => none

/-- Reads a byte string of two digits per byte. -/
def bytesOfDigits? : List Char → Option (List UInt8)
  | [] => some []
  | hi :: lo :: cs =>
    match digit? hi, digit? lo, bytesOfDigits? cs with
    | some h, some l, some bs => some (UInt8.ofNat (16 * h + l) :: bs)
    | _, _, _ => none
  | [_] => none

/-- The bytes a text of digit pairs denotes. -/
def bytes? (s : String) : Option (List UInt8) := bytesOfDigits? s.toList

end GuardedHeap.Hex
