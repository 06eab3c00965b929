/-
  Script/Value.lean --- the documents scripts are written in.

  WHAT THIS FILE IS FOR.  A script and its answers are documents: records, lists,
  texts, numbers, flags and null.  This file holds the document type and the
  rules for reading fields of a record.  A number is an integer, or a text in
  marked hexadecimal; it counts only if it is a word.  A field that is missing
  and one that does not read as what is asked for are the same.

  In answers a number is an integer below `2 ^ 53` and hexadecimal text from
  there on, so that readers with floating point numbers lose nothing.
-/
import GuardedHeap.Word

set_option autoImplicit false

namespace GuardedHeap

/-- A document. -/
inductive Value where
  | null
  | flag (b : Bool)
  | number (n : Int)
  | text (s : String)
  | list (items : List Value)
  | record (fields : List (String × Value))
  /-- a number that is no integer -/
  | fraction
  deriving Inhabited

namespace Value

/-! ## Reading -/

/-- The fields of a record; anything else has none. -/
def fields : Value → List (String × Value)
  | record fs => fs
  | _ => []

/-- A field of a record. -/
def field? (v : Value) (name : String) : Option Value := v.fields.lookup name

/-- A field of a record, null if it is missing. -/
def field (v : Value) (name : String) : Value := (v.field? name).getD .null

/-- The word a document denotes. -/
def word? : Value → Option Nat
  | number n => if 0 ≤ n ∧ n < 2 ^ (64 : Nat) then some n.toNat else none
  | text s =>
    match Hex.value? s with
    | some n => if n < 2 ^ (64 : Nat) then some n else none
    | none => none
  | _ => none

/-- The signed distance a document denotes. -/
def distance? : Value → Option Int
  | number n => if -2 ^ (63 : Nat) ≤ n ∧ n < 2 ^ (63 : Nat) then some n else none
  | _ => none

def flag? : Value → Option Bool
  | flag b => some b
  | _ => none

def text? : Value → Option String
  | text s => some s
  | _ => none

def list? : Value → Option (List Value)
  | list items => some items
  | _ => none

/-- A field that is a word. -/
def wordField? (v : Value) (name : String) : Option Nat := (v.field name).word?

/-- A field that is a word, or a default. -/
def wordField (v : Value) (name : String) (default : Nat) : Nat :=
  (v.wordField? name).getD default

/-- A field that has to be a word. -/
def requiredWord (v : Value) (name : String) : Except Fault Nat :=
  match v.wordField? name with
  | some n => .ok n
  | none => .error (.refused .badInput)

/-- A field that is a flag, or a default. -/
def flagField (v : Value) (name : String) (default : Bool) : Bool :=
  ((v.field name).flag?).getD default

/-- A field that is a text. -/
def textField? (v : Value) (name : String) : Option String := (v.field name).text?

/-- A field that may be left out or null, but must be a word otherwise. -/
def optionalWord (v : Value) (name : String) : Except Fault (Option Nat) :=
  match v.field name with
  | .null => .ok none
  | w =>
    match w.word? with
    | some n => .ok (some n)
    | none => .error (.refused .badInput)

/-! ## Writing -/

/-- A number in an answer. -/
def ofNat (n : Nat) : Value := if n < 2 ^ (53 : Nat) then .number n else .text (Hex.marked n)

/-- A number that may be missing. -/
def ofNat? : Option Nat → Value
  | some n => ofNat n
  | none => .null

/-- An address, always hexadecimal. -/
def ofAddress (addr : Nat) : Value := .text (Hex.marked addr)

/-- A pointer, null for address zero. -/
def ofPointer (addr : Nat) : Value := if addr = 0 then .null else ofAddress addr

/-- A list of texts. -/
def ofTexts (items : List String) : Value := .list (items.map .text)

end Value

end GuardedHeap
