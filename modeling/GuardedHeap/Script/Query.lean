/-
  Script/Query.lean --- questions that need no session.

  WHAT THIS FILE IS FOR.  Whether limits describe a window, what the heap's
  arithmetic and number forms make of a word, and how an error and its report
  read; and `answer`, which tells all kinds of script apart.
-/
import GuardedHeap.Script.Run

set_option autoImplicit false

namespace GuardedHeap.Query

/-! ## Windows -/

/-- Whether limits describe a window.  An address of zero is refused before the
limits are looked at. -/
def window (v : Value) : Except Fault Value := do
  let base ← v.requiredWord "base"
  if hb : 0 < base then
    let floor ← v.requiredWord "min"
    let ceiling ← v.requiredWord "max"
    let made :=
      if v.flagField "pages" false then Window.ofPages base floor ceiling hb
      else Window.ofBytes base floor ceiling hb
    match made with
    | .ok w => return .record (Render.windowFields w)
    | .error e => return .record [("error", .text e.name), ("message", .text e.message)]
  else throw (.refused .nullBase)

/-! ## Numbers -/

/-- The name of an order. -/
def orderName : Ordering → String
  | .lt => "Less"
  | .eq => "Equal"
  | .gt => "Greater"

/-- A word as a size, an address, a frame, a context and the size of a fresh
header. -/
def number (v : Value) : Except Fault Value := do
  let n ← v.requiredWord "n"
  let prev ← v.optionalWord "prev"
  let next ← v.optionalWord "next"
  let page := pageOf n
  let m := Header.store Memory.empty 0 (Header.free prev next n)
  return .record
    [("round_up", if n ≤ Word.maxRequest then .ofNat (Word.roundUp n) else .null),
      ("page", .ofNat page), ("page_x", .text (Hex.bare page)),
      ("page_alt", .text (Hex.marked page)), ("page_pad", .text (Hex.padded 12 page)),
      ("frame_x", .text (Hex.marked n)),
      ("ctx", .text (Session.contextOfWord n).text),
      ("header", .text (Render.segment ⟨0, Header.load m 0⟩)),
      ("intact", .flag (Header.guardAt m 0 == guardWord)),
      ("order", .text (orderName (compare n (prev.getD 0)))),
      ("consts", .list
        [.ofNat granule, .ofNat headerSize, .ofNat guardWord, .ofNat pageSize])]

/-! ## Errors -/

/-- The texts a described inconsistency can have. -/
def details : List String := ["merged", "adjacent", ""]

/-- A field that holds a call site. -/
def siteField (v : Value) (name : String) : Except Fault CallSite := do
  return Session.siteOfNumber (← v.requiredWord name)

/-- The error a name and fields describe. -/
def errorOf (v : Value) : String → Except Fault HeapError
  | "SizeOverflow" => return .sizeOverflow (← v.requiredWord "size")
  | "AddressOutOfRange" =>
    return .addressOutOfRange (← v.requiredWord "addr") (← v.requiredWord "start")
      (← v.requiredWord "end")
  | "MisalignedAddress" => return .misalignedAddress (← v.requiredWord "addr")
  | "NotAllocated" => return .notAllocated (← v.requiredWord "segment")
  | "InterruptsDisabled" => return .interruptsDisabled (← v.requiredWord "on_cpu")
  | "RecursiveLock" =>
    return .recursiveLock (Session.contextOfWord (← v.requiredWord "holder"))
      (← siteField v "taken_at")
  | "Corrupted" =>
    return .corrupted (← v.requiredWord "segment") (← v.requiredWord "size")
      ((← v.requiredWord "guard") % 2 ^ (32 : Nat))
  | "BrokenLink" =>
    return .brokenLink (← v.requiredWord "segment") (← v.requiredWord "link")
      (← v.requiredWord "top")
  | "Inconsistent" => do
    let segment ← v.requiredWord "segment"
    match details[← v.requiredWord "detail"]? with
    | some text => return .inconsistent segment (.described text)
    | none => Session.refuse .badInput
  | "UseAfterFree" =>
    return .useAfterFree (← v.requiredWord "addr") (UInt8.ofNat (← v.requiredWord "value"))
      (← siteField v "freed_at")
  | "DoubleFree" => do
    let freedAt ← v.optionalWord "freed_at"
    return .doubleFree (← v.requiredWord "segment") (← v.requiredWord "size")
      (freedAt.map Session.siteOfNumber)
  | "CeilingReached" =>
    return .ceilingReached (← v.requiredWord "requested") (← v.requiredWord "size")
      (← v.requiredWord "max") (← v.requiredWord "used") (← v.requiredWord "blocks")
  | "OutOfFrames" => return .outOfFrames (← v.requiredWord "page")
  | _ => Session.refuse .badInput

/-- How an error reads, alone and in a report.  The form for debugging is the
form for display. -/
def error (v : Value) : Except Fault Value := do
  let e ← errorOf v ((v.textField? "kind").getD "")
  let report : Report :=
    ⟨e, Session.siteOf v, Session.contextOfWord (v.wordField "ctx" 1), v.wordField "cpu" 0⟩
  return .record
    [("kind", .text e.name), ("message", .text e.message), ("report", .text report.text),
      ("debug_same", .flag true), ("fatal", .text report.haltText),
      ("log", .ofTexts [(LogLine.failing e).shown])]

/-! ## All scripts -/

/-- A question's answer, or why there is none. -/
def settle : Except Fault Value → Value
  | .ok v => v
  | .error f => Render.fault f

/-- The answer to something that is no script. -/
def unreadable : Value := Render.fault (.refused .badInput)

/-- The answer to a script. -/
def answer (v : Value) : Value :=
  match v.textField? "op" with
  | some "config" => settle (window v)
  | some "num" => settle (number v)
  | some "error" => settle (error v)
  | some name =>
    match Session.subjectOfName? name with
    | some subject => Session.answer subject v
    | none => unreadable
  | none => unreadable

end GuardedHeap.Query
