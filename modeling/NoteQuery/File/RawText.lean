/-!
# Texts of the system

The names of files are bytes. Most are the UTF-8 of a text; the others lead to a file as well, and are
shown with a replacement character for each run of bytes that starts no character or breaks one off.
-/

namespace NoteQuery

set_option autoImplicit false

structure RawText where
  bytes : List UInt8
  deriving DecidableEq

namespace RawText

def ofString (s : String) : RawText := ⟨s.toList.flatMap String.utf8EncodeChar⟩

instance : Coe String RawText := ⟨ofString⟩

instance : LT RawText := ⟨fun a b => List.Lex (· < ·) a.bytes b.bytes⟩

instance : LE RawText := ⟨fun a b => ¬b < a⟩

instance (a b : RawText) : Decidable (a < b) := List.decidableLex (· < ·) a.bytes b.bytes

instance (a b : RawText) : Decidable (a ≤ b) := inferInstanceAs (Decidable (¬b < a))

/-- The text whose UTF-8 the bytes are, if they are that of a text. -/
def text? (r : RawText) : Option String := String.fromUTF8? r.bytes.toByteArray

def charAt? (bytes : List UInt8) : Option Char := (bytes.take 4).toByteArray.utf8DecodeChar? 0

def isContinuation (b : UInt8) : Bool := 0x80 ≤ b && b ≤ 0xBF

/-- Whether a byte can be the second of a character with a given first byte. -/
def canFollow (first second : UInt8) : Bool :=
  if first = 0xE0 then 0xA0 ≤ second && second ≤ 0xBF
  else if first = 0xED then 0x80 ≤ second && second ≤ 0x9F
  else if first = 0xF0 then 0x90 ≤ second && second ≤ 0xBF
  else if first = 0xF4 then 0x80 ≤ second && second ≤ 0x8F
  else 0xC2 ≤ first && first < 0xF4 && isContinuation second

/-- How many bytes behind the first one belong to the character that breaks off there. -/
def brokenTail : List UInt8 → Nat
  | first :: second :: rest =>
    if !canFollow first second then 0
    else if 0xF0 ≤ first && rest.head?.any isContinuation then 2
    else 1
  | _ => 0

/-- The characters shown for some bytes, of which the first ones are done with. -/
def shown : Nat → List UInt8 → List Char
  | _, [] => []
  | done + 1, _ :: bytes => shown done bytes
  | 0, byte :: bytes =>
    match charAt? (byte :: bytes) with
    | some c => c :: shown (c.utf8Size - 1) bytes
    | none => '\uFFFD' :: shown (brokenTail (byte :: bytes)) bytes

def lossy (r : RawText) : String := String.ofList (shown 0 r.bytes)

end RawText

end NoteQuery
