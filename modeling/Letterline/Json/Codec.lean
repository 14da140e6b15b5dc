/-
Module: Letterline.Json.Codec
Purpose: Codecs between JSON values and their texts, and what their documentation promises.
Trusted boundary: none
Main exports:
  Json.Codec, Json.Codec.plain, Json.asRead, Json.IntegersFit, Json.Codec.Documented
-/
import Letterline.Json.Printer
import Letterline.Json.Reader

namespace Letterline

/-- Says whether a double is a number, and one that can be written down. -/
def Double.isFinite : Double → Bool
  | .finite .. => true
  | .infinite _ => false
  | .nan => false

namespace Json

/-!
Programs are exchanged as texts that a codec writes and reads, and the codec need not be the
one of this library.  What can be relied on is what is documented: integers of 64 bits, texts
and names come back unchanged, a number that is not finite is written `null`, and a text that
is nested too deep is refused.  Of other numbers only the best effort is promised, so reading
one may give a double beside the one that was written.
-/

/-- A writer and a reader of JSON texts. -/
structure Codec where
  write : Style → Json → String
  read? : String → Option Json

/-- The writer and the reader of this library. -/
def Codec.plain : Codec where
  write style value := value.text style
  read? := ofText?

mutual

/-- What is read of a value that was written, if reading the number of a finite double gives
`reread` of it. -/
def asRead (reread : Double → Double) : Json → Json
  | .null => .null
  | .bool value => .bool value
  | .int value => .int value
  | .double (.finite negative magnitude) => .double (reread (.finite negative magnitude))
  | .double (.infinite _) => .null
  | .double .nan => .null
  | .string value => .string value
  | .array items => .array (itemsAsRead reread items)
  | .object fields => .object (fieldsAsRead reread fields)

def itemsAsRead (reread : Double → Double) : List Json → List Json
  | [] => []
  | item :: items => item.asRead reread :: itemsAsRead reread items

def fieldsAsRead (reread : Double → Double) : List (String × Json) → List (String × Json)
  | [] => []
  | (name, value) :: fields => (name, value.asRead reread) :: fieldsAsRead reread fields

end

/-- The integers that a text can hold. -/
def Fits (value : Int) : Prop :=
  Int64.minValue.toInt ≤ value ∧ value < UInt64.size

mutual

/-- All integers of a value can be held by a text. -/
def IntegersFit : Json → Prop
  | .int value => Fits value
  | .array items => ItemsFit items
  | .object fields => FieldsFit fields
  | _ => True

def ItemsFit : List Json → Prop
  | [] => True
  | item :: items => item.IntegersFit ∧ ItemsFit items

def FieldsFit : List (String × Json) → Prop
  | [] => True
  | (_, value) :: fields => value.IntegersFit ∧ FieldsFit fields

end

/-- A codec reads its own texts as documented, where `reread` is what its reader makes of the
number that its writer gives a finite double. -/
structure Codec.Documented (codec : Codec) (reread : Double → Double) : Prop where
  reads : ∀ (style : Style) (value : Json), value.IntegersFit → value.nesting < nestingLimit →
    codec.read? (codec.write style value) = some (value.asRead reread)
  refuses : ∀ (style : Style) (value : Json), value.IntegersFit → nestingLimit ≤ value.nesting →
    codec.read? (codec.write style value) = none

end Json

end Letterline
