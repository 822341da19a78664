import ContentModel.Binary64.Decimal
import ContentModel.Value

/-!
This module contains the tokens in which data formats hand values over, and the two directions
between tokens and values. Encoding writes a nested instance as the map of its non-null fields;
decoding accepts what can stand for a value and refuses the first token that cannot, an entry's key
before its value.
-/

namespace ContentModel

/--
A tree of data tokens. Integers of 64 bits and less are handed over as `signed` or `unsigned`. The
hint of a `seq` or a `map` is the announced number of items, when one is announced; it need not be the
true one. An `enum` is a variant with what it holds.
-/
inductive Token where
  | unit
  | none
  | some (token : Token)
  | newtype (token : Token)
  | boolean (b : Bool)
  | signed (n : Int64)
  | unsigned (n : UInt64)
  | signed128 (n : Int)
  | unsigned128 (n : Nat)
  | binary32 (word : UInt32)
  | binary64 (x : Binary64)
  | char (c : Char)
  | string (s : String)
  | bytes (b : ByteArray)
  | enum (variant content : Token)
  | seq (hint : Option Nat) (items : List Token)
  | map (hint : Option Nat) (entries : List (Token × Token))

/--
A text as the UTF-8 bytes that it is made of.
-/
instance bytesOfText : Coe String ByteArray := ⟨String.toUTF8⟩

namespace Token

/--
What a refused token was.
-/
inductive Found where
  | unit
  | option
  | newtype
  | boolean (b : Bool)
  | integer (n : Int)
  | signed128 (n : Int)
  | unsigned128 (n : Nat)
  | float (x : Binary64)
  | bytes
  | enum
  | seq
  | map
deriving DecidableEq, Repr

def Found.text : Found → String
  | .unit => "unit value"
  | .option => "Option value"
  | .newtype => "newtype struct"
  | .boolean b => s!"boolean `{b}`"
  | .integer n => s!"integer `{n}`"
  | .signed128 n => s!"integer `{n}` as i128"
  | .unsigned128 n => s!"integer `{n}` as u128"
  | .float x => s!"floating point `{x.positional}`"
  | .bytes => "byte array"
  | .enum => "enum"
  | .seq => "sequence"
  | .map => "map"

/--
Why a token tree gives no value.
-/
inductive DecodeError where
  /-- A token is no value. -/
  | notValue (found : Found)
  /-- A key is no text. -/
  | notKey (found : Found)
  /-- The bytes of a key are no UTF-8. -/
  | notText
  /-- There is no room for the announced number of items. This ends the program and is not reported. -/
  | noRoom (length : Nat)
deriving DecidableEq, Repr

def DecodeError.message : DecodeError → String
  | .notValue found => s!"invalid type: {found.text}, expected any materialized value"
  | .notKey found => s!"invalid type: {found.text}, expected a string"
  | .notText => s!"invalid value: {Found.bytes.text}, expected a string"
  | .noRoom _ => "capacity overflow"

/--
The text of a map key. Only texts are keys; an option is not looked through.
-/
def key : Token → Except DecodeError String
  | .string s => .ok s
  | .bytes b =>
    match String.fromUTF8? b with
    | .some s => .ok s
    | .none => .error .notText
  | .char c => .ok c.toString
  | .unit => .error (.notKey .unit)
  | .none | .some _ => .error (.notKey .option)
  | .newtype _ => .error (.notKey .newtype)
  | .boolean b => .error (.notKey (.boolean b))
  | .signed n => .error (.notKey (.integer n.toInt))
  | .unsigned n => .error (.notKey (.integer n.toNat))
  | .signed128 n => .error (.notKey (.signed128 n))
  | .unsigned128 n => .error (.notKey (.unsigned128 n))
  | .binary32 word => .error (.notKey (.float (.ofBinary32 word)))
  | .binary64 x => .error (.notKey (.float x))
  | .enum .. => .error (.notKey .enum)
  | .seq .. => .error (.notKey .seq)
  | .map .. => .error (.notKey .map)

/--
The numbers of items of a list, and of entries of a map, for which there is room.
-/
structure Room where
  items : Nat → Bool
  entries : Nat → Bool

/--
Room for everything.
-/
def Room.ample : Room := ⟨fun _ => true, fun _ => true⟩

/--
Make room for the announced number of items.
-/
def reserve (fits : Nat → Bool) : Option Nat → Except DecodeError Unit
  | .some n => if fits n then .ok () else .error (.noRoom n)
  | .none => .ok ()

/--
The value of an unsigned number: an integer when it is in range, the nearest float otherwise.
-/
def ofUnsigned (n : UInt64) : Value :=
  if n.toNat < 1 <<< 63 then .integer (.ofNat n.toNat) else .float (.ofNat n.toNat)

mutual

/--
The value that a token tree stands for. Of map entries with the same key the first gives the place
and the last the value. Room for the announced number of items is made before the first one is looked
at; where nothing is said about it there is room for everything.
-/
def decode (room : Room := .ample) : Token → Except DecodeError Value
  | .unit | .none => .ok .null
  | .some token => decode room token
  | .newtype _ => .error (.notValue .newtype)
  | .boolean b => .ok (.boolean b)
  | .signed n => .ok (.integer n)
  | .unsigned n => .ok (ofUnsigned n)
  | .signed128 n => .error (.notValue (.signed128 n))
  | .unsigned128 n => .error (.notValue (.unsigned128 n))
  | .binary32 word => .ok (.float (.ofBinary32 word))
  | .binary64 x => .ok (.float x)
  | .char c => .ok (.string c.toString)
  | .string s => .ok (.string s)
  | .bytes _ => .error (.notValue .bytes)
  | .enum .. => .error (.notValue .enum)
  | .seq hint items => do
    reserve room.items hint
    let items ← decodeItems room items
    return .list items
  | .map hint entries => do
    reserve room.entries hint
    let entries ← decodeEntries room entries
    return .map (.ofList entries)
termination_by structural token => token

def decodeItems (room : Room) : List Token → Except DecodeError (List Value)
  | [] => .ok []
  | token :: rest => do
    let value ← decode room token
    let values ← decodeItems room rest
    return value :: values
termination_by structural tokens => tokens

def decodeEntries (room : Room) :
    List (Token × Token) → Except DecodeError (List (String × Value))
  | [] => .ok []
  | (name, token) :: rest => do
    let name ← key name
    let value ← decode room token
    let entries ← decodeEntries room rest
    return (name, value) :: entries
termination_by structural entries => entries

end

theorem reserve_items_ample (hint : Option Nat) : reserve Room.ample.items hint = .ok () := by
  cases hint <;> rfl

theorem reserve_entries_ample (hint : Option Nat) : reserve Room.ample.entries hint = .ok () := by
  cases hint <;> rfl

end Token

namespace Value

mutual

/--
The tokens of a value. Every list and map announces its length; a nested instance is written as a
map that leaves out its null fields, while a map keeps its nulls.
-/
def encode : Value → Token
  | .null => .unit
  | .boolean b => .boolean b
  | .integer n => .signed n
  | .float x => .binary64 x
  | .string s => .string s
  | .list items => .seq (some items.length) (encodeItems items)
  | .map ⟨entries⟩ => .map (some entries.length) (encodeEntries entries)
  | .object inst => encodeInstance inst
termination_by structural value => value

def encodeInstance : Instance → Token
  | ⟨_, ⟨fields⟩, _⟩ =>
    let entries := encodeFields fields
    .map (some entries.length) entries
termination_by structural inst => inst

def encodeItems : List Value → List Token
  | [] => []
  | value :: rest => encode value :: encodeItems rest
termination_by structural values => values

def encodeEntries : List (String × Value) → List (Token × Token)
  | [] => []
  | (name, value) :: rest => (.string name, encode value) :: encodeEntries rest
termination_by structural entries => entries

/--
The entries of the fields that are not null.
-/
def encodeFields : List (String × Value) → List (Token × Token)
  | [] => []
  | (name, value) :: rest =>
    if value.isNull then encodeFields rest else (.string name, encode value) :: encodeFields rest
termination_by structural fields => fields

end

end Value

end ContentModel
