import ContentModel.Text.Unprintable

/-!
This module contains the quoted form of a text: between double quotes, with a backslash before what
could not be read back otherwise.
-/

namespace ContentModel.Text

/--
The code point of a character in hexadecimal between braces.
-/
def codePoint (c : Char) : List Char :=
  ['\\', 'u', '\x7b'] ++ Nat.toDigits 16 c.toNat ++ ['\x7d']

/--
The written form of a character: quotes and backslashes are escaped, blanks that have a letter are
written with it, and all else that does not print is given by its code point.
-/
def escape (c : Char) : List Char :=
  match c with
  | '\x00' => ['\\', '0']
  | '\t' => ['\\', 't']
  | '\r' => ['\\', 'r']
  | '\n' => ['\\', 'n']
  | '"' => ['\\', '"']
  | '\\' => ['\\', '\\']
  | c => if isUnprintable c then codePoint c else [c]

/--
A text between double quotes.
-/
def quoted (s : String) : String :=
  String.ofList ('"' :: s.toList.flatMap escape ++ ['"'])

/--
The written form of something that may be missing, given the one of the thing itself.
-/
def optional {α : Type} (text : α → String) : Option α → String
  | some a => "Some(" ++ text a ++ ")"
  | none => "None"

example : quoted "a\"b\\c\n\x01" = "\"a\\\"b\\\\c\\n\\u\x7b1\x7d\"" := by decide +kernel

end ContentModel.Text
