import HeaderOutline.Text.Basic
import HeaderOutline.Text.Table.Extender
import HeaderOutline.Text.Table.Unprintable

/-! # Quoted text

The form in which a text is shown on one line: between double quotes, with the
usual escapes for the quote, the backslash and the common control characters,
and with a code point in braces for whatever else has no shape of its own.
-/
namespace HeaderOutline.Text

/-- A code point in hexadecimal between braces, as in `\u{feff}`. -/
def codePoint (c : Char) : Text :=
  "\\u\x7b".toList ++ Nat.toDigits 16 c.toNat ++ "\x7d".toList

/-- Whether a character is shown as it is. -/
def isShown (c : Char) : Bool :=
  c == ' ' || !(covers extenderTable c || covers unprintableTable c)

/-- One character inside a quoted text. -/
def escape (c : Char) : Text :=
  match c with
  | '\x00' => "\\0".toList
  | '\t' => "\\t".toList
  | '\r' => "\\r".toList
  | '\n' => "\\n".toList
  | '\\' => "\\\\".toList
  | '"' => "\\\"".toList
  | c => if isShown c then [c] else codePoint c

/-- The text between double quotes, its characters escaped. -/
def quote (t : Text) : Text := '"' :: t.flatMap escape ++ ['"']

end HeaderOutline.Text
