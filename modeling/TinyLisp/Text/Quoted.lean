import TinyLisp.Text.Extender
import TinyLisp.Text.Printable

/-!
# Quoted text

A name inside a message is written between double quotes, so that blanks,
quotes and invisible characters can be told apart:

* a double quote and a backslash get a backslash in front;
* NUL, tab, line feed and carriage return are `\0`, `\t`, `\n` and `\r`;
* any other unprintable character or grapheme extender is its code point in
  hexadecimal, as in `\u{200b}`;
* every other character stands for itself.
-/

namespace TinyLisp.Text

/-- The hexadecimal digits of a number, in lower case and without padding. -/
def hexadecimal (n : Nat) : String :=
  String.ofList (Nat.toDigits 16 n)

/-- How one character is written between quotes. -/
def escape (c : Char) : String :=
  if c = '"' then "\\\""
  else if c = '\\' then "\\\\"
  else if c = '\x00' then "\\0"
  else if c = '\t' then "\\t"
  else if c = '\n' then "\\n"
  else if c = '\r' then "\\r"
  else if isExtender c || !isPrintable c then "\\u\x7b" ++ hexadecimal c.toNat ++ "\x7d"
  else c.toString

/-- A text between double quotes. -/
def quoted (text : String) : String :=
  "\"" ++ String.join (text.toList.map escape) ++ "\""

end TinyLisp.Text
