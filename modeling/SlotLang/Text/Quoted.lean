import SlotLang.Text.Extender
import SlotLang.Text.Printable

/-!
# Quoted text

A text inside a message is set between double quotation marks, so that a reader sees where it ends
and which characters it holds.  The mark itself and the backslash are written after a backslash, the
four common controls by their letters, and every other character that would not be visible on its
own by its code point in lower-case hexadecimal digits.
-/

namespace SlotLang
namespace Text

def hexadecimal (n : Nat) : String :=
  String.ofList (Nat.toDigits 16 n)

def escapeChar (c : Char) : String :=
  if c = '\x00' then "\\0"
  else if c = '\t' then "\\t"
  else if c = '\n' then "\\n"
  else if c = '\r' then "\\r"
  else if c = '"' then "\\\""
  else if c = '\\' then "\\\\"
  else if isExtender c || !isPrintable c then "\\u\x7b" ++ hexadecimal c.toNat ++ "\x7d"
  else String.singleton c

def quoted (text : String) : String :=
  "\"" ++ String.join (text.toList.map escapeChar) ++ "\""

end Text
end SlotLang
