import LineGrammar.Text.Extender
import LineGrammar.Text.Unprintable

/-! Quoted text. The quote, the backslash and the usual controls have short escapes; whatever has
no glyph of its own or would attach to the character before it is written as its code point in
hexadecimal, so the quoted form is one line and reads back in one way only. -/

namespace LineGrammar.Text

def hexDigits (n : Nat) : List Char := Nat.toDigits 16 n

def quoteChar (c : Char) : List Char :=
  if c == '\x00' then ['\\', '0']
  else if c == '\t' then ['\\', 't']
  else if c == '\r' then ['\\', 'r']
  else if c == '\n' then ['\\', 'n']
  else if c == '"' then ['\\', '"']
  else if c == '\\' then ['\\', '\\']
  else if isExtender c || isUnprintable c then ['\\', 'u', '{'] ++ hexDigits c.toNat ++ ['}']
  else [c]

def quote (text : String) : String :=
  String.ofList ('"' :: text.toList.flatMap quoteChar ++ ['"'])

end LineGrammar.Text
