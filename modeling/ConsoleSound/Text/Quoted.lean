import ConsoleSound.Text.Hex
import ConsoleSound.Text.Visible
/-! # Quoted text

A text shown in a message stands between double quotes, and characters that
are not visible are escaped. -/

namespace ConsoleSound.Text

/-- The form a character takes between double quotes. -/
def escapeChar (char : Char) : String :=
  if char = '"' then "\\\""
  else if char = '\\' then "\\\\"
  else if char = '\t' then "\\t"
  else if char = '\n' then "\\n"
  else if char = '\r' then "\\r"
  else if char.toNat = 0 then "\\0"
  else if isVisible char then char.toString
  else "\\u\x7b" ++ hex char.toNat ++ "\x7d"

/-- A text between double quotes. -/
def quoted (text : String) : String :=
  "\"" ++ String.join (text.toList.map escapeChar) ++ "\""

end ConsoleSound.Text
