import MolangCompiler.Text.Printable

/-!
# Quoted text

Messages show a name or a source between quotes.  Single quotes are used unless the text holds a
single quote and no double quote.  The backslash, the quote in use and every character that is
not printable are escaped: tab, line feed and carriage return by a letter, all others by the
fewest of two, four or eight hexadecimal digits that hold the code point.
-/

namespace MolangCompiler.Quoted

/-- `n` in lower-case hexadecimal, filled up with zeros to `width` digits. -/
def hex (width n : Nat) : String :=
  let digits := Nat.toDigits 16 n
  String.ofList (List.replicate (width - digits.length) '0' ++ digits)

/-- The quote that encloses a text. -/
def mark (cs : List Char) : Char :=
  if cs.contains '\'' && !cs.contains '"' then '"' else '\''

/-- One character as it stands between the quotes. -/
def escape (quote c : Char) : String :=
  if c = quote ∨ c = '\\' then String.ofList ['\\', c]
  else if c = '\t' then "\\t"
  else if c = '\n' then "\\n"
  else if c = '\r' then "\\r"
  else if isPrintable c then c.toString
  else if c.toNat < 256 then "\\x" ++ hex 2 c.toNat
  else if c.toNat < 65536 then "\\u" ++ hex 4 c.toNat
  else "\\U" ++ hex 8 c.toNat

end Quoted

/-- A text between quotes, escaped so that it stays on one line. -/
def quoted (s : String) : String :=
  let quote := Quoted.mark s.toList
  quote.toString ++ String.join (s.toList.map (Quoted.escape quote)) ++ quote.toString

end MolangCompiler
