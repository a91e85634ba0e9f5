import VisitGraph.Text.Printable

/-! Text between quotes, on one line, with every hidden character written out by number. -/

namespace VisitGraph.Text

/-- The number in base sixteen, in lower case, with leading zeros up to the given width. -/
def paddedHex (width n : Nat) : List Char :=
  let digits := Nat.toDigits 16 n
  List.replicate (width - digits.length) '0' ++ digits

/-- The quote is single unless the text holds single quotes and no double one. -/
def chooseQuote (text : List Char) : Char :=
  if text.contains '\'' && !text.contains '"' then '"' else '\''

/-- One character as it stands between quotes: the quote and the backslash are escaped, and what
cannot be shown is named or given by its number in two, four or eight digits. -/
def quotedChar (quote c : Char) : List Char :=
  if c == quote || c == '\\' then ['\\', c]
  else if c == '\t' then ['\\', 't']
  else if c == '\n' then ['\\', 'n']
  else if c == '\r' then ['\\', 'r']
  else if isPrintable c then [c]
  else if c.toNat < 0x100 then '\\' :: 'x' :: paddedHex 2 c.toNat
  else if c.toNat < 0x10000 then '\\' :: 'u' :: paddedHex 4 c.toNat
  else '\\' :: 'U' :: paddedHex 8 c.toNat

/-- The text between quotes. -/
def quoted (text : List Char) : List Char :=
  let quote := chooseQuote text
  quote :: text.flatMap (quotedChar quote) ++ [quote]

end VisitGraph.Text
