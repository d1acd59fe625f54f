import RootedFS.Text.Printable

/-!
# Quoted text

Names in descriptions and messages are quoted: between apostrophes, or between double quotes
when the text holds an apostrophe and no double quote. The backslash and the chosen mark are
escaped, as are line ends and tabs; a character that is not printable is written by its code.

## Main definitions

* `Text.quote`: a text in quotes
* `Text.quoteList`: a list of quoted texts in brackets
-/

namespace RootedFS.Text

/-- The lower-case hexadecimal digits of `n`, padded with zeros to at least `width` digits. -/
def hexDigits (width n : Nat) : List Char :=
  let digits := Nat.toDigits 16 n
  List.replicate (width - digits.length) '0' ++ digits

/-- The escape that names a character by its code: two, four or eight hexadecimal digits. -/
def codeEscape (c : Char) : List Char :=
  if c.toNat < 0x100 then '\\' :: 'x' :: hexDigits 2 c.toNat
  else if c.toNat < 0x10000 then '\\' :: 'u' :: hexDigits 4 c.toNat
  else '\\' :: 'U' :: hexDigits 8 c.toNat

/-- A character as it stands between two marks `mark`. -/
def escapeChar (mark c : Char) : List Char :=
  if c = mark ∨ c = '\\' then ['\\', c]
  else if c = '\t' then ['\\', 't']
  else if c = '\n' then ['\\', 'n']
  else if c = '\r' then ['\\', 'r']
  else if isPrintable c then [c]
  else codeEscape c

/-- The mark that quotes most texts. -/
def apostrophe : Char := Char.ofNat 0x27

/-- The mark that quotes a text with an apostrophe. -/
def doubleQuote : Char := Char.ofNat 0x22

/-- The mark that quotes a text: the apostrophe, unless the text holds one and no double quote. -/
def markFor (l : List Char) : Char :=
  if apostrophe ∈ l ∧ doubleQuote ∉ l then doubleQuote else apostrophe

/-- A text in quotes. -/
def quote (s : String) : String :=
  let mark := markFor s.toList
  String.ofList (mark :: s.toList.flatMap (escapeChar mark) ++ [mark])

/-- A list of texts, each in quotes, between brackets. -/
def quoteList (l : List String) : String :=
  "[" ++ ", ".intercalate (l.map quote) ++ "]"

end RootedFS.Text
