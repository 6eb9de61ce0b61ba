import CoinCommit.Text.Printable

/-!
# Quoted Text

Texts and characters that come from outside are shown in messages between
quotes, so that their ends, blanks and control characters can be seen. Inside,
a backslash and the quote in use are escaped, the common controls have their
letters, and every other character that would not show has its number.

## Main definitions

* `Quoted.escape`: One character inside a given kind of quote.
* `Quoted.char`: A character in single quotes.
* `Quoted.text`: A text in double quotes.
-/

namespace CoinCommit

namespace Quoted

/-- A character as it stands inside quotes of the given kind. -/
def escape (quote c : Char) : List Char :=
  if c = '\x00' then ['\\', '0']
  else if c = '\t' then ['\\', 't']
  else if c = '\n' then ['\\', 'n']
  else if c = '\r' then ['\\', 'r']
  else if c = '\\' || c = quote then ['\\', c]
  else if Printable.isShown c then [c]
  else ['\\', 'u', '{'] ++ Nat.toDigits 16 c.toNat ++ ['}']

/-- A character in single quotes. -/
def char (c : Char) : String := String.ofList ('\'' :: escape '\'' c ++ ['\''])

/-- A text in double quotes. -/
def text (s : String) : String := String.ofList ('"' :: s.toList.flatMap (escape '"') ++ ['"'])

end Quoted

end CoinCommit
