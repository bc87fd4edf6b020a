import MailRules.Text.Printable

/-! Text in quotes, as messages show it.

A backslash, the quote in use and the characters without a printed form are escaped. The quote
is single, unless the text holds a single quote and no double one. -/
namespace MailRules.Text

def hexDigit (n : Nat) : Char :=
  (Nat.toDigits 16 n).headD '0'

/-- The lowest `width` hexadecimal digits. -/
def hexDigits : (width : Nat) → Nat → List Char
  | 0, _ => []
  | width + 1, n => hexDigits width (n / 16) ++ [hexDigit (n % 16)]

/-- The character within quotes of the kind `quote`. -/
def escapeChar (quote c : Char) : List Char :=
  if c = quote ∨ c = '\\' then ['\\', c]
  else if c = '\n' then ['\\', 'n']
  else if c = '\r' then ['\\', 'r']
  else if c = '\t' then ['\\', 't']
  else if isPrintable c then [c]
  else if c.toNat < 0x100 then '\\' :: 'x' :: hexDigits 2 c.toNat
  else if c.toNat < 0x10000 then '\\' :: 'u' :: hexDigits 4 c.toNat
  else '\\' :: 'U' :: hexDigits 8 c.toNat

/-- The quote that a text is shown in. -/
def quoteFor (s : List Char) : Char :=
  if s.contains '\'' && !s.contains '\"' then '\"' else '\''

def quotedChars (s : List Char) : List Char :=
  let quote := quoteFor s
  quote :: s.flatMap (escapeChar quote) ++ [quote]

def quoted (s : String) : String :=
  String.ofList (quotedChars s.toList)

end MailRules.Text
