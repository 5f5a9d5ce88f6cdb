import ModuleBundler.Json.Writer
import ModuleBundler.Text.Printable

/-!
Quoted text in messages: single quotes, unless the text holds a single and no double quote. Control
and other hidden characters are shown by their number in two, four or eight hexadecimal digits.
-/
namespace ModuleBundler.Text

def escaped (quote c : Char) : Text :=
  if c == quote || c == '\\' then ['\\', c]
  else if c == '\n' then ['\\', 'n']
  else if c == '\r' then ['\\', 'r']
  else if c == '\t' then ['\\', 't']
  else if isPrintable c then [c]
  else if c.toNat < 256 then '\\' :: 'x' :: (Json.hex4 c.toNat).drop 2
  else if c.toNat < 65536 then '\\' :: 'u' :: Json.hex4 c.toNat
  else '\\' :: 'U' :: Json.hex4 (c.toNat / 65536) ++ Json.hex4 (c.toNat % 65536)

def quoteFor (text : Text) : Char :=
  if '\'' ∈ text ∧ '"' ∉ text then '"' else '\''

def quoted (text : Text) : Text :=
  let quote := quoteFor text
  quote :: text.flatMap (escaped quote) ++ [quote]

end ModuleBundler.Text
