import DynamicObjects.Bytes.Hex

/-!
Quoted forms. A text is written between single quotes, or between double quotes when it holds single
quotes only. The quote in use, the backslash and what cannot be printed are escaped.
-/
namespace DynamicObjects

def quoteFor (hasSingle hasDouble : Bool) : Char :=
  if hasSingle && !hasDouble then '"' else '\''

namespace Text

def escapeByte (n : UInt8) : List Char := '\\' :: 'x' :: Bytes.hexPair n

/-- Control characters have no printed form; characters from 128 on are printed as they are. -/
def escapeChar (quote : Char) (c : Char) : List Char :=
  if c = '\\' then ['\\', '\\']
  else if c = '\n' then ['\\', 'n']
  else if c = '\r' then ['\\', 'r']
  else if c = '\t' then ['\\', 't']
  else if c = quote then ['\\', c]
  else if c.toNat < 32 ∨ c.toNat = 127 then escapeByte (UInt8.ofNat c.toNat)
  else [c]

def quotedChars (text : List Char) : List Char :=
  let quote := quoteFor (text.contains '\'') (text.contains '"')
  quote :: text.flatMap (escapeChar quote) ++ [quote]

def quoted (text : String) : String := String.ofList (quotedChars text.toList)

end Text

namespace Bytes

/-- Bytes that are no printable ASCII characters are written as their number. -/
def escapeByte (quote : Char) (b : UInt8) : List Char :=
  if b = 92 then ['\\', '\\']
  else if b = 9 then ['\\', 't']
  else if b = 10 then ['\\', 'n']
  else if b = 13 then ['\\', 'r']
  else if b.toNat = quote.toNat then ['\\', quote]
  else if 32 ≤ b ∧ b ≤ 126 then [Char.ofNat b.toNat]
  else Text.escapeByte b

def quotedChars (data : Bytes) : List Char :=
  let quote := quoteFor (data.contains 39) (data.contains 34)
  'b' :: quote :: data.flatMap (escapeByte quote) ++ [quote]

def quoted (data : Bytes) : String := String.ofList (quotedChars data)

end Bytes

end DynamicObjects
