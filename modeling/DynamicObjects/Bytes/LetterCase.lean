import DynamicObjects.Bytes.Basic

/-!
Letter case. Titles are made and recognised with one bit of memory: whether the byte before was a
letter.
-/
namespace DynamicObjects.Bytes

def lower (data : Bytes) : Bytes := data.map toLower

def upper (data : Bytes) : Bytes := data.map toUpper

def swapCase (data : Bytes) : Bytes :=
  data.map fun b => if isUpperLetter b then toLower b else toUpper b

def titleFrom (afterLetter : Bool) : Bytes → Bytes
  | [] => []
  | b :: rest => (if afterLetter then toLower b else toUpper b) :: titleFrom (isLetter b) rest

def title (data : Bytes) : Bytes := titleFrom false data

def capitalize (data : Bytes) : Bytes :=
  match data with
  | [] => []
  | b :: rest => toUpper b :: lower rest

def isAlpha (data : Bytes) : Bool := !data.isEmpty && data.all isLetter

def isDecimal (data : Bytes) : Bool := !data.isEmpty && data.all isDigit

def isAlphanumeric (data : Bytes) : Bool :=
  !data.isEmpty && data.all fun b => isLetter b || isDigit b

def isSpace (data : Bytes) : Bool := !data.isEmpty && data.all isBlank

def isAscii (data : Bytes) : Bool := data.all (· < 128)

def isLower (data : Bytes) : Bool := data.any isLowerLetter && !data.any isUpperLetter

def isUpper (data : Bytes) : Bool := data.any isUpperLetter && !data.any isLowerLetter

/-- Upper-case letters begin runs of letters, lower-case letters continue them; `found` tells whether
there has been a letter at all. -/
def isTitleFrom (afterLetter found : Bool) : Bytes → Bool
  | [] => found
  | b :: rest =>
    if isUpperLetter b then !afterLetter && isTitleFrom true true rest
    else if isLowerLetter b then afterLetter && isTitleFrom true true rest
    else isTitleFrom false found rest

def isTitle (data : Bytes) : Bool := isTitleFrom false false data

end DynamicObjects.Bytes
