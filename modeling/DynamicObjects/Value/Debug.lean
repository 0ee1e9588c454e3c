import DynamicObjects.Store
import DynamicObjects.Double.Text
import DynamicObjects.Text.Quoted
import DynamicObjects.Text.Printable

/-!
The text of a value that is meant for developers. It never runs other code: containers that can change
show their kind and identity only.
-/
namespace DynamicObjects

namespace Text

def hexText (n : Nat) : String := String.ofList (Nat.toDigits 16 n)

def debugChar (c : Char) : String :=
  match c with
  | '"' => "\\\""
  | '\\' => "\\\\"
  | '\n' => "\\n"
  | '\r' => "\\r"
  | '\t' => "\\t"
  | '\x00' => "\\0"
  | c => if isHidden c then "\\u\x7b" ++ hexText c.toNat ++ "\x7d" else String.singleton c

def debugQuoted (text : String) : String :=
  "\"" ++ String.join (text.toList.map debugChar) ++ "\""

end Text

namespace Value

/-- Items between brackets; one item has a comma after it, and no items give no text at all. -/
def debugTuple : List String → String
  | [] => ""
  | [one] => "(" ++ one ++ ",)"
  | texts => "(" ++ ", ".intercalate texts ++ ")"

mutual

def debugText (s : Store) : Value → String
  | none => "None"
  | notImplemented => "NotImplemented"
  | bool b => if b then "True" else "False"
  | int n => toString n.toInt
  | float d => d.debugText
  | str _ text => Text.debugQuoted text
  | bytes _ data => Bytes.quoted data
  | tuple _ items => debugTuple (debugTexts s items)
  | slice x => x.describe
  | native _ name _ => "<built-in function " ++ name ++ ">"
  | object id number _ => s!"<object {number} at {id}>"
  | v => "<" ++ v.kind.name ++ " at 0x" ++ Text.hexText ((s.identity? v).getD 0) ++ ">"

def debugTexts (s : Store) : List Value → List String
  | [] => []
  | v :: rest => debugText s v :: debugTexts s rest

end

end Value

end DynamicObjects
