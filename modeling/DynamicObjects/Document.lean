import DynamicObjects.Double
import DynamicObjects.Word

/-!
Documents: the tree of plain data that records are written to and read from. A record with named parts
is an object, and is read from an array of all its parts as well; a choice is its name, or an object
with the name as its only field when something belongs to it.
-/
namespace DynamicObjects

inductive Document
  | null
  | flag (b : Bool)
  | integer (n : Int)
  | real (d : Double)
  | text (s : String)
  | items (xs : List Document)
  | fields (xs : List (String × Document))
  deriving Inhabited

namespace Document

def optional {α : Type} (write : α → Document) : Option α → Document
  | some a => write a
  | none => null

def size (n : Nat) : Document := integer n

def choice (name : String) (content : Document) : Document := fields [(name, content)]

def flag? : Document → Option Bool
  | flag b => some b
  | _ => none

def text? : Document → Option String
  | text s => some s
  | _ => none

def word? : Document → Option Int64
  | integer n => Word.ofInt? n
  | _ => none

def sizeUpTo? (most : Nat) : Document → Option Nat
  | integer n => if 0 ≤ n ∧ n ≤ most then some n.toNat else none
  | _ => none

def size? : Document → Option Nat := sizeUpTo? Word.sizeMax

def real? : Document → Option Double
  | real d => some d
  | integer n => some (Double.ofInt n)
  | _ => none

/-- The part of that name, where a part that is not there reads as `null`. -/
def optional? {α : Type} (read : Document → Option α) : Document → Option (Option α)
  | null => some none
  | d => (read d).map some

def choice? : Document → Option (String × Document)
  | text name => some (name, null)
  | fields [(name, content)] => some (name, content)
  | _ => none

/-- A choice that nothing belongs to. -/
def plainChoice? {α : Type} (ofName : String → Option α) (d : Document) : Option α :=
  match d.choice? with
  | some (name, null) => ofName name
  | _ => none

def parts? (names : List String) : Document → Option (List (String × Document))
  | fields xs => some xs
  | items xs => if xs.length = names.length then some (names.zip xs) else none
  | _ => none

def part? {α : Type} (parts : List (String × Document)) (name : String)
    (read : Document → Option α) : Option α :=
  (parts.lookup name).bind read

def optionalPart? {α : Type} (parts : List (String × Document)) (name : String)
    (read : Document → Option α) : Option (Option α) :=
  optional? read ((parts.lookup name).getD null)

end Document

end DynamicObjects
