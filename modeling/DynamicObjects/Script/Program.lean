import DynamicObjects.Error
import DynamicObjects.Slice
import DynamicObjects.Double
import DynamicObjects.Bytes.Basic
import DynamicObjects.Kind
import DynamicObjects.Operation

/-!
Programs: the small step language in which callbacks, class slots and whole runs are written. A step
names what is done and the expressions it is done to; a function is a name and a list of steps.
-/
namespace DynamicObjects.Script

inductive TracerChoice
  | recording
  | log
  | silent
  deriving DecidableEq

inductive Wrapper
  | list
  | tuple
  | dict
  deriving DecidableEq

/-- What a step does to its operands, which are evaluated before. -/
inductive Verb
  -- values
  | keep
  | same
  | intrinsicEq
  | intrinsicCompare
  | info
  | asIndex
  | debug
  | payload
  | older
  | typeName
  -- operations of the runtime
  | hash
  | hashStable
  | equals
  | lessThan
  | compare (op : CompareOp)
  | compareBool (op : CompareOp)
  | truthy
  | binary (op : BinaryOp)
  | inPlace (op : BinaryOp)
  | unary (op : UnaryOp)
  | getItem
  | setItem
  | delItem
  | contains
  | len
  | callMethod (name : String)
  | getMember (name : String)
  | collect
  | repr
  | reprMasked
  | invoke
  -- making containers
  | makeList
  | makeDict
  | fromKeys
  | makeBytes
  | makeByteArray
  | makeFrozenSet
  | encode (text encoding : String)
  | encodeArray (text encoding : String)
  | ofHex (text : String)
  -- containers without dispatch
  | buffer
  | trim
  | itemAt (index : Int64)
  | sliceOf (slice : Slice)
  | concatBytes
  | view
  -- iterators
  | openIterator (name : String) (backwards : Bool)
  | next (name : String)
  -- dispatch
  | dispatch (op : Operation)
  | resolve (op : Operation) (key : TypeKey) (name : Option String)
  | sameThunk (left right : String)
  | openSite (op : Operation) (name : Option String)
  | siteInfo (name : String)
  | dropSite (name : String)
  | stats
  | hitRate
  | version
  | invalidate
  | notifyClass (number : Nat)
  | policy
  | setPolicy (tracing : Bool) (limit : Option Nat)
  | setTracing (on : Bool)
  | setLimit (limit : Option Nat)
  | setTracer (choice : Option TracerChoice)
  | events (keep : Bool)
  | slotState (op : Operation) (key : TypeKey)
  | sweep
  | liveSites
  | books
  | waitSweeps
  | depth
  | logs
  -- classes
  | lookups
  | setSlot (number : Nat) (name : String)
  | delSlot (number : Nat) (name : String)
  -- control
  | raise (e : Exception)

inductive Callee
  | thunk (name : String)
  | site (name : String)
  deriving DecidableEq

mutual

inductive Expr
  | none
  | notImplemented
  | bool (b : Bool)
  | int (n : Int64)
  | float (d : Double)
  | str (text : String)
  | bytes (data : Bytes)
  | byteArray (data : Bytes)
  | tuple (items : List Expr)
  | list (items : List Expr)
  | dict (pairs : List (Expr × Expr))
  | frozenSet (items : List Expr)
  | slice (s : Slice)
  | object (number : Nat) (payload : Expr)
  | var (name : String)
  | range (start stop : Int64)
  | nest (wrapper : Wrapper) (count : Nat) (inner : Expr)
  | function (name : String) (body : List Step)

inductive Step
  | act (verb : Verb) (operands : List Expr) (target : Option String)
  /-- The callee is found before the operands are evaluated. -/
  | call (callee : Callee) (operands : List Expr) (target : Option String)
  | branch (condition : Expr) (yes no : List Step) (target : Option String)
  | loop (count : Nat) (body : List Step) (target : Option String)

end

end DynamicObjects.Script
