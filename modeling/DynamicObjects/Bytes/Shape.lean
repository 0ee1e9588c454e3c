import DynamicObjects.Bytes.Basic
import DynamicObjects.Error

/-!
Padding, tab expansion and byte tables.
-/
namespace DynamicObjects.Bytes

def padded (data : Bytes) (left right : Nat) (fill : UInt8) : Bytes :=
  List.replicate left fill ++ data ++ List.replicate right fill

/-- An odd surplus goes to the left when the width is odd, and to the right otherwise. -/
def center (data : Bytes) (width : Int) (fill : UInt8) : Bytes :=
  let pad := width.toNat - data.length
  let left := pad / 2 + (if pad % 2 = 1 ∧ width.toNat % 2 = 1 then 1 else 0)
  padded data left (pad - left) fill

def ljust (data : Bytes) (width : Int) (fill : UInt8) : Bytes :=
  padded data 0 (width.toNat - data.length) fill

def rjust (data : Bytes) (width : Int) (fill : UInt8) : Bytes :=
  padded data (width.toNat - data.length) 0 fill

def zfill (data : Bytes) (width : Int) : Bytes :=
  let zeros := List.replicate (width.toNat - data.length) (48 : UInt8)
  match data with
  | [] => zeros
  | b :: rest => if b == 43 || b == 45 then b :: (zeros ++ rest) else zeros ++ b :: rest

/-- Tabs become spaces up to the next multiple of the tab size; a line end starts a new column. -/
def expandTabsFrom (size : Nat) : Nat → Bytes → Bytes
  | _, [] => []
  | column, b :: rest =>
    if b == 9 then
      if size = 0 then expandTabsFrom size column rest
      else
        let spaces := size - column % size
        List.replicate spaces 32 ++ expandTabsFrom size (column + spaces) rest
    else if b == 10 || b == 13 then b :: expandTabsFrom size 0 rest
    else b :: expandTabsFrom size (column + 1) rest

def expandTabs (data : Bytes) (size : Int) : Bytes := expandTabsFrom size.toNat 0 data

def translate (data : Bytes) (table : Option Bytes) (deleted : Bytes) : Except Error Bytes :=
  let kept := data.filter (!deleted.contains ·)
  match table with
  | none => .ok kept
  | some table =>
    if table.length ≠ 256 then .error .translateTable
    else .ok (kept.map fun b => table.getD b.toNat b)

def maketrans (source target : Bytes) : Except Error Bytes :=
  if source.length ≠ target.length then .error .maketransLength
  else .ok ((source.zip target).foldl (fun table (s, t) => table.set s.toNat t) allBytes)

end DynamicObjects.Bytes
