import DynamicObjects.Bytes.Hex
import DynamicObjects.Codec.Utf8

/-!
Text encodings by name. ASCII and Latin-1 map a character to the byte of its number and differ only
in how many characters they know.
-/
namespace DynamicObjects

inductive Codec
  | utf8
  | ascii
  | latin1
  deriving DecidableEq

namespace Codec

def name : Codec → String
  | utf8 => "utf-8"
  | ascii => "ascii"
  | latin1 => "latin-1"

def aliases : Codec → List String
  | utf8 => ["utf-8", "utf8"]
  | ascii => ["ascii", "us-ascii"]
  | latin1 => ["latin-1", "latin1", "iso-8859-1", "iso8859-1", "cp819", "latin", "l1"]

def normalizeName (text : String) : String :=
  text.map fun c => if c = '_' then '-' else c.toLower

def lookup (encoding : String) : Except Error Codec :=
  match [utf8, ascii, latin1].find? (·.aliases.contains (normalizeName encoding)) with
  | some codec => .ok codec
  | none => .error (.unknownEncoding encoding)

def range : Codec → Nat
  | ascii => 128
  | _ => 256

def byteText (b : UInt8) : String := "0x" ++ String.ofList (Bytes.hexPair b)

def hexDigits (n : Nat) : List Char := Nat.toDigits 16 n

def characterText (c : Char) : String :=
  "\\u\x7b" ++ String.ofList (hexDigits c.toNat) ++ "\x7d"

def decodeUtf8 (data : Bytes) : Except Error String :=
  match Utf8.decode data with
  | .ok text => .ok text
  | .error fault =>
    .error (.undecodable utf8.name (byteText (data.getD fault.position 0)) fault.position
      (if fault.cutOff then "unexpected end of data" else "invalid start byte"))

def decodeByte (b : UInt8) : Char := Char.ofNat b.toNat

def decodeSingle (codec : Codec) (data : Bytes) : Except Error String :=
  match data.findIdx? (codec.range ≤ ·.toNat) with
  | some position =>
    .error (.undecodable codec.name (byteText (data.getD position 0)) position
      s!"ordinal not in range({codec.range})")
  | none => .ok (String.ofList (data.map decodeByte))

def encodeSingle (codec : Codec) (position : Nat) : List Char → Except Error Bytes
  | [] => .ok []
  | c :: rest =>
    if c.toNat < codec.range then
      (codec.encodeSingle (position + 1) rest).map (UInt8.ofNat c.toNat :: ·)
    else .error (.unencodable codec.name (characterText c) position codec.range)

def decode (codec : Codec) (data : Bytes) : Except Error String :=
  match codec with
  | utf8 => decodeUtf8 data
  | other => other.decodeSingle data

def encode (codec : Codec) (text : String) : Except Error Bytes :=
  match codec with
  | utf8 => .ok (Utf8.encode text)
  | other => other.encodeSingle 0 text.toList

end Codec

namespace Bytes

def decode (data : Bytes) (encoding : String) : Except Error String :=
  (Codec.lookup encoding).bind (·.decode data)

def ofText (text : String) (encoding : String) : Except Error Bytes :=
  (Codec.lookup encoding).bind (·.encode text)

end Bytes

end DynamicObjects
