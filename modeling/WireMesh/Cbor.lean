import Mathlib.Data.List.Sort
import WireMesh.Text

/-!
# Deterministic CBOR encoding

The encodings of the items an envelope is made of, in core deterministic form:
heads in their shortest width, definite lengths, map entries ordered by their
encoded keys. An item is given by its encoding.
-/

namespace WireMesh.Cbor

/-- The `k` low bytes of `n`, the most significant first. -/
def bigEndian : ℕ → ℕ → Bytes
  | 0, _ => []
  | k + 1, n => bigEndian k (n / 256) ++ [UInt8.ofNat n]

/-- The head of an item: its major type, and an argument in the shortest width. -/
def head (major n : ℕ) : Bytes :=
  if n < 24 then [UInt8.ofNat (32 * major + n)]
  else if n < 2 ^ 8 then UInt8.ofNat (32 * major + 24) :: bigEndian 1 n
  else if n < 2 ^ 16 then UInt8.ofNat (32 * major + 25) :: bigEndian 2 n
  else if n < 2 ^ 32 then UInt8.ofNat (32 * major + 26) :: bigEndian 4 n
  else UInt8.ofNat (32 * major + 27) :: bigEndian 8 n

def uint (n : ℕ) : Bytes := head 0 n

def int : ℤ → Bytes
  | .ofNat n => head 0 n
  | .negSucc n => head 1 n

def bytes (b : Bytes) : Bytes := head 2 b.length ++ b

def utf8 (s : String) : Bytes := s.toByteArray.data.toList

def text (s : String) : Bytes := head 3 (utf8 s).length ++ utf8 s

def array (items : List Bytes) : Bytes := head 4 items.length ++ items.flatten

/-- A map, its entries ordered by their encoded keys. -/
def map (entries : List (Bytes × Bytes)) : Bytes :=
  head 5 entries.length ++
    (entries.insertionSort fun a b => a.1 ≤ b.1).flatMap fun e => e.1 ++ e.2

/-- A map with text keys, the absent entries being left out. -/
def object (entries : List (String × Option Bytes)) : Bytes :=
  map (entries.filterMap fun e => e.2.map fun value => (text e.1, value))

def bool : Bool → Bytes
  | false => [0xf4]
  | true => [0xf5]

def null : Bytes := [0xf6]

example : object [("path", some (text "/a")), ("gone", none), ("kind", some (text "fs"))] =
    [0xa2, 0x64, 0x6b, 0x69, 0x6e, 0x64, 0x62, 0x66, 0x73,
      0x64, 0x70, 0x61, 0x74, 0x68, 0x62, 0x2f, 0x61] := by decide

end WireMesh.Cbor
