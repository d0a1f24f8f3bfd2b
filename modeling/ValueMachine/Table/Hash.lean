import ValueMachine.Text.Utf8

/-!
# Hashing keys

The 64-bit FNV-1a hash of the UTF-8 bytes of a key.
-/

namespace ValueMachine.Table

def offsetBasis : UInt64 := 0xCBF29CE484222325

def hashPrime : UInt64 := 0x100000001B3

/-- Each byte is mixed in by exclusive or, then multiplied through. -/
def hash (key : String) : UInt64 :=
  (Text.Utf8.encode key).foldl (fun h byte => (h ^^^ byte.toUInt64) * hashPrime) offsetBasis

end ValueMachine.Table
