import RoundRobin.Store.Bytes
import RoundRobin.Number.Binary64

/-!
# Cells

A cell is an 8-byte big-endian slot of a store at a fixed offset, holding a
double (its bit pattern) or a 64-bit signed integer (two's complement).
Reading and writing a cell is reading and writing its eight bytes.
-/

namespace RoundRobin

def cellSize : Nat := 8

namespace ByteStore

def readDouble (s : ByteStore) (offset : Nat) : Except StoreError Binary64 :=
  (s.read offset cellSize).map fun bs => ⟨UInt64.ofNat (ofBigEndian bs)⟩

def writeDouble (s : ByteStore) (offset : Nat) (x : Binary64) : Except StoreError ByteStore :=
  s.write offset (bigEndian cellSize x.bits.toNat)

def signedOf (v : Nat) : Int := if v < Nat.pow 2 63 then v else (v : Int) - Int.pow 2 64

def readLong (s : ByteStore) (offset : Nat) : Except StoreError Int :=
  (s.read offset cellSize).map fun bs => signedOf (ofBigEndian bs)

def writeLong (s : ByteStore) (offset : Nat) (n : Int) : Except StoreError ByteStore :=
  s.write offset (bigEndian cellSize (n % Int.pow 2 64).toNat)

end ByteStore

end RoundRobin
