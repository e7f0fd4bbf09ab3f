import RoundRobin.Store.Error

/-!
# Byte stores

A `ByteStore` is a growable sequence of bytes addressed by 64-bit offsets,
held in memory or in a file. Writing past the end grows the store and fills
the gap with zeros. The two backings differ only at the edges:

* in memory, a read must end within the store, even an empty one; a write
  whose end does not fit in 64 bits is refused; an empty write still grows
  the store up to its offset;
* a file lives on a file system with a largest file size, its `limit`:
  offsets past it cannot be sought, and a write may not end past it; an
  empty read always succeeds, a longer one must end within the file; an
  empty write changes nothing.
-/

namespace RoundRobin

inductive Backing where
  | memory
  | file (limit : Nat)
  deriving DecidableEq

structure ByteStore where
  backing : Backing
  bytes : List UInt8
  deriving DecidableEq

namespace ByteStore

def offsetMax : Nat := Nat.pow 2 64 - 1

def size (s : ByteStore) : Nat := s.bytes.length

def put (bytes : List UInt8) (offset : Nat) (data : List UInt8) : List UInt8 :=
  let padded := bytes ++ List.replicate (offset + data.length - bytes.length) 0
  padded.take offset ++ data ++ padded.drop (offset + data.length)

def read (s : ByteStore) (offset len : Nat) : Except StoreError (List UInt8) :=
  match s.backing with
  | .memory =>
    if offset + len ≤ s.size then .ok ((s.bytes.drop offset).take len)
    else .error (.outOfBounds offset len s.size)
  | .file limit =>
    if limit < offset then .error (.io .invalidSeek)
    else if len = 0 then .ok []
    else if offset + len ≤ s.size then .ok ((s.bytes.drop offset).take len)
    else .error (.io .shortRead)

def write (s : ByteStore) (offset : Nat) (data : List UInt8) : Except StoreError ByteStore :=
  match s.backing with
  | .memory =>
    if offset + data.length > offsetMax then
      .error (.invalidValue s!"write at offset {offset} overflows")
    else .ok { s with bytes := put s.bytes offset data }
  | .file limit =>
    if limit < offset then .error (.io .invalidSeek)
    else if data.isEmpty then .ok s
    else if limit < offset + data.length then .error (.io .fileTooLarge)
    else .ok { s with bytes := put s.bytes offset data }

end ByteStore

def bigEndian (width n : Nat) : List UInt8 :=
  (List.range width).reverse.map fun k => UInt8.ofNat (n / Nat.pow 2 (8 * k))

def ofBigEndian (bs : List UInt8) : Nat := bs.foldl (fun acc b => acc * 256 + b.toNat) 0

end RoundRobin
