/-
Byte strings and the ring's hash.

A `std::string` is a sequence of bytes, so it is a `List UInt8` here; `str` turns
a literal of the source into one.  `toStdString` is `std::to_string` on an `int`,
and `murmur3_32` is `MurmurHash3_x86_32` from `src/MurmurHash3.cpp`, block loop,
tail and finalizer.  Keys and node ids are `int`s and only ever reach the ring
through their decimal text, so both are `Int`.
-/
import Mathlib.Data.List.Basic

namespace DistKV

/-- A `std::string`. -/
abbrev Bytes := List UInt8

/-- A string literal of the source. -/
def str (s : String) : Bytes := s.toList.map fun c => UInt8.ofNat c.toNat

/-- What `std::string(p)` reads from a `c_str()`: everything before the first NUL. -/
def cStr (s : Bytes) : Bytes := s.takeWhile (· ≠ 0)

/-- A key of the store, an `int`. -/
abbrev Key := Int

/-- A node id, an `int`; `-1` stands for no node. -/
abbrev NodeId := Int

/-- The address a server is reached at. -/
abbrev Endpoint := Bytes

/-- `std::to_string(int)`. -/
def toStdString (n : Int) : Bytes :=
  let digits := (Nat.toDigits 10 n.natAbs).map fun c => UInt8.ofNat c.toNat
  if n < 0 then str "-" ++ digits else digits

/-! ### MurmurHash3, 32 bits -/

/-- `rotl32`. -/
def rotl32 (x r : UInt32) : UInt32 := (x <<< r) ||| (x >>> (32 - r))

/-- `fmix32`: force all bits of a hash block to avalanche. -/
def fmix32 (h : UInt32) : UInt32 :=
  let h := h ^^^ (h >>> 16)
  let h := h * 0x85ebca6b
  let h := h ^^^ (h >>> 13)
  let h := h * 0xc2b2ae35
  h ^^^ (h >>> 16)

/-- The two constants of `MurmurHash3_x86_32`. -/
def c1 : UInt32 := 0xcc9e2d51
def c2 : UInt32 := 0x1b873593

/-- `getblock32`: four bytes read as a little-endian word. -/
def getblock32 (b0 b1 b2 b3 : UInt8) : UInt32 :=
  b0.toUInt32 ||| (b1.toUInt32 <<< 8) ||| (b2.toUInt32 <<< 16) ||| (b3.toUInt32 <<< 24)

/-- The scrambling a block goes through before it is mixed into the hash. -/
def scramble (k1 : UInt32) : UInt32 := rotl32 (k1 * c1) 15 * c2

/-- The block loop: four bytes a round, returning the hash and the tail. -/
def murmurBody (h1 : UInt32) : Bytes → UInt32 × Bytes
  | b0 :: b1 :: b2 :: b3 :: rest =>
      let h1 := h1 ^^^ scramble (getblock32 b0 b1 b2 b3)
      murmurBody (rotl32 h1 13 * 5 + 0xe6546b64) rest
  | tail => (h1, tail)

/-- The `switch(len & 3)` with its fall-through cases. -/
def murmurTail (h1 : UInt32) : Bytes → UInt32
  | [t0] => h1 ^^^ scramble t0.toUInt32
  | [t0, t1] => h1 ^^^ scramble ((t1.toUInt32 <<< 8) ^^^ t0.toUInt32)
  | [t0, t1, t2] =>
      h1 ^^^ scramble ((t2.toUInt32 <<< 16) ^^^ (t1.toUInt32 <<< 8) ^^^ t0.toUInt32)
  | _ => h1

/-- `MurmurHash3_x86_32`. -/
def murmurHash3_x86_32 (key : Bytes) (seed : UInt32) : UInt32 :=
  let body := murmurBody seed key
  fmix32 (murmurTail body.1 body.2 ^^^ UInt32.ofNat key.length)

/-- `murmur3_32`. -/
def murmur3_32 (key : Bytes) (seed : UInt32) : UInt32 := murmurHash3_x86_32 key seed

end DistKV
