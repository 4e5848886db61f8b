import Mathlib.Data.Int.Bitwise
import Mathlib.Tactic.Linarith
import Mathlib.Tactic.NormNum
import GoCoupe.BigEndianBytes
import GoCoupe.CommonTypes

/-!
# Big integers, machine words and byte slices

The helpers of the `common` package that the virtual machine computes with.
-/

namespace GoCoupe.BigIntegerWords

/-- `x.And(x, tt256m1)`: the low 256 bits in two's complement. -/
def u256 (x:ℤ):ℤ:=x%2^256

def s256 (x:ℤ):ℤ:=if x<2^255 then x else x-2^256

/-- The method `Uint64` of `big.Int`: the low 64 bits of the absolute value. -/
def uint64 (x:ℤ):ℕ:=x.natAbs%2^64

/-- Two's complement wrap-around at 64 bits, which is also the method `Int64` of `big.Int`. -/
def int64 (x:ℤ):ℤ:=(x+2^63)%2^64-2^63

def bytes (x:ℤ):Bytes:=BigEndianBytes.shortest x.natAbs

def bytesToBig (data:Bytes):ℤ:=BigEndianBytes.value data

/-- A hash keeps the last 32 bytes of a longer slice. -/
def bigToHash (x:ℤ):Hash:=Fin.ofNat _ x.natAbs

def bigToAddress (x:ℤ):Address:=Fin.ofNat _ x.natAbs

def hashToBig (h:Hash):ℤ:=h.val

def addressToBig (a:Address):ℤ:=a.val

def bitTest (num:ℤ) (i:ℕ):Bool:=num.testBit i

def rightPadBytes (slice:Bytes) (l:ℤ):Bytes:=
 if l < slice.length then slice else slice++List.replicate (l.toNat-slice.length) 0

def leftPadBytes (slice:Bytes) (l:ℤ):Bytes:=
 if l < slice.length then slice else List.replicate (l.toNat-slice.length) 0++slice

def bigToBytes (num:ℤ) (base:ℕ):Bytes:=if base/8<(bytes num).length then bytes num
 else List.replicate (base/8-(bytes num).length) 0++bytes num

/-- The bytes of `data` from `start` on, filled up with zeros to `size`. -/
def getData (data:Bytes) (start size:ℤ):Bytes:=let s:=min start data.length
 let e:=min (s+size) data.length
 rightPadBytes ((data.take (uint64 e)).drop (uint64 s)) (int64 (uint64 size))

lemma u256_nonneg(x:ℤ):0≤u256 x:=Int.emod_nonneg _ (by norm_num)

lemma bytesToBig_nonneg(data:Bytes):0≤bytesToBig data:=Int.natCast_nonneg _

lemma hashToBig_nonneg(h:Hash):0≤hashToBig h:=Int.natCast_nonneg _

lemma addressToBig_nonneg(a:Address):0≤addressToBig a:=Int.natCast_nonneg _

lemma uint64_of_lt(h0:0≤x)(h:x<2^64):(uint64 x:ℤ)=x:=by
 unfold uint64
 omega

lemma int64_of_lt(h0:0≤x)(h:x<2^63):int64 x=x:=by
 unfold int64
 omega

lemma bytes_eq_nil:bytes x=[]↔x=0:=by
 rw[←List.length_eq_zero_iff,bytes,BigEndianBytes.shortest,BigEndianBytes.fixed_length,
  BigEndianBytes.width]
 split<;>omega

lemma bytes_length_pos:0<(bytes x).length↔x≠0:=by
 rw[List.length_pos_iff,ne_eq,bytes_eq_nil]

lemma le_leftPadBytes_length(slice:Bytes)(l:ℤ):l≤(leftPadBytes slice l).length:=by
 unfold leftPadBytes
 split
 ·omega
 simp
 omega

end GoCoupe.BigIntegerWords
