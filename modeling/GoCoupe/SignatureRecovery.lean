import GoCoupe.EvmByteCodeLoop

/-!
# Recovering the signer of a message

The first precompiled contract cuts v down to a byte before it checks it, so that 27 or 28 plus
a multiple of 256 passes as well.
-/

namespace GoCoupe.SignatureRecovery

open EvmMachine EvmByteCodeLoop BigIntegerWords

/-- The bytes from `lo` to `hi` of the input, which is filled up with zeros. -/
def part (input:Bytes) (lo hi:ℕ):Bytes:=((rightPadBytes input 128).take hi).drop lo

def vOf (input:Bytes):ℤ:=bytesToBig (part input 32 64)

def InRange (x:ℤ):Prop:=1≤x ∧ x < secp256k1n

instance inRange_decidable (x:ℤ):Decidable (InRange x):=
 inferInstanceAs (Decidable (1≤x ∧ x < secp256k1n))

/-- The padded address of the signer if the signature has `v` in the place of its own. -/
def recoveredWith (crypto:Crypto) (input:Bytes) (v:ℤ):Bytes:=
 if (v=27 ∨ v=28) ∧ InRange (bytesToBig (part input 64 96)) ∧
  InRange (bytesToBig (part input 96 128)) then
  match crypto.ecrecover (part input 0 32) (part input 64 128++[UInt8.ofNat (v-27).toNat]) with
  | none=>[]
  | some pubKey=>
   leftPadBytes (BigEndianBytes.fixed 20 (crypto.sha3 (pubKey.drop 1)).val) 32
 else []

def recovered (crypto:Crypto) (input:Bytes):Bytes:=recoveredWith crypto input (vOf input)

lemma lastByte_eq(hv:0≤v)(n:ℕ)(hn:n<256):UInt8.ofNat (uint64 v)=UInt8.ofNat n↔v%256=n:=by
 rw[←UInt8.toNat_inj,UInt8.toNat_ofNat',UInt8.toNat_ofNat',uint64]
 omega

lemma validateSignatureValues_iff(hv:0≤v)(r s:ℤ):
 validateSignatureValues (UInt8.ofNat (uint64 v)) r s↔(v%256=27∨v%256=28)∧InRange r∧InRange s:=by
 have h27:UInt8.ofNat (uint64 v)=27↔v%256=27:=lastByte_eq hv 27 (by decide)
 have h28:UInt8.ofNat (uint64 v)=28↔v%256=28:=lastByte_eq hv 28 (by decide)
 rw[validateSignatureValues]
 split
 ·simp[InRange]
  omega
 simp[InRange,h27,h28]
 omega

/-- Only the last byte of v counts. -/
lemma ecrecoverFunc_eq(crypto:Crypto)(input:Bytes):
 ecrecoverFunc crypto input=recoveredWith crypto input (vOf input%256):=by
 have hv:0≤vOf input:=bytesToBig_nonneg _
 have hcheck:=validateSignatureValues_iff hv (bytesToBig (part input 64 96))
  (bytesToBig (part input 96 128))
 rw[recoveredWith]
 by_cases h:(vOf input%256=27∨vOf input%256=28)∧
  InRange (bytesToBig (part input 64 96))∧InRange (bytesToBig (part input 96 128))
 ·have hbyte:UInt8.ofNat (uint64 (vOf input-27))=UInt8.ofNat (vOf input%256-27).toNat:=by
   rw[←UInt8.toNat_inj,UInt8.toNat_ofNat',UInt8.toNat_ofNat',uint64]
   omega
  rw[if_pos h,←hbyte]
  exact if_neg (by rw[Bool.not_eq_true',Bool.not_eq_false];exact hcheck.2 h)
 rw[if_neg h]
 exact if_pos (by rw[Bool.not_eq_true'];exact Bool.eq_false_iff.2 (mt hcheck.1 h))

theorem ecrecoverFunc_eq_recovered_iff (crypto : Crypto) (input : Bytes) :
    ecrecoverFunc crypto input = recovered crypto input ↔
      vOf input < 256 ∨ recoveredWith crypto input (vOf input % 256) = [] := by
 have hv:0≤vOf input:=bytesToBig_nonneg _
 rw[ecrecoverFunc_eq,recovered]
 by_cases h:vOf input<256
 · simp[h,Int.emod_eq_of_lt hv h]
 have hnone:recoveredWith crypto input (vOf input)=[]:=if_neg (by omega)
 simp[h,hnone]

/-- Any signature gives the public key of one zero byte. -/
def sampleCrypto:Crypto:=⟨fun _=>0,fun _=>[],fun _=>[],fun _ _=>some [0]⟩

def sampleInput:Bytes:=
 BigEndianBytes.fixed 32 0++BigEndianBytes.fixed 32 (256+27)++BigEndianBytes.fixed 32 1 ++
  BigEndianBytes.fixed 32 1

theorem ecrecover_accepts_large_v : vOf sampleInput = 283 ∧
    ecrecoverFunc sampleCrypto sampleInput = List.replicate 32 0 ∧
    recovered sampleCrypto sampleInput = [] := by
 decide +kernel

end GoCoupe.SignatureRecovery
