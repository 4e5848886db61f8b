import GoCoupe.CommonTypes
import Mathlib.Data.List.Basic

/-!
# Run-length compression

`compression/rle/read_write.go`. A token byte announces an abbreviation: a known hash, the
token itself, or a run of zeros whose length plus two is the next byte. The lengths 251, 252
and 253 give the bytes of the others.
-/

namespace GoCoupe.RunLengthCoding
open List Nat

def token:UInt8:=0xfe
def emptyShaToken:UInt8:=0xfd
def emptyListShaToken:UInt8:=0xfe
def tokenToken:UInt8:=0xff

variable (sha3:Bytes→Bytes)

def empty:Bytes:=sha3 []
def emptyList:Bytes:=sha3 [0x80]

/-- What `Decompress` writes for the byte after a token; `c - 2` wraps around. -/
def abbreviated (c:UInt8):Bytes:=if c=emptyShaToken then empty sha3
 else if c=emptyListShaToken then emptyList sha3
 else if c=tokenToken then [token]
 else replicate (c-2).toNat 0

def decompress:Bytes→Except String Bytes
 | []=>.ok []
 | [b]=>
  if b=token then
   .error "error reading bytes. token encountered without proceeding bytes"
  else .ok [b]
 | b::c::dat=>
  if b=token then (abbreviated sha3 c ++ ·) <$> decompress dat
  else (b :: ·) <$> decompress (c::dat)

/-- The loop of `compressChunk` over a run of zeros. -/
def zeroRun:ℕ→Bytes→ℕ
 | j,[]=>j
 | j,b::dat=>if j≤254 ∧ b=0 then zeroRun (j+1) dat else j

def compressChunk (dat:Bytes):Bytes × ℕ:=if dat.head? = some token then ([token,tokenToken],1)
 else if dat.take 2=[0,0] then
  ([token,UInt8.ofNat (zeroRun 0 dat+2)],zeroRun 0 dat)
 else if 32≤dat.length ∧ dat.take 32=empty sha3 then ([token,emptyShaToken],32)
 else if 32≤dat.length ∧ dat.take 32=emptyList sha3 then ([token,emptyListShaToken],32)
 else (dat.take 1,1)

/-- The loop of `Compress`, for at most `fuel` chunks. -/
def compressFrom:ℕ→Bytes→Bytes
 | 0,_=>[]
 | _+1,[]=>[]
 | fuel+1,b::dat=>
  let (chunk,n):=compressChunk sha3 (b::dat)
  chunk++compressFrom fuel ((b::dat).drop n)

def compress (dat:Bytes):Bytes:=compressFrom sha3 dat.length dat

/-- The rests of the data at which the loop of `Compress` cuts a chunk off. -/
def cutsFrom:ℕ→Bytes→List Bytes
 | 0,_=>[]
 | _+1,[]=>[]
 | fuel+1,b::dat=>
  (b::dat)::cutsFrom fuel ((b::dat).drop (compressChunk sha3 (b::dat)).2)

def cuts (dat:Bytes):List Bytes:=cutsFrom sha3 dat.length dat

/-- The rest does not begin with a run of zeros that reads as another abbreviation. -/
def Unambiguous (dat:Bytes):Prop:=zeroRun 0 dat<251 ∨ 253<zeroRun 0 dat

instance decidable_unambiguous (dat:Bytes):Decidable (Unambiguous dat):=
 inferInstanceAs (Decidable (_ ∨ _))

variable {sha3:Bytes→Bytes}

lemma decompress_token(c:UInt8)(dat:Bytes):
 decompress sha3 (token::c::dat)=(abbreviated sha3 c ++ ·) <$> decompress sha3 dat:=by
 simp[decompress]

lemma decompress_plain(h:b≠token)(dat:Bytes):
 decompress sha3 (b::dat)=([b] ++ ·) <$> decompress sha3 dat:=by
 cases dat with
 | nil=>simp[decompress,h,Functor.map,Except.map]
 | cons c dat=>simp[decompress,h]

lemma zeroRun_spec(j:ℕ)(dat:Bytes):
 ∃k≤dat.length,zeroRun j dat=j+k∧dat.take k=replicate k 0∧(j≤255→j+k≤255):=by
 induction dat generalizing j with
 | nil=>exact⟨0,le_refl 0,rfl,rfl,id⟩
 | cons b dat ih=>
  rw[zeroRun]
  split
  ·next h =>
   obtain⟨k,hk,hrun,htake,hle⟩:=ih (j+1)
   refine⟨k+1,succ_le_succ hk,by omega,?_,fun _=>by omega⟩
   rw[take_succ_cons,htake,h.2,replicate_succ]
  exact⟨0,zero_le _,rfl,rfl,id⟩

lemma take_zeroRun(dat:Bytes):
 dat.take (zeroRun 0 dat)=replicate (zeroRun 0 dat) 0∧zeroRun 0 dat≤dat.length∧zeroRun 0 dat≤255:=by
 obtain⟨k,hk,hrun,htake,hle⟩:=zeroRun_spec 0 dat
 rw[hrun,zero_add]
 exact⟨htake,hk,by omega⟩

lemma zeroRun_of_zeros(h:dat.take 2=[0,0]):2≤zeroRun 0 dat:=by
 match dat,h with
 | b::c::dat,h=>
  simp only[take_succ_cons,take_zero,cons.injEq,and_true]at h
  obtain⟨k,-,hrun,-⟩:=zeroRun_spec 2 dat
  simp only[zeroRun,h,and_self,zero_le,reduceLeDiff,if_true,zero_add,reduceAdd]
  omega

lemma zeroRun_of_not_zeros(h:dat.take 2≠[0,0]):zeroRun 0 dat≤1:=by
 match dat,h with
 | [],_=>exact zero_le 1
 | [b],_=>
  simp only[zeroRun]
  split<;>omega
 | b::c::dat,h=>
  simp only[take_succ_cons,take_zero,ne_eq,cons.injEq,and_true]at h
  simp only[zeroRun]
  split
  ·next hb=>rw[if_neg (h ⟨hb.2,·.2⟩)]
  exact zero_le 1

/-- What the byte written for a run of `j` zeros is read back as. -/
lemma abbreviated_run(h2:2≤j)(h:j≤255)(hj:j<251∨253<j):
 abbreviated sha3 (UInt8.ofNat (j+2))=replicate j 0:=by
 have hne:∀c:UInt8,253≤c.toNat→UInt8.ofNat (j+2)≠c:=by
  intro c hc heq
  have hlt:=c.toNat_lt
  have hval:=congrArg UInt8.toNat heq
  rw[UInt8.toNat_ofNat']at hval
  omega
 rw[abbreviated,if_neg (hne _ (by decide)),if_neg (hne _ (by decide)),if_neg (hne _ (by decide))]
 congr 1
 rw[UInt8.toNat_sub,UInt8.toNat_ofNat']
 simp only[UInt8.reduceToNat]
 omega

lemma abbreviated_collision(hlen:∀b,(sha3 b).length=32)(h:251≤j)
 (h':j≤253):(abbreviated sha3 (UInt8.ofNat (j+2))).length≤32:=by
 obtain rfl|rfl|rfl:j=251∨j=252∨j=253:=by omega
 ·exact le_of_eq (hlen _)
 ·exact le_of_eq (hlen _)
 exact (by decide:1≤32)

/-- One chunk is read back as what it stands for, or as less if its run is ambiguous. -/
lemma decompress_chunk(hlen:∀b,(sha3 b).length=32)(hdat:dat≠[])(rest:Bytes):
 ∃out,decompress sha3 ((compressChunk sha3 dat).1++rest) = (out ++ ·) <$> decompress sha3 rest∧
  0<(compressChunk sha3 dat).2∧(compressChunk sha3 dat).2≤dat.length∧
  (Unambiguous dat → out=dat.take (compressChunk sha3 dat).2)∧
  (¬Unambiguous dat → out.length<(compressChunk sha3 dat).2):=by
 have hpos:1≤dat.length:=length_pos_iff.mpr hdat
 have hshort:dat.take 2≠[0,0]→Unambiguous dat:=fun h=>by
  have:=zeroRun_of_not_zeros h
  exact .inl (by omega)
 rw[compressChunk]
 split
 ·next h =>
  have hcut:dat.take 1=[token]:=by
   rw[take_one,h]
   rfl
  have hun:Unambiguous dat:=hshort fun hz=>by
   have:=congrArg head? hz
   rw[head?_take,if_neg (by decide),h]at this
   exact absurd this (by decide)
  exact⟨_,decompress_token tokenToken rest,one_pos,hpos,fun _=>hcut.symm,fun hno=>absurd hun hno⟩
 split
 ·next h =>
  obtain⟨htake,hle,hmax⟩:=take_zeroRun dat
  have h2:=zeroRun_of_zeros h
  refine⟨_,decompress_token _ rest,by omega,hle,fun hun=>?_,fun hno=>?_⟩
  ·rw[abbreviated_run h2 hmax hun,htake]
  have hrun:251≤zeroRun 0 dat∧zeroRun 0 dat≤253:=by
   simp only[Unambiguous]at hno
   omega
  have:=abbreviated_collision hlen hrun.1 hrun.2
  exact lt_of_le_of_lt this (by omega)
 next hz =>
 have hun:=hshort hz
 split
 ·next h =>
  exact⟨_,decompress_token emptyShaToken rest,by decide,h.1,fun _=>h.2.symm,fun hno=>absurd hun hno⟩
 split
 ·next h =>
  exact⟨_,decompress_token emptyListShaToken rest,by decide,h.1,fun _=>h.2.symm,
   fun hno=>absurd hun hno⟩
 next htok _ _ =>
 obtain⟨b,dat,rfl⟩:=exists_cons_of_ne_nil hdat
 have hb:b≠token:=fun h=>htok (congrArg some h)
 exact⟨[b],decompress_plain hb rest,one_pos,hpos,fun _=>rfl,fun hno=>absurd hun hno⟩

/-- The compressed data is read back to its end; what comes out is the data if every cut is
unambiguous, and shorter than the data otherwise. -/
lemma decompress_compressFrom(hlen:∀b,(sha3 b).length=32)(fuel:ℕ)(dat:Bytes)(hfuel:dat.length≤fuel):
 ∃out,decompress sha3 (compressFrom sha3 fuel dat)=.ok out∧
  ((∀d∈cutsFrom sha3 fuel dat,Unambiguous d) → out=dat)∧
  ((¬∀d∈cutsFrom sha3 fuel dat,Unambiguous d) → out.length<dat.length):=by
 induction fuel generalizing dat with
 | zero=>
  have hnil:dat=[]:=eq_nil_of_length_eq_zero (le_zero.mp hfuel)
  exact⟨[],rfl,fun _=>hnil.symm,fun h=>absurd (by simp[cutsFrom]) h⟩
 | succ fuel ih=>
  cases dat with
  | nil=>exact⟨[],rfl,fun _=>rfl,fun h=>absurd (by simp[cutsFrom]) h⟩
  | cons b dat=>
   generalize hn:(compressChunk sha3 (b::dat)).2=n
   obtain⟨out,hdec,hpos,hle,hsame,hless⟩:=
    decompress_chunk hlen (cons_ne_nil b dat) (compressFrom sha3 fuel ((b::dat).drop n))
   rw[hn]at hpos hle hsame hless
   have hdrop:((b::dat).drop n).length=(b::dat).length-n:=length_drop
   obtain⟨outs,hdecs,hsames,hlesss⟩:=ih ((b::dat).drop n) (by omega)
   refine⟨out++outs,?_,?_,?_⟩
   ·simp only[compressFrom,hn,hdec,hdecs]
    rfl
   ·simp only[cutsFrom,hn,forall_mem_cons]
    rintro⟨hd,hds⟩
    rw[hsame hd,hsames hds,take_append_drop]
   simp only[cutsFrom,hn,forall_mem_cons]
   intro hno
   have hout:out.length≤n:=by
    by_cases hd:Unambiguous (b::dat)
    ·rw[hsame hd]
     exact length_take_le n _
    exact le_of_lt (hless hd)
   have houts:outs.length≤(b::dat).length-n:=by
    by_cases hds:∀d∈cutsFrom sha3 fuel ((b::dat).drop n),Unambiguous d
    ·exact le_of_eq (hsames hds▸hdrop)
    exact hdrop▸le_of_lt (hlesss hds)
   rw[length_append]
   by_cases hd:Unambiguous (b::dat)
   ·have:=hlesss (hno ⟨hd,·⟩)
    omega
   have:=hless hd
   omega

/-- Decompressing compressed data gives the data back exactly if `Compress` never cuts off a
run of 251, 252 or 253 zeros. -/
theorem decompress_compress_iff (hlen : ∀ b, (sha3 b).length = 32) (dat : Bytes) :
    decompress sha3 (compress sha3 dat) = .ok dat ↔ ∀ d ∈ cuts sha3 dat, Unambiguous d := by
 obtain⟨out,hdec,hsame,hless⟩:=decompress_compressFrom hlen dat.length dat (le_refl _)
 rw[compress,hdec,cuts]
 constructor
 · intro h
   by_contra hno
   have hout:out=dat:=Except.ok.inj h
   exact absurd (hless hno) (by rw[hout]; exact lt_irrefl _)
 intro h
 rw[hsame h]

theorem decompress_compress_short :
    decompress (fun _ => List.replicate 32 1) (compress (fun _ => List.replicate 32 1)
      [7, 0, 0, 0, 0xfe]) = .ok [7, 0, 0, 0, 0xfe] :=
 (decompress_compress_iff (fun _=>length_replicate) [7,0,0,0,0xfe]).mpr (by decide)

/-- A run of 251 zeros comes back as a hash, whatever the hash is. -/
theorem zeros_become_hash : ∃ dat : Bytes, ∀ sha3 : Bytes → Bytes, (∀ b, (sha3 b).length = 32) →
    decompress sha3 (compress sha3 dat) = .ok (empty sha3) ∧ empty sha3 ≠ dat := by
 refine⟨replicate 251 0,fun sha3 hlen=>⟨?_,fun h=>?_⟩⟩
 · have hrep:replicate 251 (0:UInt8)=0::replicate 250 0:=replicate_succ
   have hrun:zeroRun 0 (0::replicate 250 0)=251:=by decide +kernel
   have hchunk:compressChunk sha3 (0::replicate 250 0)=([token,emptyShaToken],251):=by
    rw[compressChunk,if_neg (by decide),if_pos (by rfl),hrun]
    rfl
   have hall:compress sha3 (replicate 251 0)=[token,emptyShaToken]:=by
    rw[compress,length_replicate,hrep,compressFrom,hchunk]
    simp only[←hrep,drop_replicate,Nat.sub_self,replicate_zero,compressFrom,append_nil]
   rw[hall,decompress_token]
   exact congrArg Except.ok (append_nil _)
 have:=congrArg length h
 rw[empty,hlen,length_replicate] at this
 omega

end GoCoupe.RunLengthCoding
