import GoCoupe.RlpEncoding

/-!
# Raw RLP splitting

`rlp/raw.go`. `none` is the panic of an index past the end of the input. Splitting the encoding
of a value gives back its content and the bytes behind it.
-/

namespace GoCoupe.RlpRawSplitting
open RlpEncoding BigEndianBytes List Nat

inductive Kind where
 | byte
 | string
 | list
 deriving DecidableEq,Repr

inductive RlpError where
 | unexpectedEOF
 | canonSize
 | valueTooLarge
 | expectedString
 | expectedList
 deriving DecidableEq,Repr

/-- `none` is a panic. -/
abbrev Outcome (ε α:Type):=ExceptT ε Option α

def crash {ε α:Type}:Outcome ε α:=ExceptT.mk none

def readSize (b:Bytes) (slen:ℕ):Outcome RlpError ℕ:=if slen>b.length then throw .unexpectedEOF
 else if value (b.take slen)<56 ∨ b.head? = some 0 then throw .canonSize
 else pure (value (b.take slen))

/-- The kind, the tag size and the content size that the first bytes announce. -/
def readTag (b:UInt8) (tail:Bytes):Outcome RlpError (Kind × ℕ × ℕ):=
 if b.toNat<0x80 then pure (.byte,0,1)
 else if b.toNat<0xB8 then
  if b.toNat-0x80=1 then
   match tail with
   | []=>crash
   | c::_=>if c.toNat<128 then throw .canonSize else pure (.string,1,1)
  else pure (.string,1,b.toNat-0x80)
 else if b.toNat<0xC0 then do
  let size ← readSize tail (b.toNat-0xB7)
  pure (.string,b.toNat-0xB7+1,size)
 else if b.toNat<0xF8 then pure (.list,1,b.toNat-0xC0)
 else do
  let size ← readSize tail (b.toNat-0xF7)
  pure (.list,b.toNat-0xF7+1,size)

def readKind (buf:Bytes):Outcome RlpError (Kind × ℕ × ℕ):=
 match buf with
 | []=>throw .unexpectedEOF
 | b::tail=>do
  let (k,tagsize,contentsize) ← readTag b tail
  if contentsize>buf.length-tagsize then throw .valueTooLarge
  else pure (k,tagsize,contentsize)

def split (b:Bytes):Outcome RlpError (Kind × Bytes × Bytes):=do
 let (k,ts,cs) ← readKind b
 pure (k,(b.drop ts).take cs,b.drop (ts+cs))

def splitString (b:Bytes):Outcome RlpError (Bytes × Bytes):=do
 let (k,content,rest) ← split b
 if k=.list then throw .expectedString else pure (content,rest)

def splitList (b:Bytes):Outcome RlpError (Bytes × Bytes):=do
 let (k,content,rest) ← split b
 if k≠.list then throw .expectedList else pure (content,rest)

/-- Every turn of the loop drops at least one byte, so `b.length` turns are enough. -/
def countValues (b:Bytes):Outcome RlpError ℕ:=go b.length b 0
where
 go:ℕ→Bytes→ℕ→Outcome RlpError ℕ
  | _, [], i=>pure i
  | 0, _ :: _, _=>crash
  | fuel + 1, b :: tail, i=>do
   let (_, tagsize, size) ← readKind (b :: tail)
   go fuel ((b :: tail).drop (tagsize + size)) (i + 1)

lemma putint_eq_fixed(n:ℕ):putint n=fixed (intsize n) n:=by
 have h:∃w,putint n=fixed w n:=by
  unfold putint
  split_ifs<;>exact⟨_,rfl⟩
 obtain⟨w,hw⟩:=h
 have hlen:=putint_length n
 rw[hw,fixed_length]at hlen
 rw[hw,hlen]

lemma intsize_bounds(n:ℕ):1 ≤ intsize n∧intsize n≤8:=intsize_go_bounds 7 n 1

lemma headsize_le(n:ℕ):headsize n≤9:=by
 have:=(intsize_bounds n).2
 unfold headsize
 split<;>omega

lemma lt_pow_intsize(h:n<2^64):n<256^intsize n:=by
 obtain⟨h1,h8⟩:=intsize_bounds n
 rcases lt_or_ge (intsize n) 8 with hlt|hge
 ·exact (intsize_le_iff n h1 (by omega)).mp le_rfl
 rw[show intsize n=8 by omega]
 exact h.trans_le (by norm_num)

lemma pow_intsize_le(h:0<n):256^(intsize n-1)≤n:=by
 obtain⟨h1,h8⟩:=intsize_bounds n
 rcases eq_or_lt_of_le h1 with heq|hlt
 ·rw[←heq]
  exact h
 have hiff:=intsize_le_iff n (show 1 ≤ intsize n-1 by omega) (by omega)
 by_contra hcon
 have:=hiff.mpr (by omega)
 omega

/-- The shortest spelling has no leading zero. -/
lemma putint_eq_cons(h:n<2^64)(h0:0<n):∃x b,putint n=x::b∧x≠0:=by
 obtain⟨k,hk⟩:∃k,intsize n=k+1:=⟨intsize n-1,by have:=(intsize_bounds n).1;omega⟩
 have hlo:=pow_intsize_le h0
 have hhi:=lt_pow_intsize h
 rw[hk,pow_succ]at hhi
 rw[hk,Nat.add_sub_cancel]at hlo
 have hdiv:0<n/256^k:=div_pos hlo (by positivity)
 have hdiv':n/256^k<256:=by
  rw[div_lt_iff_lt_mul (by positivity),mul_comm]
  exact hhi
 refine⟨_,_,by rw[putint_eq_fixed,hk,fixed_succ_eq_cons],?_⟩
 intro hzero
 have:=congrArg UInt8.toNat hzero
 simp[mod_eq_of_lt hdiv']at this
 omega

/-- A spelling without a leading zero is the shortest. -/
lemma putint_value{b:Bytes}(hlen:1≤b.length)(h8:b.length≤8)
 (hhead:b.length=1∨b.head? ≠ some 0):putint (value b)=b:=by
 have hsize:intsize (value b)=b.length:=by
  obtain⟨h1,h2⟩:=intsize_bounds (value b)
  have hlt:=value_lt b
  refine le_antisymm ?_ ?_
  ·rcases lt_or_ge b.length 8 with h|h
   ·exact (intsize_le_iff _ hlen (by omega)).2 hlt
   omega
  rcases hhead with hone|hne
  ·omega
  by_contra hcon
  have hle:=pow_le_value (ne_nil_of_length_pos hlen) hne
  have:=(intsize_le_iff (w:=b.length-1) (value b) (by omega) (by omega)).1 (by omega)
  omega
 rw[putint_eq_fixed,hsize,fixed_value]

/-- The size bytes that the encoder writes are accepted and mean what they should. -/
lemma readSize_putint(h:n<2^64)(h56:56≤n)(tail:Bytes):
 readSize (putint n++tail) (intsize n)=pure n:=by
 have hlen:=putint_length n
 have hval:value ((putint n++tail).take (intsize n))=n:=by
  rw[←hlen,take_left,putint_eq_fixed,value_fixed_of_lt (lt_pow_intsize h)]
 have hhead:(putint n++tail).head? ≠ some 0:=by
  obtain⟨x,b,hb,hx⟩:=putint_eq_cons h (by omega)
  rw[hb,cons_append,head?_cons]
  exact fun h=>hx (Option.some.inj h)
 unfold readSize
 rw[if_neg,if_neg,hval]
 ·rw[hval]
  exact not_or.mpr ⟨by omega,hhead⟩
 rw[length_append,hlen]
 omega

lemma toNat_add_ofNat(h:t.toNat+n<256):(t+UInt8.ofNat n).toNat=t.toNat+n:=by
 rw[UInt8.toNat_add,UInt8.toNat_ofNat',add_mod_mod,mod_eq_of_lt h]

/-- A string of one small byte is its own encoding; other strings have a header. -/
lemma readKind_head{small large:UInt8}{s rest:Bytes}(hs:small.toNat<200)(hl:large.toNat<248)
 (hsmall:∀b:UInt8,s.length<56→b.toNat=small.toNat+s.length→
  readTag b (s++rest)=pure (kind,1,s.length))
 (hlarge:∀b:UInt8,¬s.length<56→b.toNat=large.toNat+intsize s.length→
  readTag b (putint s.length++(s++rest))=pure (kind,1+intsize s.length,s.length)):
 readKind (puthead small large s.length++(s++rest))=pure (kind,headsize s.length,s.length):=by
 unfold puthead headsize
 by_cases h56:s.length<56
 ·rw[if_pos h56,if_pos h56,singleton_append,readKind,hsmall _ h56 (toNat_add_ofNat (by omega)),
   pure_bind]
  simp only[length_cons,length_append]
  rw[if_neg (by omega)]
 obtain⟨h₁,h8⟩:=intsize_bounds s.length
 have hb:(large+UInt8.ofNat (putint s.length).length).toNat=large.toNat+intsize s.length:=by
  rw[putint_length]
  exact toNat_add_ofNat (by omega)
 rw[if_neg h56,if_neg h56,cons_append,readKind,hlarge _ h56 hb,pure_bind]
 simp only[length_cons,length_append,putint_length]
 rw[if_neg (by omega)]

lemma readKind_stringHead(rest:Bytes)(h:s.length<2^64)(hc:∀c,s=[c] → 128≤c.toNat):
 readKind (puthead 0x80 0xB7 s.length++(s++rest))=pure (.string,headsize s.length,s.length):=by
 obtain⟨h₁,h8⟩:=intsize_bounds s.length
 refine readKind_head (by decide) (by decide) (fun b h56 hb=>?_) (fun b h56 hb=>?_)
 ·change b.toNat=0x80+s.length at hb
  unfold readTag
  rw[hb,if_neg (by omega),if_pos (by omega)]
  by_cases h1:s.length=1
  ·obtain⟨c,rfl⟩:=List.length_eq_one_iff.mp h1
   have:=hc c rfl
   rw[singleton_append,length_singleton,if_pos (by omega)]
   exact if_neg (by omega)
  rw[if_neg (by omega),Nat.add_sub_cancel_left]
 ·change b.toNat=0xB7+intsize s.length at hb
  unfold readTag
  rw[hb,if_neg (by omega),if_neg (by omega),if_pos (by omega),Nat.add_sub_cancel_left,
   readSize_putint h (by omega),pure_bind,add_comm]

lemma readKind_listHead(c rest:Bytes)(h:c.length<2^64):
 readKind (puthead 0xC0 0xF7 c.length++(c++rest))=pure (.list,headsize c.length,c.length):=by
 obtain⟨h₁,h8⟩:=intsize_bounds c.length
 refine readKind_head (by decide) (by decide) (fun b h56 hb=>?_) (fun b h56 hb=>?_)
 ·change b.toNat=0xC0+c.length at hb
  unfold readTag
  rw[hb,if_neg (by omega),if_neg (by omega),if_neg (by omega),if_pos (by omega),
   Nat.add_sub_cancel_left]
 ·change b.toNat=0xF7+intsize c.length at hb
  unfold readTag
  rw[hb,if_neg (by omega),if_neg (by omega),if_neg (by omega),if_neg (by omega),
   Nat.add_sub_cancel_left,readSize_putint h (by omega),pure_bind,Nat.add_comm]

def kindOf (s:Bytes):Kind:=
 match s with
 | [x]=>if x≤0x7F then .byte else .string
 | _=>.string

lemma encodeString_cases(s:Bytes):(∃x:UInt8,s=[x]∧x.toNat<128∧encodeString s=[x]∧kindOf s=.byte)∨
  ((∀c,s=[c] → 128≤c.toNat)∧encodeString s=puthead 0x80 0xB7 s.length++s∧kindOf s=.string):=by
 match s with
 | []=>exact .inr ⟨by simp,rfl,rfl⟩
 | [x]=>
  by_cases hx:x≤0x7F
  ·have hlt:x.toNat<128:=by
    have:=UInt8.le_iff_toNat_le.mp hx
    simp at this
    omega
   exact .inl ⟨x,rfl,hlt,by simp[encodeString,hx],by simp[kindOf,hx]⟩
  have hge:128≤x.toNat:=by
   have:=mt UInt8.le_iff_toNat_le.mpr hx
   simp at this
   omega
  refine .inr ⟨?_,by simp[encodeString,hx],by simp[kindOf,hx]⟩
  intro c hc
  rwa[←(List.cons.inj hc).1]
 | x::y::s=>exact .inr ⟨by simp,rfl,rfl⟩

lemma encodeString_length(b:Bytes):(encodeString b).length≤b.length+9:=by
 rcases encodeString_cases b with⟨x,rfl,_,henc,_⟩|⟨_,henc,_⟩
 ·rw[henc]
  simp
 rw[henc,length_append,puthead_length]
 have:=headsize_le b.length
 omega

lemma readKind_string(s rest:Bytes)(h:s.length<2^64):
 ∃tag,readKind (encodeString s++rest)=pure (kindOf s,tag,s.length)∧
  ∃t,t.length=tag∧encodeString s=t++s:=by
 rcases encodeString_cases s with⟨x,rfl,hx,henc,hkind⟩|⟨hc,henc,hkind⟩
 ·refine⟨0,?_,[],rfl,henc⟩
  rw[henc,hkind,singleton_append,readKind]
  unfold readTag
  rw[if_pos hx,pure_bind]
  simp
 refine⟨headsize s.length,?_,_,puthead_length _ _ _,henc⟩
 rw[henc,hkind,append_assoc,readKind_stringHead rest h hc]

lemma split_string(s rest:Bytes)(h:s.length<2^64):
 split (encodeString s++rest)=pure (kindOf s,s,rest):=by
 obtain⟨tag,hk,t,ht,henc⟩:=readKind_string s rest h
 unfold split
 rw[hk,pure_bind,henc,append_assoc,←ht]
 simp only[drop_left,take_left]
 rw[←drop_drop,drop_left,drop_left]

lemma kindOf_ne_list(s:Bytes):kindOf s≠.list:=by
 unfold kindOf
 split
 ·split<;>simp
 simp

lemma splitString_string(s rest:Bytes)(h:s.length<2^64):
 splitString (encodeString s++rest)=pure (s,rest):=by
 unfold splitString
 rw[split_string s rest h,pure_bind]
 exact if_neg (kindOf_ne_list s)

lemma split_list(c rest:Bytes)(h:c.length<2^64):
 split (puthead 0xC0 0xF7 c.length++(c++rest))=pure (.list,c,rest):=by
 unfold split
 rw[readKind_listHead c rest h,pure_bind,←puthead_length 0xC0 0xF7]
 simp only[drop_left,take_left]
 rw[←drop_drop,drop_left,drop_left]

lemma splitList_list(c rest:Bytes)(h:c.length<2^64):
 splitList (puthead 0xC0 0xF7 c.length++(c++rest))=pure (c,rest):=by
 unfold splitList
 rw[split_list c rest h,pure_bind]
 rfl

/-- Reading the tag of an encoding finds its end. -/
lemma readKind_encode(x:Item)(rest:Bytes)(h:(encode x).length<2^64):
 ∃k tag size,readKind (encode x++rest)=pure (k,tag,size)∧tag+size=(encode x).length:=by
 cases x with
 | string s=>
  rw[encode]at h ⊢
  have hs:s.length<2^64:=by
   rcases encodeString_cases s with⟨x,rfl,_⟩|⟨_,henc,_⟩
   ·rw[length_singleton]
    norm_num
   rw[henc,length_append]at h
   omega
  obtain⟨tag,hk,t,ht,henc⟩:=readKind_string s rest hs
  exact⟨_,tag,_,hk,by rw[henc,length_append,ht]⟩
 | list items=>
  rw[encode]at h ⊢
  rw[length_append,puthead_length]at h
  refine⟨.list,headsize (encodeList items).length,(encodeList items).length,?_,?_⟩
  ·rw[append_assoc]
   exact readKind_listHead _ rest (by omega)
  rw[length_append,puthead_length]

lemma encode_ne_nil(x:Item):encode x≠[]:=by
 cases x with
 | string s=>
  rw[encode]
  rcases encodeString_cases s with⟨x,_,_,henc,_⟩|⟨_,henc,_⟩
  ·rw[henc]
   simp
  rw[henc,puthead]
  split<;>simp
 | list items=>
  rw[encode,puthead]
  split<;>simp

lemma countValues_encodeList(xs:List Item)(h:(encodeList xs).length<2^64):
 countValues (encodeList xs)=pure xs.length:=by
 have key:∀(xs:List Item) (fuel i:ℕ),(encodeList xs).length≤fuel→(encodeList xs).length<2^64 →
  countValues.go fuel (encodeList xs) i=pure (i+xs.length):=by
  intro xs
  induction xs with
  | nil=>
   intro fuel i _ _
   cases fuel<;>rfl
  | cons x xs ih=>
   intro fuel i hfuel hsize
   rw[encodeList,length_append]at hfuel hsize
   obtain⟨b,tail,hb⟩:=exists_cons_of_ne_nil (encode_ne_nil x)
   obtain⟨k,tag,size,hk,hsum⟩:=readKind_encode x (encodeList xs) (by omega)
   have hpos:0<(encode x).length:=by simp[hb]
   obtain⟨fuel,rfl⟩:∃f,fuel=f+1:=⟨fuel-1,by omega⟩
   rw[encodeList]
   rw[hb,cons_append]at hk ⊢
   rw[countValues.go,hk,pure_bind,←cons_append,←hb]
   dsimp only
   rw[hsum,drop_left,ih fuel (i+1) (by omega) (by omega),length_cons]
   congr 1
   omega
 unfold countValues
 rw[key xs _ 0 le_rfl h,zero_add]

end GoCoupe.RlpRawSplitting
