import GoCoupe.RlpTypedReading

/-!
# What the decoders of single values accept

A decoder accepts a tree that stands for its result. Numbers, byte strings and arrays of two or
more bytes have one spelling; an optional pointer accepts two spellings of nil.
-/

namespace GoCoupe.RlpAcceptance

open BigEndianBytes RlpEncoding RlpStream Reading RlpStreamReading RlpValueReading RlpTypedValues
open List
open RlpTreeRoundTrip RlpTypedReading
open RlpRawSplitting hiding readKind

variable {α:Type}

/-- A field of a struct, whose decoder may not find the end of the list. -/
def field (typ:GoType) (name:String) (dec:Decoder α):Decoder α:=do
 match ← observe dec with
 | .ok x=>return x
 | .error (.stream .eol)=>Reading.throw (.decode "too few elements" typ [])
 | .error e=>Reading.throw (addErrorContext (.field name) e)

/-- The decoder of a struct, from the decoder of its fields in turn. -/
def structOf (typ:GoType) (fields:Decoder α):Decoder α:=do
 let _ ← wrap typ list
 let x ← fields
 wrap typ listEnd
 return x

/-- The decoder of a pointer with the tag "nil". An empty value of either kind is nil. -/
def decodeOptionalPtr (dec:Decoder α):Decoder (Option α):=do
 match ← (observe kind:Decoder (Except StreamError (Kind × ℕ))) with
 | .error e=>do
  lift rearm
  Reading.throw (.stream e)
 | .ok x=>
  if x.2=0 ∧ x.1≠.byte then do
   lift rearm
   return none
  else do
   let x ← dec
   return some x

lemma shortest_value(h:b.head? ≠ some 0):shortest (value b)=b:=by
 have hwidth:width (value b)=b.length:=by
  apply le_antisymm
  ·exact width_le_iff.2 (value_lt b)
  by_cases hb:b=[]
  ·rw[hb]
   exact Nat.zero_le _
  by_contra hlt
  have hle:width (value b)≤b.length-1:=by omega
  exact absurd (pow_le_value hb h) (not_le.2 (width_le_iff.1 hle))
 rw[shortest,hwidth,fixed_value]

lemma accepts_bytes(typ:GoType):Accepts (wrap typ bytes) Item.string:=by
 intro s s' b hs h
 obtain⟨tail,hr,-,hpast⟩:=encoded_of_bytes hs (wrap_eq_ok.1 h)
 rw[encode]
 exact⟨tail,hr,hpast⟩

/-- A big integer is accepted as the shortest spelling of a natural number. -/
lemma accepts_bigInt:AcceptsAs decodeBigInt (fun i item=>0 ≤ i∧item=.string (shortest i.toNat)):=by
 intro s s' i hs h
 rw[decodeBigInt,bind_eq_ok]at h
 obtain⟨b,t,hb,h⟩:=h
 obtain⟨tail,hr,hpast⟩:=accepts_bytes .bigInt s t b hs hb
 split at h
 ·simp[bind_apply,andThen]at h
 rename_i hhead
 obtain⟨rfl,rfl⟩:(value b:ℤ)=i∧t=s':=by simpa[bind_apply,andThen]using h
 refine⟨.string b,tail,⟨Int.natCast_nonneg _,?_⟩,hr,hpast⟩
 rw[Int.toNat_natCast,shortest_value hhead]

variable {n:ℕ} {s:Stream} {tail:Bytes}

lemma encodeString_small(hb:b.toNat<0x80)(h0:b≠0):encodeString (shortest b.toNat)=[b]:=by
 have hvalue:value [b]=b.toNat:=by simp[value]
 have hshort:shortest (value [b])=[b]:=shortest_value (by simpa using h0)
 rw[hvalue]at hshort
 rcases header_string (show [b].length<2^64 by norm_num) with⟨x,hx,-,henc,-⟩|⟨hc,-,-⟩
 ·rw[hshort,henc,hx]
 exact absurd (hc b rfl) (by omega)

lemma encoded_of_readUint(hs:Ready s)(hn:n<2^64)(hr:s.r=puthead 0x80 0xB7 n++tail)
 (h:readUint n (armed (puthead 0x80 0xB7 n) .string n 0 s)=some (.ok v,t))
 (hsmall:¬(n>0∧v<128)):
 ∃tail',s.r=encodeString (shortest v)++tail'∧Past (encodeString (shortest v)).length s t∧v<256^n:=by
 rcases Nat.eq_zero_or_pos n with rfl|hpos
 ·obtain⟨rfl,rfl⟩:0=v∧{armed (puthead 0x80 0xB7 0) .string 0 0 s with kind:=none} = t:=by
   simpa[readUint,rearm,bind_apply,andThen]using h
  exact⟨tail,hr,past_rearm hs.toSync _ .string 0 0,by norm_num⟩
 obtain⟨-,hlen,hhead,rfl,rfl⟩:=(readUint_eq_ok (moved_armed hs.toSync _ _ _ _).sync hpos).1 h
 rw[content_eq hs hr]at hlen hhead hsmall ⊢
 have hbig:128≤value (tail.take n):=by omega
 have hnz:(tail.take n).head? ≠ some 0:=by
  intro hzero
  rcases hhead with hone|hne
  ·obtain⟨c,hc⟩:∃c,tail.take n=[c]:=length_eq_one_iff.1 (by rw[length_take_of_le hlen,hone])
   rw[hc,head?_cons,Option.some.injEq]at hzero
   rw[hc,hzero]at hbig
   exact absurd hbig (by decide)
  exact hne hzero
 have hsingle:∀c,tail.take n=[c] → 128≤c.toNat:=by
  intro c hc
  rw[hc]at hbig
  simpa[value]using hbig
 obtain⟨hbytes,hpast⟩:=accepted_content hs hn hr hlen hsingle
 rw[shortest_value hnz]
 refine⟨tail.drop n,hbytes,hpast,?_⟩
 have hlt:=value_lt (tail.take n)
 rwa[length_take_of_le hlen]at hlt

lemma encoded_of_uint(hs:Ready s)(hbits:8 ≤ maxbits)(h:uint maxbits s=some (.ok v,t)):
 ∃tail,s.r=encodeString (shortest v)++tail∧
  Past (encodeString (shortest v)).length s t∧v<256^(maxbits/8):=by
 rw[uint,bind_eq_ok]at h
 obtain⟨⟨k,n⟩,u,hkind,h⟩:=h
 obtain⟨hd,tail,b,hr,hhd,-,-,rfl⟩:=(kind_eq_ok hs.toSync hs.kind).1 hkind
 cases hhd with
 | byte b hb=>
  dsimp only at h
  rw[bind_of_ok (get_apply _)]at h
  split at h
  ·simp[bind_apply,andThen]at h
  rename_i h0
  obtain⟨rfl,rfl⟩:b.toNat=v∧{armed [b] .byte 0 b s with kind:=none} = t:=by
   simpa[rearm,bind_apply,andThen,armed]using h
  rw[encodeString_small hb h0]
  refine⟨tail,hr,past_rearm hs.toSync [b] .byte 0 b,?_⟩
  calc b.toNat<256^1:=by omega
   _≤256^(maxbits/8):=Nat.pow_le_pow_right (by norm_num) (by omega)
 | string n hn=>
  dsimp only at h
  split at h
  ·simp[bind_apply,andThen]at h
  rename_i hsize
  obtain⟨res,t',hres,h⟩:=bind_eq_ok.1 h
  rw[observe_eq_ok]at hres
  rcases res with e|w
  ·cases e<;>simp at h
  dsimp only at h
  split at h
  ·simp at h
  rename_i hsmall
  obtain⟨rfl,rfl⟩:w=v∧t'=t:=by simpa using h
  obtain⟨tail',hbytes,hpast,hlt⟩:=encoded_of_readUint hs hn hr hres hsmall
  exact⟨tail',hbytes,hpast,hlt.trans_le (Nat.pow_le_pow_right (by norm_num) (not_lt.1 hsize))⟩
 | list n hn=>simp at h

lemma accepts_uint(w:Width):Accepts (decodeUint w) (fun x=>.string (shortest x.toNat)):=by
 intro s s' x hs h
 rw[decodeUint,bind_eq_ok]at h
 obtain⟨v,t,hv,h⟩:=h
 obtain⟨rfl,rfl⟩:BitVec.ofNat w.bits v=x∧t=s':=by simpa using h
 have hbits:8≤w.bits:=by cases w<;>decide
 have hpow:256^(w.bits/8)=2^w.bits:=by cases w<;>rfl
 obtain⟨tail,hr,hpast,hlt⟩:=encoded_of_uint hs hbits (wrap_eq_ok.1 hv)
 rw[hpow]at hlt
 rw[encode,BitVec.toNat_ofNat,Nat.mod_eq_of_lt hlt]
 exact⟨tail,hr,hpast⟩

/-- An array of two or more bytes is accepted as the string of its bytes. -/
lemma accepts_byteArray(hn:2≤n):Accepts (decodeByteArray n) (.string ·.toList):=by
 intro s s' b hs h
 rw[decodeByteArray,bind_eq_ok]at h
 obtain⟨⟨k,m⟩,t,hkind,h⟩:=h
 obtain⟨hd,tail,v,hr,hhd,-,-,rfl⟩:=(kind_eq_ok hs.toSync hs.kind).1 (lift_eq_ok.1 hkind)
 cases hhd with
 | byte v hv=>
  obtain⟨k,rfl⟩:∃k,n=k+2:=⟨n-2,by omega⟩
  simp[decodeOneByte]at h
 | string m hm=>
  obtain⟨rfl,hlen,hb,-,rfl⟩:=eq_of_sized_string hs.toSync h
  rw[content_eq hs hr]at hlen hb
  have hlong:∀c,tail.take n=[c] → 128≤c.toNat:=by
   intro c hc
   have hlength:=congrArg List.length hc
   rw[length_take_of_le hlen,length_singleton]at hlength
   omega
  obtain⟨hbytes,hpast⟩:=accepted_content hs hm hr hlen hlong
  rw[encode,hb]
  exact⟨tail.drop n,hbytes,hpast⟩
 | list m hm=>simp at h

variable {dec:Decoder α} {stands:α→Item→Prop} {typ:GoType}

lemma acceptsAs_mono(h:AcceptsAs dec stands)
 (himp:∀x item,stands x item→stands' x item):AcceptsAs dec stands':=by
 intro s s' x hs hdec
 obtain⟨item,tail,hitem,hrest⟩:=h s s' x hs hdec
 exact⟨item,tail,himp x item hitem,hrest⟩

/-- What the decoder of consecutive fields accepts stands for what it returns. -/
def AcceptsFields (fields:Decoder α) (stands:α→List Item→Prop):Prop:=
 ∀s s' x,Ready s→fields s=some (.ok x,s')→∃items tail,stands x items ∧
  s.r=encodeList items++tail ∧ Past (encodeList items).length s s'

lemma acceptsFields_pure{stands:α→List Item→Prop}(ha:stands a []):
 AcceptsFields (pure a:Decoder α) stands:=by
 intro s s' x hs h
 obtain⟨rfl,rfl⟩:a=x∧s=s':=by simpa using h
 exact⟨[],s.r,ha,rfl,⟨rfl,by simp[encodeList],hs.toSync⟩,hs.kind⟩

lemma field_eq_ok(h:field typ name dec s=some (.ok x,s')):dec s=some (.ok x,s'):=by
 rw[field,bind_eq_ok]at h
 obtain⟨res,t,hres,h⟩:=h
 rw[observe_eq_ok]at hres
 rcases res with ((_ | _) | _ | _)|y
 case ok =>
  obtain⟨rfl,rfl⟩:y=x∧t=s':=by simpa using h
  exact hres
 all_goals simp at h

lemma acceptsFields_bind(hdec:AcceptsAs dec stands)
 (hk:∀a item,stands a item → AcceptsFields (k a) (fun x rest=>stands' x (item::rest))):
 AcceptsFields (field typ name dec>>=k) stands':=by
 intro s s' x hs h
 rw[bind_eq_ok]at h
 obtain⟨a,t,ha,h⟩:=h
 obtain⟨item,tail,hitem,hr,hpast⟩:=hdec s t a hs (field_eq_ok ha)
 obtain⟨rest,tail',hrest,hr',hpast'⟩:=hk a item hitem t s' x hpast.ready h
 refine⟨item::rest,tail',hrest,?_,?_⟩
 ·rw[hpast.r,hr,drop_left]at hr'
  rw[encodeList,hr,hr',append_assoc]
 rw[encodeList_cons_length]
 exact⟨hpast.toMoved.trans hpast'.toMoved,hpast'.kind⟩

lemma accepts_structOf(h:AcceptsFields fields (fun x items=>stands x (.list items))):
 AcceptsAs (structOf typ fields) stands:=by
 intro s s' x hs hdec
 rw[structOf,bind_eq_ok]at hdec
 obtain⟨n,t,hlist,hdec⟩:=hdec
 obtain⟨tail,-,hr,-,hin⟩:=header_of_list hs (wrap_eq_ok.1 hlist)
 obtain⟨y,t',hy,hdec⟩:=bind_eq_ok.1 hdec
 obtain⟨u,t'',hend,hdec⟩:=bind_eq_ok.1 hdec
 obtain⟨rfl,rfl⟩:y=x∧t''=s':=by simpa using hdec
 obtain⟨items,rest,hitems,hbytes,hpast⟩:=h t t' y hin.toReady hy
 obtain⟨rfl,hpast'⟩:=moved_of_listEnd hin hpast.toMoved (wrap_eq_ok.1 hend)
 refine⟨.list items,rest,hitems,?_,?_⟩
 ·have hrest:t.r=tail:=by rw[hin.r,hr,drop_left]
  rw[hr,←hrest,hbytes,encode,append_assoc]
 rw[encode_list_length]
 exact hpast'

lemma lift_rearm(s:Stream):lift rearm s=some (.ok (),{s with kind:=none}):=rfl

/-- An optional pointer is nil for the empty string and for the empty list. -/
lemma accepts_optionalPtr(hdec:Accepts dec item)(hagain:∀s t x,kind s=some (.ok x,t)→dec t=dec s):
 AcceptsAs (decodeOptionalPtr dec) (fun x i=>
  (∃a,x=some a∧i=item a)∨(x=none∧(i=.string []∨i=.list []))):=by
 intro s s' x hs h
 rw[decodeOptionalPtr,bind_eq_ok]at h
 obtain⟨res,t,hres,h⟩:=h
 rw[observe_eq_ok]at hres
 rcases res with e|⟨k,n⟩
 ·dsimp only at h
  rw[bind_of_ok (lift_rearm t)]at h
  simp at h
 dsimp only at h
 split at h
 ·rename_i hempty
  obtain⟨hd,tail,v,hr,hhd,-,-,rfl⟩:=(kind_eq_ok hs.toSync hs.kind).1 hres
  rw[bind_of_ok (lift_rearm _)]at h
  obtain⟨rfl,rfl⟩:none=x∧{armed hd k n v s with kind:=none} = s':=by
   simpa using h
  cases hhd with
  | byte v hv=>exact absurd rfl hempty.2
  | string n hn=>
   obtain rfl:n=0:=hempty.1
   exact⟨.string [],tail,Or.inr ⟨rfl,Or.inl rfl⟩,hr,past_rearm hs.toSync _ .string 0 0⟩
  | list n hn=>
   obtain rfl:n=0:=hempty.1
   exact⟨.list [],tail,Or.inr ⟨rfl,Or.inr rfl⟩,hr,past_rearm hs.toSync _ .list 0 0⟩
 obtain⟨a,t',ha,h⟩:=bind_eq_ok.1 h
 obtain⟨rfl,rfl⟩:some a=x∧t'=s':=by simpa using h
 rw[hagain s t (k,n) hres]at ha
 obtain⟨tail,hr,hpast⟩:=hdec s t' a hs ha
 exact⟨item a,tail,Or.inl ⟨a,rfl,rfl⟩,hr,hpast⟩

lemma neverEnds_field(typ:GoType)(name:String)(dec:Decoder α):NeverEnds (field typ name dec):=by
 refine avoids_bind (avoids_observe dec) (fun res=>?_)
 rcases res with ((_ | _) | _ | _)|y
 case ok=>exact avoids_pure _
 case error.stream.eol=>exact avoids_throw (by simp)
 all_goals exact avoids_throw (addErrorContext_ne_eol (by simp))

lemma endsOnly_structOf(h:NeverEnds fields):EndsOnly (structOf typ fields):=
 endsOnly_bind (endsOnly_wrap fun _ _=>eol_of_list) fun _=>
  avoids_bind h fun _=>avoids_bind (neverEnds_wrap noEol_listEnd) fun _=>avoids_pure _

end GoCoupe.RlpAcceptance
