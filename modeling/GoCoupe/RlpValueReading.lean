import GoCoupe.RlpStreamReading

/-!
# Reading strings, numbers and lists

What the steps that read a value do on a stream whose next header has not been read. They
leave it exactly behind the value, and what they accept is the encoding of what they return.
-/

namespace GoCoupe.RlpValueReading

open BigEndianBytes RlpEncoding RlpStream Reading RlpStreamReading List Nat
open RlpRawSplitting hiding readKind

structure Ready (s:Stream):Prop extends Sync s where
 kind:s.kind=none

structure Moved (n:ℕ) (s s':Stream):Prop where
 r:s'.r=s.r.drop n
 stack:s'.stack=addPos n s.stack
 sync:Sync s'

structure Past (n:ℕ) (s s':Stream):Prop extends Moved n s s' where
 kind:s'.kind=none

variable {s:Stream}

lemma ready_newStream(b:Bytes):Ready (newStream b):=⟨⟨rfl,rfl⟩,rfl⟩

lemma Past.ready(h:Past n s s'):Ready s':=⟨h.sync,h.kind⟩

lemma Moved.trans(h:Moved m s s')(h':Moved n s' s''):Moved (m+n) s s'':=
 ⟨by rw[h'.r,h.r,drop_drop],by rw[h'.stack,h.stack,addPos_addPos],h'.sync⟩

lemma moved_advance(hs:Sync s)(n:ℕ):Moved n s (advance n s):=⟨rfl,rfl,sync_advance hs n⟩

lemma moved_armed(hs:Sync s)(hd:Bytes)(k:Kind)(n:ℕ)(v:UInt8):Moved hd.length s (armed hd k n v s):=
 ⟨rfl,rfl,(sync_advance hs hd.length).limited,(sync_advance hs hd.length).remaining⟩

lemma past_content(hs:Sync s)(hd:Bytes)(k:Kind)(n:ℕ)(v:UInt8):
 Past (hd.length+n) s (advance n (armed hd k n v s)):=
 ⟨(moved_armed hs hd k n v).trans (moved_advance (moved_armed hs hd k n v).sync n),rfl⟩

lemma past_rearm(hs:Sync s)(hd:Bytes)(k:Kind)(n:ℕ)(v:UInt8):
 Past hd.length s {armed hd k n v s with kind:=none}:=
 ⟨⟨rfl,rfl,(moved_armed hs hd k n v).sync.limited,(moved_armed hs hd k n v).sync.remaining⟩,rfl⟩

variable {b:Bytes}

/-- The bytes that stand for a string and its header, as one of the accepted headers. -/
lemma header_string(hb:b.length<2^64):
 (∃x,b=[x]∧x.toNat<128∧encodeString b=[x]∧Header [x] .byte 0 x)∨
 ((∀c,b=[c] → 128≤c.toNat)∧encodeString b=puthead 0x80 0xB7 b.length++b∧
  Header (puthead 0x80 0xB7 b.length) .string b.length 0):=by
 rcases encodeString_cases b with⟨x,rfl,hx,henc,-⟩|⟨hc,henc,-⟩
 ·exact .inl ⟨x,rfl,hx,henc,.byte x hx⟩
 exact .inr ⟨hc,henc,.string _ hb⟩

lemma length_le_encodeString(b:Bytes):b.length≤(encodeString b).length:=by
 rcases encodeString_cases b with⟨x,rfl,-,henc,-⟩|⟨-,henc,-⟩
 ·rw[henc]
 rw[henc,length_append]
 omega

variable {tail:Bytes}

/-- Behind an accepted header `Kind` succeeds and the content can be read. -/
lemma read_content(hs:Ready s)(hhd:Header hd k b.length v)(hr:s.r=hd++(b++tail))
 (hf:Fits s.stack (hd.length+b.length)):
 kind s=some (.ok (k,b.length),armed hd k b.length v s)∧
  (armed hd k b.length v s).r=b++tail∧Fits (armed hd k b.length v s).stack b.length∧
  readFull b.length (armed hd k b.length v s) =
   some (.ok b,advance b.length (armed hd k b.length v s)):=by
 have hroom:Fits (armed hd k b.length v s).stack b.length:=(fits_addPos (hf.mono (by omega))).2 hf
 have hrest:(armed hd k b.length v s).r=b++tail:=by
  rw[(moved_armed hs.toSync _ _ _ _).r,hr,drop_left]
 have hfull:readFull b.length (armed hd k b.length v s)=_:=
  (readFull_eq_ok (moved_armed hs.toSync _ _ _ _).sync).2
   ⟨hroom,by rw[hrest,length_append];omega,rfl,rfl⟩
 rw[hrest,take_left]at hfull
 exact⟨(kind_eq_ok hs.toSync hs.kind).2
  ⟨hd,b++tail,v,hr,hhd,hf,fun _=>by rw[length_append];omega,rfl⟩,hrest,hroom,hfull⟩

/-- A string ahead is a single small byte, which is its own header, or a header and the bytes. -/
lemma string_ahead(hs:Ready s)(hb:b.length<2^64)(hr:s.r=encodeString b++tail)
 (hf:Fits s.stack (encodeString b).length):
 (∃x,b=[x]∧encodeString b=[x]∧kind s=some (.ok (.byte,0),armed [x] .byte 0 x s))∨
 ∃hd,(∀c,b=[c] → 128≤c.toNat)∧(encodeString b).length=hd.length+b.length∧
  kind s=some (.ok (.string,b.length),armed hd .string b.length 0 s)∧
  (armed hd .string b.length 0 s).r=b++tail∧
  Fits (armed hd .string b.length 0 s).stack b.length∧
  readFull b.length (armed hd .string b.length 0 s) =
   some (.ok b,advance b.length (armed hd .string b.length 0 s)):=by
 rcases header_string hb with⟨x,rfl,-,henc,hhd⟩|⟨hc,henc,hhd⟩
 ·rw[henc]at hr hf
  exact .inl ⟨x,rfl,henc,(kind_eq_ok hs.toSync hs.kind).2
   ⟨[x],tail,x,hr,hhd,hf,fun _=>zero_le _,rfl⟩⟩
 rw[henc,append_assoc]at hr
 rw[henc,length_append]at hf ⊢
 exact .inr ⟨_,hc,rfl,read_content hs hhd hr hf⟩

/-- What `Bytes` checks of a string of one byte. -/
lemma canonical_single(hc:∀c,b=[c] → 128≤c.toNat):
 ¬(b.length=1∧(b.head?.any fun x=>x.toNat<128)=true):=by
 rintro⟨hone,hsmall⟩
 obtain⟨c,rfl⟩:=length_eq_one_iff.1 hone
 have:=hc c rfl
 simp at hsmall
 omega

lemma bytes_of_encoded(hs:Ready s)(hb:b.length<2^64)(hr:s.r=encodeString b++tail)
 (hf:Fits s.stack (encodeString b).length):
 ∃s',bytes s=some (.ok b,s')∧Past (encodeString b).length s s':=by
 rcases string_ahead hs hb hr hf with⟨x,rfl,henc,hkind⟩|⟨hd,hc,hsum,hkind,-,-,hfull⟩
 ·rw[henc]
  refine⟨_,?_,past_rearm hs.toSync [x] .byte 0 x⟩
  rw[bytes,bind_of_ok hkind]
  rfl
 rw[hsum]
 refine⟨_,?_,past_content hs.toSync hd .string b.length 0⟩
 rw[bytes,bind_of_ok hkind]
 dsimp only
 rw[bind_of_ok hfull,if_neg (canonical_single hc)]
 rfl

variable {n:ℕ}

/-- The contents behind a header of kind `String`. -/
lemma content_eq(hs:Ready s)(hr:s.r=puthead 0x80 0xB7 n++tail):
 (armed (puthead 0x80 0xB7 n) .string n 0 s).r=tail:=by
 rw[(moved_armed hs.toSync _ _ _ _).r,hr,drop_left]

lemma accepted_content(hs:Ready s)(hn:n<2^64)(hr:s.r=puthead 0x80 0xB7 n++tail)
 (hlen:n≤tail.length)(hsmall:∀c,tail.take n=[c] → 128≤c.toNat):
 s.r=encodeString (tail.take n)++tail.drop n∧Past (encodeString (tail.take n)).length s
   (advance n (armed (puthead 0x80 0xB7 n) .string n 0 s)):=by
 have htake:(tail.take n).length=n:=length_take_of_le hlen
 have henc:encodeString (tail.take n)=puthead 0x80 0xB7 n++tail.take n:=by
  rcases header_string (lt_of_eq_of_lt htake hn) with⟨x,hx,hlt,-⟩|⟨-,henc,-⟩
  ·exact absurd (hsmall x hx) (by omega)
  rw[henc,htake]
 constructor
 ·rw[henc,append_assoc,take_append_drop,hr]
 rw[henc,length_append,htake]
 exact past_content hs.toSync _ .string n 0

lemma encoded_of_bytes(hs:Ready s)(h:bytes s=some (.ok b,s')):
 ∃tail,s.r=encodeString b++tail∧b.length<2^64∧Past (encodeString b).length s s':=by
 rw[bytes,bind_eq_ok]at h
 obtain⟨⟨k,n⟩,t,hkind,h⟩:=h
 obtain⟨hd,tail,v,hr,hhd,-,-,rfl⟩:=(kind_eq_ok hs.toSync hs.kind).1 hkind
 cases hhd with
 | byte x hx=>
  have hpast:=past_rearm hs.toSync [v] .byte 0 v
  obtain⟨rfl,rfl⟩:[v]=b∧{armed [v] .byte 0 v s with kind:=none} = s':=by
   simpa[rearm,bind_apply,andThen,armed]using h
  have henc:encodeString [v]=[v]:=by
   have hle:v≤0x7F:=UInt8.le_iff_toNat_le.2 (by simp;omega)
   simp[encodeString,hle]
  exact⟨tail,by rw[henc,hr],by norm_num,by rw[henc];exact hpast⟩
 | string n hn=>
  dsimp only at h
  rw[bind_eq_ok]at h
  obtain⟨c,t,hfull,h⟩:=h
  obtain⟨-,hlen,rfl,rfl⟩:=(readFull_eq_ok (moved_armed hs.toSync _ _ _ _).sync).1 hfull
  rw[content_eq hs hr]at h hlen
  have htake:(tail.take n).length=n:=length_take_of_le hlen
  split at h
  ·simp[bind_apply,andThen]at h
  rename_i hcanon
  obtain⟨rfl,rfl⟩:tail.take n=b∧
   advance n (armed (puthead 0x80 0xB7 n) .string n 0 s)=s':=by simpa using h
  have hsmall:∀c,tail.take n=[c] → 128≤c.toNat:=by
   intro c hc
   rw[hc]at htake hcanon
   simpa[←htake]using hcanon
  obtain⟨hbytes,hpast⟩:=accepted_content hs hn hr hlen hsmall
  exact⟨tail.drop n,hbytes,by omega,hpast⟩
 | list n hn=>simp at h

/-- The shortest spelling is empty for zero, and has no leading zero otherwise. -/
lemma shortest_head(n:ℕ):(shortest n).head? ≠ some 0:=by
 rcases Nat.eq_zero_or_pos n with rfl|hpos
 ·simp[shortest,width,fixed]
 obtain⟨k,hk⟩:∃k,width n=k+1:=⟨width n-1,by unfold width;split<;>omega⟩
 have hlo:=pow_width_le (show n≠0 by omega)
 have hhi:=lt_pow_width n
 rw[hk,pow_succ]at hhi
 rw[hk,Nat.add_sub_cancel]at hlo
 have hdiv:0<n/256^k:=div_pos hlo (by positivity)
 have hdiv':n/256^k<256:=by
  rw[div_lt_iff_lt_mul (by positivity),mul_comm]
  exact hhi
 rw[shortest,hk,fixed_succ_eq_cons,head?_cons]
 intro hzero
 have:=congrArg UInt8.toNat (Option.some.inj hzero)
 simp[mod_eq_of_lt hdiv']at this
 omega

lemma width_le_iff:width n≤w↔n<256^w:=by
 constructor
 ·intro h
  exact (lt_pow_width n).trans_le (Nat.pow_le_pow_right (by norm_num) h)
 intro h
 rcases Nat.eq_zero_or_pos n with rfl|hpos
 ·simp[width]
 by_contra hcon
 have hle:=pow_width_le (show n≠0 by omega)
 have:256^w≤256^(width n-1):=Nat.pow_le_pow_right (by norm_num) (by omega)
 omega

lemma shortest_length(n:ℕ):(shortest n).length=width n:=fixed_length _ _

lemma uint_of_encoded(hs:Ready s)(hw:w≤8)(hv:v<256^w)(hr:s.r=encodeString (shortest v)++tail)
 (hf:Fits s.stack (encodeString (shortest v)).length):
 ∃s',uint (8*w) s=some (.ok v,s')∧Past (encodeString (shortest v)).length s s':=by
 have hwidth:=width_le_iff.2 hv
 have hlen:=shortest_length v
 rcases string_ahead hs (by omega:(shortest v).length<2^64) hr hf with
  ⟨x,hb,henc,hkind⟩ | ⟨hd,hc,hsum,hkind,hrest,hroom,-⟩
 ·rw[henc]
  have hx0:x≠0:=by
   have:=shortest_head v
   rw[hb]at this
   simpa using this
  have hval:x.toNat=v:=by
   rw[←value_shortest v,hb]
   simp[value]
  have hne:(armed [x] .byte 0 x s).byteval≠0:=hx0
  refine⟨_,?_,past_rearm hs.toSync [x] .byte 0 x⟩
  rw[uint,bind_of_ok hkind]
  dsimp only
  rw[bind_of_ok (get_apply _),if_neg hne,←hval]
  rfl
 rw[hlen]at hsum hkind hrest hroom
 rw[hsum]
 have hover:¬width v>8*w/8:=by omega
 have hcanon:¬(width v>0∧v<128):=by
  rintro⟨hpos,hlt⟩
  have hone:(shortest v).length=1:=by
   have:width v≤1:=width_le_iff.2 (by omega)
   omega
  obtain⟨c,hcv⟩:=length_eq_one_iff.1 hone
  have hval:c.toNat=v:=by
   rw[←value_shortest v,hcv]
   simp[value]
  have:=hc c hcv
  omega
 have hread:∃t,readUint (width v) (armed hd .string (width v) 0 s)=some (.ok v,t)∧
  Past (hd.length+width v) s t:=by
  rcases Nat.eq_zero_or_pos (width v) with hzero|hpos
  ·have hv0:v=0:=by
    have:=width_le_iff.1 hzero.le
    omega
   subst hv0
   exact⟨_,rfl,past_rearm hs.toSync _ .string 0 0⟩
  refine⟨_,(readUint_eq_ok (moved_armed hs.toSync _ _ _ _).sync hpos).2
   ⟨hroom,?_,.inr ?_,?_,rfl⟩,past_content hs.toSync _ .string _ 0⟩
  ·rw[hrest,length_append,hlen]
   omega
  ·rw[hrest,←hlen,take_left]
   exact shortest_head v
  rw[hrest,←hlen,take_left,value_shortest]
 obtain⟨t,hread,hpast⟩:=hread
 refine⟨t,?_,hpast⟩
 rw[uint,bind_of_ok hkind]
 dsimp only
 rw[if_neg hover,bind_of_ok (observe_eq_ok.2 hread)]
 dsimp only
 rw[if_neg hcanon]
 rfl

lemma bool_of_encoded{s:Stream}(hs:Ready s){b:Bool}{tail:Bytes}
 (hr:s.r=encodeString (shortest b.toNat)++tail)
 (hf:Fits s.stack (encodeString (shortest b.toNat)).length):
 ∃s',RlpStream.bool s=some (.ok b,s')∧Past (encodeString (shortest b.toNat)).length s s':=by
 have hlt:b.toNat<256^1:=by cases b<;>decide
 obtain⟨s',hs',hpast⟩:=uint_of_encoded hs (by norm_num:1≤8) hlt hr hf
 refine⟨s',?_,hpast⟩
 rw[RlpStream.bool,bind_of_ok hs']
 cases b<;>rfl

structure Entered (h n:ℕ) (s s':Stream):Prop extends Ready s' where
 r:s'.r=s.r.drop h
 stack:s'.stack=⟨0,n⟩::addPos h s.stack

variable {t:Stream} {x:Kind × ℕ}

lemma list_of_header(hs:Ready s)(hn:n<2^64)(hr:s.r=puthead 0xC0 0xF7 n++tail)(hlen:n≤tail.length)
 (hf:Fits s.stack ((puthead 0xC0 0xF7 n).length+n)):
 ∃s',list s=some (.ok n,s')∧Entered (puthead 0xC0 0xF7 n).length n s s':=by
 have hkind:=(kind_eq_ok hs.toSync hs.kind).2 ⟨_,tail,0,hr,.list n hn,hf,fun _=>hlen,rfl⟩
 have hmoved:=moved_armed hs.toSync (puthead 0xC0 0xF7 n) .list n 0
 let t:=armed (puthead 0xC0 0xF7 n) .list n 0 s
 refine⟨{t with stack:=⟨0,n⟩::t.stack,kind:=none,size:=0},?_,
  ⟨⟨hmoved.sync.limited,hmoved.sync.remaining⟩,rfl⟩,rfl,rfl⟩
 rw[list,bind_of_ok hkind]
 rfl

lemma header_of_list(hs:Ready s)(h:list s=some (.ok n,s')):
 ∃tail,n<2^64∧s.r=puthead 0xC0 0xF7 n++tail∧Fits s.stack ((puthead 0xC0 0xF7 n).length+n)∧
  Entered (puthead 0xC0 0xF7 n).length n s s':=by
 rw[list,bind_eq_ok]at h
 obtain⟨⟨k,m⟩,t,hkind,h⟩:=h
 obtain⟨hd,tail,v,hr,hhd,hf,-,rfl⟩:=(kind_eq_ok hs.toSync hs.kind).1 hkind
 cases hhd with
 | byte | string=>simp[bind_apply,andThen]at h
 | list m hm=>
  have hmoved:=moved_armed hs.toSync (puthead 0xC0 0xF7 m) .list m 0
  obtain⟨rfl,rfl⟩:=by simpa[bind_apply,andThen]using h
  exact⟨tail,hm,hr,hf,⟨⟨hmoved.sync.limited,hmoved.sync.remaining⟩,rfl⟩,rfl,rfl⟩

lemma listEnd_of_moved(he:Entered h n s t)(hm:Moved n t t'):
 ∃s',listEnd t'=some (.ok (),s')∧Past (h+n) s s':=by
 have hstack:t'.stack=⟨n,n⟩::addPos h s.stack:=by
  rw[hm.stack,he.stack,addPos,zero_add]
 refine⟨{t' with stack:=addPos n (addPos h s.stack),kind:=none,size:=0},?_,
  ⟨?_,addPos_addPos _ _ _,hm.sync.limited,hm.sync.remaining⟩,rfl⟩
 ·rw[listEnd,bind_of_ok (get_apply _)]
  simp[hstack]
 rw[←drop_drop,←he.r]
 exact hm.r

/-- A list is left at its end only. -/
lemma moved_of_listEnd(he:Entered h n s t)(hm:Moved m t t')
 (hend:listEnd t'=some (.ok u,s')):m=n∧Past (h+n) s s':=by
 have hstack:t'.stack=⟨m,n⟩::addPos h s.stack:=by
  rw[hm.stack,he.stack,addPos,zero_add]
 have hmn:m=n:=by
  by_contra hne
  rw[listEnd,bind_of_ok (get_apply _)]at hend
  simp[hstack,hne,bind_apply,andThen]at hend
 subst hmn
 obtain⟨s'',hs'',hpast⟩:=listEnd_of_moved he hm
 rw[hs'']at hend
 obtain rfl:s''=s':=by simpa using hend
 exact⟨rfl,hpast⟩

/-- A header is read once, and an error in it is reported again. -/
lemma kind_again(h:kind s=some (y,t)):kind t=some (y,t):=by
 have hsame {u:Stream} (h:recallKind u=some (y,t)):u=t:=by
  obtain⟨_,_,_,k,_,_,err,_⟩:=u
  cases err<;>cases k<;>exact (Prod.mk.inj (Option.some.inj h)).2
 cases hk:s.kind with
 | some k=>
  obtain rfl:=hsame ((kind_of_some hk).symm.trans h)
  exact h
 | none=>
  rcases Classical.em (AtEnd s.stack) with hend|hend
  ·rw[kind_atEnd hk hend]at h
   obtain⟨rfl,rfl⟩:=Prod.mk.inj (Option.some.inj h)
   exact kind_atEnd hk hend
  rw[kind_of_none hk hend]at h
  rcases hread:readKind {s with kinderr:=none} with _ | ⟨e | x,u⟩
  ·simp[bind_apply,hread]at h
  ·exact absurd hread (avoids_readKind _ _ _)
  rw[bind_of_ok hread,remember,bind_of_ok (get_apply _),bind_of_ok (modify_apply _ _)]at h
  obtain rfl:=hsame h
  exact (kind_of_some rfl).trans h

lemma bytes_again(h:kind s=some (.ok x,t)):bytes t=bytes s:=by
 rw[bytes,bind_of_ok h,bind_of_ok (kind_again h)]

lemma list_again(h:kind s=some (.ok x,t)):list t=list s:=by
 rw[list,bind_of_ok h,bind_of_ok (kind_again h)]

end GoCoupe.RlpValueReading
