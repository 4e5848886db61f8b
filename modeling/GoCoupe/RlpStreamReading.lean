import GoCoupe.RlpStream

/-!
# What the steps of the stream read

Each step succeeds exactly on the input it is meant for, and moves the reader, the limit and
the position in the innermost list together.
-/

namespace GoCoupe.RlpStreamReading

open BigEndianBytes RlpEncoding RlpStream Reading List Option Nat
open RlpRawSplitting hiding readKind

variable {ε ε' α β:Type}

@[simp] lemma pure_apply(a:α)(s:Stream):(pure a:Reading ε α) s=some (.ok a,s):=rfl

@[simp] lemma throw_apply(e:ε)(s:Stream):(Reading.throw e:Reading ε α) s=some (.error e,s):=rfl

@[simp] lemma get_apply(s:Stream):(Reading.get:Reading ε Stream) s=some (.ok s,s):=rfl

@[simp] lemma modify_apply(f:Stream→Stream)(s:Stream):
 (Reading.modify f:Reading ε Unit) s=some (.ok (),f s):=rfl

lemma bind_apply(m:Reading ε α)(k:α→Reading ε β)(s:Stream):(m>>=k) s=(m s).bind (andThen k):=rfl

variable {k:α→Reading ε β} {m:Reading ε α} {s s':Stream}

lemma bind_of_ok(h:m s=some (.ok a,s')):(m>>=k) s=k a s':=by
 rw[bind_apply,h]
 rfl

lemma bind_of_error(h:m s=some (.error e,s')):(m>>=k) s=some (.error e,s'):=by
 rw[bind_apply,h]
 rfl

lemma bind_eq_ok:(m>>=k) s=some (.ok b,s')↔∃a t,m s=some (.ok a,t)∧k a t=some (.ok b,s'):=by
 rw[bind_apply,bind_eq_some_iff]
 constructor
 ·rintro⟨⟨e|a,t⟩,hm,hk⟩
  ·simp[andThen]at hk
  exact⟨a,t,hm,hk⟩
 rintro⟨a,t,hm,hk⟩
 exact⟨(.ok a,t),hm,hk⟩

lemma bind_eq_error:(m>>=k) s=some (.error e,s')↔m s=some (.error e,s')∨
  ∃a t,m s=some (.ok a,t)∧k a t=some (.error e,s'):=by
 rw[bind_apply,bind_eq_some_iff]
 constructor
 ·rintro⟨⟨e'|a,t⟩,hm,hk⟩
  ·obtain⟨rfl,rfl⟩:e'=e∧t=s':=by simpa[andThen]using hk
   exact .inl hm
  exact .inr ⟨a,t,hm,hk⟩
 rintro (hm|⟨a,t,hm,hk⟩)
 ·exact⟨(.error e,s'),hm,rfl⟩
 exact⟨(.ok a,t),hm,hk⟩

lemma observe_eq_ok:(observe m:Reading ε' (Except ε α)) s=some (.ok x,s')↔m s=some (x,s'):=by
 rw[observe,map_eq_some_iff]
 constructor
 ·rintro⟨⟨y,t⟩,hm,hk⟩
  obtain⟨rfl,rfl⟩:y=x∧t=s':=by simpa using hk
  exact hm
 intro hm
 exact⟨_,hm,rfl⟩

lemma mapError_eq_ok:mapError f m s=some (.ok a,s')↔m s=some (.ok a,s'):=by
 rw[mapError,map_eq_some_iff]
 constructor
 ·rintro⟨⟨e|b,t⟩,hm,hk⟩
  ·simp[Except.mapError]at hk
  obtain⟨rfl,rfl⟩:b=a∧t=s':=by simpa[Except.mapError]using hk
  exact hm
 intro hm
 exact⟨_,hm,rfl⟩

lemma mapError_eq_error:mapError f m s=some (.error e',s')↔∃e,f e=e'∧m s=some (.error e,s'):=by
 rw[mapError,map_eq_some_iff]
 constructor
 ·rintro⟨⟨e|b,t⟩,hm,hk⟩
  ·obtain⟨rfl,rfl⟩:f e=e'∧t=s':=by simpa[Except.mapError]using hk
   exact⟨e,rfl,hm⟩
  simp[Except.mapError]at hk
 rintro⟨e,rfl,hm⟩
 exact⟨_,hm,rfl⟩

/-- There is room for `n` more bytes in the innermost list. -/
def Fits (st:List ListPos) (n:ℕ):Prop:=∀tos∈st.head?,n≤tos.size-tos.pos

/-- The limit is what the reader has left. -/
structure Sync (s:Stream):Prop where
 limited:s.limited=true
 remaining:s.remaining=s.r.length

def advance (n:ℕ) (s:Stream):Stream:=
 {s with kind:=none,stack:=addPos n s.stack,remaining:=s.remaining-n,r:=s.r.drop n}

@[simp] lemma addPos_zero(st:List ListPos):addPos 0 st=st:=by cases st<;>rfl

@[simp] lemma addPos_addPos(m n:ℕ)(st:List ListPos):
 addPos n (addPos m st)=addPos (m+n) st:=by
 cases st with
 | nil=>rfl
 | cons tos st=>simp[addPos,add_assoc]

lemma advance_advance(m n:ℕ)(s:Stream):advance n (advance m s)=advance (m+n) s:=by
 simp[advance,Nat.sub_sub]

variable {n:ℕ} {st:List ListPos}

lemma sync_advance(hs:Sync s)(n:ℕ):Sync (advance n s):=⟨hs.limited,by simp[advance,hs.remaining]⟩

lemma fits_addPos{m:ℕ}(hm:Fits st m):Fits (addPos m st) n↔Fits st (m+n):=by
 cases st with
 | nil=>simp[Fits,addPos]
 | cons tos st=>
  have hm':m≤tos.size-tos.pos:=hm tos rfl
  simp only[Fits,addPos,head?_cons,mem_some_iff,forall_eq']
  omega

lemma Fits.mono{m:ℕ}(h:Fits st n)(hmn:m≤n):Fits st m:=fun tos ht=>hmn.trans (h tos ht)

lemma fits_nil(n:ℕ):Fits [] n:=by simp[Fits]

lemma fits_cons:Fits (tos::st) n↔n≤tos.size-tos.pos:=by simp[Fits]

/-- The two checks of `willRead`. -/
lemma willRead_eq(hs:Sync s)(n:ℕ):
 (Fits s.stack n∧n ≤ s.r.length∧willRead n s=some (.ok (),{advance n s with r:=s.r}))∨
 (Fits s.stack n∧s.r.length<n∧willRead n s =
  some (.error .valueTooLarge,{s with kind:=none,stack:=addPos n s.stack}))∨
 (¬Fits s.stack n∧willRead n s=some (.error .elemTooLarge,{s with kind:=none})):=by
 obtain⟨r,remaining,limited,kind,size,byteval,kinderr,stack⟩:=s
 obtain⟨rfl,rfl⟩:limited=true∧remaining=r.length:=⟨hs.limited,hs.remaining⟩
 cases stack with
 | nil=>
  rcases lt_or_ge r.length n with hlt|hge
  ·refine .inr (.inl ⟨fits_nil n,hlt,?_⟩)
   simp[willRead,rearm,bind_apply,andThen,hlt,addPos]
  refine .inl ⟨fits_nil n,hge,?_⟩
  simp[willRead,rearm,bind_apply,andThen,not_lt.2 hge,advance,addPos]
 | cons tos st=>
  rcases lt_or_ge (tos.size-tos.pos) n with hout|hin
  ·refine .inr (.inr ⟨by simpa[fits_cons]using hout,?_⟩)
   simp[willRead,rearm,bind_apply,andThen,hout]
  rcases lt_or_ge r.length n with hlt|hge
  ·refine .inr (.inl ⟨fits_cons.2 hin,hlt,?_⟩)
   simp[willRead,rearm,bind_apply,andThen,hlt,not_lt.2 hin,addPos]
  refine .inl ⟨fits_cons.2 hin,hge,?_⟩
  simp[willRead,rearm,bind_apply,andThen,not_lt.2 hin,not_lt.2 hge,advance,addPos]

lemma willRead_eq_ok(hs:Sync s):
 willRead n s=some (.ok u,s')↔Fits s.stack n∧n ≤ s.r.length∧s' = {advance n s with r:=s.r}:=by
 rcases willRead_eq hs n with⟨hf,hn,h⟩|⟨hf,hn,h⟩|⟨hf,h⟩
 ·simp[h,hf,hn,eq_comm]
 ·simp[h,not_le.2 hn]
 simp[h,hf]

lemma readFull_eq_ok(hs:Sync s):
 readFull n s=some (.ok b,s')↔Fits s.stack n∧n ≤ s.r.length∧b=s.r.take n∧s'=advance n s:=by
 rw[readFull,bind_eq_ok]
 constructor
 ·rintro⟨u,t,ht,hk⟩
  obtain⟨hf,hn,rfl⟩:=(willRead_eq_ok hs).1 ht
  simp only[bind_apply,get_apply,bind_some,andThen,modify_apply,if_pos hn,
   pure_apply,some.injEq,Prod.mk.injEq,Except.ok.injEq]at hk
  exact⟨hf,hn,hk.1.symm,hk.2.symm⟩
 rintro⟨hf,hn,rfl,rfl⟩
 refine⟨(),_,(willRead_eq_ok hs).2 ⟨hf,hn,rfl⟩,?_⟩
 simp[bind_apply,andThen,hn,advance]

/-- A byte is read as a buffer of one. -/
lemma readByte_eq:readByte=readFull 1>>=fun b=>pure (b.headD 0):=by
 funext s
 simp only[readByte,readFull,bind_apply]
 rcases willRead 1 s with _|⟨e|u,⟨_|⟨b,r⟩,remaining,limited,kind,size,byteval,kinderr,stack⟩⟩
 all_goals rfl

lemma readByte_eq_ok(hs:Sync s):
 readByte s=some (.ok b,s')↔Fits s.stack 1∧s.r.head? = some b∧s'=advance 1 s:=by
 rw[readByte_eq,bind_eq_ok]
 constructor
 ·rintro⟨c,t,hc,hk⟩
  obtain⟨hf,hlen,rfl,rfl⟩:=(readFull_eq_ok hs).1 hc
  obtain⟨x,r,hr⟩:=exists_cons_of_length_pos hlen
  simp only[hr,take_succ_cons,headD_cons,pure_apply,some.injEq,Prod.mk.injEq,Except.ok.injEq]at hk
  exact⟨hf,by rw[hr,hk.1];rfl,hk.2.symm⟩
 rintro⟨hf,hb,rfl⟩
 obtain⟨r,hr⟩:=head?_eq_some_iff.1 hb
 exact⟨_,_,(readFull_eq_ok hs).2 ⟨hf,by simp[hr],rfl,rfl⟩,by simp[hr]⟩

variable {k:Kind}

lemma readUint_eq_ok(hs:Sync s)(hn:1≤n):readUint n s=some (.ok v,s')↔Fits s.stack n∧n ≤ s.r.length∧
  (n=1∨(s.r.take n).head? ≠ some 0)∧v=value (s.r.take n)∧s'=advance n s:=by
 match n,hn with
 | 1,_=>
  rw[readUint,bind_eq_ok]
  constructor
  ·rintro⟨b,t,hb,hk⟩
   obtain⟨hf,hhead,rfl⟩:=(readByte_eq_ok hs).1 hb
   obtain⟨rfl,rfl⟩:b.toNat=v∧advance 1 s=s':=by simpa using hk
   obtain⟨r,hr⟩:=head?_eq_some_iff.1 hhead
   exact⟨hf,by simp[hr],.inl rfl,by simp[hr,value],rfl⟩
  rintro⟨hf,hlen,-,rfl,rfl⟩
  obtain⟨b,r,hr⟩:=exists_cons_of_length_pos hlen
  exact⟨b,_,(readByte_eq_ok hs).2 ⟨hf,by simp[hr],rfl⟩,by simp[hr,value]⟩
 | n+2,_=>
  rw[readUint,bind_eq_ok]
  ·constructor
   ·rintro⟨b,t,hb,hk⟩
    obtain⟨hf,hlen,rfl,rfl⟩:=(readFull_eq_ok hs).1 hb
    split at hk
    ·simp[bind_apply,andThen]at hk
    rename_i hhead
    obtain⟨rfl,rfl⟩:value (s.r.take (n+2))=v∧advance (n+2) s=s':=by
     simpa[bind_apply,andThen]using hk
    exact⟨hf,hlen,.inr hhead,rfl,rfl⟩
   rintro⟨hf,hlen,hhead,rfl,rfl⟩
   have hhead':=hhead.resolve_left (by omega)
   exact⟨_,_,(readFull_eq_ok hs).2 ⟨hf,hlen,rfl,rfl⟩,by rw[if_neg hhead'];rfl⟩
  all_goals omega

/-- The headers that are accepted: the bytes, the kind and size they announce, and the byte
that a header of kind `Byte` is itself. -/
inductive Header:Bytes→Kind→ℕ→UInt8→Prop
 | byte (b:UInt8) (hb:b.toNat<0x80):Header [b] .byte 0 b
 | string (n:ℕ) (hn:n<2^64):Header (puthead 0x80 0xB7 n) .string n 0
 | list (n:ℕ) (hn:n<2^64):Header (puthead 0xC0 0xF7 n) .list n 0

lemma readLongSize_eq_ok(hs:Sync s){k':Kind}{m:ℕ}(hm:1 ≤ m)(h8:m≤8):
 readLongSize k m s=some (.ok (k',n,none),s')↔k'=k∧56≤n∧n<2^64∧m=intsize n∧Fits s.stack m∧
   (∃tail,s.r=putint n++tail)∧s'=advance m s:=by
 rw[readLongSize,bind_eq_ok]
 constructor
 ·rintro⟨x|v,t,hx,hk⟩
  ·simp at hk
  obtain⟨hf,hlen,hhead,rfl,rfl⟩:=(readUint_eq_ok hs hm).1 (observe_eq_ok.1 hx)
  have htake:(s.r.take m).length=m:=by simp[hlen]
  have hk':(k=k'∧value (s.r.take m)=n∧56≤value (s.r.take m))∧advance m s=s':=by
   simpa using hk
  obtain⟨⟨rfl,rfl,h56⟩,rfl⟩:=hk'
  have hput:putint (value (s.r.take m))=s.r.take m:=
   putint_value (by omega) (by omega) (by rw[htake];exact hhead)
  refine⟨rfl,h56,?_,?_,hf,⟨s.r.drop m,?_⟩,rfl⟩
  ·have hlt:=value_lt (s.r.take m)
   rw[htake]at hlt
   exact hlt.trans_le ((Nat.pow_le_pow_right (by norm_num) h8).trans (by norm_num))
  ·rw[←putint_length,hput,htake]
  rw[hput,take_append_drop]
 rintro⟨rfl,h56,h64,rfl,hf,⟨tail,hr⟩,rfl⟩
 have hlen:=putint_length n
 have htake:s.r.take (intsize n)=putint n:=by rw[hr,←hlen,take_left]
 have hval:value (putint n)=n:=by
  rw[putint_eq_fixed,value_fixed_of_lt (lt_pow_intsize h64)]
 obtain⟨x,b,hb,hx⟩:=putint_eq_cons h64 (by omega)
 refine⟨.ok n,_,observe_eq_ok.2 ((readUint_eq_ok hs hm).2 ⟨hf,?_,.inr ?_,?_,rfl⟩),?_⟩
 ·rw[hr,length_append,hlen]
  omega
 ·rw[htake,hb]
  simpa using hx
 ·rw[htake,hval]
 simp[not_lt.2 h56]

lemma puthead_small{t:UInt8}(l:UInt8){b:UInt8}(hlo:t.toNat≤b.toNat)
 (hhi:b.toNat<t.toNat+56):puthead t l (b.toNat-t.toNat)=[b]:=by
 rw[puthead,if_pos (by omega)]
 have hb:=b.toNat_lt
 refine congrArg ([·]) (UInt8.toNat_inj.1 ?_)
 rw[toNat_add_ofNat (by omega)]
 omega

lemma puthead_large(t:UInt8)(h56:56≤n)(hb:b.toNat=l.toNat+intsize n):puthead t l n=b::putint n:=by
 rw[puthead,if_neg (by omega),putint_length]
 have hlt:=b.toNat_lt
 refine congrArg (· :: putint n) (UInt8.toNat_inj.1 ?_)
 rw[toNat_add_ofNat (by omega),hb]

/-- What `readKind` does with the first byte. -/
def afterByte (b:UInt8):Step (Kind × ℕ × Option StreamError):=do
 modify fun s=>{s with byteval:=0}
 if b.toNat<0x80 then
  modify fun s=>{s with byteval:=b}
  return (.byte,0,none)
 else if b.toNat<0xB8 then return (.string,b.toNat-0x80,none)
 else if b.toNat<0xC0 then readLongSize .string (b.toNat-0xB7)
 else if b.toNat<0xF8 then return (.list,b.toNat-0xC0,none)
 else readLongSize .list (b.toNat-0xF7)

lemma readKind_eq_ok_iff(hs:Sync s):
 readKind s=some (.ok (k,n,none),s')↔∃b,Fits s.stack 1∧s.r.head? = some b∧
  afterByte b (advance 1 s)=some (.ok (k,n,none),s'):=by
 rw[readKind,bind_eq_ok]
 constructor
 ·rintro⟨e|b,t,hx,hk⟩
  ·simp[bind_apply,andThen]at hk
  obtain⟨hf,hb,rfl⟩:=(readByte_eq_ok hs).1 (observe_eq_ok.1 hx)
  exact⟨b,hf,hb,hk⟩
 rintro⟨b,hf,hb,hk⟩
 exact⟨.ok b,_,observe_eq_ok.2 ((readByte_eq_ok hs).2 ⟨hf,hb,rfl⟩),hk⟩

/-- `readKind` accepts headers only. -/
lemma header_of_readKind(hs:Sync s)(h:readKind s=some (.ok (k,n,none),s')):
 ∃hd tail v,s.r=hd++tail∧Header hd k n v∧Fits s.stack hd.length∧
  s' = {advance hd.length s with byteval:=v}:=by
 obtain⟨b,hf,hb,hk⟩:=(readKind_eq_ok_iff hs).1 h
 obtain⟨r,hr⟩:=head?_eq_some_iff.1 hb
 have hblt:=b.toNat_lt
 have hsync:Sync {advance 1 s with byteval:=0}:=
  ⟨(sync_advance hs 1).limited,(sync_advance hs 1).remaining⟩
 have hlong {t l:UInt8} {k':Kind} (hlo:l.toNat<b.toNat) (hhi:b.toNat≤l.toNat+8)
  (hk:readLongSize k' (b.toNat-l.toNat) {advance 1 s with byteval:=0} = some (.ok (k,n,none),s')) :
  ∃tail,s.r=puthead t l n++tail∧k=k'∧n<2^64∧Fits s.stack (puthead t l n).length∧
   s' = {advance (puthead t l n).length s with byteval:=0}:=by
  obtain⟨rfl,h56,h64,hm,hf',⟨tail,htail⟩,rfl⟩:=
   (readLongSize_eq_ok (m:=b.toNat-l.toNat) hsync (by omega) (by omega)).1 hk
  have hput:puthead t l n=b::putint n:=puthead_large t h56 (by omega)
  have hlen:(puthead t l n).length=1+intsize n:=by
   rw[hput,length_cons,putint_length]
   omega
  refine⟨tail,?_,rfl,h64,?_,?_⟩
  ·have:r=putint n++tail:=by simpa[advance,hr]using htail
   rw[hput,hr,this,cons_append]
  ·rw[hlen,←hm]
   exact (fits_addPos hf).1 hf'
  rw[hlen,←hm,←advance_advance]
  rfl
 rw[afterByte,bind_of_ok (modify_apply _ _)]at hk
 split at hk
 ·rename_i hlt
  obtain⟨⟨rfl,rfl⟩,rfl⟩:(Kind.byte=k∧0=n)∧{advance 1 s with byteval:=b} = s':=by
   simpa[bind_apply,andThen]using hk
  exact⟨[b],r,b,hr,.byte b hlt,hf,rfl⟩
 split at hk
 ·obtain⟨⟨rfl,rfl⟩,rfl⟩:(Kind.string=k∧b.toNat-0x80=n)∧
   {advance 1 s with byteval:=0} = s':=by simpa using hk
  have hput:=puthead_small (t:=0x80) 0xB7 (b:=b) (by simp;omega) (by simp;omega)
  refine⟨[b],r,0,hr,?_,hf,rfl⟩
  rw[←hput]
  exact .string _ (by simp;omega)
 split at hk
 ·obtain⟨tail,htail,rfl,h64,hf',rfl⟩:=hlong (t:=0x80) (l:=0xB7) (by simp;omega) (by simp;omega) hk
  exact⟨_,tail,0,htail,.string n h64,hf',rfl⟩
 split at hk
 ·obtain⟨⟨rfl,rfl⟩,rfl⟩:(Kind.list=k∧b.toNat-0xC0=n)∧
   {advance 1 s with byteval:=0} = s':=by simpa using hk
  have hput:=puthead_small (t:=0xC0) 0xF7 (b:=b) (by simp;omega) (by simp;omega)
  refine⟨[b],r,0,hr,?_,hf,rfl⟩
  rw[←hput]
  exact .list _ (by simp;omega)
 obtain⟨tail,htail,rfl,h64,hf',rfl⟩:=hlong (t:=0xC0) (l:=0xF7) (by simp;omega) (by simp;omega) hk
 exact⟨_,tail,0,htail,.list n h64,hf',rfl⟩

lemma Header.length_pos(h:Header hd k n v):1≤hd.length:=by
 cases h with
 | byte b hb=>exact le_rfl
 | string | list=>rw[puthead_length,headsize];split<;>omega

/-- `readKind` accepts every header. -/
lemma readKind_of_header(hs:Sync s){hd tail:Bytes}{v:UInt8}(hr:s.r=hd++tail)
 (h:Header hd k n v)(hf:Fits s.stack hd.length):
 readKind s=some (.ok (k,n,none),{advance hd.length s with byteval:=v}):=by
 have hone:Fits s.stack 1:=hf.mono h.length_pos
 have hsync:Sync {advance 1 s with byteval:=0}:=
  ⟨(sync_advance hs 1).limited,(sync_advance hs 1).remaining⟩
 have hlong {t l:UInt8} {c:Kind} (h56:56≤n) (h64:n<2^64) (hd':hd=puthead t l n)
  (hl:l.toNat+8<256) :
  ∃b:UInt8,s.r.head? = some b∧b.toNat=l.toNat+intsize n∧
   readLongSize c (b.toNat-l.toNat) {advance 1 s with byteval:=0} =
    some (.ok (c,n,none),{advance hd.length s with byteval:=0}):=by
  obtain⟨h1,h8⟩:=intsize_bounds n
  have hb:(l+UInt8.ofNat (intsize n)).toNat=l.toNat+intsize n:=toNat_add_ofNat (by omega)
  have hput:=puthead_large t h56 hb
  have hlen:hd.length=1+intsize n:=by
   rw[hd',hput,length_cons,putint_length]
   omega
  refine⟨l+UInt8.ofNat (intsize n),by rw[hr,hd',hput];rfl,hb,?_⟩
  rw[hb,Nat.add_sub_cancel_left]
  refine (readLongSize_eq_ok hsync h1 h8).2 ⟨rfl,h56,h64,rfl,?_,⟨tail,?_⟩,?_⟩
  ·rw[hlen]at hf
   exact (fits_addPos hone).2 hf
  ·rw[hd',hput]at hr
   simp[advance,hr]
  rw[hlen,←advance_advance]
  rfl
 have hstart {b:UInt8} {k':Kind} {t:Stream} (hb:s.r.head? = some b)
  (hk:afterByte b (advance 1 s)=some (.ok (k',n,none),t)) :
  readKind s=some (.ok (k',n,none),t):=(readKind_eq_ok_iff hs).2 ⟨b,hone,hb,hk⟩
 cases h with
 | byte b hb=>
  refine hstart (by rw[hr];rfl) ?_
  rw[afterByte,bind_of_ok (modify_apply _ _),if_pos hb]
  rfl
 | string n h64=>
  rcases lt_or_ge n 56 with hlt|hge
  ·have hb:((0x80:UInt8)+UInt8.ofNat n).toNat=0x80+n:=toNat_add_ofNat (by simp;omega)
   have hput:puthead 0x80 0xB7 n=[0x80+UInt8.ofNat n]:=if_pos hlt
   refine hstart (by rw[hr,hput];rfl) ?_
   rw[afterByte,bind_of_ok (modify_apply _ _),hb,if_neg (by omega),if_pos (by omega),
    Nat.add_sub_cancel_left,hput]
   rfl
  obtain⟨b,hb,hval,hread⟩:=hlong (c:=.string) hge h64 rfl (by simp)
  obtain⟨h1,h8⟩:=intsize_bounds n
  have hval':b.toNat=0xB7+intsize n:=hval
  refine hstart hb ?_
  rw[afterByte,bind_of_ok (modify_apply _ _),if_neg (by omega),if_neg (by omega),if_pos (by omega)]
  exact hread
 | list n h64=>
  rcases lt_or_ge n 56 with hlt|hge
  ·have hb:((0xC0:UInt8)+UInt8.ofNat n).toNat=0xC0+n:=toNat_add_ofNat (by simp;omega)
   have hput:puthead 0xC0 0xF7 n=[0xC0+UInt8.ofNat n]:=if_pos hlt
   refine hstart (by rw[hr,hput];rfl) ?_
   rw[afterByte,bind_of_ok (modify_apply _ _),hb,if_neg (by omega),if_neg (by omega),
    if_neg (by omega),if_pos (by omega),Nat.add_sub_cancel_left,hput]
   rfl
  obtain⟨b,hb,hval,hread⟩:=hlong (c:=.list) hge h64 rfl (by simp)
  obtain⟨h1,h8⟩:=intsize_bounds n
  have hval':b.toNat=0xF7+intsize n:=hval
  refine hstart hb ?_
  rw[afterByte,bind_of_ok (modify_apply _ _),if_neg (by omega),if_neg (by omega),
   if_neg (by omega),if_neg (by omega)]
  exact hread

def armed (hd:Bytes) (k:Kind) (n:ℕ) (v:UInt8) (s:Stream):Stream:=
 {advance hd.length s with kind:=some k,size:=n,byteval:=v,kinderr:=none}

/-- The innermost list has been read to its end. -/
def AtEnd (st:List ListPos):Prop:=∃tos∈st.head?,tos.pos=tos.size

lemma atEnd_iff:(st.head?.any fun tos=>tos.pos=tos.size)=true↔AtEnd st:=by
 cases st<;>simp[AtEnd]

lemma sizeError_eq_none(hs:Sync s):sizeError s n=none↔Fits s.stack n∧(s.stack=[]→n ≤ s.r.length):=by
 unfold sizeError
 cases hst:s.stack with
 | nil=>simp[fits_nil,hs.limited,hs.remaining]
 | cons tos st=>simp[fits_cons]

def remember (x:Kind × ℕ × Option StreamError):Step (Kind × ℕ):=do
 let s ← get
 modify fun t=>
  {t with kind:=some x.1,size:=x.2.1,kinderr:=x.2.2.orElse fun _=>sizeError s x.2.1}
 recallKind

lemma kind_of_some(hk:s.kind=some k):kind s=recallKind s:=by
 rw[kind,bind_of_ok (get_apply s)]
 simp only[hk]

lemma kind_atEnd(hk:s.kind=none)(h:AtEnd s.stack):
 kind s=some (.error .eol,{s with kinderr:=none}):=by
 rw[kind,bind_of_ok (get_apply s)]
 simp only[hk]
 rw[bind_of_ok (modify_apply _ _),if_pos (atEnd_iff.2 h),bind_of_error (throw_apply _ _),hk]

lemma kind_of_none(hk:s.kind=none)(h:¬AtEnd s.stack):
 kind s=(readKind>>=remember) {s with kinderr:=none}:=by
 rw[kind,bind_of_ok (get_apply s)]
 simp only[hk]
 rw[bind_of_ok (modify_apply _ _),if_neg (mt atEnd_iff.1 h)]
 rfl

lemma remember_eq_ok:remember x s=some (.ok (k,n),s')↔x=(k,n,none)∧sizeError s n=none∧
  s' = {s with kind:=some k,size:=n,kinderr:=none}:=by
 obtain⟨k',n',err⟩:=x
 rw[remember,bind_of_ok (get_apply s),bind_of_ok (modify_apply _ _),recallKind,bind_of_ok (get_apply _)]
 cases err with
 | some e=>simp
 | none=>
  constructor
  ·intro h
   cases hsize:sizeError s n' with
   | some e=>simp[hsize]at h
   | none=>
    obtain⟨⟨rfl,rfl⟩,rfl⟩:(k'=k∧n'=n)∧
     {s with kind:=some k',size:=n',kinderr:=none} = s':=by simpa[hsize]using h
    exact⟨rfl,hsize,rfl⟩
  rintro⟨heq,hsize,rfl⟩
  obtain⟨rfl,rfl⟩:k'=k∧n'=n:=by simpa using heq
  simp[hsize]

/-- `Kind` succeeds exactly on a header whose value has room. -/
lemma kind_eq_ok(hs:Sync s)(hk:s.kind=none):
 kind s=some (.ok (k,n),s')↔∃hd tail v,s.r=hd++tail∧Header hd k n v∧
  Fits s.stack (hd.length+n)∧(s.stack=[]→n≤tail.length)∧s'=armed hd k n v s:=by
 have hsync:Sync {s with kinderr:=none}:=⟨hs.limited,hs.remaining⟩
 have hsize {hd tail:Bytes} {v:UInt8} (hr:s.r=hd++tail) (hf:Fits s.stack hd.length) :
  sizeError {advance hd.length {s with kinderr:=none} with byteval:=v} n=none↔
   Fits s.stack (hd.length+n)∧(s.stack=[]→n≤tail.length):=by
  have hsync':Sync {advance hd.length {s with kinderr:=none} with byteval:=v}:=
   ⟨hs.limited,by simp[advance,hs.remaining]⟩
  rw[sizeError_eq_none hsync']
  simp only[advance]
  rw[fits_addPos hf,hr,drop_left]
  refine and_congr_right fun _=>?_
  cases s.stack<;>simp[addPos]
 constructor
 ·intro h
  have hend:¬AtEnd s.stack:=by
   intro hend
   simp[kind_atEnd hk hend]at h
  rw[kind_of_none hk hend,bind_eq_ok]at h
  obtain⟨x,t,hread,hrem⟩:=h
  obtain⟨rfl,hnone,rfl⟩:=remember_eq_ok.1 hrem
  obtain⟨hd,tail,v,hr,hhd,hf,rfl⟩:=header_of_readKind hsync hread
  obtain⟨hf',htail⟩:=(hsize hr hf).1 hnone
  exact⟨hd,tail,v,hr,hhd,hf',htail,rfl⟩
 rintro⟨hd,tail,v,hr,hhd,hf,htail,rfl⟩
 have hpos:=hhd.length_pos
 have hend:¬AtEnd s.stack:=by
  rintro⟨tos,ht,heq⟩
  have:=hf tos ht
  omega
 have hf':Fits s.stack hd.length:=hf.mono (by omega)
 rw[kind_of_none hk hend,bind_of_ok (readKind_of_header hsync hr hhd hf')]
 exact remember_eq_ok.2 ⟨rfl,(hsize hr hf').2 ⟨hf,htail⟩,rfl⟩

variable {e e':ε} {m':Reading ε α} {p:Prop} [Decidable p]

/-- The computation never fails with `e`. -/
def Avoids (e:ε) (m:Reading ε α):Prop:=∀s s',m s≠some (.error e,s')

lemma avoids_bind{k:α→Reading ε β}(hm:Avoids e m)(hk:∀a,Avoids e (k a)):Avoids e (m>>=k):=by
 intro s s' h
 rcases bind_eq_error.1 h with h|⟨a,t,-,h⟩
 ·exact hm s s' h
 exact hk a t s' h

lemma avoids_pure(a:α):Avoids e (pure a):=fun s s' h=>by simp at h

lemma avoids_get:Avoids e Reading.get:=fun s s' h=>by simp at h

lemma avoids_modify(f:Stream→Stream):Avoids e (Reading.modify f):=fun s s' h=>by simp at h

lemma avoids_observe(m:Reading ε' α):Avoids e (observe m):=fun s s' h=>by simp[observe]at h

lemma avoids_throw(he:e'≠e):Avoids e (Reading.throw e':Reading ε α):=fun s s' h=>he (by simp_all)

lemma avoids_ite(hm:Avoids e m)(hm':Avoids e m'):Avoids e (if p then m else m'):=by
 split<;>assumption

lemma avoids_guard{k:β→Reading ε α}(he:e'≠e)(hm:Avoids e m):
 Avoids e (if p then Reading.throw e'>>=k else m):=
 avoids_ite (@avoids_throw _ α _ _ he) hm

/-- The step never reports the end of a list. -/
def NoEol (m:Step α):Prop:=∀s s',m s≠some (.error .eol,s')

lemma noEol_willRead(n:ℕ):NoEol (willRead n):=by
 refine avoids_bind (avoids_modify _) fun _=>avoids_bind avoids_get fun s=>?_
 have hlimit:NoEol (do
  if s.limited then
   if n>s.remaining then Reading.throw .valueTooLarge
   Reading.modify fun s=>{s with remaining:=s.remaining-n}:Step Unit):=
  avoids_ite (avoids_guard (by simp) (avoids_modify _)) (avoids_pure _)
 cases s.stack with
 | nil=>exact hlimit
 | cons tos st=>
  exact avoids_guard (by simp) (avoids_bind (avoids_modify _) fun _=>hlimit)

lemma noEol_readFull(n:ℕ):NoEol (readFull n):=
 avoids_bind (noEol_willRead n) fun _=>avoids_bind avoids_get fun _=>
  avoids_bind (avoids_modify _) fun _=>avoids_ite (avoids_pure _) (avoids_throw (by simp))

lemma noEol_readByte:NoEol readByte:=by
 rw[readByte_eq]
 exact avoids_bind (noEol_readFull 1) fun _=>avoids_pure _

lemma noEol_readUint(n:ℕ):NoEol (readUint n):=by
 match n with
 | 0=>exact avoids_bind (avoids_modify _) fun _=>avoids_pure _
 | 1=>exact avoids_bind noEol_readByte fun _=>avoids_pure _
 | n+2=>
  exact avoids_bind (noEol_readFull _) fun _=>avoids_guard (by simp) (avoids_pure _)

variable {x:Kind × ℕ × Option StreamError}

/-- The error that comes with a header is not the end of a list. -/
lemma readLongSize_ne_eol{k:Kind}{m:ℕ}(h:readLongSize k m s=some (.ok x,s')):x.2.2≠some .eol:=by
 rw[readLongSize,bind_eq_ok]at h
 obtain⟨e|v,t,hx,hk⟩:=h
 ·obtain⟨rfl,-⟩:(k,0,some e)=x∧t=s':=by simpa using hk
  intro he
  obtain rfl:e=.eol:=by simpa using he
  exact noEol_readUint m s t (observe_eq_ok.1 hx)
 obtain⟨rfl,-⟩:(k,v,if v<56 then some StreamError.canonSize else none)=x∧t=s':=by
  simpa using hk
 dsimp only
 split<;>simp

lemma readKind_ne_eol(h:readKind s=some (.ok x,s')):x.2.2≠some .eol:=by
 rw[readKind,bind_eq_ok]at h
 obtain⟨e|b,t,hx,hk⟩:=h
 ·have he:e≠.eol:=by
   rintro rfl
   exact noEol_readByte s t (observe_eq_ok.1 hx)
  obtain⟨rfl,-⟩:=by simpa[bind_apply,andThen]using hk
  dsimp only
  split<;>simp[he]
 replace hk:afterByte b t=some (.ok x,s'):=hk
 rw[afterByte,bind_of_ok (modify_apply _ _)]at hk
 split at hk
 ·obtain⟨rfl,-⟩:=by simpa[bind_apply,andThen]using hk
  simp
 split at hk
 ·obtain⟨rfl,-⟩:=by simpa using hk
  simp
 split at hk
 ·exact readLongSize_ne_eol hk
 split at hk
 ·obtain⟨rfl,-⟩:=by simpa using hk
  simp
 exact readLongSize_ne_eol hk

/-- Its error is a part of what `readKind` returns. -/
lemma avoids_readKind(e:StreamError):Avoids e readKind:=by
 have hlong (k:Kind) (m:ℕ):Avoids e (readLongSize k m):=by
  refine avoids_bind (avoids_observe _) fun y=>?_
  cases y<;>exact avoids_pure _
 refine avoids_bind (avoids_observe _) fun x=>?_
 cases x with
 | error e=>exact avoids_bind avoids_get fun _=>avoids_pure _
 | ok b=>
  refine avoids_bind (avoids_modify _) fun _=>avoids_ite ?_ (avoids_ite (avoids_pure _) ?_)
  ·exact avoids_bind (avoids_modify _) fun _=>avoids_pure _
  exact avoids_ite (hlong _ _) (avoids_ite (avoids_pure _) (hlong _ _))

/-- `Kind` reports the end of the list there and nowhere else. -/
lemma kind_eq_eol(hk:s.kind=none)(h:kind s=some (.error .eol,s')):
 AtEnd s.stack∧s' = {s with kinderr:=none}:=by
 by_cases hend:AtEnd s.stack
 ·rw[kind_atEnd hk hend]at h
  exact⟨hend,by simpa[eq_comm]using h⟩
 rw[kind_of_none hk hend]at h
 rcases bind_eq_error.1 h with h|⟨x,t,hread,h⟩
 ·exact absurd h (avoids_readKind _ _ _)
 have hne:=readKind_ne_eol hread
 rw[remember,bind_of_ok (get_apply _),bind_of_ok (modify_apply _ _),recallKind,
  bind_of_ok (get_apply _)]at h
 obtain⟨k,n,err⟩:=x
 cases err with
 | some e=>
  simp only[orElse_some,throw_apply,some.injEq,Prod.mk.injEq,Except.error.injEq]at h
  simp[h.1]at hne
 | none=>
  have hsize:sizeError t n≠some .eol:=by
   unfold sizeError
   split<;>split<;>simp
  cases he:sizeError t n with
  | none=>simp[he]at h
  | some e=>
   simp[he]at h
   simp[he,h.1]at hsize

end GoCoupe.RlpStreamReading
