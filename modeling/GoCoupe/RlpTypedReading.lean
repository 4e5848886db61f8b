import GoCoupe.RlpTreeRoundTrip

/-!
# Reading typed values back

For an array of one zero byte `Uint` fails before it marks the header as used, and
`decodeByteArray` does not look at the error. The next value of the list is then decoded from
the stale header. `Clean` says that no such array stands where another value is read behind it.
-/

namespace GoCoupe.RlpTypedReading

open BigEndianBytes RlpEncoding RlpStream Reading RlpStreamReading RlpValueReading RlpTypedValues
open List
open RlpTypedEncoding RlpTreeRoundTrip
open RlpRawSplitting hiding readKind

/-- The value is an array of one zero byte, whose header stays behind. -/
def Lingers:(t:GoType)→t.Value→Prop
 | .byteArray _,(b:List.Vector UInt8 _)=>b.toList=[0]
 | _,_=>False

mutual

/-- No array of one zero byte is an element of a slice, or an element of an array or a field
of a struct other than the last. -/
def Clean:(t:GoType)→t.Value→Prop
 | .uint _,_=>True
 | .bool,_=>True
 | .bigInt,_=>True
 | .string,_=>True
 | .bytes,_=>True
 | .byteArray _,_=>True
 | .slice t,(xs:List t.Value)=>∀x∈xs,Clean t x ∧ ¬Lingers t x
 | .array _ t,(xs:List.Vector t.Value _)=>
  (∀x∈xs.toList,Clean t x) ∧ ∀x∈xs.toList.dropLast,¬Lingers t x
 | .struct fs,(xs:fs.Values)=>CleanFields fs xs
 | .interface,_=>True

def CleanFields:(fs:Fields)→fs.Values→Prop
 | .nil,_=>True
 | .cons _ t fs,(xs:t.Value × fs.Values)=>
  Clean t xs.1 ∧ (fs≠.nil→¬Lingers t xs.1) ∧ CleanFields fs xs.2

end

lemma reads_of_imp(h:Reads dec item x p)(hpq:q→p):Reads dec item x q:=by
 intro s tail hs hr hf
 obtain⟨s',hs',hmoved,hp⟩:=h s tail hs hr hf
 exact⟨s',hs',hmoved,fun hq=>hp (hpq hq)⟩

lemma bits_eq(w:Width):∃n≤8,w.bits=8*n:=by
 cases w
 ·exact⟨1,by norm_num,rfl⟩
 ·exact⟨2,by norm_num,rfl⟩
 ·exact⟨4,by norm_num,rfl⟩
 exact⟨8,le_rfl,rfl⟩

lemma decodeUint_reads{w:Width}(x:BitVec w.bits)(clean:Prop):
 Reads (decodeUint w) (.string (shortest x.toNat)) x clean:=by
 intro s tail hs hr hf
 rw[encode]at hr hf ⊢
 obtain⟨n,hn,hbits⟩:=bits_eq w
 have hlt:x.toNat<256^n:=by
  have hpow:(256:ℕ)^n=2^w.bits:=by
   rw[hbits,pow_mul]
   norm_num
  rw[hpow]
  exact x.isLt
 obtain⟨s',hs',hpast⟩:=uint_of_encoded hs hn hlt hr hf
 refine⟨s',?_,hpast.toMoved,fun _=>hpast.kind⟩
 rw[←hbits]at hs'
 rw[decodeUint,bind_of_ok (wrap_eq_ok.2 hs'),pure_apply,BitVec.ofNat_toNat,BitVec.setWidth_eq]

lemma bool_reads(b:Bool)(clean:Prop):
 Reads (wrap .bool RlpStream.bool) (.string (shortest b.toNat)) b clean:=by
 intro s tail hs hr hf
 rw[encode]at hr hf ⊢
 obtain⟨s',hs',hpast⟩:=bool_of_encoded hs hr hf
 exact⟨s',wrap_eq_ok.2 hs',hpast.toMoved,fun _=>hpast.kind⟩

lemma bytes_reads(hb:b.length<2^64)(clean:Prop):Reads (wrap typ bytes) (.string b) b clean:=by
 intro s tail hs hr hf
 rw[encode]at hr hf ⊢
 obtain⟨s',hs',hpast⟩:=bytes_of_encoded hs hb hr hf
 exact⟨s',wrap_eq_ok.2 hs',hpast.toMoved,fun _=>hpast.kind⟩

lemma decodeBigInt_reads(hi:0 ≤ i)(hsize:(shortest i.toNat).length<2^64)
 (clean:Prop):Reads decodeBigInt (.string (shortest i.toNat)) i clean:=by
 intro s tail hs hr hf
 obtain⟨s',hs',hmoved,hclean⟩:=bytes_reads hsize clean s tail hs hr hf
 refine⟨s',?_,hmoved,hclean⟩
 rw[decodeBigInt,bind_of_ok hs',if_neg (shortest_head i.toNat),value_shortest]
 simp[Int.toNat_of_nonneg hi]

section ByteArrays

/-- A header is remembered of a zero byte that has been returned. -/
structure Stale (s:Stream):Prop extends Sync s where
 kind:s.kind=some .byte
 kinderr:s.kinderr=none
 byteval:s.byteval=0

variable {s:Stream} {n:ℕ}

lemma kind_of_stale(h:Stale s):kind s=some (.ok (.byte,s.size),s):=by
 rw[RlpStream.kind,bind_of_ok (get_apply s)]
 simp only[h.kind]
 rw[recallKind,bind_of_ok (get_apply s)]
 simp only[h.kind,h.kinderr]
 rfl

lemma uint_of_stale(h:Stale s)(maxbits:ℕ):uint maxbits s=some (.error .canonInt,s):=by
 rw[uint,bind_of_ok (kind_of_stale h)]
 dsimp only
 rw[bind_of_ok (get_apply s),if_pos h.byteval]
 rfl

lemma decodeOneByte_of_stale(h:Stale s):decodeOneByte 1 s=some (.ok (.cons 0 .nil),s):=by
 rw[decodeOneByte,bind_of_ok (observe_eq_ok.2 (uint_of_stale h 64))]
 rfl

/-- From a stale header an array of one byte is read as zero, again and again. -/
lemma decodeByteArray_of_stale(h:Stale s):decodeByteArray 1 s=some (.ok (.cons 0 .nil),s):=by
 rw[decodeByteArray,bind_of_ok (lift_eq_ok.2 (kind_of_stale h))]
 exact decodeOneByte_of_stale h

lemma stale_armed(hs:Sync s):Stale (armed hd .byte n 0 s):=
 ⟨(moved_armed hs hd .byte n 0).sync,rfl,rfl,rfl⟩

lemma uint_of_byte(hv:v≠0)(hd:Bytes)(maxbits:ℕ):
 uint maxbits (armed hd .byte 0 v s)=some (.ok v.toNat,{armed hd .byte 0 v s with kind:=none}):=by
 have hkind:kind (armed hd .byte 0 v s)=some (.ok (.byte,0),armed hd .byte 0 v s):=rfl
 rw[uint,bind_of_ok hkind]
 dsimp only
 rw[bind_of_ok (get_apply _),if_neg (show ¬(armed hd .byte 0 v s).byteval=0 from hv)]
 rfl

lemma decodeOneByte_armed(hs:Sync s)(hd:Bytes)(v:UInt8):
 ∃s',decodeOneByte 1 (armed hd .byte 0 v s)=some (.ok (.cons v .nil),s')∧
  Moved hd.length s s'∧(v≠0→s'.kind=none)∧(v=0 → Stale s'):=by
 rcases eq_or_ne v 0 with rfl|hv
 ·exact⟨_,decodeOneByte_of_stale (stale_armed hs),moved_armed hs _ _ _ _,
   fun h=>absurd rfl h,fun _=>stale_armed hs⟩
 refine⟨_,?_,(past_rearm hs hd .byte 0 v).toMoved,fun _=>rfl,fun h=>absurd h hv⟩
 rw[decodeOneByte,bind_of_ok (observe_eq_ok.2 (uint_of_byte hv hd 64))]
 dsimp only
 rw[UInt8.ofNat_toNat]
 rfl

lemma return_sized(b:List.Vector UInt8 n)(s:Stream):
 (if h:b.toList.length=n then (pure ⟨b.toList,h⟩:Decoder (List.Vector UInt8 n))
  else stuck) s=some (.ok b,s):=by
 rw[dif_pos b.toList_length]
 rfl

lemma return_sized_eq_ok
 (h:(if h:slice.length=n then (pure ⟨slice,h⟩:Decoder (List.Vector UInt8 n))
  else stuck) s=some (.ok b,s')):b.toList=slice∧s=s':=by
 split at h
 ·obtain⟨rfl,rfl⟩:=by simpa using h
  exact⟨rfl,rfl⟩
 simp[stuck]at h

lemma decodeByteArray_reads(b:List.Vector UInt8 n)(hn:n<2^64):
 Reads (decodeByteArray n) (.string b.toList) b (b.toList≠[0]):=by
 intro s tail hs hr hf
 rw[encode]at hr hf ⊢
 have hlen:b.toList.length=n:=b.toList_length
 rcases string_ahead hs (by omega:b.toList.length<2^64) hr hf with
  ⟨x,hx,henc,hkind⟩ | ⟨hd,hc,hsum,hkind,-,-,hfull⟩
 ·obtain rfl:n=1:=by rw[←hlen,hx,length_singleton]
  obtain rfl:b=.cons x .nil:=Vector.toList_injective hx
  rw[henc]
  obtain⟨s',hs',hmoved,hnone,-⟩:=decodeOneByte_armed hs.toSync [x] x
  refine⟨s',?_,hmoved,fun hne=>hnone ?_⟩
  ·rw[decodeByteArray,bind_of_ok (lift_eq_ok.2 hkind)]
   exact hs'
  rintro rfl
  exact hne rfl
 have hcanon:=canonical_single hc
 rw[hlen]at hsum hkind hfull hcanon
 have hpast:=past_content hs.toSync hd .string n 0
 rw[hsum]
 refine⟨_,?_,hpast.toMoved,fun _=>hpast.kind⟩
 rw[decodeByteArray,bind_of_ok (lift_eq_ok.2 hkind)]
 dsimp only
 rw[if_neg (lt_irrefl n),if_neg (lt_irrefl n),bind_of_ok (lift_eq_ok.2 hfull),if_neg hcanon]
 exact return_sized b _

/-- The rest of `decodeByteArray` behind the header of a string. -/
lemma eq_of_sized_string(hs:Sync s)(h:(do
  if n < m then Reading.throw (.decode "input string too long" (.byteArray n) [])
  if n>m then Reading.throw (.decode "input string too short" (.byteArray n) [])
  let slice ← lift (readFull n) if m=1∧slice.head?.any fun x=>x.toNat<128 then
   Reading.throw (wrapStreamError (.byteArray n) .canonSize)
  if h:slice.length=n then return ⟨slice,h⟩ else stuck:Decoder (List.Vector UInt8 n))
  (armed hd .string m 0 s)=some (.ok b,s')):
 n=m∧n≤(armed hd .string m 0 s).r.length∧b.toList=(armed hd .string m 0 s).r.take n∧
  ¬(m=1∧(b.toList.head?.any fun x=>x.toNat<128)=true)∧
  s'=advance n (armed hd .string m 0 s):=by
 rcases lt_trichotomy n m with hlt|rfl|hlt
 ·rw[if_pos hlt]at h
  simp[bind_apply,andThen]at h
 swap
 ·rw[if_neg (by omega),if_pos hlt]at h
  simp[bind_apply,andThen]at h
 rw[if_neg (lt_irrefl n),if_neg (lt_irrefl n)]at h
 obtain⟨slice,t,hfull,h⟩:=bind_eq_ok.1 h
 obtain⟨-,hlen,rfl,rfl⟩:=(readFull_eq_ok (moved_armed hs _ _ _ _).sync).1 (lift_eq_ok.1 hfull)
 split at h
 ·simp[bind_apply,andThen]at h
 rename_i hcanon
 obtain⟨hb,rfl⟩:=return_sized_eq_ok h
 exact⟨rfl,hlen,hb,by rwa[hb],rfl⟩

end ByteArrays

variable {α:Type}

variable {clean:α→Prop} {dec:Decoder α} {item:α→Item} {xs:List.Vector α n}

section

variable {n:ℕ} {xs:List.Vector α n} (hreads:∀x∈xs.toList,Reads dec (item x) x (clean x))
 (hclean:∀x∈xs.toList.dropLast,clean x)

include hreads hclean

/-- Every value but the last leaves the stream ready for the one behind it. -/
lemma arrayElements_of_reads(i:ℕ){s:Stream}{tail:Bytes}(hs:Sync s)
 (hkind:n≠0→s.kind=none)(hr:s.r=encodeList (xs.toList.map item)++tail)
 (hf:Fits s.stack (encodeList (xs.toList.map item)).length):
 ∃s',arrayElements dec n i s=some (.ok (some xs),s')∧
  Moved (encodeList (xs.toList.map item)).length s s':=by
 induction n generalizing i s with
 | zero=>
  obtain rfl:xs=.nil:=List.Vector.eq_nil xs
  exact⟨s,rfl,rfl,(addPos_zero _).symm,hs⟩
 | succ n ih=>
  obtain⟨x,xs,rfl⟩:=xs.exists_eq_cons
  rw[Vector.toList_cons]at hreads hclean
  rw[Vector.toList_cons,map_cons,encodeList_cons_length]at hf ⊢
  rw[Vector.toList_cons,map_cons,encodeList,append_assoc]at hr
  have hroom:=hf.mono (Nat.le_add_right _ _)
  obtain⟨t,ht,hmoved,hnone⟩:=hreads x mem_cons_self s _ ⟨hs,hkind (Nat.succ_ne_zero n)⟩ hr hroom
  have hready:n≠0→t.kind=none:=by
   intro hn
   have hne:xs.toList≠[]:=fun h=>hn (by rw[←xs.toList_length,h];rfl)
   exact hnone (hclean x (by rw[dropLast_cons_of_ne_nil hne];exact mem_cons_self))
  have hinit:∀y∈xs.toList.dropLast,clean y:=by
   intro y hy
   have hne:xs.toList≠[]:=ne_nil_of_mem (mem_of_mem_dropLast hy)
   exact hclean y (by rw[dropLast_cons_of_ne_nil hne];exact mem_cons_of_mem x hy)
  obtain⟨s',hs',hmoved'⟩:=ih (fun y hy=>hreads y (mem_cons_of_mem x hy)) hinit (i+1)
   hmoved.sync hready (by rw[hmoved.r,hr,drop_left])
   (by rw[hmoved.stack];exact (fits_addPos hroom).2 hf)
  refine⟨s',?_,hmoved.trans hmoved'⟩
  rw[arrayElements,bind_of_ok (observe_eq_ok.2 ht)]
  dsimp only
  rw[bind_of_ok hs']
  rfl

lemma decodeListArray_of_reads(hsize:(encodeList (xs.toList.map item)).length<2^64)(typ:GoType)(p:Prop):
 Reads (decodeListArray typ n dec) (.list (xs.toList.map item)) xs p:=by
 intro s tail hs hr hf
 obtain⟨t,ht,hin,hrest,hend⟩:=entered_of_encoded hs hsize hr hf
 obtain⟨t',ht',hmoved⟩:=arrayElements_of_reads hreads hclean 0 hin.toSync
  (fun _=>hin.kind) hrest (fits_of_atEnd hend)
 obtain⟨s',hs',hpast⟩:=listEnd_of_moved hin hmoved
 rw[encode_list_length]
 refine⟨s',?_,hpast.toMoved,fun _=>hpast.kind⟩
 rw[decodeListArray,bind_of_ok (wrap_eq_ok.2 ht),bind_of_ok ht']
 dsimp only
 rw[bind_of_ok (wrap_eq_ok.2 hs')]
 rfl

end

lemma ends_bind(hm:Ends m):Ends (m>>=k):=by
 intro s hs hend
 obtain⟨s',hs',hpast⟩:=hm s hs hend
 exact⟨s',bind_of_error hs',hpast⟩

lemma ends_wrap:Ends (wrap typ (kind>>=k)):=
 fun _ hs hend=>⟨_,mapError_eq_error.2
  ⟨.eol,rfl,bind_of_error (kind_atEnd hs.kind hend)⟩,past_zero hs⟩

lemma ends_lift_kind:Ends (lift kind):=fun _ hs hend=>
 ⟨_,mapError_eq_error.2 ⟨.eol,rfl,kind_atEnd hs.kind hend⟩,past_zero hs⟩

lemma ends_bool:Ends (wrap .bool RlpStream.bool):=fun _ hs hend=>
 ⟨_,mapError_eq_error.2
  ⟨.eol,rfl,bind_of_error (bind_of_error (kind_atEnd hs.kind hend))⟩,past_zero hs⟩

lemma ends_decoder(hfuel:0<fuel)(t:GoType):Ends (decoder fuel t):=by
 cases t with
 | bool=>exact ends_bool
 | string=>exact ends_wrap
 | bytes=>exact ends_wrap
 | byteArray n=>exact ends_bind ends_lift_kind
 | interface=>
  obtain⟨k,rfl⟩:∃k,fuel=k+1:=⟨fuel-1,by omega⟩
  rw[decoder]
  exact ends_decodeInterface k
 | _=>exact ends_bind ends_wrap

mutual

lemma decoder_reads(fuel:ℕ):(t:GoType)→(x:t.Value)→NonNegative t x → Clean t x →
 (encode (toItem t x)).length<fuel→(encode (toItem t x)).length<2^64 →
 Reads (decoder fuel t) (toItem t x) x (¬Lingers t x)
 | .uint _,(x:BitVec _),_,_,_,_=>decodeUint_reads x _
 | .bool,(b:Bool),_,_,_,_=>bool_reads b _
 | .bigInt,(i:ℤ),hi,_,_,hsize=>
  decodeBigInt_reads hi ((length_le_encodeString _).trans_lt hsize) _
 | .string,(b:Bytes),_,_,_,hsize=>
  bytes_reads ((length_le_encodeString b).trans_lt hsize) _
 | .bytes,(b:Bytes),_,_,_,hsize=>
  bytes_reads ((length_le_encodeString b).trans_lt hsize) _
 | .byteArray n,(b:List.Vector UInt8 n),_,_,_,hsize=>
  decodeByteArray_reads b (by
   have:=(length_le_encodeString b.toList).trans_lt hsize
   rwa[b.toList_length]at this)
 | .slice t,(xs:List t.Value),hn,hc,hfuel,hsize=>by
  have hlt:=encodeList_lt_encode (xs.map (toItem t))
  rw[toItem]at hfuel hsize ⊢
  have hcount:=length_le_encodeList (xs.map (toItem t))
  rw[length_map]at hcount
  refine decodeListSlice_of_reads (ends_decoder (by omega) t) (fun x hx=>?_) (by omega)
   (by omega) _ _
  have hle:=encode_le_encodeList (mem_map_of_mem (f:=toItem t) hx)
  exact reads_of_imp (decoder_reads fuel t x (hn x hx) (hc x hx).1 (by omega) (by omega))
   fun _=>(hc x hx).2
 | .array n t,(xs:List.Vector t.Value n),hn,hc,hfuel,hsize=>by
  have hlt:=encodeList_lt_encode (xs.toList.map (toItem t))
  rw[toItem]at hfuel hsize ⊢
  refine decodeListArray_of_reads (fun x hx=>?_) hc.2 (by omega) _ _
  have hle:=encode_le_encodeList (mem_map_of_mem (f:=toItem t) hx)
  exact decoder_reads fuel t x (hn x hx) (hc.1 x hx) (by omega) (by omega)
 | .struct fs,(xs:fs.Values),hn,hc,hfuel,hsize=>by
  have hlt:=encodeList_lt_encode (fieldItems fs xs)
  rw[toItem]at hfuel hsize ⊢
  intro s tail hs hr hf
  obtain⟨t,ht,hin,hrest,hend⟩:=entered_of_encoded hs (by omega) hr hf
  obtain⟨t',ht',hmoved⟩:=fieldsDecoder_reads fuel (.struct fs) fs xs hn hc (by omega)
   (by omega) t tail hin.toSync (fun _=>hin.kind) hrest (fits_of_atEnd hend)
  obtain⟨s',hs',hpast⟩:=listEnd_of_moved hin hmoved
  rw[encode_list_length]
  refine⟨s',?_,hpast.toMoved,fun _=>hpast.kind⟩
  rw[decoder,bind_of_ok (wrap_eq_ok.2 ht),bind_of_ok ht',bind_of_ok (wrap_eq_ok.2 hs')]
  rfl
 | .interface,(x:Item),_,_,hfuel,hsize=>decodeInterface_reads hfuel hsize _

lemma fieldsDecoder_reads(fuel:ℕ)(typ:GoType):(fs:Fields)→(xs:fs.Values) →
 NonNegatives fs xs → CleanFields fs xs→(encodeList (fieldItems fs xs)).length<fuel →
 (encodeList (fieldItems fs xs)).length<2^64→∀(s:Stream) (tail:Bytes),Sync s →
 (fs≠.nil→s.kind=none)→s.r=encodeList (fieldItems fs xs)++tail →
 Fits s.stack (encodeList (fieldItems fs xs)).length →
 ∃s',fieldsDecoder fuel typ fs s=some (.ok xs,s')∧Moved (encodeList (fieldItems fs xs)).length s s'
 | .nil,_,_,_,_,_,s,_,hs,_,_,_=>⟨s,rfl,rfl,(addPos_zero _).symm,hs⟩
 | .cons name t fs,(x,xs),hn,hc,hfuel,hsize,s,tail,hs,hkind,hr,hf=>by
  rw[fieldItems,encodeList_cons_length]at hfuel hsize hf ⊢
  rw[fieldItems,encodeList,append_assoc]at hr
  dsimp only at hfuel hsize hr hf ⊢
  have hroom:=hf.mono (Nat.le_add_right _ _)
  obtain⟨u,hu,hmoved,hnone⟩:=decoder_reads fuel t x hn.1 hc.1 (by omega) (by omega) s _
   ⟨hs,hkind (by simp)⟩ hr hroom
  obtain⟨s',hs',hmoved'⟩:=fieldsDecoder_reads fuel typ fs xs hn.2 hc.2.2 (by omega)
   (by omega) u tail hmoved.sync (fun hne=>hnone (hc.2.1 hne))
   (by rw[hmoved.r,hr,drop_left])
   (by rw[hmoved.stack];exact (fits_addPos hroom).2 hf)
  refine⟨s',?_,hmoved.trans hmoved'⟩
  rw[fieldsDecoder,bind_of_ok (observe_eq_ok.2 hu)]
  dsimp only
  rw[bind_of_ok hs']
  rfl

end

end GoCoupe.RlpTypedReading
