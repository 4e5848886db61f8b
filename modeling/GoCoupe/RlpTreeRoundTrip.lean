import GoCoupe.RlpTypedEncoding

/-!
# Trees of byte strings and lists

`DecodeBytes` into an interface undoes `EncodeToBytes`, and accepts nothing but what
`EncodeToBytes` writes.
-/

namespace GoCoupe.RlpTreeRoundTrip

open BigEndianBytes RlpEncoding RlpStream Reading RlpStreamReading RlpValueReading RlpTypedValues
open List
open RlpTypedEncoding
open RlpRawSplitting hiding readKind

variable {α:Type}

/-- On the encoding of `item` the decoder returns `x` and stops behind it; the next header is
known not to have been read when `clean` holds. -/
def Reads (dec:Decoder α) (item:Item) (x:α) (clean:Prop):Prop:=
 ∀s tail,Ready s→s.r=encode item++tail→Fits s.stack (encode item).length →
  ∃s',dec s=some (.ok x,s') ∧ Moved (encode item).length s s' ∧ (clean→s'.kind=none)

/-- At the end of a list the decoder says so. -/
def Ends (dec:Decoder α):Prop:=
 ∀s,Ready s → AtEnd s.stack→∃s',dec s=some (.error (.stream .eol),s') ∧ Past 0 s s'

variable {m:Step α} {s s':Stream} {typ:GoType} {dec:Decoder α} {fuel:ℕ} {item:α→Item}
 {xs:List α} {items:List Item} {k:α→Decoder β} {stands:α→Item→Prop}

lemma wrap_eq_ok:wrap typ m s=some (.ok a,s')↔m s=some (.ok a,s'):=mapError_eq_ok

lemma lift_eq_ok:lift m s=some (.ok a,s')↔m s=some (.ok a,s'):=mapError_eq_ok

lemma fits_of_atEnd(h:AtEnd (addPos n st)):Fits st n:=by
 obtain⟨tos,htos,heq⟩:=h
 cases st with
 | nil=>exact fits_nil n
 | cons top st=>
  obtain rfl:{top with pos:=top.pos+n} = tos:=by simpa[addPos]using htos
  rw[fits_cons]
  dsimp only at heq
  omega

lemma encodeList_cons_length(x:Item)(xs:List Item):
 (encodeList (x::xs)).length=(encode x).length+(encodeList xs).length:=by
 rw[encodeList,length_append]

lemma length_le_encodeList(xs:List Item):xs.length≤(encodeList xs).length:=by
 induction xs with
 | nil=>exact Nat.zero_le _
 | cons x xs ih=>
  have:=length_pos_iff.2 (encode_ne_nil x)
  rw[encodeList_cons_length,length_cons]
  omega

lemma encode_le_encodeList{xs:List Item}(h:x∈xs):(encode x).length≤(encodeList xs).length:=by
 induction xs with
 | nil=>simp at h
 | cons y xs ih=>
  rw[encodeList_cons_length]
  rcases mem_cons.1 h with rfl|h
  ·omega
  exact (ih h).trans (Nat.le_add_left _ _)

lemma encodeList_lt_encode(xs:List Item):(encodeList xs).length<(encode (.list xs)).length:=by
 rw[encode,length_append,puthead_length,headsize]
 split<;>omega

lemma sliceElements_of_reads(hends:Ends dec)(hreads:∀x∈xs,Reads dec (item x) x True)
 (hfuel:xs.length<fuel)(i:ℕ){tail:Bytes}(hs:Ready s)
 (hr:s.r=encodeList (xs.map item)++tail)
 (hend:AtEnd (addPos (encodeList (xs.map item)).length s.stack)):
 ∃s',sliceElements dec fuel i s=some (.ok xs,s')∧Past (encodeList (xs.map item)).length s s':=by
 induction xs generalizing fuel i s with
 | nil=>
  obtain⟨fuel,rfl⟩:∃k,fuel=k+1:=⟨fuel-1,by simp at hfuel;omega⟩
  obtain⟨s',hs',hpast⟩:=hends s hs (by simpa[encodeList]using hend)
  refine⟨s',?_,hpast⟩
  rw[sliceElements,bind_of_ok (observe_eq_ok.2 hs')]
  rfl
 | cons x xs ih=>
  obtain⟨fuel,rfl⟩:∃k,fuel=k+1:=⟨fuel-1,by simp at hfuel;omega⟩
  have hlen:=encodeList_cons_length (item x) (xs.map item)
  rw[map_cons,hlen]at hend
  rw[map_cons,encodeList,append_assoc]at hr
  have hfits:=fits_of_atEnd hend
  obtain⟨t,ht,hmoved,hclean⟩:=hreads x mem_cons_self s _ hs hr (hfits.mono (by omega))
  have hrest:t.r=encodeList (xs.map item)++tail:=by
   rw[hmoved.r,hr,drop_left]
  obtain⟨s',hs',hpast⟩:=ih (fun y hy=>hreads y (mem_cons_of_mem x hy))
   (show xs.length<fuel by simpa using hfuel) (i+1) ⟨hmoved.sync,hclean trivial⟩ hrest
   (by rwa[hmoved.stack,addPos_addPos])
  refine⟨s',?_,?_⟩
  ·rw[sliceElements,bind_of_ok (observe_eq_ok.2 ht)]
   dsimp only
   rw[bind_of_ok hs']
   rfl
  rw[map_cons,hlen]
  exact⟨hmoved.trans hpast.toMoved,hpast.kind⟩

/-- Where a list has been entered its bytes come next, up to its end. -/
lemma entered_of_encoded(hs:Ready s){tail:Bytes}(hsize:(encodeList items).length<2^64)
 (hr:s.r=encode (.list items)++tail)(hf:Fits s.stack (encode (.list items)).length):
 ∃t,list s=some (.ok (encodeList items).length,t)∧
  Entered (puthead 0xC0 0xF7 (encodeList items).length).length (encodeList items).length s t∧
  t.r=encodeList items++tail∧AtEnd (addPos (encodeList items).length t.stack):=by
 rw[encode,length_append]at hf
 rw[encode,append_assoc]at hr
 obtain⟨t,ht,hin⟩:=list_of_header hs hsize hr (by rw[length_append];omega) hf
 refine⟨t,ht,hin,?_,?_⟩
 ·rw[hin.r,hr,drop_left]
 rw[hin.stack,addPos,Nat.zero_add]
 exact⟨_,rfl,rfl⟩

lemma encode_list_length(items:List Item):(encode (.list items)).length =
 (puthead 0xC0 0xF7 (encodeList items).length).length+(encodeList items).length:=by
 rw[encode,length_append]

lemma decodeListSlice_of_reads(hends:Ends dec)(hreads:∀x∈xs,Reads dec (item x) x True)
 (hfuel:xs.length<fuel)(hsize:(encodeList (xs.map item)).length<2^64)(typ:GoType)
 (clean:Prop):Reads (decodeListSlice fuel typ dec) (.list (xs.map item)) xs clean:=by
 intro s tail hs hr hf
 obtain⟨t,ht,hin,hrest,hend⟩:=entered_of_encoded hs hsize hr hf
 rw[encode_list_length,decodeListSlice,bind_of_ok (wrap_eq_ok.2 ht)]
 split
 ·rename_i hzero
  have hnil:xs=[]:=by
   have:=length_le_encodeList (xs.map item)
   rw[length_map]at this
   exact length_eq_zero_iff.1 (by omega)
  have hstay:Moved (encodeList (xs.map item)).length t t:=by
   rw[hzero]
   exact⟨by simp,by simp,hin.toSync⟩
  obtain⟨s',hs',hpast⟩:=listEnd_of_moved hin hstay
  refine⟨s',?_,hpast.toMoved,fun _=>hpast.kind⟩
  rw[bind_of_ok (lift_eq_ok.2 hs'),hnil]
  rfl
 obtain⟨t',ht',hpast'⟩:=sliceElements_of_reads hends hreads hfuel 0 hin.toReady hrest hend
 obtain⟨s',hs',hpast⟩:=listEnd_of_moved hin hpast'.toMoved
 refine⟨s',?_,hpast.toMoved,fun _=>hpast.kind⟩
 rw[bind_of_ok ht',bind_of_ok (lift_eq_ok.2 hs')]
 rfl

/-- What the decoder accepts is the encoding of a tree that stands for what it returns. -/
def AcceptsAs (dec:Decoder α) (stands:α→Item→Prop):Prop:=
 ∀s s' x,Ready s→dec s=some (.ok x,s')→∃item tail,stands x item ∧
  s.r=encode item++tail ∧ Past (encode item).length s s'

/-- What the decoder accepts is the encoding of what it returns. -/
def Accepts (dec:Decoder α) (item:α→Item):Prop:=
 ∀s s' x,Ready s→dec s=some (.ok x,s')→∃tail,s.r=encode (item x)++tail ∧
  Past (encode (item x)).length s s'

lemma acceptsAs_of_accepts(h:Accepts dec item):AcceptsAs dec (fun x i=>i=item x):=by
 intro s s' x hs hdec
 obtain⟨tail,hr,hpast⟩:=h s s' x hs hdec
 exact⟨item x,tail,rfl,hr,hpast⟩

/-- The decoder reports the end of a list only where reading the header does. -/
def EndsOnly (dec:Decoder α):Prop:=
 ∀s s',dec s=some (.error (.stream .eol),s')→kind s=some (.error .eol,s')

/-- A computation that never reports the end of a list. -/
def NeverEnds (dec:Decoder α):Prop:=∀s s',dec s≠some (.error (.stream .eol),s')

lemma endsOnly_bind{m:Decoder α}{k:α→Decoder β}(hm:EndsOnly m)
 (hk:∀a,NeverEnds (k a)):EndsOnly (m>>=k):=by
 intro s s' h
 rcases bind_eq_error.1 h with h|⟨a,t,-,h⟩
 ·exact hm s s' h
 exact absurd h (hk a t s')

lemma wrapStreamError_eq_eol(h:wrapStreamError typ e=.stream .eol):e=.eol:=by
 cases e<;>simp_all[wrapStreamError]

lemma addErrorContext_ne_eol(h:e≠.stream .eol):addErrorContext ctx e≠.stream .eol:=by
 cases e<;>simp_all[addErrorContext]

lemma eol_of_lift(h:lift m s=some (.error (.stream .eol),s')):m s=some (.error .eol,s'):=by
 obtain⟨e,he,h⟩:=mapError_eq_error.1 h
 obtain rfl:e=.eol:=by simpa using he
 exact h

lemma eol_of_wrap(h:wrap typ m s=some (.error (.stream .eol),s')):m s=some (.error .eol,s'):=by
 obtain⟨e,he,h⟩:=mapError_eq_error.1 h
 obtain rfl:=wrapStreamError_eq_eol he
 exact h

lemma neverEnds_lift(hm:NoEol m):NeverEnds (lift m):=fun s s' h=>hm s s' (eol_of_lift h)

lemma neverEnds_wrap(hm:NoEol m):NeverEnds (wrap typ m):=fun s s' h=>hm s s' (eol_of_wrap h)

/-- A step that begins with reading the header. -/
lemma eol_of_kind{k:Kind × ℕ→Step α}(hk:∀x,NoEol (k x))
 (h:(kind>>=k) s=some (.error .eol,s')):kind s=some (.error .eol,s'):=by
 rcases bind_eq_error.1 h with h|⟨a,t,-,h⟩
 ·exact h
 exact absurd h (hk a t s')

lemma eol_of_list(h:list s=some (.error .eol,s')):kind s=some (.error .eol,s'):=by
 exact eol_of_kind (fun x=>avoids_guard (by simp)
  (avoids_bind (avoids_modify _) fun _=>avoids_pure _)) h

lemma eol_of_bytes(h:bytes s=some (.error .eol,s')):kind s=some (.error .eol,s'):=by
 refine eol_of_kind (fun x=>?_) h
 obtain⟨k,n⟩:=x
 cases k with
 | byte=>exact avoids_bind (avoids_modify _) fun _=>avoids_bind avoids_get fun _=>avoids_pure _
 | string=>
  exact avoids_bind (noEol_readFull n) fun _=>avoids_guard (by simp) (avoids_pure _)
 | list=>exact avoids_throw (by simp)

lemma endsOnly_lift(hm:∀s s',m s=some (.error .eol,s')→kind s=some (.error .eol,s')):
 EndsOnly (lift m):=fun s s' h=>hm s s' (eol_of_lift h)

lemma endsOnly_wrap(hm:∀s s',m s=some (.error .eol,s')→kind s=some (.error .eol,s')):
 EndsOnly (wrap typ m):=fun s s' h=>hm s s' (eol_of_wrap h)

lemma noEol_listEnd:NoEol listEnd:=by
 refine avoids_bind avoids_get fun s=>?_
 cases s.stack with
 | nil=>exact avoids_throw (by simp)
 | cons tos rest=>exact avoids_guard (by simp) (avoids_modify _)

lemma neverEnds_sliceElements(dec:Decoder α)(fuel i:ℕ):NeverEnds (sliceElements dec fuel i):=by
 induction fuel generalizing i with
 | zero=>exact fun s s' h=>by simp[sliceElements,stuck]at h
 | succ fuel ih=>
  refine avoids_bind (avoids_observe dec) fun res=>?_
  rcases res with ((_ | _) | _ | _)|x
  case ok=>exact avoids_bind (ih _) fun _=>avoids_pure _
  case error.stream.eol=>exact avoids_pure _
  all_goals exact avoids_throw (addErrorContext_ne_eol (by simp))

lemma endsOnly_decodeListSlice(dec:Decoder α)(fuel:ℕ)(typ:GoType):
 EndsOnly (decodeListSlice fuel typ dec):=by
 refine endsOnly_bind (endsOnly_wrap fun _ _=>eol_of_list) fun size=>?_
 split
 ·exact avoids_bind (neverEnds_lift noEol_listEnd) fun _=>avoids_pure _
 exact avoids_bind (neverEnds_sliceElements dec fuel 0) fun _=>
  avoids_bind (neverEnds_lift noEol_listEnd) fun _=>avoids_pure _

lemma past_zero(hs:Ready s):Past 0 s {s with kinderr:=none}:=
 ⟨⟨rfl,(addPos_zero _).symm,hs.limited,hs.remaining⟩,hs.kind⟩

lemma EndsOnly.past(h:EndsOnly dec)(hs:Ready s)
 (hdec:dec s=some (.error (.stream .eol),s')):AtEnd s.stack∧Past 0 s s':=by
 obtain⟨hend,rfl⟩:=kind_eq_eol hs.kind (h s s' hdec)
 exact⟨hend,past_zero hs⟩

/-- The loop ends where the decoder of the elements reports the end of the list. -/
lemma sliceElements_eq_ok(h:sliceElements dec (fuel+1) i s=some (.ok xs,s')):
 (∃x ys t,xs=x::ys∧dec s=some (.ok x,t)∧sliceElements dec fuel (i+1) t=some (.ok ys,s'))∨
 (xs=[]∧dec s=some (.error (.stream .eol),s')):=by
 rw[sliceElements,bind_eq_ok]at h
 obtain⟨res,t,hres,h⟩:=h
 rw[observe_eq_ok]at hres
 rcases res with ((_ | _) | _ | _)|x
 case ok =>
  obtain⟨ys,t',hys,h⟩:=bind_eq_ok.1 h
  obtain⟨rfl,rfl⟩:x::ys=xs∧t'=s':=by simpa using h
  exact .inl ⟨x,ys,t,rfl,hres,hys⟩
 case error.stream.eol =>
  obtain⟨rfl,rfl⟩:[]=xs∧t=s':=by simpa using h
  exact .inr ⟨rfl,hres⟩
 all_goals simp at h

lemma sliceElements_accepts(hacc:AcceptsAs dec stands)(heol:EndsOnly dec)
 (hs:Ready s)(h:sliceElements dec fuel i s=some (.ok xs,s')):
 ∃items tail,Forall₂ stands xs items∧s.r=encodeList items++tail∧
  Past (encodeList items).length s s':=by
 induction fuel generalizing i s xs with
 | zero=>simp[sliceElements,stuck]at h
 | succ fuel ih=>
  rcases sliceElements_eq_ok h with⟨x,ys,t,rfl,hx,hys⟩|⟨rfl,hend⟩
  ·obtain⟨item,tail,hitem,hr,hpast⟩:=hacc s t x hs hx
   obtain⟨items,tail',hitems,hr',hpast'⟩:=ih hpast.ready hys
   refine⟨item::items,tail',.cons hitem hitems,?_,?_⟩
   ·rw[hpast.r,hr,drop_left]at hr'
    rw[encodeList,hr,hr',append_assoc]
   rw[encodeList_cons_length]
   exact⟨hpast.toMoved.trans hpast'.toMoved,hpast'.kind⟩
  exact⟨[],s.r,.nil,rfl,(heol.past hs hend).2⟩

/-- The loop is left out when the list is empty. -/
lemma decodeListSlice_eq_ok(h:decodeListSlice fuel typ dec s=some (.ok xs,s')):
 ∃n t t',list s=some (.ok n,t)∧listEnd t'=some (.ok (),s')∧
  (xs=[]∧t'=t∨sliceElements dec fuel 0 t=some (.ok xs,t')):=by
 rw[decodeListSlice,bind_eq_ok]at h
 obtain⟨n,t,hlist,h⟩:=h
 split at h
 ·obtain⟨u,t',hend,h⟩:=bind_eq_ok.1 h
  obtain⟨rfl,rfl⟩:[]=xs∧t'=s':=by simpa using h
  exact⟨n,t,t,wrap_eq_ok.1 hlist,lift_eq_ok.1 hend,.inl ⟨rfl,rfl⟩⟩
 obtain⟨ys,t',hys,h⟩:=bind_eq_ok.1 h
 obtain⟨u,t'',hend,h⟩:=bind_eq_ok.1 h
 obtain⟨rfl,rfl⟩:ys=xs∧t''=s':=by simpa using h
 exact⟨n,t,t',wrap_eq_ok.1 hlist,lift_eq_ok.1 hend,.inr hys⟩

lemma decodeListSlice_acceptsAs(hacc:AcceptsAs dec stands)(heol:EndsOnly dec)(fuel:ℕ)(typ:GoType):
 AcceptsAs (decodeListSlice fuel typ dec)
  (fun xs item=>∃items,item=.list items∧Forall₂ stands xs items):=by
 intro s s' xs hs h
 obtain⟨n,t,t',hlist,hend,hloop⟩:=decodeListSlice_eq_ok h
 obtain⟨tail,-,hr,-,hin⟩:=header_of_list hs hlist
 have key:∃items rest,Forall₂ stands xs items∧t.r=encodeList items++rest∧
  Moved (encodeList items).length t t':=by
  rcases hloop with⟨rfl,rfl⟩|hloop
  ·exact⟨[],t'.r,.nil,rfl,rfl,by simp[encodeList],hin.toSync⟩
  obtain⟨items,rest,hitems,hrest,hpast⟩:=sliceElements_accepts hacc heol hin.toReady hloop
  exact⟨items,rest,hitems,hrest,hpast.toMoved⟩
 obtain⟨items,rest,hitems,hbytes,hmoved⟩:=key
 obtain⟨rfl,hpast⟩:=moved_of_listEnd hin hmoved hend
 refine⟨.list items,rest,⟨items,rfl,hitems⟩,?_,?_⟩
 ·rw[hin.r,hr,drop_left]at hbytes
  rw[hr,hbytes,encode,append_assoc]
 rw[encode_list_length]
 exact hpast

lemma eq_map_of_forall₂(h:Forall₂ (fun x i=>i=item x) xs items):items=xs.map item:=by
 induction h with
 | nil=>rfl
 | cons hx _ ih=>rw[hx,ih,map_cons]

lemma decodeListSlice_accepts(hacc:Accepts dec item)(heol:EndsOnly dec)(fuel:ℕ)
 (typ:GoType):Accepts (decodeListSlice fuel typ dec) fun xs=>.list (xs.map item):=by
 intro s s' xs hs h
 obtain⟨_,tail,⟨items,rfl,hitems⟩,hr,hpast⟩:=
  decodeListSlice_acceptsAs (acceptsAs_of_accepts hacc) heol fuel typ s s' xs hs h
 obtain rfl:=eq_map_of_forall₂ hitems
 exact⟨tail,hr,hpast⟩

lemma kind_of_encoded{s:Stream}(hs:Ready s){x:Item}{tail:Bytes}
 (hsize:(encode x).length<2^64)(hr:s.r=encode x++tail)
 (hf:Fits s.stack (encode x).length):
 ∃k n t,kind s=some (.ok (k,n),t)∧(k=.list↔∃items,x=.list items):=by
 cases x with
 | string b=>
  rw[encode]at hr hf hsize
  rcases string_ahead hs ((length_le_encodeString b).trans_lt hsize) hr hf with
   ⟨c,-,-,hkind⟩ | ⟨hd,-,-,hkind,-⟩
  ·exact⟨_,_,_,hkind,by simp⟩
  exact⟨_,_,_,hkind,by simp⟩
 | list items=>
  rw[encode,append_assoc]at hr
  rw[encode,length_append]at hf hsize
  exact⟨_,_,_,(read_content hs (.list _ (by omega)) hr hf).1,by simp⟩

/-- A decoder of a list begins with entering it, whether or not its header has been read. -/
lemma decodeListSlice_again(h:kind s=some (.ok x,t)):
 decodeListSlice fuel typ dec t=decodeListSlice fuel typ dec s:=by
 have hlist:wrap typ list t=wrap typ list s:=by
  rw[wrap,mapError,list_again h]
  rfl
 rw[decodeListSlice,bind_apply,bind_apply,hlist]

lemma ends_decodeInterface(fuel:ℕ):Ends (decodeInterface (fuel+1)):=by
 intro s hs hend
 refine⟨_,?_,past_zero hs⟩
 rw[decodeInterface]
 exact bind_of_error (mapError_eq_error.2 ⟨.eol,rfl,kind_atEnd hs.kind hend⟩)

lemma decodeInterface_reads{fuel:ℕ}{x:Item}(hfuel:(encode x).length<fuel)
 (hsize:(encode x).length<2^64)(clean:Prop):Reads (decodeInterface fuel) x x clean:=by
 induction fuel generalizing x clean with
 | zero=>omega
 | succ fuel ih=>
  intro s tail hs hr hf
  obtain⟨k,n,t,hkind,hlist⟩:=kind_of_encoded hs hsize hr hf
  rw[decodeInterface,bind_of_ok (lift_eq_ok.2 hkind)]
  cases x with
  | string b=>
   rw[encode]at hr hf hsize ⊢
   obtain⟨s',hs',hpast⟩:=bytes_of_encoded hs ((length_le_encodeString b).trans_lt hsize) hr hf
   refine⟨s',?_,hpast.toMoved,fun _=>hpast.kind⟩
   dsimp only
   rw[if_neg (by simp[hlist])]
   rw[←bytes_again hkind]at hs'
   exact bind_of_ok (lift_eq_ok.2 hs')
  | list items=>
   have hitems:=encodeList_lt_encode items
   have hcount:=length_le_encodeList items
   obtain⟨fuel,rfl⟩:∃m,fuel=m+1:=⟨fuel-1,by omega⟩
   have hreads:∀y∈items,Reads (decodeInterface (fuel+1)) (id y) y True:=by
    intro y hy
    have:=encode_le_encodeList hy
    rw[id]
    exact ih (by omega) (by omega) True
   obtain⟨s',hs',hmoved,hclean⟩:=decodeListSlice_of_reads (ends_decodeInterface fuel)
    hreads (show items.length<fuel+1 by omega) (by rw[map_id];omega) (.slice .interface)
    True s tail hs (by rwa[map_id]) (by rwa[map_id])
   rw[map_id]at hmoved
   refine⟨s',?_,hmoved,fun _=>hclean trivial⟩
   dsimp only
   rw[if_pos (hlist.2 ⟨items,rfl⟩)]
   rw[←decodeListSlice_again hkind]at hs'
   exact bind_of_ok hs'

lemma endsOnly_decodeInterface(fuel:ℕ):EndsOnly (decodeInterface fuel):=by
 intro s s' h
 cases fuel with
 | zero=>simp[decodeInterface,stuck]at h
 | succ fuel=>
  rw[decodeInterface]at h
  rcases bind_eq_error.1 h with h|⟨⟨k,n⟩,t,hkind,h⟩
  ·exact eol_of_lift h
  have hagain:=kind_again (lift_eq_ok.1 hkind)
  dsimp only at h
  split at h
  ·have:=endsOnly_bind (endsOnly_decodeListSlice _ _ _) (fun _=>avoids_pure _) t s' h
   simp[hagain]at this
  have:=endsOnly_bind (endsOnly_lift fun _ _=>eol_of_bytes) (fun _=>avoids_pure _) t s' h
  simp[hagain]at this

lemma decodeInterface_eq_ok(h:decodeInterface (fuel+1) s=some (.ok x,s')):
 (∃xs,x=.list xs∧decodeListSlice fuel (.slice .interface) (decodeInterface fuel) s=some (.ok xs,s'))∨
 ∃b,x=.string b∧bytes s=some (.ok b,s'):=by
 rw[decodeInterface,bind_eq_ok]at h
 obtain⟨⟨k,n⟩,t,hkind,h⟩:=h
 rw[lift_eq_ok]at hkind
 dsimp only at h
 split at h
 ·obtain⟨xs,t',hxs,h⟩:=bind_eq_ok.1 h
  obtain⟨rfl,rfl⟩:Item.list xs=x∧t'=s':=by simpa using h
  exact .inl ⟨xs,rfl,(decodeListSlice_again hkind).symm.trans hxs⟩
 obtain⟨b,t',hb,h⟩:=bind_eq_ok.1 h
 obtain⟨rfl,rfl⟩:Item.string b=x∧t'=s':=by simpa using h
 exact .inr ⟨b,rfl,(bytes_again hkind).symm.trans (lift_eq_ok.1 hb)⟩

lemma decodeInterface_accepts(fuel:ℕ):Accepts (decodeInterface fuel) id:=by
 induction fuel with
 | zero=>exact fun s s' x _ h=>by simp[decodeInterface,stuck]at h
 | succ fuel ih=>
  intro s s' x hs h
  rcases decodeInterface_eq_ok h with⟨xs,rfl,hxs⟩|⟨b,rfl,hb⟩
  ·simpa using decodeListSlice_accepts ih (endsOnly_decodeInterface fuel) _ _ s s' xs hs hxs
  obtain⟨tail,hr,-,hpast⟩:=encoded_of_bytes hs hb
  exact⟨tail,by rw[id,encode];exact hr,by rw[id,encode];exact hpast⟩

mutual

/-- The byte strings that stand for a tree when a size may be written in any way: a single
byte behind a header, a small size in bytes of its own, a size with leading zeros. -/
inductive Spelling:Item→Bytes→Prop
 | byte (x:UInt8) (hx:x.toNat<128):Spelling (.string [x]) [x]
 | shortString (b:Bytes) (hb:b.length<56):Spelling (.string b) ((0x80+UInt8.ofNat b.length)::b)
 | longString (b size:Bytes) (hsize:1 ≤ size.length ∧ size.length≤8)
  (hb:value size=b.length) :
  Spelling (.string b) ((0xB7+UInt8.ofNat size.length)::(size++b))
 | shortList (xs:List Item) (c:Bytes) (h:Spellings xs c) (hc:c.length<56) :
  Spelling (.list xs) ((0xC0+UInt8.ofNat c.length)::c)
 | longList (xs:List Item) (c size:Bytes) (h:Spellings xs c)
  (hsize:1 ≤ size.length ∧ size.length≤8) (hc:value size=c.length) :
  Spelling (.list xs) ((0xF7+UInt8.ofNat size.length)::(size++c))

inductive Spellings:List Item→Bytes→Prop
 | nil:Spellings [] []
 | cons {x:Item} {xs:List Item} {b c:Bytes} (hx:Spelling x b) (hxs:Spellings xs c) :
  Spellings (x::xs) (b++c)

end

lemma headsize_le_long(hsize:1 ≤ size.length∧size.length≤8)
 (hn:n≤value size):headsize n≤1+size.length:=by
 rw[headsize]
 split
 ·omega
 have hlt:=hn.trans_lt (value_lt size)
 have h8:=(intsize_bounds n).2
 rcases Nat.lt_or_ge size.length 8 with h7|h7
 ·have:=(intsize_le_iff n hsize.1 (by omega)).2 hlt
  omega
 omega

lemma headsize_small(h:n<56):headsize n=1:=if_pos h

lemma encodeString_length_le(b:Bytes):(encodeString b).length≤headsize b.length+b.length:=by
 rcases encodeString_cases b with⟨x,rfl,-,henc,-⟩|⟨-,henc,-⟩
 ·rw[henc]
  exact Nat.le_add_left _ _
 rw[henc,length_append,puthead_length]

mutual

/-- No spelling of a tree is shorter than its encoding. -/
lemma encode_le_spelling(h:Spelling x c):(encode x).length≤c.length:=by
 cases h with
 | byte x hx=>
  rcases encodeString_cases [x] with⟨y,-,-,henc,-⟩|⟨hc,-,-⟩
  ·rw[encode,henc]
   simp
  have:=hc x rfl
  omega
 | shortString b hb=>
  have:=encodeString_length_le b
  rw[headsize_small hb]at this
  rw[encode,length_cons]
  omega
 | longString b size hsize hb=>
  have:=encodeString_length_le b
  have:=headsize_le_long hsize hb.ge
  rw[encode,length_cons,length_append]
  omega
 | shortList xs c h hc=>
  have hle:=encodeList_le_spellings h
  rw[encode,length_append,puthead_length,headsize_small (hle.trans_lt hc),length_cons]
  omega
 | longList xs c size h hsize hc=>
  have hle:=encodeList_le_spellings h
  have:=headsize_le_long hsize (hle.trans hc.ge)
  rw[encode,length_append,puthead_length,length_cons,length_append]
  omega

lemma encodeList_le_spellings{xs:List Item}(h:Spellings xs c):(encodeList xs).length≤c.length:=by
 cases h with
 | nil=>exact le_rfl
 | cons hx hxs=>
  have:=encode_le_spelling hx
  have:=encodeList_le_spellings hxs
  rw[encodeList_cons_length,length_append]
  omega

end

/-- A decoder that reads the encoding of a value is enough for `DecodeBytes` of it. -/
lemma decodeBytes_of_reads{item:Item}
 (h:Reads (decoder fuel t) item x clean):decodeBytes fuel t (encode item)=some (.ok x):=by
 obtain⟨s',hs',hmoved,-⟩:=h (newStream (encode item)) [] (ready_newStream _)
  (append_nil _).symm (fits_nil _)
 have hempty:s'.r=[]:=by
  rw[hmoved.r]
  exact drop_length
 rw[decodeBytes,(mapError_eq_ok.2 hs':mapError (nameTarget t) (decoder fuel t) _=_)]
 simp[hempty]

lemma decoder_of_decodeBytes(h:decodeBytes fuel t b=some (.ok x)):
 ∃s',decoder fuel t (newStream b)=some (.ok x,s')∧s'.r=[]:=by
 rw[decodeBytes]at h
 rcases hdec:mapError (nameTarget t) (decoder fuel t) (newStream b) with _|⟨e|y,s'⟩
 ·simp[hdec]at h
 ·simp[hdec]at h
 rw[hdec]at h
 dsimp only at h
 split at h
 ·simp at h
 rename_i hempty
 obtain rfl:y=x:=by simpa using h
 exact⟨s',mapError_eq_ok.1 hdec,length_eq_zero_iff.1 (by omega)⟩

lemma eq_encode_of_decodeBytes(h:decodeBytes fuel .interface b=some (.ok x)):b=encode x:=by
 obtain⟨s',hdec,hempty⟩:=decoder_of_decodeBytes h
 rw[decoder]at hdec
 obtain⟨tail,hr,hpast⟩:=decodeInterface_accepts fuel (newStream b) s' x (ready_newStream b) hdec
 replace hr:b=encode x++tail:=hr
 have htail:tail=[]:=by
  rw[←hempty,hpast.r]
  change tail=b.drop (encode x).length
  rw[hr,drop_left]
 rw[hr,htail,append_nil]

/-- Decoding into an interface undoes encoding, for every tree. -/
theorem interface_round_trip (x : Item) (hsize : (encode x).length < 2 ^ 63) :
    ∃ b, encodeToBytes .interface x = .ok (some b) ∧
      ∃ n, ∀ fuel, n ≤ fuel → decodeBytes fuel .interface b = some (.ok x) := by
 refine⟨encode x,encodeToBytes_eq trivial,(encode x).length+1,fun fuel hfuel=>?_⟩
 have hreads:Reads (decoder fuel .interface) x x True:=by
  rw[decoder]
  exact decodeInterface_reads hfuel (hsize.trans (by norm_num)) True
 exact decodeBytes_of_reads hreads

theorem interface_round_trip_nested :
    ∃ b, encodeToBytes .interface (.list [.string [0], .list [], .string [0x80, 1]]) = .ok (some b) ∧
      ∃ n, ∀ fuel, n ≤ fuel → decodeBytes fuel .interface b =
        some (.ok (.list [.string [0], .list [], .string [0x80, 1]])) :=
 interface_round_trip _ (by decide)

/-- What is accepted is what is written for the value, it is the only input that gives the
value, and no spelling of the value is shorter. -/
theorem interface_canonical {fuel : ℕ} {b : Bytes} {v : Item}
    (h : decodeBytes fuel .interface b = some (.ok v)) :
    encodeToBytes .interface v = .ok (some b) ∧
      (∀ fuel' b', decodeBytes fuel' .interface b' = some (.ok v) → b' = b) ∧
      ∀ c, Spelling v c → b.length ≤ c.length := by
 obtain rfl:=eq_encode_of_decodeBytes h
 exact⟨encodeToBytes_eq trivial,fun _ _ h'=>eq_encode_of_decodeBytes h',
  fun _ hc=>encode_le_spelling hc⟩

theorem interface_canonical_nested :
    encodeToBytes .interface (.list [.string [5], .list []]) = .ok (some [0xC2, 5, 0xC0]) ∧
      (∀ fuel' b', decodeBytes fuel' .interface b' = some (.ok (.list [.string [5], .list []])) →
        b' = [0xC2, 5, 0xC0]) ∧
      ∀ c, Spelling (.list [.string [5], .list []]) c → 3 ≤ c.length :=
 interface_canonical (show decodeBytes 4 .interface _=some (.ok _) from rfl)

end GoCoupe.RlpTreeRoundTrip
