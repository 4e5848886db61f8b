import GoCoupe.RlpAcceptance

/-!
# Which typed values are read back

From a stale header a decoder does not move at all. So a list whose values have been read to
its end was read from none, and a value that is read back is clean.
-/

namespace GoCoupe.RlpTypedRoundTrip

open RlpEncoding RlpStream Reading RlpStreamReading RlpValueReading RlpTypedValues RlpTypedEncoding Nat
open List
open RlpTreeRoundTrip RlpTypedReading RlpAcceptance
open RlpRawSplitting hiding readKind

variable {s s' t:Stream} {tail:Bytes}

def Calm (s:Stream):Prop:=Ready s ∨ Stale s

lemma Calm.sync(h:Calm s):Sync s:=by
 rcases h with h|h
 ·exact h.toSync
 exact h.toSync

lemma not_ready_of_stale(h:Stale s):¬Ready s:=by
 intro hs
 have:=hs.kind
 simp[h.kind]at this

def Ahead (m:ℕ) (s:Stream):Prop:=∃hd k n v tail,s.r=hd++tail ∧ Header hd k n v ∧ m=hd.length+n

lemma header_unique(h:Header hd k n v)(h':Header hd' k' n' v')(heq:hd++tail=hd'++tail'):
 hd=hd'∧n=n':=by
 have hs:=(ready_newStream (hd++tail)).toSync
 have hread:=readKind_of_header hs rfl h (fits_nil _)
 have hread':=readKind_of_header hs heq h' (fits_nil _)
 rw[hread]at hread'
 simp only[Option.some.injEq,Prod.mk.injEq,Except.ok.injEq]at hread'
 obtain⟨⟨-,hn,-⟩,hstream⟩:=hread'
 refine⟨?_,hn⟩
 have hdrop:(hd++tail).drop hd.length=(hd++tail).drop hd'.length:=congrArg Stream.r hstream
 rw[drop_left,heq,drop_left]at hdrop
 rw[hdrop]at heq
 exact append_cancel_right heq

lemma Ahead.unique(h:Ahead m s)(h':Ahead m' s):m=m':=by
 obtain⟨hd,k,n,v,tail,hr,hhd,rfl⟩:=h
 obtain⟨hd',k',n',v',tail',hr',hhd',rfl⟩:=h'
 obtain⟨rfl,rfl⟩:=header_unique hhd hhd' (hr.symm.trans hr')
 rfl

lemma ahead_of_string(hr:s.r=encodeString b++tail)
 (hb:b.length<2^64):Ahead (encodeString b).length s:=by
 rcases header_string hb with⟨c,rfl,-,henc,hhd⟩|⟨-,henc,hhd⟩
 ·rw[henc]at hr ⊢
  exact⟨_,_,_,_,tail,hr,hhd,rfl⟩
 rw[henc,append_assoc]at hr
 rw[henc,length_append]
 exact⟨_,_,_,_,_,hr,hhd,rfl⟩

lemma ahead_of_encoded(hr:s.r=encode x++tail)
 (hsize:(encode x).length<2^64):Ahead (encode x).length s:=by
 cases x with
 | string b=>exact ahead_of_string hr ((length_le_encodeString b).trans_lt hsize)
 | list items=>
  rw[encode,append_assoc]at hr
  rw[encode,length_append]at hsize ⊢
  exact⟨_,_,_,_,_,hr,.list _ (by omega),rfl⟩

lemma encodeList_take_le(items:List Item)(h:m≤n):
 (encodeList (items.take m)).length≤(encodeList (items.take n)).length:=by
 have hsplit:items.take n=items.take m++(items.take n).drop m:=by
  conv_lhs=>rw[←take_append_drop m (items.take n),take_take,min_eq_left h]
 rw[hsplit,encodeList_append,length_append]
 exact le_add_right _ _

lemma encodeList_take_lt(items:List Item)(h:items≠[]):
 (encodeList (items.take (items.length-1))).length<(encodeList items).length:=by
 have hsplit:=dropLast_append_getLast h
 have hpos:=length_pos_iff.2 (encode_ne_nil (items.getLast h))
 rw[←dropLast_eq_take]
 conv_rhs=>rw[←hsplit]
 rw[encodeList_append,length_append,encodeList_cons_length]
 omega

/-- What a decoder may have done that has returned a value: `item` is the tree of the value,
which is read back from its encoding only if `clean` holds, and leaves a stale header if
`lingers` does. -/
structure Event where
 item:Item
 clean:Prop
 lingers:Prop

structure Event.Takes (e:Event) (s s':Stream):Prop where
 calm:Calm s'
 moved:∃m,Moved m s s' ∧ (Ready s → Ahead m s) ∧ (Stale s→m=0)
 whole:Ready s→∀tail,s.r=encode e.item++tail→(encode e.item).length<2^64 →
  e.clean ∧ (e.lingers → Stale s')

inductive Chain:List Event→Stream→Stream→Prop
 | nil (s:Stream):Chain [] s s
 | cons {e:Event} {es:List Event} {s t u:Stream} (he:e.Takes s t) (hes:Chain es t u) :
  Chain (e::es) s u

lemma moved_zero(hs:Sync s):Moved 0 s s:=⟨rfl,(addPos_zero _).symm,hs⟩

lemma moved_unique(hst:s.stack≠[])(h:Moved m s s')(h':Moved n s s'):m=n:=by
 obtain⟨tos,st,hstack⟩:=exists_cons_of_ne_nil hst
 have heq:=h.stack.symm.trans h'.stack
 rw[hstack]at heq
 simpa[addPos]using heq

lemma moved_stack_ne_nil(hst:s.stack≠[])(h:Moved m s s'):s'.stack≠[]:=by
 obtain⟨tos,st,hstack⟩:=exists_cons_of_ne_nil hst
 rw[h.stack,hstack,addPos]
 simp

section

variable {es:List Event} {u:Stream} (h:Chain es s u)

include h

lemma Chain.calm(hs:Calm s):Calm u:=by
 induction h with
 | nil s=>exact hs
 | cons he _ ih=>exact ih he.calm

lemma Chain.exists_moved(hs:Calm s):∃m,Moved m s u:=by
 induction h with
 | nil s=>exact⟨0,moved_zero hs.sync⟩
 | cons he _ ih=>
  obtain⟨m,hmoved,-,-⟩:=he.moved
  obtain⟨m',hmoved'⟩:=ih he.calm
  exact⟨_,hmoved.trans hmoved'⟩

/-- No more is read than as many items, and one less from a stale header. -/
lemma Chain.moved(hs:Calm s)(hr:s.r=encodeList items++tail)
 (hlen:es.length ≤ items.length)(hsize:(encodeList items).length<2^64):
 ∃m,Moved m s u∧m≤(encodeList (items.take es.length)).length∧
  (Stale s→m≤(encodeList (items.take (es.length-1))).length):=by
 induction h generalizing items with
 | nil s=>exact⟨0,moved_zero hs.sync,zero_le _,fun _=>zero_le _⟩
 | @cons e es s t u he hes ih=>
  obtain⟨item,items,rfl⟩:∃y ys,items=y::ys:=
   exists_cons_of_length_pos (by rw[length_cons]at hlen;omega)
  rw[length_cons,length_cons]at hlen
  have hsplit:=encodeList_cons_length item items
  obtain⟨m,hmoved,hready,hstale⟩:=he.moved
  rcases hs with hs|hs
  ·have hr':=hr
   rw[encodeList,append_assoc]at hr'
   obtain rfl:=(hready hs).unique (ahead_of_encoded hr' (by omega))
   obtain⟨m',hmoved',hle,-⟩:=ih he.calm (by rw[hmoved.r,hr',drop_left])
    (le_of_succ_le_succ hlen) (by omega)
   refine⟨_,hmoved.trans hmoved',?_,fun h=>absurd hs (not_ready_of_stale h)⟩
   rw[length_cons,take_succ_cons,encodeList_cons_length]
   omega
  obtain rfl:=hstale hs
  obtain⟨m',hmoved',hle,-⟩:=ih he.calm (by rw[hmoved.r,hr,drop_zero])
   (by rw[length_cons];omega) hsize
  have hle':=encodeList_take_le (item::items) (le_add_right es.length 1)
  refine⟨_,hmoved.trans hmoved',?_,fun _=>?_⟩
  ·rw[length_cons]
   omega
  rw[length_cons,Nat.add_sub_cancel]
  omega

/-- From a stale header a list is not read to its end. -/
lemma Chain.not_stale(hne:es≠[])(hst:s.stack≠[])(hr:s.r=encodeList (es.map Event.item)++tail)
 (hsize:(encodeList (es.map Event.item)).length<2^64)
 (hm:Moved (encodeList (es.map Event.item)).length s u):¬Stale s:=by
 intro hs
 obtain⟨m,hmoved,-,hle⟩:=h.moved (.inr hs) hr (by rw[length_map]) hsize
 have hlt:=encodeList_take_lt (es.map Event.item) (by simpa using hne)
 have hm':=moved_unique hst hm hmoved
 have:=hle hs
 rw[length_map]at hlt
 omega

/-- A list that has been read to its end was read cleanly. -/
lemma Chain.whole(hs:Calm s)(hst:s.stack≠[])(hr:s.r=encodeList (es.map Event.item)++tail)
 (hsize:(encodeList (es.map Event.item)).length<2^64)
 (hm:Moved (encodeList (es.map Event.item)).length s u):
 (∀e∈es,e.clean)∧(∀e∈es.dropLast,¬e.lingers)∧(Ready u→∀e∈es,¬e.lingers):=by
 induction h with
 | nil s=>simp
 | @cons e es s t u he hes ih=>
  have hready:Ready s:=hs.resolve_right ((Chain.cons he hes).not_stale (by simp) hst hr hsize hm)
  rw[map_cons,encodeList_cons_length]at hm hsize
  rw[map_cons,encodeList,append_assoc]at hr
  obtain⟨m,hmoved,hahead,-⟩:=he.moved
  obtain rfl:=(hahead hready).unique (ahead_of_encoded hr (by omega))
  have hst':=moved_stack_ne_nil hst hmoved
  have hr':t.r=encodeList (es.map Event.item)++tail:=by
   rw[hmoved.r,hr,drop_left]
  obtain⟨m',hmoved',-,-⟩:=hes.moved he.calm hr' (by rw[length_map]) (by omega)
  obtain rfl:m'=(encodeList (es.map Event.item)).length:=by
   have:=moved_unique hst (hmoved.trans hmoved') hm
   omega
  obtain⟨hclean,hinit,hlast⟩:=ih he.calm hst' hr' (by omega) hmoved'
  obtain⟨hcleane,hlinger⟩:=he.whole hready _ hr (by omega)
  have hfirst:es≠[]→¬e.lingers:=fun hne hl=>
   hes.not_stale hne hst' hr' (by omega) hmoved' (hlinger hl)
  refine⟨forall_mem_cons.2 ⟨hcleane,hclean⟩,?_,fun hu=>?_⟩
  ·rcases eq_or_ne es [] with rfl|hne
   ·simp
   rw[dropLast_cons_of_ne_nil hne]
   exact forall_mem_cons.2 ⟨hfirst hne,hinit⟩
  refine forall_mem_cons.2 ⟨?_,hlast hu⟩
  rcases eq_or_ne es [] with rfl|hne
  ·cases hes
   exact fun hl=>not_ready_of_stale (hlinger hl) hu
  exact hfirst hne

end

section

variable {n:ℕ} (hs:Calm s) (hlist:list s=some (.ok n,t))

include hs hlist

lemma ready_before_list:Ready s:=by
 refine hs.resolve_right fun hstale=>?_
 rw[list,bind_of_ok (kind_of_stale hstale)]at hlist
 simp[bind_apply,andThen]at hlist

lemma ready_after_list:Ready t:=by
 obtain⟨-,-,-,-,hin⟩:=header_of_list (ready_before_list hs hlist) hlist
 exact hin.toReady

lemma calm_of_list:Calm t:=.inl (ready_after_list hs hlist)

end

lemma takes_list(hs:Calm s)(hlist:list s=some (.ok n,t))(hes:Chain es t u)(hstay:Moved 0 u u')
 (hend:listEnd u'=some (.ok x,s'))
 (hclean:(∀e∈es,e.clean)→(∀e∈es.dropLast,¬e.lingers)→(Ready u→∀e∈es,¬e.lingers)→clean):
 Event.Takes ⟨.list (es.map Event.item),clean,False⟩ s s':=by
 have hready:=ready_before_list hs hlist
 obtain⟨tail,hn,hr,-,hin⟩:=header_of_list hready hlist
 obtain⟨m,hmoved⟩:=hes.exists_moved (.inl hin.toReady)
 have hmoved':Moved m t u':=hmoved.trans hstay
 obtain⟨rfl,hpast⟩:=moved_of_listEnd hin hmoved' hend
 refine⟨.inl hpast.ready,⟨_,hpast.toMoved,fun _=>⟨_,_,_,_,tail,hr,.list _ hn,rfl⟩,
  fun hstale=>absurd hready (not_ready_of_stale hstale)⟩,fun _ tail' hr' hsize=>?_⟩
 dsimp only at hr' hsize
 rw[encode,append_assoc]at hr'
 rw[encode,length_append]at hsize
 obtain⟨-,rfl⟩:=header_unique (.list _ hn) (.list _ (by omega)) (hr.symm.trans hr')
 have hst:t.stack≠[]:=by
  rw[hin.stack]
  simp
 obtain⟨hall,hinit,hlast⟩:=hes.whole (.inl hin.toReady) hst
  (by rw[hin.r,hr',drop_left]) (by omega) hmoved
 exact⟨hclean hall hinit hlast,False.elim⟩

lemma eq_of_pure(h:(pure a:Reading ε α) s=some (.ok b,s')):a=b∧s=s':=by simpa using h

/-- The value ahead has been read; a stale header has been used up. -/
def Used (s s':Stream):Prop:=∃m,Past m s s' ∧ (Ready s → Ahead m s) ∧ (Stale s→m=0)

lemma Used.takes(h:Used s s'){e:Event}(hclean:e.clean)(hlingers:¬e.lingers):e.Takes s s':=by
 obtain⟨m,hpast,hahead,hzero⟩:=h
 exact⟨.inl hpast.ready,⟨m,hpast.toMoved,hahead,hzero⟩,fun _ _ _ _=>⟨hclean,fun hl=>absurd hl hlingers⟩⟩

lemma used_of_ready(hs:Ready s)(hpast:Past m s s')(hahead:Ahead m s):Used s s':=
 ⟨m,hpast,fun _=>hahead,fun h=>absurd hs (not_ready_of_stale h)⟩

lemma used_of_bytes(hs:Calm s)(h:bytes s=some (.ok b,s')):Used s s':=by
 rcases hs with hs|hs
 ·obtain⟨tail,hr,hb,hpast⟩:=encoded_of_bytes hs h
  exact used_of_ready hs hpast (ahead_of_string hr hb)
 rw[bytes,bind_of_ok (kind_of_stale hs)]at h
 obtain⟨-,rfl⟩:[s.byteval]=b∧{s with kind:=none} = s':=by
  simpa[rearm,bind_apply,andThen]using h
 exact⟨0,⟨⟨rfl,(addPos_zero _).symm,hs.limited,hs.remaining⟩,rfl⟩,
  fun h=>absurd h (not_ready_of_stale hs),fun _=>rfl⟩

lemma used_of_uint(hs:Calm s)(hbits:8 ≤ maxbits)
 (hmax:maxbits≤64)(h:uint maxbits s=some (.ok v,s')):Used s s':=by
 rcases hs with hs|hs
 ·obtain⟨tail,hr,hpast,hlt⟩:=encoded_of_uint hs hbits h
  refine used_of_ready hs hpast (ahead_of_string hr ?_)
  rw[shortest_length]
  have:=width_le_iff.2 hlt
  omega
 rw[uint_of_stale hs]at h
 simp at h

/-- An array of one zero byte leaves its header behind, from whichever header it is read. -/
lemma takes_byteArray(hs:Calm s)(h:decodeByteArray n s=some (.ok b,s')):
 Event.Takes ⟨.string b.toList,True,b.toList=[0]⟩ s s':=by
 rcases hs with hs|hs
 ·rw[decodeByteArray,bind_eq_ok]at h
  obtain⟨⟨k,m⟩,t,hkind,h⟩:=h
  obtain⟨hd,tail,v,hr,hhd,-,-,rfl⟩:=(kind_eq_ok hs.toSync hs.kind).1 (lift_eq_ok.1 hkind)
  cases hhd with
  | byte v hv=>
   obtain rfl|rfl|⟨n,rfl⟩:n=0∨n=1∨∃k,n=k+2:=by
    rcases n with _ | _|n
    ·exact .inl rfl
    ·exact .inr (.inl rfl)
    exact .inr (.inr ⟨n,rfl⟩)
   ·simp[decodeOneByte]at h
   ·obtain⟨t,ht,hmoved,hnone,hstale⟩:=decodeOneByte_armed hs.toSync [v] v
    replace h:decodeOneByte 1 (armed [v] .byte 0 v s)=some (.ok b,s'):=h
    rw[ht]at h
    obtain⟨rfl,rfl⟩:Vector.cons v .nil=b∧t=s':=by simpa using h
    refine⟨?_,⟨_,hmoved,fun _=>⟨_,_,_,_,tail,hr,.byte v hv,rfl⟩,
     fun h=>absurd hs (not_ready_of_stale h)⟩,fun _ _ _ _=>⟨trivial,fun hl=>hstale ?_⟩⟩
    ·rcases eq_or_ne v 0 with hv0|hv0
     ·exact .inr (hstale hv0)
     exact .inl ⟨hmoved.sync,hnone hv0⟩
    simpa using hl
   simp[decodeOneByte]at h
  | string m hm=>
   obtain⟨rfl,-,-,hcanon,rfl⟩:=eq_of_sized_string hs.toSync h
   have hpast:=past_content hs.toSync (puthead 0x80 0xB7 n) .string n 0
   refine (used_of_ready hs hpast ⟨_,_,_,_,tail,hr,.string _ hm,rfl⟩).takes trivial ?_
   intro hl
   dsimp only at hl
   refine hcanon ⟨?_,by simp[hl]⟩
   rw[←b.toList_length,hl,length_singleton]
  | list m hm=>simp at h
 rw[decodeByteArray,bind_of_ok (lift_eq_ok.2 (kind_of_stale hs))]at h
 replace h:decodeOneByte n s=some (.ok b,s'):=h
 rcases n with _ | _|n
 ·simp[decodeOneByte]at h
 ·rw[decodeOneByte_of_stale hs]at h
  obtain rfl:s=s':=(by simpa using h:_∧s=s').2
  exact⟨.inr hs,⟨0,moved_zero hs.toSync,fun h=>absurd h (not_ready_of_stale hs),
   fun _=>rfl⟩,fun h=>absurd h (not_ready_of_stale hs)⟩
 simp[decodeOneByte]at h

section Types

variable {α:Type}

def event (t:GoType) (x:t.Value):Event:=⟨toItem t x,Clean t x,Lingers t x⟩

structure Sound (dec:Decoder α) (event:α→Event):Prop where
 ends:EndsOnly dec
 takes:∀s s' x,Calm s→dec s=some (.ok x,s')→(event x).Takes s s'

lemma ready_of_eol(hs:Calm s)(h:kind s=some (.error .eol,s')):Ready s:=by
 refine hs.resolve_right fun hstale=>?_
 rw[kind_of_stale hstale]at h
 simp at h

lemma arrayElements_eq_ok(h:arrayElements dec (n+1) i s=some (.ok (some xs),s')):
 ∃x ys t,xs=.cons x ys∧dec s=some (.ok x,t)∧arrayElements dec n (i+1) t=some (.ok (some ys),s'):=by
 rw[arrayElements,bind_eq_ok]at h
 obtain⟨res,t,hres,h⟩:=h
 rw[observe_eq_ok]at hres
 rcases res with ((_ | _) | _ | _)|x
 case ok =>
  obtain⟨ys,t',hys,h⟩:=bind_eq_ok.1 h
  obtain⟨hys',rfl⟩:ys.map (.cons x)=some xs∧t'=s':=by simpa using h
  obtain⟨ys,rfl,rfl⟩:=Option.map_eq_some_iff.1 hys'
  exact⟨x,ys,t,rfl,hres,hys⟩
 all_goals simp at h

lemma neverEnds_arrayElements(dec:Decoder α)(n i:ℕ):NeverEnds (arrayElements dec n i):=by
 induction n generalizing i with
 | zero=>exact avoids_pure _
 | succ n ih=>
  refine avoids_bind (avoids_observe dec) fun res=>?_
  rcases res with ((_ | _) | _ | _)|x
  case ok=>exact avoids_bind (ih _) fun _=>avoids_pure _
  case error.stream.eol=>exact avoids_pure _
  all_goals exact avoids_throw (addErrorContext_ne_eol (by simp))

section

variable {dec:Decoder α} {event:α→Event} (hdec:Sound dec event)

include hdec

lemma chain_of_sliceElements(hs:Calm s)(h:sliceElements dec fuel i s=some (.ok xs,s')):
 ∃u,Chain (xs.map event) s u∧Ready u∧Past 0 u s':=by
 induction fuel generalizing i s xs with
 | zero=>simp[sliceElements,stuck]at h
 | succ fuel ih=>
  rcases sliceElements_eq_ok h with⟨x,ys,t,rfl,hx,hys⟩|⟨rfl,hend⟩
  ·have htakes:=hdec.takes s t x hs hx
   obtain⟨u,hchain,hready,hpast⟩:=ih htakes.calm hys
   exact⟨u,.cons htakes hchain,hready,hpast⟩
  have hready:=ready_of_eol hs (hdec.ends s s' hend)
  exact⟨s,.nil s,hready,(hdec.ends.past hready hend).2⟩

lemma sound_decodeListSlice(fuel:ℕ)(typ:GoType):Sound (decodeListSlice fuel typ dec) fun xs=>
 ⟨.list (xs.map fun x=>(event x).item),∀x∈xs,(event x).clean∧¬(event x).lingers,False⟩:=by
 refine⟨endsOnly_decodeListSlice dec fuel typ,fun s s' xs hs h=>?_⟩
 obtain⟨n,t,u',hlist,hend,hloop⟩:=decodeListSlice_eq_ok h
 have ht:Calm t:=calm_of_list hs hlist
 have key:∃u,Chain (xs.map event) t u∧Ready u∧Moved 0 u u':=by
  rcases hloop with⟨rfl,rfl⟩|hloop
  ·exact⟨u',.nil u',ready_after_list hs hlist,moved_zero ht.sync⟩
  obtain⟨u,hchain,hready,hpast⟩:=chain_of_sliceElements hdec ht hloop
  exact⟨u,hchain,hready,hpast.toMoved⟩
 obtain⟨u,hchain,hready,hstay⟩:=key
 have htakes:Event.Takes
  ⟨_,∀x∈xs,(event x).clean∧¬(event x).lingers,False⟩ s s':=
  takes_list hs hlist hchain hstay hend fun hall _ hlast y hy=>
   ⟨hall _ (mem_map_of_mem hy),hlast hready _ (mem_map_of_mem hy)⟩
 rwa[map_map]at htakes

lemma chain_of_arrayElements(hs:Calm s)
 (h:arrayElements dec n i s=some (.ok (some xs),s')):Chain (xs.toList.map event) s s':=by
 induction n generalizing i s with
 | zero=>
  obtain rfl:xs=.nil:=Vector.eq_nil xs
  obtain rfl:s=s':=by simpa[arrayElements]using h
  exact .nil s
 | succ n ih=>
  obtain⟨x,ys,t,rfl,hx,hys⟩:=arrayElements_eq_ok h
  have htakes:=hdec.takes s t x hs hx
  rw[Vector.toList_cons]
  exact .cons htakes (ih htakes.calm hys)

lemma sound_decodeListArray(typ:GoType)(n:ℕ):Sound (decodeListArray typ n dec) fun xs=>
 ⟨.list (xs.toList.map fun x=>(event x).item),(∀x∈xs.toList,(event x).clean)∧
  ∀x∈xs.toList.dropLast,¬(event x).lingers,False⟩:=by
 constructor
 ·refine endsOnly_bind (endsOnly_wrap fun _ _=>eol_of_list) fun _=>
   avoids_bind (neverEnds_arrayElements dec n 0) fun xs=>?_
  cases xs with
  | none=>exact avoids_throw (by simp)
  | some xs=>exact avoids_bind (neverEnds_wrap noEol_listEnd) fun _=>avoids_pure _
 intro s s' xs hs h
 rw[decodeListArray,bind_eq_ok]at h
 obtain⟨m,t,hlist,h⟩:=h
 rw[wrap_eq_ok]at hlist
 obtain⟨ys,u,hys,h⟩:=bind_eq_ok.1 h
 cases ys with
 | none=>simp at h
 | some ys=>
  obtain⟨x,t',hend,h⟩:=bind_eq_ok.1 h
  obtain⟨rfl,rfl⟩:ys=xs∧t'=s':=by simpa using h
  have hchain:=chain_of_arrayElements hdec (calm_of_list hs hlist) hys
  have htakes:Event.Takes ⟨.list ((ys.toList.map event).map Event.item),
   (∀x∈ys.toList,(event x).clean)∧∀x∈ys.toList.dropLast,¬(event x).lingers,False⟩ s t':=by
   refine takes_list hs hlist hchain
    (moved_zero (hchain.calm (calm_of_list hs hlist)).sync) (wrap_eq_ok.1 hend)
    fun hall hinit _=>⟨fun y hy=>hall _ (mem_map_of_mem hy),fun y hy=>hinit _ ?_⟩
   rw[←map_dropLast]
   exact mem_map_of_mem hy
  rwa[map_map]at htakes

end

lemma noEol_uintValue(n:ℕ):NoEol (do
 match ← (observe (readUint n):Step (Except StreamError ℕ)) with
 | .error .canonSize=>Reading.throw .canonInt
 | .error e=>Reading.throw e
 | .ok v=>if n>0∧v<128 then Reading.throw .canonSize else return v):=by
 intro t t' ht
 rcases bind_eq_error.1 ht with ht|⟨res,u,hres,ht⟩
 ·simp[observe]at ht
 rw[observe_eq_ok]at hres
 rcases res with e|v
 ·cases e<;>simp at ht
  exact noEol_readUint n t u hres
 exact avoids_ite (avoids_throw (by simp)) (avoids_pure v) u t' ht

lemma eol_of_uint(h:uint maxbits s=some (.error .eol,s')):kind s=some (.error .eol,s'):=by
 refine eol_of_kind (fun x=>?_) h
 obtain⟨k,n⟩:=x
 cases k with
 | byte=>
  exact avoids_bind avoids_get fun _=>avoids_guard (by simp)
   (avoids_bind (avoids_modify _) fun _=>avoids_pure _)
 | string=>exact avoids_guard (by simp) (noEol_uintValue n)
 | list=>exact avoids_throw (by simp)

lemma eol_of_bool(h:RlpStream.bool s=some (.error .eol,s')):kind s=some (.error .eol,s'):=by
 rcases bind_eq_error.1 h with h|⟨v,t,-,h⟩
 ·exact eol_of_uint h
 rcases v with _ | _|v<;>simp at h

lemma used_of_bool(hs:Calm s)(h:RlpStream.bool s=some (.ok b,s')):Used s s':=by
 obtain⟨v,t,hv,h⟩:=bind_eq_ok.1 h
 obtain rfl:t=s':=by
  rcases v with _ | _|v
  ·exact (eq_of_pure h).2
  ·exact (eq_of_pure h).2
  simp at h
 exact used_of_uint hs (by decide) (by decide) hv

lemma neverEnds_decodeOneByte(n:ℕ):NeverEnds (decodeOneByte n):=by
 rcases n with _ | _|n
 ·exact avoids_throw (by simp)
 ·refine avoids_bind (avoids_observe _) fun res=>?_
  cases res<;>exact avoids_pure _
 exact avoids_throw (by simp)

lemma endsOnly_decodeByteArray(n:ℕ):EndsOnly (decodeByteArray n):=by
 refine endsOnly_bind (endsOnly_lift fun _ _=>id) fun x=>?_
 obtain⟨k,m⟩:=x
 cases k with
 | byte=>exact neverEnds_decodeOneByte n
 | string=>
  have hsized (slice:Bytes):NeverEnds
   (if h:slice.length=n then (pure ⟨slice,h⟩:Decoder (List.Vector UInt8 n))
    else stuck):=by
   split
   ·exact avoids_pure _
   exact fun s s' h=>by simp[stuck]at h
  exact avoids_guard (by simp) (avoids_guard (by simp)
   (avoids_bind (neverEnds_lift (noEol_readFull n)) fun slice=>
    avoids_guard (by simp[wrapStreamError]) (hsized slice)))
 | list=>exact avoids_throw (by simp[wrapStreamError])

lemma sound_of_used{dec:Decoder α}{event:α→Event}(hends:EndsOnly dec)
 (hused:∀s s' x,Calm s→dec s=some (.ok x,s')→Used s s')
 (hclean:∀x,(event x).clean)(hlingers:∀x,¬(event x).lingers):Sound dec event:=
 ⟨hends,fun s s' x hs h=>(hused s s' x hs h).takes (hclean x) (hlingers x)⟩

lemma sound_decodeUint(w:Width):Sound (decodeUint w) (event (.uint w)):=by
 refine sound_of_used (endsOnly_bind (endsOnly_wrap fun _ _=>eol_of_uint)
  fun _=>avoids_pure _) (fun s s' x hs h=>?_) (fun _=>trivial) fun _=>id
 obtain⟨v,t,hv,h⟩:=bind_eq_ok.1 h
 obtain rfl:t=s':=(eq_of_pure h).2
 exact used_of_uint hs (by cases w<;>decide) (by cases w<;>decide) (wrap_eq_ok.1 hv)

lemma sound_decodeBigInt:Sound decodeBigInt (event .bigInt):=by
 refine sound_of_used (endsOnly_bind (endsOnly_wrap fun _ _=>eol_of_bytes) fun b=>?_)
  (fun s s' x hs h=>?_) (fun _=>trivial) fun _=>id
 ·exact avoids_guard (by simp[wrapStreamError]) (avoids_pure _)
 obtain⟨b,t,hb,h⟩:=bind_eq_ok.1 h
 obtain rfl:t=s':=by
  split at h
  ·simp[bind_apply,andThen]at h
  exact (eq_of_pure h).2
 exact used_of_bytes hs (wrap_eq_ok.1 hb)

lemma sound_bytes{event:Bytes→Event}(hclean:∀b,(event b).clean)
 (hlingers:∀b,¬(event b).lingers):Sound (wrap typ bytes) event:=
 sound_of_used (endsOnly_wrap fun _ _=>eol_of_bytes)
  (fun _ _ _ hs h=>used_of_bytes hs (wrap_eq_ok.1 h)) hclean hlingers

lemma Event.Takes.of_imp{item:Item}{clean clean' lingers lingers':Prop}
 (h:Event.Takes ⟨item,clean,lingers⟩ s s')(hclean:clean→clean')
 (hlingers:lingers'→lingers):Event.Takes ⟨item,clean',lingers'⟩ s s':=by
 refine⟨h.calm,h.moved,fun hs tail hr hsize=>?_⟩
 obtain⟨hc,hl⟩:=h.whole hs tail hr hsize
 exact⟨hclean hc,fun hl'=>hl (hlingers hl')⟩

lemma sound_decodeInterface(fuel:ℕ):Sound (decodeInterface fuel) (event .interface):=by
 induction fuel with
 | zero=>
  exact⟨endsOnly_decodeInterface 0,fun s s' x _ h=>by simp[decodeInterface,stuck]at h⟩
 | succ fuel ih=>
  refine⟨endsOnly_decodeInterface _,fun s s' x hs h=>?_⟩
  rcases decodeInterface_eq_ok h with⟨xs,rfl,hxs⟩|⟨b,rfl,hb⟩
  ·have htakes:Event.Takes ⟨.list (xs.map id),_,False⟩ s s':=
    (sound_decodeListSlice ih fuel _).takes s s' xs hs hxs
   rw[map_id]at htakes
   exact htakes.of_imp (fun _=>trivial) id
  exact (used_of_bytes hs hb).takes trivial id

def fieldEvents:(fs:Fields)→fs.Values → List Event
 | .nil,_=>[]
 | .cons _ t fs,(xs:t.Value × fs.Values)=>event t xs.1::fieldEvents fs xs.2

lemma fieldEvents_items:(fs:Fields)→(xs:fs.Values) →
 (fieldEvents fs xs).map Event.item=fieldItems fs xs
 | .nil,_=>rfl
 | .cons _ _ fs,xs=>congrArg (cons _) (fieldEvents_items fs xs.2)

lemma cleanFields_of_events:(fs:Fields)→(xs:fs.Values) →
 (∀e∈fieldEvents fs xs,e.clean)→(∀e∈(fieldEvents fs xs).dropLast,¬e.lingers) →
 CleanFields fs xs
 | .nil,_,_,_=>trivial
 | .cons _ t .nil,xs,hall,_=>⟨(forall_mem_cons.1 hall).1,fun h=>absurd rfl h,trivial⟩
 | .cons _ t (.cons name u fs),xs,hall,hinit=>by
  obtain⟨hclean,hall'⟩:=forall_mem_cons.1 hall
  obtain⟨hfirst,hinit'⟩:=forall_mem_cons.1 hinit
  exact⟨hclean,fun _=>hfirst,cleanFields_of_events (.cons name u fs) xs.2 hall' hinit'⟩

lemma fieldsDecoder_eq_ok{fuel:ℕ}{typ t:GoType}{name:String}{fs:Fields}
 {xs:t.Value × fs.Values}
 (h:fieldsDecoder fuel typ (.cons name t fs) s=some (.ok xs,s')):
 ∃u,decoder fuel t s=some (.ok xs.1,u)∧fieldsDecoder fuel typ fs u=some (.ok xs.2,s'):=by
 rw[fieldsDecoder]at h
 obtain⟨res,u,hres,h⟩:=bind_eq_ok.1 h
 rw[observe_eq_ok]at hres
 rcases res with ((_ | _) | _ | _)|x
 case ok =>
  obtain⟨ys,t',hys,h⟩:=bind_eq_ok.1 h
  obtain⟨rfl,rfl⟩:=eq_of_pure h
  exact⟨u,hres,hys⟩
 all_goals simp at h

lemma neverEnds_fieldsDecoder(fuel:ℕ)(typ:GoType)(fs:Fields):
 NeverEnds (fieldsDecoder fuel typ fs):=by
 match fs with
 | .nil=>exact avoids_pure _
 | .cons name t fs=>
  rw[fieldsDecoder]
  refine avoids_bind (avoids_observe _) fun res=>?_
  rcases res with ((_ | _) | _ | _)|x
  case ok=>exact avoids_bind (neverEnds_fieldsDecoder fuel typ fs) fun _=>avoids_pure _
  case error.stream.eol=>exact avoids_throw (by simp)
  all_goals exact avoids_throw (addErrorContext_ne_eol (by simp))

lemma endsOnly_struct(fuel:ℕ)(fs:Fields):EndsOnly (decoder fuel (.struct fs)):=by
 rw[decoder]
 exact endsOnly_bind (endsOnly_wrap fun _ _=>eol_of_list) fun _=>
  avoids_bind (neverEnds_fieldsDecoder fuel _ fs) fun _=>
   avoids_bind (neverEnds_wrap noEol_listEnd) fun _=>avoids_pure _

mutual

/-- What the decoders do from a calm stream. -/
lemma sound_decoder(fuel:ℕ):(t:GoType) → Sound (decoder fuel t) (event t)
 | .uint w=>sound_decodeUint w
 | .bool=>sound_of_used (endsOnly_wrap fun _ _=>eol_of_bool)
  (fun _ _ _ hs h=>used_of_bool hs (wrap_eq_ok.1 h)) (fun _=>trivial) fun _=>id
 | .bigInt=>sound_decodeBigInt
 | .string=>sound_bytes (fun _=>trivial) fun _=>id
 | .bytes=>sound_bytes (fun _=>trivial) fun _=>id
 | .byteArray n=>⟨endsOnly_decodeByteArray n,fun _ _ _=>takes_byteArray⟩
 | .slice t=>sound_decodeListSlice (sound_decoder fuel t) fuel (.slice t)
 | .array n t=>sound_decodeListArray (sound_decoder fuel t) (.array n t) n
 | .struct fs=>by
  refine⟨endsOnly_struct fuel fs,fun s s' xs hs h=>?_⟩
  rw[decoder]at h
  obtain⟨m,t,hlist,h⟩:=bind_eq_ok.1 h
  rw[wrap_eq_ok]at hlist
  obtain⟨ys,u,hys,h⟩:=bind_eq_ok.1 h
  obtain⟨x,t',hend,h⟩:=bind_eq_ok.1 h
  obtain⟨rfl,rfl⟩:=eq_of_pure h
  have ht:=calm_of_list hs hlist
  have hchain:=chain_of_fieldsDecoder fuel (.struct fs) fs t u ys ht hys
  have htakes:=takes_list hs hlist hchain (moved_zero (hchain.calm ht).sync)
   (wrap_eq_ok.1 hend) fun hall hinit _=>cleanFields_of_events fs ys hall hinit
  rwa[fieldEvents_items]at htakes
 | .interface=>sound_decodeInterface fuel

lemma chain_of_fieldsDecoder(fuel:ℕ)(typ:GoType):(fs:Fields) →
 ∀(s s':Stream) (xs:fs.Values),Calm s→fieldsDecoder fuel typ fs s=some (.ok xs,s') →
 Chain (fieldEvents fs xs) s s'
 | .nil,s,s',_,_,h=>by
  rw[fieldsDecoder]at h
  obtain⟨-,rfl⟩:=eq_of_pure h
  exact .nil s
 | .cons _ t fs,s,s',xs,hs,h=>by
  obtain⟨u,hx,hxs⟩:=fieldsDecoder_eq_ok h
  have htakes:=(sound_decoder fuel t).takes s u _ hs hx
  exact .cons htakes (chain_of_fieldsDecoder fuel typ fs u s' _ htakes.calm hxs)

end

end Types

/-- A value with no negative number is encoded, and it is read back exactly if it is clean. -/
theorem typed_round_trip_iff {t : GoType} {x : t.Value} (h : NonNegative t x) :
    ∃ b, encodeToBytes t x = .ok (some b) ∧ (b.length < 2 ^ 63 →
      ((∃ n, ∀ fuel, n ≤ fuel → decodeBytes fuel t b = some (.ok x)) ↔ Clean t x)) := by
 refine⟨encode (toItem t x),encodeToBytes_eq h,fun hsize=>⟨?_,fun hclean=>?_⟩⟩
 · rintro⟨n,hn⟩
   obtain⟨s',hdec,-⟩:=decoder_of_decodeBytes (hn n le_rfl)
   have htakes:=(sound_decoder n t).takes _ _ _ (.inl (ready_newStream _)) hdec
   have hwhole:=htakes.whole (ready_newStream _) [] (append_nil _).symm
   exact (hwhole (hsize.trans (by norm_num:(2:ℕ)^63<2^64))).1
 exact⟨_,fun fuel hfuel=>
  decodeBytes_of_reads (decoder_reads fuel t x h hclean hfuel (hsize.trans (by norm_num)))⟩

theorem typed_round_trip_iff_pair :
    ∃ b, encodeToBytes (.struct (.cons "A" (.byteArray 1) (.cons "B" .bigInt .nil)))
        (.cons 7 .nil, (5 : ℤ), ()) = .ok (some b) ∧ (b.length < 2 ^ 63 →
      ((∃ n, ∀ fuel, n ≤ fuel →
        decodeBytes fuel (.struct (.cons "A" (.byteArray 1) (.cons "B" .bigInt .nil))) b =
          some (.ok (.cons 7 .nil, (5 : ℤ), ()))) ↔
        Clean (.struct (.cons "A" (.byteArray 1) (.cons "B" .bigInt .nil)))
          (.cons 7 .nil, (5 : ℤ), ()))) :=
 typed_round_trip_iff ⟨trivial,(by decide:(0:ℤ)≤5),trivial⟩

lemma sliceElements_of_stale(hs:Stale s)(fuel i:ℕ):
 sliceElements (decodeByteArray 1) fuel i s=none:=by
 induction fuel generalizing i with
 | zero=>rfl
 | succ fuel ih=>
  rw[sliceElements,bind_of_ok (observe_eq_ok.2 (decodeByteArray_of_stale hs))]
  dsimp only
  rw[bind_apply,ih]
  rfl

/-- A slice that holds an array of one zero byte is encoded, but decoding it does not end. -/
theorem zero_byte_array_never_decoded :
    encodeToBytes (.slice (.byteArray 1)) [List.Vector.cons 0 .nil] = .ok (some [0xC1, 0]) ∧
      ∀ fuel, decodeBytes fuel (.slice (.byteArray 1)) [0xC1, 0] = none := by
 refine⟨rfl,fun fuel=>?_⟩
 have hlist:wrap (.slice (.byteArray 1)) list (newStream [0xC1,0]) =
  some (.ok 1,⟨[0],1,true,none,0,0,none,[⟨0,1⟩]⟩):=rfl
 have hfirst:decodeByteArray 1 ⟨[0],1,true,none,0,0,none,[⟨0,1⟩]⟩ =
  some (.ok (.cons 0 .nil),⟨[],0,true,some .byte,0,0,none,[⟨1,1⟩]⟩):=rfl
 have hstale:Stale ⟨[],0,true,some .byte,0,0,none,[⟨1,1⟩]⟩:=⟨⟨rfl,rfl⟩,rfl,rfl,rfl⟩
 have hloop:sliceElements (decodeByteArray 1) fuel 0
  ⟨[0],1,true,none,0,0,none,[⟨0,1⟩]⟩=none:=by
  cases fuel with
  | zero=>rfl
  | succ fuel =>
   rw[sliceElements,bind_of_ok (observe_eq_ok.2 hfirst)]
   dsimp only
   rw[bind_apply,sliceElements_of_stale hstale]
   rfl
 have hnone:decodeListSlice fuel (.slice (.byteArray 1)) (decodeByteArray 1)
  (newStream [0xC1,0])=none:=by
  rw[decodeListSlice,bind_of_ok hlist,if_neg one_ne_zero,bind_apply,hloop]
  rfl
 replace hnone:decoder fuel (.slice (.byteArray 1)) (newStream [0xC1,0])=none:=hnone
 rw[decodeBytes,mapError,hnone]
 rfl

end GoCoupe.RlpTypedRoundTrip
