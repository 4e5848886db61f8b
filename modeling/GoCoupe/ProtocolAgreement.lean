import GoCoupe.ProtocolMatching
import Mathlib.Algebra.BigOperators.Group.List.Basic
import Mathlib.Data.List.Dedup
import Mathlib.Data.Set.BooleanAlgebra
import Mathlib.Order.Bounds.Basic
import Mathlib.Order.CompletePartialOrder
import Mathlib.Order.Interval.Set.Basic

/-!
# Both ends of a connection agree on message codes

Two nodes that match their protocols against each other's capabilities select the same
protocols with the same offsets, and a message reaches the protocol it was written on as long
as all codes fit into 64 bits.
-/

namespace GoCoupe.ProtocolAgreement
open MapIteration ProtocolMatching List Option

variable {Name:Type}

/-- The capabilities a node sends are those of its protocols, in any order and repetition. -/
def Announces (protocols:List (Protocol Name)) (caps:List (Cap Name)):Prop:=
 ∀c,c∈caps ↔ ∃p∈protocols,p.cap=c

lemma announces_map(protocols:List (Protocol Name)):
 Announces protocols (protocols.map Protocol.cap):=fun _=>mem_map

/-- The lists give the same length to the same name and version. -/
def SameLengths (a b:List (Protocol Name)):Prop:=∀p∈a++b,∀q∈a++b,p.cap=q.cap→p.length=q.length

lemma SameLengths.eq(h:SameLengths a b)
 (hp:p∈a++b)(hq:q∈a++b)(hname:p.name=q.name)(hversion:p.version=q.version):p=q:=by
 have hlength:=h p hp q hq (by rw[Protocol.cap,Protocol.cap,hname,hversion])
 cases p
 cases q
 cases hname
 cases hversion
 cases hlength
 rfl

lemma SameLengths.symm(h:SameLengths a b):SameLengths b a:=
 fun p hp q hq=>h p (mem_append.2 (mem_append.1 hp).symm) q
  (mem_append.2 (mem_append.1 hq).symm)

def commonVersions (a b:List (Protocol Name)) (n:Name):Set ℕ:=
 {v | (∃p∈a,p.cap=⟨n,v⟩) ∧ ∃q∈b,q.cap=⟨n,v⟩}

lemma commonVersions_comm(a b:List (Protocol Name))(n:Name):
 commonVersions a b n=commonVersions b a n:=Set.ext (fun _=>and_comm)

def codes (rw:ProtoRW Name):Set ℕ:=Set.Ico rw.offset.toNat (rw.offset.toNat+rw.protocol.length.toNat)

def codeCount (l:List (Protocol Name)):ℕ:=(l.map (·.length.toNat)).sum

section Ranges

variable {o e:UInt64} {l before after:List (ProtoRW Name)} {rw:ProtoRW Name}

def width (l:List (ProtoRW Name)):ℕ:=codeCount (l.map ProtoRW.protocol)

lemma width_cons(rw:ProtoRW Name)(l:List (ProtoRW Name)):
 width (rw::l)=rw.protocol.length.toNat+width l:=by
 rw[width,map_cons,codeCount,map_cons,sum_cons]
 rfl

lemma toNat_add_length(h:o.toNat+width (rw::l)<2^64):
 (o+rw.protocol.length).toNat=o.toNat+rw.protocol.length.toNat:=by
 rw[width_cons]at h
 rw[UInt64.toNat_add,Nat.mod_eq_of_lt (by omega)]

/-- Until the codes run out, an offset is the number of codes below it. -/
lemma Chained.offset_eq(h:Chained o (before++rw::after) e)
 (hfit:o.toNat+width before<2^64):rw.offset.toNat=o.toNat+width before:=by
 induction before generalizing o with
 | nil=>rw[h.1];rfl
 | cons x before ih=>
  have hadd:=toNat_add_length hfit
  rw[width_cons]at hfit
  have hoffset:=ih h.2 (by omega)
  rw[hoffset,hadd,width_cons,Nat.add_assoc]

section

variable (h:Chained o l e) (hfit:o.toNat+width l<2^64)

include h hfit

lemma Chained.bounds:
 ∀x∈l,o.toNat≤x.offset.toNat∧x.offset.toNat+x.protocol.length.toNat≤o.toNat+width l:=by
 induction l generalizing o with
 | nil=>nofun
 | cons x l ih=>
  have hadd:=toNat_add_length hfit
  rw[width_cons]at hfit ⊢
  intro y hy
  rcases mem_cons.1 hy with rfl|hy
  ·rw[h.1]
   omega
  have hrest:=ih h.2 (by omega) y hy
  omega

lemma Chained.disjoint:l.Pairwise (fun x y=>Disjoint (codes x) (codes y)):=by
 induction l generalizing o with
 | nil=>exact Pairwise.nil
 | cons x l ih=>
  have hadd:=toNat_add_length hfit
  rw[width_cons]at hfit
  have hfit':(o+x.protocol.length).toNat+width l<2^64:=by omega
  refine Pairwise.cons (fun y hy=>?_) (ih h.2 hfit')
  rw[Set.disjoint_left]
  intro code hx hy'
  have hbound:=(Chained.bounds h.2 hfit' y hy).1
  have hoffset:=congrArg UInt64.toNat h.1
  obtain⟨_,hlt⟩:=hx
  obtain⟨hge,_⟩:=hy'
  omega

lemma Chained.disjoint_of_ne(hx:x∈l)(hy:y∈l)(hne:x≠y):Disjoint (codes x) (codes y):=by
 have hsymm:Std.Symm (fun x y:ProtoRW Name=>Disjoint (codes x) (codes y)):=⟨fun _ _ hxy=>hxy.symm⟩
 exact (Chained.disjoint h hfit).forall hx hy hne

lemma Chained.cover(code:ℕ):(∃x∈l,code∈codes x)↔o.toNat≤code∧code<o.toNat+width l:=by
 induction l generalizing o with
 | nil=>
  constructor
  ·nofun
  rintro⟨hge,hlt⟩
  exact absurd hlt (not_lt.2 hge)
 | cons x l ih=>
  have hadd:=toNat_add_length hfit
  rw[width_cons]at hfit ⊢
  have hrest:=ih h.2 (by omega)
  have hoffset:=congrArg UInt64.toNat h.1
  rw[exists_mem_cons_iff,hrest,codes,Set.mem_Ico]
  omega

end

/-- The entry during which the codes run out. -/
lemma exists_overrun(hk:k<2^64)(h:2^64≤k+width l):
 ∃before rw after,l=before++rw::after∧k+width before<2^64∧
  2^64≤k+width before+rw.protocol.length.toNat:=by
 induction l generalizing k with
 | nil=>exact absurd h (not_le.2 hk)
 | cons x l ih=>
  rw[width_cons]at h
  by_cases hx:k+x.protocol.length.toNat<2^64
  ·obtain⟨before,rw,after,rfl,hlt,hge⟩:=ih hx (by omega)
   refine⟨x::before,rw,after,rfl,?_,?_⟩
   ·rw[width_cons]
    omega
   rw[width_cons]
   omega
  exact⟨[],x,l,rfl,hk,not_lt.1 hx⟩

end Ranges

section Selection

variable [LinearOrder Name] {a b:List (Protocol Name)} {capsA capsB:List (Cap Name)}

/-- The protocols of a node that are selected against the capabilities of a peer. -/
def agreed (protocols:List (Protocol Name)) (caps:List (Cap Name)):List (Protocol Name):=
 (protocols.filter (fun p=>p.cap∈caps ∧
  ∀q∈protocols,q.cap∈caps → q.name=p.name → q.version≤p.version)).dedup

lemma common_iff(hb:Announces b capsB):
 Common a (sortCaps capsB) c↔c.version∈commonVersions a b c.name:=by
 rw[Common,mem_sortCaps,hb c]
 exact and_comm

variable {m:Matching Name} {won:List (ProtoRW Name)}

lemma names_won(h:Laid a (sortCaps capsB) m won):
 (won.map ProtoRW.protocol).Pairwise (fun p q=>p.name<q.name):=
 pairwise_map.2 h.increasing

lemma nodup_won(h:Laid a (sortCaps capsB) m won):(won.map ProtoRW.protocol).Nodup:=
 (names_won h).imp (fun hlt heq=>absurd (congrArg Protocol.name heq) hlt.ne)

lemma won_perm(hlen:SameLengths a b)(h:Laid a (sortCaps capsB) m won):
 (won.map ProtoRW.protocol).Perm (agreed a capsB):=by
 refine (perm_ext_iff_of_nodup (nodup_won h) (nodup_dedup _)).2 (fun p=>?_)
 rw[mem_dedup,mem_filter,decide_eq_true_iff,List.mem_map]
 constructor
 ·rintro⟨rw,hrw,rfl⟩
  obtain⟨hmem,hseen⟩:=h.known rw hrw
  refine⟨hmem,mem_sortCaps.1 hseen,fun q hq hcap hname=>?_⟩
  exact h.highest rw hrw q.cap ⟨mem_sortCaps.2 hcap,q,hq,rfl⟩ hname
 rintro⟨hmem,hcap,hbest⟩
 have hcommon:Common a (sortCaps capsB) p.cap:=⟨mem_sortCaps.2 hcap,p,hmem,rfl⟩
 obtain⟨rw,hrw,hname⟩:=h.covered p.cap hcommon
 obtain⟨hmem',hseen⟩:=h.known rw hrw
 have hversion:rw.protocol.version=p.version:=
  le_antisymm (hbest _ hmem' (mem_sortCaps.1 hseen) hname)
   (h.highest rw hrw p.cap hcommon hname.symm)
 exact⟨rw,hrw,hlen.eq (mem_append_left _ hmem') (mem_append_left _ hmem) hname
  hversion⟩

lemma width_won(hlen:SameLengths a b)(h:Laid a (sortCaps capsB) m won):
 width won=codeCount (agreed a capsB):=
 ((won_perm hlen h).map _).sum_eq

lemma highest_won(hb:Announces b capsB)(h:Laid a (sortCaps capsB) m won)
 (hrw:rw∈won):IsGreatest (commonVersions a b rw.protocol.name) rw.protocol.version:=by
 obtain⟨hmem,hseen⟩:=h.known rw hrw
 constructor
 ·exact (common_iff hb).1 ⟨hseen,_,hmem,rfl⟩
 intro v hv
 exact h.highest rw hrw ⟨rw.protocol.name,v⟩ ((common_iff hb).2 hv) rfl

variable {m':Matching Name} {won':List (ProtoRW Name)}

variable (ha:Announces a capsA) (hb:Announces b capsB) (hlen:SameLengths a b)
 (h:Laid a (sortCaps capsB) m won) (h':Laid b (sortCaps capsA) m' won')

include ha hb hlen h h'

lemma won_mem_of_mem(hp:p∈won.map ProtoRW.protocol):p∈won'.map ProtoRW.protocol:=by
 obtain⟨rw,hrw,rfl⟩:=mem_map.1 hp
 have hbest:=highest_won hb h hrw
 have hcommon:Common b (sortCaps capsA) rw.protocol.cap:=by
  rw[common_iff ha,commonVersions_comm]
  exact hbest.1
 obtain⟨rw',hrw',hname⟩:=h'.covered _ hcommon
 have hbest':=highest_won ha h' hrw'
 rw[hname,commonVersions_comm]at hbest'
 refine mem_map.2 ⟨rw',hrw',hlen.eq ?_ ?_ hname (hbest'.unique hbest)⟩
 ·exact mem_append_right _ (h'.known rw' hrw').1
 exact mem_append_left _ (h.known rw hrw).1

/-- The two sides have the same entries. -/
lemma won_eq:won=won':=by
 have hperm:(won.map ProtoRW.protocol).Perm (won'.map ProtoRW.protocol):=
  (perm_ext_iff_of_nodup (nodup_won h) (nodup_won h')).2 (fun p=>
   ⟨won_mem_of_mem ha hb hlen h h',won_mem_of_mem hb ha hlen.symm h' h⟩)
 refine Chained.unique h.chained h'.chained ?_
 refine Perm.eq_of_pairwise ?_ (names_won h) (names_won h') hperm
 intro p q _ _ hlt hlt'
 exact absurd hlt (lt_asymm hlt')

end Selection

section Delivery

variable [LinearOrder Name]

/-- A message that is written on a protocol is handed to it, whatever the order in which the
receiver visits its running protocols. -/
def Delivers (sender receiver:GoMap Name (ProtoRW Name)):Prop:=
 ∀visit:List (Σ _:Name,ProtoRW Name),visit.Perm receiver.entries →
  ∀n rw,sender.lookup n=some rw→∀c<rw.protocol.length,
   ∃code rw',writeMsg rw c=some code ∧ receiver.lookup n=some rw' ∧ handle visit code=.deliver rw' c

variable {protocols:List (Protocol Name)} {caps:List (Cap Name)} {m:Matching Name}
 {won:List (ProtoRW Name)} {rw:ProtoRW Name} {c:UInt64}

lemma mem_visit_iff(h:Laid protocols caps m won){visit:List (Σ _:Name,ProtoRW Name)}
 (hvisit:visit.Perm m.result.entries){e:Σ _:Name,ProtoRW Name}:
 e∈visit↔e.2∈won∧e.2.protocol.name=e.1:=by
 obtain⟨n,rw⟩:=e
 rw[mem_visit hvisit,h.lookups]

section

variable (h:Laid protocols caps m won) (hfit:16+width won<2^64)

include h hfit

lemma toNat_wire(hrw:rw∈won)(hc:c<rw.protocol.length):
 (c+rw.offset).toNat=c.toNat+rw.offset.toNat∧(c+rw.offset).toNat∈codes rw∧16≤(c+rw.offset).toNat:=by
 obtain⟨hge,hle⟩:=Chained.bounds h.chained hfit rw hrw
 have hlt:=UInt64.lt_iff_toNat_lt.1 hc
 have hadd:(c+rw.offset).toNat=c.toNat+rw.offset.toNat:=by
  rw[UInt64.toNat_add,Nat.mod_eq_of_lt]
  change 16≤rw.offset.toNat at hge
  change _≤16+width won at hle
  omega
 refine⟨hadd,?_,?_⟩
 ·rw[hadd,codes,Set.mem_Ico]
  omega
 change 16≤rw.offset.toNat at hge
 omega

lemma inRange_iff(hrw:rw∈won)(code:UInt64):
 (code≥rw.offset∧code<rw.offset+rw.protocol.length)↔code.toNat∈codes rw:=by
 obtain⟨hge,hle⟩:=Chained.bounds h.chained hfit rw hrw
 change _≤16+width won at hle
 rw[ge_iff_le,UInt64.le_iff_toNat_le,UInt64.lt_iff_toNat_lt,UInt64.toNat_add,
  Nat.mod_eq_of_lt (by omega),codes,Set.mem_Ico]

lemma getProto_wire{visit:List (Σ _:Name,ProtoRW Name)}(hvisit:visit.Perm m.result.entries)(hrw:rw∈won)
 {code:UInt64}(hcode:code.toNat∈codes rw):getProto visit code=some rw:=by
 have hmem:⟨rw.protocol.name,rw⟩∈visit:=(mem_visit_iff h hvisit).2 ⟨hrw,rfl⟩
 unfold getProto
 cases hfind:visit.find?
  (fun e=>code≥e.2.offset∧code<e.2.offset+e.2.protocol.length) with
 | none=>
  have hno:=find?_eq_none.1 hfind _ hmem
  rw[decide_eq_true_iff,inRange_iff h hfit hrw]at hno
  exact absurd hcode hno
 | some e=>
  have hin:=find?_some hfind
  have hwon:=((mem_visit_iff h hvisit).1 (mem_of_find?_eq_some hfind)).1
  rw[decide_eq_true_iff,inRange_iff h hfit hwon]at hin
  by_cases heq:e.2=rw
  ·rw[map_some,heq]
  have hd:=Chained.disjoint_of_ne h.chained hfit hwon hrw heq
  exact absurd hcode (Set.disjoint_left.1 hd hin)

lemma handle_wire(hvisit:visit.Perm m.result.entries)(hrw:rw∈won)
 (hc:c<rw.protocol.length):handle visit (c+rw.offset)=.deliver rw c:=by
 obtain⟨-,hcode,hbase⟩:=toNat_wire h hfit hrw hc
 have hping:c+rw.offset≠pingMsg:=by
  intro heq
  rw[heq]at hbase
  exact absurd hbase (by decide)
 have hdisc:c+rw.offset≠discMsg:=by
  intro heq
  rw[heq]at hbase
  exact absurd hbase (by decide)
 have hge:¬c+rw.offset<baseProtocolLength:=by
  intro hlt
  have hlt':=UInt64.lt_iff_toNat_lt.1 hlt
  change _<16 at hlt'
  omega
 rw[handle,if_neg hping,if_neg hdisc,if_neg hge,getProto_wire h hfit hvisit hrw hcode]
 dsimp only
 rw[readMsg,UInt64.add_sub_cancel]

lemma delivers_of_laid(hsame:∀n,sender.lookup n=m.result.lookup n):Delivers sender m.result:=by
 intro visit hvisit n rw hlookup c hc
 rw[hsame]at hlookup
 refine⟨c+rw.offset,rw,?_,hlookup,?_⟩
 ·rw[writeMsg,if_neg (UInt64.not_le.2 hc)]
 exact handle_wire h hfit hvisit ((h.lookups n rw).1 hlookup).1 hc

end

/-- Where the codes run out, the first message of a protocol does not arrive. -/
lemma not_delivers_of_overrun(h:Laid protocols caps m won)(hover:2^64≤16+width won)
 (hsame:∀n,sender.lookup n=m.result.lookup n):¬Delivers sender m.result:=by
 intro hdelivers
 obtain⟨before,rw,after,rfl,hlt,hge⟩:=exists_overrun (by decide) hover
 have hoffset:rw.offset.toNat=16+width before:=Chained.offset_eq h.chained hlt
 have hlen:=rw.protocol.length.toNat_lt
 have hmem:rw∈before++rw::after:=by simp
 have hlookup:=(h.lookups rw.protocol.name rw).2 ⟨hmem,rfl⟩
 have hpos:0<rw.protocol.length:=UInt64.lt_iff_toNat_lt.2 (by
  rw[UInt64.toNat_zero]
  omega)
 obtain⟨code,rw',hwrite,hlookup',hhandle⟩:=
  hdelivers _ (Perm.refl _) rw.protocol.name rw ((hsame _).trans hlookup) 0 hpos
 obtain rfl:rw=rw':=some.inj (hlookup.symm.trans hlookup')
 rw[writeMsg,if_neg (UInt64.not_le.2 hpos),some_inj,UInt64.zero_add]at hwrite
 subst hwrite
 have hnot:¬rw.offset<rw.offset+rw.protocol.length:=by
  rw[UInt64.lt_iff_toNat_lt,UInt64.toNat_add]
  omega
 unfold handle at hhandle
 split_ifs at hhandle
 split at hhandle
 ·cases hhandle
 rename_i proto hproto
 obtain rfl:proto=rw:=(Handling.deliver.inj hhandle).1
 unfold getProto at hproto
 obtain⟨e,hfind,he⟩:=map_eq_some_iff.1 hproto
 have hin:=find?_some hfind
 rw[decide_eq_true_iff,he]at hin
 exact hnot hin.2

end Delivery

variable [LinearOrder Name] {a b:List (Protocol Name)} {capsA capsB:List (Cap Name)}

/-- What the two ends agree on: the protocols, their highest common versions and offsets; the
ranges of codes are disjoint and fill an interval from 16 on; messages arrive in both
directions. -/
structure CodesAgree (a b:List (Protocol Name)) (capsA capsB:List (Cap Name)):Prop where
 same:∀n,(matchProtocols a capsB).lookup n=(matchProtocols b capsA).lookup n
 highest:∀n rw,(matchProtocols a capsB).lookup n=some rw →
  rw.protocol.name=n ∧ IsGreatest (commonVersions a b n) rw.protocol.version
 selected:∀n,(commonVersions a b n).Nonempty→∃rw,(matchProtocols a capsB).lookup n=some rw
 disjoint:∀n n' rw rw',(matchProtocols a capsB).lookup n=some rw →
  (matchProtocols a capsB).lookup n'=some rw'→n≠n'→Disjoint (codes rw) (codes rw')
 contiguous:∃top,{code | ∃n rw,(matchProtocols a capsB).lookup n=some rw ∧
  code∈codes rw} = Set.Ico 16 top
 forth:Delivers (matchProtocols a capsB) (matchProtocols b capsA)
 back:Delivers (matchProtocols b capsA) (matchProtocols a capsB)

/-- Both sides end with the same entries, in the same ranges. -/
lemma exists_same_laid(ha:Announces a capsA)(hb:Announces b capsB)
 (hlen:SameLengths a b):∃offset offset' won,
  Laid a (sortCaps capsB) ⟨offset,matchProtocols a capsB⟩ won∧
  Laid b (sortCaps capsA) ⟨offset',matchProtocols b capsA⟩ won∧
  ∀n,(matchProtocols a capsB).lookup n=(matchProtocols b capsA).lookup n:=by
 obtain⟨offset,won,h⟩:=exists_laid a capsB
 obtain⟨offset',won',h'⟩:=exists_laid b capsA
 obtain rfl:=won_eq ha hb hlen h h'
 refine⟨offset,offset',won,h,h',fun n=>?_⟩
 apply Option.ext
 intro rw
 exact (h.lookups n rw).trans (h'.lookups n rw).symm

lemma not_codesAgree(ha:Announces a capsA)(hb:Announces b capsB)(hlen:SameLengths a b)
 (hover:2^64≤16+codeCount (agreed a capsB)):¬CodesAgree a b capsA capsB:=by
 obtain⟨_,_,won,h,h',hsame⟩:=exists_same_laid ha hb hlen
 rw[←width_won hlen h]at hover
 exact fun hagree=>not_delivers_of_overrun h' hover hsame hagree.forth

/-- The two ends agree on message codes if and only if the codes of the selected protocols,
after the sixteen of the base protocol, fit into 64 bits. -/
theorem codes_agree_iff (ha : Announces a capsA) (hb : Announces b capsB)
    (hlen : SameLengths a b) :
    CodesAgree a b capsA capsB ↔ 16 + codeCount (agreed a capsB) < 2 ^ 64 := by
 constructor
 · intro hagree
   by_contra hover
   exact not_codesAgree ha hb hlen (not_lt.1 hover) hagree
 intro hfit
 obtain⟨_,_,won,h,h',hsame⟩:=exists_same_laid ha hb hlen
 rw[←width_won hlen h] at hfit
 refine⟨hsame,?_,?_,?_,⟨16+width won,?_⟩,delivers_of_laid h' hfit hsame,
  delivers_of_laid h hfit (fun n=>(hsame n).symm)⟩
 · intro n rw hlookup
   obtain⟨hrw,rfl⟩:=(h.lookups n rw).1 hlookup
   exact⟨rfl,highest_won hb h hrw⟩
 · rintro n ⟨v,hv⟩
   obtain⟨rw,hrw,hname⟩:=h.covered ⟨n,v⟩ ((common_iff hb).2 hv)
   exact⟨rw,(h.lookups n rw).2 ⟨hrw,hname⟩⟩
 · intro n n' rw rw' hlookup hlookup' hne
   obtain⟨hrw,rfl⟩:=(h.lookups n rw).1 hlookup
   obtain⟨hrw',rfl⟩:=(h.lookups n' rw').1 hlookup'
   refine Chained.disjoint_of_ne h.chained hfit hrw hrw' ?_
   rintro rfl
   exact hne rfl
 ext code
 rw[Set.mem_Ico]
 refine Iff.trans ?_ (Chained.cover h.chained hfit code)
 constructor
 · rintro⟨n,rw,hlookup,hcode⟩
   exact⟨rw,((h.lookups n rw).1 hlookup).1,hcode⟩
 rintro⟨rw,hrw,hcode⟩
 exact⟨_,rw,(h.lookups _ rw).2 ⟨hrw,rfl⟩,hcode⟩

/-- The lists of two nodes with names as numbers: `eth` is 1, `shh` is 2. -/
def olderNode:List (Protocol ℕ):=[⟨1,61,9⟩,⟨1,62,8⟩,⟨2,2,4⟩]
def newerNode:List (Protocol ℕ):=[⟨1,63,17⟩,⟨1,62,8⟩,⟨1,61,9⟩]

theorem codes_agree_olderNode :
    CodesAgree olderNode newerNode (olderNode.map Protocol.cap) (newerNode.map Protocol.cap) :=
 (codes_agree_iff (announces_map olderNode) (announces_map newerNode) (by
  unfold SameLengths
  decide)).2 (by decide)

/-- A node with one protocol that uses all the codes there are. -/
def greedyNode:List (Protocol ℕ):=[⟨1,1,2^64-16⟩]

theorem codes_disagree_greedyNode :
    Announces greedyNode (greedyNode.map Protocol.cap) ∧ SameLengths greedyNode greedyNode ∧
      ¬CodesAgree greedyNode greedyNode (greedyNode.map Protocol.cap)
        (greedyNode.map Protocol.cap) := by
 have hlen:SameLengths greedyNode greedyNode:=by
  unfold SameLengths
  decide +kernel
 exact⟨announces_map greedyNode,hlen,not_codesAgree (announces_map greedyNode)
  (announces_map greedyNode) hlen (by decide +kernel)⟩

end GoCoupe.ProtocolAgreement
