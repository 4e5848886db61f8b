import GoCoupe.MapIteration
import Mathlib.Data.List.Sort
import Mathlib.Data.UInt
import Mathlib.Order.Basic

/-!
# Matching protocols with a peer

`matchProtocols`, `getProto` and `protoRW` of `p2p/peer.go`. Every protocol name gets a range
of message codes; a higher version takes the place of a lower one. Of names only the order is
used.
-/

namespace GoCoupe.ProtocolMatching
open MapIteration List

def baseProtocolLength:UInt64:=16
def discMsg:UInt64:=1
def pingMsg:UInt64:=2

structure Cap (Name:Type) where
 name:Name
 version:ℕ
 deriving DecidableEq,Repr

structure Protocol (Name:Type) where
 name:Name
 version:ℕ
 length:UInt64
 deriving DecidableEq,Repr

def Protocol.cap {Name:Type} (p:Protocol Name):Cap Name:=⟨p.name,p.version⟩

structure ProtoRW (Name:Type) where
 protocol:Protocol Name
 offset:UInt64
 deriving DecidableEq,Repr

section Model

variable {Name:Type} [LinearOrder Name]

def Cap.less (a b:Cap Name):Bool:=a.name<b.name ∨ (a.name=b.name ∧ a.version<b.version)

/-- Capabilities that neither precede the other are equal, so that every sorting algorithm
gives this list. -/
def sortCaps (caps:List (Cap Name)):List (Cap Name):=caps.mergeSort (fun a b=>!b.less a)

structure Matching (Name:Type) where
 offset:UInt64
 result:GoMap Name (ProtoRW Name)

/-- The offset for a new match, with an older match of the name taken back. -/
def revert (m:Matching Name) (name:Name):UInt64:=
 match m.result.lookup name with
 | some old=>m.offset-old.protocol.length
 | none=>m.offset

def matchCap (protocols:List (Protocol Name)) (m:Matching Name) (cap:Cap Name):Matching Name:=
 match protocols.find? (fun proto=>proto.name=cap.name ∧ proto.version=cap.version) with
 | none=>m
 | some proto=>
  ⟨revert m cap.name+proto.length,m.result.insert cap.name ⟨proto,revert m cap.name⟩⟩

def matchProtocols (protocols:List (Protocol Name)) (caps:List (Cap Name)):GoMap Name (ProtoRW Name):=
 ((sortCaps caps).foldl (matchCap protocols) ⟨baseProtocolLength,∅⟩).result

/-- `protoRW.WriteMsg`: the code on the wire, unless the code is not one of the protocol. -/
def writeMsg (rw:ProtoRW Name) (code:UInt64):Option UInt64:=
 if code≥rw.protocol.length then none else some (code+rw.offset)

def readMsg (rw:ProtoRW Name) (code:UInt64):UInt64:=code-rw.offset

/-- `getProto`, with the order in which the running protocols are visited. -/
def getProto (visit:List (Σ _:Name,ProtoRW Name)) (code:UInt64):Option (ProtoRW Name):=
 (visit.find? (fun e=>code≥e.2.offset ∧ code<e.2.offset+e.2.protocol.length)).map
  Sigma.snd

inductive Handling (Name:Type) where
 | pong
 | disconnect
 | discard
 | outOfRange
 | deliver (proto:ProtoRW Name) (code:UInt64)
 deriving DecidableEq,Repr

/-- `Peer.handle`, followed by the protocol's `ReadMsg`. -/
def handle (visit:List (Σ _:Name,ProtoRW Name)) (code:UInt64):Handling Name:=
 if code=pingMsg then .pong
 else if code=discMsg then .disconnect
 else if code<baseProtocolLength then .discard
 else
  match getProto visit code with
  | none=>.outOfRange
  | some proto=>.deliver proto (readMsg proto code)

end Model

section Layout

variable {Name:Type}

/-- The ranges follow each other, from `o` to `e`. -/
def Chained:UInt64→List (ProtoRW Name)→UInt64→Prop
 | o,[],e=>e=o
 | o,rw::l,e=>rw.offset=o ∧ Chained (o+rw.protocol.length) l e

lemma chained_concat:Chained o (l++[rw]) e↔Chained o l rw.offset∧e=rw.offset+rw.protocol.length:=by
 induction l generalizing o with
 | nil=>
  constructor
  ·rintro⟨h,he⟩
   rw[h]
   exact⟨rfl,he⟩
  rintro⟨h,he⟩
  rw[h]at he
  exact⟨h,he⟩
 | cons x l ih=>
  rw[cons_append,Chained,Chained,ih,and_assoc]

/-- The ranges are determined by the protocols. -/
lemma Chained.unique(h:Chained o l e)
 (h':Chained o l' e')(hmap:l.map ProtoRW.protocol=l'.map ProtoRW.protocol):l=l':=by
 induction l generalizing o l' with
 | nil=>exact (map_eq_nil_iff.1 hmap.symm).symm
 | cons rw l ih=>
  cases l' with
  | nil=>cases hmap
  | cons rw' l'=>
   obtain⟨hhead,htail⟩:=List.cons.inj hmap
   have hrw:rw=rw':=by
    cases rw
    cases rw'
    cases hhead
    cases h.1
    cases h'.1
    rfl
   subst hrw
   rw[ih h.2 h'.2 htail]

end Layout

section Capabilities

variable {Name:Type} {protocols:List (Protocol Name)} {seen:List (Cap Name)} {cap:Cap Name}

/-- A capability among the given ones that the node has a protocol for. -/
def Common (protocols:List (Protocol Name)) (caps:List (Cap Name)) (cap:Cap Name):Prop:=
 cap∈caps ∧ ∃p∈protocols,p.cap=cap

lemma Common.of_append{c:Cap Name}(h:Common protocols (seen++[cap]) c):
 Common protocols seen c∨c=cap:=by
 rcases mem_append.1 h.1 with hs|hs
 ·exact .inl ⟨hs,h.2⟩
 exact .inr (mem_singleton.1 hs)

end Capabilities

variable {Name:Type} [LinearOrder Name] {protocols:List (Protocol Name)}
 {seen:List (Cap Name)} {m:Matching Name} {won:List (ProtoRW Name)} {cap:Cap Name}

/-- The loop's state after the capabilities `seen`: the entries `won` of the map, in the order of
their names, have one range after the other, and each has the highest version seen. -/
structure Laid (protocols:List (Protocol Name)) (seen:List (Cap Name)) (m:Matching Name)
 (won:List (ProtoRW Name)):Prop where
 lookups:∀n rw,m.result.lookup n=some rw ↔ rw∈won ∧ rw.protocol.name=n
 chained:Chained baseProtocolLength won m.offset
 increasing:won.Pairwise (fun a b=>a.protocol.name<b.protocol.name)
 known:∀rw∈won,rw.protocol∈protocols ∧ rw.protocol.cap∈seen
 highest:∀rw∈won,∀c,Common protocols seen c→c.name=rw.protocol.name→c.version≤rw.protocol.version
 covered:∀c,Common protocols seen c→∃rw∈won,rw.protocol.name=c.name

lemma laid_nil:Laid protocols [] ⟨baseProtocolLength,∅⟩ [] where
 lookups n rw:=by simp
 chained:=rfl
 increasing:=Pairwise.nil
 known:=nofun
 highest:=nofun
 covered c hc:=absurd hc.1 not_mem_nil

lemma Laid.skip(h:Laid protocols seen m won)(hno:∀p∈protocols,p.cap≠cap):
 Laid protocols (seen++[cap]) m won:=by
 have hcommon:∀c,Common protocols (seen++[cap]) c → Common protocols seen c:=by
  intro c hc
  rcases hc.of_append with hs|rfl
  ·exact hs
  obtain⟨p,hp,hcap⟩:=hc.2
  exact absurd hcap (hno p hp)
 exact {
  lookups:=h.lookups
  chained:=h.chained
  increasing:=h.increasing
  known:=fun rw hrw=>⟨(h.known rw hrw).1,mem_append_left _ (h.known rw hrw).2⟩
  highest:=fun rw hrw c hc=>h.highest rw hrw c (hcommon c hc)
  covered:=fun c hc=>h.covered c (hcommon c hc)}

section

variable (h:Laid protocols seen m won) (hlast:∀c∈seen,cap.less c=false)

include h hlast

/-- What is left when an older match of the name is taken back. -/
lemma Laid.revert:∃kept,Chained baseProtocolLength kept (revert m cap.name)∧
  kept.Pairwise (fun a b=>a.protocol.name<b.protocol.name)∧
  (∀rw∈kept,rw.protocol.name<cap.name)∧
  ∀rw,rw∈kept↔rw∈won∧rw.protocol.name≠cap.name:=by
 have hle:∀rw∈won,rw.protocol.name≤cap.name:=by
  intro rw hrw
  have hless:=hlast _ (h.known rw hrw).2
  rw[Cap.less,decide_eq_false_iff_not,not_or]at hless
  exact not_lt.1 hless.1
 unfold ProtocolMatching.revert
 cases hold:m.result.lookup cap.name with
 | none=>
  have hne:∀rw∈won,rw.protocol.name≠cap.name:=by
   intro rw hrw hname
   rw[(h.lookups cap.name rw).2 ⟨hrw,hname⟩]at hold
   cases hold
  exact⟨won,h.chained,h.increasing,fun rw hrw=>lt_of_le_of_ne (hle rw hrw) (hne rw hrw),
   fun rw=>⟨fun hrw=>⟨hrw,hne rw hrw⟩,And.left⟩⟩
 | some old=>
  obtain⟨hmem,hname⟩:=(h.lookups cap.name old).1 hold
  obtain⟨kept,after,rfl⟩:=append_of_mem hmem
  obtain⟨hkept,hafter,hbefore⟩:=pairwise_append.1 h.increasing
  have hend:after=[]:=by
   refine eq_nil_iff_forall_not_mem.2 (fun rw hrw=>?_)
   have hlt:=(pairwise_cons.1 hafter).1 rw hrw
   rw[hname]at hlt
   exact absurd (hle rw (by simp[hrw])) (not_le.2 hlt)
  subst hend
  have hlt:∀rw∈kept,rw.protocol.name<cap.name:=by
   intro rw hrw
   rw[←hname]
   exact hbefore rw hrw old (mem_singleton_self old)
  obtain⟨hchain,hoffset⟩:=chained_concat.1 h.chained
  refine⟨kept,?_,hkept,hlt,fun rw=>⟨fun hrw=>?_,fun hrw=>?_⟩⟩
  ·dsimp only
   rw[hoffset,UInt64.add_sub_cancel]
   exact hchain
  ·exact⟨mem_append_left _ hrw,(hlt rw hrw).ne⟩
  rcases mem_append.1 hrw.1 with hk|hk
  ·exact hk
  rw[mem_singleton]at hk
  exact absurd (hk▸hname) hrw.2

/-- The step for a capability that the node has the protocol of. -/
lemma Laid.assign(hmem:proto∈protocols)(hcap:proto.cap=cap):∃won',Laid protocols (seen++[cap])
  ⟨ProtocolMatching.revert m cap.name+proto.length,
   m.result.insert cap.name ⟨proto,ProtocolMatching.revert m cap.name⟩⟩ won':=by
 obtain⟨kept,hchain,hinc,hlt,hkept⟩:=h.revert hlast
 have hname:proto.name=cap.name:=congrArg Cap.name hcap
 have hversion:proto.version=cap.version:=congrArg Cap.version hcap
 refine⟨kept++[⟨proto,ProtocolMatching.revert m cap.name⟩],?_,?_,?_,?_,?_,?_⟩
 ·intro n rw
  by_cases hn:n=cap.name
  ·subst hn
   rw[AList.lookup_insert,mem_append,mem_singleton,Option.some_inj,or_and_right]
   constructor
   ·rintro rfl
    exact .inr ⟨rfl,hname⟩
   rintro (⟨hk,hne⟩|⟨rfl,-⟩)
   ·exact absurd hne (hlt rw hk).ne
   rfl
  rw[AList.lookup_insert_ne hn,h.lookups,mem_append,mem_singleton,hkept]
  constructor
  ·rintro⟨hw,rfl⟩
   exact⟨.inl ⟨hw,hn⟩,rfl⟩
  rintro⟨⟨hw,-⟩|rfl,hrw⟩
  ·exact⟨hw,hrw⟩
  exact absurd (hrw.symm.trans hname) hn
 ·exact chained_concat.2 ⟨hchain,rfl⟩
 ·refine pairwise_append.2 ⟨hinc,pairwise_singleton _ _,fun rw hrw rw' hrw'=>?_⟩
  rw[mem_singleton.1 hrw']
  exact (hlt rw hrw).trans_eq hname.symm
 ·intro rw hrw
  rcases mem_append.1 hrw with hk|hk
  ·obtain⟨hp,hs⟩:=h.known rw ((hkept rw).1 hk).1
   exact⟨hp,mem_append_left _ hs⟩
  rw[mem_singleton.1 hk]
  exact⟨hmem,mem_append_right _ (mem_singleton.2 hcap)⟩
 ·intro rw hrw c hc hcname
  rcases mem_append.1 hrw with hk|hk
  ·rcases hc.of_append with hs|rfl
   ·exact h.highest rw ((hkept rw).1 hk).1 c hs hcname
   exact absurd hcname.symm ((hkept rw).1 hk).2
  rw[mem_singleton.1 hk]at hcname ⊢
  rcases hc.of_append with hs|rfl
  ·have hless:=hlast c hs.1
   rw[Cap.less,decide_eq_false_iff_not,not_or,not_and]at hless
   have hle:=hless.2 (hname.symm.trans hcname.symm)
   change c.version≤proto.version
   omega
  exact hversion.ge
 intro c hc
 by_cases hn:c.name=cap.name
 ·exact⟨_,mem_append_right _ (mem_singleton_self _),hname.trans hn.symm⟩
 rcases hc.of_append with hs|rfl
 ·obtain⟨rw,hw,hrw⟩:=h.covered c hs
  exact⟨rw,mem_append_left _ ((hkept rw).2 ⟨hw,hrw▸hn⟩),hrw⟩
 exact absurd rfl hn

lemma Laid.matchCap:∃won',Laid protocols (seen++[cap]) (matchCap protocols m cap) won':=by
 unfold ProtocolMatching.matchCap
 split
 ·rename_i hnone
  refine⟨won,h.skip (fun p hp hcap=>?_)⟩
  have hno:=find?_eq_none.1 hnone p hp
  apply hno
  rw[←hcap]
  simp[Protocol.cap]
 rename_i proto hsome
 have hcap:=find?_some hsome
 rw[decide_eq_true_iff]at hcap
 refine h.assign hlast (mem_of_find?_eq_some hsome) ?_
 rw[Protocol.cap,hcap.1,hcap.2]

end

lemma Laid.foldl(caps:List (Cap Name))(h:Laid protocols seen m won)
 (hsorted:(seen++caps).Pairwise (fun a b=>b.less a=false)):
 ∃won',Laid protocols (seen++caps) (caps.foldl (ProtocolMatching.matchCap protocols) m)
  won':=by
 induction caps generalizing seen m won with
 | nil=>
  rw[append_nil]
  exact⟨won,h⟩
 | cons cap caps ih=>
  have hlast:∀c∈seen,cap.less c=false:=fun c hc=>
   (pairwise_append.1 hsorted).2.2 c hc cap mem_cons_self
  obtain⟨won',h'⟩:=h.matchCap hlast
  rw[append_cons]at hsorted ⊢
  exact ih h' hsorted

lemma Cap.less_eq_false_trans(a b c:Cap Name)(hab:b.less a=false)
 (hbc:c.less b=false):c.less a=false:=by
 simp only[Cap.less,decide_eq_false_iff_not,not_or,not_lt,not_and]at *
 refine⟨hab.1.trans hbc.1,fun hca=>?_⟩
 have hba:b.name=a.name:=le_antisymm (hbc.1.trans_eq hca) hab.1
 exact (hab.2 hba).trans (hbc.2 (hca.trans hba.symm))

lemma Cap.less_total(a b:Cap Name):b.less a=false∨a.less b=false:=by
 simp only[Cap.less,decide_eq_false_iff_not,not_or,not_lt,not_and]
 rcases lt_trichotomy a.name b.name with h|h|h
 ·exact .inl ⟨h.le,fun he=>absurd he h.ne'⟩
 ·rcases le_total a.version b.version with hv|hv
  ·exact .inl ⟨h.le,fun _=>hv⟩
  exact .inr ⟨h.ge,fun _=>hv⟩
 exact .inr ⟨h.le,fun he=>absurd he h.ne'⟩

lemma pairwise_sortCaps(caps:List (Cap Name)):(sortCaps caps).Pairwise (fun a b=>b.less a=false):=by
 have hsorted:=@pairwise_mergeSort (Cap Name) (fun a b=>!b.less a)
  (fun a b c hab hbc=>by
   simp only[Bool.not_eq_true']at *
   exact Cap.less_eq_false_trans a b c hab hbc)
  (fun a b=>by
   rw[Bool.or_eq_true,Bool.not_eq_true',Bool.not_eq_true']
   exact Cap.less_total a b)
  caps
 exact hsorted.imp (fun h=>by simpa using h)

lemma exists_laid(protocols:List (Protocol Name))(caps:List (Cap Name)):
 ∃offset won,Laid protocols (sortCaps caps) ⟨offset,matchProtocols protocols caps⟩ won:=by
 have hnil:Laid protocols [] ⟨baseProtocolLength,∅⟩ []:=laid_nil
 obtain⟨won,h⟩:=hnil.foldl (sortCaps caps) (pairwise_sortCaps caps)
 exact⟨_,won,h⟩

lemma mem_sortCaps{caps:List (Cap Name)}{c:Cap Name}:c∈sortCaps caps↔c∈caps:=
 (mergeSort_perm caps _).mem_iff

end GoCoupe.ProtocolMatching
