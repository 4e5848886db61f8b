import GoCoupe.HeaderValidation
import Mathlib.Data.List.Pairwise
import Mathlib.Logic.Relation
import Mathlib.Tactic.Linarith

/-!
# Uncles are rewarded once

`VerifyUncles` looks at seven ancestors only, and an uncle lies at most six numbers below the
block that includes it. A block that holds the same uncle, and the chain block of its number,
are then among the seven as well.
-/

namespace GoCoupe.UncleRewards

open HeaderValidation List Function

variable (hash:Header→Hash) (verify:Header→Bool)

section Chains

/-- Blocks accepted one after the other, the last accepted first. Each was checked against
the database of its time, which holds the blocks below it, but no parent of the first. -/
inductive AcceptedChain:List Block→Prop
 | genesis (g:Block) (huncles:g.uncles=[]):AcceptedChain [g]
 | grow {block parent:Block} {chain:List Block} (h:AcceptedChain (parent::chain))
  (getBlock:Hash→Option Block) (now minimum minimum':ℤ)
  (hstored:∀b∈parent::chain,getBlock (hash b.header)=some b)
  (hroot:∀g∈(parent::chain).getLast?,getBlock g.header.parentHash=none)
  (hparent:block.header.parentHash=hash parent.header)
  (hheader:(validateHeader hash verify now block.header parent.header false false
   minimum).1=.ok ())
  (huncles:(verifyUncles hash verify getBlock now block parent minimum').1=.ok ()) :
  AcceptedChain (block::parent::chain)

/-- The hash of a header depends on that of its parent, and that of a block on those of its
uncles. -/
def Refers (chain:List Block) (h h':Hash):Prop:=
 (∃b∈chain,∃x∈b.header::b.uncles,hash x=h ∧ x.parentHash=h') ∨
  ∃b∈chain,hash b.header=h ∧ ∃u∈b.uncles,hash u=h'

def Acyclic (chain:List Block):Prop:=∀h,¬Relation.TransGen (Refers hash chain) h h

variable {hash verify}

variable {b:Block} {chain:List Block} {checkPow:Bool} {header parent:Header}

lemma Acyclic.tail(h:Acyclic hash (b::chain)):Acyclic hash chain:=by
 intro x hx
 refine h x (Relation.TransGen.mono (fun p q hpq=>?_) _ _ hx)
 rcases hpq with⟨c,hc,rest⟩|⟨c,hc,rest⟩
 ·exact .inl ⟨c,mem_cons_of_mem b hc,rest⟩
 exact .inr ⟨c,mem_cons_of_mem b hc,rest⟩

/-- No uncle is a child of the block that includes it. -/
lemma Acyclic.parent_ne(h:Acyclic hash chain)(hb:b∈chain)(hu:u∈b.uncles):u.parentHash≠hash b.header:=by
 intro heq
 have hdown:Refers hash chain (hash b.header) (hash u):=.inr ⟨b,hb,rfl,u,hu,rfl⟩
 have hup:Refers hash chain (hash u) (hash b.header):=.inl ⟨b,hb,u,mem_cons_of_mem _ hu,rfl,heq⟩
 exact h _ ((Relation.TransGen.single hdown).tail hup)

lemma validateRest_number(h:validateRest hash verify header parent checkPow=.ok ()):
 header.number=parent.number+1:=by
 rw[validateRest]at h
 split_ifs at h
 omega

lemma validateHeader_number{minimum:ℤ}
 (h:(validateHeader hash verify now header parent checkPow uncle minimum).1=.ok ()):
 header.number=parent.number+1:=by
 rw[validateHeader]at h
 split_ifs at h
 dsimp only at h
 split_ifs at h
 exact validateRest_number h

def Below (hash:Header→Hash) (block parent:Block):Prop:=
 block.header.parentHash=hash parent.header ∧ block.header.number=parent.header.number+1

lemma AcceptedChain.isChain(h:AcceptedChain hash verify chain):chain.IsChain (Below hash):=by
 induction h with
 | genesis g huncles=>simp
 | grow h getBlock now minimum minimum' hstored hroot hparent hheader huncles ih=>
  exact .cons_cons ⟨hparent,validateHeader_number hheader⟩ ih

lemma getBlocksFromHash_eq(h:(b::chain).IsChain (Below hash))
 (hstored:∀c∈b::chain,getBlock (hash c.header)=some c)
 (hroot:∀g∈(b::chain).getLast?,getBlock g.header.parentHash=none)(n:ℕ):
 getBlocksFromHash getBlock n (hash b.header)=(b::chain).take n:=by
 induction chain generalizing b n with
 | nil=>
  cases n with
  | zero=>rfl
  | succ n=>
   rw[getBlocksFromHash,hstored b mem_cons_self,take_succ_cons]
   cases n with
   | zero=>rfl
   | succ n=>
    dsimp only
    rw[getBlocksFromHash,hroot b rfl,take_nil]
 | cons p chain ih=>
  cases n with
  | zero=>rfl
  | succ n=>
   obtain⟨⟨hparent,-⟩,htail⟩:=isChain_cons_cons.1 h
   rw[getBlocksFromHash,hstored b mem_cons_self,take_succ_cons]
   dsimp only
   rw[hparent,ih htail (fun c hc=>hstored c (mem_cons_of_mem b hc))
    (fun g hg=>hroot g (by rwa[getLast?_cons_cons]))]

lemma number_le_head(h:(b::chain).IsChain (Below hash))(hc:c∈chain):
 c.header.number<b.header.number:=by
 induction chain generalizing b with
 | nil=>simp at hc
 | cons p chain ih=>
  obtain⟨⟨-,hnum⟩,htail⟩:=isChain_cons_cons.1 h
  rcases mem_cons.1 hc with rfl|hc
  ·omega
  have:=ih htail hc
  omega

/-- The first `n` blocks are those whose number is less than `n` below that of the head. -/
lemma mem_take_iff(h:(b::chain).IsChain (Below hash))(hc:c∈b::chain)(n:ℕ):
 c∈(b::chain).take n↔b.header.number<c.header.number+n:=by
 induction chain generalizing b n with
 | nil=>
  obtain rfl:c=b:=by simpa using hc
  cases n<;>simp
 | cons p chain ih=>
  obtain⟨⟨-,hnum⟩,htail⟩:=isChain_cons_cons.1 h
  cases n with
  | zero=>
   rcases mem_cons.1 hc with rfl|hc'
   ·simp
   have:=number_le_head h hc'
   simp
   omega
  | succ n=>
   rw[take_succ_cons,mem_cons]
   rcases mem_cons.1 hc with rfl|hc'
   ·simp
   have hlt:=number_le_head h hc'
   rw[ih htail hc' n]
   constructor
   ·rintro (rfl|hin)
    ·omega
    push_cast
    omega
   intro hin
   push_cast at hin
   right
   omega

end Chains

section Verification

variable {hash verify}

variable {blocks:List Block} {minimum:ℤ}

lemma addAncestors_eq_some
 (hp:addAncestors hash blocks m h=some p):(p∈blocks∧hash p.header=h)∨m h=some p:=by
 induction blocks generalizing m with
 | nil=>exact .inr hp
 | cons b blocks ih=>
  rcases ih hp with⟨hmem,heq⟩|hm
  ·exact .inl ⟨mem_cons_of_mem b hmem,heq⟩
  dsimp only at hm
  rw[update_apply]at hm
  split at hm
  ·rename_i heq
   obtain rfl:=Option.some.inj hm
   exact .inl ⟨mem_cons_self,heq.symm⟩
  exact .inr hm

lemma addAncestors_isSome(m:Hash→Option Block)(hb:b∈blocks∨(m (hash b.header)).isSome):
 (addAncestors hash blocks m (hash b.header)).isSome:=by
 induction blocks generalizing m with
 | nil=>simpa[addAncestors]using hb
 | cons c blocks ih=>
  refine ih _ ?_
  rcases hb with hb|hb
  ·rcases mem_cons.1 hb with rfl|hb
   ·exact .inr (by simp)
   exact .inl hb
  refine .inr ?_
  dsimp only
  rw[update_apply]
  split
  ·rfl
  exact hb

variable (hash) in
structure Checked (ancestors:Hash→Option Block) (parent:Header) (seen:List Hash)
 (u:Header):Prop where
 fresh:hash u∉seen
 notAncestor:ancestors (hash u)=none
 parent:∃p,ancestors u.parentHash=some p ∧ u.parentHash≠hash parent ∧ u.number=p.header.number+1

variable (hash verify) in
/-- The headers are valid one after the other, from the given minimum on. -/
def HeadersValid (ancestors:Hash→Option Block) (now:ℤ):List Header→ℤ→Prop
 | [],_=>True
 | u::uncles,minimum=>∃p,ancestors u.parentHash=some p ∧
  (validateHeader hash verify now u p.header true true minimum).1=.ok () ∧
  HeadersValid ancestors now uncles (validateHeader hash verify now u p.header true true minimum).2

variable {ancestors:Hash→Option Block} {now:ℤ} {parent:Header} {i:ℕ}
 {uncles:List Header} {seen:List Hash}

lemma HeadersValid.number(h:HeadersValid hash verify ancestors now uncles minimum)
 (hu:u∈uncles):∃p,ancestors u.parentHash=some p∧u.number=p.header.number+1:=by
 induction uncles generalizing minimum with
 | nil=>cases hu
 | cons w uncles ih=>
  obtain⟨p,hp,hval,hrest⟩:=h
  obtain rfl|hu:=mem_cons.1 hu
  ·exact⟨p,hp,validateHeader_number hval⟩
  exact ih hrest hu

lemma verifyUnclesFrom_ok_iff:
 (verifyUnclesFrom hash verify ancestors now parent i uncles seen minimum).1=.ok ()↔
  (∀u∈uncles,hash u∉seen∧ancestors (hash u)=none∧u.parentHash≠hash parent)∧
   (uncles.map hash).Nodup∧HeadersValid hash verify ancestors now uncles minimum:=by
 induction uncles generalizing i seen minimum with
 | nil=>simp[verifyUnclesFrom,HeadersValid]
 | cons u uncles ih=>
  rw[verifyUnclesFrom,HeadersValid,forall_mem_cons,map_cons,nodup_cons]
  by_cases hseen:hash u∈seen
  ·simp[hseen]
  by_cases hanc:ancestors (hash u)=none
  case neg=>simp[hseen,hanc,Option.isSome_iff_ne_none]
  cases hp:ancestors u.parentHash with
  | none=>simp[hseen,hanc]
  | some p=>
   by_cases hparent:u.parentHash=hash parent
   ·simp[hseen,hanc,hparent]
   rcases hval:validateHeader hash verify now u p.header true true minimum with⟨_ | _,m⟩
   ·simp[hseen,hanc,hparent,hval]
   simp[hseen,hanc,hparent,hval,ih]
   grind

lemma verifyUnclesFrom_ok
 (h:(verifyUnclesFrom hash verify ancestors now parent i uncles seen minimum).1=.ok ()):
 (∀u∈uncles,Checked hash ancestors parent seen u)∧(uncles.map hash).Nodup:=by
 obtain⟨hall,hnodup,hvalid⟩:=verifyUnclesFrom_ok_iff.1 h
 refine⟨fun u hu=>?_,hnodup⟩
 obtain⟨hseen,hanc,hparent⟩:=hall u hu
 obtain⟨p,hp,hnum⟩:=hvalid.number hu
 exact⟨hseen,hanc,p,hp,hparent,hnum⟩

structure Within (block:Block) (chain:List Block) (u:Header):Prop where
 low:block.header.number≤u.number+6
 high:u.number<block.header.number
 notBlock:∀b∈chain,u≠b.header
 notUncle:∀b∈chain,block.header.number≤b.header.number+7→u∉b.uncles

lemma verifyUncles_ok{block parent:Block}
 {chain:List Block}(hchain:(block::parent::chain).IsChain (Below hash))
 (hstored:∀b∈parent::chain,getBlock (hash b.header)=some b)
 (hroot:∀g∈(parent::chain).getLast?,getBlock g.header.parentHash=none)
 (hcycle:∀u∈block.uncles,u.parentHash≠hash block.header)
 (h:(verifyUncles hash verify getBlock now block parent minimum).1=.ok ()):
 (∀u∈block.uncles,Within block (parent::chain) u)∧block.uncles.Nodup:=by
 obtain⟨⟨hparent,hnumber⟩,htail⟩:=isChain_cons_cons.1 hchain
 rw[verifyUncles]at h
 split_ifs at h
 dsimp only at h
 rw[hparent,getBlocksFromHash_eq htail hstored hroot 7]at h
 obtain⟨hchecked,hnodup⟩:=verifyUnclesFrom_ok h
 refine⟨fun u hu=>?_,hnodup.of_map hash⟩
 obtain⟨hfresh,hnot,p,hp,hne,hnum⟩:=hchecked u hu
 rw[mem_append,not_or]at hfresh
 obtain⟨hmem,heq⟩:p∈(parent::chain).take 7∧hash p.header=u.parentHash:=by
  rcases addAncestors_eq_some hp with⟨hmem,heq⟩|hnone
  ·rcases mem_append.1 hmem with hmem|hmem
   ·exact⟨hmem,heq⟩
   obtain rfl:p=block:=by simpa using hmem
   exact absurd heq.symm (hcycle u hu)
  simp at hnone
 have hpmem:=mem_of_mem_take hmem
 have hlow:=(mem_take_iff htail hpmem 7).1 hmem
 have hhigh:p.header.number<parent.header.number:=by
  rcases mem_cons.1 hpmem with rfl|hp'
  ·exact absurd heq.symm hne
  exact number_le_head htail hp'
 push_cast at hlow
 refine⟨by omega,by omega,fun b hb hub=>?_,fun b hb hnear hub=>?_⟩
 ·have hbtake:b∈(parent::chain).take 7:=by
   rw[mem_take_iff htail hb,←hub]
   push_cast
   omega
  have hsome:(addAncestors hash ((parent::chain).take 7++[block]) (fun _=>none)
   (hash b.header)).isSome:=
   addAncestors_isSome _ (.inl (mem_append_left [block] hbtake))
  rw[←hub,hnot]at hsome
  simp at hsome
 have hbtake:b∈(parent::chain).take 7:=by
  rw[mem_take_iff htail hb]
  push_cast
  omega
 exact hfresh.1 (mem_flatMap.2 ⟨b,hbtake,List.mem_map_of_mem hub⟩)

end Verification

variable {hash verify}

lemma mem_accumulateRewardsFrom(h:p∈(accumulateRewardsFrom header uncles reward).dropLast):
 ∃u∈uncles,p=(u.coinbase,(u.number+8-header.number)*blockReward/8):=by
 induction uncles generalizing reward with
 | nil=>simp[accumulateRewardsFrom]at h
 | cons u uncles ih=>
  have hne:accumulateRewardsFrom header uncles (reward+blockReward/32)≠[]:=by
   cases uncles<;>simp[accumulateRewardsFrom]
  rw[accumulateRewardsFrom,dropLast_cons_of_ne_nil hne]at h
  rcases mem_cons.1 h with rfl|h
  ·exact⟨u,mem_cons_self,rfl⟩
  obtain⟨w,hw,rfl⟩:=ih h
  exact⟨w,mem_cons_of_mem u hw,rfl⟩

/-- Between two and seven eighths of the block reward. -/
lemma reward_bounds{u:Header}(hlow:number-6≤u.number)(hhigh:u.number≤number-1):
 2*blockReward≤8*((u.number+8-number)*blockReward/8)∧
  8*((u.number+8-number)*blockReward/8)≤7*blockReward:=by
 rw[blockReward]
 omega

lemma AcceptedChain.uncles{chain:List Block}(h:AcceptedChain hash verify chain)
 (hcycles:Acyclic hash chain):
 chain.Pairwise (fun b c=>∀u∈b.uncles,u∉c.uncles)∧
  ∀b∈chain,b.uncles.Nodup∧∀u∈b.uncles,(∀c∈chain,u≠c.header)∧
   b.header.number-6≤u.number∧u.number≤b.header.number-1:=by
 induction h with
 | genesis g huncles=>simp[huncles]
 | @grow block parent chain h getBlock now minimum minimum' hstored hroot hparent hheader
  huncles ih =>
  obtain⟨hdisjoint,hbelow⟩:=ih hcycles.tail
  have hchain:=(AcceptedChain.grow h getBlock now minimum minimum' hstored hroot hparent
   hheader huncles).isChain
  obtain⟨hwithin,hnodup⟩:=verifyUncles_ok hchain hstored hroot
   (fun u hu=>hcycles.parent_ne mem_cons_self hu) huncles
  refine⟨pairwise_cons.2 ⟨fun c hc u hu huc=>?_,hdisjoint⟩,
   forall_mem_cons.2 ⟨⟨hnodup,fun u hu=>?_⟩,fun b hb=>?_⟩⟩
  ·have hlow:=(hwithin u hu).low
   have hhigh:=((hbelow c hc).2 u huc).2.2
   exact (hwithin u hu).notUncle c hc (by omega) huc
  ·have hlow:=(hwithin u hu).low
   have hhigh:=(hwithin u hu).high
   refine⟨forall_mem_cons.2 ⟨?_,(hwithin u hu).notBlock⟩,by omega,by omega⟩
   rintro rfl
   omega
  obtain⟨hnodup',hold⟩:=hbelow b hb
  refine⟨hnodup',fun u hu=>?_⟩
  obtain⟨hnot,hlow,hhigh⟩:=hold u hu
  have hb':=number_le_head hchain hb
  refine⟨forall_mem_cons.2 ⟨?_,hnot⟩,hlow,hhigh⟩
  rintro rfl
  omega

/-- No uncle is included twice, none is a block of the chain, each is between one and six
numbers below its block, and its reward between two and seven eighths of a block reward. -/
theorem uncles_rewarded_once {chain : List Block} (h : AcceptedChain hash verify chain)
    (hcycles : Acyclic hash chain) :
    chain.Pairwise (fun b c => ∀ u ∈ b.uncles, u ∉ c.uncles) ∧
      ∀ b ∈ chain, b.uncles.Nodup ∧
        (∀ u ∈ b.uncles, (∀ c ∈ chain, u ≠ c.header) ∧
          b.header.number - 6 ≤ u.number ∧ u.number ≤ b.header.number - 1) ∧
        ∀ p ∈ (accumulateRewards b.header b.uncles).dropLast,
          2 * blockReward ≤ 8 * p.2 ∧ 8 * p.2 ≤ 7 * blockReward := by
 obtain⟨hdisjoint,hall⟩:=h.uncles hcycles
 refine⟨hdisjoint,fun b hb=>?_⟩
 obtain⟨hnodup,huncles⟩:=hall b hb
 refine⟨hnodup,huncles,fun p hp=>?_⟩
 obtain⟨u,hu,rfl⟩:=mem_accumulateRewardsFrom hp
 obtain⟨-,hlow,hhigh⟩:=huncles u hu
 exact reward_bounds hlow hhigh

/-- A header of the example below, told apart by `rest`, which is also its hash. -/
def sampleHeader (parent number difficulty time rest:ℕ):Header:=
 ⟨Fin.ofNat _ parent,0,difficulty,number,5000,time,[],rest⟩

def sampleHash (h:Header):Hash:=Fin.ofNat _ h.rest

/-- Three blocks, the last of them with a child of the first as its uncle. -/
def sampleChain:List Block:=
 [⟨sampleHeader 2 2 131200 2 4,[sampleHeader 1 1 131136 1 3]⟩,
  ⟨sampleHeader 1 1 131136 1 2,[]⟩,⟨sampleHeader 0 0 131072 0 1,[]⟩]

def sampleStore (h:Hash):Option Block:=sampleChain.find? fun b=>sampleHash b.header=h

lemma sampleChain_accepted:AcceptedChain sampleHash (fun _=>true) sampleChain:=by
 have hroot:sampleStore (Fin.ofNat _ 0)=none:=by decide +kernel
 refine .grow (.grow (.genesis _ rfl) sampleStore 2 minimumDifficulty minimumDifficulty
  (by decide +kernel) (by rintro g ⟨⟩;exact hroot) rfl (by decide +kernel) (by decide +kernel))
  sampleStore 2 minimumDifficulty minimumDifficulty
  (by decide +kernel) (by rintro g ⟨⟩;exact hroot) rfl (by decide +kernel) (by decide +kernel)

lemma sampleChain_acyclic:Acyclic sampleHash sampleChain:=by
 have hfall:∀h h',Refers sampleHash sampleChain h h'→h'<h:=by
  rintro h h' (⟨b,hb,x,hx,rfl,rfl⟩|⟨b,hb,rfl,u,hu,rfl⟩)
  ·revert x
   revert b
   decide +kernel
  revert u
  revert b
  decide +kernel
 intro h hloop
 have hlt:∀h',Relation.TransGen (Refers sampleHash sampleChain) h h'→h'<h:=by
  intro h' hpath
  induction hpath with
  | single hstep=>exact hfall _ _ hstep
  | tail _ hstep ih=>exact (hfall _ _ hstep).trans ih
 exact lt_irrefl h (hlt h hloop)

theorem uncles_rewarded_once_sample :
    sampleChain.Pairwise (fun b c => ∀ u ∈ b.uncles, u ∉ c.uncles) ∧
      ∀ b ∈ sampleChain, b.uncles.Nodup ∧
        (∀ u ∈ b.uncles, (∀ c ∈ sampleChain, u ≠ c.header) ∧
          b.header.number - 6 ≤ u.number ∧ u.number ≤ b.header.number - 1) ∧
        ∀ p ∈ (accumulateRewards b.header b.uncles).dropLast,
          2 * blockReward ≤ 8 * p.2 ∧ 8 * p.2 ≤ 7 * blockReward :=
 uncles_rewarded_once sampleChain_accepted sampleChain_acyclic

/-- What the rewards for a block add to the balances. -/
def paid:List (Address × ℤ)→ℤ
 | []=>0
 | p::ps=>p.2+paid ps

/-- What a chain has paid. -/
def issued:List Block→ℤ
 | []=>0
 | b::chain=>paid (accumulateRewards b.header b.uncles)+issued chain

lemma paid_accumulateRewardsFrom{header:Header}{uncles:List Header}
 (h:∀u∈uncles,header.number-6≤u.number∧u.number≤header.number-1)(reward:ℤ):
 reward+uncles.length*(9*blockReward/32)≤paid (accumulateRewardsFrom header uncles reward)∧
 paid (accumulateRewardsFrom header uncles reward)≤reward+uncles.length*(29*blockReward/32):=by
 induction uncles generalizing reward with
 | nil=>simp[accumulateRewardsFrom,paid]
 | cons u uncles ih=>
  obtain⟨hu,huncles⟩:=forall_mem_cons.1 h
  have hrest:=ih huncles (reward+blockReward/32)
  have hu:=reward_bounds hu.1 hu.2
  rw[accumulateRewardsFrom,paid,length_cons]
  generalize paid (accumulateRewardsFrom header uncles (reward+blockReward/32))=rest at hrest ⊢
  simp only[blockReward]at hrest hu ⊢
  push_cast
  omega

lemma AcceptedChain.length_uncles(h:AcceptedChain hash verify chain):∀b∈chain,b.uncles.length≤2:=by
 induction h with
 | genesis g huncles=>simp[huncles]
 | grow h getBlock now minimum minimum' hstored hroot hparent hheader huncles ih=>
  refine forall_mem_cons.2 ⟨?_,ih⟩
  rw[verifyUncles]at huncles
  split_ifs at huncles
  omega

lemma issued_bounds(h:∀b∈chain,b.uncles.length≤2∧∀u∈b.uncles,b.header.number-6≤u.number∧
 u.number≤b.header.number-1):chain.length*blockReward≤ issued chain∧
 16*issued chain≤chain.length*(45*blockReward):=by
 induction chain with
 | nil=>simp[issued]
 | cons b chain ih=>
  obtain⟨⟨htwo,hb⟩,hchain⟩:=forall_mem_cons.1 h
  have hpaid:=paid_accumulateRewardsFrom hb blockReward
  have hrest:=ih hchain
  rw[issued,accumulateRewards,length_cons]
  generalize paid (accumulateRewardsFrom b.header b.uncles blockReward)=p at hpaid ⊢
  simp only[blockReward]at hpaid hrest ⊢
  push_cast
  omega

/-- Every block above the first pays between one and 45/16 block rewards, uncles included. -/
theorem issuance_bounded {chain : List Block} (h : AcceptedChain hash verify chain)
    (hcycles : Acyclic hash chain) :
    chain.dropLast.length * blockReward ≤ issued chain.dropLast ∧
      16 * issued chain.dropLast ≤ chain.dropLast.length * (45 * blockReward) := by
 have huncles:=(h.uncles hcycles).2
 refine issued_bounds (fun b hb=>?_)
 have hb:=mem_of_mem_dropLast hb
 exact⟨h.length_uncles b hb,fun u hu=>((huncles b hb).2 u hu).2⟩

theorem issuance_bounded_sample :
    sampleChain.dropLast.length * blockReward ≤ issued sampleChain.dropLast ∧
      16 * issued sampleChain.dropLast ≤ sampleChain.dropLast.length * (45 * blockReward) :=
 issuance_bounded sampleChain_accepted sampleChain_acyclic

end GoCoupe.UncleRewards
