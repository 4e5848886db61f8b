import GoCoupe.BlockChainWrites

/-!
# Sequences of `WriteBlock` calls

Every block of a run has a stored parent and is numbered one above it, as header validation
demands. Every chain of a run is well formed, and every further call returns without an error.
-/

namespace GoCoupe.BlockChainRuns
open BlockChainModel BlockChainInvariants BlockChainWrites RecencyCaches Option

structure Write where
 pre:BlockChain
 block:Block
 status:WriteStatus
 post:BlockChain

variable (hash:Header→Hash) (U:Set Block)

structure IsWrite (w:Write):Prop where
 known:w.block∈U
 parent:∃p,Parent hash w.pre.chainDb p w.block
 result:∃err,w.pre.writeBlock hash w.block=some (w.post,w.status,err)

inductive Run (bc₀:BlockChain):List Write→BlockChain→Prop
 | nil:Run bc₀ [] bc₀
 | write {ws:List Write} {w:Write} (before:Run bc₀ ws w.pre) (hw:IsWrite hash U w) :
  Run bc₀ (ws++[w]) w.post

/-- The block outweighs the head, so that its write makes it canonical. -/
def Heavier (bc:BlockChain) (b:Block):Prop:=
 ∃ptd headTd,bc.chainDb.tds b.parentHash=some ptd ∧
  bc.chainDb.tds (hash bc.currentBlock.header)=some headTd ∧ headTd<b.difficulty+ptd

variable {hash U} {genesis:Block}

variable {w:Write} {b:Block} {bc bc₀:BlockChain} {ws:List Write}

/-- The two outcomes of a call, told apart by the weight of its block. -/
lemma IsWrite.outcome(hw:IsWrite hash U w)(hU:CollisionFree hash U)(hc:ChainOk hash U w.pre):
 ∃td,PathDifficulty hash w.pre.chainDb w.pre.genesisBlock w.block td∧
  ((¬Heavier hash w.pre w.block∧w.status=.sideStatTy∧
   (∀m,w.pre.chainDb.tds (hash w.pre.currentBlock.header)=some m→td ≤ m)∧
   SideWrite hash w.block td w.pre w.post)∨
   (Heavier hash w.pre w.block∧w.status=.canonStatTy∧
    (∀m,w.pre.chainDb.tds (hash w.pre.currentBlock.header)=some m→m<td)∧
    ∃a l k,CanonicalWrite hash w.block td a l k w.pre w.post)):=by
 obtain⟨p,hp⟩:=hw.parent
 obtain⟨err,hr⟩:=hw.result
 obtain⟨ptd,headTd,hptd,hhead,hd,h⟩:=writeBlock_cases hU hc hw.known hp
 refine⟨_,hd,?_⟩
 rcases h with⟨hle,bc',hr',hside⟩|⟨hlt,a,l,k,bc',hr',hcan⟩
 ·obtain⟨hpost,hstatus,-⟩:w.post=bc'∧w.status=.sideStatTy∧err=none:=by
   simpa using hr.symm.trans hr'
  refine .inl ⟨?_,hstatus,?_,hpost▸hside⟩
  ·rintro⟨ptd',headTd',hptd',hhead',hlt⟩
   have h1:ptd=ptd':=some.inj (hptd.symm.trans hptd')
   have h2:headTd=headTd':=some.inj (hhead.symm.trans hhead')
   omega
  intro m hm
  have:headTd=m:=some.inj (hhead.symm.trans hm)
  omega
 obtain⟨hpost,hstatus,-⟩:w.post=bc'∧w.status=.canonStatTy∧err=none:=by
  simpa using hr.symm.trans hr'
 refine .inr ⟨⟨ptd,headTd,hptd,hhead,hlt⟩,hstatus,?_,a,l,k,hpost▸hcan⟩
 intro m hm
 have:headTd=m:=some.inj (hhead.symm.trans hm)
 omega

lemma chainOk_of_stored(hU:CollisionFree hash U)
 (hc:ChainOk hash U bc)(hb:b∈U)(hp:Parent hash bc.chainDb p b)
 (hd:PathDifficulty hash bc.chainDb bc.genesisBlock b td)
 (hs:BlockStored hash b td bc.chainDb bc'.chainDb)(hcaches:CachesAgree bc bc')
 (hhead:Stored hash bc'.chainDb bc'.currentBlock):ChainOk hash U bc' where
 store:=by
  rw[hcaches.genesisBlock]
  exact hs.storeOk hU hc.store hb hp hd
 tdCache:=hcaches.tdCache.mono (fun _ _=>hs.tds_mono hU hc.store hb hd)
 blockCache:=hcaches.blockCache.mono (fun _ _=>hs.getBlock_mono hU hc.store hb)
 head_stored:=hhead

/-- What both outcomes share: the block is added and the chain stays well formed. -/
lemma IsWrite.stored(hw:IsWrite hash U w)(hU:CollisionFree hash U)(hc:ChainOk hash U w.pre):
 w.post.genesisBlock=w.pre.genesisBlock∧ChainOk hash U w.post∧
  ∃td,PathDifficulty hash w.pre.chainDb w.pre.genesisBlock w.block td∧
   BlockStored hash w.block td w.pre.chainDb w.post.chainDb:=by
 obtain⟨p,hp⟩:=hw.parent
 obtain⟨td,hd,⟨-,-,-,hside⟩|⟨-,-,-,a,l,k,hcan⟩⟩:=hw.outcome hU hc
 ·refine⟨hside.caches.genesisBlock,?_,td,hd,hside.stored⟩
  refine chainOk_of_stored hU hc hw.known hp hd hside.stored hside.caches ?_
  rw[hside.currentBlock]
  exact hside.stored.stored_mono hU hc.store hw.known hc.head_stored
 refine⟨hcan.caches.genesisBlock,?_,td,hd,hcan.stored⟩
 refine chainOk_of_stored hU hc hw.known hp hd hcan.stored hcan.caches ?_
 rw[hcan.currentBlock]
 exact hcan.stored.stored_self

section

variable (h:Run hash U bc₀ ws bc) (hU:CollisionFree hash U) (h0:ChainOk hash U bc₀)

include h hU h0

lemma Run.chainOk:ChainOk hash U bc:=by
 induction h with
 | nil=>exact h0
 | write _ hw ih=>exact (hw.stored hU ih).2.1

lemma Run.genesisBlock:bc.genesisBlock=bc₀.genesisBlock:=by
 induction h with
 | nil=>rfl
 | write before hw ih=>exact (hw.stored hU (before.chainOk hU h0)).1.trans ih

lemma Run.mem(hw:w∈ws):IsWrite hash U w∧ChainOk hash U w.pre:=by
 induction h with
 | nil=>simp at hw
 | write before hlast ih=>
  rcases List.mem_append.mp hw with hw|hw
  ·exact ih hw
  rw[List.mem_singleton.mp hw]
  exact⟨hlast,before.chainOk hU h0⟩

/-- A call on a block with a known parent always returns, without an error. -/
lemma Run.writes(hb:b∈U)(hp:Parent hash bc.chainDb p b):
 ∃bc' status,bc.writeBlock hash b=some (bc',status,none):=by
 obtain⟨_,_,_,_,_,⟨_,bc',hr,_⟩|⟨_,_,_,_,bc',hr,_⟩⟩:=writeBlock_cases hU (h.chainOk hU h0) hb hp
 ·exact⟨bc',_,hr⟩
 exact⟨bc',_,hr⟩

def perform (hash:Header→Hash) (bc:BlockChain) (b:Block):Write:=
 match bc.writeBlock hash b with
 | some (bc',status,_)=>⟨bc,b,status,bc'⟩
 | none=>⟨bc,b,.nonStatTy,bc⟩

lemma Run.perform(p:Block)(hb:b∈U)(hp:Parent hash bc.chainDb p b):
 Run hash U bc₀ (ws++[BlockChainRuns.perform hash bc b])
  (BlockChainRuns.perform hash bc b).post:=by
 obtain⟨bc',status,hr⟩:=h.writes hU h0 hb hp
 have he:BlockChainRuns.perform hash bc b=⟨bc,b,status,bc'⟩:=by
  simp only[BlockChainRuns.perform,hr]
 rw[he]
 exact .write h ⟨hb,⟨p,hp⟩,none,hr⟩

end

/-- If on chains with the invariant a property of a call is equivalent to a guard, and
the guard keeps the invariant, then all calls of a run have the property exactly
when all of them meet the guard. -/
lemma Run.exact{I:BlockChain→Prop}{P Q:Write→Prop}(h:Run hash U bc₀ ws bc)
 (hU:CollisionFree hash U)(h0:ChainOk hash U bc₀)(hI:I bc₀)
 (hstep:∀w,IsWrite hash U w → ChainOk hash U w.pre→I w.pre→(P w↔Q w)∧(Q w→I w.post)):
 ((∀w∈ws,P w)↔∀w∈ws,Q w)∧((∀w∈ws,Q w)→I bc):=by
 induction h with
 | nil=>exact⟨by simp,fun _=>hI⟩
 | @write ws w before hw ih=>
  have hc:=before.chainOk hU h0
  simp only[List.forall_mem_append,List.forall_mem_singleton]
  refine⟨⟨fun ⟨hP,hPw⟩=>?_,fun ⟨hQ,hQw⟩=>?_⟩,fun ⟨hQ,hQw⟩=>?_⟩
  ·have hQ:=ih.1.mp hP
   exact⟨hQ,(hstep w hw hc (ih.2 hQ)).1.mp hPw⟩
  ·exact⟨ih.1.mpr hQ,(hstep w hw hc (ih.2 hQ)).1.mpr hQw⟩
  exact (hstep w hw hc (ih.2 hQ)).2 hQw

lemma getBlock_newBlockChain:(newBlockChain hash genesis).chainDb.getBlock =
  Function.update (fun _=>none) (hash genesis.header) (some genesis):=
 getBlock_writeBlock (ChainDb.empty.writeTd (hash genesis.header) genesis.difficulty) genesis

lemma stored_newBlockChain_iff:Stored hash (newBlockChain hash genesis).chainDb b↔b=genesis:=by
 unfold Stored
 rw[getBlock_newBlockChain]
 by_cases he:hash b.header=hash genesis.header
 ·simp[he,eq_comm]
 have hne:b≠genesis:=fun h=>he (by rw[h])
 simp[he,hne]

lemma tds_newBlockChain:(newBlockChain hash genesis).chainDb.tds =
  Function.update (fun _=>none) (hash genesis.header) (some genesis.difficulty):=rfl

lemma chainOk_newBlockChain(hash:Header→Hash)(hg:genesis∈U)(h0:genesis.number=0):
 ChainOk hash U (newBlockChain hash genesis) where
 store:={
  keyed:=by
   intro h b hb
   rw[getBlock_newBlockChain]at hb
   by_cases he:h=hash genesis.header
   ·subst he
    simp only[Function.update_self,Option.some.injEq]at hb
    rw[hb]
   simp[he]at hb
  known:=by
   intro b hb
   rwa[stored_newBlockChain_iff.mp hb]
  genesis_stored:=stored_newBlockChain_iff.mpr rfl
  genesis_number:=h0
  linked:=fun b hb=>.inl (stored_newBlockChain_iff.mp hb)
  difficulty:=by
   intro b hb
   obtain rfl:=stored_newBlockChain_iff.mp hb
   exact⟨b.difficulty,by simp[tds_newBlockChain],.genesis⟩
  tds_stored:=by
   intro h n hn
   by_cases he:h=hash genesis.header
   ·exact⟨genesis,stored_newBlockChain_iff.mpr rfl,he.symm⟩
   simp[tds_newBlockChain,he]at hn}
 tdCache:=Cache.agrees_new _ _
 blockCache:=Cache.agrees_new _ _
 head_stored:=stored_newBlockChain_iff.mpr rfl

/-! ### A small block tree

`second` and `heavy` stand on `first`, and `rival` stands beside it. -/

namespace Sample

def headerHash (h:Header):Hash:=Fin.ofNat (2^256) (h.nonce+1)

def block (parent:Hash) (number difficulty nonce:ℕ):Block:=⟨⟨parent,number,difficulty,nonce⟩,⟨[],[]⟩⟩

def root:Block:=block 0 0 1 0
def first:Block:=block 1 1 1 1
def second:Block:=block 2 2 1 2
def rival:Block:=block 1 1 5 3
def heavy:Block:=block 2 2 30 4

def blocks:Set Block:={b | b∈[root,first,second,rival,heavy]}

lemma collisionFree:CollisionFree headerHash blocks where
 inj:=by
  have h:∀a∈[root,first,second,rival,heavy],∀b∈[root,first,second,rival,heavy],
   headerHash a.header=headerHash b.header→a=b:=by decide +kernel
  exact h
 nonzero:=by
  have h:∀a∈[root,first,second,rival,heavy],headerHash a.header≠0:=by
   decide +kernel
  exact h

def start:BlockChain:=newBlockChain headerHash root

lemma root_mem:root∈blocks:=by simp[blocks]

lemma start_ok:ChainOk headerHash blocks start:=chainOk_newBlockChain headerHash root_mem rfl

def wroteFirst:Write:=perform headerHash start first
def wroteSecond:Write:=perform headerHash wroteFirst.post second
def wroteRival:Write:=perform headerHash wroteSecond.post rival

lemma first_parent:Parent headerHash start.chainDb root first:=
 ⟨by unfold Stored;decide +kernel,by decide +kernel,rfl⟩

lemma first_run:Run headerHash blocks start [wroteFirst] wroteFirst.post:=
 Run.nil.perform collisionFree start_ok root (by simp[blocks]) first_parent

lemma second_parent:Parent headerHash wroteFirst.post.chainDb first second:=
 ⟨by unfold Stored;decide +kernel,by decide +kernel,rfl⟩

lemma straight_run:Run headerHash blocks start [wroteFirst,wroteSecond] wroteSecond.post:=
 first_run.perform collisionFree start_ok first (by simp[blocks]) second_parent

lemma rival_run:Run headerHash blocks start [wroteFirst,wroteSecond,wroteRival] wroteRival.post:=
 straight_run.perform collisionFree start_ok root (by simp[blocks])
  ⟨by unfold Stored;decide +kernel,by decide +kernel,rfl⟩

def besideFirst:Write:=perform headerHash start rival
def behindRival:Write:=perform headerHash besideFirst.post first
def wroteHeavy:Write:=perform headerHash behindRival.post heavy

lemma heavy_run:Run headerHash blocks start [besideFirst,behindRival,wroteHeavy] wroteHeavy.post:=by
 have h1:Run headerHash blocks start [besideFirst] besideFirst.post:=
  Run.nil.perform collisionFree start_ok root (by simp[blocks])
   ⟨by unfold Stored;decide +kernel,by decide +kernel,rfl⟩
 have h2:Run headerHash blocks start [besideFirst,behindRival] behindRival.post:=
  h1.perform collisionFree start_ok root (by simp[blocks])
   ⟨by unfold Stored;decide +kernel,by decide +kernel,rfl⟩
 exact h2.perform collisionFree start_ok first (by simp[blocks])
  ⟨by unfold Stored;decide +kernel,by decide +kernel,rfl⟩

end Sample

/-- Blocks and total difficulties read through the caches are those of the database. -/
theorem caches_transparent (hash : Header → Hash) (U : Set Block) (genesis : Block)
    (hU : CollisionFree hash U) (hg : genesis ∈ U) (h0 : genesis.number = 0) (ws : List Write)
    (bc : BlockChain) (hrun : Run hash U (newBlockChain hash genesis) ws bc) (h : Hash) :
    (bc.getBlock hash h).1 = bc.chainDb.getBlock h ∧ (bc.getTd h).1 = bc.chainDb.tds h := by
 have hc:=hrun.chainOk hU (chainOk_newBlockChain hash hg h0)
 obtain⟨_,-,hblock⟩:=getBlock_spec bc hc.store.keyed hc.blockCache h
 obtain⟨_,-,htd⟩:=getTd_spec bc hc.tdCache h
 exact⟨congrArg Prod.fst hblock,congrArg Prod.fst htd⟩

theorem caches_transparent_heavy :
    (Sample.wroteHeavy.post.getBlock Sample.headerHash 5).1 = some Sample.heavy ∧
      (Sample.wroteHeavy.post.getTd 5).1 = some 32 := by
 have h:=caches_transparent Sample.headerHash Sample.blocks Sample.root Sample.collisionFree
  Sample.root_mem rfl _ _ Sample.heavy_run 5
 exact⟨h.1.trans (by decide +kernel),h.2.trans (by decide +kernel)⟩

end GoCoupe.BlockChainRuns
