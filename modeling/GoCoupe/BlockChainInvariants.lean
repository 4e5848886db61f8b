import GoCoupe.BlockChainModel
import GoCoupe.DescentPaths

/-!
# Well-formed chains and the walks along their parent hashes

The stored blocks form a tree rooted at genesis, with total difficulties beside them, and the
caches repeat the database. On such a chain the two walks of `reorg` end at a common ancestor.
-/

namespace GoCoupe.BlockChainInvariants
open BlockChainModel RecencyCaches DescentPaths List

variable (hash:Header→Hash)

structure CollisionFree (U:Set Block):Prop where
 inj:∀a∈U,∀b∈U,hash a.header=hash b.header→a=b
 nonzero:∀a∈U,hash a.header≠0

def Stored (db:ChainDb) (b:Block):Prop:=db.getBlock (hash b.header)=some b

/-- `p` is stored, `b` names it as its parent and is numbered one higher. -/
def Parent (db:ChainDb) (p b:Block):Prop:=
 Stored hash db p ∧ hash p.header=b.parentHash ∧ b.number=p.number+1

inductive PathDifficulty (db:ChainDb) (genesis:Block):Block→ℕ→Prop
 | genesis:PathDifficulty db genesis genesis genesis.difficulty
 | child {p b:Block} {n:ℕ} (hp:Parent hash db p b)
  (tail:PathDifficulty db genesis p n) :
  PathDifficulty db genesis b (b.difficulty+n)

structure StoreOk (U:Set Block) (genesis:Block) (db:ChainDb):Prop where
 keyed:∀h b,db.getBlock h=some b→hash b.header=h
 known:∀b,Stored hash db b→b∈U
 genesis_stored:Stored hash db genesis
 genesis_number:genesis.number=0
 linked:∀b,Stored hash db b→b=genesis ∨ ∃p,Parent hash db p b
 difficulty:∀b,Stored hash db b→∃n,db.tds (hash b.header)=some n ∧ PathDifficulty hash db genesis b n
 tds_stored:∀h n,db.tds h=some n→∃b,Stored hash db b ∧ hash b.header=h

structure ChainOk (U:Set Block) (bc:BlockChain):Prop where
 store:StoreOk hash U bc.genesisBlock bc.chainDb
 tdCache:bc.tdCache.Agrees bc.chainDb.tds
 blockCache:bc.blockCache.Agrees bc.chainDb.getBlock
 head_stored:Stored hash bc.chainDb bc.currentBlock

variable {hash} {U:Set Block} {genesis:Block} {db:ChainDb}

lemma Stored.getBlock_parent(h:Parent hash db p b):db.getBlock b.parentHash=some p:=by
 rw[←h.2.1]
 exact h.1

lemma graded(hU:CollisionFree hash U)(hs:StoreOk hash U genesis db):
 Graded (Parent hash db) Block.number where
 unique:=by
  intro p q b hp hq
  exact hU.inj p (hs.known p hp.1) q (hs.known q hq.1) (hp.2.1.trans hq.2.1.symm)
 succ:=by
  intro p b hp
  exact hp.2.2

/-- Every stored block descends to genesis. -/
lemma StoreOk.rooted(hs:StoreOk hash U genesis db)(b:Block)(hb:Stored hash db b):
 Ancestor (Parent hash db) genesis b:=by
 induction hn:b.number generalizing b with
 | zero=>
  rcases hs.linked b hb with rfl|⟨p,hp⟩
  ·exact .refl b
  have:=hp.2.2
  omega
 | succ n ih=>
  rcases hs.linked b hb with rfl|⟨p,hp⟩
  ·exact .refl b
  exact (ih p hp.1 (by have:=hp.2.2;omega)).trans (.parent hp)

lemma Parent.rooted(hs:StoreOk hash U genesis db)(hp:Parent hash db p b):
 Ancestor (Parent hash db) genesis b:=
 (hs.rooted p hp.1).trans (.parent hp)

section

variable (hU:CollisionFree hash U) (hs:StoreOk hash U genesis db)

include hU hs

lemma PathDifficulty.unique
 (h:PathDifficulty hash db genesis b n)(h':PathDifficulty hash db genesis b m):n=m:=by
 have hnum:=hs.genesis_number
 induction h generalizing m with
 | genesis=>
  cases h' with
  | genesis=>rfl
  | child hp _=>have:=hp.2.2;omega
 | @child p b n hp tail ih=>
  cases h' with
  | genesis=>have:=hp.2.2;omega
  | child hp' tail'=>
   have hpp:=(graded hU hs).unique hp hp'
   subst hpp
   rw[ih tail']

/-- An ancestor is at most as heavy as the blocks above it. -/
lemma PathDifficulty.of_descent
 (h:PathDifficulty hash db genesis b n)(hl:Descent (Parent hash db) b l a):
 ∃m≤n,PathDifficulty hash db genesis a m:=by
 have hnum:=hs.genesis_number
 induction hl generalizing n with
 | refl=>exact⟨n,le_rfl,h⟩
 | @step b p a l hp _ ih=>
  cases h with
  | genesis=>have:=hp.2.2;omega
  | child hp' tail'=>
   have hpp:=(graded hU hs).unique hp hp'
   subst hpp
   obtain⟨m,hm,hpath⟩:=ih tail'
   exact⟨m,by omega,hpath⟩

/-- The total difficulty stored for a block is the one its path adds up to. -/
lemma StoreOk.tds_eq_path(hb:b∈U)(ht:db.tds (hash b.header)=some n)
 (hm:PathDifficulty hash db genesis b m):n=m:=by
 obtain⟨x,hx,he⟩:=hs.tds_stored _ _ ht
 have hxb:=hU.inj x (hs.known x hx) b hb he
 subst hxb
 obtain⟨k,hk,hpath⟩:=hs.difficulty x hx
 have hkn:k=n:=Option.some.inj (hk.symm.trans ht)
 exact hkn▸hpath.unique hU hs hm

end

lemma getTd_spec(bc:BlockChain)(ht:bc.tdCache.Agrees bc.chainDb.tds)(h:Hash):
 ∃c:Cache Hash ℕ,c.Agrees bc.chainDb.tds∧bc.getTd h=(bc.chainDb.tds h,{bc with tdCache:=c}):=by
 have hget:=ht.get h
 have hfst:=Cache.get_fst bc.tdCache h
 unfold BlockChain.getTd
 split
 ·rename_i td cache hc
  rw[hc]at hget hfst
  exact⟨cache,hget,by rw[ht.peek_eq hfst.symm]⟩
 rename_i cache hc
 rw[hc]at hget
 split
 ·rename_i hn
  exact⟨cache,hget,by rw[hn]⟩
 rename_i td hn
 exact⟨cache.add h td,hget.add hn,by rw[hn]⟩

lemma getBlock_spec(bc:BlockChain)(hs:∀k b,bc.chainDb.getBlock k=some b→hash b.header=k)
 (hb:bc.blockCache.Agrees bc.chainDb.getBlock)(h:Hash):
 ∃c:Cache Hash Block,c.Agrees bc.chainDb.getBlock∧
  bc.getBlock hash h=(bc.chainDb.getBlock h,{bc with blockCache:=c}):=by
 have hget:=hb.get h
 have hfst:=Cache.get_fst bc.blockCache h
 unfold BlockChain.getBlock
 split
 ·rename_i block cache hc
  rw[hc]at hget hfst
  exact⟨cache,hget,by rw[hb.peek_eq hfst.symm]⟩
 rename_i cache hc
 rw[hc]at hget
 split
 ·rename_i hn
  exact⟨cache,hget,by rw[hn]⟩
 rename_i block hn
 have hk:bc.chainDb.getBlock (hash block.header)=some block:=by
  rw[hs h block hn]
  exact hn
 exact⟨cache.add (hash block.header) block,hget.add hk,by rw[hn]⟩

variable (bc:BlockChain) (hU:CollisionFree hash U) (hs:StoreOk hash U genesis bc.chainDb)
 (hb:bc.blockCache.Agrees bc.chainDb.getBlock)

include bc hU hs hb

lemma reduceTo_spec(hd:Descent (Parent hash bc.chainDb) b l a)(hf:l.length<fuel)(passed:List Block):
 ∃c:Cache Hash Block,c.Agrees bc.chainDb.getBlock∧bc.reduceTo hash a.number fuel (some b) passed =
   some ({bc with blockCache:=c},some a,passed++l):=by
 induction l generalizing b fuel bc passed with
 | nil=>
  cases hd
  obtain⟨fuel,rfl⟩:∃k,fuel=k+1:=⟨fuel-1,by omega⟩
  exact⟨bc.blockCache,hb,by simp[BlockChain.reduceTo]⟩
 | cons x l ih=>
  have hnum:=hd.height_eq (graded hU hs)
  cases hd with
  | @step _ p _ _ hp tail=>
   obtain⟨fuel,rfl⟩:∃k,fuel=k+1:=⟨fuel-1,by omega⟩
   rw[length_cons]at hf hnum
   obtain⟨c,hc,he⟩:=getBlock_spec bc hs.keyed hb x.parentHash
   rw[Stored.getBlock_parent hp]at he
   obtain⟨c',hc',he'⟩:=ih {bc with blockCache:=c} hs hc tail
    (show l.length<fuel by omega) (passed++[x])
   refine⟨c',hc',?_⟩
   have hne:x.number≠a.number:=by omega
   simp only[BlockChain.reduceTo,if_neg hne,he]
   rw[he',append_assoc,singleton_append]

/-- Two blocks at one level meet at a block from which both descend, and no block
passed on the new side is an ancestor on the old side. -/
lemma findCommonBlock_spec(hold:Ancestor (Parent hash bc.chainDb) genesis old)
 (hnew:Ancestor (Parent hash bc.chainDb) genesis new)(ho:old∈U)(hn:new∈U)
 (hnum:old.number=new.number)(hf:old.number<fuel)(oldChain newChain:List Block):
 ∃(c:Cache Hash Block) (a:Block) (l k:List Block),c.Agrees bc.chainDb.getBlock∧
  Descent (Parent hash bc.chainDb) old l a∧Descent (Parent hash bc.chainDb) new k a∧
  (∀x∈k,¬Ancestor (Parent hash bc.chainDb) x old)∧
  bc.findCommonBlock hash fuel old new oldChain newChain =
   some ({bc with blockCache:=c},.ok (a,oldChain++l,newChain++k)):=by
 have hg:=graded hU hs
 induction fuel generalizing old new bc oldChain newChain with
 | zero=>omega
 | succ fuel ih=>
  by_cases he:hash old.header=hash new.header
  ·have heq:=hU.inj old ho new hn he
   subst heq
   exact⟨bc.blockCache,old,[],[],hb,.refl _,.refl _,by simp,by simp[BlockChain.findCommonBlock]⟩
  have hne:old≠new:=fun h=>he (by rw[h])
  obtain⟨l₀,hl0⟩:=hold
  obtain⟨k₀,hk0⟩:=hnew
  have hlen:=hl0.height_eq hg
  have hlen':=hk0.height_eq hg
  cases hl0 with
  | refl=>
   cases hk0 with
   | refl=>exact absurd rfl hne
   | step=>rw[length_cons]at hlen';omega
  | @step _ o _ l₀ hpo tailo=>
   cases hk0 with
   | refl=>rw[length_cons]at hlen;omega
   | @step _ w _ k₀ hpw tailw=>
    obtain⟨c₁,hc1,he1⟩:=getBlock_spec bc hs.keyed hb old.parentHash
    rw[Stored.getBlock_parent hpo]at he1
    obtain⟨c₂,hc2,he2⟩:=getBlock_spec {bc with blockCache:=c₁} hs.keyed hc1 new.parentHash
    rw[Stored.getBlock_parent hpw]at he2
    have hno:=hpo.2.2
    have hnw:=hpw.2.2
    obtain⟨c,a,l,k,hc,hl,hk,hfar,hr⟩:=ih {bc with blockCache:=c₂}
     hs hc2 ⟨_,tailo⟩ ⟨_,tailw⟩ (hs.known o hpo.1) (hs.known w hpw.1) (by omega)
     (by omega) (oldChain++[old]) (newChain++[new]) hg
    refine⟨c,a,old::l,new::k,hc,.step hpo hl,.step hpw hk,?_,?_⟩
    ·intro x hx hanc
     rcases List.mem_cons.mp hx with rfl|hx
     ·exact hne (hanc.unique hg (.refl old) hnum.symm).symm
     refine hfar x hx (hanc.of_parent hg hpo ?_)
     have:=(hk.mem_height hg hx).2
     intro hxo
     subst hxo
     omega
    simp only[BlockChain.findCommonBlock,if_neg he,he1,he2]
    rw[hr]
    simp

end GoCoupe.BlockChainInvariants
