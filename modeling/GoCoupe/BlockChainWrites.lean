import GoCoupe.BlockChainInvariants

/-!
# What one `WriteBlock` call does

On a well-formed chain a block with a known parent is stored in any case. If it is heavier than
the head, the number index is rewritten along its path down to an ancestor of the old head, and
it becomes the head.
-/

namespace GoCoupe.BlockChainWrites
open BlockChainModel BlockChainInvariants RecencyCaches DescentPaths List Function Option

variable {hash:Header→Hash} {U:Set Block} {genesis:Block}

structure SameStore (db db':ChainDb):Prop where
 headers:db'.headers=db.headers
 bodies:db'.bodies=db.bodies
 tds:db'.tds=db.tds

lemma SameStore.refl(db:ChainDb):SameStore db db:=⟨rfl,rfl,rfl⟩

lemma SameStore.trans(h:SameStore a b)(h':SameStore b c):SameStore a c:=
 ⟨h'.headers.trans h.headers,h'.bodies.trans h.bodies,h'.tds.trans h.tds⟩

variable {db db':ChainDb} {bc bc' bc'':BlockChain} {L:List Block} {b p:Block}
 {c:Cache Hash ℕ} {td:ℕ}

lemma SameStore.getBlock(h:SameStore db db'):db'.getBlock=db.getBlock:=by
 funext k
 simp only[ChainDb.getBlock,h.headers,h.bodies]

lemma writeTransactions_eq(hash:Header→Hash)(db:ChainDb)(block:Block):
 ∃t,db.writeTransactions hash block = {db with txs:=t}:=by
 unfold ChainDb.writeTransactions
 generalize block.transactions.zipIdx=l
 induction l generalizing db with
 | nil=>exact⟨db.txs,rfl⟩
 | cons x l ih=>
  obtain⟨t,ht⟩:=ih _
  exact⟨t,ht⟩

lemma writeReceipts_eq(db:ChainDb)(rs:List Receipt):
 ∃r,db.writeReceipts rs = {db with receipts:=r}:=by
 unfold ChainDb.writeReceipts
 induction rs generalizing db with
 | nil=>exact⟨db.receipts,rfl⟩
 | cons x l ih=>
  obtain⟨r,hr⟩:=ih _
  exact⟨r,hr⟩

lemma dropTransactions_eq(bc:BlockChain)(txs:List Hash):
 ∃t r,bc.dropTransactions txs = {bc with chainDb:={bc.chainDb with txs:=t,receipts:=r}}:=by
 unfold BlockChain.dropTransactions
 generalize hdb:bc.chainDb=db
 have key:∀db:ChainDb,∃t r,txs.foldl (fun db tx=>(db.deleteReceipt tx).deleteTransaction tx) db =
   {db with txs:=t,receipts:=r}:=by
  induction txs with
  | nil=>exact fun db=>⟨db.txs,db.receipts,rfl⟩
  | cons x l ih=>
   intro db
   obtain⟨t,r,h⟩:=ih ((db.deleteReceipt x).deleteTransaction x)
   exact⟨t,r,h⟩
 obtain⟨t,r,h⟩:=key db
 exact⟨t,r,by rw[h]⟩

structure IndexWrite (hash:Header→Hash) (L:List Block) (bc bc':BlockChain):Prop where
 store:SameStore bc.chainDb bc'.chainDb
 genesisBlock:bc'.genesisBlock=bc.genesisBlock
 tdCache:bc'.tdCache=bc.tdCache
 blockCache:bc'.blockCache=bc.blockCache
 assigned:∀x∈L,bc'.chainDb.canonical x.number=some (hash x.header)
 kept:∀n,(∀x∈L,x.number≠n)→bc'.chainDb.canonical n=bc.chainDb.canonical n

namespace IndexWrite

lemma nil(bc:BlockChain):IndexWrite hash [] bc bc:=⟨.refl _,rfl,rfl,rfl,by simp,by simp⟩

lemma cons{x:Block}{L:List Block}(h:IndexWrite hash [x] bc bc')
 (h':IndexWrite hash L bc' bc'')(hu:∀y∈L,y.number=x.number→y=x):
 IndexWrite hash (x::L) bc bc'' where
 store:=h.store.trans h'.store
 genesisBlock:=h'.genesisBlock.trans h.genesisBlock
 tdCache:=h'.tdCache.trans h.tdCache
 blockCache:=h'.blockCache.trans h.blockCache
 assigned:=by
  intro y hy
  rcases mem_cons.mp hy with rfl|hy
  ·by_cases hex:∃z∈L,z.number=y.number
   ·obtain⟨z,hz,hn⟩:=hex
    have hzy:=hu z hz hn
    subst hzy
    exact h'.assigned z hz
   rw[h'.kept y.number (fun z hz hn=>hex ⟨z,hz,hn⟩)]
   exact h.assigned y (by simp)
  exact h'.assigned y hy
 kept:=by
  intro n hn
  rw[h'.kept n (fun y hy=>hn y (mem_cons_of_mem x hy))]
  exact h.kept n (by simpa using hn x (by simp))

lemma append_single(h:IndexWrite hash L bc bc')
 (h':IndexWrite hash [x] bc' bc'')(hx:x∈L)(hu:∀y∈L,y.number=x.number→y=x):
 IndexWrite hash L bc bc'' where
 store:=h.store.trans h'.store
 genesisBlock:=h'.genesisBlock.trans h.genesisBlock
 tdCache:=h'.tdCache.trans h.tdCache
 blockCache:=h'.blockCache.trans h.blockCache
 assigned:=by
  intro y hy
  by_cases hn:y.number=x.number
  ·rw[hu y hy hn]
   exact h'.assigned x (by simp)
  rw[h'.kept y.number (by simpa using fun h=>hn h.symm)]
  exact h.assigned y hy
 kept:=by
  intro n hn
  rw[h'.kept n (by simpa using hn x hx)]
  exact h.kept n hn

end IndexWrite

lemma insert_index(hash:Header→Hash)(bc:BlockChain)(b:Block):
 IndexWrite hash [b] bc (bc.insert hash b):=by
 unfold BlockChain.insert
 dsimp only
 split <;>
  exact⟨⟨rfl,rfl,rfl⟩,rfl,rfl,rfl,
   by simp[ChainDb.writeCanonicalHash,ChainDb.writeHeadBlockHash,
    ChainDb.writeHeadHeaderHash,ChainDb.writeHeadFastBlockHash],
   by
    intro n hn
    have hne:n≠b.number:=fun h=>hn b (by simp) h.symm
    simp[ChainDb.writeCanonicalHash,ChainDb.writeHeadBlockHash,
     ChainDb.writeHeadHeaderHash,ChainDb.writeHeadFastBlockHash,hne]⟩

lemma insert_head(hash:Header→Hash)(bc:BlockChain)(b:Block):
 (bc.insert hash b).currentBlock=b∧(bc.insert hash b).chainDb.headBlock=some (hash b.header):=by
 unfold BlockChain.insert
 dsimp only
 split<;>exact⟨rfl,rfl⟩

structure OtherHeadsAt (hash:Header→Hash) (x:Block) (bc:BlockChain):Prop where
 currentHeader:bc.currentHeader=x.header
 currentFastBlock:bc.currentFastBlock=x
 headHeader:bc.chainDb.headHeader=some (hash x.header)
 headFast:bc.chainDb.headFast=some (hash x.header)

structure OtherHeadsKept (bc bc':BlockChain):Prop where
 currentHeader:bc'.currentHeader=bc.currentHeader
 currentFastBlock:bc'.currentFastBlock=bc.currentFastBlock
 headHeader:bc'.chainDb.headHeader=bc.chainDb.headHeader
 headFast:bc'.chainDb.headFast=bc.chainDb.headFast

lemma OtherHeadsKept.trans{a b c:BlockChain}(h:OtherHeadsKept a b)
 (h':OtherHeadsKept b c):OtherHeadsKept a c:=
 ⟨h'.currentHeader.trans h.currentHeader,h'.currentFastBlock.trans h.currentFastBlock,
  h'.headHeader.trans h.headHeader,h'.headFast.trans h.headFast⟩

lemma OtherHeadsKept.at(h:OtherHeadsKept bc bc')(hx:OtherHeadsAt hash x bc):
 OtherHeadsAt hash x bc':=
 ⟨h.currentHeader.trans hx.currentHeader,h.currentFastBlock.trans hx.currentFastBlock,
  h.headHeader.trans hx.headHeader,h.headFast.trans hx.headFast⟩

def Indexed (hash:Header→Hash) (db:ChainDb) (x:Block):Prop:=
 db.getCanonicalHash x.number=hash x.header

lemma insert_otherHeads_at(bc:BlockChain)(b:Block)(h:¬Indexed hash bc.chainDb b):
 OtherHeadsAt hash b (bc.insert hash b):=by
 unfold Indexed at h
 unfold BlockChain.insert
 dsimp only
 rw[if_pos h]
 exact⟨rfl,rfl,rfl,rfl⟩

lemma insert_otherHeads_kept(bc:BlockChain)(b:Block)(h:Indexed hash bc.chainDb b):
 OtherHeadsKept bc (bc.insert hash b):=by
 unfold Indexed at h
 unfold BlockChain.insert
 dsimp only
 rw[if_neg (not_not.mpr h)]
 exact⟨rfl,rfl,rfl,rfl⟩

lemma insertCanonical_eq(hash:Header→Hash)(bc:BlockChain)(b:Block):
 ∃t r,bc.insertCanonical hash b = {bc.insert hash b with
   chainDb:={(bc.insert hash b).chainDb with txs:=t,receipts:=r}}:=by
 unfold BlockChain.insertCanonical
 dsimp only
 obtain⟨t,ht⟩:=writeTransactions_eq hash (bc.insert hash b).chainDb b
 rw[ht]
 obtain⟨r,hr⟩:=writeReceipts_eq {(bc.insert hash b).chainDb with txs:=t}
  (ChainDb.getBlockReceipts {(bc.insert hash b).chainDb with txs:=t} (hash b.header))
 exact⟨t,r,by rw[hr]⟩

lemma insertCanonical_index(hash:Header→Hash)(bc:BlockChain)(b:Block):
 IndexWrite hash [b] bc (bc.insertCanonical hash b):=by
 obtain⟨t,r,he⟩:=insertCanonical_eq hash bc b
 have h:=insert_index hash bc b
 rw[he]
 exact⟨⟨h.store.headers,h.store.bodies,h.store.tds⟩,h.genesisBlock,h.tdCache,h.blockCache,h.assigned,h.kept⟩

lemma replay_index(L:List Block)(hu:L.Pairwise (fun x y=>y.number<x.number))
 (bc:BlockChain):IndexWrite hash L bc (L.foldl (BlockChain.insertCanonical hash) bc):=by
 induction L generalizing bc with
 | nil=>exact .nil bc
 | cons x L ih=>
  rw[pairwise_cons]at hu
  have hx:=insertCanonical_index hash bc x
  have hL:=ih hu.2 (bc.insertCanonical hash x)
  refine hx.cons hL (fun y hy hn=>?_)
  have:=hu.1 y hy
  omega

/-- Where the other two heads end up after the blocks of `L` were inserted in turn:
at the last of them whose number was not yet assigned to it. -/
def OtherHeadsAfter (hash:Header→Hash) (L:List Block) (bc bc':BlockChain):Prop:=
 ((∀x∈L,Indexed hash bc.chainDb x) ∧ OtherHeadsKept bc bc') ∨
  ∃L₁ x L₂,L=L₁++x::L₂ ∧ ¬Indexed hash bc.chainDb x ∧
   (∀y∈L₂,Indexed hash bc.chainDb y) ∧ OtherHeadsAt hash x bc'

lemma OtherHeadsAfter.kept(h:OtherHeadsAfter hash L bc bc')(hk:OtherHeadsKept bc' bc''):
 OtherHeadsAfter hash L bc bc'':=by
 rcases h with⟨hall,hk'⟩|⟨L₁,x,L₂,he,hx,hL2,hat⟩
 ·exact .inl ⟨hall,hk'.trans hk⟩
 exact .inr ⟨L₁,x,L₂,he,hx,hL2,hk.at hat⟩

lemma OtherHeadsAfter.of_caches{c:Cache Hash Block}
 (h:OtherHeadsAfter hash L {bc with tdCache:=t,blockCache:=c} bc'):
 OtherHeadsAfter hash L bc bc':=by
 rcases h with⟨hall,hk⟩|hat
 ·exact .inl ⟨hall,hk.currentHeader,hk.currentFastBlock,hk.headHeader,hk.headFast⟩
 exact .inr hat

lemma OtherHeadsAfter.snoc_kept(h:OtherHeadsAfter hash L bc bc')
 (hb:Indexed hash bc.chainDb b)(hk:OtherHeadsKept bc' bc''):
 OtherHeadsAfter hash (L++[b]) bc bc'':=by
 rcases h with⟨hall,hk'⟩|⟨L₁,x,L₂,rfl,hx,hL2,hat⟩
 ·refine .inl ⟨fun x hx=>?_,hk'.trans hk⟩
  rcases mem_append.mp hx with hx|hx
  ·exact hall x hx
  rwa[mem_singleton.mp hx]
 refine .inr ⟨L₁,x,L₂++[b],by simp,hx,fun y hy=>?_,hk.at hat⟩
 rcases mem_append.mp hy with hy|hy
 ·exact hL2 y hy
 rwa[mem_singleton.mp hy]

lemma OtherHeadsAfter.snoc_at(hb:¬Indexed hash bc.chainDb b)(hat:OtherHeadsAt hash b bc'):
 OtherHeadsAfter hash (L++[b]) bc bc':=
 .inr ⟨L,b,[],rfl,hb,by simp,hat⟩

lemma insert_otherHeads(bc:BlockChain)(b:Block):OtherHeadsAfter hash [b] bc (bc.insert hash b):=by
 by_cases h:Indexed hash bc.chainDb b
 ·exact .inl ⟨by simpa using h,insert_otherHeads_kept bc b h⟩
 exact .inr ⟨[],b,[],rfl,h,by simp,insert_otherHeads_at bc b h⟩

lemma insertCanonical_otherHeads(hash:Header→Hash)(bc:BlockChain)(b:Block):
 OtherHeadsKept (bc.insert hash b) (bc.insertCanonical hash b):=by
 obtain⟨t,r,he⟩:=insertCanonical_eq hash bc b
 rw[he]
 exact⟨rfl,rfl,rfl,rfl⟩

lemma dropTransactions_otherHeads(bc:BlockChain)(txs:List Hash):
 OtherHeadsKept bc (bc.dropTransactions txs):=by
 obtain⟨t,r,he⟩:=dropTransactions_eq bc txs
 rw[he]
 exact⟨rfl,rfl,rfl,rfl⟩

lemma replay_otherHeads(L:List Block)(hu:L.Pairwise (fun x y=>y.number<x.number))(bc:BlockChain):
 OtherHeadsAfter hash L bc (L.foldl (BlockChain.insertCanonical hash) bc):=by
 induction L using reverseRecOn with
 | nil=>exact .inl ⟨by simp,rfl,rfl,rfl,rfl⟩
 | append_singleton L b ih=>
  rw[pairwise_append]at hu
  obtain⟨huL,-,hub⟩:=hu
  have hindex:IndexWrite hash L bc _:=replay_index L huL bc
  have hkept:=hindex.kept b.number (fun x hx=>(hub x hx b (by simp)).ne')
  have hiff:Indexed hash (L.foldl (BlockChain.insertCanonical hash) bc).chainDb b↔
   Indexed hash bc.chainDb b:=by
   simp only[Indexed,ChainDb.getCanonicalHash,hkept]
  rw[foldl_append,foldl_cons,foldl_nil]
  have hmid:=insertCanonical_otherHeads hash (L.foldl (BlockChain.insertCanonical hash) bc) b
  by_cases hb:Indexed hash bc.chainDb b
  ·exact (ih huL).snoc_kept hb ((insert_otherHeads_kept _ b (hiff.mpr hb)).trans hmid)
  exact .snoc_at hb (hmid.at (insert_otherHeads_at _ b (fun h=>hb (hiff.mp h))))

lemma getBlock_writeBlock(db:ChainDb)(b:Block):
 (db.writeBlock hash b).getBlock=update db.getBlock (hash b.header) (some b):=by
 funext k
 by_cases hk:k=hash b.header
 ·subst hk
  simp[ChainDb.getBlock,ChainDb.writeBlock,ChainDb.writeHeader,ChainDb.writeBody]
 simp[ChainDb.getBlock,ChainDb.writeBlock,ChainDb.writeHeader,ChainDb.writeBody,hk]

structure BlockStored (hash:Header→Hash) (b:Block) (td:ℕ) (db db':ChainDb):Prop where
 getBlock:db'.getBlock=update db.getBlock (hash b.header) (some b)
 tds:db'.tds=update db.tds (hash b.header) (some td)

namespace BlockStored

lemma stored_self(h:BlockStored hash b td db db'):Stored hash db' b:=by
 simp[Stored,h.getBlock]

variable {x:Block}

lemma stored_mono(h:BlockStored hash b td db db')(hU:CollisionFree hash U)
 (hs:StoreOk hash U genesis db)(hb:b∈U)(hx:Stored hash db x):Stored hash db' x:=by
 by_cases he:hash x.header=hash b.header
 ·rw[hU.inj x (hs.known x hx) b hb he]
  exact h.stored_self
 simpa[Stored,h.getBlock,he]using hx

lemma stored_cases(h:BlockStored hash b td db db')(hx:Stored hash db' x):x=b∨Stored hash db x:=by
 by_cases he:hash x.header=hash b.header
 ·left
  simp only[Stored,h.getBlock,he,update_self,some.injEq]at hx
  exact hx.symm
 right
 simpa[Stored,h.getBlock,he]using hx

variable (h:BlockStored hash b td db db') (hU:CollisionFree hash U)
 (hs:StoreOk hash U genesis db)

include h hU hs

lemma parent_mono(hb:b∈U)(hp:Parent hash db p x):Parent hash db' p x:=
 ⟨h.stored_mono hU hs hb hp.1,hp.2⟩

lemma path_mono(hb:b∈U)(hx:PathDifficulty hash db genesis x n):PathDifficulty hash db' genesis x n:=by
 induction hx with
 | genesis=>exact .genesis
 | child hp _ ih=>exact .child (h.parent_mono hU hs hb hp) ih

/-- A stored block keeps its ancestors: the new block is above none of them. -/
lemma ancestor_of_stored(hs':StoreOk hash U genesis db')(hb:b∈U)
 (hy:Stored hash db y)(ha:Ancestor (Parent hash db') x y):
 Ancestor (Parent hash db) x y:=by
 obtain⟨l,hl⟩:=ha
 induction hl with
 | refl y=>exact .refl y
 | @step y p x l hp _ ih=>
  rcases hs.linked y hy with rfl|⟨q,hq⟩
  ·have:=hp.2.2
   have:=hs.genesis_number
   omega
  have hpq:=(graded hU hs').unique hp (h.parent_mono hU hs hb hq)
  subst hpq
  exact (ih hq.1).trans (.parent hq)

lemma storeOk(hb:b∈U)(hp:Parent hash db p b)
 (hd:PathDifficulty hash db genesis b td):StoreOk hash U genesis db' where
 keyed:=by
  intro k x hx
  by_cases hk:k=hash b.header
  ·simp only[h.getBlock,hk,update_self,some.injEq]at hx
   rw[←hx,hk]
  exact hs.keyed k x (by simpa[h.getBlock,hk]using hx)
 known:=by
  intro x hx
  rcases h.stored_cases hx with rfl|hx
  ·exact hb
  exact hs.known x hx
 genesis_stored:=h.stored_mono hU hs hb hs.genesis_stored
 genesis_number:=hs.genesis_number
 linked:=by
  intro x hx
  rcases h.stored_cases hx with rfl|hx
  ·exact .inr ⟨p,h.parent_mono hU hs hb hp⟩
  rcases hs.linked x hx with he|⟨q,hq⟩
  ·exact .inl he
  exact .inr ⟨q,h.parent_mono hU hs hb hq⟩
 difficulty:=by
  intro x hx
  by_cases hxb:x=b
  ·subst hxb
   exact⟨td,by simp[h.tds],h.path_mono hU hs hb hd⟩
  have hold:=(h.stored_cases hx).resolve_left hxb
  obtain⟨n,hn,hpath⟩:=hs.difficulty x hold
  have he:hash x.header≠hash b.header:=fun he=>hxb (hU.inj x (hs.known x hold) b hb he)
  exact⟨n,by simpa[h.tds,he]using hn,h.path_mono hU hs hb hpath⟩
 tds_stored:=by
  intro k n hk
  by_cases he:k=hash b.header
  ·exact⟨b,h.stored_self,he.symm⟩
  obtain⟨x,hx,hxk⟩:=hs.tds_stored k n (by simpa[h.tds,he]using hk)
  exact⟨x,h.stored_mono hU hs hb hx,hxk⟩

lemma tds_mono(hb:b∈U)(hd:PathDifficulty hash db genesis b td)
 (hk:db.tds k=some n):db'.tds k=some n:=by
 by_cases he:k=hash b.header
 ·subst he
  rw[hs.tds_eq_path hU hb hk hd]
  simp[h.tds]
 simpa[h.tds,he]using hk

lemma getBlock_mono(hb:b∈U)(hk:db.getBlock k=some x):db'.getBlock k=some x:=by
 have hx:=hs.keyed k x hk
 subst hx
 exact h.stored_mono hU hs hb hk

end BlockStored

lemma mem_of_descent(hs:StoreOk hash U genesis db)(hb:b∈U)(h:Descent (Parent hash db) b l a):a∈U:=by
 induction h with
 | refl=>exact hb
 | step hp _ ih=>exact ih (hs.known _ hp.1)

lemma reduceHigher_spec(hU:CollisionFree hash U)(hc:ChainOk hash U bc)
 (hp:Parent hash bc.chainDb p b):
 ∃(c:Cache Hash Block) (o w:Block) (l k:List Block),c.Agrees bc.chainDb.getBlock∧o.number=w.number∧
  Descent (Parent hash bc.chainDb) bc.currentBlock l o∧
  Descent (Parent hash bc.chainDb) b k w∧
  (∀x∈k,bc.currentBlock.number<x.number)∧
  bc.reduceHigher hash (bc.currentBlock.number+b.number+1) bc.currentBlock b =
   some ({bc with blockCache:=c},some o,some w,l,k):=by
 have hg:=graded hU hc.store
 have hrootH:=hc.store.rooted bc.currentBlock hc.head_stored
 have hrootB:=hp.rooted hc.store
 have hzero:bc.genesisBlock.number=0:=hc.store.genesis_number
 unfold BlockChain.reduceHigher
 by_cases hgt:bc.currentBlock.number>b.number
 ·obtain⟨o,⟨l,hl⟩,hon⟩:=hrootH.exists_height hg (n:=b.number) (by omega) (by omega)
  have hlen:=hl.height_eq hg
  have hfuel:l.length<bc.currentBlock.number+b.number+1:=by omega
  obtain⟨c,hcache,hr⟩:=reduceTo_spec bc hU hc.store hc.blockCache hl hfuel []
  rw[hon]at hr
  refine⟨c,o,b,l,[],hcache,hon,hl,.refl b,by simp,?_⟩
  rw[if_pos hgt,hr]
  rfl
 obtain⟨w,⟨k,hk⟩,hwn⟩:=hrootB.exists_height hg (n:=bc.currentBlock.number)
  (by omega) (by omega)
 have hlen:=hk.height_eq hg
 have hfuel:k.length<bc.currentBlock.number+b.number+1:=by omega
 obtain⟨c,hcache,hr⟩:=reduceTo_spec bc hU hc.store hc.blockCache hk hfuel []
 rw[hwn]at hr
 refine⟨c,bc.currentBlock,w,[],k,hcache,hwn.symm,.refl _,hk,?_,?_⟩
 ·intro x hx
  rw[←hwn]
  exact (hk.mem_height hg hx).1
 rw[if_neg hgt,hr]
 rfl

/-- `reorg` replays the path from the new block down to the place where it leaves
the old chain. -/
lemma reorg_spec(hU:CollisionFree hash U)(hc:ChainOk hash U bc)(hb:b∈U)
 (hp:Parent hash bc.chainDb p b):
 ∃(c:Cache Hash Block) (a:Block) (l k:List Block),c.Agrees bc.chainDb.getBlock∧
  Descent (Parent hash bc.chainDb) bc.currentBlock l a∧
  Descent (Parent hash bc.chainDb) b k a∧
  (∀x∈k,¬Ancestor (Parent hash bc.chainDb) x bc.currentBlock)∧
  bc.reorg hash bc.currentBlock b=some ((k.foldl (BlockChain.insertCanonical hash)
    {bc with blockCache:=c}).dropTransactions (txDifference
     (l.flatMap Block.transactions) (k.flatMap Block.transactions)),none):=by
 have hg:=graded hU hc.store
 have hzero:bc.genesisBlock.number=0:=hc.store.genesis_number
 have hrootH:=hc.store.rooted bc.currentBlock hc.head_stored
 have hrootB:=hp.rooted hc.store
 obtain⟨c₁,o,w,l₁,k₁,hc1,hnum,hl1,hk1,hhigh,hr1⟩:=reduceHigher_spec hU hc hp
 have hno:=hl1.height_eq hg
 have hrootO:=hrootH.of_height_le hg ⟨l₁,hl1⟩ (by omega)
 have hrootW:=hrootB.of_height_le hg ⟨k₁,hk1⟩ (by omega)
 have hoU:=mem_of_descent hc.store (hc.store.known _ hc.head_stored) hl1
 have hwU:=mem_of_descent hc.store hb hk1
 have hfuel:o.number<bc.currentBlock.number+b.number+1:=by omega
 obtain⟨c₂,a,l₂,k₂,hc2,hl2,hk2,hfar,hr2⟩:=
  findCommonBlock_spec {bc with blockCache:=c₁} hU hc.store hc1 hrootO hrootW hoU hwU
   hnum hfuel l₁ k₁
 refine⟨c₂,a,l₁++l₂,k₁++k₂,hc2,hl1.trans hl2,hk1.trans hk2,?_,?_⟩
 ·intro x hx hanc
  rcases mem_append.mp hx with hx|hx
  ·have:=hhigh x hx
   have:=hanc.height_le hg
   omega
  have:=(hk2.mem_height hg hx).2
  exact hfar x hx (hanc.of_height_le hg ⟨l₁,hl1⟩ (by omega))
 unfold BlockChain.reorg
 simp only[hr1,hr2]

structure CachesAgree (bc bc':BlockChain):Prop where
 genesisBlock:bc'.genesisBlock=bc.genesisBlock
 tdCache:bc'.tdCache.Agrees bc.chainDb.tds
 blockCache:bc'.blockCache.Agrees bc.chainDb.getBlock

structure SideWrite (hash:Header→Hash) (b:Block) (td:ℕ) (bc bc':BlockChain):Prop where
 stored:BlockStored hash b td bc.chainDb bc'.chainDb
 caches:CachesAgree bc bc'
 canonical:bc'.chainDb.canonical=bc.chainDb.canonical
 currentBlock:bc'.currentBlock=bc.currentBlock
 headBlock:bc'.chainDb.headBlock=bc.chainDb.headBlock
 otherHeads:OtherHeadsKept bc bc'

/-- The block is stored and made the head; the index is rewritten on the path `k`
from the block down to the ancestor `a` of the old head. -/
structure CanonicalWrite (hash:Header→Hash) (b:Block) (td:ℕ) (a:Block)
 (l k:List Block) (bc bc':BlockChain):Prop where
 stored:BlockStored hash b td bc.chainDb bc'.chainDb
 caches:CachesAgree bc bc'
 oldPath:Descent (Parent hash bc.chainDb) bc.currentBlock l a
 newPath:Descent (Parent hash bc.chainDb) b k a
 leaves:∀x∈k,¬Ancestor (Parent hash bc.chainDb) x bc.currentBlock
 assigned:∀x∈k,bc'.chainDb.canonical x.number=some (hash x.header)
 kept:∀n,(∀x∈k,x.number≠n)→bc'.chainDb.canonical n=bc.chainDb.canonical n
 currentBlock:bc'.currentBlock=b
 headBlock:bc'.chainDb.headBlock=some (hash b.header)
 otherHeads:OtherHeadsAfter hash k bc bc'

lemma storeBlock_stored(bc:BlockChain)(b:Block)(td:ℕ):
 BlockStored hash b td bc.chainDb (bc.storeBlock hash b td).chainDb where
 getBlock:=getBlock_writeBlock _ b
 tds:=rfl

lemma storeBlock_side(b:Block)(td:ℕ)(hb:bc.blockCache.Agrees bc.chainDb.getBlock)
 (hc:c.Agrees bc.chainDb.tds):
 SideWrite hash b td bc (BlockChain.storeBlock hash {bc with tdCache:=c} b td) where
 stored:=storeBlock_stored {bc with tdCache:=c} b td
 caches:=⟨rfl,hc,hb⟩
 canonical:=rfl
 currentBlock:=rfl
 headBlock:=rfl
 otherHeads:=⟨rfl,rfl,rfl,rfl⟩

lemma BlockStored.of_sameStore(h:SameStore db db')(h':BlockStored hash b td db' db''):
 BlockStored hash b td db db'' where
 getBlock:=by rw[h'.getBlock,h.getBlock]
 tds:=by rw[h'.tds,h.tds]

lemma BlockStored.then_sameStore(h:BlockStored hash b td db db')(h':SameStore db' db''):
 BlockStored hash b td db db'' where
 getBlock:=by rw[h'.getBlock,h.getBlock]
 tds:=by rw[h'.tds,h.tds]

lemma IndexWrite.dropTransactions(h:IndexWrite hash L bc bc')(txs:List Hash):
 IndexWrite hash L bc (bc'.dropTransactions txs):=by
 obtain⟨t,r,he⟩:=dropTransactions_eq bc' txs
 rw[he]
 exact⟨⟨h.store.headers,h.store.bodies,h.store.tds⟩,h.genesisBlock,h.tdCache,h.blockCache,h.assigned,h.kept⟩

lemma storeBlock_canonical(hcaches:CachesAgree bc₀ bc)(hdb:bc.chainDb=bc₀.chainDb)
 (hl:Descent (Parent hash bc₀.chainDb) bc₀.currentBlock l a)
 (hk:Descent (Parent hash bc₀.chainDb) b k a)
 (hfar:∀x∈k,¬Ancestor (Parent hash bc₀.chainDb) x bc₀.currentBlock)(hw:IndexWrite hash k bc bc')
 (hcur:bc'.currentBlock=b∧bc'.chainDb.headBlock=some (hash b.header))
 (hheads:OtherHeadsAfter hash k bc₀ bc'):
 CanonicalWrite hash b td a l k bc₀ (bc'.storeBlock hash b td) where
 stored:=by
  rw[←hdb]
  exact .of_sameStore hw.store (storeBlock_stored bc' b td)
 caches:=by
  refine⟨hw.genesisBlock.trans hcaches.genesisBlock,?_,?_⟩
  ·change bc'.tdCache.Agrees _
   rw[hw.tdCache]
   exact hcaches.tdCache
  change bc'.blockCache.Agrees _
  rw[hw.blockCache]
  exact hcaches.blockCache
 oldPath:=hl
 newPath:=hk
 leaves:=hfar
 assigned:=hw.assigned
 kept:=by
  rw[←hdb]
  exact hw.kept
 currentBlock:=hcur.1
 headBlock:=hcur.2
 otherHeads:=hheads.kept ⟨rfl,rfl,rfl,rfl⟩

lemma chainOk_withTdCache(hc:ChainOk hash U bc)(h:c.Agrees bc.chainDb.tds):
 ChainOk hash U {bc with tdCache:=c}:=
 ⟨hc.store,h,hc.blockCache,hc.head_stored⟩

/-- A block heavier than the head is not on the head's chain. -/
lemma not_ancestor_of_heavier(hU:CollisionFree hash U)(hc:ChainOk hash U bc)
 (hd:PathDifficulty hash bc.chainDb bc.genesisBlock b td)
 (hh:bc.chainDb.tds (hash bc.currentBlock.header)=some headTd)(hlt:headTd<td):
 ¬Ancestor (Parent hash bc.chainDb) b bc.currentBlock:=by
 rintro⟨l,hl⟩
 obtain⟨n,hn,hpath⟩:=hc.store.difficulty _ hc.head_stored
 have hnh:n=headTd:=some.inj (hn.symm.trans hh)
 obtain⟨m,hm,hpath'⟩:=hpath.of_descent hU hc.store hl
 have htd:=hpath'.unique hU hc.store hd
 omega

lemma makeCanonical_spec(hU:CollisionFree hash U)(hc:ChainOk hash U bc)(hb:b∈U)
 (hp:Parent hash bc.chainDb p b)(hnew:¬Ancestor (Parent hash bc.chainDb) b bc.currentBlock):
 ∃(a:Block) (l k:List Block) (bc':BlockChain),bc.makeCanonical hash b=some (bc',none)∧
  ∀td,CanonicalWrite hash b td a l k bc (bc'.storeBlock hash b td):=by
 have hg:=graded hU hc.store
 unfold BlockChain.makeCanonical
 by_cases hpar:b.parentHash=hash bc.currentBlock.header
 ·have hph:p=bc.currentBlock:=
   hU.inj p (hc.store.known p hp.1) _ (hc.store.known _ hc.head_stored) (hp.2.1.trans hpar)
  subst hph
  refine⟨bc.currentBlock,[],[b],bc.insert hash b,by simp[hpar],?_⟩
  intro td
  refine storeBlock_canonical ⟨rfl,hc.tdCache,hc.blockCache⟩ rfl (.refl _)
   (.step hp (.refl _)) ?_ (insert_index hash bc b) (insert_head hash bc b)
   (insert_otherHeads bc b)
  intro x hx
  rwa[mem_singleton.mp hx]
 obtain⟨c,a,l,k,hcache,hl,hk,hfar,hr⟩:=reorg_spec hU hc hb hp
 have hbk:b∈k:=by
  cases hk with
  | refl=>exact absurd ⟨l,hl⟩ hnew
  | step=>simp
 have hdesc:=hk.pairwise_height hg
 have hreplay:IndexWrite hash k {bc with blockCache:=c} _:=
  replay_index k hdesc {bc with blockCache:=c}
 have hdropped:=hreplay.dropTransactions
  (txDifference (l.flatMap Block.transactions) (k.flatMap Block.transactions))
 have hwrite:=hdropped.append_single (insert_index hash _ b) hbk
  (fun y hy=>hk.mem_unique hg hy hbk)
 have hheads:OtherHeadsAfter hash k bc _:=
  .of_caches (replay_otherHeads k hdesc {bc with blockCache:=c})
 rw[if_pos hpar,hr]
 refine⟨a,l,k,_,rfl,?_⟩
 intro td
 have hcaches:CachesAgree bc {bc with blockCache:=c}:=⟨rfl,hc.tdCache,hcache⟩
 refine storeBlock_canonical hcaches rfl hl hk hfar hwrite (insert_head hash _ b) ?_
 refine (hheads.kept (dropTransactions_otherHeads _ _)).kept (insert_otherHeads_kept _ b ?_)
 simp only[Indexed,ChainDb.getCanonicalHash,hdropped.assigned b hbk,getD_some]

/-- `WriteBlock` on a block with a known parent compares two stored total difficulties. -/
lemma writeBlock_eq(hc:ChainOk hash U bc)(hp:Parent hash bc.chainDb p b):
 ∃ptd headTd,∃c:Cache Hash ℕ,c.Agrees bc.chainDb.tds∧bc.chainDb.tds b.parentHash=some ptd∧
  bc.chainDb.tds (hash bc.currentBlock.header)=some headTd∧
  PathDifficulty hash bc.chainDb bc.genesisBlock b (b.difficulty+ptd)∧
  bc.writeBlock hash b=if b.difficulty+ptd>headTd then
    match BlockChain.makeCanonical hash {bc with tdCache:=c} b with
    | none=>none
    | some (bc,some e)=>some (bc,.nonStatTy,some e)
    | some (bc,none)=>
     some (bc.storeBlock hash b (b.difficulty+ptd),.canonStatTy,none)
   else some (BlockChain.storeBlock hash {bc with tdCache:=c} b (b.difficulty+ptd),
    .sideStatTy,none):=by
 obtain⟨ptd,hptd,hpath⟩:=hc.store.difficulty p hp.1
 obtain⟨headTd,hhead,_⟩:=hc.store.difficulty _ hc.head_stored
 rw[hp.2.1]at hptd
 obtain⟨c₁,hc1,h1⟩:=getTd_spec bc hc.tdCache b.parentHash
 obtain⟨c₂,hc2,h2⟩:=getTd_spec {bc with tdCache:=c₁} hc1 (hash bc.currentBlock.header)
 rw[hptd]at h1
 simp only[hhead]at h2
 refine⟨ptd,headTd,c₂,hc2,hptd,hhead,.child hp hpath,?_⟩
 rw[BlockChain.writeBlock,h1]
 dsimp only
 rewrite [h2]
 rfl

/-- Everything a `WriteBlock` call on a block with a known parent can do. -/
lemma writeBlock_cases(hU:CollisionFree hash U)(hc:ChainOk hash U bc)(hb:b∈U)
 (hp:Parent hash bc.chainDb p b):
 ∃ptd headTd,bc.chainDb.tds b.parentHash=some ptd∧
  bc.chainDb.tds (hash bc.currentBlock.header)=some headTd∧
  PathDifficulty hash bc.chainDb bc.genesisBlock b (b.difficulty+ptd)∧
  ((b.difficulty+ptd≤headTd∧∃bc',bc.writeBlock hash b=some (bc',.sideStatTy,none)∧
    SideWrite hash b (b.difficulty+ptd) bc bc')∨
   (headTd<b.difficulty+ptd∧∃a l k bc',bc.writeBlock hash b=some (bc',.canonStatTy,none)∧
     CanonicalWrite hash b (b.difficulty+ptd) a l k bc bc')):=by
 obtain⟨ptd,headTd,c,hcache,hptd,hhead,hd,hr⟩:=writeBlock_eq hc hp
 refine⟨ptd,headTd,hptd,hhead,hd,?_⟩
 rw[hr]
 by_cases hgt:b.difficulty+ptd>headTd
 ·have hnew:=not_ancestor_of_heavier hU hc hd hhead hgt
  obtain⟨a,l,k,bc',hm,hw⟩:=makeCanonical_spec hU (chainOk_withTdCache hc hcache) hb hp hnew
  have hw':=hw (b.difficulty+ptd)
  rw[if_pos hgt,hm]
  refine .inr ⟨hgt,a,l,k,_,rfl,?_⟩
  exact⟨hw'.stored,⟨hw'.caches.genesisBlock,hw'.caches.tdCache,hw'.caches.blockCache⟩,
   hw'.oldPath,hw'.newPath,hw'.leaves,hw'.assigned,hw'.kept,hw'.currentBlock,
   hw'.headBlock,.of_caches hw'.otherHeads⟩
 exact .inl ⟨by omega,_,by simp only[if_neg hgt],storeBlock_side b _ hc.blockCache hcache⟩

end GoCoupe.BlockChainWrites
