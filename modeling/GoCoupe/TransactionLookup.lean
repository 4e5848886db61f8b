import GoCoupe.TransactionNonces
import GoCoupe.LookupTables

/-!
# Transaction lookup through reorganisations

`reorg` writes the entries of the new branch and deletes those of the old one that are not
repeated. What remains is one entry for every transaction on the path of the head.
-/

namespace GoCoupe.TransactionLookup
open BlockChainModel BlockChainInvariants BlockChainWrites BlockChainRuns DescentPaths List Function
open TransactionNonces LookupTables

section Insertions

variable {hash:Header→Hash} {sender:Hash→Address} {nonce:Hash→ℕ} {U:Set Block}
 {nonces:Block→Address→ℕ} {bc bc':BlockChain} {b p:Block} {rs:List Receipt}

variable {db db':ChainDb} {genesis x:Block}

lemma parent_congr(h:SameStore db db'):Parent hash db'=Parent hash db:=by
 funext q x
 simp only[Parent,Stored,h.getBlock]

lemma pathDifficulty_congr(h:SameStore db db')
 (hd:PathDifficulty hash db genesis b n):PathDifficulty hash db' genesis b n:=by
 induction hd with
 | genesis=>exact .genesis
 | child hp _ ih=>
  refine .child ?_ ih
  rwa[parent_congr h]

lemma storeOk_congr(h:SameStore db db')(hs:StoreOk hash U genesis db):StoreOk hash U genesis db':=by
 have hstored:∀x,Stored hash db' x↔Stored hash db x:=fun x=>by
  rw[Stored,Stored,h.getBlock]
 refine⟨fun k x hx=>hs.keyed k x (h.getBlock▸hx),fun x hx=>hs.known x ((hstored x).1 hx),
  (hstored _).2 hs.genesis_stored,hs.genesis_number,fun x hx=>?_,fun x hx=>?_,
  fun k n hn=>?_⟩
 ·rw[parent_congr h]
  exact hs.linked x ((hstored x).1 hx)
 ·obtain⟨n,hn,hd⟩:=hs.difficulty x ((hstored x).1 hx)
  exact⟨n,h.tds▸hn,pathDifficulty_congr h hd⟩
 obtain⟨x,hx,hk⟩:=hs.tds_stored k n (h.tds▸hn)
 exact⟨x,(hstored x).2 hx,hk⟩

/-- Only tables that the chain logic does not read differ. -/
lemma chainOk_withDb(h:SameStore bc.chainDb db)(hc:ChainOk hash U bc):
 ChainOk hash U {bc with chainDb:=db}:=by
 refine⟨storeOk_congr h hc.store,?_,?_,?_⟩
 ·dsimp only
  rw[h.tds]
  exact hc.tdCache
 ·dsimp only
  rw[h.getBlock]
  exact hc.blockCache
 rw[Stored,h.getBlock]
 exact hc.head_stored

lemma stored_of_ancestor(h:Ancestor (Parent hash db) x y)(hy:Stored hash db y):Stored hash db x:=by
 obtain⟨l,hl⟩:=h
 induction hl with
 | refl=>exact hy
 | step hp _ ih=>exact ih hp.1

lemma stored_or_eq(h:Ancestor (Parent hash db) x y):Stored hash db x∨x=y:=by
 obtain⟨l,hl⟩:=h
 cases hl with
 | refl=>exact .inr rfl
 | step hp tail=>exact .inl (stored_of_ancestor tail.ancestor hp.1)

/-- Every block on the path of `b` has its parent stored, unless it is genesis. -/
lemma linked_of_ancestor(hs:StoreOk hash U genesis db)(hp:Parent hash db p b)
 (hz:Ancestor (Parent hash db) z b):z=genesis∨∃q,Parent hash db q z:=by
 rcases stored_or_eq hz with hz|rfl
 ·exact hs.linked z hz
 exact .inr ⟨p,hp⟩

lemma ancestor_of_mem(hk:Descent (Parent hash db) b k a)(hx:x∈k):Ancestor (Parent hash db) x b:=by
 obtain⟨l₁,_,_,h1,_⟩:=hk.split_mem hx
 exact⟨l₁,h1⟩

lemma sameStore_writes(b:Block)(rs:List Receipt)(db:ChainDb):
 SameStore db ((db.writeTransactions hash b).writeReceipts rs):=by
 obtain⟨t,ht⟩:=writeTransactions_eq hash db b
 obtain⟨r,hr⟩:=writeReceipts_eq (db.writeTransactions hash b) rs
 rw[hr,ht]
 exact⟨rfl,rfl,rfl⟩

variable (hU:CollisionFree hash U) (hN:Processed hash sender nonce U nonces)
 (hc:ChainOk hash U bc) (hg:bc.genesisBlock.transactions=[]) (hb:b∈U)
 (hp:Parent hash bc.chainDb p b)

include hU hN hc hg hb hp

lemma noRepeat_of_descent(hk:Descent (Parent hash bc.chainDb) b k a):NoRepeat k:=by
 have hanc:∀x∈k,Ancestor (Parent hash bc.chainDb) x b:=fun x=>ancestor_of_mem hk
 refine⟨fun x hx=>?_,fun x hx y hy tx htx hty=>?_⟩
 ·rcases linked_of_ancestor hc.store hp (hanc x hx) with rfl|⟨q,hq⟩
  ·rw[hg]
   exact .nil
  obtain⟨_,hl⟩:=hanc x hx
  exact nodup_transactions hN hc.store (mem_of_descent hc.store hb hl) hq
 exact block_unique hU hN hc.store hb (hanc x hx) (hanc y hy)
  (fun z hz=>linked_of_ancestor hc.store hp hz) hg htx hty

def HasReceipts (hash:Header→Hash) (db:ChainDb) (b:Block):Prop:=
 ∃rs,db.blockReceipts (hash b.header)=some rs ∧ Covers b rs

/-- What making a heavier block canonical does to the lookup tables. When the parent is the
head the tables are left to the caller. -/
lemma makeCanonical_lookup(hnew:¬Ancestor (Parent hash bc.chainDb) b bc.currentBlock)
 (hR:∀x,Stored hash bc.chainDb x∨x=b→HasReceipts hash bc.chainDb x):
 ∃(a:Block) (l k:List Block) (bc':BlockChain),bc.makeCanonical hash b=some (bc',none)∧b∈k∧
  Descent (Parent hash bc.chainDb) bc.currentBlock l a∧
  Descent (Parent hash bc.chainDb) b k a∧
  ∀db,LookupWrite hash [b] bc'.chainDb db → LookupMove hash l k bc.chainDb db:=by
 unfold BlockChain.makeCanonical
 by_cases hpar:b.parentHash=hash bc.currentBlock.header
 ·have hph:p=bc.currentBlock:=
   hU.inj p (hc.store.known p hp.1) _ (hc.store.known _ hc.head_stored) (hp.2.1.trans hpar)
  subst hph
  refine⟨bc.currentBlock,[],[b],bc.insert hash b,by simp[hpar],by simp,.refl _,
   .step hp (.refl _),fun db h=>?_⟩
  exact (LookupWrite.of_same (sameLookups_insert hash bc b) h).move
 obtain⟨c,a,l,k,-,hl,hk,-,hr⟩:=reorg_spec hU hc hb hp
 have hbk:b∈k:=by
  cases hk with
  | refl=>exact absurd ⟨l,hl⟩ hnew
  | step=>simp
 have hrep:=noRepeat_of_descent hU hN hc hg hb hp hk
 have hmove:LookupMove hash l k bc.chainDb (BlockChain.dropTransactions
  (k.foldl (BlockChain.insertCanonical hash) {bc with blockCache:=c})
  (txDifference (l.flatMap Block.transactions) (k.flatMap Block.transactions))).chainDb:=
  lookupMove_replay {bc with blockCache:=c} hrep fun x hx=>hR x (stored_or_eq (ancestor_of_mem hk hx))
 rw[if_pos hpar,hr]
 refine⟨a,l,k,_,rfl,hbk,hl,hk,fun db h=>?_⟩
 exact (hmove.then_same (sameLookups_insert hash _ b)).again hbk hrep h

/-- The lookup tables hold the transactions on the path of `head`, and no others. -/
structure LookupOk (hash:Header→Hash) (db:ChainDb) (head:Block):Prop where
 found:∀b,Ancestor (Parent hash db) b head→∀tx∈b.transactions,
  db.txs tx=some (position hash b tx) ∧ db.receipts tx=some ⟨tx⟩
 absent:∀tx,(∀b,Ancestor (Parent hash db) b head→tx∉b.transactions) →
  db.txs tx=none ∧ db.receipts tx=none

/-- What inserting a block does to the lookup tables: nothing, or it exchanges the branches
that lead to the old and to the new head. -/
def Exchanged (hash:Header→Hash) (b:Block) (bc bc':BlockChain):Prop:=
 (bc'.currentBlock=bc.currentBlock ∧ bc'.chainDb.txs=bc.chainDb.txs ∧
  bc'.chainDb.receipts=bc.chainDb.receipts) ∨
 (bc'.currentBlock=b ∧ ∃a l k db,db.txs=bc.chainDb.txs ∧ db.receipts=bc.chainDb.receipts ∧
  Descent (Parent hash bc.chainDb) bc.currentBlock l a ∧
  Descent (Parent hash bc.chainDb) b k a ∧ LookupMove hash l k db bc'.chainDb)

/-- Inserting a block with a known parent succeeds. -/
lemma insertBlock_cases(hR:∀x,Stored hash bc.chainDb x→HasReceipts hash bc.chainDb x)(hrs:Covers b rs):
 ∃bc' td,bc.insertBlock hash b rs=some (bc',none)∧PathDifficulty hash bc.chainDb bc.genesisBlock b td∧
  BlockStored hash b td bc.chainDb bc'.chainDb∧CachesAgree bc bc'∧
  bc'.chainDb.blockReceipts = Function.update bc.chainDb.blockReceipts (hash b.header) (some rs)∧
  Exchanged hash b bc bc':=by
 let db₁:=bc.chainDb.writeBlockReceipts (hash b.header) rs
 let bc₁:BlockChain:={bc with chainDb:=db₁}
 have hsame:SameStore bc.chainDb db₁:=⟨rfl,rfl,rfl⟩
 have hc1:ChainOk hash U bc₁:=chainOk_withDb hsame hc
 have hR1:∀x,Stored hash bc₁.chainDb x∨x=b→HasReceipts hash bc₁.chainDb x:=by
  intro x hx
  by_cases he:hash x.header=hash b.header
  ·obtain rfl:x=b:=hx.elim (fun hx=>hU.inj x (hc.store.known x hx) b hb he) id
   exact⟨rs,update_self _ _ _,hrs⟩
  have hx:Stored hash bc.chainDb x:=hx.resolve_right fun h=>he (by rw[h])
  obtain⟨rs',hget,hcov⟩:=hR x hx
  exact⟨rs',(update_of_ne he _ _).trans hget,hcov⟩
 obtain⟨ptd,headTd,c,hcache,-,hhead,hd,hr⟩:=writeBlock_eq hc1 hp
 have hd0:PathDifficulty hash bc.chainDb bc.genesisBlock b (b.difficulty+ptd):=
  pathDifficulty_congr (show SameStore db₁ bc.chainDb from⟨rfl,rfl,rfl⟩) hd
 by_cases hgt:b.difficulty+ptd>headTd
 ·have hnew:=not_ancestor_of_heavier hU hc1 hd hhead hgt
  have hc2:ChainOk hash U {bc₁ with tdCache:=c}:=chainOk_withTdCache hc1 hcache
  obtain⟨a,l,k,bc',hm,-,hl,hk,hmove⟩:=makeCanonical_lookup hU hN hc2 hg hb hp hnew hR1
  obtain⟨_,_,_,bc'',hm',hw⟩:=makeCanonical_spec hU hc2 hb hp hnew
  obtain rfl:bc'=bc'':=by simpa using hm.symm.trans hm'
  replace hw:=hw (b.difficulty+ptd)
  rw[if_pos hgt,hm]at hr
  let bc₃:=bc'.storeBlock hash b (b.difficulty+ptd)
  have hnd:b.transactions.Nodup:=nodup_transactions hN hc.store hb hp
  have hwrite:LookupWrite hash [b] bc₃.chainDb _:=lookupWrite_single hnd hrs _
  have hstore:SameLookups bc'.chainDb bc₃.chainDb:=⟨rfl,rfl,rfl⟩
  have hmove':=hmove _ (.of_same hstore hwrite)
  refine⟨{bc₃ with chainDb:=(bc₃.chainDb.writeTransactions hash b).writeReceipts rs},
   b.difficulty+ptd,?_,hd0,?_,?_,hmove'.blockReceipts,.inr ⟨hw.currentBlock,a,l,k,
    db₁,rfl,rfl,hl,hk,hmove'⟩⟩
  ·rw[BlockChain.insertBlock,hr]
  ·exact .of_sameStore hsame (hw.stored.then_sameStore (sameStore_writes b rs _))
  exact⟨hw.caches.genesisBlock,hw.caches.tdCache,hw.caches.blockCache⟩
 rw[if_neg hgt]at hr
 let bc₂:BlockChain:={bc₁ with tdCache:=c}
 have hside:SideWrite hash b (b.difficulty+ptd) bc₁
  (bc₂.storeBlock hash b (b.difficulty+ptd)):=
  storeBlock_side b (b.difficulty+ptd) hc1.blockCache hcache
 refine⟨bc₂.storeBlock hash b (b.difficulty+ptd),b.difficulty+ptd,?_,hd0,
  .of_sameStore hsame hside.stored,⟨rfl,hside.caches.tdCache,hside.caches.blockCache⟩,rfl,
  .inl ⟨rfl,rfl,rfl⟩⟩
 rw[BlockChain.insertBlock,hr]

end Insertions

section Runs

variable (hash:Header→Hash) (U:Set Block)

inductive InsertRun (start:BlockChain):List Block→BlockChain→Prop
 | nil:InsertRun start [] start
 | insert {bs:List Block} {bc bc':BlockChain} {b:Block} {rs:List Receipt}
  (before:InsertRun start bs bc) (hb:b∈U) (hp:∃p,Parent hash bc.chainDb p b)
  (hrs:Covers b rs) (hr:bc.insertBlock hash b rs=some (bc',none)) :
  InsertRun start (bs++[b]) bc'

structure InsertOk (bc:BlockChain):Prop where
 chain:ChainOk hash U bc
 genesis:bc.genesisBlock.transactions=[]
 receipts:∀x,Stored hash bc.chainDb x→HasReceipts hash bc.chainDb x
 lookup:LookupOk hash bc.chainDb bc.currentBlock

variable {hash U} {sender:Hash→Address} {nonce:Hash→ℕ} {nonces:Block→Address→ℕ}
 {bc bc':BlockChain} {genesis b p:Block} {rs:List Receipt} {bs:List Block}

section

variable (hU:CollisionFree hash U) (hc:ChainOk hash U bc) (hc':ChainOk hash U bc')
 (hgen:bc'.genesisBlock=bc.genesisBlock) (hb:b∈U)

include hU hc hc' hgen hb

/-- The new block has no other ancestors than before it was stored. -/
lemma ancestor_iff_of_stored(hs:BlockStored hash b td bc.chainDb bc'.chainDb)
 (hy:Stored hash bc.chainDb y):
 Ancestor (Parent hash bc'.chainDb) x y↔Ancestor (Parent hash bc.chainDb) x y:=
 ⟨hs.ancestor_of_stored hU hc.store (hgen▸hc'.store) hb hy,
  fun h=>h.mono fun _ _=>hs.parent_mono hU hc.store hb⟩

lemma ancestor_iff_of_parent(hp:Parent hash bc.chainDb p b)
 (hs:BlockStored hash b td bc.chainDb bc'.chainDb):
 Ancestor (Parent hash bc'.chainDb) x b↔Ancestor (Parent hash bc.chainDb) x b:=by
 refine⟨fun h=>?_,fun h=>h.mono fun _ _=>hs.parent_mono hU hc.store hb⟩
 by_cases hxb:x=b
 ·exact hxb ▸ .refl x
 have hxp:=h.of_parent (graded hU hc'.store) (hs.parent_mono hU hc.store hb hp) hxb
 exact ((ancestor_iff_of_stored hU hc hc' hgen hb hs hp.1).1 hxp).trans (.parent hp)

end

section

variable (hU:CollisionFree hash U) (hN:Processed hash sender nonce U nonces)
 (hok:InsertOk hash U bc) (hb:b∈U) (hp:Parent hash bc.chainDb p b)

include hU hN hok hb hp

/-- Exchanging the two branches keeps the tables right. -/
lemma lookupOk_of_move(hanc:∀x,Ancestor (Parent hash bc'.chainDb) x b↔Ancestor (Parent hash bc.chainDb) x b)
 (htxs:db.txs=bc.chainDb.txs)(hreceipts:db.receipts=bc.chainDb.receipts)
 (hl:Descent (Parent hash bc.chainDb) bc.currentBlock l a)
 (hk:Descent (Parent hash bc.chainDb) b k a)
 (hm:LookupMove hash l k db bc'.chainDb):LookupOk hash bc'.chainDb b:=by
 have hg:=graded hU hok.chain.store
 have hhead:=hok.chain.store.known _ hok.chain.head_stored
 have hunique:∀{x y:Block} {tx:Hash},Ancestor (Parent hash bc.chainDb) x bc.currentBlock →
  Ancestor (Parent hash bc.chainDb) y bc.currentBlock →
  tx∈x.transactions→tx∈y.transactions→x=y:=by
  intro x y tx hx hy
  refine block_unique hU hN hok.chain.store hhead hx hy (fun z hz=>?_) hok.genesis
  exact hok.chain.store.linked z (stored_of_ancestor hz hok.chain.head_stored)
 constructor
 ·intro x hx tx htx
  by_cases hnew:∃y∈k,tx∈y.transactions
  ·obtain⟨y,hy,hty⟩:=hnew
   obtain rfl:y=x:=block_unique hU hN hok.chain.store hb (ancestor_of_mem hk hy)
    ((hanc x).1 hx) (fun z=>linked_of_ancestor hok.chain.store hp) hok.genesis hty htx
   exact⟨hm.txs y hy tx htx,hm.receipts y hy tx htx⟩
  replace hnew:∀y∈k,tx∉y.transactions:=fun y hy hty=>hnew ⟨y,hy,hty⟩
  have hxa:Ancestor (Parent hash bc.chainDb) x a:=
   (((hanc x).1 hx).mem_or_ancestor hg hk).resolve_left fun h=>hnew x h htx
  have hxh:=hxa.trans hl.ancestor
  have hold:∀y∈l,tx∉y.transactions:=by
   intro y hy hty
   obtain rfl:=hunique (ancestor_of_mem hl hy) hxh hty htx
   have h1:=(hl.mem_height hg hy).1
   have h2:=hxa.height_le hg
   omega
  obtain⟨h1,h2⟩:=hm.kept tx hnew hold
  rw[h1,h2,htxs,hreceipts]
  exact hok.lookup.found x hxh tx htx
 intro tx htx
 have hnew:∀y∈k,tx∉y.transactions:=fun y hy=>htx y ((hanc y).2 (ancestor_of_mem hk hy))
 by_cases hold:∃y∈l,tx∈y.transactions
 ·exact hm.dropped tx hnew hold
 replace hold:∀y∈l,tx∉y.transactions:=fun y hy hty=>hold ⟨y,hy,hty⟩
 obtain⟨h1,h2⟩:=hm.kept tx hnew hold
 rw[h1,h2,htxs,hreceipts]
 refine hok.lookup.absent tx fun y hy=>?_
 rcases hy.mem_or_ancestor hg hl with hy|hy
 ·exact hold y hy
 exact htx y ((hanc y).2 (hy.trans hk.ancestor))

lemma InsertOk.insert(hrs:Covers b rs)
 (hr:bc.insertBlock hash b rs=some (bc',none)):InsertOk hash U bc':=by
 obtain⟨bc'',td,hr',hd,hst,hcaches,hbr,hex⟩:=
  insertBlock_cases hU hN hok.chain hok.genesis hb hp hok.receipts hrs
 obtain rfl:bc''=bc':=by simpa using hr'.symm.trans hr
 have hhead:Stored hash bc''.chainDb bc''.currentBlock:=by
  rcases hex with⟨hcur,-,-⟩|⟨hcur,-⟩
  ·rw[hcur]
   exact hst.stored_mono hU hok.chain.store hb hok.chain.head_stored
  rw[hcur]
  exact hst.stored_self
 have hc':=chainOk_of_stored hU hok.chain hb hp hd hst hcaches hhead
 refine⟨hc',hcaches.genesisBlock▸hok.genesis,fun x hx=>?_,?_⟩
 ·rw[HasReceipts,hbr]
  by_cases he:hash x.header=hash b.header
  ·obtain rfl:=hU.inj x (hc'.store.known x hx) b hb he
   exact⟨rs,update_self _ _ _,hrs⟩
  have hold:Stored hash bc.chainDb x:=(hst.stored_cases hx).resolve_left fun h=>he (by rw[h])
  rw[update_of_ne he]
  exact hok.receipts x hold
 rcases hex with⟨hcur,htxs,hreceipts⟩|⟨hcur,a,l,k,db,htxs,hreceipts,hl,hk,hm⟩
 ·have hanc:∀x,Ancestor (Parent hash bc''.chainDb) x bc.currentBlock↔_:=fun x=>
   ancestor_iff_of_stored hU hok.chain hc' hcaches.genesisBlock hb hst hok.chain.head_stored
  rw[hcur]
  refine⟨fun x hx=>?_,fun tx htx=>?_⟩
  ·rw[htxs,hreceipts]
   exact hok.lookup.found x ((hanc x).1 hx)
  rw[htxs,hreceipts]
  exact hok.lookup.absent tx fun x hx=>htx x ((hanc x).2 hx)
 rw[hcur]
 refine lookupOk_of_move hU hN hok hb hp (fun x=>?_) htxs hreceipts hl hk hm
 exact ancestor_iff_of_parent hU hok.chain hc' hcaches.genesisBlock hb hp hst

end

lemma insertOk_newBlockChain(hg:genesis∈U)(h0:genesis.number=0)
 (hempty:genesis.transactions=[]):InsertOk hash U (newBlockChain hash genesis):=by
 have hc:=chainOk_newBlockChain hash hg h0
 refine⟨hc,hempty,fun x hx=>?_,fun x hx tx htx=>?_,fun tx _=>⟨rfl,rfl⟩⟩
 ·obtain rfl:=stored_newBlockChain_iff.1 hx
  exact⟨[],update_self _ _ _,hempty.symm⟩
 obtain rfl:=stored_newBlockChain_iff.1 (stored_of_ancestor hx hc.head_stored)
 rw[hempty]at htx
 cases htx

section

variable (hU:CollisionFree hash U) (hN:Processed hash sender nonce U nonces) (hg:genesis∈U)
 (h0:genesis.number=0) (hempty:genesis.transactions=[])
 (h:InsertRun hash U (newBlockChain hash genesis) bs bc)

include hU hN hg h0 hempty h

lemma InsertRun.insertOk:InsertOk hash U bc:=by
 induction h with
 | nil=>exact insertOk_newBlockChain hg h0 hempty
 | insert _ hb hp hrs hr ih=>
  obtain⟨p,hp⟩:=hp
  exact ih.insert hU hN hb hp hrs hr

def inserted (hash:Header→Hash) (bc:BlockChain) (b:Block) (rs:List Receipt):BlockChain:=
 match bc.insertBlock hash b rs with
 | some (bc',_)=>bc'
 | none=>bc

lemma InsertRun.inserted(p:Block)(hb:b∈U)(hp:Parent hash bc.chainDb p b)(hrs:Covers b rs):
 InsertRun hash U (newBlockChain hash genesis) (bs++[b])
  (TransactionLookup.inserted hash bc b rs):=by
 have hok:=h.insertOk hU hN hg h0 hempty
 obtain⟨bc',_,hr,_⟩:=insertBlock_cases hU hN hok.chain hok.genesis hb hp hok.receipts hrs
 have he:TransactionLookup.inserted hash bc b rs=bc':=by
  simp only[TransactionLookup.inserted,hr]
 rw[he]
 exact .insert h hb ⟨p,hp⟩ hrs hr

end

/-- After every insertion a transaction on the path of the head is found at its place there
and has a receipt, any other is not found and has none, and a further insertion on a stored
parent succeeds. -/
theorem lookup_follows_canonical_chain (hU : CollisionFree hash U)
    (hN : Processed hash sender nonce U nonces) (hg : genesis ∈ U) (h₀ : genesis.number = 0)
    (hempty : genesis.transactions = [])
    (h : InsertRun hash U (newBlockChain hash genesis) bs bc) :
    (∀ b, Ancestor (Parent hash bc.chainDb) b bc.currentBlock → ∀ i tx,
      b.transactions[i]? = some tx →
        bc.chainDb.getTransaction tx = some (tx, ⟨hash b.header, b.number, i⟩) ∧
        ∃ r, bc.chainDb.getReceipt tx = some r ∧ r.txHash = tx) ∧
    (∀ tx, (∀ b, Ancestor (Parent hash bc.chainDb) b bc.currentBlock → tx ∉ b.transactions) →
      bc.chainDb.getTransaction tx = none ∧ bc.chainDb.getReceipt tx = none) ∧
    ∀ b ∈ U, ∀ p, Parent hash bc.chainDb p b → ∀ rs, Covers b rs →
      ∃ bc', bc.insertBlock hash b rs = some (bc', none) := by
 have hok:=h.insertOk hU hN hg h₀ hempty
 refine⟨fun b hb i tx hi=>?_,fun tx htx=>?_,fun b hb p hp rs hrs=>?_⟩
 · obtain⟨hlt,rfl⟩:=List.getElem?_eq_some_iff.1 hi
   have hmem:b.transactions[i]∈b.transactions:=getElem_mem hlt
   obtain⟨h1,h2⟩:=hok.lookup.found b hb _ hmem
   have hnd:b.transactions.Nodup:=by
    rcases hok.chain.store.linked b (stored_of_ancestor hb hok.chain.head_stored) with
     rfl | ⟨q,hq⟩
    · rw[hok.genesis]
      exact .nil
    have hbU:=hok.chain.store.known b (stored_of_ancestor hb hok.chain.head_stored)
    exact nodup_transactions hN hok.chain.store hbU hq
   rw[position,hnd.idxOf_getElem i hlt] at h1
   refine⟨?_,⟨_⟩,h2,rfl⟩
   rw[ChainDb.getTransaction,h1]
   rfl
 · obtain⟨h1,h2⟩:=hok.lookup.absent tx htx
   refine⟨?_,h2⟩
   rw[ChainDb.getTransaction,h1]
   rfl
 obtain⟨bc',_,hr,_⟩:=insertBlock_cases hU hN hok.chain hok.genesis hb hp hok.receipts hrs
 exact⟨bc',hr⟩

end Runs

/-! ### A transaction that moves to the other branch

`first` holds transaction 7 and `second`, on top of it, transaction 8. The heavier `rival` of
`first` holds 9 and 8. Every transaction has a sender of its own. -/

namespace Branches

def headerHash (h:Header):Hash:=Fin.ofNat (2^256) (h.nonce+1)

def block (parent:Hash) (number difficulty nonce:ℕ) (txs:List Hash):Block:=
 ⟨⟨parent,number,difficulty,nonce⟩,⟨txs,[]⟩⟩

def root:Block:=block 0 0 1 0 []
def first:Block:=block 1 1 1 1 [7]
def second:Block:=block 2 2 1 2 [8]
def rival:Block:=block 1 1 5 3 [9,8]

def blocks:Set Block:={b | b∈[root,first,second,rival]}

def sender (tx:Hash):Address:=Fin.ofNat (2^160) tx

/-- One for every sender that has been heard of. -/
def after (heard:List Address) (a:Address):ℕ:=if a∈heard then 1 else 0

def nonces (b:Block):Address→ℕ:=
 after (([[],[7],[8,7],[8,9]]:List (List Address)).getD b.header.nonce [])

lemma nonceSpent_after(h:sender tx∉heard):
 NonceSpent sender (fun _=>0) tx (after heard) (after (sender tx::heard)):=by
 refine⟨(if_neg h).symm,?_,fun a=>?_⟩
 ·rw[after,after,if_neg h,if_pos mem_cons_self]
  exact Nat.zero_lt_one
 by_cases ha:a∈heard
 ·rw[after,after,if_pos ha,if_pos (mem_cons_of_mem _ ha)]
 rw[after,if_neg ha]
 exact Nat.zero_le _

lemma applied_nil(heard:List Address):
 Applied sender (fun _=>0) (after heard) [] (after heard):=.nil fun _=>le_rfl

lemma processed:Processed headerHash sender (fun _=>0) blocks nonces:=by
 have hpairs:∀p∈[root,first,second,rival],∀b∈[root,first,second,rival],
  headerHash p.header=b.parentHash→(p,b)∈[(root,first),(first,second),(root,rival)]:=by decide +kernel
 intro p hp b hb he
 have h:=hpairs p hp b hb he
 simp only[mem_cons,Prod.mk.injEq,not_mem_nil,or_false]at h
 rcases h with⟨rfl,rfl⟩|⟨rfl,rfl⟩|⟨rfl,rfl⟩
 ·exact .cons (nonceSpent_after (by decide)) (applied_nil [7])
 ·exact .cons (nonceSpent_after (by decide)) (applied_nil [8,7])
 exact .cons (nonceSpent_after (by decide))
  (.cons (nonceSpent_after (by decide)) (applied_nil [8,9]))

lemma collisionFree:CollisionFree headerHash blocks where
 inj:=by
  have h:∀a∈[root,first,second,rival],∀b∈[root,first,second,rival],
   headerHash a.header=headerHash b.header→a=b:=by decide +kernel
  exact h
 nonzero:=by
  have h:∀a∈[root,first,second,rival],headerHash a.header≠0:=by decide +kernel
  exact h

lemma root_mem:root∈blocks:=by simp[blocks]

def afterFirst:BlockChain:=inserted headerHash (newBlockChain headerHash root) first [⟨7⟩]
def afterSecond:BlockChain:=inserted headerHash afterFirst second [⟨8⟩]
def afterRival:BlockChain:=inserted headerHash afterSecond rival [⟨9⟩,⟨8⟩]

lemma rival_run:InsertRun headerHash blocks (newBlockChain headerHash root)
 [first,second,rival] afterRival:=by
 have h1:InsertRun headerHash blocks (newBlockChain headerHash root) [first] afterFirst:=
  InsertRun.nil.inserted collisionFree processed root_mem rfl rfl root (by simp[blocks])
   ⟨by unfold Stored;decide +kernel,by decide +kernel,rfl⟩ rfl
 have h2:InsertRun headerHash blocks (newBlockChain headerHash root) [first,second]
  afterSecond:=
  h1.inserted collisionFree processed root_mem rfl rfl first (by simp[blocks])
   ⟨by unfold Stored;decide +kernel,by decide +kernel,rfl⟩ rfl
 exact h2.inserted collisionFree processed root_mem rfl rfl root (by simp[blocks])
  ⟨by unfold Stored;decide +kernel,by decide +kernel,rfl⟩ rfl

/-- Transaction 8 is found at its new place, and transaction 7 is gone. -/
theorem lookup_follows_canonical_chain_rival :
    afterSecond.chainDb.getTransaction 8 = some (8, ⟨headerHash second.header, 2, 0⟩) ∧
    afterRival.chainDb.getTransaction 8 = some (8, ⟨headerHash rival.header, 1, 1⟩) ∧
    afterRival.chainDb.getTransaction 7 = none := by
 have h:=lookup_follows_canonical_chain collisionFree processed root_mem rfl rfl rival_run
 have hhead:afterRival.currentBlock=rival:=by decide +kernel
 refine⟨by decide +kernel,?_,by decide +kernel⟩
 exact (h.1 rival (by rw[hhead]; exact .refl _) 1 8 rfl).1

end Branches

end GoCoupe.TransactionLookup
