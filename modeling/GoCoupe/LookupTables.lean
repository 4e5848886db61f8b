import GoCoupe.BlockInsertion
import GoCoupe.BlockChainWrites

/-!
# The tables of transactions and receipts

What the accessors and `reorg` write into them and delete from them. The entries of several
blocks do not depend on the order of writing as long as the blocks share no transaction.
-/

namespace GoCoupe.LookupTables
open BlockChainModel BlockChainWrites List

variable (hash:Header→Hash)

def position (b:Block) (tx:Hash):TxMeta:=⟨hash b.header,b.number,b.transactions.idxOf tx⟩

/-- `rs` are receipts of the transactions of `b`, in order. -/
def Covers (b:Block) (rs:List Receipt):Prop:=rs.map Receipt.txHash=b.transactions

structure SameLookups (db db':ChainDb):Prop where
 txs:db'.txs=db.txs
 receipts:db'.receipts=db.receipts
 blockReceipts:db'.blockReceipts=db.blockReceipts

structure LookupWrite (L:List Block) (db db':ChainDb):Prop where
 txs:∀b∈L,∀tx∈b.transactions,db'.txs tx=some (position hash b tx)
 receipts:∀b∈L,∀tx∈b.transactions,db'.receipts tx=some ⟨tx⟩
 txs_kept:∀tx,(∀b∈L,tx∉b.transactions)→db'.txs tx=db.txs tx
 receipts_kept:∀tx,(∀b∈L,tx∉b.transactions)→db'.receipts tx=db.receipts tx
 blockReceipts:db'.blockReceipts=db.blockReceipts

structure LookupMove (l k:List Block) (db db':ChainDb):Prop where
 txs:∀b∈k,∀tx∈b.transactions,db'.txs tx=some (position hash b tx)
 receipts:∀b∈k,∀tx∈b.transactions,db'.receipts tx=some ⟨tx⟩
 dropped:∀tx,(∀b∈k,tx∉b.transactions)→(∃b∈l,tx∈b.transactions) →
  db'.txs tx=none ∧ db'.receipts tx=none
 kept:∀tx,(∀b∈k,tx∉b.transactions)→(∀b∈l,tx∉b.transactions) →
  db'.txs tx=db.txs tx ∧ db'.receipts tx=db.receipts tx
 blockReceipts:db'.blockReceipts=db.blockReceipts

variable {hash} {db db' db'':ChainDb}

lemma txs_foldl(h:Hash)(n:ℕ)(txs:List Hash)(hnd:txs.Nodup)(i:ℕ)(db:ChainDb)(tx:Hash):
 ((txs.zipIdx i).foldl (fun (db:ChainDb) (tx:Hash × ℕ)=>
  {db with txs:=Function.update db.txs tx.1 (some ⟨h,n,tx.2⟩)}) db).txs tx =
  if tx∈txs then some ⟨h,n,i+txs.idxOf tx⟩ else db.txs tx:=by
 induction txs generalizing i db with
 | nil=>rfl
 | cons t txs ih=>
  obtain⟨ht,hnd⟩:=nodup_cons.1 hnd
  rw[zipIdx_cons,foldl_cons,ih hnd]
  rcases eq_or_ne tx t with rfl|hne
  ·simp[ht]
  by_cases hm:tx∈txs
  ·rw[if_pos hm,if_pos (mem_cons_of_mem t hm),idxOf_cons_ne _ hne.symm]
   congr 2
   omega
  simp[hm,hne]

variable {b:Block} {rs:List Receipt} {L k l:List Block} {bc:BlockChain}

lemma txs_writeTransactions(hnd:b.transactions.Nodup)(db:ChainDb)(tx:Hash):
 (db.writeTransactions hash b).txs tx =
  if tx∈b.transactions then some (position hash b tx) else db.txs tx:=by
 have h:=txs_foldl (hash b.header) b.number b.transactions hnd 0 db tx
 rw[Nat.zero_add]at h
 exact h

lemma receipts_writeReceipts(rs:List Receipt)(db:ChainDb)(tx:Hash):
 (db.writeReceipts rs).receipts tx =
  if tx∈rs.map Receipt.txHash then some ⟨tx⟩ else db.receipts tx:=by
 unfold ChainDb.writeReceipts
 induction rs generalizing db with
 | nil=>rfl
 | cons r rs ih=>
  rw[foldl_cons,ih]
  by_cases hm:tx∈rs.map Receipt.txHash
  ·rw[if_pos hm,if_pos (by simp only[map_cons,mem_cons,hm,or_true])]
  rw[if_neg hm]
  rcases eq_or_ne tx r.txHash with rfl|hne
  ·simp
  simp only[map_cons,mem_cons,hne,hm,or_self,if_false,ne_eq,not_false_eq_true,Function.update_of_ne]

lemma lookups_dropTransactions(bc:BlockChain)(txs:List Hash)(tx:Hash):
 (bc.dropTransactions txs).chainDb.txs tx=(if tx∈txs then none else bc.chainDb.txs tx)∧
 (bc.dropTransactions txs).chainDb.receipts tx = (if tx∈txs then none else bc.chainDb.receipts tx)∧
 (bc.dropTransactions txs).chainDb.blockReceipts=bc.chainDb.blockReceipts:=by
 unfold BlockChain.dropTransactions
 generalize bc.chainDb=db
 induction txs generalizing db with
 | nil=>exact⟨rfl,rfl,rfl⟩
 | cons t txs ih=>
  obtain⟨h1,h2,h3⟩:=ih ((db.deleteReceipt t).deleteTransaction t)
  dsimp only at h1 h2 h3 ⊢
  rw[foldl_cons,h1,h2,h3]
  rcases eq_or_ne tx t with rfl|hne
  ·simp[ChainDb.deleteReceipt,ChainDb.deleteTransaction]
  simp[ChainDb.deleteReceipt,ChainDb.deleteTransaction,hne]

lemma sameLookups_insert(hash:Header→Hash)(bc:BlockChain)(b:Block):
 SameLookups bc.chainDb (bc.insert hash b).chainDb:=by
 unfold BlockChain.insert
 dsimp only
 split<;>exact⟨rfl,rfl,rfl⟩

lemma lookupWrite_single(hnd:b.transactions.Nodup)(hrs:Covers b rs)(db:ChainDb):
 LookupWrite hash [b] db ((db.writeTransactions hash b).writeReceipts rs):=by
 obtain⟨t,ht⟩:=writeTransactions_eq hash db b
 obtain⟨r,hr⟩:=writeReceipts_eq (db.writeTransactions hash b) rs
 have htxs:∀tx,((db.writeTransactions hash b).writeReceipts rs).txs tx =
  if tx∈b.transactions then some (position hash b tx) else db.txs tx:=by
  intro tx
  rw[←txs_writeTransactions hnd,hr]
 have hreceipts:∀tx,((db.writeTransactions hash b).writeReceipts rs).receipts tx =
  if tx∈b.transactions then some ⟨tx⟩ else db.receipts tx:=by
  intro tx
  rw[receipts_writeReceipts,hrs,ht]
 refine⟨fun x hx tx htx=>?_,fun x hx tx htx=>?_,fun tx htx=>?_,fun tx htx=>?_,?_⟩
 ·cases mem_singleton.1 hx
  rw[htxs,if_pos htx]
 ·cases mem_singleton.1 hx
  rw[hreceipts,if_pos htx]
 ·rw[htxs,if_neg (htx b (by simp))]
 ·rw[hreceipts,if_neg (htx b (by simp))]
 rw[hr,ht]

lemma LookupWrite.of_same(h:SameLookups db db')(h':LookupWrite hash L db' db''):
 LookupWrite hash L db db'':=by
 refine⟨h'.txs,h'.receipts,fun tx htx=>?_,fun tx htx=>?_,h'.blockReceipts.trans h.blockReceipts⟩
 ·rw[h'.txs_kept tx htx,h.txs]
 rw[h'.receipts_kept tx htx,h.receipts]

lemma LookupWrite.nil(db:ChainDb):LookupWrite hash [] db db:=⟨by simp,by simp,by simp,by simp,rfl⟩

lemma LookupWrite.cons{x:Block}(h:LookupWrite hash [x] db db')
 (h':LookupWrite hash L db' db'')(hu:∀y∈L,∀tx∈x.transactions,tx∈y.transactions→y=x):
 LookupWrite hash (x::L) db db'':=by
 have hhere:∀tx∈x.transactions,x∉L→∀y∈L,tx∉y.transactions:=by
  intro tx htx hx y hy hty
  exact hx (hu y hy tx htx hty▸hy)
 refine⟨fun b hb tx htx=>?_,fun b hb tx htx=>?_,fun tx htx=>?_,fun tx htx=>?_,
  h'.blockReceipts.trans h.blockReceipts⟩
 ·by_cases hbL:b∈L
  ·exact h'.txs b hbL tx htx
  obtain rfl:=(mem_cons.1 hb).resolve_right hbL
  rw[h'.txs_kept tx (hhere tx htx hbL)]
  exact h.txs b (by simp) tx htx
 ·by_cases hbL:b∈L
  ·exact h'.receipts b hbL tx htx
  obtain rfl:=(mem_cons.1 hb).resolve_right hbL
  rw[h'.receipts_kept tx (hhere tx htx hbL)]
  exact h.receipts b (by simp) tx htx
 ·obtain⟨hx,hL⟩:=forall_mem_cons.1 htx
  rw[h'.txs_kept tx hL,h.txs_kept tx (by simpa using hx)]
 obtain⟨hx,hL⟩:=forall_mem_cons.1 htx
 rw[h'.receipts_kept tx hL,h.receipts_kept tx (by simpa using hx)]

lemma insertCanonical_lookup(hnd:b.transactions.Nodup)
 (hget:bc.chainDb.blockReceipts (hash b.header)=some rs)(hrs:Covers b rs):
 LookupWrite hash [b] bc.chainDb (bc.insertCanonical hash b).chainDb:=by
 have hsame:=sameLookups_insert hash bc b
 have hrs':((bc.insert hash b).chainDb.writeTransactions hash b).getBlockReceipts
  (hash b.header)=rs:=by
  obtain⟨t,ht⟩:=writeTransactions_eq hash (bc.insert hash b).chainDb b
  rw[ht,ChainDb.getBlockReceipts]
  dsimp only
  rw[hsame.blockReceipts,hget]
  rfl
 unfold BlockChain.insertCanonical
 dsimp only
 rw[hrs']
 exact .of_same hsame (lookupWrite_single hnd hrs _)

structure NoRepeat (L:List Block):Prop where
 nodup:∀b∈L,b.transactions.Nodup
 unique:∀x∈L,∀y∈L,∀tx∈x.transactions,tx∈y.transactions→x=y

lemma NoRepeat.tail(h:NoRepeat (x::L)):NoRepeat L:=
 ⟨fun b hb=>h.nodup b (mem_cons_of_mem x hb),
  fun y hy z hz=>h.unique y (mem_cons_of_mem x hy) z (mem_cons_of_mem x hz)⟩

lemma replay_lookup(hL:NoRepeat L)
 (hrs:∀b∈L,∃rs,bc.chainDb.blockReceipts (hash b.header)=some rs∧Covers b rs):
 LookupWrite hash L bc.chainDb (L.foldl (BlockChain.insertCanonical hash) bc).chainDb:=by
 induction L generalizing bc with
 | nil=>exact .nil _
 | cons x L ih=>
  obtain⟨rs,hget,hcov⟩:=hrs x (by simp)
  have hx:=insertCanonical_lookup (hL.nodup x (by simp)) hget hcov
  rw[foldl_cons]
  refine hx.cons (ih hL.tail fun b hb=>?_) fun y hy tx htx hty=>?_
  ·rw[hx.blockReceipts]
   exact hrs b (mem_cons_of_mem x hb)
  exact (hL.unique x (by simp) y (mem_cons_of_mem x hy) tx htx hty).symm

lemma lookupMove_replay(bc:BlockChain)(hk:NoRepeat k)
 (hrs:∀b∈k,∃rs,bc.chainDb.blockReceipts (hash b.header)=some rs∧Covers b rs):
 LookupMove hash l k bc.chainDb ((k.foldl (BlockChain.insertCanonical hash)
  bc).dropTransactions (txDifference (l.flatMap Block.transactions)
   (k.flatMap Block.transactions))).chainDb:=by
 have hw:=replay_lookup hk hrs
 have hmem:∀tx,tx∈txDifference (l.flatMap Block.transactions)
  (k.flatMap Block.transactions)↔(∃b∈l,tx∈b.transactions)∧∀b∈k,tx∉b.transactions:=by
  intro tx
  simp[txDifference,mem_flatMap]
 have hdrop:=lookups_dropTransactions (k.foldl (BlockChain.insertCanonical hash) bc)
  (txDifference (l.flatMap Block.transactions) (k.flatMap Block.transactions))
 refine⟨fun b hb tx htx=>?_,fun b hb tx htx=>?_,fun tx hk hl=>?_,fun tx hk hl=>?_,?_⟩
 ·rw[(hdrop tx).1,if_neg fun h=>((hmem tx).1 h).2 b hb htx]
  exact hw.txs b hb tx htx
 ·rw[(hdrop tx).2.1,if_neg fun h=>((hmem tx).1 h).2 b hb htx]
  exact hw.receipts b hb tx htx
 ·rw[(hdrop tx).1,(hdrop tx).2.1,if_pos ((hmem tx).2 ⟨hl,hk⟩)]
  exact⟨rfl,if_pos ((hmem tx).2 ⟨hl,hk⟩)⟩
 ·have hnot:tx∉txDifference (l.flatMap Block.transactions)
   (k.flatMap Block.transactions):=by
   intro h
   obtain⟨⟨b,hb,htx⟩,-⟩:=(hmem tx).1 h
   exact hl b hb htx
  rw[(hdrop tx).1,(hdrop tx).2.1,if_neg hnot,if_neg hnot]
  exact⟨hw.txs_kept tx hk,hw.receipts_kept tx hk⟩
 rw[(hdrop 0).2.2]
 exact hw.blockReceipts

lemma LookupMove.then_same(h:LookupMove hash l k db db')(h':SameLookups db' db''):
 LookupMove hash l k db db'':=by
 refine⟨fun x hx tx htx=>?_,fun x hx tx htx=>?_,fun tx hk hl=>?_,fun tx hk hl=>?_,
  h'.blockReceipts.trans h.blockReceipts⟩
 ·rw[h'.txs]
  exact h.txs x hx tx htx
 ·rw[h'.receipts]
  exact h.receipts x hx tx htx
 ·rw[h'.txs,h'.receipts]
  exact h.dropped tx hk hl
 rw[h'.txs,h'.receipts]
 exact h.kept tx hk hl

/-- Entries of a block of the new branch may be written once more. -/
lemma LookupMove.again(h:LookupMove hash l k db db')(hb:b∈k)(hu:NoRepeat k)
 (h':LookupWrite hash [b] db' db''):LookupMove hash l k db db'':=by
 have hfar:∀tx,(∀x∈k,tx∉x.transactions)→∀x∈[b],tx∉x.transactions:=by
  intro tx htx x hx
  rw[mem_singleton.1 hx]
  exact htx b hb
 have hcases:∀x∈k,∀tx∈x.transactions,x=b∨∀y∈[b],tx∉y.transactions:=by
  intro x hx tx htx
  by_cases htb:tx∈b.transactions
  ·exact .inl (hu.unique x hx b hb tx htx htb)
  refine .inr fun y hy=>?_
  rwa[mem_singleton.1 hy]
 refine⟨fun x hx tx htx=>?_,fun x hx tx htx=>?_,fun tx hk hl=>?_,fun tx hk hl=>?_,
  h'.blockReceipts.trans h.blockReceipts⟩
 ·rcases hcases x hx tx htx with rfl|hn
  ·exact h'.txs x (by simp) tx htx
  rw[h'.txs_kept tx hn]
  exact h.txs x hx tx htx
 ·rcases hcases x hx tx htx with rfl|hn
  ·exact h'.receipts x (by simp) tx htx
  rw[h'.receipts_kept tx hn]
  exact h.receipts x hx tx htx
 ·rw[h'.txs_kept tx (hfar tx hk),h'.receipts_kept tx (hfar tx hk)]
  exact h.dropped tx hk hl
 rw[h'.txs_kept tx (hfar tx hk),h'.receipts_kept tx (hfar tx hk)]
 exact h.kept tx hk hl

lemma LookupWrite.move(h:LookupWrite hash [b] db db'):LookupMove hash [] [b] db db':=
 ⟨h.txs,h.receipts,by simp,fun tx hk _=>⟨h.txs_kept tx hk,h.receipts_kept tx hk⟩,h.blockReceipts⟩

end GoCoupe.LookupTables
