import GoCoupe.BlockChainRuns

/-!
# Nonces along the paths of the block tree

A transaction is accepted only at the nonce its sender has reached, and applying it moves the
sender past that nonce. So no path of the block tree holds a transaction twice.
-/

namespace GoCoupe.TransactionNonces
open BlockChainModel BlockChainInvariants BlockChainWrites DescentPaths

section Nonces

variable (sender:Hash→Address) (nonce:Hash→ℕ)

/-- One transaction applied: it carries the nonce of its sender, which grows, and no nonce
falls. -/
structure NonceSpent (tx:Hash) (before after:Address→ℕ):Prop where
 checked:nonce tx=before (sender tx)
 spent:before (sender tx)<after (sender tx)
 kept:∀a,before a≤after a

inductive Applied:(Address→ℕ) → List Hash→(Address→ℕ)→Prop
 | nil {before after:Address→ℕ} (kept:∀a,before a≤after a):Applied before [] after
 | cons {before mid after:Address→ℕ} {tx:Hash} {txs:List Hash}
  (head:NonceSpent sender nonce tx before mid) (tail:Applied mid txs after) :
  Applied before (tx::txs) after

variable {sender nonce} {before after:Address→ℕ} {txs:List Hash}

lemma Applied.kept(h:Applied sender nonce before txs after)(a:Address):before a≤after a:=by
 induction h with
 | nil kept=>exact kept a
 | cons head _ ih=>exact (head.kept a).trans ih

lemma Applied.bounds(h:Applied sender nonce before txs after)(htx:tx∈txs):
 before (sender tx)≤nonce tx∧nonce tx<after (sender tx):=by
 induction h with
 | nil=>simp at htx
 | cons head tail ih=>
  rcases List.mem_cons.1 htx with rfl|htx
  ·exact⟨head.checked.ge,head.checked▸head.spent.trans_le (tail.kept _)⟩
  obtain⟨hlo,hhi⟩:=ih htx
  exact⟨(head.kept _).trans hlo,hhi⟩

lemma Applied.nodup(h:Applied sender nonce before txs after):txs.Nodup:=by
 induction h with
 | nil=>exact .nil
 | @cons before mid after tx txs head tail ih=>
  refine List.nodup_cons.2 ⟨fun htx=>?_,ih⟩
  have hlo:=(tail.bounds htx).1
  rw[head.checked]at hlo
  exact absurd head.spent (Nat.not_lt.2 hlo)

end Nonces

variable (hash:Header→Hash) (sender:Hash→Address) (nonce:Hash→ℕ)

/-- Every block of the universe was processed on the state of its parent. -/
def Processed (U:Set Block) (nonces:Block→Address→ℕ):Prop:=
 ∀p∈U,∀b∈U,hash p.header=b.parentHash → Applied sender nonce (nonces p) b.transactions (nonces b)

variable {hash sender nonce} {U:Set Block} {nonces:Block→Address→ℕ} {genesis:Block}
 {db:ChainDb}

section

variable (hN:Processed hash sender nonce U nonces) (hs:StoreOk hash U genesis db)

include hN hs

lemma Processed.parent(hb:b∈U)(hp:Parent hash db p b):
 Applied sender nonce (nonces p) b.transactions (nonces b):=
 hN p (hs.known p hp.1) b hb hp.2.1

lemma nonces_mono(hb:b∈U)(h:Ancestor (Parent hash db) a b)(s:Address):nonces a s≤nonces b s:=by
 obtain⟨l,hl⟩:=h
 induction hl with
 | refl=>exact le_rfl
 | step hp _ ih=>exact (ih (hs.known _ hp.1)).trans ((hN.parent hs hb hp).kept s)

lemma nodup_transactions(hb:b∈U)(hp:Parent hash db p b):b.transactions.Nodup:=
 (hN.parent hs hb hp).nodup

/-- A transaction is not repeated higher up. -/
lemma not_mem_above(hx:x∈U)(hy:y∈U)
 (hq:Parent hash db q x)(hp:Parent hash db p y)(h:Ancestor (Parent hash db) x p)
 (htx:tx∈x.transactions):tx∉y.transactions:=by
 intro hty
 have h1:=((hN.parent hs hx hq).bounds htx).2
 have h2:=nonces_mono hN hs (hs.known p hp.1) h (sender tx)
 have h3:=((hN.parent hs hy hp).bounds hty).1
 omega

end

/-- A transaction occurs in at most one block of a path. -/
lemma block_unique(hU:CollisionFree hash U)(hN:Processed hash sender nonce U nonces)
 (hs:StoreOk hash U genesis db)(hb:b∈U)
 (hx:Ancestor (Parent hash db) x b)(hy:Ancestor (Parent hash db) y b)
 (hroot:∀z,Ancestor (Parent hash db) z b→z=genesis∨∃p,Parent hash db p z)
 (hg:genesis.transactions=[])(htx:tx∈x.transactions)(hty:tx∈y.transactions):x=y:=by
 have hgr:=graded hU hs
 have hparent:∀z,Ancestor (Parent hash db) z b→tx∈z.transactions →∃p,Parent hash db p z:=by
  intro z hz htz
  rcases hroot z hz with rfl|h
  ·rw[hg]at htz
   cases htz
  exact h
 have hmem:∀z,Ancestor (Parent hash db) z b→z∈U:=fun z ⟨_,hl⟩=>
  mem_of_descent hs hb hl
 obtain⟨q,hq⟩:=hparent x hx htx
 obtain⟨p,hp⟩:=hparent y hy hty
 by_contra hne
 rcases Nat.le_total x.number y.number with hle|hle
 ·have hxp:=(hx.of_height_le hgr hy hle).of_parent hgr hp hne
  exact not_mem_above hN hs (hmem x hx) (hmem y hy) hq hp hxp htx hty
 have hyq:=(hy.of_height_le hgr hx hle).of_parent hgr hq (Ne.symm hne)
 exact not_mem_above hN hs (hmem y hy) (hmem x hx) hp hq hyq hty htx

end GoCoupe.TransactionNonces
