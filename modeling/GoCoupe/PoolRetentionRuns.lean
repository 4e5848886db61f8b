import GoCoupe.PoolRetention
import GoCoupe.PendingNonceRuns

/-!
# What the pool keeps over whole runs

A call keeps every transaction that it should when it finds the pending state level with the
chain and the pending transactions; a repeated nonce that takes the pending state back makes
the pool drop transactions without a gap.
-/

namespace GoCoupe.PoolRetentionRuns

open BlockWireFormats MapIteration TransactionPool TransactionPoolLoops TransactionPoolChecks AList BitVec
open List Option
open TransactionPoolFiling PendingNonces PendingNonceRuns PoolRetention

section Removal

variable {sg:Signer} {S:Set Transaction} {p:Pool}

lemma lookup_of_length_one{m:TxMap}(hlen:m.entries.length=1)
 (hh:(m.lookup h).isSome)(hk:k≠h):m.lookup k=none:=by
 obtain⟨tx,htx⟩:=isSome_iff_exists.1 hh
 cases hlook:m.lookup k with
 | none=>rfl
 | some t=>
  obtain⟨e,he⟩:=length_eq_one_iff.1 hlen
  have hmem:=mem_lookup_iff.1 (mem_def.2 htx)
  have hmem':=mem_lookup_iff.1 (mem_def.2 hlook)
  rw[he,mem_singleton]at hmem hmem'
  exact absurd (congrArg Sigma.fst (hmem'.trans hmem.symm)) hk

lemma lookup_removeTx(hinj:S.InjOn sg.hash)(hp:Filed sg S p.pending p.queue)(o:Orders)(h:Hash):
 (∀k,(removeTx o p h).pending.lookup k=if k=h then none else p.pending.lookup k)∧
 ∀a k,(queueOf (removeTx o p h).queue a).lookup k =
  if k=h then none else (queueOf p.queue a).lookup k:=by
 constructor
 ·intro k
  change (p.pending.erase h).lookup k=_
  by_cases hk:k=h
  ·subst hk
   rw[if_pos rfl,lookup_erase]
  rw[if_neg hk,lookup_erase_ne hk]
 intro a k
 have hvisit:=o.perm .removed p.queue.entries
 rw[removeTx]
 dsimp only
 cases hfind:(o.visit .removed p.queue.entries).find? (fun e=>(e.2.lookup h).isSome) with
 | none=>
  by_cases hk:k=h
  ·subst hk
   rw[if_pos rfl]
   cases hq:p.queue.lookup a with
   | none=>simp[queueOf,hq]
   | some txs=>
    have hnot:=find?_eq_none.1 hfind ⟨a,txs⟩ ((mem_visit hvisit).2 hq)
    simpa[queueOf,hq]using hnot
  rw[if_neg hk]
 | some e=>
  have hmem:=(mem_visit hvisit).1 (mem_of_find?_eq_some hfind)
  have hsome:(e.2.lookup h).isSome:=by simpa using find?_some hfind
  have hqueue:queueOf p.queue e.1=e.2:=by
   rw[queueOf,hmem]
   rfl
  obtain⟨tx,htx⟩:=isSome_iff_exists.1 hsome
  obtain⟨hS,hhash,hsender⟩:=hp.queued e.1 h tx (by rw[hqueue];exact htx)
  have hnew:queueOf (if e.2.entries.length=1 then p.queue.erase e.1
   else p.queue.insert e.1 (e.2.erase h)) a =
   if a=e.1 then (if e.2.entries.length=1 then ∅ else e.2.erase h)
   else queueOf p.queue a:=by
   split
   ·exact queueOf_erase _ _ _
   exact queueOf_insert _ _ _ _
  dsimp only
  rw[hnew]
  by_cases ha:a=e.1
  ·rw[if_pos ha,ha,hqueue]
   by_cases hk:k=h
   ·rw[if_pos hk,hk]
    split
    ·rfl
    exact lookup_erase h e.2
   rw[if_neg hk]
   split
   ·rename_i hone
    exact (lookup_of_length_one hone hsome hk).symm
   exact lookup_erase_ne hk
  rw[if_neg ha]
  by_cases hk:k=h
  ·rw[if_pos hk,hk]
   cases hq:(queueOf p.queue a).lookup h with
   | none=>rfl
   | some t=>
    obtain⟨hS',hhash',hsender'⟩:=hp.queued a h t hq
    have htx':t=tx:=hinj hS' hS (hhash'.trans hhash.symm)
    rw[htx',hsender,Option.some.injEq]at hsender'
    exact absurd hsender'.symm ha
  rw[if_neg hk]

lemma filed_removeTx(hinj:S.InjOn sg.hash)(hp:Filed sg S p.pending p.queue)(o:Orders)
 (h:Hash):Filed sg S (removeTx o p h).pending (removeTx o p h).queue:=by
 obtain⟨hpending,hqueue⟩:=lookup_removeTx hinj hp o h
 have hpend:∀k tx,(removeTx o p h).pending.lookup k=some tx →p.pending.lookup k=some tx:=by
  intro k tx hk
  rw[hpending]at hk
  split at hk
  ·exact absurd hk (by simp)
  exact hk
 have hqueued:∀a k tx,(queueOf (removeTx o p h).queue a).lookup k=some tx →
  (queueOf p.queue a).lookup k=some tx:=by
  intro a k tx hk
  rw[hqueue]at hk
  split at hk
  ·exact absurd hk (by simp)
  exact hk
 exact⟨fun k tx hk=>hp.filed k tx (hpend k tx hk),fun a k tx hk=>hp.queued a k tx (hqueued a k tx hk),
  fun a k tx t hk hk'=>hp.disjoint a k tx t (hpend k tx hk) (hqueued a k t hk')⟩

/-- What is not among the hashes stays where it is. -/
lemma removeAll_spec(hinj:S.InjOn sg.hash)(o:Orders)(txs:List Transaction)
 (hp:Filed sg S p.pending p.queue):
 let q:=txs.foldl (fun p tx=>removeTx o p (sg.hash tx)) p
 Filed sg S q.pending q.queue∧q.pendingState=p.pendingState∧
 (∀k,p.pending.lookup k=none → q.pending.lookup k=none)∧
 ∀a tx,(∀t∈txs,sg.hash t≠sg.hash tx) →
  (Pending sg q a tx↔Pending sg p a tx)∧(Queued sg q a tx↔Queued sg p a tx):=by
 induction txs generalizing p with
 | nil=>exact⟨hp,rfl,fun _=>id,fun _ _ _=>⟨Iff.rfl,Iff.rfl⟩⟩
 | cons t txs ih=>
  obtain⟨hpending,hqueue⟩:=lookup_removeTx hinj hp o (sg.hash t)
  obtain⟨hfiled,hstate,hnone,hsame⟩:=ih (filed_removeTx hinj hp o (sg.hash t))
  refine⟨hfiled,hstate,?_,?_⟩
  ·intro k hk
   apply hnone
   rw[hpending,hk]
   split<;>rfl
  intro a tx hnot
  have hne:sg.hash tx≠sg.hash t:=fun h=>hnot t mem_cons_self h.symm
  obtain⟨hpend,hqueued⟩:=hsame a tx (fun t' ht'=>hnot t' (mem_cons_of_mem _ ht'))
  constructor
  ·refine hpend.trans (and_congr_right fun _=>?_)
   rw[hpending,if_neg hne]
  refine hqueued.trans ?_
  rw[Queued,Queued,hqueue,if_neg hne]

end Removal

section Calls

variable {sg:Signer} {S:Set Transaction} {p:Pool}

/-- Everything is filed, and nothing is pending before the first state. -/
structure Sound (sg:Signer) (S:Set Transaction) (p:Pool):Prop where
 filed:Filed sg S p.pending p.queue
 empty:p.pendingState=none→∀h,p.pending.lookup h=none

lemma Sound.checkQueue(hinj:S.InjOn sg.hash)(o:Orders)(view:View)
 (hp:Sound sg S p):Sound sg S (checkQueue sg o view p):=by
 refine⟨filed_checkQueue hinj o view hp.filed,?_⟩
 cases hs:view.state with
 | none=>
  rw[checkQueue_noState o hs]
  exact hp.empty
 | some s=>
  obtain⟨q,ms,heq,-⟩:=checkQueue_eq hinj o view hp.filed hs
  rw[heq]
  intro hnone
  exact absurd hnone (by simp[Pool.settle])

variable {txs:List Transaction} {e:Event} {s:ChainState} {tx:Transaction}

lemma Sound.addAll(hinj:S.InjOn sg.hash)(view:View)(hp:Sound sg S p)
 (hS:∀tx∈txs,tx∈S):Sound sg S (addAll sg view p txs):=by
 obtain⟨hfiled,hadded⟩:=added_addAll hinj view hp.filed hS
 refine⟨hfiled,?_⟩
 intro hnone h
 rw[hadded.pending]
 exact hp.empty (hadded.pendingState.symm.trans hnone) h

lemma Sound.act(hinj:S.InjOn sg.hash)(hS:∀tx∈offered e.call,tx∈S)(hp:Sound sg S p):Sound sg S (act sg e.orders e.view p e.call):=by
 obtain⟨o,view,call⟩:=e
 dsimp only at hS ⊢
 cases call with
 | add tx=>
  rcases @act_add sg o view p tx with⟨-,hact⟩|⟨-,hact⟩
  ·rw[hact]
   exact (hp.addAll hinj view hS).checkQueue hinj o view
  rw[hact]
  exact hp
 | addTransactions txs=>exact (hp.addAll hinj view hS).checkQueue hinj o view
 | removeTransactions txs=>
  obtain⟨hfiled,hstate,hnone,-⟩:=removeAll_spec hinj o txs hp.filed
  refine⟨hfiled,?_⟩
  intro hq h
  exact hnone h (hp.empty (hstate.symm.trans hq) h)
 | getTransactions=>
  have hq:=hp.checkQueue hinj o view
  rw[TransactionPool.act]
  cases view.state with
  | none=>exact hq
  | some s=>
   refine⟨filed_validatePool hq.filed,?_⟩
   intro hnone h
   dsimp only at hnone ⊢
   rw[validatePool_pendingState]at hnone
   cases hlook:(validatePool sg o s (TransactionPool.checkQueue sg o view p)).pending.lookup h with
   | none=>rfl
   | some tx=>
    have hold:=((lookup_validatePool o s _ h tx).1 hlook).1
    rw[hq.empty hnone]at hold
    exact absurd hold (by simp)
 | resetState=>
  refine⟨filed_resetState hinj o view hp.filed,?_⟩
  cases hs:view.state with
  | none=>
   rw[TransactionPool.act,resetState,hs]
   exact hp.empty
  | some s=>
   intro hnone
   have hsome:=@resetState_pendingState sg s p o view hs
   rw[TransactionPool.act]at hnone
   rw[hnone]at hsome
   exact absurd hsome (by simp)
 | gasPriceChanged price=>exact⟨hp.filed,hp.empty⟩

variable (sg)

/-- The nonce of the pending state of each account is not before the chain's and is behind the
pending transactions. -/
def Aligned (s:ChainState) (p:Pool):Prop:=
 ∀ms,p.pendingState=some ms→∀a,s.getNonce a ≤ ms.getNonce a ∧
  ∀tx,Pending sg p a tx→tx.accountNonce < ms.getNonce a

/-- The calls that check the queues with the pending state they find, find it aligned. -/
def Steady (p:Pool) (e:Event):Prop:=
 match e.call with
 | .add _=>∀s,e.view.state=some s → Aligned sg s p
 | .addTransactions _=>∀s,e.view.state=some s → Aligned sg s p
 | .getTransactions=>∀s,e.view.state=some s → Aligned sg s p
 | _=>True

def Held (p:Pool) (tx:Transaction):Prop:=∃a,Pending sg p a tx ∨ Queued sg p a tx

def Once (p:Pool) (tx:Transaction):Prop:=(∃a,Pending sg p a tx) ↔ ¬∃a,Queued sg p a tx

/-- The reasons for which a call may let a transaction go; `q` is the pool after it. -/
def Released (e:Event) (q:Pool) (tx:Transaction):Prop:=
 (∃txs,e.call=.removeTransactions txs ∧ ∃t∈txs,sg.hash t=sg.hash tx) ∨
 ∃a s,sg.sender tx=some a ∧ e.view.state=some s ∧
  (tx.accountNonce < s.getNonce a ∨ s.getBalance a<cost tx ∨ BeyondLimit sg s q a tx)

/-- The call keeps what is in the pool and what it accepts, in one place. -/
def Retains (p:Pool) (e:Event):Prop:=
 ∀tx,Held sg p tx ∨ (tx∈offered e.call ∧ Accepted sg e.view p tx) →
  Once sg (act sg e.orders e.view p e.call) tx ∨ Released sg e (act sg e.orders e.view p e.call) tx

variable {sg}

lemma once_of_held(hp:Filed sg S p.pending p.queue){tx:Transaction}(h:Held sg p tx):Once sg p tx:=by
 obtain⟨a,h⟩:=h
 constructor
 ·rintro⟨b,hb⟩ ⟨c,hc⟩
  exact hp.disjoint c _ tx tx hb.2 hc
 intro hnot
 rcases h with h|h
 ·exact⟨a,h⟩
 exact absurd ⟨a,h⟩ hnot

lemma level_of_aligned(h:Aligned sg s p)(hms:p.pendingState=some ms)
 (a:Address):Level (s.getNonce a).toNat (accountOf sg a (p.live ms)):=
 ⟨le_def.1 (h ms hms a).1,fun tx htx=>lt_def.1 ((h ms hms a).2 tx htx)⟩

/-- A call that carries the transactions of `p` retains them. -/
lemma released_of_carries(hs:e.view.state=some s)
 (hp:Filed sg S p.pending p.queue)(hq:Filed sg S q.pending q.queue)(h:Carries sg s p q)
 (htx:Held sg p tx):Once sg q tx∨Released sg e q tx:=by
 obtain⟨a,htx⟩:=htx
 have hsender:sg.sender tx=some a:=by
  rcases htx with htx|htx
  ·exact htx.1
  exact (hp.queued a _ tx htx).2.2
 rcases h a tx htx with hkept|hstale|hbeyond
 ·exact Or.inl (once_of_held hq ⟨a,hkept⟩)
 ·rw[stale,Bool.or_eq_true,decide_eq_true_eq,decide_eq_true_eq]at hstale
  exact Or.inr (Or.inr ⟨a,s,hsender,hs,hstale.imp id Or.inl⟩)
 exact Or.inr (Or.inr ⟨a,s,hsender,hs,Or.inr (Or.inr hbeyond)⟩)

lemma not_accepted_of_noState(hs:view.state=none)(tx:Transaction):¬Accepted sg view p tx:=by
 intro hacc
 obtain⟨a,s,-,hs',-⟩:=validateTx_ok hacc.2
 rw[hs]at hs'
 exact absurd hs' (by simp)

variable (hinj:S.InjOn sg.hash)

include hinj

lemma held_addAll(view:View)(hp:Filed sg S p.pending p.queue)
 (hS:∀tx∈txs,tx∈S)(htx:Held sg p tx∨(tx∈txs∧Accepted sg view p tx)):
 Held sg (addAll sg view p txs) tx:=by
 obtain⟨-,hadded⟩:=added_addAll hinj view hp hS
 rcases htx with⟨a,⟨hsender,htx⟩|htx⟩|⟨hmem,hacc⟩
 ·exact⟨a,Or.inl ⟨hsender,by rw[hadded.pending];exact htx⟩⟩
 ·exact⟨a,Or.inr ((hadded.queue a _ tx).2 (Or.inl htx))⟩
 obtain⟨a,hsender⟩:=hacc.sender
 exact⟨a,Or.inr ((hadded.queue a _ tx).2 (Or.inr ⟨hmem,hacc,rfl,hsender⟩))⟩

lemma Aligned.addAll(view:View)(hp:Filed sg S p.pending p.queue)
 (hS:∀tx∈txs,tx∈S)(h:Aligned sg s p):Aligned sg s (addAll sg view p txs):=by
 obtain⟨-,hadded⟩:=added_addAll hinj view hp hS
 intro ms hms a
 obtain⟨hle,hall⟩:=h ms (hadded.pendingState.symm.trans hms) a
 refine⟨hle,?_⟩
 rintro tx ⟨hsender,htx⟩
 rw[hadded.pending]at htx
 exact hall tx ⟨hsender,htx⟩

lemma addAll_retains(hsmall:SmallNonces S)
 (hs:e.view.state=some s)(hp:Sound sg S p)(hS:∀tx∈txs,tx∈S)(h:Aligned sg s p)
 (htx:Held sg p tx∨(tx∈txs∧Accepted sg e.view p tx)):
 Once sg (checkQueue sg e.orders e.view (addAll sg e.view p txs)) tx∨
  Released sg e (checkQueue sg e.orders e.view (addAll sg e.view p txs)) tx:=by
 have hq:=hp.addAll hinj e.view hS
 have haligned:=h.addAll hinj e.view hp.filed hS
 exact released_of_carries hs hq.filed (filed_checkQueue hinj e.orders e.view hq.filed)
  (checkQueue_carries hinj hsmall e.orders hs hq.filed hq.empty
   (fun ms hms=>level_of_aligned haligned hms))
  (held_addAll hinj e.view hp.filed hS htx)

lemma removeTransactions_retains(hp:Sound sg S p)(o:Orders)
 (view:View)(txs:List Transaction):Retains sg p ⟨o,view,.removeTransactions txs⟩:=by
 intro tx htx
 obtain⟨hfiled,-,-,hsame⟩:=removeAll_spec hinj o txs hp.filed
 by_cases hremoved:∃t∈txs,sg.hash t=sg.hash tx
 ·exact Or.inr (Or.inl ⟨txs,rfl,hremoved⟩)
 rcases htx with⟨a,htx⟩|⟨hmem,-⟩
 ·left
  apply once_of_held hfiled
  obtain⟨hpend,hqueued⟩:=hsame a tx (fun t ht heq=>hremoved ⟨t,ht,heq⟩)
  exact⟨a,htx.imp hpend.2 hqueued.2⟩
 exact absurd hmem not_mem_nil

lemma getTransactions_retains(hsmall:SmallNonces S)(hp:Sound sg S p)
 (o:Orders)(view:View)(h:∀s,view.state=some s → Aligned sg s p):
 Retains sg p ⟨o,view,.getTransactions⟩:=by
 intro tx htx
 rcases htx with htx|⟨hmem,-⟩
 ·rw[act]
  dsimp only
  cases hs:view.state with
  | none=>
   rw[checkQueue_noState o hs]
   exact Or.inl (once_of_held hp.filed htx)
  | some s=>
   have hq:=hp.checkQueue hinj o view
   obtain⟨hkeeps,hnarrows⟩:=@validatePool_keeps sg S s _ o hq.filed
   have hcarries:=checkQueue_carries hinj hsmall o hs hp.filed hp.empty
    (fun ms hms=>level_of_aligned (h s hs) hms)
   exact released_of_carries hs hp.filed (filed_validatePool hq.filed)
    (hcarries.trans_keeps hkeeps hnarrows) htx
 exact absurd hmem not_mem_nil

/-- A steady call keeps what it should. -/
lemma retains_of_steady(hsmall:SmallNonces S)
 (hS:∀tx∈offered e.call,tx∈S)(hp:Sound sg S p)(h:Steady sg p e):Retains sg p e:=by
 obtain⟨o,view,call⟩:=e
 dsimp only at hS
 cases call with
 | add tx=>
  intro t ht
  rcases @act_add sg o view p tx with⟨hacc,hact⟩|⟨hnot,hact⟩
  ·obtain⟨a,s,-,hs,-⟩:=validateTx_ok hacc.2
   rw[hact]
   exact addAll_retains hinj hsmall hs hp hS (h s hs) ht
  rw[hact]
  rcases ht with ht|⟨hmem,hacc⟩
  ·exact Or.inl (once_of_held hp.filed ht)
  rw[mem_singleton.1 hmem]at hacc
  exact absurd hacc hnot
 | addTransactions txs=>
  intro t ht
  cases hs:view.state with
  | some s=>exact addAll_retains hinj hsmall hs hp hS (h s hs) ht
  | none=>
   rw[act,addAll_noState hs,checkQueue_noState o hs]
   rcases ht with ht|⟨-,hacc⟩
   ·exact Or.inl (once_of_held hp.filed ht)
   exact absurd hacc (not_accepted_of_noState hs t)
 | removeTransactions txs=>exact removeTransactions_retains hinj hp o view txs
 | getTransactions=>exact getTransactions_retains hinj hsmall hp o view h
 | resetState=>
  rintro t (ht|⟨hmem,-⟩)
  ·cases hs:view.state with
   | some s=>
    exact released_of_carries hs hp.filed (filed_resetState hinj o view hp.filed)
     (resetState_carries hinj hsmall o hs hp.filed) ht
   | none=>
    rw[act,resetState,hs]
    exact Or.inl (once_of_held hp.filed ht)
  exact absurd hmem not_mem_nil
 | gasPriceChanged price=>
  rintro t (ht|⟨hmem,-⟩)
  ·have hq:Filed sg S p.pending p.queue:=hp.filed
   exact Or.inl (@once_of_held sg S {p with minGasPrice:=price} hq t ht)
  exact absurd hmem not_mem_nil

end Calls

section Runs

variable {sg:Signer} {S:Set Transaction}

lemma Sound.run(hinj:S.InjOn sg.hash)(hS:∀e∈events,∀tx∈offered e.call,tx∈S)(hp:Sound sg S p):
 Sound sg S (run sg p events):=by
 induction events generalizing p with
 | nil=>exact hp
 | cons e events ih=>
  exact ih (fun e he=>hS e (mem_cons_of_mem _ he)) (hp.act hinj (hS e mem_cons_self))

lemma sound_newTxPool:Sound sg S newTxPool:=
 ⟨filed_unused unused_newTxPool,fun _=>unused_newTxPool.pending⟩

/-- In every run the transactions are filed in one place, a checked queue is bounded exactly when
there was a state or it was bounded before, and each steady call keeps what it should. -/
theorem retains_of_run (hinj : S.InjOn sg.hash) (hsmall : SmallNonces S) {events : List Event}
    (hS : ∀ e ∈ events, ∀ tx ∈ offered e.call, tx ∈ S) :
    (∀ a h tx t, (run sg newTxPool events).pending.lookup h = some tx →
      (queueOf (run sg newTxPool events).queue a).lookup h ≠ some t) ∧
    (∀ a h tx, (queueOf (run sg newTxPool events).queue a).lookup h = some tx →
      sg.hash tx = h ∧ sg.sender tx = some a) ∧
    (∀ o view txs, (∀ tx ∈ txs, tx ∈ S) →
      (Bounded (checkQueue sg o view (addAll sg view (run sg newTxPool events) txs)).queue ↔
        view.state.isSome ∨ Bounded (run sg newTxPool events).queue)) ∧
    (∀ o view, Bounded (resetState sg o view (run sg newTxPool events)).queue ↔
      view.state.isSome ∨ Bounded (run sg newTxPool events).queue) ∧
    ∀ e, (∀ tx ∈ offered e.call, tx ∈ S) → Steady sg (run sg newTxPool events) e →
      Retains sg (run sg newTxPool events) e := by
 have hp:Sound sg S (run sg newTxPool events):=sound_newTxPool.run hinj hS
 refine⟨hp.filed.disjoint,fun a h tx htx=>(hp.filed.queued a h tx htx).2,?_,?_,?_⟩
 · intro o view txs htxs
   rw[checkQueue_bounded_iff hinj o view (hp.addAll hinj view htxs).filed]
   cases hs:view.state with
   | some s=>simp
   | none=>rw[addAll_noState hs]
 · intro o view
   exact resetState_bounded_iff hinj o view hp.filed
 intro e he hsteady
 exact retains_of_steady hinj hsmall he hp hsteady

end Runs

namespace DroppedTransaction

open RepeatedNonce

/-- 65 transactions with the nonces after those of the first two. -/
def many:List Transaction:=(List.range 65).map (fun i=>transaction (BitVec.ofNat 64 (i+2)) 0)

def arrival:Event:=event (.addTransactions many)

def after:Pool:=act signer arrival.orders arrival.view (run signer newTxPool repeated)
 arrival.call

lemma last_accepted:transaction 66 0∈offered arrival.call∧
  Accepted signer arrival.view (run signer newTxPool repeated) (transaction 66 0):=by
 refine⟨by decide +kernel,by decide +kernel,rfl⟩

lemma last_gone:¬Held signer after (transaction 66 0):=by
 have hpending:after.pending.lookup (signer.hash (transaction 66 0))=none:=by
  decide +kernel
 have hqueues:∀e∈after.queue.entries,e.2.lookup (signer.hash (transaction 66 0))=none:=by decide +kernel
 rintro⟨a,⟨-,h⟩|h⟩
 ·rw[hpending]at h
  exact absurd h (by simp)
 rw[Queued,queueOf]at h
 cases hq:after.queue.lookup a with
 | none=>simp[hq]at h
 | some txs=>
  rw[hq,getD_some,hqueues ⟨a,txs⟩ (mem_lookup_iff.1 hq)]at h
  exact absurd h (by simp)

lemma no_gap:∀k∈List.range 66,
 after.pending.lookup (signer.hash (transaction (BitVec.ofNat 64 k) 0)) =
  some (transaction (BitVec.ofNat 64 k) 0)∨
  (queueOf after.queue 1).lookup (signer.hash (transaction (BitVec.ofNat 64 k) 0)) =
   some (transaction (BitVec.ofNat 64 k) 0):=by
 decide +kernel

/-- A transaction is dropped although no nonce below it is missing. -/
lemma last_dropped:¬Retains signer (run signer newTxPool repeated) arrival:=by
 intro h
 rcases h (transaction 66 0) (Or.inr last_accepted) with honce|hremoved|⟨a,s,hsender,hs,hwhy⟩
 ·apply last_gone
  by_cases hqueued:∃a,Queued signer after a (transaction 66 0)
  ·obtain⟨a,ha⟩:=hqueued
   exact⟨a,Or.inr ha⟩
  obtain⟨a,ha⟩:=honce.2 hqueued
  exact⟨a,Or.inl ha⟩
 ·obtain⟨txs,hcall,-⟩:=hremoved
  exact Call.noConfusion hcall
 obtain rfl:1=a:=some.inj hsender
 obtain rfl:state=s:=some.inj hs
 rcases hwhy with hnonce|hfunds|⟨k,-,hk,hpending,hqueued,-⟩
 ·exact absurd hnonce (by decide)
 ·exact absurd hfunds (by decide)
 have hk':k<66:=hk
 have hnonce:(transaction (BitVec.ofNat 64 k) 0).accountNonce.toNat=k:=
  (toNat_ofNat k 64).trans (Nat.mod_eq_of_lt (by omega))
 rcases no_gap k (mem_range.2 hk') with hp|hq
 ·exact hpending _ ⟨rfl,hp⟩ hnonce
 exact hqueued _ hq hnonce

/-- Transactions of which the first becomes too expensive. -/
def expensive:List Transaction:=
 transaction 0 5::(List.range 65).map (fun i=>transaction (BitVec.ofNat 64 (i+1)) 0)

def poorer:ChainState:={accounts:=fun a=>if a=1 then some (0,1) else none}

/-- The transactions behind the expensive one are put back into the queue. -/
def postponement:List Event:=
 [event (.addTransactions expensive),
  {orders:=orders,view:={state:=some poorer,gasLimit:=100000},call:=.getTransactions}]

lemma queue_too_long:¬Bounded (checkQueue signer orders {state:=none,gasLimit:=100000}
 (run signer newTxPool postponement)).queue:=by
 intro h
 have hlen:(queueOf (checkQueue signer orders {state:=none,gasLimit:=100000}
  (run signer newTxPool postponement)).queue 1).entries.length=65:=by decide +kernel
 have hle:=h 1
 rw[hlen]at hle
 exact absurd hle (by decide)

/-- An executable transaction is dropped, and a queue is left too long when there is no state. -/
theorem dropped_and_too_long :
    ¬ Retains signer (run signer newTxPool repeated) arrival ∧
    ¬ Bounded (checkQueue signer orders { state := none, gasLimit:=100000 }
      (run signer newTxPool postponement)).queue:=
 ⟨last_dropped,queue_too_long⟩

theorem retains_of_run_reset :
    Retains signer (run signer newTxPool repeated) (event .resetState) ∧
    Held signer (run signer newTxPool repeated) (transaction 1 0) := by
 constructor
 · have hrun:=@retains_of_run signer {transaction 0 0,transaction 1 0,transaction 0 1}
    (by
     intro tx htx t ht heq
     rcases htx with rfl|rfl|rfl<;>rcases ht with rfl|rfl|rfl <;>
      first | rfl | exact absurd heq (by decide))
    (by
     rintro tx (rfl|rfl|rfl)<;>decide) repeated
    (by
     intro e he tx htx
     simp only[repeated,mem_cons,not_mem_nil,or_false] at he
     rcases he with rfl|rfl|rfl<;>rw[mem_singleton.1 htx]<;>simp)
   exact hrun.2.2.2.2 (event .resetState) (fun tx htx=>absurd htx not_mem_nil) trivial
 refine⟨1,Or.inl ⟨rfl,?_⟩⟩
 decide +kernel

end DroppedTransaction

end GoCoupe.PoolRetentionRuns
