import GoCoupe.PendingNonces

/-!
# Which calls keep the pending transactions executable

`addTx` sets the nonce of the pending state behind each transaction it promotes, also behind
one whose nonce is pending already. The interval of pending nonces is kept by the calls that
find the chain where the pool left it and do not end with such a transaction.
-/

namespace GoCoupe.PendingNonceRuns

open BlockWireFormats TransactionPool TransactionPoolLoops TransactionPoolChecks List Option BitVec
open TransactionPoolFiling PendingNonces

variable (sg:Signer)

/-- The chain's nonce is the lowest pending one, or not below the pool's if nothing is pending. -/
def Unmoved (s:ChainState) (p:Pool):Prop:=
 ∀ms,p.pendingState=some ms→∀a,(∀tx,Pending sg p a tx→s.getNonce a≤tx.accountNonce ∧
   ∃t,Pending sg p a t ∧ t.accountNonce=s.getNonce a) ∧
  ((∀tx,¬Pending sg p a tx)→ms.getNonce a ≤ s.getNonce a)

/-- If a transaction is accepted whose nonce is pending already, then so is one with the last
pending nonce or the next. -/
def Orderly (view:View) (p:Pool) (txs:List Transaction):Prop:=
 ∀ms,p.pendingState=some ms→∀a,
  (∃tx∈txs,Accepted sg view p tx ∧ sg.sender tx=some a ∧ tx.accountNonce < ms.getNonce a) →
  ∃tx∈txs,Accepted sg view p tx ∧ sg.sender tx=some a ∧
   (tx.accountNonce=ms.getNonce a ∨ next tx=(ms.getNonce a).toNat)

def Advances (s:ChainState) (p:Pool):Prop:=
 ∀a tx,Pending sg p a tx → Stays sg s p tx→∃t,Pending sg p a t ∧ t.accountNonce ≤ s.getNonce a

def offered:Call→List Transaction
 | .add tx=>[tx]
 | .addTransactions txs=>txs
 | _=>[]

def Careful (p:Pool) (e:Event):Prop:=(∀tx∈offered e.call,next tx<2^64) ∧ match e.call with
 | .add tx=>∀s,e.view.state=some s→Unmoved sg s p ∧ Orderly sg e.view p [tx]
 | .addTransactions txs=>∀s,e.view.state=some s→Unmoved sg s p ∧ Orderly sg e.view p txs
 | .resetState=>∀s,e.view.state=some s → Advances sg s p
 | .gasPriceChanged _=>∀s,e.view.state=some s→Unmoved sg s p
 | .removeTransactions _=>False
 | .getTransactions=>False

def CarefulRun (p:Pool):List Event→Prop
 | []=>True
 | e::events=>Careful sg p e ∧ CarefulRun (act sg e.orders e.view p e.call) events

variable {sg} {S:Set Transaction}

/-- The pool has not been used, or it is in order for the state. -/
def Good (sg:Signer) (S:Set Transaction) (s:ChainState) (p:Pool):Prop:=Unused p ∨ InOrder sg S s p

variable {p:Pool} {s s₀:ChainState}

lemma filed_unused(h:Unused p):Filed sg S p.pending p.queue:=by
 constructor
 ·intro k tx htx
  rw[h.pending]at htx
  exact absurd htx (by simp)
 ·intro a k tx htx
  rw[h.queue]at htx
  exact absurd htx (by simp)
 intro a k tx t htx
 rw[h.pending]at htx
 exact absurd htx (by simp)

lemma Good.filed(h:Good sg S s p):Filed sg S p.pending p.queue:=h.elim filed_unused InOrder.filed

lemma covers_of_unmoved(hms:p.pendingState=some ms)(h:Unmoved sg s p)
 (hcovers:Covers (s₀.getNonce a).toNat (accountOf sg a (p.live ms))):
 Covers (s.getNonce a).toNat (accountOf sg a (p.live ms)):=by
 obtain⟨hlow,hnone⟩:=h ms hms a
 intro k
 constructor
 ·rintro⟨tx,htx,rfl⟩
  exact⟨le_def.1 (hlow tx htx).1,((hcovers _).1 ⟨tx,htx,rfl⟩).2⟩
 rintro⟨hlo,hhi⟩
 by_cases hempty:∀tx,¬Pending sg p a tx
 ·have hle:=le_def.1 (hnone hempty)
  exact absurd (hle.trans hlo) (Nat.not_le.2 hhi)
 rw[not_forall_not]at hempty
 obtain⟨tx,htx⟩:=hempty
 obtain⟨-,t,ht,hnonce⟩:=hlow tx htx
 have hfirst:=((hcovers _).1 ⟨t,ht,rfl⟩).1
 rw[hnonce]at hfirst
 exact (hcovers k).2 ⟨hfirst.trans hlo,hhi⟩

lemma Good.of_unmoved(hp:Good sg S s₀ p)(h:Unmoved sg s p):Good sg S s p:=by
 rcases hp with hp|hp
 ·exact Or.inl hp
 exact Or.inr ⟨hp.filed,fun ms hms a=>covers_of_unmoved hms h (hp.covers ms hms a),hp.above,
  hp.initialised⟩

lemma addAll_inOrder(hinj:S.InjOn sg.hash)(hsmall:SmallNonces S)(o:Orders)
 (hs:view.state=some s)(hp:Good sg S s₀ p)
 (hS:∀tx∈txs,tx∈S)(hmoved:Unmoved sg s p)(horderly:Orderly sg view p txs):
 InOrder sg S s (checkQueue sg o view (addAll sg view p txs)):=by
 obtain⟨hq,hadded⟩:=added_addAll hinj view hp.filed hS
 generalize addAll sg view p txs=q at hq hadded ⊢
 rcases hp with hp|hp
 ·apply checkQueue_inOrder_of_none hinj hsmall o hs (hadded.pendingState.trans hp.pendingState) hq
  intro h
  rw[hadded.pending]
  exact hp.pending h
 obtain⟨ms,hms⟩:=isSome_iff_exists.1 hp.initialised
 have hms':=hadded.pendingState.trans hms
 apply checkQueue_inOrder hinj hsmall o hs hms' hq
 ·rintro a ⟨tx,⟨h,htx,hfresh⟩,hlt⟩
  change (queueOf q.queue a).lookup h=some tx at htx
  rcases (hadded.queue a h tx).1 htx with hold|⟨hmem,hacc,-,hsender⟩
  ·exact absurd (hp.above ms hms a h tx hold) (Nat.not_lt.2 (Nat.le_of_lt hlt))
  obtain⟨t,ht,hacc',hsender',hnonce⟩:=horderly ms hms a ⟨tx,hmem,hacc,hsender,lt_def.2 hlt⟩
  obtain⟨b,s',hb,hs',hfresh'⟩:=validateTx_ok hacc'.2
  rw[hsender',Option.some.injEq]at hb
  rw[hs,Option.some.injEq]at hs'
  subst hb hs'
  refine⟨t,⟨sg.hash t,?_,hfresh'⟩,?_⟩
  ·exact (hadded.queue a _ t).2 (Or.inr ⟨ht,hacc',rfl,hsender'⟩)
  exact hnonce.imp (congrArg BitVec.toNat) id
 intro a
 have hold:=covers_of_unmoved hms hmoved (hp.covers ms hms a)
 have hview:(accountOf sg a (q.live ms)).pending=(accountOf sg a (p.live ms)).pending:=by
  funext tx
  change (_∧q.pending.lookup _=_)=(_∧p.pending.lookup _=_)
  rw[hadded.pending]
 intro k
 rw[hview]
 exact hold k

lemma rebasable_of_good(hp:Good sg S s₀ p)(h:Advances sg s p):Rebasable sg s p:=by
 rcases hp with hp|hp
 ·exact rebasable_of_pending hp.pending
 obtain⟨ms,hms⟩:=isSome_iff_exists.1 hp.initialised
 constructor
 ·intro a tx htx hvalid hnot k hlo hhi
  obtain⟨t,ht,hle⟩:=h a tx htx ⟨hvalid,hnot⟩
  have hfirst:=((hp.covers ms hms a _).1 ⟨t,ht,rfl⟩).1
  have hlast:=((hp.covers ms hms a _).1 ⟨tx,htx,rfl⟩).2
  have hle':=le_def.1 hle
  exact (hp.covers ms hms a k).2 ⟨by omega,by omega⟩
 intro a tx t htx ht
 have hlast:=((hp.covers ms hms a _).1 ⟨t,ht,rfl⟩).2
 have habove:=hp.above ms hms a _ tx htx
 omega

lemma act_good(hinj:S.InjOn sg.hash)(hsmall:SmallNonces S)(hp:Good sg S s₀ p)
 (hs:e.view.state=some s)(hS:∀tx∈offered e.call,tx∈S)(he:Careful sg p e):
 Good sg S s (act sg e.orders e.view p e.call):=by
 obtain⟨o,view,call⟩:=e
 dsimp only at hs hS ⊢
 obtain⟨-,he⟩:=he
 cases call with
 | add tx=>
  obtain⟨hmoved,horderly⟩:=he s hs
  rcases act_add o view p tx with⟨-,hact⟩|⟨-,hact⟩
  ·rw[hact]
   exact Or.inr (addAll_inOrder hinj hsmall o hs hp hS hmoved horderly)
  rw[hact]
  exact hp.of_unmoved hmoved
 | addTransactions txs=>
  obtain⟨hmoved,horderly⟩:=he s hs
  exact Or.inr (addAll_inOrder hinj hsmall o hs hp hS hmoved horderly)
 | resetState=>
  exact Or.inr (resetState_inOrder hinj hsmall o hs hp.filed (rebasable_of_good hp (he s hs)))
 | gasPriceChanged price=>
  rcases hp.of_unmoved (he s hs) with hp|hp
  ·exact Or.inl ⟨hp.pendingState,hp.pending,hp.queue⟩
  exact Or.inr ⟨hp.filed,hp.covers,hp.above,hp.initialised⟩
 | removeTransactions txs=>exact he.elim
 | getTransactions=>exact he.elim

lemma act_noState(hs:e.view.state=none)(he:Careful sg p e):
 ∃price,act sg e.orders e.view p e.call = {p with minGasPrice:=price}:=by
 obtain⟨o,view,call⟩:=e
 dsimp only at hs ⊢
 obtain⟨-,he⟩:=he
 cases call with
 | add tx=>
  rcases act_add o view p tx with⟨-,hact⟩|⟨-,hact⟩
  ·rw[hact,addAll_noState hs,checkQueue_noState o hs]
   exact⟨p.minGasPrice,rfl⟩
  rw[hact]
  exact⟨p.minGasPrice,rfl⟩
 | addTransactions txs=>
  rw[act,addAll_noState hs,checkQueue_noState o hs]
  exact⟨p.minGasPrice,rfl⟩
 | resetState=>
  rw[act,resetState,hs]
  exact⟨p.minGasPrice,rfl⟩
 | gasPriceChanged price=>exact⟨price,rfl⟩
 | removeTransactions txs=>exact he.elim
 | getTransactions=>exact he.elim

variable {sg:Signer}

/-- The pending nonces of each account are those from the account's nonce up to the nonce of the
pending state, and no transaction of the pool has that next nonce. -/
structure Executable (sg:Signer) (s:ChainState) (p:Pool):Prop where
 interval:∀ms,p.pendingState=some ms→∀a k,
  (∃tx,Pending sg p a tx ∧ tx.accountNonce.toNat=k) ↔ (s.getNonce a).toNat≤k ∧ k<(ms.getNonce a).toNat
 fresh:∀ms,p.pendingState=some ms→∀a tx,Pending sg p a tx ∨ Queued sg p a tx →
  tx.accountNonce≠ms.getNonce a
 unused:p.pendingState=none→∀a tx,¬Pending sg p a tx ∧ ¬Queued sg p a tx

variable {events:List Event}

lemma Good.executable(h:Good sg S s p):Executable sg s p:=by
 rcases h with h|h
 ·refine⟨?_,?_,?_⟩
  ·intro ms hms
   rw[h.pendingState]at hms
   exact absurd hms (by simp)
  ·intro ms hms
   rw[h.pendingState]at hms
   exact absurd hms (by simp)
  intro _ a tx
  rw[Pending,Queued,h.pending,h.queue]
  simp
 refine⟨fun ms hms a=>h.covers ms hms a,?_,?_⟩
 ·rintro ms hms a tx (hpend|hqueued) hnonce
  ·have hlt:=((h.covers ms hms a _).1 ⟨tx,hpend,rfl⟩).2
   rw[hnonce]at hlt
   exact lt_irrefl _ hlt
  have hlt:=h.above ms hms a _ tx hqueued
  rw[hnonce]at hlt
  exact lt_irrefl _ hlt
 intro hnone
 have hinit:=h.initialised
 rw[hnone]at hinit
 exact absurd hinit (by simp)

lemma run_good(hinj:S.InjOn sg.hash)(hsmall:SmallNonces S)
 (hp:Good sg S s₀ p)(hS:∀e∈events,∀tx∈offered e.call,tx∈S)
 (hcareful:CarefulRun sg p events):∃s,Good sg S s (run sg p events):=by
 induction events generalizing s₀ p with
 | nil=>exact⟨s₀,hp⟩
 | cons e events ih=>
  obtain⟨he,hrest⟩:=hcareful
  have hSe:=hS e mem_cons_self
  have hSrest:∀e∈events,∀tx∈offered e.call,tx∈S:=fun e he=>hS e (mem_cons_of_mem _ he)
  cases hs:e.view.state with
  | some s=>exact ih (act_good hinj hsmall hp hs hSe he) hSrest hrest
  | none=>
   obtain⟨price,hact⟩:=act_noState hs he
   have hgood:Good sg S s₀ (act sg e.orders e.view p e.call):=by
    rw[hact]
    exact hp.imp (fun h=>⟨h.pendingState,h.pending,h.queue⟩)
     (fun h=>⟨h.filed,h.covers,h.above,h.initialised⟩)
   exact ih hgood hSrest hrest

lemma careful_small(h:CarefulRun sg p events):∀e∈events,∀tx∈offered e.call,next tx<2^64:=by
 induction events generalizing p with
 | nil=>exact fun e he=>absurd he not_mem_nil
 | cons e events ih=>exact forall_mem_cons.2 ⟨h.1.1,ih h.2⟩

lemma carefulRun_append(h:CarefulRun sg p (events++[e])):
 CarefulRun sg p events∧Careful sg (run sg p events) e:=by
 induction events generalizing p with
 | nil=>exact⟨trivial,h.1⟩
 | cons e' events ih=>
  obtain⟨hrest,hlast⟩:=ih h.2
  exact⟨⟨h.1,hrest⟩,hlast⟩

lemma unused_newTxPool:Unused newTxPool:=⟨rfl,fun _=>rfl,fun _ _=>rfl⟩

/-- After every call of a careful run the pending transactions are executable in order in the
state that the call has found. -/
theorem executable_of_careful {S : Set Transaction} (hinj : S.InjOn sg.hash)
    {events : List Event} {e : Event}
    (hS : ∀ e' ∈ events ++ [e], ∀ tx ∈ offered e'.call, tx ∈ S)
    (hcareful : CarefulRun sg newTxPool (events ++ [e])) {s : ChainState}
    (hs : e.view.state = some s) :
    Executable sg s (run sg newTxPool (events ++ [e])) := by
 let T:Set Transaction:={tx | tx∈S ∧ next tx<2^64}
 have hinjT:T.InjOn sg.hash:=hinj.mono (fun tx htx=>htx.1)
 have hT:∀e'∈events++[e],∀tx∈offered e'.call,tx∈T:=
  fun e' he' tx htx=>⟨hS e' he' tx htx,careful_small hcareful e' he' tx htx⟩
 obtain⟨hrest,hlast⟩:=carefulRun_append hcareful
 obtain⟨s₀,hgood⟩:=run_good hinjT (fun tx htx=>htx.2)
  (Or.inl unused_newTxPool:Good sg T s newTxPool)
  (fun e' he'=>hT e' (mem_append_left _ he')) hrest
 have hend:=act_good hinjT (fun tx htx=>htx.2) hgood hs
  (hT e (mem_append_right _ (mem_singleton_self e))) hlast
 rw[run,foldl_append]
 exact hend.executable

namespace RepeatedNonce

def transaction (nonce:BitVec 64) (amount:ℤ):Transaction:=
 {accountNonce:=nonce,price:=0,gasLimit:=21000,recipient:=none,amount:=amount,
  payload:=[],v:=0,r:=0,s:=0}

/-- All transactions are from one account. -/
def signer:Signer:=
 {hash:=fun tx=>Fin.ofNat _ (tx.accountNonce.toNat+2^64*tx.amount.toNat)
  sender:=fun _=>some 1}

def state:ChainState:={accounts:=fun a=>if a=1 then some (0,10) else none}

def orders:Orders:={visit:=fun _ l=>l,perm:=fun _ l=>List.Perm.refl l}

def event (call:Call):Event:=
 {orders:=orders,view:={state:=some state,gasLimit:=100000},call:=call}

def offer (nonce:BitVec 64) (amount:ℤ):Event:=event (.add (transaction nonce amount))

/-- Two transactions and then another one with the first nonce. -/
def repeated:List Event:=[offer 0 0,offer 1 0,offer 0 1]

theorem interval_lost : ¬ Executable signer state (run signer newTxPool repeated) := by
 intro h
 have hnext:(run signer newTxPool repeated).pendingState.map (·.getNonce 1) =
  some 1:=by decide +kernel
 have hpending:(run signer newTxPool repeated).pending.lookup
  (signer.hash (transaction 1 0))=some (transaction 1 0):=by decide +kernel
 obtain⟨ms,hms,hnonce⟩:=map_eq_some_iff.1 hnext
 have hlt:=((h.interval ms hms 1 1).1 ⟨transaction 1 0,⟨rfl,hpending⟩,rfl⟩).2
 rw[hnonce] at hlt
 exact absurd hlt (by decide)

/-- The same transactions in one call, out of order. -/
def together:Event:=event (.addTransactions [transaction 1 0,transaction 0 1,transaction 0 0])

theorem executable_of_careful_together :
    Executable signer state (run signer newTxPool [together]) ∧
    (run signer newTxPool [together]).pendingState.map (fun ms => ms.getNonce 1) = some 2 := by
 constructor
 · apply @executable_of_careful signer {transaction 1 0,transaction 0 1,transaction 0 0} _ []
    together
   · intro e he
     rw[mem_singleton.1 he]
     intro tx htx
     simpa[together,event,offered] using htx
   · refine⟨⟨by decide,?_⟩,trivial⟩
     intro s _
     exact⟨fun ms hms=>absurd hms (by simp[newTxPool]),fun ms hms=>absurd hms (by simp[newTxPool])⟩
   · rfl
   intro tx htx t ht heq
   rcases htx with rfl|rfl|rfl<;>rcases ht with rfl|rfl|rfl <;>
    first | rfl | exact absurd heq (by decide)
 decide +kernel

end RepeatedNonce

end GoCoupe.PendingNonceRuns
