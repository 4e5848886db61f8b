import GoCoupe.TransactionPoolChecks

/-!
# How the calls file transactions

Every call keeps the transactions filed under their hashes and senders and in one place only. No
two transactions that are offered to the pool are taken to have the same hash.
-/

namespace GoCoupe.TransactionPoolFiling

open BlockWireFormats MapIteration TransactionPool TransactionPoolLoops TransactionPoolChecks List

variable {sg:Signer} {S:Set Transaction}

variable {tx:Transaction} {view:View} {p:Pool} {txs:List Transaction}

lemma account_eq(h:sg.sender tx=some a):sg.account tx=a:=by
 rw[Signer.account,h]
 rfl

lemma sender_eq(h:(sg.sender tx).isSome):sg.sender tx=some (sg.account tx):=by
 obtain⟨a,ha⟩:=Option.isSome_iff_exists.1 h
 rw[account_eq ha,ha]

lemma filed_validatePool{o:Orders}{s:ChainState}{p:Pool}(hp:Filed sg S p.pending p.queue):
 Filed sg S (validatePool sg o s p).pending (validatePool sg o s p).queue:=by
 constructor
 ·intro h tx htx
  exact hp.filed h tx ((lookup_validatePool o s p h tx).1 htx).1
 ·intro a h tx htx
  rcases (lookup_queue_validatePool o s p hp.disjoint a h tx).1 htx with hq|⟨hpend,-,-,ha⟩
  ·exact hp.queued a h tx hq
  obtain⟨hS,hhash,hsender⟩:=hp.filed h tx hpend
  exact⟨hS,hhash,ha▸sender_eq hsender⟩
 intro a h tx t htx ht
 obtain⟨hpend,-,hnot⟩:=(lookup_validatePool o s p h tx).1 htx
 rcases (lookup_queue_validatePool o s p hp.disjoint a h t).1 ht with hq|⟨hpend',-,hpost,-⟩
 ·exact hp.disjoint a h tx t hpend hq
 rw[hpend,Option.some.injEq]at hpend'
 exact hnot (hpend'▸hpost)

/-- What a transaction that is accepted has been checked for. -/
lemma validateTx_ok(h:validateTx sg view price tx=.ok ()):
 ∃a s,sg.sender tx=some a∧view.state=some s∧stale (s.getNonce a) (s.getBalance a) tx=false:=by
 rw[validateTx]at h
 split at h
 ·exact absurd h (by simp)
 cases hsender:sg.sender tx with
 | none=>simp[hsender]at h
 | some a=>
  cases hstate:view.state with
  | none=>simp[hsender,hstate]at h
  | some s=>
   refine⟨a,s,rfl,rfl,?_⟩
   simp only[hsender,hstate]at h
   split_ifs at h with haccount hnonce hgas hvalue hfunds hintrinsic
   rw[stale,Bool.or_eq_false_iff,decide_eq_false_iff_not,decide_eq_false_iff_not]
   exact⟨hnonce,hfunds⟩

variable (sg) in
def Accepted (view:View) (p:Pool) (tx:Transaction):Prop:=
 p.pending.lookup (sg.hash tx)=none ∧ validateTx sg view p.minGasPrice tx=.ok ()

lemma add_cases(view:View)(p:Pool)(tx:Transaction):
 (Accepted sg view p tx∧add sg view p tx=.ok {p with queue:=queueTx sg p.queue (sg.hash tx) tx})∨
 (¬Accepted sg view p tx∧∃e,add sg view p tx=.error e):=by
 rw[add]
 cases hknown:p.pending.lookup (sg.hash tx) with
 | some t=>
  right
  refine⟨?_,.known,rfl⟩
  rintro⟨hnone,-⟩
  rw[hknown]at hnone
  exact absurd hnone (by simp)
 | none=>
  cases hvalid:validateTx sg view p.minGasPrice tx with
  | ok=>exact Or.inl ⟨⟨hknown,hvalid⟩,rfl⟩
  | error e=>
   right
   refine⟨?_,e,rfl⟩
   rintro⟨-,hok⟩
   rw[hvalid]at hok
   exact absurd hok (by simp)

lemma filed_queueTx(hinj:S.InjOn sg.hash)
 (hp:Filed sg S pending queue)(hS:tx∈S)(hsender:sg.sender tx=some a)
 (hnew:pending.lookup (sg.hash tx)=none):
 Filed sg S pending (queueTx sg queue (sg.hash tx) tx)∧
 ∀b h t,(queueOf (queueTx sg queue (sg.hash tx) tx) b).lookup h=some t↔
  (queueOf queue b).lookup h=some t∨(t=tx∧sg.hash t=h∧sg.sender t=some b):=by
 have hlookup:∀b h t,(queueOf (queueTx sg queue (sg.hash tx) tx) b).lookup h=some t↔
  (queueOf queue b).lookup h=some t∨(t=tx∧sg.hash t=h∧sg.sender t=some b):=by
  intro b h t
  rw[lookup_queueTx,account_eq hsender]
  by_cases hcase:b=a∧h=sg.hash tx
  ·obtain⟨rfl,rfl⟩:=hcase
   rw[if_pos ⟨rfl,rfl⟩,Option.some.injEq]
   constructor
   ·rintro rfl
    exact Or.inr ⟨rfl,rfl,hsender⟩
   rintro (hold|⟨rfl,-,-⟩)
   ·obtain⟨htS,hhash,-⟩:=hp.queued _ _ _ hold
    exact (hinj htS hS hhash).symm
   rfl
  rw[if_neg hcase]
  constructor
  ·exact Or.inl
  rintro (hold|⟨rfl,hhash,hsender'⟩)
  ·exact hold
  rw[hsender,Option.some.injEq]at hsender'
  exact absurd ⟨hsender'.symm,hhash.symm⟩ hcase
 refine⟨⟨hp.filed,?_,?_⟩,hlookup⟩
 ·intro b h t ht
  rcases (hlookup b h t).1 ht with hold|⟨rfl,hhash,hsender'⟩
  ·exact hp.queued b h t hold
  exact⟨hS,hhash,hsender'⟩
 intro b h t t' ht ht'
 rcases (hlookup b h t').1 ht' with hold|⟨rfl,rfl,-⟩
 ·exact hp.disjoint b h t t' ht hold
 rw[hnew]at ht
 exact absurd ht (by simp)

structure Added (sg:Signer) (view:View) (p q:Pool) (txs:List Transaction):Prop where
 pendingState:q.pendingState=p.pendingState
 minGasPrice:q.minGasPrice=p.minGasPrice
 pending:q.pending=p.pending
 queue:∀a h tx,(queueOf q.queue a).lookup h=some tx ↔ (queueOf p.queue a).lookup h=some tx ∨
   (tx∈txs ∧ Accepted sg view p tx ∧ sg.hash tx=h ∧ sg.sender tx=some a)

lemma added_nil(view:View)(p:Pool):Added sg view p p []:=⟨rfl,rfl,rfl,fun a h tx=>by simp⟩

lemma Accepted.sender(h:Accepted sg view p tx):∃a,sg.sender tx=some a:=by
 obtain⟨a,s,hsender,-⟩:=validateTx_ok h.2
 exact⟨a,hsender⟩

lemma added_one(hinj:S.InjOn sg.hash)(view:View)(hp:Filed sg S p.pending p.queue)(hS:tx∈S):
 let q:=(add sg view p tx).toOption.getD p
 Filed sg S q.pending q.queue∧Added sg view p q [tx]:=by
 rcases @add_cases sg view p tx with⟨hacc,hadd⟩|⟨hnot,e,hadd⟩
 ·obtain⟨a,hsender⟩:=hacc.sender
  obtain⟨hfiled,hlookup⟩:=filed_queueTx hinj hp hS hsender hacc.1
  rw[hadd]
  refine⟨hfiled,rfl,rfl,rfl,?_⟩
  intro b h t
  refine (hlookup b h t).trans (or_congr_right ?_)
  rw[mem_singleton]
  constructor
  ·rintro⟨rfl,hrest⟩
   exact⟨rfl,hacc,hrest⟩
  rintro⟨rfl,-,hrest⟩
  exact⟨rfl,hrest⟩
 rw[hadd]
 refine⟨hp,rfl,rfl,rfl,?_⟩
 intro b h t
 refine (or_iff_left ?_).symm
 rintro⟨hmem,hacc,-⟩
 rw[mem_singleton.1 hmem]at hacc
 exact hnot hacc

lemma Added.trans(h:Added sg view p q txs)
 (h':Added sg view q r txs'):Added sg view p r (txs++txs'):=by
 have hacc:∀tx,Accepted sg view q tx↔Accepted sg view p tx:=by
  intro tx
  rw[Accepted,Accepted,h.pending,h.minGasPrice]
 refine⟨h'.pendingState.trans h.pendingState,h'.minGasPrice.trans h.minGasPrice,
  h'.pending.trans h.pending,?_⟩
 intro a k tx
 rw[h'.queue,h.queue,hacc,mem_append,or_assoc,or_and_right]

lemma added_addAll(hinj:S.InjOn sg.hash)(view:View)(hp:Filed sg S p.pending p.queue)
 (hS:∀tx∈txs,tx∈S):
 Filed sg S (addAll sg view p txs).pending (addAll sg view p txs).queue∧
  Added sg view p (addAll sg view p txs) txs:=by
 induction txs generalizing p with
 | nil=>exact⟨hp,added_nil view p⟩
 | cons tx txs ih=>
  obtain⟨hq,hone⟩:=added_one hinj view hp (hS tx mem_cons_self)
  obtain⟨hr,hrest⟩:=ih hq (fun t ht=>hS t (mem_cons_of_mem _ ht))
  exact⟨hr,hone.trans hrest⟩

lemma checkQueue_noState(o:Orders)(h:view.state=none)(p:Pool):checkQueue sg o view p=p:=by
 rw[checkQueue]
 cases hp:p.pendingState<;>simp[h,resetState]

lemma addAll_noState(h:view.state=none)(p:Pool)(txs:List Transaction):addAll sg view p txs=p:=by
 induction txs with
 | nil=>rfl
 | cons tx txs ih=>
  rcases @add_cases sg view p tx with⟨hacc,-⟩|⟨-,e,hadd⟩
  ·obtain⟨a,s,-,hs,-⟩:=validateTx_ok hacc.2
   rw[h]at hs
   exact absurd hs (by simp)
  rw[addAll,foldl_cons,hadd]
  exact ih

lemma act_add(o:Orders)(view:View)(p:Pool)(tx:Transaction):
 (Accepted sg view p tx∧act sg o view p (.add tx)=checkQueue sg o view (addAll sg view p [tx]))∨
 (¬Accepted sg view p tx∧act sg o view p (.add tx)=p):=by
 rw[act,addAll,foldl_cons,foldl_nil]
 rcases @add_cases sg view p tx with⟨hacc,hadd⟩|⟨hnot,e,hadd⟩
 ·rw[hadd]
  exact Or.inl ⟨hacc,rfl⟩
 rw[hadd]
 exact Or.inr ⟨hnot,rfl⟩

end GoCoupe.TransactionPoolFiling
