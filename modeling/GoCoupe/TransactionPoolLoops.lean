import GoCoupe.TransactionPool

/-!
# What the loops of the transaction pool do

Each loop over a map is described by the lookups it leaves, whatever the order of the visits.
-/

namespace GoCoupe.TransactionPoolLoops

open BlockWireFormats MapIteration TransactionPool List AList

@[simp]
lemma getNonce_setNonce(ms:ManagedState)(a b:Address)(nonce:BitVec 64):
 (ms.setNonce a nonce).getNonce b=if b=a then nonce else ms.getNonce b:=by
 by_cases h:b=a
 ·subst h
  simp[ManagedState.getNonce,ManagedState.setNonce,ManagedState.getAccount,newAccount,Account.next]
 simp[ManagedState.getNonce,ManagedState.setNonce,ManagedState.getAccount,h]

@[simp]
lemma getNonce_manageState(s:ChainState)(a:Address):(manageState s).getNonce a=s.getNonce a:=rfl

variable {sg:Signer}

lemma queueOf_insert(queue:GoMap Address TxMap)(a b:Address)(txs:TxMap):
 queueOf (queue.insert a txs) b=if b=a then txs else queueOf queue b:=by
 by_cases h:b=a
 ·subst h
  simp[queueOf]
 simp[queueOf,lookup_insert_ne h,h]

lemma queueOf_erase(queue:GoMap Address TxMap)(a b:Address):
 queueOf (queue.erase a) b=if b=a then ∅ else queueOf queue b:=by
 by_cases h:b=a
 ·subst h
  simp[queueOf]
 simp[queueOf,lookup_erase_ne h,h]

/-- The queue of an account is replaced, or deleted when nothing is left of it. -/
lemma queueOf_store(queue:GoMap Address TxMap)(a b:Address)(txs:TxMap):
 queueOf (if txs.entries.isEmpty then queue.erase a else queue.insert a txs) b =
  if b=a then txs else queueOf queue b:=by
 split
 ·rename_i hempty
  have htxs:txs = ∅:=ext (List.isEmpty_iff.1 hempty)
  rw[queueOf_erase,htxs]
 exact queueOf_insert queue a b txs

lemma lookup_queueTx(queue:GoMap Address TxMap)(h k:Hash)(tx:Transaction)(a:Address):
 (queueOf (queueTx sg queue h tx) a).lookup k =
  if a=sg.account tx∧k=h then some tx else (queueOf queue a).lookup k:=by
 rw[queueTx,queueOf_insert]
 by_cases ha:a=sg.account tx
 ·rw[if_pos ha,←ha]
  by_cases hk:k=h
  ·rw[if_pos ⟨rfl,hk⟩,hk,lookup_insert]
  rw[lookup_insert_ne hk,if_neg (hk ·.2)]
 rw[if_neg ha,if_neg (ha ·.1)]

/-- Transactions with different hashes that are queued one after another. -/
lemma lookup_foldl_queueTx(l:List Entry)(hnodup:(l.map Sigma.fst).Nodup)
 (queue:GoMap Address TxMap)(a:Address)(h:Hash)(tx:Transaction):
 (queueOf (l.foldl (fun q e=>queueTx sg q e.1 e.2) queue) a).lookup h=some tx↔
  (⟨h,tx⟩∈l∧sg.account tx=a)∨
  ((queueOf queue a).lookup h=some tx∧∀t,⟨h,t⟩∈l→sg.account t≠a):=by
 induction l generalizing queue with
 | nil=>simp
 | cons e l ih=>
  obtain⟨k,t⟩:=e
  rw[map_cons,nodup_cons]at hnodup
  rw[foldl_cons,ih hnodup.2,lookup_queueTx]
  by_cases hk:h=k
  ·subst hk
   have hnot:∀t',(⟨h,t'⟩:Entry)∉l:=by
    intro t' ht'
    exact hnodup.1 (List.mem_map.2 ⟨⟨h,t'⟩,ht',rfl⟩)
   by_cases ha:a=sg.account t
   ·simp[hnot,ha]
    grind
   simp[hnot,ha]
   grind
  have hne:∀t',(⟨h,t'⟩:Entry)≠⟨k,t⟩:=by
   intro t' heq
   exact hk (congrArg Sigma.fst heq)
  simp only[hk,and_false,if_false,mem_cons,hne,false_or]

lemma afterGap_trackGap(gaps:GoMap Address (BitVec 64))(a:Address)(nonce:BitVec 64)(tx:Transaction):
 afterGap sg (trackGap gaps a nonce) tx=true↔
  afterGap sg gaps tx=true∨(a=sg.account tx∧nonce≤tx.accountNonce):=by
 by_cases ha:sg.account tx=a
 ·subst ha
  cases hg:gaps.lookup (sg.account tx) with
  | none=>simp[afterGap,trackGap,hg]
  | some prev=>
   by_cases hlt:nonce<prev
   ·simp only[afterGap,trackGap,hg,hlt,if_true,lookup_insert,decide_eq_true_eq,true_and]
    constructor
    ·exact Or.inr
    rintro (h|h)
    ·exact BitVec.le_trans (BitVec.le_of_lt hlt) h
    exact h
   simp only[afterGap,trackGap,hg,hlt,if_false,decide_eq_true_eq,true_and]
   constructor
   ·exact Or.inl
   rintro (h|h)
   ·exact h
   exact BitVec.le_trans (BitVec.not_lt.1 hlt) h
 have ha':a≠sg.account tx:=fun h=>ha h.symm
 have hlookup:(trackGap gaps a nonce).lookup (sg.account tx)=gaps.lookup (sg.account tx):=by
  rw[trackGap]
  split
  ·exact lookup_insert_ne ha
  split
  ·exact lookup_insert_ne ha
  rfl
 simp only[afterGap,hlookup,ha',false_and,or_false]

/-- The gaps that the first loop of `validatePool` leaves. -/
lemma afterGap_foldl(bad:Transaction→Bool)(visit:List Entry)
 (gaps:GoMap Address (BitVec 64))(tx:Transaction):
 afterGap sg (visit.foldl (fun (gaps:GoMap Address (BitVec 64)) e=>
  if bad e.2 then trackGap gaps (sg.account e.2) e.2.accountNonce else gaps) gaps) tx=true↔
  afterGap sg gaps tx=true∨∃e∈visit,bad e.2=true∧
   sg.account e.2=sg.account tx∧e.2.accountNonce≤tx.accountNonce:=by
 induction visit generalizing gaps with
 | nil=>simp
 | cons e visit ih=>
  rw[foldl_cons,ih]
  by_cases hbad:bad e.2=true
  ·rw[if_pos hbad,afterGap_trackGap]
   simp[hbad,or_assoc]
  rw[if_neg hbad]
  simp[hbad]

variable (sg)

def Invalid (s:ChainState) (tx:Transaction):Prop:=past sg s tx ∨ broke sg s tx

/-- A pending transaction that `validatePool` finds behind one without funds. -/
def Postponed (s:ChainState) (pending:TxMap) (tx:Transaction):Prop:=
 ∃h t,pending.lookup h=some t ∧ ¬past sg s t ∧ broke sg s t ∧
  sg.account t=sg.account tx ∧ t.accountNonce≤tx.accountNonce

variable {sg}

lemma validatePool_pendingState(o:Orders)(s:ChainState)(p:Pool):
 (validatePool sg o s p).pendingState=p.pendingState:=by
 rw[validatePool]
 dsimp only
 split<;>rfl

lemma dropInvalid_eq(s:ChainState)(visit:List Entry)(pending:TxMap):
 dropInvalid sg s visit pending=(sweep (fun _ tx=>past sg s tx || broke sg s tx) visit pending,
   visit.foldl (fun (gaps:GoMap Address (BitVec 64)) e=>
    if !past sg s e.2 && broke sg s e.2 then
     trackGap gaps (sg.account e.2) e.2.accountNonce
    else gaps) ∅):=
 foldl_pair (fun (m:TxMap) (e:Entry)=>
  if past sg s e.2 || broke sg s e.2 then m.erase e.1 else m)
  (fun (gaps:GoMap Address (BitVec 64)) (e:Entry)=>
   if !past sg s e.2 && broke sg s e.2 then
    trackGap gaps (sg.account e.2) e.2.accountNonce
   else gaps) visit pending ∅

lemma postpone_eq(gaps:GoMap Address (BitVec 64))(visit:List Entry)(pending:TxMap)
 (queue:GoMap Address TxMap):
 postpone sg gaps visit pending queue=(sweep (fun _ tx=>afterGap sg gaps tx) visit pending,
   (visit.filter (afterGap sg gaps ·.2)).foldl
    (fun q e=>queueTx sg q e.1 e.2) queue):=by
 rw[foldl_filter]
 exact foldl_pair (fun (m:TxMap) (e:Entry)=>
  if afterGap sg gaps e.2 then m.erase e.1 else m)
  (fun (q:GoMap Address TxMap) (e:Entry)=>
   if afterGap sg gaps e.2 then queueTx sg q e.1 e.2 else q) visit pending queue

lemma lookup_dropInvalid(hvisit:visit.Perm pending.entries)(h:Hash)(tx:Transaction):
 (dropInvalid sg s visit pending).1.lookup h=some tx↔pending.lookup h=some tx∧¬Invalid sg s tx:=by
 rw[dropInvalid_eq,lookup_sweep hvisit,Option.filter_eq_some_iff,Bool.not_eq_true',Bool.or_eq_false_iff]
 simp[Invalid]

lemma afterGap_dropInvalid(hvisit:visit.Perm pending.entries)(tx:Transaction):
 afterGap sg (dropInvalid sg s visit pending).2 tx=true↔Postponed sg s pending tx:=by
 rw[dropInvalid_eq,afterGap_foldl (fun tx=>!past sg s tx && broke sg s tx)]
 constructor
 ·rintro (hempty|⟨⟨h,t⟩,ht,hbad,hacc,hle⟩)
  ·simp[afterGap]at hempty
  rw[Bool.and_eq_true,Bool.not_eq_true']at hbad
  exact⟨h,t,(mem_visit hvisit).1 ht,by simp[hbad.1],hbad.2,hacc,hle⟩
 rintro⟨h,t,ht,hpast,hbroke,hacc,hle⟩
 exact Or.inr ⟨⟨h,t⟩,(mem_visit hvisit).2 ht,by simp[hpast,hbroke],hacc,hle⟩

lemma afterGap_of_entries_nil{gaps:GoMap Address (BitVec 64)}(h:gaps.entries.length=0)
 (tx:Transaction):afterGap sg gaps tx=false:=by
 have hempty:gaps = ∅:=ext (length_eq_zero_iff.1 h)
 rw[hempty]
 rfl

/-- The two loops of `validatePool`, the second of which does nothing without a gap. -/
lemma validatePool_eq(o:Orders)(s:ChainState)(p:Pool):
 ∃visit:List Entry,let swept:=dropInvalid sg s (o.visit .invalid p.pending.entries) p.pending
  visit.Perm swept.1.entries∧
  validatePool sg o s p = {p with
   pending:=(postpone sg swept.2 visit swept.1 p.queue).1
   queue:=(postpone sg swept.2 visit swept.1 p.queue).2}:=by
 refine⟨o.visit .postponed (dropInvalid sg s (o.visit .invalid p.pending.entries)
  p.pending).1.entries,o.perm _ _,?_⟩
 rw[validatePool]
 dsimp only
 split
 ·rfl
 rename_i hnone
 have hgap:=@afterGap_of_entries_nil sg _ (Nat.eq_zero_of_not_pos hnone)
 rw[postpone_eq]
 simp only[sweep,hgap,Bool.false_eq_true,if_false,filter_false,foldl_nil,foldl_fixed]

lemma lookup_validatePool(o:Orders)(s:ChainState)(p:Pool)(h:Hash)(tx:Transaction):
 (validatePool sg o s p).pending.lookup h=some tx↔
  p.pending.lookup h=some tx∧¬Invalid sg s tx∧¬Postponed sg s p.pending tx:=by
 obtain⟨visit,hperm,heq⟩:=@validatePool_eq sg o s p
 have hvisit:=o.perm .invalid p.pending.entries
 rw[heq,postpone_eq]
 dsimp only
 rw[lookup_sweep hperm,Option.filter_eq_some_iff,lookup_dropInvalid hvisit,Bool.not_eq_true',
  ←afterGap_dropInvalid hvisit,Bool.not_eq_true,and_assoc]

lemma lookup_queue_validatePool(o:Orders)(s:ChainState)(p:Pool)
 (hdisjoint:∀a h tx t,p.pending.lookup h=some tx→(queueOf p.queue a).lookup h≠some t)
 (a:Address)(h:Hash)(tx:Transaction):
 (queueOf (validatePool sg o s p).queue a).lookup h=some tx↔(queueOf p.queue a).lookup h=some tx∨
  (p.pending.lookup h=some tx∧¬Invalid sg s tx∧Postponed sg s p.pending tx∧sg.account tx=a):=by
 obtain⟨visit,hperm,heq⟩:=@validatePool_eq sg o s p
 have hvisit:=o.perm .invalid p.pending.entries
 have hmoved:∀h tx,(⟨h,tx⟩:Entry)∈visit.filter (fun e=>afterGap sg
  (dropInvalid sg s (o.visit .invalid p.pending.entries) p.pending).2 e.2)↔
  p.pending.lookup h=some tx∧¬Invalid sg s tx∧Postponed sg s p.pending tx:=by
  intro h tx
  rw[mem_filter,mem_visit hperm,lookup_dropInvalid hvisit,afterGap_dropInvalid hvisit,and_assoc]
 rw[heq,postpone_eq]
 dsimp only
 rw[lookup_foldl_queueTx _ (nodup_filter_visit hperm _)]
 constructor
 ·rintro (⟨hmem,ha⟩|⟨hq,-⟩)
  ·obtain⟨hp,hvalid,hpost⟩:=(hmoved h tx).1 hmem
   exact Or.inr ⟨hp,hvalid,hpost,ha⟩
  exact Or.inl hq
 rintro (hq|⟨hp,hvalid,hpost,ha⟩)
 ·refine Or.inr ⟨hq,?_⟩
  intro t ht
  exact absurd hq (hdisjoint a h t tx ((hmoved h t).1 ht).1)
 exact Or.inl ⟨(hmoved h tx).2 ⟨hp,hvalid,hpost⟩,ha⟩

variable {sg:Signer}

def next (tx:Transaction):ℕ:=tx.accountNonce.toNat+1

lemma toNat_succ{nonce:BitVec 64}(h:nonce.toNat+1<2^64):(nonce+1).toNat=nonce.toNat+1:=by
 rw[BitVec.toNat_add]
 exact Nat.mod_eq_of_lt h

lemma getNonce_rebaseOne(ms:ManagedState)(e:Entry)(a:Address):(rebaseOne sg ms e).getNonce a =
  if sg.sender e.2=some a∧ms.getNonce a≤e.2.accountNonce then e.2.accountNonce+1
  else ms.getNonce a:=by
 rw[rebaseOne]
 cases hsender:sg.sender e.2 with
 | none=>simp
 | some b=>
  dsimp only
  by_cases hba:b=a
  ·subst hba
   split<;>simp_all
  have hne:a≠b:=fun h=>hba h.symm
  split<;>simp[hba,hne]

/-- The nonces end up behind those of the visited transactions, and no further. -/
lemma getNonce_foldl_rebaseOne(visit:List Entry)(hmax:∀e∈visit,next e.2<2^64)
 (ms:ManagedState)(a:Address):
 (ms.getNonce a).toNat≤((visit.foldl (rebaseOne sg) ms).getNonce a).toNat∧
 (∀e∈visit,sg.sender e.2=some a→next e.2≤((visit.foldl (rebaseOne sg) ms).getNonce a).toNat)∧
 ((visit.foldl (rebaseOne sg) ms).getNonce a=ms.getNonce a∨∃e∈visit,sg.sender e.2=some a∧
   next e.2=((visit.foldl (rebaseOne sg) ms).getNonce a).toNat):=by
 induction visit generalizing ms with
 | nil=>exact⟨le_rfl,fun e he=>absurd he not_mem_nil,Or.inl rfl⟩
 | cons e visit ih=>
  have hsucc:=toNat_succ (hmax e mem_cons_self)
  obtain⟨hle,hall,hor⟩:=ih (fun e he=>hmax e (mem_cons_of_mem _ he)) (rebaseOne sg ms e)
  rw[foldl_cons]
  generalize (visit.foldl (rebaseOne sg) (rebaseOne sg ms e)).getNonce a=nonce at hle hall hor ⊢
  rw[getNonce_rebaseOne]at hle hor
  by_cases hmove:sg.sender e.2=some a∧ms.getNonce a≤e.2.accountNonce
  ·rw[if_pos hmove,hsucc]at hle
   rw[if_pos hmove]at hor
   have hbelow:=BitVec.le_def.1 hmove.2
   refine⟨by omega,?_,Or.inr ?_⟩
   ·intro e' he' hs'
    rcases mem_cons.1 he' with rfl|he'
    ·exact hle
    exact hall e' he' hs'
   rcases hor with rfl|⟨e',he',hs',hnext⟩
   ·exact⟨e,mem_cons_self,hmove.1,hsucc.symm⟩
   exact⟨e',mem_cons_of_mem _ he',hs',hnext⟩
  rw[if_neg hmove]at hle hor
  refine⟨hle,?_,?_⟩
  ·intro e' he' hs'
   rcases mem_cons.1 he' with rfl|he'
   ·have habove:¬ms.getNonce a≤e'.2.accountNonce:=fun h=>hmove ⟨hs',h⟩
    rw[BitVec.le_def]at habove
    rw[next]
    omega
   exact hall e' he' hs'
  rcases hor with heq|⟨e',he',hs',hnext⟩
  ·exact Or.inl heq
  exact Or.inr ⟨e',mem_cons_of_mem _ he',hs',hnext⟩

end GoCoupe.TransactionPoolLoops
