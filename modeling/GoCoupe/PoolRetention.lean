import GoCoupe.PendingNonces

/-!
# What the pool keeps

A queued transaction that is still valid is promoted or stays queued, unless 64 others are kept
behind a gap. The gap is found by the nonce of the pending state, which may not be the
account's.
-/

namespace GoCoupe.PoolRetention

open BlockWireFormats MapIteration TransactionPool TransactionPoolLoops TransactionPoolChecks List
open TransactionPoolFiling PendingNonces

section Accounts

variable (sg:Signer)

/-- The transaction lies behind a nonce that is missing, and 64 queued ones between them. -/
def Beyond (n:ℕ) (v:AccountView) (tx:Transaction):Prop:=
 ∃k,n≤k ∧ k<tx.accountNonce.toNat ∧ (∀t,v.pending t→t.accountNonce.toNat≠k) ∧
  (∀t,v.queue.lookup (sg.hash t)=some t→t.accountNonce.toNat≠k) ∧
  ∃kept:List Transaction,kept.Nodup ∧ kept.length=maxQueued ∧
   ∀t∈kept,v.queue.lookup (sg.hash t)=some t ∧ k<t.accountNonce.toNat ∧
    t.accountNonce.toNat≤tx.accountNonce.toNat

/-- The nonce of the pending state is behind the pending transactions and not before the
account's. -/
def Level (n:ℕ) (v:AccountView):Prop:=
 n≤v.nonce.toNat ∧ ∀tx,v.pending tx→tx.accountNonce.toNat<v.nonce.toNat

variable {sg} {s:ChainState} {a:Address} {v v':AccountView} {sorted:List Entry}

section

variable (h:AccountStep sg s a v v' sorted)
 (hkey:∀k tx,v.queue.lookup k=some tx→sg.hash tx=k) (hmax:∀e∈sorted,next e.2<2^64)
 (hlevel:Level (s.getNonce a).toNat v)

include h hkey hmax hlevel

lemma beyond_of_dropped
 (he:e∈(cut v.nonce sorted).rest.drop maxQueued):Beyond sg (s.getNonce a).toNat v' e.2:=by
 obtain⟨hmono,hprom,hrest,-⟩:=cut_spec v.nonce sorted h.ordered hmax
 have happ:=cut_append v.nonce sorted
 have hmem:∀e∈(cut v.nonce sorted).rest,e∈sorted:=fun e he=>happ▸mem_append_right _ he
 have hhash:∀e∈(cut v.nonce sorted).rest,sg.hash e.2=e.1:=
  fun e he=>hkey _ _ ((h.mem e.1 e.2).1 (hmem e he)).1
 have hsplit:=take_append_drop maxQueued (cut v.nonce sorted).rest
 have hordered:Ordered (cut v.nonce sorted).rest:=by
  have hl:=h.ordered
  rw[←happ]at hl
  exact (pairwise_append.1 hl).2.1
 refine⟨(cut v.nonce sorted).guess.toNat,hlevel.1.trans hmono,hrest e (mem_of_mem_drop he),?_,?_,
  ((cut v.nonce sorted).rest.take maxQueued).map Sigma.snd,?_,?_,?_⟩
 ·intro t ht heq
  rcases (h.pending t).1 ht with hold|hnew
  ·have hlt:=hlevel.2 t hold
   omega
  have hlt:=hprom _ hnew
  rw[TransactionPoolLoops.next]at hlt
  dsimp only at hlt
  omega
 ·intro t ht heq
  have hlt:=hrest _ (mem_of_mem_take ((h.queue _ t).1 ht))
  dsimp only at hlt
  omega
 ·have hkeys:(((cut v.nonce sorted).rest.take maxQueued).map Sigma.snd).map sg.hash =
   ((cut v.nonce sorted).rest.take maxQueued).map Sigma.fst:=by
   rw[List.map_map]
   apply map_congr_left
   intro e he
   exact hhash e (mem_of_mem_take he)
  have hnodup:=h.nodup
  rw[←happ,map_append]at hnodup
  apply Nodup.of_map sg.hash
  rw[hkeys]
  exact (nodup_append.1 hnodup).2.1.sublist ((take_sublist _ _).map _)
 ·have hlong:=length_pos_of_mem he
  rw[length_drop]at hlong
  rw[length_map,length_take]
  omega
 intro t ht
 obtain⟨e',he',rfl⟩:=List.mem_map.1 ht
 have hrest':=mem_of_mem_take he'
 refine⟨?_,hrest e' hrest',?_⟩
 ·rw[hhash e' hrest']
  exact (h.queue e'.1 e'.2).2 he'
 rw[←hsplit]at hordered
 exact BitVec.le_def.1 ((pairwise_append.1 hordered).2.2 e' he' e he)

/-- What becomes of a queued transaction when the queue of its account is checked. -/
lemma queued_step(htx:v.queue.lookup k=some tx):v'.pending tx∨v'.queue.lookup k=some tx∨
  stale (s.getNonce a) (s.getBalance a) tx=true∨Beyond sg (s.getNonce a).toNat v' tx:=by
 cases hstale:stale (s.getNonce a) (s.getBalance a) tx with
 | true=>exact Or.inr (Or.inr (Or.inl rfl))
 | false=>
  have hmem:=(h.mem k tx).2 ⟨htx,hstale⟩
  rw[←cut_append v.nonce sorted,mem_append,
   ←take_append_drop maxQueued (cut v.nonce sorted).rest,mem_append]at hmem
  rcases hmem with hprom|hkept|hdropped
  ·left
   rw[h.pending,hkey k tx htx]
   exact Or.inr hprom
  ·exact Or.inr (Or.inl ((h.queue k tx).2 hkept))
  exact Or.inr (Or.inr (Or.inr (beyond_of_dropped h hkey hmax hlevel hdropped)))

end

lemma queue_length_le(h:AccountStep sg s a v v' sorted):v'.queue.entries.length ≤ maxQueued:=by
 have hle:=length_entries_le (fun k tx=>(h.queue k tx).1)
 rw[length_take]at hle
 omega

/-- A queue that has been checked is left alone. -/
lemma settled_step(h:AccountStep sg s a v v' sorted)(habove:QueueAbove v)
 (hlen:v.queue.entries.length ≤ maxQueued)
 (hfresh:∀k tx,v.queue.lookup k=some tx→stale (s.getNonce a) (s.getBalance a) tx=false):
 (∀tx,v'.pending tx↔v.pending tx)∧
 ∀k tx,v'.queue.lookup k=some tx↔v.queue.lookup k=some tx:=by
 have hcut:cut v.nonce sorted=⟨[],sorted,v.nonce⟩:=by
  cases hsorted:sorted with
  | nil=>rfl
  | cons e l=>
   rw[cut,if_pos]
   have hmem:e∈sorted:=hsorted▸mem_cons_self
   exact BitVec.lt_def.2 (habove e.1 e.2 ((h.mem e.1 e.2).1 hmem).1)
 have hshort:sorted.length ≤ maxQueued:=by
  refine le_trans ?_ hlen
  apply (subperm_of_subset h.nodup.of_map _).length_le
  rintro⟨k,tx⟩ he
  exact AList.mem_lookup_iff.1 ((h.mem k tx).1 he).1
 constructor
 ·intro tx
  rw[h.pending,hcut]
  simp
 intro k tx
 rw[h.queue,hcut,take_of_length_le hshort,h.mem]
 exact⟨And.left,fun hq=>⟨hq,hfresh k tx hq⟩⟩

end Accounts

variable (sg:Signer)

/-- Some nonce of the account below the transaction's is missing in the pool, and 64 queued
transactions lie between them. -/
def BeyondLimit (s:ChainState) (p:Pool) (a:Address) (tx:Transaction):Prop:=
 ∃k,(s.getNonce a).toNat≤k ∧ k<tx.accountNonce.toNat ∧ (∀t,Pending sg p a t→t.accountNonce.toNat≠k) ∧
  (∀t,Queued sg p a t→t.accountNonce.toNat≠k) ∧
  ∃kept:List Transaction,kept.Nodup ∧ kept.length=maxQueued ∧
   ∀t∈kept,Queued sg p a t ∧ k<t.accountNonce.toNat ∧ t.accountNonce.toNat≤tx.accountNonce.toNat

/-- The transactions of `p` are in `q`, except for those that are processed or out of funds. -/
def Keeps (s:ChainState) (p q:Pool):Prop:=
 ∀a tx,Pending sg p a tx ∨ Queued sg p a tx→(Pending sg q a tx ∨ Queued sg q a tx) ∨
  stale (s.getNonce a) (s.getBalance a) tx=true

/-- As `Keeps`, or beyond the limit of a queue. -/
def Carries (s:ChainState) (p q:Pool):Prop:=
 ∀a tx,Pending sg p a tx ∨ Queued sg p a tx→(Pending sg q a tx ∨ Queued sg q a tx) ∨
  stale (s.getNonce a) (s.getBalance a) tx=true ∨ BeyondLimit sg s q a tx

structure Narrows (p q:Pool):Prop where
 pool:∀a tx,Pending sg q a tx ∨ Queued sg q a tx→Pending sg p a tx ∨ Queued sg p a tx
 queue:∀a tx,Queued sg p a tx→Queued sg q a tx

variable {sg} {S:Set Transaction} {s:ChainState} {p q r:Pool}

lemma Keeps.trans_carries(h:Keeps sg s p q)(h':Carries sg s q r):Carries sg s p r:=by
 intro a tx htx
 rcases h a tx htx with hq|hstale
 ·exact h' a tx hq
 exact Or.inr (Or.inl hstale)

lemma BeyondLimit.narrows(h:BeyondLimit sg s p a tx)(hn:Narrows sg p q):BeyondLimit sg s q a tx:=by
 obtain⟨k,hlo,hhi,hpending,hqueued,kept,hnodup,hlen,hkept⟩:=h
 have hmissing:∀t,Pending sg q a t∨Queued sg q a t→t.accountNonce.toNat≠k:=
  fun t ht=>(hn.pool a t ht).elim (hpending t) (hqueued t)
 refine⟨k,hlo,hhi,fun t ht=>hmissing t (Or.inl ht),fun t ht=>hmissing t (Or.inr ht),kept,hnodup,hlen,?_⟩
 intro t ht
 exact⟨hn.queue a t (hkept t ht).1,(hkept t ht).2⟩

lemma Carries.trans_keeps(h:Carries sg s p q)(h':Keeps sg s q r)(hn:Narrows sg q r):
 Carries sg s p r:=by
 intro a tx htx
 rcases h a tx htx with hq|hstale|hbeyond
 ·rcases h' a tx hq with hr|hstale
  ·exact Or.inl hr
  exact Or.inr (Or.inl hstale)
 ·exact Or.inr (Or.inl hstale)
 exact Or.inr (Or.inr (hbeyond.narrows hn))

lemma stale_of_invalid(hsender:sg.sender tx=some a)
 (h:Invalid sg s tx):stale (s.getNonce a) (s.getBalance a) tx=true:=by
 rw[Invalid,past,broke,account_eq hsender]at h
 rw[stale,Bool.or_eq_true]
 exact h

lemma validatePool_keeps(o:Orders)(hp:Filed sg S p.pending p.queue):
 Keeps sg s p (validatePool sg o s p)∧Narrows sg p (validatePool sg o s p):=by
 have hqueue:=@lookup_queue_validatePool sg o s p hp.disjoint
 refine⟨?_,?_,?_⟩
 ·rintro a tx (⟨hsender,htx⟩|htx)
  ·by_cases hvalid:Invalid sg s tx
   ·exact Or.inr (stale_of_invalid hsender hvalid)
   by_cases hpost:Postponed sg s p.pending tx
   ·exact Or.inl (Or.inr ((hqueue _ _ _).2 (Or.inr ⟨htx,hvalid,hpost,account_eq hsender⟩)))
   exact Or.inl (Or.inl ⟨hsender,(lookup_validatePool o s p _ tx).2 ⟨htx,hvalid,hpost⟩⟩)
  exact Or.inl (Or.inr ((hqueue _ _ _).2 (Or.inl htx)))
 ·rintro a tx (⟨hsender,htx⟩|htx)
  ·exact Or.inl ⟨hsender,((lookup_validatePool o s p _ tx).1 htx).1⟩
  rcases (hqueue _ _ _).1 htx with hold|⟨hpend,-,-,hacc⟩
  ·exact Or.inr hold
  obtain⟨-,-,hsome⟩:=hp.filed _ _ hpend
  exact Or.inl ⟨hacc▸sender_eq hsome,hpend⟩
 intro a tx htx
 exact (hqueue _ _ _).2 (Or.inl htx)

lemma level_rebase(hsmall:SmallNonces S)(o:Orders)(hp:Filed sg S p.pending p.queue)(a:Address):
 Level (s.getNonce a).toNat
  (accountOf sg a (p.live (rebase sg o p.pending (manageState s)))):=by
 obtain⟨hle,hall,-⟩:=@rebase_spec sg S hsmall o s _ _ hp a
 exact⟨hle,fun tx htx=>hall tx htx.1 htx.2⟩

def Bounded (queue:GoMap Address TxMap):Prop:=∀a,(queueOf queue a).entries.length ≤ maxQueued

def FreshQueues (s:ChainState) (queue:GoMap Address TxMap):Prop:=
 ∀a h tx,(queueOf queue a).lookup h=some tx→stale (s.getNonce a) (s.getBalance a) tx=false

section

variable (hinj:S.InjOn sg.hash)

include hinj

lemma checkLoop_carries(hsmall:SmallNonces S)(o:Orders)(nested:Bool)
 (hp:Filed sg S p.pending p.queue)
 (hlevel:∀a,Level (s.getNonce a).toNat (accountOf sg a (p.live ms))):
 Carries sg s p (p.settle (checkLoop o nested s (p.live ms))):=by
 obtain⟨-,hstep⟩:=@checkLoop_step sg S hinj o nested s (p.live ms) hp
 intro a tx htx
 obtain⟨sorted,hsorted⟩:=hstep a
 rcases htx with htx|htx
 ·exact Or.inl (Or.inl ((hsorted.pending tx).2 (Or.inl htx)))
 have hkey:∀k t,(accountOf sg a (p.live ms)).queue.lookup k=some t→sg.hash t=k:=
  fun k t ht=>(hp.queued a k t ht).2.1
 have hmax:∀e∈sorted,next e.2<2^64:=
  fun e he=>hsmall e.2 (hp.queued a e.1 e.2 ((hsorted.mem e.1 e.2).1 he).1).1
 rcases queued_step hsorted hkey hmax (hlevel a) htx with h|h|h|h
 ·exact Or.inl (Or.inl h)
 ·exact Or.inl (Or.inr h)
 ·exact Or.inr (Or.inl h)
 exact Or.inr (Or.inr h)

lemma resetState_carries(hsmall:SmallNonces S)(o:Orders)
 (hs:view.state=some s)(hp:Filed sg S p.pending p.queue):
 Carries sg s p (resetState sg o view p):=by
 have hq:=@filed_validatePool sg S o s p hp
 rw[resetState,hs]
 exact (validatePool_keeps o hp).1.trans_carries
  (checkLoop_carries hinj hsmall o true hq (level_rebase hsmall o hq))

lemma checkLoop_bounded(o:Orders)(nested:Bool)
 (hl:Filed sg S l.pending l.queue):Bounded (checkLoop o nested s l).queue:=by
 intro a
 obtain⟨sorted,hsorted⟩:=(checkLoop_step hinj o nested s hl).2 a
 exact queue_length_le hsorted

lemma checkLoop_fresh(o:Orders)(nested:Bool)
 (hl:Filed sg S l.pending l.queue):FreshQueues s (checkLoop o nested s l).queue:=by
 intro a h tx htx
 obtain⟨sorted,hsorted⟩:=(checkLoop_step hinj o nested s hl).2 a
 have hmem:(⟨h,tx⟩:Entry)∈sorted:=by
  rw[←cut_append (accountOf sg a l).nonce sorted]
  exact mem_append_right _ (mem_of_mem_take ((hsorted.queue h tx).1 htx))
 exact ((hsorted.mem h tx).1 hmem).2

lemma checkLoop_settled(o:Orders)(nested:Bool)
 (hp:Filed sg S p.pending p.queue)(habove:∀a,QueueAbove (accountOf sg a (p.live ms)))
 (hbounded:Bounded p.queue)(hfresh:FreshQueues s p.queue):
 Keeps sg s p (p.settle (checkLoop o nested s (p.live ms)))∧
  Narrows sg p (p.settle (checkLoop o nested s (p.live ms))):=by
 have hstep:=fun a=>(@checkLoop_step sg S hinj o nested s (p.live ms) hp).2 a
 have hsame:∀a,(∀tx,Pending sg (p.settle (checkLoop o nested s (p.live ms))) a tx↔Pending sg p a tx)∧
  ∀tx,Queued sg (p.settle (checkLoop o nested s (p.live ms))) a tx↔Queued sg p a tx:=by
  intro a
  obtain⟨sorted,hsorted⟩:=hstep a
  obtain⟨hpending,hqueue⟩:=settled_step hsorted (habove a) (hbounded a) (hfresh a)
  exact⟨hpending,fun tx=>hqueue _ tx⟩
 refine⟨?_,?_,?_⟩
 ·intro a tx htx
  exact Or.inl (htx.imp ((hsame a).1 tx).2 ((hsame a).2 tx).2)
 ·intro a tx htx
  exact htx.imp ((hsame a).1 tx).1 ((hsame a).2 tx).1
 intro a tx htx
 exact ((hsame a).2 tx).2 htx

lemma resetState_bounded_iff(o:Orders)(view:View)(hp:Filed sg S p.pending p.queue):
 Bounded (resetState sg o view p).queue↔view.state.isSome∨Bounded p.queue:=by
 rw[resetState]
 cases view.state with
 | none=>simp
 | some s=>
  exact iff_of_true (checkLoop_bounded hinj o true (filed_validatePool hp)) (Or.inl rfl)

/-- What `checkQueue` keeps. The level of the accounts is that of the pending state it finds. -/
lemma checkQueue_carries(hsmall:SmallNonces S)(o:Orders)
 (hs:view.state=some s)(hp:Filed sg S p.pending p.queue)
 (hnone:p.pendingState=none→∀h,p.pending.lookup h=none)
 (hlevel:∀ms,p.pendingState=some ms→∀a,Level (s.getNonce a).toNat (accountOf sg a (p.live ms))):
 Carries sg s p (checkQueue sg o view p):=by
 cases hms:p.pendingState with
 | some ms=>
  rw[checkQueue,hms,hs]
  dsimp only
  rw[hms]
  exact checkLoop_carries hinj hsmall o false hp (hlevel ms hms)
 | none=>
  have hcarries:=resetState_carries hinj hsmall o hs hp
  have horder:=resetState_inOrder hinj hsmall o hs hp (rebasable_of_pending (hnone hms))
  have hbounded:Bounded (resetState sg o view p).queue:=
   (resetState_bounded_iff hinj o view hp).2 (Or.inl (by rw[hs];rfl))
  have hfresh:FreshQueues s (resetState sg o view p).queue:=by
   rw[resetState,hs]
   exact checkLoop_fresh hinj o true (filed_validatePool hp)
  obtain⟨ms,hms'⟩:=Option.isSome_iff_exists.1 horder.initialised
  rw[checkQueue,hms,hs]
  dsimp only
  rw[hms']
  obtain⟨hkeeps,hnarrows⟩:=checkLoop_settled hinj o false horder.filed
   (horder.above ms hms') hbounded hfresh
  exact hcarries.trans_keeps hkeeps hnarrows

end

lemma resetState_pendingState(o:Orders){view:View}(hs:view.state=some s):
 (resetState sg o view p).pendingState.isSome:=by
 rw[resetState,hs]
 rfl

variable (hinj:S.InjOn sg.hash) (o:Orders) (view:View) (hp:Filed sg S p.pending p.queue)

include hinj o view hp

lemma filed_resetState:
 Filed sg S (resetState sg o view p).pending (resetState sg o view p).queue:=by
 rw[resetState]
 cases view.state with
 | none=>exact hp
 | some s=>
  exact (@checkLoop_step sg S hinj o true s
   ((validatePool sg o s p).live _) (filed_validatePool hp)).1

/-- With a state, `checkQueue` ends with a loop over the queues. -/
lemma checkQueue_eq(hs:view.state=some s):
 ∃(q:Pool) (ms:ManagedState),checkQueue sg o view p=q.settle (checkLoop o false s (q.live ms))∧
  Filed sg S q.pending q.queue:=by
 cases hms:p.pendingState with
 | some ms=>
  refine⟨p,ms,?_,hp⟩
  rw[checkQueue,hms,hs]
  dsimp only
  rw[hms]
 | none=>
  obtain⟨ms,hms'⟩:=Option.isSome_iff_exists.1 (@resetState_pendingState sg s p o view hs)
  refine⟨_,ms,?_,filed_resetState hinj o view hp⟩
  rw[checkQueue,hms,hs]
  dsimp only
  rw[hms']

lemma filed_checkQueue:
 Filed sg S (checkQueue sg o view p).pending (checkQueue sg o view p).queue:=by
 cases hs:view.state with
 | none=>
  rw[checkQueue_noState o hs]
  exact hp
 | some s=>
  obtain⟨q,ms,heq,hfiled⟩:=checkQueue_eq hinj o view hp hs
  rw[heq]
  exact (@checkLoop_step sg S hinj o false s (q.live ms) hfiled).1

/-- After `checkQueue` the queues are bounded, unless it found no state. -/
lemma checkQueue_bounded_iff:
 Bounded (checkQueue sg o view p).queue↔view.state.isSome∨Bounded p.queue:=by
 cases hs:view.state with
 | none=>
  rw[checkQueue_noState o hs]
  simp
 | some s=>
  obtain⟨q,ms,heq,hfiled⟩:=checkQueue_eq hinj o view hp hs
  rw[heq]
  exact iff_of_true (checkLoop_bounded hinj o false hfiled) (Or.inl rfl)

end GoCoupe.PoolRetention
