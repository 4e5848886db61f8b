import GoCoupe.TransactionPoolFiling

/-!
# The nonces of the pending transactions

They should fill the interval from the account's nonce up to the nonce of the pending state.
The loops of `checkQueue` and `resetState` keep it so as long as no queued transaction takes
the pending state back.
-/

namespace GoCoupe.PendingNonces

open BlockWireFormats MapIteration TransactionPool TransactionPoolLoops TransactionPoolChecks BitVec
open List Option
open TransactionPoolFiling

/-- The nonces of the pending transactions are those from `m` up to the next one. -/
def Covers (m:ℕ) (v:AccountView):Prop:=
 ∀k,(∃tx,v.pending tx ∧ tx.accountNonce.toNat=k) ↔ m≤k ∧ k<v.nonce.toNat

/-- The queued transactions leave a gap behind the pending ones. -/
def QueueAbove (v:AccountView):Prop:=
 ∀h tx,v.queue.lookup h=some tx→v.nonce.toNat<tx.accountNonce.toNat

def Fresh (s:ChainState) (a:Address) (v:AccountView) (tx:Transaction):Prop:=
 ∃h,v.queue.lookup h=some tx ∧ stale (s.getNonce a) (s.getBalance a) tx=false

/-- If a valid queued transaction has a nonce that is pending already, one of them has the last
pending nonce or the next. -/
def NoFallback (s:ChainState) (a:Address) (v:AccountView):Prop:=
 (∃tx,Fresh s a v tx ∧ tx.accountNonce.toNat<v.nonce.toNat) →
  ∃tx,Fresh s a v tx ∧ (tx.accountNonce.toNat=v.nonce.toNat ∨ next tx=v.nonce.toNat)

lemma noFallback_of_le
 (h:∀tx,Fresh s a v tx→v.nonce.toNat≤tx.accountNonce.toNat):NoFallback s a v:=by
 rintro⟨tx,htx,hlt⟩
 exact absurd hlt (Nat.not_lt.2 (h tx htx))

lemma le_getLast(hl:Ordered l)(he:l.getLast? = some e):
 ∀e'∈l,e'.2.accountNonce.toNat≤e.2.accountNonce.toNat:=by
 obtain⟨init,rfl⟩:=getLast?_eq_some_iff.1 he
 intro e' he'
 rcases mem_append.1 he' with hinit|hlast
 ·exact le_def.1 ((pairwise_append.1 hl).2.2 e' hinit e (mem_singleton_self e))
 rw[mem_singleton.1 hlast]

variable {sg:Signer} {S:Set Transaction} {s:ChainState} {a:Address} {v v':AccountView}
 {sorted:List Entry}

lemma mem_sorted_iff(h:AccountStep sg s a v v' sorted)(tx:Transaction):
 (∃k,(⟨k,tx⟩:Entry)∈sorted)↔Fresh s a v tx:=by
 constructor
 ·rintro⟨k,hk⟩
  exact⟨k,(h.mem k tx).1 hk⟩
 rintro⟨k,hk⟩
 exact⟨k,(h.mem k tx).2 hk⟩

/-- The nonce of the pending state ends where the guesses end. -/
lemma nonce_eq_guess(h:AccountStep sg s a v v' sorted)(hmax:∀e∈sorted,next e.2<2^64)
 (hfall:NoFallback s a v):v'.nonce.toNat=(cut v.nonce sorted).guess.toNat:=by
 obtain⟨hmono,hprom,hrest,hfill⟩:=cut_spec v.nonce sorted h.ordered hmax
 have happ:=cut_append v.nonce sorted
 rw[h.nonce,lastNonce]
 cases hlast:(cut v.nonce sorted).promoted.getLast? with
 | none=>
  have hnil:=getLast?_eq_none_iff.1 hlast
  rw[hnil]at hfill
  by_contra hne
  obtain⟨e,he,-⟩:=hfill v.nonce.toNat le_rfl (lt_of_le_of_ne hmono hne)
  exact not_mem_nil he
 | some e=>
  have hmem:e∈(cut v.nonce sorted).promoted:=mem_of_getLast? hlast
  have hsorted:e∈sorted:=happ▸mem_append_left _ hmem
  have hordered:Ordered (cut v.nonce sorted).promoted:=by
   have hl:=h.ordered
   rw[←happ]at hl
   exact (pairwise_append.1 hl).1
  have hle:=le_getLast hordered hlast
  have hlt:=hprom e hmem
  dsimp only[map_some,getD_some]
  rw[TransactionPoolLoops.next]at hlt
  rw[toNat_succ (hmax e hsorted)]
  apply le_antisymm hlt
  by_cases hmoved:v.nonce.toNat<(cut v.nonce sorted).guess.toNat
  ·obtain⟨e',he',hnonce⟩:=hfill ((cut v.nonce sorted).guess.toNat-1) (by omega) (by omega)
   have hle':=hle e' he'
   omega
  obtain⟨t,ht,hnonce⟩:=hfall ⟨e.2,(mem_sorted_iff h e.2).1 ⟨e.1,hsorted⟩,by omega⟩
  obtain⟨k,hk⟩:=(mem_sorted_iff h t).2 ht
  rw[←happ,mem_append]at hk
  rcases hk with hk|hk
  ·have hbelow:=hprom _ hk
   have hbelow':=hle _ hk
   rw[TransactionPoolLoops.next]at hbelow hnonce
   dsimp only at hbelow hbelow'
   omega
  have habove:=hrest _ hk
  rw[TransactionPoolLoops.next]at hnonce
  dsimp only at habove
  omega

lemma covers_step(h:AccountStep sg s a v v' sorted)
 (hkey:∀k tx,v.queue.lookup k=some tx→sg.hash tx=k)(hmax:∀e∈sorted,next e.2<2^64)
 (hfall:NoFallback s a v)(hcovers:Covers (s.getNonce a).toNat v):
 Covers (s.getNonce a).toNat v'∧QueueAbove v':=by
 obtain⟨hmono,hprom,hrest,hfill⟩:=cut_spec v.nonce sorted h.ordered hmax
 have hnonce:=nonce_eq_guess h hmax hfall
 have happ:=cut_append v.nonce sorted
 constructor
 ·intro k
  rw[hnonce]
  constructor
  ·rintro⟨tx,htx,rfl⟩
   rcases (h.pending tx).1 htx with hold|hnew
   ·obtain⟨hlo,hhi⟩:=(hcovers _).1 ⟨tx,hold,rfl⟩
    exact⟨hlo,by omega⟩
   have hbelow:=hprom _ hnew
   have hfresh:(⟨sg.hash tx,tx⟩:Entry)∈sorted:=happ▸mem_append_left _ hnew
   have hstale:=((h.mem _ _).1 hfresh).2
   rw[stale,Bool.or_eq_false_iff,decide_eq_false_iff_not,lt_def]at hstale
   rw[TransactionPoolLoops.next]at hbelow
   exact⟨by omega,hbelow⟩
  rintro⟨hlo,hhi⟩
  by_cases hk:k<v.nonce.toNat
  ·obtain⟨tx,htx,heq⟩:=(hcovers k).2 ⟨hlo,hk⟩
   exact⟨tx,(h.pending tx).2 (Or.inl htx),heq⟩
  obtain⟨e,he,heq⟩:=hfill k (by omega) hhi
  have hsorted:e∈sorted:=happ▸mem_append_left _ he
  have hhash:=hkey _ _ ((h.mem e.1 e.2).1 hsorted).1
  refine⟨e.2,(h.pending e.2).2 (Or.inr ?_),heq⟩
  rw[hhash]
  exact he
 intro k tx hq
 rw[hnonce]
 exact hrest _ (mem_of_mem_take ((h.queue k tx).1 hq))

def Pending (sg:Signer) (p:Pool) (a:Address) (tx:Transaction):Prop:=
 sg.sender tx=some a ∧ p.pending.lookup (sg.hash tx)=some tx

def Queued (sg:Signer) (p:Pool) (a:Address) (tx:Transaction):Prop:=
 (queueOf p.queue a).lookup (sg.hash tx)=some tx

/-- All transactions of `S` have a nonce that can be followed by another. -/
def SmallNonces (S:Set Transaction):Prop:=∀tx∈S,next tx<2^64

lemma checkLoop_covers(hinj:S.InjOn sg.hash)(hsmall:SmallNonces S)(o:Orders)(nested:Bool)
 {s:ChainState}{l:Live}(hl:Filed sg S l.pending l.queue)
 (hfall:∀a,NoFallback s a (accountOf sg a l))
 (hcovers:∀a,Covers (s.getNonce a).toNat (accountOf sg a l)):
 Filed sg S (checkLoop o nested s l).pending (checkLoop o nested s l).queue∧
 ∀a,Covers (s.getNonce a).toNat (accountOf sg a (checkLoop o nested s l))∧
  QueueAbove (accountOf sg a (checkLoop o nested s l)):=by
 obtain⟨hfiled,hstep⟩:=checkLoop_step hinj o nested s hl
 refine⟨hfiled,?_⟩
 intro a
 obtain⟨sorted,hsorted⟩:=hstep a
 apply covers_step hsorted _ _ (hfall a) (hcovers a)
 ·intro h tx hq
  exact (hl.queued a h tx hq).2.1
 intro e he
 exact hsmall e.2 (hl.queued a e.1 e.2 ((hsorted.mem e.1 e.2).1 he).1).1

/-- The pool is in order for the state: everything is filed, the pending nonces of each account
cover the interval, and there is a gap between them and the queue. -/
structure InOrder (sg:Signer) (S:Set Transaction) (s:ChainState) (p:Pool):Prop where
 filed:Filed sg S p.pending p.queue
 covers:∀ms,p.pendingState=some ms→∀a,Covers (s.getNonce a).toNat (accountOf sg a (p.live ms))
 above:∀ms,p.pendingState=some ms→∀a,QueueAbove (accountOf sg a (p.live ms))
 initialised:p.pendingState.isSome

variable {p:Pool} {ms:ManagedState} {view:View} {tx:Transaction}

lemma inOrder_settle(hfiled:Filed sg S l.pending l.queue)
 (h:∀a,Covers (s.getNonce a).toNat (accountOf sg a l)∧QueueAbove (accountOf sg a l)):
 InOrder sg S s (p.settle l):=by
 refine⟨hfiled,?_,?_,rfl⟩
 ·intro ms hms a
  obtain rfl:=some.inj hms
  exact (h a).1
 intro ms hms a
 obtain rfl:=some.inj hms
 exact (h a).2

/-- What `resetState` needs of the pending transactions: below one that stays pending no nonce
is missing, and the queued ones are above it. -/
structure Rebasable (sg:Signer) (s:ChainState) (p:Pool):Prop where
 down:∀a tx,Pending sg p a tx→¬Invalid sg s tx→¬Postponed sg s p.pending tx →
  ∀k,(s.getNonce a).toNat≤k→k≤tx.accountNonce.toNat→∃t,Pending sg p a t ∧ t.accountNonce.toNat=k
 above:∀a tx t,Queued sg p a tx→Pending sg p a t→t.accountNonce.toNat<tx.accountNonce.toNat

lemma not_past_iff(h:sg.sender tx=some a):
 ¬past sg s tx↔(s.getNonce a).toNat≤tx.accountNonce.toNat:=by
 rw[past,account_eq h,decide_eq_true_eq,lt_def,Nat.not_lt]

/-- The nonce that `resetState` gives the pending state of an account. -/
lemma rebase_spec(hsmall:SmallNonces S)(o:Orders){s:ChainState}{pending:TxMap}
 {queue:GoMap Address TxMap}(hp:Filed sg S pending queue)(a:Address):
 (s.getNonce a).toNat≤((rebase sg o pending (manageState s)).getNonce a).toNat∧
 (∀tx,sg.sender tx=some a→pending.lookup (sg.hash tx)=some tx →
  next tx≤((rebase sg o pending (manageState s)).getNonce a).toNat)∧
 ((rebase sg o pending (manageState s)).getNonce a=s.getNonce a∨
  ∃tx,sg.sender tx=some a∧pending.lookup (sg.hash tx)=some tx∧
   next tx=((rebase sg o pending (manageState s)).getNonce a).toNat):=by
 have hvisit:=o.perm .rebased pending.entries
 have hmax:∀e∈o.visit .rebased pending.entries,next e.2<2^64:=by
  rintro⟨h,tx⟩ he
  exact hsmall tx (hp.filed h tx ((mem_visit hvisit).1 he)).1
 obtain⟨hle,hall,hor⟩:=@getNonce_foldl_rebaseOne sg _ hmax (manageState s) a
 rw[getNonce_manageState]at hle hor
 refine⟨hle,?_,?_⟩
 ·intro tx hsender htx
  exact hall ⟨sg.hash tx,tx⟩ ((mem_visit hvisit).2 htx) hsender
 rcases hor with heq|⟨⟨h,tx⟩,he,hsender,hnext⟩
 ·exact Or.inl heq
 have htx:=(mem_visit hvisit).1 he
 have hhash:=(hp.filed h tx htx).2.1
 exact Or.inr ⟨tx,hsender,by rw[hhash];exact htx,hnext⟩

def Stays (sg:Signer) (s:ChainState) (p:Pool) (tx:Transaction):Prop:=
 ¬Invalid sg s tx ∧ ¬Postponed sg s p.pending tx

/-- What lies below a transaction that stays pending and is not processed stays pending too. -/
lemma Stays.below(h:Stays sg s p tx)(htx:Pending sg p a tx)
 (ht:Pending sg p a t)(hlo:(s.getNonce a).toNat≤t.accountNonce.toNat)
 (hle:t.accountNonce.toNat≤tx.accountNonce.toNat):Stays sg s p t:=by
 have hacc:sg.account t=sg.account tx:=by rw[account_eq ht.1,account_eq htx.1]
 have hpast:=(not_past_iff ht.1).2 hlo
 constructor
 ·rintro (hpast'|hbroke)
  ·exact hpast hpast'
  exact h.2 ⟨sg.hash t,t,ht.2,hpast,hbroke,hacc,le_def.2 hle⟩
 rintro⟨k,t',ht',hpast',hbroke,hacc',hle'⟩
 exact h.2 ⟨k,t',ht',hpast',hbroke,hacc'.trans hacc,BitVec.le_trans hle' (BitVec.le_def.2 hle)⟩

/-- What has been moved to the queue lies above everything that stays pending. -/
lemma Stays.lt_postponed(h:Stays sg s p tx)(htx:Pending sg p a tx)
 (ht:sg.account t=a)(hpost:Postponed sg s p.pending t):
 tx.accountNonce.toNat<t.accountNonce.toNat:=by
 obtain⟨k,t',ht',hpast,hbroke,hacc,hle⟩:=hpost
 have hnot:¬t'.accountNonce≤tx.accountNonce:=by
  intro hle'
  exact h.2 ⟨k,t',ht',hpast,hbroke,by rw[hacc,ht,account_eq htx.1],hle'⟩
 rw[le_def]at hle hnot
 omega

lemma rebasable_of_pending(h:∀h,p.pending.lookup h=none):Rebasable sg s p:=by
 have hnot:∀a tx,¬Pending sg p a tx:=by
  rintro a tx ⟨-,htx⟩
  rw[h]at htx
  exact absurd htx (by simp)
 exact⟨fun a tx htx=>absurd htx (hnot a tx),fun a tx t _ ht=>absurd ht (hnot a t)⟩

variable (hinj:S.InjOn sg.hash) (hsmall:SmallNonces S) (o:Orders)

include hinj hsmall o

lemma checkQueue_inOrder(hs:view.state=some s)(hms:p.pendingState=some ms)(hp:Filed sg S p.pending p.queue)
 (hfall:∀a,NoFallback s a (accountOf sg a (p.live ms)))
 (hcovers:∀a,Covers (s.getNonce a).toNat (accountOf sg a (p.live ms))):
 InOrder sg S s (checkQueue sg o view p):=by
 obtain⟨hfiled,hall⟩:=@checkLoop_covers sg S hinj hsmall o false s (p.live ms) hp hfall hcovers
 rw[checkQueue,hms,hs]
 dsimp only
 rw[hms]
 exact inOrder_settle hfiled hall

lemma resetState_inOrder(hs:view.state=some s)(hp:Filed sg S p.pending p.queue)(hrebase:Rebasable sg s p):
 InOrder sg S s (resetState sg o view p):=by
 have hq:=@filed_validatePool sg S o s p hp
 have hstays:=@lookup_validatePool sg o s p
 have hqueue:=@lookup_queue_validatePool sg o s p hp.disjoint
 rw[resetState,hs]
 dsimp only
 generalize validatePool sg o s p=q at hq hstays hqueue ⊢
 have hbase:=fun a=>@rebase_spec sg S hsmall o s _ _ hq a
 have hcovers:∀a,Covers (s.getNonce a).toNat
  (accountOf sg a (q.live (rebase sg o q.pending (manageState s)))):=by
  intro a k
  obtain⟨hle,hall,hor⟩:=hbase a
  constructor
  ·rintro⟨tx,⟨hsender,htx⟩,rfl⟩
   have hvalid:=((hstays _ _).1 htx).2.1
   exact⟨(not_past_iff hsender).1 (fun hpast=>hvalid (Or.inl hpast)),hall tx hsender htx⟩
  rintro⟨hlo,hhi⟩
  rcases hor with heq|⟨tx,hsender,htx,hnext⟩
  ·rw[←heq]at hlo
   exact absurd hhi (Nat.not_lt.2 hlo)
  obtain⟨hpend,hstay⟩:=(hstays _ _).1 htx
  have hkle:k≤tx.accountNonce.toNat:=by
   rw[TransactionPoolLoops.next]at hnext
   change k<((rebase sg o q.pending (manageState s)).getNonce a).toNat at hhi
   omega
  obtain⟨t,ht,rfl⟩:=hrebase.down a tx ⟨hsender,hpend⟩ hstay.1 hstay.2 k hlo hkle
  have hstay':=Stays.below hstay ⟨hsender,hpend⟩ ht hlo hkle
  exact⟨t,⟨ht.1,(hstays _ _).2 ⟨ht.2,hstay'⟩⟩,rfl⟩
 have hfall:∀a,NoFallback s a
  (accountOf sg a (q.live (rebase sg o q.pending (manageState s)))):=by
  intro a
  obtain⟨-,-,hor⟩:=hbase a
  apply noFallback_of_le
  rintro tx ⟨h,htx,hfresh⟩
  change ((rebase sg o q.pending (manageState s)).getNonce a).toNat≤_
  rcases hor with heq|⟨t,hsender,ht,hnext⟩
  ·rw[stale,Bool.or_eq_false_iff,decide_eq_false_iff_not,lt_def]at hfresh
   rw[heq]
   omega
  obtain⟨hpend,hstay⟩:=(hstays _ _).1 ht
  rw[←hnext]
  rcases (hqueue a h tx).1 htx with hold|⟨-,-,hpost,hacc⟩
  ·have hhash:=(hp.queued a h tx hold).2.1
   rw[←hhash]at hold
   exact hrebase.above a tx t hold ⟨hsender,hpend⟩
  exact Stays.lt_postponed hstay ⟨hsender,hpend⟩ hacc hpost
 obtain⟨hfiled,hall⟩:=checkLoop_covers hinj hsmall o true
  (show Filed sg S (q.live (rebase sg o q.pending (manageState s))).pending _ from hq)
  hfall hcovers
 exact inOrder_settle hfiled hall

structure Unused (p:Pool):Prop where
 pendingState:p.pendingState=none
 pending:∀h,p.pending.lookup h=none
 queue:∀a h,(queueOf p.queue a).lookup h=none

/-- A pool in order stays so when the queues are checked again. -/
lemma InOrder.checkLoop(hp:InOrder sg S s p)(hms:p.pendingState=some ms):
 InOrder sg S s (p.settle (checkLoop o false s (p.live ms))):=by
 obtain⟨hfiled,hall⟩:=@checkLoop_covers sg S hinj hsmall o false s (p.live ms) hp.filed
  (by
   intro a
   apply noFallback_of_le
   rintro tx ⟨h,htx,-⟩
   exact (hp.above ms hms a h tx htx).le) (hp.covers ms hms)
 exact inOrder_settle hfiled hall

/-- `checkQueue` that has to set up the pending state first. -/
lemma checkQueue_inOrder_of_none(hs:view.state=some s)(hnone:p.pendingState=none)(hp:Filed sg S p.pending p.queue)
 (hpending:∀h,p.pending.lookup h=none):InOrder sg S s (checkQueue sg o view p):=by
 have hreset:=resetState_inOrder hinj hsmall o hs hp (rebasable_of_pending hpending)
 rw[checkQueue,hnone]
 dsimp only
 obtain⟨ms,hms⟩:=isSome_iff_exists.1 hreset.initialised
 rw[hs,hms]
 exact hreset.checkLoop hinj hsmall o hms

end GoCoupe.PendingNonces
