import GoCoupe.TransactionPoolLoops

/-!
# What `checkQueue` does to an account

The valid queued transactions of an account are sorted by nonce, and `cut` divides them into
those that are promoted and those behind a gap, of which the first 64 stay queued.
-/

namespace GoCoupe.TransactionPoolChecks

open BlockWireFormats MapIteration TransactionPool TransactionPoolLoops List BitVec

structure Cut where
 promoted:List Entry
 rest:List Entry
 guess:BitVec 64

def cut:BitVec 64 → List Entry→Cut
 | guess,[]=>⟨[],[],guess⟩
 | guess,e::l=>
  if guess<e.2.accountNonce then ⟨[],e::l,guess⟩
  else
   let c:=cut (if e.2.accountNonce=guess then guess+1 else guess) l
   ⟨e::c.promoted,c.rest,c.guess⟩

lemma cut_append(guess:BitVec 64)(l:List Entry):(cut guess l).promoted++(cut guess l).rest=l:=by
 induction l generalizing guess with
 | nil=>rfl
 | cons e l ih=>
  rw[cut]
  split
  ·rfl
  exact congrArg (e :: ·) (ih _)

lemma promote_eq(a:Address)(l:List Entry)(guess:BitVec 64)(txs:TxMap)(st:ManagedState × TxMap):
 promote a l guess txs st =
  (eraseAll txs (((cut guess l).promoted++(cut guess l).rest.drop maxQueued).map Sigma.fst),
   (cut guess l).promoted.foldl (fun st e=>addTx e.1 a e.2 st) st):=by
 induction l generalizing guess txs st with
 | nil=>rfl
 | cons e l ih=>
  rw[promote,cut]
  by_cases hgap:guess<e.2.accountNonce
  ·rw[if_pos hgap,if_pos hgap]
   dsimp only
   split
   ·rfl
   rename_i hshort
   rw[drop_eq_nil_of_le (Nat.not_lt.1 hshort)]
   rfl
  rw[if_neg hgap,if_neg hgap,ih]
  rfl

def Ordered (l:List Entry):Prop:=l.Pairwise (fun e e'=>e.2.accountNonce≤e'.2.accountNonce)

/-- The promoted transactions fill the nonces from the first guess to the last one. -/
lemma cut_spec(guess:BitVec 64)(l:List Entry)(hl:Ordered l)(hmax:∀e∈l,next e.2<2^64):
 guess.toNat≤(cut guess l).guess.toNat∧
 (∀e∈(cut guess l).promoted,next e.2≤(cut guess l).guess.toNat)∧
 (∀e∈(cut guess l).rest,(cut guess l).guess.toNat<e.2.accountNonce.toNat)∧
 ∀k,guess.toNat≤k→k<(cut guess l).guess.toNat →
  ∃e∈(cut guess l).promoted,e.2.accountNonce.toNat=k:=by
 induction l generalizing guess with
 | nil=>
  refine⟨le_rfl,fun e he=>absurd he not_mem_nil,fun e he=>absurd he not_mem_nil,?_⟩
  intro k hk hk'
  exact absurd hk' (Nat.not_lt.2 hk)
 | cons e l ih=>
  obtain⟨hfirst,hl⟩:=pairwise_cons.1 hl
  rw[cut]
  by_cases hgap:guess<e.2.accountNonce
  ·rw[if_pos hgap]
   refine⟨le_rfl,fun e he=>absurd he not_mem_nil,?_,?_⟩
   ·intro e' he'
    have hgap':=lt_def.1 hgap
    rcases mem_cons.1 he' with rfl|he'
    ·exact hgap'
    have hle:=le_def.1 (hfirst e' he')
    dsimp only
    omega
   intro k hk hk'
   exact absurd hk' (Nat.not_lt.2 hk)
  rw[if_neg hgap]
  have hsucc:=toNat_succ (hmax e mem_cons_self)
  have hle:=BitVec.not_lt.1 hgap
  rw[le_def]at hle
  obtain⟨hmono,hprom,hrest,hfill⟩:=ih
   (if e.2.accountNonce=guess then guess+1 else guess) hl
   (fun e he=>hmax e (mem_cons_of_mem _ he))
  dsimp only
  by_cases heq:e.2.accountNonce=guess
  ·rw[if_pos heq]at hmono hprom hrest hfill ⊢
   rw[heq]at hsucc
   refine⟨by omega,?_,hrest,?_⟩
   ·intro e' he'
    rcases mem_cons.1 he' with rfl|he'
    ·rw[TransactionPoolLoops.next,heq]
     omega
    exact hprom e' he'
   intro k hk hk'
   by_cases hkeq:k=guess.toNat
   ·exact⟨e,mem_cons_self,by rw[heq,hkeq]⟩
   obtain⟨e',he',hnonce⟩:=hfill k (by omega) hk'
   exact⟨e',mem_cons_of_mem _ he',hnonce⟩
  rw[if_neg heq]at hmono hprom hrest hfill ⊢
  have hne:e.2.accountNonce.toNat≠guess.toNat:=fun h=>heq (toNat_inj.1 h)
  refine⟨hmono,?_,hrest,?_⟩
  ·intro e' he'
   rcases mem_cons.1 he' with rfl|he'
   ·rw[TransactionPoolLoops.next]
    omega
   exact hprom e' he'
  intro k hk hk'
  obtain⟨e',he',hnonce⟩:=hfill k hk hk'
  exact⟨e',mem_cons_of_mem _ he',hnonce⟩

/-- The nonce of the pending state behind the last promoted transaction. -/
def lastNonce (nonce:BitVec 64) (promoted:List Entry):BitVec 64:=
 (promoted.getLast?.map (·.2.accountNonce+1)).getD nonce

lemma foldl_addTx(a:Address)(l:List Entry)(st:ManagedState × TxMap)
 (hnodup:(l.map Sigma.fst).Nodup)(hnew:∀e∈l,st.2.lookup e.1=none):
 l.foldl (fun st e=>addTx e.1 a e.2 st) st =
  (l.foldl (fun (ms:ManagedState) e=>ms.setNonce a (e.2.accountNonce+1)) st.1,insertAll st.2 l):=by
 induction l generalizing st with
 | nil=>rfl
 | cons e l ih=>
  have hadd:addTx e.1 a e.2 st=(st.1.setNonce a (e.2.accountNonce+1),st.2.insert e.1 e.2):=by
   rw[addTx,hnew e mem_cons_self]
   rfl
  rw[foldl_cons,hadd,ih _ (nodup_cons.1 hnodup).2 (new_insert hnodup hnew)]
  rfl

lemma getNonce_foldl_setNonce(a b:Address)(l:List Entry)(ms:ManagedState):
 (l.foldl (fun (ms:ManagedState) e=>ms.setNonce a (e.2.accountNonce+1)) ms).getNonce b =
  if b=a then lastNonce (ms.getNonce a) l else ms.getNonce b:=by
 induction l generalizing ms with
 | nil=>split<;>simp_all[lastNonce]
 | cons e l ih=>
  rw[foldl_cons,ih]
  by_cases hb:b=a
  ·rw[if_pos hb,if_pos hb,getNonce_setNonce,if_pos rfl,lastNonce,lastNonce,getLast?_cons]
   cases l.getLast?<;>rfl
  rw[if_neg hb,if_neg hb,getNonce_setNonce,if_neg hb]

variable (sg:Signer) (S:Set Transaction)

/-- The transactions of the pool come from `S` and are filed under their hashes, those in the
queues under their senders too, and none is both pending and queued. -/
structure Filed (pending:TxMap) (queue:GoMap Address TxMap):Prop where
 filed:∀h tx,pending.lookup h=some tx→tx∈S ∧ sg.hash tx=h ∧ (sg.sender tx).isSome
 queued:∀a h tx,(queueOf queue a).lookup h=some tx→tx∈S ∧ sg.hash tx=h ∧ sg.sender tx=some a
 disjoint:∀a h tx t,pending.lookup h=some tx→(queueOf queue a).lookup h≠some t

structure AccountView where
 nonce:BitVec 64
 pending:Transaction→Prop
 queue:TxMap

def accountOf (a:Address) (l:Live):AccountView:=
 {nonce:=l.pendingState.getNonce a
  pending:=fun tx=>sg.sender tx=some a ∧ l.pending.lookup (sg.hash tx)=some tx
  queue:=queueOf l.queue a}

/-- The valid queued transactions of the account have been sorted, cut and promoted. -/
structure AccountStep (s:ChainState) (a:Address) (v v':AccountView) (sorted:List Entry) :
 Prop where
 mem:∀h tx,⟨h,tx⟩∈sorted ↔ v.queue.lookup h=some tx ∧ stale (s.getNonce a) (s.getBalance a) tx=false
 ordered:Ordered sorted
 nodup:(sorted.map Sigma.fst).Nodup
 nonce:v'.nonce=lastNonce v.nonce (cut v.nonce sorted).promoted
 pending:∀tx,v'.pending tx ↔ v.pending tx ∨ ⟨sg.hash tx,tx⟩∈(cut v.nonce sorted).promoted
 queue:∀h tx,v'.queue.lookup h=some tx ↔ ⟨h,tx⟩∈(cut v.nonce sorted).rest.take maxQueued

lemma collect_eq(nonce:BitVec 64)(balance:ℤ)(visit:List Entry)(txs:TxMap):
 collect nonce balance visit txs=(sweep (fun _ tx=>stale nonce balance tx) visit txs,
   visit.filter (!stale nonce balance ·.2)):=by
 have hlist:∀acc:List Entry,visit.foldl
  (fun (acc:List Entry) q=>if stale nonce balance q.2 then acc else acc++[q]) acc =
   acc++visit.filter (!stale nonce balance ·.2):=by
  induction visit with
  | nil=>simp
  | cons e visit ih=>
   intro acc
   rw[foldl_cons,ih,filter_cons]
   cases stale nonce balance e.2<;>simp
 have hpair:=foldl_pair (fun (m:TxMap) (e:Entry)=>
  if stale nonce balance e.2 then m.erase e.1 else m)
  (fun (acc:List Entry) (q:Entry)=>if stale nonce balance q.2 then acc else acc++[q])
  visit txs []
 rw[hlist,nil_append]at hpair
 exact hpair

variable {sg S}

/-- Behind the promoted and the dropped transactions, the first of the rest are left. -/
lemma mem_take_iff{c:Cut}(happ:c.promoted++c.rest=l)(hnodup:(l.map Sigma.fst).Nodup)(e:Entry):
 (e∈l∧e.1∉(c.promoted++c.rest.drop maxQueued).map Sigma.fst)↔e∈c.rest.take maxQueued:=by
 subst happ
 have hsplit:=take_append_drop maxQueued c.rest
 generalize c.rest.take maxQueued=kept at hsplit ⊢
 generalize c.rest.drop maxQueued=dropped at hsplit ⊢
 rw[←hsplit]at hnodup ⊢
 rw[map_append,map_append,nodup_append,nodup_append]at hnodup
 obtain⟨-,⟨-,-,hkept⟩,hpromoted⟩:=hnodup
 rw[map_append,mem_append,mem_append,mem_append]
 constructor
 ·rintro⟨hpro|hk|hd,hnot⟩
  ·exact absurd (Or.inl (mem_map_of_mem hpro)) hnot
  ·exact hk
  exact absurd (Or.inr (mem_map_of_mem hd)) hnot
 intro hk
 refine⟨Or.inr (Or.inl hk),?_⟩
 rintro (hpro|hd)
 ·exact hpromoted _ hpro _ (mem_append_left _ (mem_map_of_mem hk)) rfl
 exact hkept _ (mem_map_of_mem hk) _ hd rfl

lemma mem_sorted{nonce:BitVec 64}{balance:ℤ}{visit:List Entry}{txs:TxMap}
 (hvisit:visit.Perm txs.entries)(h:Hash)(tx:Transaction):
 (⟨h,tx⟩:Entry)∈(visit.filter (!stale nonce balance ·.2)).insertionSort
  (fun q q'=>q.2.accountNonce≤q'.2.accountNonce)↔
  txs.lookup h=some tx∧stale nonce balance tx=false:=by
 rw[mem_insertionSort,mem_filter,mem_visit hvisit,Bool.not_eq_true']

lemma ordered_insertionSort(l:List Entry):
 Ordered (l.insertionSort (fun q q'=>q.2.accountNonce≤q'.2.accountNonce)):=by
 have htotal:Std.Total (fun q q':Entry=>q.2.accountNonce≤q'.2.accountNonce):=
  ⟨fun _ _=>BitVec.le_total _ _⟩
 have htrans:IsTrans Entry (fun q q'=>q.2.accountNonce≤q'.2.accountNonce):=⟨fun _ _ _=>BitVec.le_trans⟩
 exact pairwise_insertionSort _ l

structure Turn (s:ChainState) (a:Address) (l l':Live) (sorted:List Entry):Prop where
 mem:∀h tx,⟨h,tx⟩∈sorted ↔
  (queueOf l.queue a).lookup h=some tx ∧ stale (s.getNonce a) (s.getBalance a) tx=false
 ordered:Ordered sorted
 nodup:(sorted.map Sigma.fst).Nodup
 nonce:∀b,l'.pendingState.getNonce b=if b=a then
  lastNonce (l.pendingState.getNonce a) (cut (l.pendingState.getNonce a) sorted).promoted
  else l.pendingState.getNonce b
 pending:∀h tx,l'.pending.lookup h=some tx ↔ l.pending.lookup h=some tx ∨
  ⟨h,tx⟩∈(cut (l.pendingState.getNonce a) sorted).promoted
 queue:∀h tx,(queueOf l'.queue a).lookup h=some tx ↔
  ⟨h,tx⟩∈(cut (l.pendingState.getNonce a) sorted).rest.take maxQueued
 others:∀b≠a,queueOf l'.queue b=queueOf l.queue b

variable {a:Address} {l l':Live} {s:ChainState} {sorted:List Entry}

lemma checkAccount_turn(hl:Filed sg S l.pending l.queue)(htxs:queueOf l.queue a=txs):
 ∃sorted,Turn s a l (checkAccount o nested s l ⟨a,txs⟩) sorted:=by
 have hvisit:=o.perm (.queued nested) txs.entries
 have hmem:=@mem_sorted (s.getNonce a) (s.getBalance a) _ _ hvisit
 have hordered:=ordered_insertionSort ((o.visit (.queued nested) txs.entries).filter
  (!stale (s.getNonce a) (s.getBalance a) ·.2))
 have hnodup:((((o.visit (.queued nested) txs.entries).filter
  (!stale (s.getNonce a) (s.getBalance a) ·.2)).insertionSort
   (fun q q'=>q.2.accountNonce≤q'.2.accountNonce)).map Sigma.fst).Nodup:=
  ((perm_insertionSort _ _).map Sigma.fst).nodup_iff.2 (nodup_filter_visit hvisit _)
 rw[checkAccount,collect_eq]
 dsimp only
 rw[promote_eq]
 dsimp only
 generalize ((o.visit (.queued nested) txs.entries).filter
  (!stale (s.getNonce a) (s.getBalance a) ·.2)).insertionSort
   (fun q q'=>q.2.accountNonce≤q'.2.accountNonce)=sorted at hmem hordered hnodup ⊢
 have happ:=cut_append (l.pendingState.getNonce a) sorted
 have hpromoted:((cut (l.pendingState.getNonce a) sorted).promoted.map Sigma.fst).Nodup:=by
  rw[←happ,map_append]at hnodup
  exact (nodup_append.1 hnodup).1
 have hnew:∀e∈(cut (l.pendingState.getNonce a) sorted).promoted,l.pending.lookup e.1=none:=by
  intro e he
  have hsorted:e∈sorted:=happ▸mem_append_left _ he
  have hqueued:=((hmem e.1 e.2).1 hsorted).1
  rw[←htxs]at hqueued
  cases hp:l.pending.lookup e.1 with
  | none=>rfl
  | some t=>exact absurd hqueued (hl.disjoint a e.1 t e.2 hp)
 rw[foldl_addTx a _ _ hpromoted hnew]
 refine⟨sorted,?_,hordered,hnodup,?_,?_,?_,?_⟩
 ·rw[htxs]
  exact hmem
 ·intro b
  exact getNonce_foldl_setNonce a b _ _
 ·intro h tx
  exact lookup_insertAll hpromoted hnew h tx
 ·intro h tx
  rw[queueOf_store,if_pos rfl,lookup_eraseAll,←mem_take_iff happ hnodup ⟨h,tx⟩,hmem,lookup_sweep hvisit]
  generalize ((cut (l.pendingState.getNonce a) sorted).promoted ++
   (cut (l.pendingState.getNonce a) sorted).rest.drop maxQueued).map Sigma.fst=erased
  by_cases hk:h∈erased
  ·simp[hk]
  simp[hk,Option.filter_eq_some_iff]
 intro b hb
 rw[queueOf_store,if_neg hb]

lemma Turn.promoted(h:Turn s a l l' sorted)(he:e∈(cut (l.pendingState.getNonce a) sorted).promoted):
 (queueOf l.queue a).lookup e.1=some e.2:=by
 have hmem:e∈sorted:=by
  rw[←cut_append (l.pendingState.getNonce a) sorted]
  exact mem_append_left _ he
 exact ((h.mem e.1 e.2).1 hmem).1

lemma Turn.kept(h:Turn s a l l' sorted)
 (hq:(queueOf l'.queue a).lookup k=some tx):(queueOf l.queue a).lookup k=some tx:=by
 have hmem:(⟨k,tx⟩:Entry)∈sorted:=by
  rw[←cut_append (l.pendingState.getNonce a) sorted]
  exact mem_append_right _ (mem_of_mem_take ((h.queue k tx).1 hq))
 exact ((h.mem k tx).1 hmem).1

lemma Turn.filed(hinj:S.InjOn sg.hash)(h:Turn s a l l' sorted)
 (hl:Filed sg S l.pending l.queue):Filed sg S l'.pending l'.queue:=by
 have hqueue:∀b k tx,(queueOf l'.queue b).lookup k=some tx →(queueOf l.queue b).lookup k=some tx:=by
  intro b k tx hq
  by_cases hb:b=a
  ·subst hb
   exact h.kept hq
  rwa[h.others b hb]at hq
 constructor
 ·intro k tx hp
  rcases (h.pending k tx).1 hp with hp|hp
  ·exact hl.filed k tx hp
  obtain⟨hS,hhash,hsender⟩:=hl.queued a k tx (h.promoted hp)
  exact⟨hS,hhash,by rw[hsender];rfl⟩
 ·intro b k tx hq
  exact hl.queued b k tx (hqueue b k tx hq)
 intro b k tx t hp hq
 have hold:=hqueue b k t hq
 rcases (h.pending k tx).1 hp with hp|hp
 ·exact hl.disjoint b k tx t hp hold
 obtain⟨hS,hhash,hsender⟩:=hl.queued a k tx (h.promoted hp)
 obtain⟨hS',hhash',hsender'⟩:=hl.queued b k t hold
 have htx:tx=t:=hinj hS hS' (hhash.trans hhash'.symm)
 rw[htx,hsender',Option.some.injEq]at hsender
 subst hsender
 have hrest:(⟨k,t⟩:Entry)∈(cut (l.pendingState.getNonce b) sorted).rest:=
  mem_of_mem_take ((h.queue k t).1 hq)
 have hnodup:=h.nodup
 rw[←cut_append (l.pendingState.getNonce b) sorted,map_append,nodup_append]at hnodup
 exact hnodup.2.2 k (mem_map.2 ⟨_,hp,rfl⟩) k (mem_map.2 ⟨_,hrest,rfl⟩) rfl

/-- The turn of an account is not seen at another. -/
lemma Turn.accountOf_ne(h:Turn s a l l' sorted)
 (hl:Filed sg S l.pending l.queue)(hb:b≠a):accountOf sg b l'=accountOf sg b l:=by
 have hpending:(accountOf sg b l').pending=(accountOf sg b l).pending:=by
  funext tx
  apply propext
  apply and_congr_right
  intro hsender
  rw[h.pending]
  constructor
  ·rintro (hp|hp)
   ·exact hp
   have hqueued:=(hl.queued a _ _ (h.promoted hp)).2.2
   rw[hsender,Option.some.injEq]at hqueued
   exact absurd hqueued hb
  exact Or.inl
 rw[accountOf,accountOf,AccountView.mk.injEq]
 exact⟨(h.nonce b).trans (if_neg hb),hpending,h.others b hb⟩

lemma Turn.step{s:ChainState}{a:Address}{l l':Live}{sorted:List Entry}
 (h:Turn s a l l' sorted)(hl:Filed sg S l.pending l.queue):
 AccountStep sg s a (accountOf sg a l) (accountOf sg a l') sorted:=by
 refine⟨h.mem,h.ordered,h.nodup,(h.nonce a).trans (if_pos rfl),?_,h.queue⟩
 intro tx
 change _∧_↔(_∧_)∨_
 rw[h.pending]
 constructor
 ·rintro⟨hsender,hp|hp⟩
  ·exact Or.inl ⟨hsender,hp⟩
  exact Or.inr hp
 rintro (⟨hsender,hp⟩|hp)
 ·exact⟨hsender,Or.inl hp⟩
 exact⟨(hl.queued a _ _ (h.promoted hp)).2.2,Or.inr hp⟩

/-- The account without a queue. -/
lemma accountStep_self(h:v.queue = ∅):AccountStep sg s a v v []:=by
 refine⟨?_,Pairwise.nil,nodup_nil,rfl,?_,?_⟩
 ·intro k tx
  rw[h]
  simp
 ·intro tx
  simp[cut]
 intro k tx
 rw[h]
 simp[cut]

/-- What the loop over the queues does to each account. -/
lemma checkLoop_step(hinj:S.InjOn sg.hash)(o:Orders)(nested:Bool)(s:ChainState)
 {l:Live}(hl:Filed sg S l.pending l.queue):
 Filed sg S (checkLoop o nested s l).pending (checkLoop o nested s l).queue∧
 ∀a,∃sorted,AccountStep sg s a (accountOf sg a l) (accountOf sg a (checkLoop o nested s l))
  sorted:=by
 have hvisit:=o.perm (.accounts nested) l.queue.entries
 have hqueue:∀e∈o.visit (.accounts nested) l.queue.entries,queueOf l.queue e.1=e.2:=by
  rintro⟨a,txs⟩ he
  rw[queueOf,(mem_visit hvisit).1 he]
  rfl
 have hturn:∀t e,Filed sg S t.pending t.queue →
  e∈o.visit (.accounts nested) l.queue.entries→accountOf sg e.1 t=accountOf sg e.1 l →
   ∃sorted,Turn s e.1 t (checkAccount o nested s t e) sorted:=by
  intro t e ht he hview
  apply checkAccount_turn ht
  exact (congrArg AccountView.queue hview).trans (hqueue e he)
 obtain⟨hinv,hturns,hrest⟩:=@foldl_local _ _ _ _ Sigma.fst (checkAccount o nested s)
  (accountOf sg) (fun l=>Filed sg S l.pending l.queue)
  (o.visit (.accounts nested) l.queue.entries) (nodup_visit hvisit) l
  (by
   intro t e ht he hview
   obtain⟨sorted,hturn⟩:=hturn t e ht he hview
   exact⟨hturn.filed hinj ht,fun b hb=>hturn.accountOf_ne ht hb⟩) hl
 refine⟨hinv,?_⟩
 intro a
 by_cases ha:a∈(o.visit (.accounts nested) l.queue.entries).map Sigma.fst
 ·obtain⟨e,he,rfl⟩:=mem_map.1 ha
  obtain⟨t,ht,hview,hend⟩:=hturns e he
  obtain⟨sorted,hturn⟩:=hturn t e ht he hview
  refine⟨sorted,?_⟩
  rw[checkLoop,hend,←hview]
  exact hturn.step ht
 refine⟨[],?_⟩
 rw[checkLoop,hrest a ha]
 apply accountStep_self
 cases hq:l.queue.lookup a with
 | none=>simp[accountOf,queueOf,hq]
 | some txs=>exact (ha (mem_map_of_mem ((mem_visit hvisit).2 hq))).elim

end GoCoupe.TransactionPoolChecks
