import GoCoupe.ReferenceCounts
import GoCoupe.EmbeddedNodes
import GoCoupe.TrieSynchronisation

/-!
# Invariants of the trie synchronisation

The dependency counter of a pending request is the number of times that other requests name it
as their parent. Between the steps of a call one request may be busy, and references may be
owed: counted but not yet entered, or no longer entered.
-/

namespace GoCoupe.TrieSyncInvariants
open RlpRawSplitting TrieNodes ReferenceCounts EmbeddedNodes TrieSynchronisation Finmap
open List Option Function
open TrieOperations.Trie (emptyRoot zeroHash)

def Stored (db:Db) (h:Bytes):Prop:=∃d n,db h=some d ∧ Ends (decodeNode d) n

/-- Every node of the database has its children in the database. -/
def Closed (db:Db):Prop:=∀h d n c,db h=some d→Ends (decodeNode d) n→Refers n c → Stored db c

lemma known_cases(db:Db)(h:Bytes):known db h=some true∧Stored db h∨known db h=some false∨
  known db h=none∧∃d,db h=some d∧(decodeNode d).run=none:=by
 unfold known
 rcases hd:db h with _|d
 ·exact .inr (.inl rfl)
 rcases hn:(decodeNode d).run with _|(e|n)
 ·refine .inr (.inr ⟨?_,d,rfl,hn⟩)
  rw[getD_some,hn]
 ·refine .inr (.inl ?_)
  rw[getD_some,hn]
 refine .inl ⟨?_,d,n,hd,hn⟩
 rw[getD_some,hn]

lemma Stored.known{db:Db}{h:Bytes}(hs:Stored db h):known db h=some true:=by
 obtain⟨d,n,hd,hn⟩:=hs
 rw[TrieSynchronisation.known,hd,getD_some,hn]

lemma Stored.update(hs:Stored db h)
 (hn:Ends (decodeNode d) n):Stored (Function.update db key (some d)) h:=by
 obtain⟨d',n',hd,hn'⟩:=hs
 by_cases hk:h=key
 ·rw[hk]
  exact⟨d,n,update_self key _ db,hn⟩
 exact⟨d',n',by rw[update_of_ne hk,hd],hn'⟩

/-- Nodes stay in the database; requests stay until they are in the database, and keep their
parents. -/
structure Advances (s s':TrieSync):Prop where
 stored:∀{c},Stored s.database c → Stored s'.database c
 kept:∀{c r},s.requests.lookup c=some r →
  Stored s'.database c ∨ ∃r',s'.requests.lookup c=some r' ∧ r.parents⊆r'.parents

lemma Advances.refl(s:TrieSync):Advances s s:=⟨fun h=>h,fun h=>.inr ⟨_,h,Subset.refl _⟩⟩

lemma Advances.trans{s s' s'':TrieSync}(h:Advances s s')(h':Advances s' s''):Advances s s'':=by
 refine⟨fun hc=>h'.stored (h.stored hc),fun hc=>?_⟩
 rcases h.kept hc with hst|⟨r',hr',hsub⟩
 ·exact .inl (h'.stored hst)
 rcases h'.kept hr' with hst|⟨r'',hr'',hsub'⟩
 ·exact .inl hst
 exact .inr ⟨r'',hr'',Subset.trans hsub hsub'⟩

variable {s:TrieSync} {j k:Bytes} {r r':Request}

lemma lookup_setRequest:(s.setRequest j r).requests.lookup j=some r:=lookup_insert _

lemma lookup_setRequest_ne(h:k≠j):(s.setRequest j r).requests.lookup k=s.requests.lookup k:=
 lookup_insert_of_ne _ h

lemma setRequest_cases(h:(s.setRequest j r).requests.lookup k=some r'):
 k=j∧r'=r∨k≠j∧s.requests.lookup k=some r':=by
 by_cases hk:k=j
 ·subst hk
  exact .inl ⟨rfl,some.inj (h.symm.trans lookup_setRequest)⟩
 exact .inr ⟨hk,lookup_setRequest_ne hk▸h⟩

lemma mem_setRequest:k∈(s.setRequest j r).requests↔k=j∨k∈s.requests:=mem_insert

lemma pending_setRequest(h:s.requests.lookup j=some r):(s.setRequest j r').pending=s.pending:=by
 refine congrArg Finset.card (Finset.ext fun k=>?_)
 rw[Finmap.mem_keys,Finmap.mem_keys,mem_setRequest]
 refine or_iff_right_of_imp fun hk=>?_
 rw[hk]
 exact Finmap.mem_of_lookup_eq_some h

lemma advances_setRequest(h:s.requests.lookup j=some r)(hp:r.parents⊆r'.parents):
 Advances s (s.setRequest j r'):=by
 refine⟨fun hc=>hc,fun {c rc} hc=>.inr ?_⟩
 by_cases hcj:c=j
 ·subst hcj
  rw[h]at hc
  cases hc
  exact⟨r',lookup_setRequest,hp⟩
 exact⟨rc,by rw[lookup_setRequest_ne hcj,hc],Subset.refl _⟩

/-- Scheduling changes no pending request but for its parents. -/
lemma lookup_schedule(j:Bytes)(req:Request)(h:s.requests.lookup k=some r):
 ∃ps,(s.schedule j req).requests.lookup k=some {r with parents:=r.parents++ps}:=by
 unfold TrieSync.schedule
 rcases hj:s.requests.lookup j with _|old
 ·have hne:k≠j:=by
   rintro rfl
   rw[h]at hj
   cases hj
  refine⟨[],?_⟩
  rw[append_nil]
  exact (lookup_setRequest_ne hne).trans h
 by_cases hk:k=j
 ·subst hk
  rw[h]at hj
  cases hj
  exact⟨req.parents,lookup_setRequest⟩
 refine⟨[],?_⟩
 rw[append_nil]
 exact (lookup_setRequest_ne hk).trans h

lemma advances_schedule{req:Request}:Advances s (s.schedule j req):=by
 refine⟨fun {c} hc=>?_,fun {c rc} hc=>.inr ?_⟩
 ·unfold TrieSync.schedule
  split
  ·exact hc
  exact hc
 obtain⟨ps,hps⟩:=lookup_schedule j req hc
 exact⟨_,hps,subset_append_left _ _⟩

lemma schedule_database{req:Request}:(s.schedule j req).database=s.database:=by
 unfold TrieSync.schedule
 split
 ·rfl
 rfl

lemma schedule_subTries{req:Request}:(s.schedule j req).subTries=s.subTries:=by
 unfold TrieSync.schedule
 split
 ·rfl
 rfl

lemma parents_schedule(s:TrieSync)(j:Bytes)(req:Request):
 ∃r,(s.schedule j req).requests.lookup j=some r∧req.parents⊆r.parents:=by
 unfold TrieSync.schedule
 split
 ·exact⟨_,lookup_setRequest,subset_append_right _ _⟩
 exact⟨req,lookup_setRequest,Subset.refl _⟩

variable (Good:Bytes→Bytes→Prop) (db₀:Db)

/-- The data came in for the hash and decode; the children are stored or still to come. -/
def Delivered (s:TrieSync) (j d:Bytes):Prop:=
 Good j d ∧ ∃n,Ends (decodeNode d) n ∧ ∀c,Refers n c →
  Stored s.database c ∨ ∃r,s.requests.lookup c=some r ∧ j∈r.parents

def Settled (s:TrieSync) (j:Bytes) (r:Request):Prop:=
 (r.data=none → r.deps=0) ∧ ∀d,r.data=some d → r.deps≠0 ∧ Delivered Good s j d

structure SyncOk (busy:Option Bytes) (debts:List Bytes) (s:TrieSync):Prop where
 counted:∀{j r},s.requests.lookup j=some r →
  r.deps=(references Request.parents s.requests j+debts.count j:ℕ)
 linked:∀{j r p},s.requests.lookup j=some r→p∈r.parents→p∈s.requests
 owed:∀{p},p∈debts→p∈s.requests
 plain:∀{j r},s.requests.lookup j=some r → r.raw=false
 settled:∀{j r},s.requests.lookup j=some r→busy≠some j → Settled Good s j r
 closed:Closed s.database
 origin:∀{h d},s.database h=some d→db₀ h=some d ∨ Good h d

/-- Some data at hand make the decoder panic. -/
def Broken:Prop:=∃h d,(db₀ h=some d ∨ Good h d) ∧ (decodeNode d).run=none

variable {Good db₀} {busy:Option Bytes} {debts:List Bytes} {s':TrieSync}

lemma Delivered.mono{d:Bytes}(h:Delivered Good s j d)(ha:Advances s s'):Delivered Good s' j d:=by
 obtain⟨hg,n,hn,hc⟩:=h
 refine⟨hg,n,hn,fun c hr=>?_⟩
 rcases hc c hr with hst|⟨rc,hrc,hj⟩
 ·exact .inl (ha.stored hst)
 rcases ha.kept hrc with hst|⟨rc',hrc',hsub⟩
 ·exact .inl hst
 exact .inr ⟨rc',hrc',hsub hj⟩

lemma settled_of_delivered{d:Bytes}(hd:r.data=some d)(hdeps:r.deps≠0)
 (hdel:Delivered Good s j d):Settled Good s j r:=by
 refine⟨fun hnone=>?_,fun d' hd'=>?_⟩
 ·rw[hd]at hnone
  cases hnone
 rw[hd]at hd'
 cases hd'
 exact⟨hdeps,hdel⟩

lemma Settled.mono(h:Settled Good s j r)(ha:Advances s s'){ps:List Bytes}:
 Settled Good s' j {r with parents:=ps}:=
 ⟨h.1,fun d hd=>⟨(h.2 d hd).1,(h.2 d hd).2.mono ha⟩⟩

namespace SyncOk

lemma known_cases(h:SyncOk Good db₀ busy debts s)(k:Bytes):
 known s.database k=some true∧Stored s.database k∨known s.database k=some false∨
  known s.database k=none∧Broken Good db₀:=by
 rcases TrieSyncInvariants.known_cases s.database k with hk|hk|⟨hk,d,hd,hn⟩
 ·exact .inl hk
 ·exact .inr (.inl hk)
 exact .inr (.inr ⟨hk,k,d,h.origin hd,hn⟩)

/-- The scheduler keeps its records; the queue and the list of sub-tries do not matter. -/
lemma of_eq(h:SyncOk Good db₀ busy debts s)(hd:s'.database=s.database)
 (hr:s'.requests=s.requests):SyncOk Good db₀ busy debts s':=by
 rcases s with⟨db,reqs,q,t⟩
 rcases s' with⟨db',reqs',q',t'⟩
 cases hd
 cases hr
 exact⟨h.counted,h.linked,h.owed,h.plain,h.settled,h.closed,h.origin⟩

/-- A request is changed and becomes busy; its counter follows the references owed to it. -/
lemma setRequest(h:SyncOk Good db₀ busy debts s){debts':List Bytes}
 (hb:∀i,busy=some i→i=j)(hj:s.requests.lookup j=some r)(hp:r'.parents=r.parents)
 (hraw:r'.raw=r.raw)(hne:∀i,i≠j→debts'.count i=debts.count i)
 (hdeps:r'.deps+debts.count j=r.deps+debts'.count j):
 SyncOk Good db₀ (some j) debts' (s.setRequest j r'):=by
 have hnames:r'.parents=r.parents++[]:=by rw[hp,append_nil]
 have hrefs (i:Bytes):references Request.parents (s.setRequest j r').requests i =
  references Request.parents s.requests i:=references_replace hj hnames
 have ha:Advances s (s.setRequest j r'):=advances_setRequest hj (hp▸Subset.refl _)
 have hmem:j∈s.requests:=mem_of_lookup_eq_some hj
 refine⟨fun {i ri} hi=>?_,fun {i ri p} hi hpi=>?_,fun {p} hpd=>?_,fun {i ri} hi=>?_,
  fun {i ri} hi hbi=>?_,h.closed,h.origin⟩
 ·rw[hrefs]
  obtain⟨rfl,rfl⟩|⟨hij,hi⟩:=setRequest_cases hi
  ·have:=h.counted hj
   push_cast at this ⊢
   omega
  rw[h.counted hi,hne i hij]
 ·refine mem_setRequest.2 (.inr ?_)
  obtain⟨rfl,rfl⟩|⟨hij,hi⟩:=setRequest_cases hi
  ·exact h.linked hj (hp▸hpi)
  exact h.linked hi hpi
 ·refine mem_setRequest.2 ?_
  by_cases hpj:p=j
  ·exact .inl hpj
  have hpos:=count_pos_iff.2 hpd
  rw[hne p hpj]at hpos
  exact .inr (h.owed (count_pos_iff.1 hpos))
 ·obtain⟨rfl,rfl⟩|⟨hij,hi⟩:=setRequest_cases hi
  ·rw[hraw,h.plain hj]
  exact h.plain hi
 have hij:i≠j:=fun he=>hbi (congrArg some he.symm)
 rw[lookup_setRequest_ne hij]at hi
 exact (h.settled hi fun hbi=>hij (hb i hbi)).mono ha

lemma release(h:SyncOk Good db₀ (some j) debts s)(hj:s.requests.lookup j=some r)
 (hs:Settled Good s j r):SyncOk Good db₀ none debts s:=by
 refine⟨h.counted,h.linked,h.owed,h.plain,fun {i ri} hi _=>?_,h.closed,h.origin⟩
 by_cases hij:i=j
 ·subst hij
  rw[hj]at hi
  cases hi
  exact hs
 exact h.settled hi fun he=>hij (some.inj he).symm

/-- A request that nothing refers to is stored. The references to its parents are then owed. -/
lemma erase(h:SyncOk Good db₀ (some j) debts s)(s':TrieSync)(hj:s.requests.lookup j=some r)
 (hdeps:r.deps=0)(hdel:Delivered Good s j d)
 (hdb:s'.database=Function.update s.database j (some d))(hreq:s'.requests=s.requests.erase j):
 SyncOk Good db₀ none (r.parents++debts) s'∧Advances s s'∧s'.pending+1=s.pending:=by
 obtain⟨hgood,n,hn,hch⟩:=hdel
 have hzero:references Request.parents s.requests j=0∧debts.count j=0:=by
  have:=h.counted hj
  omega
 have hfree:∀i ri,s.requests.lookup i=some ri→j∉ri.parents:=references_eq_zero_iff.1 hzero.1
 have hmem:∀{p},p∈s.requests→p≠j→p∈s'.requests:=by
  intro p hp hne
  rw[hreq]
  exact mem_erase.2 ⟨hne,hp⟩
 have hlook:∀{i ri},s'.requests.lookup i=some ri→i≠j∧s.requests.lookup i=some ri:=by
  intro i ri hi
  rw[hreq]at hi
  have hij:i≠j:=by
   rintro rfl
   rw[lookup_erase]at hi
   cases hi
  exact⟨hij,by rwa[lookup_erase_ne hij]at hi⟩
 have hstored:Stored s'.database j:=by
  rw[hdb]
  exact⟨d,n,update_self j _ _,hn⟩
 have ha:Advances s s':=by
  refine⟨fun {c} hc=>by rw[hdb];exact hc.update hn,fun {c rc} hc=>?_⟩
  by_cases hcj:c=j
  ·exact .inl (hcj▸hstored)
  refine .inr ⟨rc,?_,Subset.refl _⟩
  rw[hreq]
  exact (lookup_erase_ne hcj).trans hc
 refine⟨⟨fun {i ri} hi=>?_,fun {i ri p} hi hp=>?_,fun {p} hp=>?_,
  fun {i ri} hi=>h.plain (hlook hi).2,fun {i ri} hi _=>?_,?_,?_⟩,ha,?_⟩
 ·obtain⟨hij,hi⟩:=hlook hi
  have hcount:=h.counted hi
  rw[references_erase hj]at hcount
  rw[hcount,count_append,hreq]
  push_cast
  ring
 ·obtain⟨hij,hi⟩:=hlook hi
  exact hmem (h.linked hi hp) fun he=>hfree i ri hi (he▸hp)
 ·rcases mem_append.1 hp with hp|hp
  ·exact hmem (h.linked hj hp) fun he=>hfree j r hj (he▸hp)
  exact hmem (h.owed hp) fun he=>count_eq_zero.1 hzero.2 (he▸hp)
 ·obtain⟨hij,hi⟩:=hlook hi
  exact (h.settled hi fun he=>hij (some.inj he).symm).mono ha
 ·intro k d' n' c hk hn' hc
  rw[hdb]at hk
  by_cases hkj:k=j
  ·subst hkj
   rw[update_self]at hk
   cases hk
   cases (show n=n' by rw[Ends,hn]at hn';cases hn';rfl)
   rcases hch c hc with hst|⟨rc,hrc,hp⟩
   ·exact ha.stored hst
   exact absurd hp (hfree c rc hrc)
  rw[update_of_ne hkj]at hk
  exact ha.stored (h.closed k d' n' c hk hn' hc)
 ·intro k d' hk
  rw[hdb]at hk
  by_cases hkj:k=j
  ·subst hkj
   rw[update_self]at hk
   cases hk
   exact .inr hgood
  rw[update_of_ne hkj]at hk
  exact h.origin hk
 have hjk:j∈s.requests.keys:=mem_keys.2 (mem_of_lookup_eq_some hj)
 rw[TrieSync.pending,TrieSync.pending,hreq,keys_erase]
 exact Finset.card_erase_add_one hjk

/-- References that were owed are entered into a request, which is new or pending already. -/
lemma schedule{ps:List Bytes}(h:SyncOk Good db₀ busy (ps++debts) s)(depth:ℕ):
 SyncOk Good db₀ busy debts (s.schedule j ⟨none,false,ps,depth,0⟩):=by
 have ha:Advances s (s.schedule j ⟨none,false,ps,depth,0⟩):=advances_schedule
 have howed:∀{p},p∈debts→p∈s.requests:=fun hp=>h.owed (mem_append_right _ hp)
 have hps:∀{p},p∈ps→p∈s.requests:=fun hp=>h.owed (mem_append_left _ hp)
 unfold TrieSync.schedule at ha ⊢
 rcases hj:s.requests.lookup j with _|old
 ·rw[hj]at ha
  dsimp only at ha ⊢
  have hnew:j∉s.requests:=lookup_eq_none.1 hj
  have hrefs (i:Bytes):references Request.parents
   (s.setRequest j ⟨none,false,ps,depth,0⟩).requests i =
    ps.count i+references Request.parents s.requests i:=references_insert_new hnew
  suffices hset:SyncOk Good db₀ busy debts (s.setRequest j ⟨none,false,ps,depth,0⟩) from
   hset.of_eq rfl rfl
  refine⟨fun {i ri} hi=>?_,fun {i ri p} hi hp=>?_,fun hp=>mem_setRequest.2
   (.inr (howed hp)),fun {i ri} hi=>?_,fun {i ri} hi hb=>?_,h.closed,h.origin⟩
  ·rw[hrefs]
   obtain⟨rfl,rfl⟩|⟨hij,hi⟩:=setRequest_cases hi
   ·have h1:ps.count i=0:=count_eq_zero.2 fun hp=>hnew (hps hp)
    have h2:debts.count i=0:=count_eq_zero.2 fun hp=>hnew (howed hp)
    have h3:references Request.parents s.requests i=0:=
     references_eq_zero_iff.2 fun k rk hk hp=>hnew (h.linked hk hp)
    rw[h1,h2,h3]
    rfl
   rw[h.counted hi,count_append]
   push_cast
   ring
  ·refine mem_setRequest.2 (.inr ?_)
   obtain⟨rfl,rfl⟩|⟨hij,hi⟩:=setRequest_cases hi
   ·exact hps hp
   exact h.linked hi hp
  ·obtain⟨rfl,rfl⟩|⟨hij,hi⟩:=setRequest_cases hi
   ·rfl
   exact h.plain hi
  obtain⟨rfl,rfl⟩|⟨hij,hi⟩:=setRequest_cases hi
  ·exact⟨fun _=>rfl,fun d hd=>by cases hd⟩
  exact (h.settled hi hb).mono ha
 rw[hj]at ha
 dsimp only at ha ⊢
 have hrefs (i:Bytes):references Request.parents
  (s.setRequest j {old with parents:=old.parents++ps}).requests i =
   references Request.parents s.requests i+ps.count i:=references_replace hj rfl
 have hold:∀{i ri},(s.setRequest j {old with parents:=old.parents++ps}).requests.lookup i
  = some ri→∃ri' more,s.requests.lookup i=some ri'∧(∀p∈more,p∈ps)∧
   ri = {ri' with parents:=ri'.parents++more}:=by
  intro i ri hi
  obtain⟨rfl,rfl⟩|⟨hij,hi⟩:=setRequest_cases hi
  ·exact⟨old,ps,hj,fun _ hp=>hp,rfl⟩
  refine⟨ri,[],hi,fun p hp=>absurd hp not_mem_nil,?_⟩
  rw[append_nil]
 refine⟨fun {i ri} hi=>?_,fun {i ri p} hi hp=>mem_setRequest.2 (.inr ?_),fun hp=>
  mem_setRequest.2 (.inr (howed hp)),fun {i ri} hi=>?_,fun {i ri} hi hb=>?_,h.closed,
  h.origin⟩
 ·obtain⟨ri',more,hi',-,rfl⟩:=hold hi
  rw[hrefs,h.counted hi',count_append]
  push_cast
  ring
 ·obtain⟨ri',more,hi',hmore,rfl⟩:=hold hi
  rcases mem_append.1 hp with hp|hp
  ·exact h.linked hi' hp
  exact hps (hmore p hp)
 ·obtain⟨ri',more,hi',-,rfl⟩:=hold hi
  have hraw:ri'.raw=false:=h.plain hi'
  exact hraw
 obtain⟨ri',more,hi',-,rfl⟩:=hold hi
 exact (h.settled hi' hb).mono ha

end SyncOk

end GoCoupe.TrieSyncInvariants
