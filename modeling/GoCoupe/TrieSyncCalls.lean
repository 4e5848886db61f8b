import GoCoupe.TrieSyncInvariants

/-!
# The calls of the trie synchronisation

Every call keeps the invariants of the scheduler, whether it succeeds or reports an error. It
can only panic where the decoder does.
-/

namespace GoCoupe.TrieSyncCalls
open RlpRawSplitting TrieNodes EmbeddedNodes TrieSynchronisation TrieSyncInvariants List Option Finmap
open TrieOperations.Trie (emptyRoot zeroHash)

variable {Good:Bytes→Bytes→Prop} {db₀:Db}

/-- What committing a request that nothing holds back does to the scheduler. -/
def Commits (Good:Bytes→Bytes→Prop) (db₀:Db) (fuel:ℕ):Prop:=
 ∀{s:TrieSync} {key:Bytes} {r:Request} {d:Bytes} {debts:List Bytes},
  SyncOk Good db₀ (some key) debts s→s.requests.lookup key=some r → r.deps=0 →
  r.data=some d→Delivered Good s key d→s.pending≤fuel →
  ∃s',s.commit fuel key=some s' ∧ SyncOk Good db₀ none debts s' ∧ Advances s s' ∧
   s'.pending ≤ s.pending ∧ s'.subTries=s.subTries

/-- The parents of a stored request are told one after the other. -/
lemma notify_parents(hfuel:Commits Good db₀ fuel)(parents:List Bytes)
 (h:SyncOk Good db₀ none (parents++debts) s)(hp:s.pending≤fuel):
 ∃s',parents.foldlM (fun s parent=>
  match s.requests.lookup parent with
  | none=>none
  | some p=>
   let s:=s.setRequest parent {p with deps:=p.deps-1}
   if p.deps-1=0 then s.commit fuel parent else some s) s=some s'∧
  SyncOk Good db₀ none debts s'∧Advances s s'∧s'.pending ≤ s.pending∧
  s'.subTries=s.subTries:=by
 induction parents generalizing s with
 | nil=>exact⟨s,rfl,h,.refl s,le_rfl,rfl⟩
 | cons parent parents ih=>
  obtain⟨p,hlook⟩:=mem_iff.1 (h.owed mem_cons_self)
  have hcount:p.deps≠0:=by
   have:=h.counted hlook
   rw[cons_append,count_cons_self]at this
   omega
  obtain⟨d,hd⟩:∃d,p.data=some d:=by
   refine ne_none_iff_exists'.1 fun hnone=>?_
   exact hcount ((h.settled hlook (some_ne_none parent).symm).1 hnone)
  have hdel:=((h.settled hlook (some_ne_none parent).symm).2 d hd).2
  have hstep:SyncOk Good db₀ (some parent) (parents++debts)
   (s.setRequest parent {p with deps:=p.deps-1}):=by
   refine h.setRequest (fun i hi=>by cases hi) hlook rfl rfl (fun i hi=>?_) ?_
   ·rw[cons_append,count_cons_of_ne hi.symm]
   rw[cons_append,count_cons_self]
   push_cast
   ring
  have ha:Advances s (s.setRequest parent {p with deps:=p.deps-1}):=
   advances_setRequest hlook (Subset.refl _)
  have hpend:(s.setRequest parent {p with deps:=p.deps-1}).pending=s.pending:=pending_setRequest hlook
  rw[foldlM_cons,hlook]
  dsimp only
  by_cases hzero:p.deps-1=0
  ·rw[if_pos hzero]
   obtain⟨s₁,hs1,hok1,ha1,hp1,ht1⟩:=hfuel hstep lookup_setRequest hzero hd
    (hdel.mono ha) (hpend.trans_le hp)
   rw[hs1,bind_eq_bind,bind_some]
   obtain⟨s₂,hs2,hok2,ha2,hp2,ht2⟩:=ih hok1 (by omega)
   exact⟨s₂,hs2,hok2,(ha.trans ha1).trans ha2,by omega,ht2.trans ht1⟩
  rw[if_neg hzero,bind_eq_bind,bind_some]
  have hok1:=hstep.release lookup_setRequest (settled_of_delivered hd hzero (hdel.mono ha))
  obtain⟨s₂,hs2,hok2,ha2,hp2,ht2⟩:=ih hok1 (hpend.trans_le hp)
  exact⟨s₂,hs2,hok2,ha.trans ha2,by omega,ht2⟩

lemma commits(fuel:ℕ):Commits Good db₀ fuel:=by
 induction fuel with
 | zero=>
  intro s key r d debts h hkey hdeps hd hdel hp
  have hmem:=mem_keys.2 (mem_of_lookup_eq_some hkey)
  rw[Finset.card_eq_zero.1 (Nat.le_zero.1 hp)]at hmem
  exact absurd hmem (Finset.notMem_empty key)
 | succ fuel ih=>
  intro s key r d debts h hkey hdeps hd hdel hp
  rw[TrieSync.commit,hkey]
  dsimp only
  rw[hd,getD_some]
  obtain⟨hok,ha,hpend⟩:=h.erase {s with
   database:=Function.update s.database key (some d)
   requests:=s.requests.erase key} hkey hdeps hdel rfl rfl
  obtain⟨s',hs',hok',ha',hp',ht'⟩:=notify_parents ih r.parents hok (by omega)
  exact⟨s',hs',hok',ha.trans ha',by omega,ht'⟩

variable {sha3:Bytes→Bytes}

/-- The trie is empty, in the database or on its way. -/
def Tracked (sha3:Bytes→Bytes) (s:TrieSync) (root:Bytes):Prop:=
 root=emptyRoot sha3 ∨ Stored s.database root ∨ root∈s.requests

variable {s s':TrieSync} {j parent d:Bytes}

lemma Tracked.mono(h:Tracked sha3 s root)(ha:Advances s s'):Tracked sha3 s' root:=by
 rcases h with he|hst|hmem
 ·exact .inl he
 ·exact .inr (.inl (ha.stored hst))
 obtain⟨r,hr⟩:=mem_iff.1 hmem
 rcases ha.kept hr with hst|⟨r',hr',-⟩
 ·exact .inr (.inl hst)
 exact .inr (.inr (mem_of_lookup_eq_some hr'))

/-- The request is pending and holds the data. -/
def Holds (s:TrieSync) (j d:Bytes):Prop:=∃r,s.requests.lookup j=some r ∧ r.data=some d

structure Progress (sha3:Bytes→Bytes) (s s':TrieSync):Prop where
 advances:Advances s s'
 recorded:s.subTries⊆s'.subTries
 tracked:∀{root},root∈s'.subTries → root∈s.subTries ∨ Tracked sha3 s' root

lemma Progress.refl(s:TrieSync):Progress sha3 s s:=⟨.refl s,Subset.refl _,.inl⟩

lemma progress_of_advances(h:Advances s s')(ht:s'.subTries=s.subTries):Progress sha3 s s':=by
 refine⟨h,?_,fun hroot=>.inl (ht▸hroot)⟩
 rw[ht]
 exact Subset.refl _

lemma Progress.trans(h:Progress sha3 s s')(h':Progress sha3 s' s''):Progress sha3 s s'':=by
 refine⟨h.advances.trans h'.advances,Subset.trans h.recorded h'.recorded,fun hroot=>?_⟩
 rcases h'.tracked hroot with hroot|ht
 ·exact (h.tracked hroot).imp_right fun ht=>ht.mono h'.advances
 exact .inr ht

structure Extends (sha3:Bytes→Bytes) (s s':TrieSync):Prop
 extends Progress sha3 s s' where
 database:s'.database=s.database
 holds:∀{j d},Holds s j d→Holds s' j d

lemma Extends.refl(s:TrieSync):Extends sha3 s s:=⟨.refl s,rfl,fun h=>h⟩

lemma Extends.trans(h:Extends sha3 s s')(h':Extends sha3 s' s''):Extends sha3 s s'':=
 ⟨h.toProgress.trans h'.toProgress,h'.database.trans h.database,fun hh=>h'.holds (h.holds hh)⟩

lemma extends_schedule:Extends sha3 s (s.schedule j req):=by
 refine⟨progress_of_advances advances_schedule schedule_subTries,schedule_database,?_⟩
 rintro i d ⟨r,hr,hd⟩
 obtain⟨ps,hps⟩:=lookup_schedule j req hr
 exact⟨_,hps,hd⟩

lemma extends_setRequest(hj:s.requests.lookup j=some r)
 (hp:r'.parents=r.parents)(hd:r'.data=r.data):Extends sha3 s (s.setRequest j r'):=by
 have ha:Advances s (s.setRequest j r'):=advances_setRequest hj (hp▸Subset.refl _)
 refine⟨progress_of_advances ha rfl,rfl,?_⟩
 rintro i d ⟨ri,hri,hdi⟩
 by_cases hij:i=j
 ·subst hij
  rw[hj]at hri
  cases hri
  exact⟨r',lookup_setRequest,hd.trans hdi⟩
 exact⟨ri,by rw[lookup_setRequest_ne hij,hri],hdi⟩

variable {busy:Option Bytes}

/-- The counter of the busy request is raised for references that are still to be entered. -/
lemma raise(h:SyncOk Good db₀ (some j) [] s)(hj:s.requests.lookup j=some r)(m:ℕ):
 SyncOk Good db₀ (some j) (replicate m j) (s.setRequest j {r with deps:=r.deps+m}):=by
 refine h.setRequest (fun i hi=>(some.inj hi).symm) hj rfl rfl (fun i hi=>?_) ?_
 ·rw[count_nil,count_eq_zero]
  exact fun hmem=>hi (eq_of_mem_replicate hmem)
 rw[count_nil,count_replicate_self]
 push_cast
 ring

lemma scheduleBelow_ok(sha3:Bytes→Bytes)(h:SyncOk Good db₀ busy [] s)
 (hp:parent=zeroHash∨busy=some parent∧parent∈s.requests)(root:Bytes)(depth:ℕ):
 ∃s',s.scheduleBelow root parent ⟨none,false,[],depth,0⟩=some s'∧
  SyncOk Good db₀ busy [] s'∧Extends sha3 s s'∧root∈s'.requests:=by
 unfold TrieSync.scheduleBelow
 split
 ·obtain⟨r,hr,-⟩:=parents_schedule s root ⟨none,false,[],depth,0⟩
  exact⟨_,rfl,SyncOk.schedule h depth,extends_schedule,mem_of_lookup_eq_some hr⟩
 rename_i hne
 obtain⟨rfl,hmem⟩:=hp.resolve_left hne
 obtain⟨ancestor,hanc⟩:=mem_iff.1 hmem
 rw[hanc]
 have hraise:SyncOk Good db₀ (some parent) ([parent]++[])
  (s.setRequest parent {ancestor with deps:=ancestor.deps+1}):=raise h hanc 1
 have hext:Extends sha3 s (s.setRequest parent {ancestor with deps:=ancestor.deps+1}):=
  extends_setRequest hanc rfl rfl
 obtain⟨r,hr,-⟩:=parents_schedule
  (s.setRequest parent {ancestor with deps:=ancestor.deps+1}) root
  ⟨none,false,[parent],depth,0⟩
 exact⟨_,rfl,hraise.schedule depth,hext.trans extends_schedule,mem_of_lookup_eq_some hr⟩

lemma addSubTrie_ok(h:SyncOk Good db₀ busy [] s)
 (hp:parent=zeroHash∨busy=some parent∧parent∈s.requests)(root:Bytes)(depth:ℕ):
 (s.addSubTrie sha3 root depth parent=none∧Broken Good db₀)∨
  ∃s',s.addSubTrie sha3 root depth parent=some s'∧SyncOk Good db₀ busy [] s'∧
   Extends sha3 s s'∧root∈s'.subTries:=by
 have hok:SyncOk Good db₀ busy [] {s with subTries:=root::s.subTries}:=h.of_eq rfl rfl
 have ha:Advances s {s with subTries:=root::s.subTries}:=⟨fun hc=>hc,fun hc=>
  .inr ⟨_,hc,Subset.refl _⟩⟩
 have hext (hroot:root=emptyRoot sha3∨Stored s.database root) :
  Extends sha3 s {s with subTries:=root::s.subTries}:=by
  refine⟨⟨ha,subset_cons_self _ _,fun hk=>?_⟩,rfl,fun hh=>hh⟩
  rcases mem_cons.1 hk with rfl|hk
  ·exact .inr (hroot.imp_right .inl)
  exact .inl hk
 unfold TrieSync.addSubTrie
 dsimp only
 split
 ·rename_i he
  exact .inr ⟨_,rfl,hok,hext (.inl he),mem_cons_self⟩
 rcases h.known_cases root with⟨hk,hst⟩|hk|⟨hk,hbroken⟩
 ·rw[hk]
  exact .inr ⟨_,rfl,hok,hext (.inr hst),mem_cons_self⟩
 ·rw[hk]
  obtain⟨s',hs',hok',hext',hmem⟩:=scheduleBelow_ok sha3 hok hp root depth
  have hsub:=Subset.trans (subset_cons_self root s.subTries) hext'.recorded
  refine .inr ⟨s',hs',hok',⟨⟨ha.trans hext'.advances,hsub,fun hk=>?_⟩,hext'.database,
   fun hh=>hext'.holds hh⟩,hext'.recorded mem_cons_self⟩
  rcases hext'.tracked hk with hk|ht
  ·rcases mem_cons.1 hk with rfl|hk
   ·exact .inr (.inr (.inr hmem))
   exact .inl hk
  exact .inr ht
 rw[hk]
 exact .inl ⟨rfl,hbroken⟩

variable {hash:Bytes}

lemma Holds.mem(h:Holds s hash d):hash∈s.requests:=by
 obtain⟨r,hr,-⟩:=h
 exact mem_of_lookup_eq_some hr

lemma addSubTries_ok(ts:List SubTrie)(h:SyncOk Good db₀ (some hash) [] s)
 (hts:∀t∈ts,t.parent=hash∨t.parent=zeroHash)(hd:Holds s hash d):
 (ts.foldlM (fun s t=>s.addSubTrie sha3 t.root t.depth t.parent) s=none∧Broken Good db₀)∨
  ∃s',ts.foldlM (fun s t=>s.addSubTrie sha3 t.root t.depth t.parent) s=some s'∧
   SyncOk Good db₀ (some hash) [] s'∧Extends sha3 s s':=by
 induction ts generalizing s with
 | nil=>exact .inr ⟨s,rfl,h,.refl s⟩
 | cons t ts ih=>
  have hparent:t.parent=zeroHash∨some hash=some t.parent∧t.parent∈s.requests:=by
   rcases hts t mem_cons_self with he|hz
   ·rw[he]
    exact .inr ⟨rfl,hd.mem⟩
   exact .inl hz
  rw[foldlM_cons]
  rcases addSubTrie_ok h hparent t.root t.depth with⟨hs,hbroken⟩|⟨s₁,hs,hok,hext,-⟩
  ·rw[hs]
   exact .inl ⟨rfl,hbroken⟩
  rw[hs,bind_eq_bind,bind_some]
  rcases ih hok (fun u hu=>hts u (mem_cons_of_mem _ hu)) (hext.holds hd) with
   hnone | ⟨s',hs',hok',hext'⟩
  ·exact .inl hnone
  exact .inr ⟨s',hs',hok',hext.trans hext'⟩

/-- Every reference among the children is in the database or requested. -/
def Covers (db:Db) (requests:List (Bytes × ℕ)) (cs:List (ℕ × Node × ℕ)):Prop:=
 ∀child∈cs,∀c,child.2.1=.hashNode c → Stored db c ∨ ∃depth,(c,depth)∈requests

variable (Good db₀ sha3) in
/-- What the loop over the children gives. -/
def Collects (callback:LeafCallback) (hash:Bytes) (cs:List (ℕ × Node × ℕ)) (s:TrieSync)
 (requests:List (Bytes × ℕ)):Prop:=
 (s.children sha3 callback hash cs requests=none ∧ Broken Good db₀) ∨
  ∃s' requests',s.children sha3 callback hash cs requests=some (s',requests') ∧
   SyncOk Good db₀ (some hash) [] s' ∧ Extends sha3 s s' ∧ requests⊆requests' ∧
   Covers s.database requests' cs

variable {callback:LeafCallback}

lemma Collects.cons{cs:List (ℕ × Node × ℕ)}{child:ℕ × Node × ℕ}{s₁:TrieSync}
 {requests requests₁:List (Bytes × ℕ)}
 (h:Collects Good db₀ sha3 callback hash cs s₁ requests₁)(hext:Extends sha3 s s₁)
 (hsub:requests⊆requests₁)
 (hchild:∀c,child.2.1=.hashNode c → Stored s.database c∨∃depth,(c,depth)∈requests₁)
 (heq:s.children sha3 callback hash (child::cs) requests = s₁.children sha3 callback hash cs requests₁):
 Collects Good db₀ sha3 callback hash (child::cs) s requests:=by
 unfold Collects
 rw[heq]
 rcases h with hnone|⟨s',requests',hs',hok,hext',hsub',hall⟩
 ·exact .inl hnone
 refine .inr ⟨s',requests',hs',hok,hext.trans hext',Subset.trans hsub hsub',?_⟩
 intro k hk c hc
 rcases mem_cons.1 hk with rfl|hk
 ·rcases hchild c hc with hst|⟨depth,hmem⟩
  ·exact .inl hst
  exact .inr ⟨depth,hsub' hmem⟩
 rw[←hext.database]
 exact hall k hk c hc

lemma children_ok(cs:List (ℕ × Node × ℕ))(h:SyncOk Good db₀ (some hash) [] s)
 (hcb:∀i leaf,∀t∈callback i leaf hash,t.parent=hash∨t.parent=zeroHash)
 (hd:Holds s hash d)(requests:List (Bytes × ℕ)):
 Collects Good db₀ sha3 callback hash cs s requests:=by
 induction cs generalizing s requests with
 | nil=>
  refine .inr ⟨s,requests,rfl,h,.refl s,Subset.refl _,fun _ hc=>?_⟩
  cases hc
 | cons child cs ih=>
  have hskip:=ih h hd requests
  obtain⟨i,node,depth⟩:=child
  cases node with
  | nil=>exact hskip.cons (.refl s) (Subset.refl _) (fun c hc=>by cases hc) rfl
  | shortNode | fullNode=>
   exact hskip.cons (.refl s) (Subset.refl _) (fun c hc=>by cases hc) rfl
  | valueNode leaf=>
   rcases addSubTries_ok (callback i leaf hash) h (hcb i leaf) hd with
    ⟨hs,hbroken⟩ | ⟨s₁,hs,hok,hext⟩
   ·refine .inl ⟨?_,hbroken⟩
    rw[TrieSync.children,hs]
    rfl
   refine (ih hok (hext.holds hd) requests).cons hext (Subset.refl _)
    (fun c hc=>by cases hc) ?_
   rw[TrieSync.children,hs]
   rfl
  | hashNode c=>
   rcases h.known_cases c with⟨hk,hst⟩|hk|⟨hk,hbroken⟩
   ·refine hskip.cons (.refl s) (Subset.refl _) (fun c' hc=>.inl ?_) ?_
    ·cases hc
     exact hst
    rw[TrieSync.children,hk]
    rfl
   ·refine (ih h hd (requests++[(c,depth)])).cons (.refl s) (subset_append_left _ _)
     (fun c' hc=>.inr ⟨depth,?_⟩) ?_
    ·cases hc
     exact mem_append_right _ mem_cons_self
    rw[TrieSync.children,hk]
    rfl
   refine .inl ⟨?_,hbroken⟩
   rw[TrieSync.children,hk]
   rfl

/-- References that were owed for the children are entered. -/
lemma scheduleAll_ok(requests:List (Bytes × ℕ))
 (h:SyncOk Good db₀ (some hash) (replicate requests.length hash) s):
 ∃s',requests.foldl (fun s child=>
  s.schedule child.1 ⟨none,false,[hash],child.2,0⟩) s=s'∧
  SyncOk Good db₀ (some hash) [] s'∧Extends sha3 s s'∧
  (∀r,s.requests.lookup hash=some r→∃ps,
   s'.requests.lookup hash=some {r with parents:=r.parents++ps})∧
  ∀c∈requests,Stored s'.database c.1∨∃r,s'.requests.lookup c.1=some r∧hash∈r.parents:=by
 induction requests generalizing s with
 | nil=>
  refine⟨s,rfl,h,.refl s,fun r hr=>⟨[],?_⟩,fun c hc=>by cases hc⟩
  rw[append_nil]
  exact hr
 | cons child requests ih=>
  have hstep:SyncOk Good db₀ (some hash) (replicate requests.length hash)
   (s.schedule child.1 ⟨none,false,[hash],child.2,0⟩):=
   SyncOk.schedule (show SyncOk Good db₀ (some hash)
    ([hash]++replicate requests.length hash) s from h) child.2
  obtain⟨s',hs',hok,hext,hbusy,hall⟩:=ih hstep
  refine⟨s',hs',hok,extends_schedule.trans hext,fun r hr=>?_,fun c hc=>?_⟩
  ·obtain⟨ps,hps⟩:=lookup_schedule child.1 ⟨none,false,[hash],child.2,0⟩ hr
   obtain⟨ps',hps'⟩:=hbusy _ hps
   refine⟨ps++ps',?_⟩
   rw[hps',append_assoc]
  rcases mem_cons.1 hc with rfl|hc
  ·obtain⟨r,hr,hsub⟩:=parents_schedule s c.1 ⟨none,false,[hash],c.2,0⟩
   rcases hext.advances.kept hr with hst|⟨r',hr',hsub'⟩
   ·exact .inl hst
   exact .inr ⟨r',hr',hsub' (hsub mem_cons_self)⟩
  exact hall c hc

/-- A decoded node has children, and all its references are among them. -/
lemma childNodes_direct(hn:Ends (decodeNode d) n)(depth:ℕ):
 ∃cs,childNodes depth n=some cs∧∀c,Refers n c→∃child∈cs,child.2.1=.hashNode c:=by
 have hkind:=decodeNested_ends (P:=fun _=>True) hn (fun _ _ _ _ _ _ _ _=>trivial)
  (fun _=>trivial) trivial
 rcases hkind with⟨key,val,rfl,-⟩|⟨slots,rfl,-⟩
 ·refine⟨_,rfl,fun c hc=>⟨_,mem_cons_self,?_⟩⟩
  rcases refers_direct hn hc with⟨key',he⟩|⟨slots,i,he,-⟩
  ·cases he
   rfl
  cases he
 refine⟨_,rfl,fun c hc=>?_⟩
 rcases refers_direct hn hc with⟨key,he⟩|⟨slots',i,he,hi⟩
 ·cases he
 cases he
 refine⟨(i.val,slots i,depth+1),mem_filterMap.2 ⟨i,mem_finRange i,?_⟩,hi⟩
 rw[hi]
 rfl

variable {item:SyncResult}

/-- The callback adds sub-tries under the parent it is given, or under none. -/
def Obeys (callback:LeafCallback) (hash:Bytes):Prop:=
 ∀i leaf,∀t∈callback i leaf hash,t.parent=hash ∨ t.parent=zeroHash

lemma processItem_ok(h:SyncOk Good db₀ none [] s)(hgood:Good item.hash item.data)
 (hcb:Obeys callback item.hash):
 (s.processItem sha3 item callback=none∧Broken Good db₀)∨
  ∃s' err,s.processItem sha3 item callback=some (s',err)∧
   SyncOk Good db₀ none [] s'∧Progress sha3 s s':=by
 unfold TrieSync.processItem
 rcases hreq:s.requests.lookup item.hash with _|req
 ·exact .inr ⟨s,_,rfl,h,.refl s⟩
 have hraw:¬req.raw=true:=by
  rw[h.plain hreq]
  exact Bool.false_ne_true
 dsimp only
 rw[if_neg hraw]
 have hok:SyncOk Good db₀ (some item.hash) []
  (s.setRequest item.hash {req with data:=some item.data}):=
  h.setRequest (fun i hi=>by cases hi) hreq rfl rfl (fun _ _=>rfl) rfl
 have ha:Advances s (s.setRequest item.hash {req with data:=some item.data}):=
  advances_setRequest hreq (Subset.refl _)
 rcases hn:(decodeNode item.data).run with _|(e|n)
 ·exact .inl ⟨rfl,item.hash,item.data,.inr hgood,hn⟩
 ·exact .inr ⟨s,_,rfl,h,.refl s⟩
 obtain⟨cs,hcs,hrefs⟩:=childNodes_direct hn req.depth
 dsimp only
 rw[hcs,bind_eq_bind,bind_some]
 have hcollects:Collects Good db₀ sha3 callback item.hash cs _ []:=
  children_ok cs hok hcb ⟨_,lookup_setRequest,rfl⟩ []
 rcases hcollects with⟨hnone,hbroken⟩|⟨s₁,requests,hs1,hok1,hext,-,hcovers⟩
 ·rw[hnone]
  exact .inl ⟨rfl,hbroken⟩
 obtain⟨r,hr,hdata⟩:=hext.holds ⟨_,lookup_setRequest,rfl⟩
 have hprog:Progress sha3 s s₁:=(progress_of_advances ha rfl).trans hext.toProgress
 rw[hs1,bind_eq_bind,bind_some]
 dsimp only
 rw[hr,bind_eq_bind,bind_some]
 split
 ·rename_i hdone
  have hdel:Delivered Good s₁ item.hash item.data:=by
   refine⟨hgood,n,hn,fun c hc=>.inl ?_⟩
   obtain⟨child,hchild,he⟩:=hrefs c hc
   rcases hcovers child hchild c he with hst|⟨depth,hmem⟩
   ·exact hext.advances.stored hst
   rw[length_eq_zero_iff.1 hdone.1]at hmem
   cases hmem
  obtain⟨s₂,hs2,hok2,ha2,-,ht2⟩:=commits s₁.pending hok1 hr hdone.2 hdata hdel le_rfl
  rw[hs2]
  exact .inr ⟨s₂,none,rfl,hok2,hprog.trans (progress_of_advances ha2 ht2)⟩
 rename_i hopen
 obtain⟨s₂,hs2,hok2,hext2,hbusy,hall⟩:=scheduleAll_ok requests (raise hok1 hr requests.length)
 obtain⟨ps,hps⟩:=hbusy _ lookup_setRequest
 have hraise:Extends sha3 s₁
  (s₁.setRequest item.hash {r with deps:=r.deps+requests.length}):=
  extends_setRequest hr rfl rfl
 have hprog2:Progress sha3 s s₂:=hprog.trans (hraise.trans hext2).toProgress
 have hdeps:r.deps+requests.length≠0:=by
  have:=hok1.counted hr
  rintro hzero
  exact hopen ⟨by omega,by omega⟩
 have hdel:Delivered Good s₂ item.hash item.data:=by
  refine⟨hgood,n,hn,fun c hc=>?_⟩
  obtain⟨child,hchild,he⟩:=hrefs c hc
  rcases hcovers child hchild c he with hst|⟨depth,hmem⟩
  ·exact .inl (hext2.advances.stored (hext.advances.stored hst))
  exact hall _ hmem
 rw[hs2]
 exact .inr ⟨s₂,none,rfl,hok2.release hps (settled_of_delivered hdata hdeps hdel),hprog2⟩

/-- The results stand for their hashes and come with callbacks that obey. -/
def Admissible (Good:Bytes→Bytes→Prop) (results:List (SyncResult × LeafCallback)):Prop:=
 ∀r∈results,Good r.1.hash r.1.data ∧ Obeys r.2 r.1.hash

lemma process_ok(results:List (SyncResult × LeafCallback))(i:ℕ)
 (h:SyncOk Good db₀ none [] s)(hres:Admissible Good results):
 (s.process sha3 i results=none∧Broken Good db₀)∨∃s' err,s.process sha3 i results=some (s',err)∧
   SyncOk Good db₀ none [] s'∧Progress sha3 s s':=by
 induction results generalizing s i with
 | nil=>exact .inr ⟨s,none,rfl,h,.refl s⟩
 | cons result results ih=>
  obtain⟨item,callback⟩:=result
  obtain⟨hgood,hcb⟩:=hres _ mem_cons_self
  rw[TrieSync.process]
  rcases processItem_ok h hgood hcb with⟨hnone,hbroken⟩|⟨s₁,err,hs1,hok1,hprog1⟩
  ·rw[hnone]
   exact .inl ⟨rfl,hbroken⟩
  rw[hs1,bind_eq_bind,bind_some]
  rcases err with _|e
  ·rcases ih (i+1) hok1 (fun r hr=>hres r (mem_cons_of_mem _ hr)) with
    hnone | ⟨s₂,err,hs2,hok2,hprog2⟩
   ·exact .inl hnone
   exact .inr ⟨s₂,err,hs2,hok2,hprog1.trans hprog2⟩
  exact .inr ⟨s₁,_,rfl,hok1,hprog1⟩

end GoCoupe.TrieSyncCalls
