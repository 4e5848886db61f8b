import GoCoupe.TrieSyncCalls
import Mathlib.Logic.Relation

/-!
# Runs of the trie synchronisation

A run makes calls of `Missing` and `Process` in any order, with any batches. As long as the
data hash to what was asked for and leaf callbacks use the parent they are given, no node is
stored before its children.
-/

namespace GoCoupe.TrieSyncRuns
open HexPrefixKeys RlpRawSplitting TrieNodes EmbeddedNodes TrieSynchronisation TrieSyncInvariants Finmap
open List Option
 TrieSyncCalls
open TrieOperations.Trie (emptyRoot zeroHash)

def Child (db:Db) (h c:Bytes):Prop:=∃d n,db h=some d ∧ Ends (decodeNode d) n ∧ Refers n c

/-- The hash occurs in the trie that the database holds under the root. -/
def Reach (db:Db):Bytes→Bytes→Prop:=Relation.ReflTransGen (Child db)

/-- Every node of the database has all its descendants in the database. -/
def Complete (db:Db):Prop:=∀h c,Stored db h→Reach db h c → Stored db c

lemma complete_iff_closed(db:Db):Complete db↔Closed db:=by
 constructor
 ·intro hdb h d n c hd hn hc
  exact hdb h c ⟨d,n,hd,hn⟩ (.single ⟨d,n,hd,hn,hc⟩)
 intro hdb h c hst hreach
 induction hreach with
 | refl=>exact hst
 | tail _ hchild _=>
  obtain⟨d,n,hd,hn,hc⟩:=hchild
  exact hdb _ d n _ hd hn hc

inductive SyncRun (sha3:Bytes→Bytes) (Accepts:SyncResult × LeafCallback→Prop) (db₀:Db)
 (root:Bytes):TrieSync→Prop
 | new {s:TrieSync} (h:TrieSync.newTrieSync sha3 root db₀=some s):SyncRun sha3 Accepts db₀ root s
 | missing {s:TrieSync} (max:ℕ) (h:SyncRun sha3 Accepts db₀ root s) :
  SyncRun sha3 Accepts db₀ root (s.missing max).2
 | process {s s':TrieSync} {results:List (SyncResult × LeafCallback)}
  {err:Option (ℕ × SyncError)} (h:SyncRun sha3 Accepts db₀ root s)
  (hres:∀r∈results,Accepts r) (hs:s.process sha3 0 results=some (s',err)) :
  SyncRun sha3 Accepts db₀ root s'

/-- The data, one of those in `E`, hash to what was asked for. -/
def Answers (sha3:Bytes→Bytes) (E:Set Bytes) (h d:Bytes):Prop:=sha3 d=h ∧ d∈E

def Fair (sha3:Bytes→Bytes) (E:Set Bytes) (r:SyncResult × LeafCallback):Prop:=
 Answers sha3 E r.1.hash r.1.data ∧ Obeys r.2 r.1.hash

def Addressed (sha3:Bytes→Bytes) (E:Set Bytes) (db:Db):Prop:=
 ∀h d n,db h=some d→Ends (decodeNode d) n → Answers sha3 E h d

section Runs

variable {sha3:Bytes→Bytes} {E:Set Bytes} {db₀:Db} {root:Bytes} {s:TrieSync}

structure RunOk (sha3:Bytes→Bytes) (E:Set Bytes) (db₀:Db) (root:Bytes) (s:TrieSync) :
 Prop where
 sync:SyncOk (Answers sha3 E) db₀ none [] s
 tracked:∀t∈s.subTries,Tracked sha3 s t
 recorded:root∈s.subTries

lemma syncOk_initial(Good:Bytes→Bytes→Prop)(hdb:Closed db₀):
 SyncOk Good db₀ none [] ⟨db₀,∅,[],[]⟩:=by
 refine⟨fun h=>?_,fun h=>?_,fun h=>?_,fun h=>?_,fun h=>?_,hdb,.inl⟩
 ·rw[lookup_empty]at h
  cases h
 ·rw[lookup_empty]at h
  cases h
 ·cases h
 ·rw[lookup_empty]at h
  cases h
 rw[lookup_empty]at h
 cases h

lemma newTrieSync_ok(sha3:Bytes→Bytes)(E:Set Bytes)(hdb:Closed db₀)(root:Bytes):
 (TrieSync.newTrieSync sha3 root db₀=none∧Broken (Answers sha3 E) db₀)∨
  ∃s,TrieSync.newTrieSync sha3 root db₀=some s∧RunOk sha3 E db₀ root s:=by
 have hinit:=syncOk_initial (Answers sha3 E) hdb
 rcases addSubTrie_ok hinit (.inl rfl) root 0 with hnone|⟨s,hs,hok,hext,hmem⟩
 ·exact .inl hnone
 exact .inr ⟨s,hs,hok,fun t ht=>(hext.tracked ht).resolve_left not_mem_nil,hmem⟩

lemma SyncRun.runOk(hdb:Closed db₀)(h:SyncRun sha3 (Fair sha3 E) db₀ root s):
 RunOk sha3 E db₀ root s:=by
 induction h with
 | new hs=>
  rcases newTrieSync_ok sha3 E hdb root with⟨hnone,-⟩|⟨s',hs',hok⟩
  ·rw[hnone]at hs
   cases hs
  rw[hs']at hs
  cases hs
  exact hok
 | missing max _ ih=>exact⟨ih.sync.of_eq rfl rfl,ih.tracked,ih.recorded⟩
 | process _ hres hs ih=>
  rcases process_ok _ 0 ih.sync hres with⟨hnone,-⟩|⟨s',err,hs',hok,hprog⟩
  ·rw[hnone]at hs
   cases hs
  rw[hs']at hs
  cases hs
  refine⟨hok,fun t ht=>?_,hprog.recorded ih.recorded⟩
  rcases hprog.tracked ht with ht|ht
  ·exact (ih.tracked t ht).mono hprog.advances
  exact ht

/-- Without pending requests all added tries are in the database. -/
lemma RunOk.stored(h:RunOk sha3 E db₀ root s)(hp:s.pending=0)
 (ht:t∈s.subTries)(hne:t≠emptyRoot sha3):Stored s.database t:=by
 rcases h.tracked t ht with he|hst|hmem
 ·exact absurd he hne
 ·exact hst
 have hkey:=mem_keys.2 hmem
 rw[Finset.card_eq_zero.1 hp]at hkey
 exact absurd hkey (Finset.notMem_empty t)

section

variable (h:RunOk sha3 E db₀ root s) {T:Db} (hinj:Set.InjOn sha3 E)
 (hdb:Addressed sha3 E db₀) (hT:Addressed sha3 E T)

include h hinj hdb hT

/-- What the database holds under a hash is what any trie has there. -/
lemma RunOk.agrees(hst:Stored s.database c)(hd:T c=some d)
 (hn:Ends (decodeNode d) n):s.database c=some d:=by
 obtain⟨d',n',hd',hn'⟩:=hst
 have hc':Answers sha3 E c d':=by
  rcases h.sync.origin hd' with h0|hgood
  ·exact hdb c d' n' h0 hn'
  exact hgood
 have hc:=hT c d n hd hn
 rw[hd',hinj hc'.2 hc.2 (hc'.1.trans hc.1.symm)]

/-- Every node of a trie is in a database that has its root. -/
lemma RunOk.reach(hst:Stored s.database t)(hreach:Reach T t c):Stored s.database c:=by
 induction hreach with
 | refl=>exact hst
 | tail _ hchild ih=>
  obtain⟨d,n,hd,hn,hc⟩:=hchild
  exact h.sync.closed _ d n _ (h.agrees hinj hdb hT ih hd hn) hn hc

end

/-- After every call the nodes of the database have all their descendants there. Once nothing is
pending this holds of the root and of all sub-tries that were added: their nodes are in the
database, with the data of the trie if hashes do not collide. No call panics on data that the
decoder accepts or refuses. -/
theorem children_stored_before_parents (hdb : Complete db₀)
    (hrun : SyncRun sha3 (Fair sha3 E) db₀ root s) :
    Complete s.database ∧ root ∈ s.subTries ∧
    (s.pending = 0 → ∀ t ∈ s.subTries, t ≠ emptyRoot sha3 →
      (∀ c, Reach s.database t c → Stored s.database c) ∧
      ∀ T : Db, Set.InjOn sha3 E → Addressed sha3 E db₀ → Addressed sha3 E T →
        ∀ c, Reach T t c → Stored s.database c ∧
          ∀ d n, T c = some d → Ends (decodeNode d) n → s.database c = some d) ∧
    ((∀ h d, db₀ h = some d → (decodeNode d).run ≠ none) →
      (∀ d ∈ E, (decodeNode d).run ≠ none) →
      ∀ results, (∀ r ∈ results, Fair sha3 E r) →
        ∃ s' err, s.process sha3 0 results = some (s', err)) := by
 have hok:=hrun.runOk ((complete_iff_closed db₀).1 hdb)
 have hcomplete:=(complete_iff_closed s.database).2 hok.sync.closed
 refine⟨hcomplete,hok.recorded,fun hp t ht hne=>⟨fun c hc=>?_,?_⟩,?_⟩
 · exact hcomplete t c (hok.stored hp ht hne) hc
 · intro T hinj hdb0 hT c hc
   have hst:=hok.reach hinj hdb0 hT (hok.stored hp ht hne) hc
   exact⟨hst,fun d n hd hn=>hok.agrees hinj hdb0 hT hst hd hn⟩
 intro h0 hE results hres
 rcases process_ok results 0 hok.sync hres with ⟨-,h,d,hd,hn⟩|⟨s',err,hs',-⟩
 · rcases hd with hd|hd
   · exact absurd hn (h0 h d hd)
   exact absurd hn (hE d hd.2)
 exact⟨s',err,hs'⟩

end Runs

/-- The counter of a request is the number of requests that wait to be its children. Its parents
are still there, and one that has its data waits for a child. -/
theorem dependencies_exact (sha3 : Bytes → Bytes) (E : Set Bytes) (db₀ : Db) (root : Bytes)
    (s : TrieSync) (hdb : Complete db₀) (hrun : SyncRun sha3 (Fair sha3 E) db₀ root s) :
    ∀ j r, s.requests.lookup j = some r →
      r.deps = ReferenceCounts.references Request.parents s.requests j ∧ (∀ p ∈ r.parents, p ∈ s.requests) ∧
        (r.data = none ↔ r.deps = 0) := by
 intro j r hj
 have hok:=(hrun.runOk ((complete_iff_closed db₀).1 hdb)).sync
 obtain⟨hnone,hsome⟩:=hok.settled hj nofun
 refine⟨by simpa using hok.counted hj,fun p hp=>hok.linked hj hp,hnone,fun hdeps=>?_⟩
 cases hd:r.data with
 | none=>rfl
 | some d=>exact absurd hdeps (hsome d hd).1

def processAll (sha3:Bytes→Bytes):List (List (SyncResult × LeafCallback))→TrieSync→Option TrieSync
 | [],s=>some s
 | batch::batches,s=>do
  let (s,_) ← s.process sha3 0 batch
  processAll sha3 batches s

lemma SyncRun.processAll
 (h:SyncRun sha3 Accepts db₀ root s)(hres:∀batch∈batches,∀r∈batch,Accepts r)
 (hs:TrieSyncRuns.processAll sha3 batches s=some s'):SyncRun sha3 Accepts db₀ root s':=by
 induction batches generalizing s with
 | nil=>
  cases hs
  exact h
 | cons batch batches ih=>
  rw[TrieSyncRuns.processAll]at hs
  obtain⟨⟨s₁,err⟩,hs1,hs⟩:=bind_eq_some_iff.1 hs
  exact ih (h.process (hres batch mem_cons_self) hs1)
   (fun b hb=>hres b (mem_cons_of_mem _ hb)) hs

namespace TwoLevels

/-! A full node with two leaves below it. For the first leaf the callback adds a further trie. -/

def hash (d:Bytes):Bytes:=List.replicate 31 0++[UInt8.ofNat d.length]

def subData:Bytes:=[0xc2,0x20,0x07]

def lowData:Bytes:=[0xc4,0x20,0x82,0x07,0x07]

def sideData:Bytes:=[0xc5,0x20,0x83,0x07,0x07,0x07]

def topData:Bytes:=[0xf8,0x51,0xa0]++hash sideData++[0xa0]++hash lowData++List.replicate 15 0x80

def result (d:Bytes):SyncResult:=⟨hash d,d⟩

def ignore:LeafCallback:=fun _ _ _=>[]

/-- Adds the trie under the parent it is given. -/
def addBelow:LeafCallback:=fun _ _ parent=>[⟨hash subData,64,parent⟩]

/-- Adds the trie under another request. -/
def addAside:LeafCallback:=fun _ _ _=>[⟨hash subData,64,hash lowData⟩]

def emptyDb:Db:=fun _=>none

lemma complete_emptyDb:Complete emptyDb:=by
 intro h c hst
 obtain⟨d,n,hd,-⟩:=hst
 cases hd

def fairRun:Option TrieSync:=
 (TrieSync.newTrieSync hash (hash topData) emptyDb).bind
  (processAll hash [[(result topData,ignore)],[(result sideData,addBelow),
   (result lowData,ignore)],[(result subData,ignore)]])

def asideRun:Option TrieSync:=
 (TrieSync.newTrieSync hash (hash topData) emptyDb).bind
  (processAll hash [[(result topData,ignore)],[(result sideData,addAside)],[(result subData,ignore)]])

lemma fairRun_ends:fairRun.map (·.pending)=some 0:=by
 decide +kernel

lemma asideRun_ends:asideRun.map (fun s=>(s.pending,s.database (hash topData),
 known s.database (hash lowData)))=some (0,some topData,some false):=by
 decide +kernel

lemma run_exists
 (hs:(TrieSync.newTrieSync hash (hash topData) emptyDb).bind (processAll hash batches)=some s)
 (hres:∀batch∈batches,∀r∈batch,Accepts r):
 SyncRun hash Accepts emptyDb (hash topData) s:=by
 obtain⟨s₀,hs0,hs⟩:=bind_eq_some_iff.1 hs
 exact (SyncRun.new hs0).processAll hres hs

def samples:Set Bytes:={topData,sideData,lowData,subData}

lemma fair_below:Fair hash samples (result sideData,addBelow):=by
 refine⟨⟨rfl,.inr (.inl rfl)⟩,fun i leaf t ht=>.inl ?_⟩
 rw[mem_singleton.1 ht]

lemma fair_ignore(hd:d∈samples):Fair hash samples (result d,ignore):=
 ⟨⟨rfl,hd⟩,fun _ _ _ ht=>absurd ht not_mem_nil⟩

theorem children_stored_before_parents_below :
    ∃ s, SyncRun hash (Fair hash samples) emptyDb (hash topData) s ∧ Complete s.database ∧
      ∀ c, Reach s.database (hash topData) c → Stored s.database c := by
 obtain⟨s,hs,hp⟩:=map_eq_some_iff.1 fairRun_ends
 have hrun:SyncRun hash (Fair hash samples) emptyDb (hash topData) s:=by
  refine run_exists hs ?_
  simp only[forall_mem_cons,not_mem_nil,IsEmpty.forall_iff,implies_true,and_true]
  exact⟨fair_ignore (.inl rfl),⟨fair_below,fair_ignore (.inr (.inr (.inl rfl)))⟩,
   fair_ignore (.inr (.inr (.inr rfl)))⟩
 obtain⟨hcomplete,hroot,hdone,-⟩:=children_stored_before_parents complete_emptyDb hrun
 exact⟨s,hrun,hcomplete,(hdone hp _ hroot (by decide +kernel)).1⟩

/-- With the data of the full node its request waits for both leaves. -/
theorem dependencies_exact_top : ∃ s, (TrieSync.newTrieSync hash (hash topData) emptyDb).bind
    (processAll hash [[(result topData, ignore)]]) = some s ∧
      ∀ r, s.requests.lookup (hash topData) = some r →
        r.deps = ReferenceCounts.references Request.parents s.requests (hash topData) := by
 have hsome:((TrieSync.newTrieSync hash (hash topData) emptyDb).bind
  (processAll hash [[(result topData,ignore)]])).isSome:=by decide +kernel
 obtain⟨s,hs⟩:=isSome_iff_exists.1 hsome
 have hrun:SyncRun hash (Fair hash samples) emptyDb (hash topData) s:=
  run_exists hs (by simpa using fair_ignore (.inl rfl))
 exact⟨s,hs,fun r hr=>(dependencies_exact _ _ _ _ s complete_emptyDb hrun _ r hr).1⟩

def slotHash (i:Nibble):Node→Option Bytes
 | .fullNode cs=>
  match cs i with
  | .hashNode h=>some h
  | _=>none
 | _=>none

lemma top_refers:∃n,Ends (decodeNode topData) n∧Refers n (hash lowData):=by
 have hslot:(decodeNode topData).run.map (·.toOption.bind (slotHash 1)) =
  some (some (hash lowData)):=by
  decide +kernel
 obtain⟨r,hr,hs⟩:=map_eq_some_iff.1 hslot
 rcases r with e|n
 ·cases hs
 refine⟨n,hr,?_⟩
 replace hs:slotHash 1 n=some (hash lowData):=hs
 unfold slotHash at hs
 split at hs
 ·split at hs
  ·rename_i cs h hcs
   cases hs
   refine .full (i:=1) ?_
   rw[hcs]
   exact .hash _
  cases hs
 cases hs

/-- A callback that adds a trie under a request that has no data yet makes the scheduler store
an empty value for that request, and then its parent. -/
theorem parent_stored_without_child :
    ∃ s, SyncRun hash (fun r => hash r.1.data = r.1.hash) emptyDb (hash topData) s ∧
      s.pending = 0 ∧ Complete emptyDb ∧ ¬ Complete s.database := by
 obtain⟨s,hs,hends⟩:=map_eq_some_iff.1 asideRun_ends
 obtain⟨hp,htop,hlow⟩:s.pending=0 ∧ s.database (hash topData)=some topData ∧
  known s.database (hash lowData)=some false:=by
  simpa only[Prod.mk.injEq] using hends
 refine⟨s,run_exists hs ?_,hp,complete_emptyDb,fun hcomplete=>?_⟩
 · simp only[forall_mem_cons,not_mem_nil,IsEmpty.forall_iff,implies_true,and_true]
   exact⟨rfl,rfl,rfl⟩
 obtain⟨n,hn,href⟩:=top_refers
 have hlow':=hcomplete (hash topData) (hash lowData) ⟨topData,n,htop,hn⟩
  (.single ⟨topData,n,htop,hn,href⟩)
 rw[hlow'.known] at hlow
 cases hlow

end TwoLevels

end GoCoupe.TrieSyncRuns
