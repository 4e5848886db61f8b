import GoCoupe.TrieMappings

/-!
# Sessions on a trie

A session makes `Update`, `Delete`, `Get`, `Hash` and `Commit` calls, with `New` on an earlier
committed root in between. The abstract session keeps a mapping and the mappings that were
committed.
-/

namespace GoCoupe.TrieSessions
open PatriciaTrees HexPrefixKeys TrieNodes TrieNodeCodec TrieOperations AdaptiveReplacementCache Option Nat
open List
open TrieRefinement TrieHashing TrieMappings

inductive Op where
 | update (key value:Bytes)
 | delete (key:Bytes)
 | get (key:Bytes)
 | hash
 | commit
 | reopen (i:ℕ)

/-- Keys come from the given set and values can be stored. -/
def Op.Over (K:KeySet):Op→Prop
 | .update key value=>key∈K.keys ∧ value.length<2^62
 | .delete key=>key∈K.keys
 | .get key=>key∈K.keys
 | _=>True

structure Session where
 store:Store
 trie:Trie
 roots:List Bytes

def Session.start:Session where
 store:=⟨fun _=>none,Arc.new defaultCacheCapacity⟩
 trie:=⟨.nil⟩
 roots:=[]

/-- `none` is a panic, or an error of `New`. -/
def Session.step (sha3:Bytes→Bytes) (s:Session):Op→Option Session
 | .update key value=>
  (s.trie.update s.store key value).map (fun r=>⟨r.2,r.1,s.roots⟩)
 | .delete key=>(s.trie.delete s.store key).map (fun r=>⟨r.2,r.1,s.roots⟩)
 | .get key=>(s.trie.get s.store key).map (⟨·.2,s.trie,s.roots⟩)
 | .hash=>(s.trie.hash sha3).map (fun _=>s)
 | .commit=>
  (s.trie.commit sha3 s.store).map (fun r=>⟨r.2.2,r.2.1,s.roots++[r.1]⟩)
 | .reopen i=>
  match s.roots[i]? with
  | none=>some s
  | some root=>(Trie.new sha3 root s.store).map (⟨s.store,·,s.roots⟩)

def Session.run (sha3:Bytes→Bytes):List Op→Session→Option Session
 | [],s=>some s
 | op::ops,s=>s.step sha3 op>>=Session.run sha3 ops

structure History where
 current:Mapping
 saved:List Mapping

def History.start:History:=⟨fun _=>none,[]⟩

def History.step (p:History):Op→History
 | .update key value=>⟨p.current.write key value,p.saved⟩
 | .delete key=>⟨p.current.erase key,p.saved⟩
 | .get _=>p
 | .hash=>p
 | .commit=>⟨p.current,p.saved++[p.current]⟩
 | .reopen i=>⟨(p.saved[i]?).getD p.current,p.saved⟩

def History.run (ops:List Op) (p:History):History:=ops.foldl History.step p

def History.reached:List Op→History→List Mapping
 | [],p=>[p.current]
 | op::ops,p=>p.current::History.reached ops (p.step op)

lemma current_mem_reached(ops:List Op)(p:History):p.current∈p.reached ops:=by
 cases ops<;>simp[History.reached]

lemma run_mem_reached(ops:List Op)(p:History):(p.run ops).current∈p.reached ops:=by
 induction ops generalizing p with
 | nil=>simp[History.reached,History.run]
 | cons op ops ih=>exact mem_cons_of_mem _ (ih (p.step op))

def nodesOf (sha3:Bytes→Bytes) (ms:List Mapping):Set Bytes:=
 {e | ∃m∈ms,∃t,Represents t m ∧ e∈nodeEncodings sha3 t}

/-- A hash function as the trie needs it on the nodes it meets. The empty string, encoded
as a single byte, stands for the empty trie, and the zero hash for no trie at all. -/
structure CollisionFree (sha3:Bytes→Bytes) (E:Set Bytes):Prop where
 length:∀b,(sha3 b).length=32
 injective:Set.InjOn sha3 (insert [0x80] E)
 nonzero:∀e∈E,sha3 e≠Trie.zeroHash

variable {sha3:Bytes→Bytes} {E:Set Bytes}

/-- The database holds the whole trie with the given root. -/
def RootStored (sha3:Bytes→Bytes) (db:Db) (root:Bytes) (t:HexTree):Prop:=
 t=.empty ∧ root=Trie.emptyRoot sha3 ∨
  Shaped t ∧ root=sha3 (encoding sha3 t) ∧ db root=some (encoding sha3 t) ∧ Stored sha3 db t

lemma RootStored.mono
 (h:RootStored sha3 db root t)(hi:Includes db db'):RootStored sha3 db' root t:=
 h.imp_right fun ⟨ht,hr,hdb,hst⟩=>⟨ht,hr,hi _ _ hdb,hst.mono hi⟩

/-- A root node that stands for a tree; unlike below the root, a small tree can be
referred to by its hash. -/
def RootExpands (sha3:Bytes→Bytes) (db:Db) (n:Node) (t:HexTree):Prop:=
 Expands sha3 db n t ∨ ∃root,n=.hashNode root ∧ RootStored sha3 db root t

lemma encoding_ne_emptyString(hlen:∀b,(sha3 b).length=32)(he:e∈nodeEncodings sha3 t):e≠[0x80]:=by
 obtain⟨s,-,hs,rfl⟩:=he
 intro h
 have hdec:=mustDecodeNode_encoding hlen hs
 rw[h]at hdec
 cases hdec

lemma emptyString_not_node(hlen:∀b,(sha3 b).length=32)(ms:List Mapping):[0x80]∉nodesOf sha3 ms:=by
 rintro⟨m,-,t,-,he⟩
 exact encoding_ne_emptyString hlen he rfl

lemma CollisionFree.injOn(h:CollisionFree sha3 E):Set.InjOn sha3 E:=
 h.injective.mono (Set.subset_insert _ _)

/-- An operation that resolves a hash node can start at any root. -/
lemma keeps_root(hlen:∀b,(sha3 b).length=32)(op:ℕ→Store→Node→Option (β × Store))(P:Db→β→Prop)
 (hop:∀fuel st h,op (fuel+1) st (.hashNode h) = resolveHash st h>>=fun r=>op fuel r.2 r.1)
 (hspec:∀n st fuel,Expands sha3 st.db n t → StoreOk st→m+1≤fuel→Keeps st (op fuel st n) (P st.db))
 (h:RootExpands sha3 st.db n t)(hst:StoreOk st)(hempty:st.db (Trie.emptyRoot sha3)=none):
 Keeps st (op (m+2) st n) (P st.db):=by
 rcases h with h|⟨root,rfl,⟨rfl,rfl⟩|⟨ht,rfl,hdb,hs⟩⟩
 ·exact hspec n st _ h hst (le_succ _)
 ·rw[hop]
  refine ((resolveHash_spec hst _).2 hempty).bind ?_
  rintro _ st' hst' hdb rfl
  rw[←hdb]
  exact hspec _ st' _ .nil hst' le_rfl
 rw[hop]
 refine (resolveHash_stored hlen hst ht hdb).bind ?_
 rintro _ st' hst' hdb' rfl
 rw[←hdb']at hs ⊢
 exact hspec _ st' _ (expands_nodeOf ht hs) hst' le_rfl

section Calls

variable {K:KeySet} {m:Mapping} {t:HexTree} {trie:Trie} {st:Store}

lemma insert_keeps(hlen:∀b,(sha3 b).length=32)(ht:Represents t m)
 (h:RootExpands sha3 st.db trie.root t)(hst:StoreOk st)
 (hempty:st.db (Trie.emptyRoot sha3)=none)(k v:Bytes):
 Keeps st (TrieOperations.insert (Trie.fuelFor (compactHexDecode k)) st trie.root
  (compactHexDecode k) (.valueNode v))
  (Expands sha3 st.db · (t.insert (compactHexDecode k) v)):=by
 refine keeps_root hlen
  (fun f st n=>TrieOperations.insert f st n (compactHexDecode k) (.valueNode v))
  (fun db n=>Expands sha3 db n (t.insert (compactHexDecode k) v)) (fun f st h=>?_)
  (fun n st f hn hst hf=>insert_spec hlen v ht.normal (ht.fits k) hn hst hf)
  h hst hempty
 obtain⟨a,l,hl⟩:=exists_cons_of_ne_nil (compactHexDecode_ne_nil k)
 simp only[hl]
 rfl

variable (hlen:∀b,(sha3 b).length=32) (ht:Represents t m) (hm:m.Over K)
 (h:RootExpands sha3 st.db trie.root t) (hst:StoreOk st)
 (hempty:st.db (Trie.emptyRoot sha3)=none) {k:Bytes} (hk:k∈K.keys)

include hlen ht hm h hst hempty hk

lemma get_keeps:Keeps st (trie.get st k) (· = m k):=by
 refine keeps_root hlen (fun f st n=>getNode f st n (compactHexDecode k))
  (fun _ r=>r=m k) (fun f st h=>?_) (fun n st f hn hst hf=>?_) h hst hempty
 ·obtain⟨a,l,hl⟩:=exists_cons_of_ne_nil (compactHexDecode_ne_nil k)
  simp only[hl]
  rfl
 exact (getNode_walk hlen (ht.walk hm hk) hn hst hf).keeps rfl

lemma delete_keeps:Keeps st (TrieOperations.delete (Trie.fuelFor (compactHexDecode k)) st trie.root
  (compactHexDecode k)) (Expands sha3 st.db · (t.delete (compactHexDecode k))):=by
 refine (keeps_root hlen (fun f st n=>TrieOperations.delete f st n (compactHexDecode k))
  (fun db n=>Loaded n∧Expands sha3 db n (t.delete (compactHexDecode k)))
  (fun _ _ _=>rfl) (fun n st f hn hst hf=>?_) h hst hempty).imp fun _ hn=>hn.2
 exact (delete_walk hlen (ht.walk hm hk) hn hst hf).keeps rfl

end Calls

def rootHash (sha3:Bytes→Bytes):HexTree→Bytes
 | .empty=>Trie.emptyRoot sha3
 | t=>sha3 (encoding sha3 t)

lemma rootHash_shaped(h:Shaped t):rootHash sha3 t=sha3 (encoding sha3 t):=by
 cases h<;>rfl

lemma hashRoot_spec(h:RootExpands sha3 db₀ n t)(ht:t≠.empty → Shaped t):
 ∃es,(∀db,Trie.hashRoot sha3 ⟨n⟩ db = some (.hashNode (rootHash sha3 t),db.map (putAll sha3 es)))∧
  (∀e∈es,e∈nodeEncodings sha3 t)∧Covers sha3 db₀ es t∧
  (t≠.empty→encoding sha3 t∈es∨db₀ (sha3 (encoding sha3 t))=some (encoding sha3 t)):=by
 rcases h with h|⟨root,rfl,⟨rfl,rfl⟩|⟨hs,rfl,hdb,hst⟩⟩
 ·by_cases he:t=.empty
  ·subst he
   cases h with
   | nil=>
    exact⟨[],fun db=>by cases db<;>rfl,by simp,covers_empty db₀ [],by simp⟩
   | hash hs=>cases hs
  have hs:=ht he
  rw[rootHash_shaped hs]
  rcases h.loaded_or_hash with hl|⟨rfl,-,hbig,hst⟩
  ·obtain⟨es,hes⟩:=hash_root h hs hl
   refine⟨_,fun db=>?_,hes.mem,hes.covers,fun _=>.inl (by simp)⟩
   rw[←hes.result db]
   cases h with
   | nil=>exact absurd rfl he
   | _=>rfl
  exact⟨[],fun db=>by cases db<;>rfl,by simp,
   fun s hs hsh hb=>.inr (hst s hs hsh hb),fun _=>.inr (hst t (.refl t) hs hbig)⟩
 ·exact⟨[],fun db=>by cases db<;>rfl,by simp,covers_empty db₀ [],by simp⟩
 rw[rootHash_shaped hs]
 exact⟨[],fun db=>by cases db<;>rfl,by simp,
  fun s hsub hsh hb=>.inr (hst s hsub hsh hb),fun _=>.inr hdb⟩

structure Matches (sha3:Bytes→Bytes) (E:Set Bytes) (K:KeySet) (s:Session)
 (p:History):Prop where
 store:StoreOk s.store
 addressed:Addressed sha3 E s.store.db
 current:p.current.Over K ∧ ∃t,Represents t p.current ∧ RootExpands sha3 s.store.db s.trie.root t
 saved:Forall₂ (fun root m=>m.Over K ∧ ∃t,Represents t m ∧
  RootStored sha3 s.store.db root t) s.roots p.saved

lemma matches_start(K:KeySet):Matches sha3 E K Session.start History.start where
 store:=⟨Arc.ok_new (by decide),Arc.agrees_new _ _⟩
 addressed _ _ hdb:=nomatch hdb
 current:=⟨over_empty K,.empty,represents_empty,.inl .nil⟩
 saved:=.nil

lemma emptyRoot_missing(hE:CollisionFree sha3 E)(h80:[0x80]∉E)
 (h:Addressed sha3 E db):db (Trie.emptyRoot sha3)=none:=by
 cases hdb:db (Trie.emptyRoot sha3) with
 | none=>rfl
 | some e=>
  obtain⟨he,heq⟩:=h _ e hdb
  have:=hE.injective (Set.mem_insert _ _) (Set.mem_insert_of_mem _ he) heq
  exact absurd (this▸he) h80

section Steps

variable {K:KeySet} {s:Session} {p:History}

lemma Matches.replace(h:Matches sha3 E K s p){st:Store}(hst:StoreOk st)
 (hdb:st.db=s.store.db){n:Node}{m:Mapping}(hm:m.Over K){t:HexTree}
 (ht:Represents t m)(hn:RootExpands sha3 s.store.db n t):
 Matches sha3 E K ⟨st,⟨n⟩,s.roots⟩ ⟨m,p.saved⟩ where
 store:=hst
 addressed:=by
  rw[hdb]
  exact h.addressed
 current:=⟨hm,t,ht,by rw[hdb];exact hn⟩
 saved:=by
  rw[hdb]
  exact h.saved

lemma Matches.commit(hE:CollisionFree sha3 E)(h:Matches sha3 E K s p)
 (hcur:∀t,Represents t p.current→nodeEncodings sha3 t⊆E):
 ∃r,s.trie.commit sha3 s.store=some r∧
  Matches sha3 E K ⟨r.2.2,r.2.1,s.roots++[r.1]⟩ (p.step .commit):=by
 obtain⟨hm,t,ht,hroot⟩:=h.current
 obtain⟨es,hr,hmem,hcov,htop⟩:=hashRoot_spec hroot (ht.shaped hm)
 obtain⟨ha,hi,hput⟩:=putAll_spec hE.injOn h.addressed (fun e he=>hcur t ht (hmem e he))
 have hstored:RootStored sha3 (putAll sha3 es s.store.db) (rootHash sha3 t) t:=by
  by_cases he:t=.empty
  ·exact .inl ⟨he,by rw[he];rfl⟩
  have hs:=ht.shaped hm he
  refine .inr ⟨hs,rootHash_shaped hs,?_,fun s' hsub hsh hbig=>?_⟩
  ·rw[rootHash_shaped hs]
   exact (htop he).elim (hput _) (hi _ _)
  exact (hcov s' hsub hsh hbig).elim (hput _) (hi _ _)
 refine⟨(rootHash sha3 t,⟨.hashNode (rootHash sha3 t)⟩,
  ⟨putAll sha3 es s.store.db,s.store.cache⟩),?_,?_,ha,?_,?_⟩
 ·unfold Trie.commit
  rw[show s.trie.hashRoot sha3 (some s.store.db)=_ from hr (some s.store.db)]
  rfl
 ·refine⟨h.store.cache,h.store.agrees.mono fun k n hk=>?_⟩
  obtain⟨e,he,hd⟩:=bind_eq_some_iff.mp hk
  exact bind_eq_some_iff.mpr ⟨e,hi k e he,hd⟩
 ·exact⟨hm,t,ht,.inr ⟨_,rfl,hstored⟩⟩
 refine rel_append (h.saved.imp fun root m hrm=>?_) (.cons ⟨hm,t,ht,hstored⟩ .nil)
 exact⟨hrm.1,hrm.2.imp fun t ht=>⟨ht.1,ht.2.mono hi⟩⟩

lemma Matches.hash(h:Matches sha3 E K s p):
 ∃t,Represents t p.current∧(t≠.empty → Shaped t)∧s.trie.hash sha3=some (rootHash sha3 t):=by
 obtain⟨hm,t,ht,hroot⟩:=h.current
 obtain⟨es,hr,-⟩:=hashRoot_spec hroot (ht.shaped hm)
 refine⟨t,ht,ht.shaped hm,?_⟩
 unfold Trie.hash
 rw[show s.trie.hashRoot sha3 none=_ from hr none]
 rfl

section

variable (hE:CollisionFree sha3 E) (h80:[0x80]∉E) (h:Matches sha3 E K s p)

include hE h80 h

lemma Matches.delete(hk:k∈K.keys):
 ∃r,TrieOperations.delete (Trie.fuelFor (compactHexDecode k)) s.store s.trie.root
  (compactHexDecode k)=some r∧
  Matches sha3 E K ⟨r.2,⟨r.1⟩,s.roots⟩ ⟨p.current.erase k,p.saved⟩:=by
 obtain⟨hm,t,ht,hroot⟩:=h.current
 obtain⟨n,st,hr,hst,hdb,hn⟩:=delete_keeps hE.length ht hm hroot h.store
  (emptyRoot_missing hE h80 h.addressed) hk
 exact⟨(n,st),hr,h.replace hst hdb (hm.erase k) (ht.delete k) (.inl hn)⟩

lemma Matches.reopen(i:ℕ):∃s',s.step sha3 (.reopen i)=some s'∧Matches sha3 E K s' (p.step (.reopen i)):=by
 unfold Session.step History.step
 rcases forall₂_iff_get.mp h.saved with⟨hlen,hget⟩
 by_cases hi:i<s.roots.length
 ·obtain⟨hm,t,ht,hst⟩:=hget i hi (hlen▸hi)
  simp only[get_eq_getElem]at hm ht hst
  simp only[getElem?_eq_getElem hi,getElem?_eq_getElem (hlen▸hi),getD_some]
  generalize s.roots[i]=root at hst
  have hnew:∃n,Trie.new sha3 root s.store=some ⟨n⟩∧RootExpands sha3 s.store.db n t:=by
   unfold Trie.new
   rcases hst with⟨rfl,rfl⟩|⟨hs,hr,hdb,hst⟩
   ·exact⟨.nil,by simp,.inl .nil⟩
   have he:encoding sha3 t∈E:=(h.addressed _ _ hdb).1
   have hz:root≠Trie.zeroHash:=hr▸hE.nonzero _ he
   have hemp:root≠Trie.emptyRoot sha3:=by
    rintro rfl
    rw[emptyRoot_missing hE h80 h.addressed]at hdb
    cases hdb
   have hne:(encoding sha3 t).length≠0:=by
    have hdec:=mustDecodeNode_encoding hE.length hs
    intro h0
    rw[length_eq_zero_iff.mp h0]at hdec
    cases hdec
   refine⟨.hashNode root,?_,.inr ⟨root,rfl,.inr ⟨hs,hr,hdb,hst⟩⟩⟩
   rw[if_pos ⟨hz,hemp⟩,hdb]
   exact if_neg hne
  obtain⟨n,hn,hexp⟩:=hnew
  exact⟨_,by rw[hn];rfl,h.replace h.store rfl hm ht hexp⟩
 simp only[getElem?_eq_none (Nat.le_of_not_lt hi),
  getElem?_eq_none (hlen▸Nat.le_of_not_lt hi),getD_none]
 exact⟨s,rfl,h⟩

lemma Matches.step(hcur:∀t,Represents t p.current→nodeEncodings sha3 t⊆E){op:Op}(hop:op.Over K):
 ∃s',s.step sha3 op=some s'∧Matches sha3 E K s' (p.step op):=by
 obtain⟨hm,t,ht,hroot⟩:=h.current
 have hempty:=emptyRoot_missing hE h80 h.addressed
 cases op with
 | update k v=>
  unfold Session.step Trie.update
  by_cases hv:v=[]
  ·subst hv
   obtain⟨r,hr,hmat⟩:=h.delete hE h80 hop.1
   exact⟨_,by simp[hr],hmat⟩
  obtain⟨n,st,hr,hst,hdb,hn⟩:=insert_keeps hE.length ht hroot h.store hempty k v
  refine⟨⟨st,⟨n⟩,s.roots⟩,by simp[hr,hv],?_⟩
  exact h.replace hst hdb (hm.write hop.1 hop.2) (ht.insert _ hv) (.inl hn)
 | delete k=>
  obtain⟨r,hr,hmat⟩:=h.delete hE h80 hop
  exact⟨_,by simp[Session.step,Trie.delete,hr],hmat⟩
 | get k=>
  obtain⟨r,st,hr,hst,hdb,-⟩:=get_keeps hE.length ht hm hroot h.store hempty hop
  exact⟨_,by rw[Session.step,hr];rfl,h.replace hst hdb hm ht hroot⟩
 | hash=>
  obtain⟨_,-,-,hh⟩:=h.hash
  exact⟨s,by rw[Session.step,hh];rfl,h⟩
 | commit=>
  obtain⟨r,hr,hmat⟩:=h.commit hE hcur
  exact⟨_,by rw[Session.step,hr];rfl,hmat⟩
 | reopen i=>exact h.reopen hE h80 i

end

lemma Matches.run(hE:CollisionFree sha3 E)(h80:[0x80]∉E):
 ∀{s:Session} {p:History},Matches sha3 E K s p→(∀op∈ops,op.Over K) →nodesOf sha3 (p.reached ops)⊆E →
  ∃s',s.run sha3 ops=some s'∧Matches sha3 E K s' (p.run ops):=by
 induction ops with
 | nil=>exact fun h _ _=>⟨_,rfl,h⟩
 | cons op ops ih=>
  intro s p h hops hnodes
  obtain⟨s₁,hs1,h1⟩:=h.step hE h80
   (fun t ht e he=>hnodes ⟨_,current_mem_reached _ _,t,ht,he⟩) (hops op (by simp))
  have hrest:nodesOf sha3 ((p.step op).reached ops)⊆E:=by
   rintro e ⟨m,hm,he⟩
   exact hnodes ⟨m,mem_cons_of_mem _ hm,he⟩
  obtain⟨s',hs',h'⟩:=ih h1 (fun op' hop'=>hops op' (by simp[hop'])) hrest
  exact⟨s',by rw[Session.run,hs1];exact hs',h'⟩

end Steps

namespace Sample

/-- Short strings are padded and marked with their length. -/
def padHash (b:Bytes):Bytes:=
 if b.length<32 then UInt8.ofNat (b.length+1)::(b++replicate (31-b.length) 0)
 else replicate 32 255

lemma padHash_length(b:Bytes):(padHash b).length=32:=by
 unfold padHash
 split
 ·simp only[length_cons,length_append,length_replicate]
  omega
 simp

lemma padHash_injOn:Set.InjOn padHash {b | b.length<32}:=by
 intro b hb c hc h
 rw[Set.mem_ofPred_eq]at hb hc
 rw[padHash,padHash,if_pos hb,if_pos hc,cons.injEq]at h
 have hlen:b.length=c.length:=by
  have:=congrArg UInt8.toNat h.1
  rw[UInt8.toNat_ofNat',UInt8.toNat_ofNat']at this
  omega
 exact (append_inj h.2 hlen).1

lemma padHash_ne_zero(h:b.length<32):padHash b≠Trie.zeroHash:=by
 intro he
 rw[padHash,if_pos h]at he
 have:=congrArg UInt8.toNat (cons.inj he).1
 rw[UInt8.toNat_ofNat']at this
 simp at this
 omega

lemma small_child(hlen:∀b,(sha3 b).length=32)(hc:Shaped c)
 (hmem:(reference sha3 (collapsed sha3 c)).toItem∈xs)
 (hlt:(RlpEncoding.encodeList xs).length<32):(encoding sha3 c).length<32:=by
 have hle:=encode_length_le hmem
 have hstr:=le_encodeString_length (sha3 (encoding sha3 c))
 rw[hlen]at hstr
 rw[encode_reference hc]at hle
 by_contra hbig
 rw[if_neg hbig]at hle
 omega

/-- Below a small node there are only small nodes. -/
lemma small_nodes(hlen:∀b,(sha3 b).length=32)
 (ht:Shaped t):(encoding sha3 t).length<32→∀e∈nodeEncodings sha3 t,e.length<32:=by
 induction ht with
 | value=>
  rintro hlt e ⟨s,hs,hsh,rfl⟩
  rcases hs with _|⟨_,_ | _⟩
  ·exact hlt
  cases hsh
 | @inner k cs hk hin hkl hc ih=>
  rintro hlt e ⟨s,hs,hsh,rfl⟩
  cases hs with
  | refl=>exact hlt
  | edge _ hs=>
   rw[encoding_edge,length_append]at hlt
   refine ih (small_child hlen hc (mem_cons_of_mem _ (mem_singleton.mpr rfl))
    (lt_of_le_of_lt (le_add_left _ _) hlt)) _ ⟨s,hs,hsh,rfl⟩
 | @branch cs hc hv ih=>
  rintro hlt e ⟨s,hs,hsh,rfl⟩
  cases hs with
  | refl=>exact hlt
  | branch i hs=>
   by_cases he:cs i=.empty
   ·rw[he]at hs
    cases hs
    cases hsh
   by_cases hi:i=16
   ·obtain⟨v,-,-,hv⟩:=hv.resolve_left (hi▸he)
    rw[hi,hv]at hs
    cases hs
    cases hsh
   have hmem:(reference sha3 (collapsed sha3 (cs i))).toItem ∈
    branchIndices.map (slotItem sha3 cs)++[slotItem sha3 cs 16]:=by
    refine mem_append_left _ (mem_map.mpr ⟨i,mem_branchIndices.mpr hi,?_⟩)
    rw[slotItem,if_neg hi]
   rw[encoding_branch,length_append]at hlt
   exact ih i hi he (small_child hlen (hc i hi he) hmem
    (lt_of_le_of_lt (le_add_left _ _) hlt)) _ ⟨s,hs,hsh,rfl⟩

/-- A list of mappings with small tries. -/
lemma collisionFree_padHash
 (h:∀m∈ms,∃t,Represents t m∧(t≠.empty → Shaped t∧(encoding padHash t).length<32)):
 CollisionFree padHash (nodesOf padHash ms):=by
 have hsmall:∀e∈nodesOf padHash ms,e.length<32:=by
  rintro e ⟨m,hm,t,ht,he⟩
  obtain⟨t',ht',hs⟩:=h m hm
  obtain rfl:=ht.eq ht'
  have hne:t≠.empty:=by
   rintro rfl
   obtain⟨s,hs,hsh,-⟩:=he
   cases hs
   cases hsh
  exact small_nodes padHash_length (hs hne).1 (hs hne).2 e he
 refine⟨padHash_length,padHash_injOn.mono ?_,fun e he=>padHash_ne_zero (hsmall e he)⟩
 rintro e (rfl|he)
 ·exact Nat.lt_of_sub_eq_succ rfl
 exact hsmall e he

def keys:KeySet:=.ofLength 1 (by decide)

/-- A mapping with one key, and mappings with two. -/
def single:Mapping:=History.start.current.write [0x12] [2]

def pair (v:Bytes):Mapping:=single.write [0x11] v

lemma represents_single:Represents (Tree.insert .empty (compactHexDecode [0x12]) [2]) single:=
 represents_empty.insert _ (by simp)

lemma single_over:single.Over keys:=(over_empty keys).write rfl (by decide)

lemma represents_pair{v:Bytes}(hv:v≠[]):
 Represents (Tree.insert (Tree.insert .empty (compactHexDecode [0x12]) [2])
  (compactHexDecode [0x11]) v) (pair v):=
 represents_single.insert _ hv

lemma small_mapping(h:m=History.start.current∨m=single∨m=pair [1]∨m=pair [3]):
 ∃t,Represents t m∧(t≠.empty → Shaped t∧(encoding padHash t).length<32):=by
 rcases h with rfl|rfl|rfl|rfl
 ·exact⟨.empty,represents_empty,fun h=>absurd rfl h⟩
 ·exact⟨_,represents_single,fun h=>⟨represents_single.shaped single_over h,by decide⟩⟩
 ·have hp:=represents_pair (v:=[1]) (by simp)
  exact⟨_,hp,fun h=>⟨hp.shaped (single_over.write rfl (by decide)) h,by decide⟩⟩
 have hp:=represents_pair (v:=[3]) (by simp)
 exact⟨_,hp,fun h=>⟨hp.shaped (single_over.write rfl (by decide)) h,by decide⟩⟩

end Sample

end GoCoupe.TrieSessions
