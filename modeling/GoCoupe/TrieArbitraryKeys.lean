import GoCoupe.MerkleProofSoundness

/-!
# Tries over keys that begin one another

Such a key ends inside a branch if the others do not all go on with one nibble. `Get` and
`Prove` take an empty last slot there for a value, and `Delete` does not know the value in it.
-/

namespace GoCoupe.TrieArbitraryKeys
open PatriciaTrees HexPrefixKeys TrieNodes TrieNodeCodec TrieOperations TrieRefinement
open List Option Function
open TrieMappings TrieSessions MerkleProofs MerkleProofSoundness

variable {sha3:Bytes→Bytes}

/-- The stored keys that begin with `q` do not all go on with one nibble; the end of a key
counts as a nibble of its own. -/
def Forked (m:Mapping) (q:Bytes):Prop:=
 ∃k l a b r s,m k≠none ∧ m l≠none ∧ a≠b ∧ compactHexDecode k=nibbles q++a::r ∧
  compactHexDecode l=nibbles q++b::s

lemma forks_iff(h:Represents t m)(q:Bytes):Forks t (nibbles q)↔Forked m q:=by
 have hword:∀l,t.lookup l≠none→∃k,m k≠none∧compactHexDecode k=l:=fun l hl=>by
  obtain⟨v,hv⟩:=ne_none_iff_exists'.mp hl
  obtain⟨k,rfl,hk⟩:=h.of_lookup hv
  exact⟨k,by simp[hk],rfl⟩
 constructor
 ·rintro⟨a,b,r,s,hab,ha,hb⟩
  obtain⟨k,hk,hkl⟩:=hword _ ha
  obtain⟨l,hl,hll⟩:=hword _ hb
  exact⟨k,l,a,b,r,s,hk,hl,hab,hkl,hll⟩
 rintro⟨k,l,a,b,r,s,hk,hl,hab,hka,hlb⟩
 refine⟨a,b,r,s,hab,?_,?_⟩
 ·rwa[←hka,h.lookup]
 rwa[←hlb,h.lookup]

structure Holds (sha3:Bytes→Bytes) (s:Session) (m:Mapping):Prop where
 store:StoreOk s.store
 bounded:m.Bounded
 tree:∃t,Represents t m ∧ Expands sha3 s.store.db s.trie.root t

variable {s:Session} {m:Mapping}

lemma Holds.walk(h:Holds sha3 s m)(q:Bytes):
 ∃t f,Represents t m∧Expands sha3 s.store.db s.trie.root t∧Walk t (nibbles q) (m q) f∧
  (f=true↔Forked m q)∧(t≠.empty → Shaped t):=by
 obtain⟨t,ht,hexp⟩:=h.tree
 have hsh:=ht.shaped_of_bounded h.bounded
 obtain⟨f,w,hf⟩:=exists_walk ht.normal hsh (terminator_notMem q)
 rw[←compactHexDecode,ht.lookup]at w
 exact⟨t,f,ht,hexp,w,hf.trans (forks_iff ht q),hsh⟩

lemma Holds.replace(h:Holds sha3 s m){n:Node}{st:Store}{t:HexTree}{m':Mapping}
 (hst:StoreOk st)(hdb:st.db=s.store.db)(ht:Represents t m')
 (hn:Expands sha3 s.store.db n t)(hm:∀k v,m' k=some v→m k=some v∨
  k.length<2^62∧v≠[]∧v.length<2^62):Holds sha3 ⟨st,⟨n⟩,s.roots⟩ m':=by
 refine⟨hst,fun k v hk=>(hm k v hk).elim (h.bounded k v) id,t,ht,?_⟩
 rw[←hdb]at hn
 exact hn

/-- `Delete`, on a key that is stored and ends inside a branch and on every other key. -/
lemma Holds.delete(hlen:∀b,(sha3 b).length=32)(h:Holds sha3 s m)(k:Bytes):
 (m k≠none∧Forked m k→s.trie.delete s.store k=none)∧
  (¬(m k≠none∧Forked m k)→∃r,s.trie.delete s.store k=some r∧
   Holds sha3 ⟨r.2,r.1,s.roots⟩ (m.erase k)):=by
 obtain⟨t,f,ht,hexp,w,hf,-⟩:=h.walk k
 have hdel:=delete_walk hlen w hexp h.store (Nat.le_succ _)
 have hpanics:(f && (m k).isSome)=true↔m k≠none∧Forked m k:=by
  rw[Bool.and_eq_true,hf,←ne_none_iff_isSome,and_comm]
 refine⟨fun hbad=>?_,fun hok=>?_⟩
 ·rw[←hpanics]at hbad
  rw[hbad]at hdel
  exact congrArg (Option.map _) hdel
 rw[←hpanics,Bool.not_eq_true]at hok
 obtain⟨n,st,hr,hst,hdb,-,hn⟩:=hdel.keeps hok
 refine⟨(⟨n⟩,st),congrArg (Option.map _) hr,?_⟩
 refine h.replace hst hdb (ht.delete k) hn fun l v hl=>.inl ?_
 by_cases hlk:l=k
 ·simp[Mapping.erase,hlk]at hl
 rwa[Mapping.erase,update_of_ne hlk]at hl

lemma update_empty(t:Trie)(st:Store)(k:Bytes):t.update st k []=t.delete st k:=rfl

lemma Holds.update(hlen:∀b,(sha3 b).length=32)(h:Holds sha3 s m)(k:Bytes)
 (hv:v≠[]):∃r,s.trie.update s.store k v=some r∧
  (k.length<2^62→v.length<2^62→Holds sha3 ⟨r.2,r.1,s.roots⟩ (m.write k v)):=by
 obtain⟨t,ht,hexp⟩:=h.tree
 obtain⟨n,st,hr,hst,hdb,hn⟩:=insert_spec hlen v ht.normal (ht.fits k) hexp h.store (Nat.le_succ _)
 refine⟨(⟨n⟩,st),?_,fun hk hvl=>?_⟩
 ·rw[Trie.update,if_pos (by simpa using hv)]
  exact congrArg (Option.map _) hr
 refine h.replace hst hdb (ht.insert k hv) hn fun l w hl=>?_
 by_cases hlk:l=k
 ·simp only[Mapping.write,hlk,update_self,if_neg hv,some.injEq]at hl
  exact .inr ⟨hlk▸hk,hl▸hv,hl▸hvl⟩
 rw[Mapping.write,update_of_ne hlk]at hl
 exact .inl hl

/-- The four calls return, and the two that read find nothing under a key that is absent. -/
structure Returns (sha3:Bytes→Bytes) (s:Session) (m:Mapping) (q v:Bytes):Prop where
 get:∃st,s.trie.get s.store q=some (m q,st)
 update:∃r,s.trie.update s.store q v=some r
 delete:∃r,s.trie.delete s.store q=some r
 prove:∃p st,prove sha3 s.trie s.store q=some (p,st) ∧ (m q=none→p=none)

lemma proofElements_loaded(i:ℕ)(h:Loads sha3 db ns ts)(hts:∀t∈ts,Shaped t):
 ∃proof,proofElements sha3 i ns=some proof:=by
 cases h with
 | nil=>exact⟨_,rfl⟩
 | cons hn hns=>
  have hrest:=proofElements_tail i hns fun t ht=>hts t (mem_cons_of_mem _ ht)
  exact⟨_,proofElements_cons (hts _ mem_cons_self) hn.1 hn.2 hrest⟩

lemma Holds.prove(hlen:∀b,(sha3 b).length=32)(h:Holds sha3 s m)(hq:¬Forked m q):
 ∃p st,prove sha3 s.trie s.store q=some (p,st)∧(m q=none→p=none):=by
 obtain⟨t,f,ht,hexp,w,hf,hsh⟩:=h.walk q
 rw[←hf,Bool.not_eq_true]at hq
 subst hq
 obtain⟨r,st,hr,-,-,hfound⟩:=pathNodes_walk hlen w hexp h.store (Nat.le_succ _)
 rw[MerkleProofs.prove]
 dsimp only
 rw[Trie.fuelFor,compactHexDecode,hr,bind_eq_bind,bind_some]
 cases hm:m q with
 | none=>
  rw[hm]at hfound
  rw[show r=none from hfound]
  exact⟨none,st,rfl,fun _=>rfl⟩
 | some v=>
  rw[hm]at hfound
  obtain⟨ns,rfl,hns⟩:=hfound
  have hshape:∀s∈path t (nibbles q++[16]),Shaped s:=by
   refine path_shaped (hsh ?_)
   rintro rfl
   have:=ht.lookup q
   rw[Tree.lookup_empty,hm]at this
   cases this
  obtain⟨proof,hproof⟩:=proofElements_loaded 0 hns hshape
  exact⟨some proof,st,by dsimp only;rw[hproof];rfl,fun h=>absurd h (some_ne_none v)⟩

lemma Holds.returns_iff(hlen:∀b,(sha3 b).length=32)(h:Holds sha3 s m)(q v:Bytes):
 Returns sha3 s m q v↔¬Forked m q:=by
 obtain⟨t,f,ht,hexp,w,hf,-⟩:=h.walk q
 have hget:=getNode_walk hlen w hexp h.store (Nat.le_succ _)
 constructor
 ·intro hret hfork
  rw[hf.mpr hfork,Bool.true_and]at hget
  cases hm:m q with
  | none=>
   obtain⟨st,hst⟩:=hret.get
   rw[hm]at hget
   exact some_ne_none _ (hst.symm.trans hget)
  | some w=>
   obtain⟨r,hr⟩:=hret.delete
   rw[(h.delete hlen q).1 ⟨by simp[hm],hfork⟩]at hr
   cases hr
 intro hok
 obtain⟨r,hr,-⟩:=(h.delete hlen q).2 fun hbad=>hok hbad.2
 have hno:(f && (m q).isNone)=false:=by
  rw[←hf,Bool.not_eq_true]at hok
  rw[hok,Bool.false_and]
 obtain⟨x,st,hx,-,-,rfl⟩:=hget.keeps hno
 refine⟨⟨st,hx⟩,?_,⟨r,hr⟩,h.prove hlen hok⟩
 by_cases hv:v=[]
 ·rw[hv,update_empty]
  exact⟨r,hr⟩
 obtain⟨r,hr,-⟩:=h.update hlen q hv
 exact⟨r,hr⟩

/-- The calls that change a trie. -/
def Writes:Op→Prop
 | .update k v=>k.length<2^62 ∧ v.length<2^62
 | .delete _=>True
 | _=>False

/-- Nothing is deleted that ends inside a branch. -/
def Safe (m:Mapping):Op→Prop
 | .update k v=>v=[]→¬(m k≠none ∧ Forked m k)
 | .delete k=>¬(m k≠none ∧ Forked m k)
 | _=>True

def SafeRun:History→List Op→Prop
 | _,[]=>True
 | p,op::ops=>Safe p.current op ∧ SafeRun (p.step op) ops

lemma Holds.step(hlen:∀b,(sha3 b).length=32){s:Session}{p:History}
 (h:Holds sha3 s p.current){op:Op}(hop:Writes op):
 (¬Safe p.current op→s.step sha3 op=none)∧
  (Safe p.current op→∃s',s.step sha3 op=some s'∧Holds sha3 s' (p.step op).current):=by
 have herase:∀k,p.current.write k []=p.current.erase k:=fun k=>by
  rw[Mapping.write,if_pos rfl,Mapping.erase]
 have hdelete:∀k,(¬Safe p.current (.delete k)→s.step sha3 (.delete k)=none)∧
  (Safe p.current (.delete k)→∃s',s.step sha3 (.delete k)=some s'∧
   Holds sha3 s' (p.current.erase k)):=fun k=>by
  refine⟨fun hbad=>?_,fun hok=>?_⟩
  ·rw[Session.step,(h.delete hlen k).1 (not_not.mp hbad)]
   rfl
  obtain⟨r,hr,hr'⟩:=(h.delete hlen k).2 hok
  exact⟨_,by rw[Session.step,hr];rfl,hr'⟩
 cases op with
 | delete k=>exact hdelete k
 | update k v=>
  by_cases hv:v=[]
  ·subst hv
   have hsafe:Safe p.current (.update k [])↔Safe p.current (.delete k):=⟨fun h=>h rfl,fun h _=>h⟩
   rw[hsafe,Session.step,update_empty,History.step,herase]
   exact hdelete k
  refine⟨fun hbad=>absurd (absurd · hv) hbad,fun _=>?_⟩
  obtain⟨r,hr,hr'⟩:=h.update hlen k hv
  exact⟨_,by rw[Session.step,hr];rfl,hr' hop.1 hop.2⟩
 | _=>exact hop.elim

lemma Holds.run(hlen:∀b,(sha3 b).length=32)(hops:∀op∈ops,Writes op)(h:Holds sha3 s p.current):
 (∀s',Session.run sha3 ops s=some s' → SafeRun p ops)∧
  (SafeRun p ops→∃s',Session.run sha3 ops s=some s'∧Holds sha3 s' (p.run ops).current):=by
 induction ops generalizing s p with
 | nil=>exact⟨fun _ _=>trivial,fun _=>⟨s,rfl,h⟩⟩
 | cons op ops ih=>
  obtain⟨hbad,hgood⟩:=h.step hlen (hops op mem_cons_self)
  have hrest:=fun o ho=>hops o (mem_cons_of_mem op ho)
  constructor
  ·intro s' hs'
   by_cases hsafe:Safe p.current op
   ·obtain⟨s₁,hs1,h1⟩:=hgood hsafe
    rw[Session.run,hs1]at hs'
    exact⟨hsafe,(ih hrest h1).1 s' hs'⟩
   rw[Session.run,hbad hsafe]at hs'
   cases hs'
  rintro⟨hsafe,hsafes⟩
  obtain⟨s₁,hs1,h1⟩:=hgood hsafe
  rw[Session.run,hs1]
  exact (ih hrest h1).2 hsafes

/-- A run of `Update` and `Delete` calls on a new trie returns, and then the four calls on a
key do, exactly if nothing was deleted that ended inside a branch and the key does not. -/
theorem calls_return_iff (hlen : ∀ b, (sha3 b).length = 32) {st : Store} (hst : StoreOk st)
    {ops : List Op} (hops : ∀ op ∈ ops, Writes op) (q v : Bytes) :
    (∃ s, Session.run sha3 ops ⟨st, ⟨.nil⟩, []⟩ = some s ∧
        Returns sha3 s (History.start.run ops).current q v) ↔
      SafeRun History.start ops ∧ ¬ Forked (History.start.run ops).current q := by
 have hstart:Holds sha3 ⟨st,⟨.nil⟩,[]⟩ History.start.current:=
  ⟨hst,fun _ _ h=>(nomatch h),.empty,represents_empty,.nil⟩
 obtain⟨hsafe,hrun⟩:=hstart.run hlen hops
 constructor
 · rintro⟨s,hs,hret⟩
   obtain⟨s',hs',h⟩:=hrun (hsafe s hs)
   obtain rfl:=some.inj (hs.symm.trans hs')
   exact⟨hsafe s hs,(h.returns_iff hlen q v).mp hret⟩
 rintro⟨hok,hq⟩
 obtain⟨s,hs,h⟩:=hrun hok
 exact⟨s,hs,(h.returns_iff hlen q v).mpr hq⟩

lemma storeOk_start:StoreOk Session.start.store:=
 ⟨AdaptiveReplacementCache.Arc.ok_new (by decide),AdaptiveReplacementCache.Arc.agrees_new _ _⟩

theorem calls_return_single :
    ∃ s, Session.run (fun _ => List.replicate 32 1) [.update [0x12] [5]]
      ⟨Session.start.store, ⟨.nil⟩, []⟩ = some s ∧ Returns (fun _ => List.replicate 32 1) s
        (History.start.run [.update [0x12] [5]]).current [0x13] [] := by
 have hkey:∀k,(History.start.run [.update [0x12] [5]]).current k≠none→k=[0x12]:=by
  intro k hk
  by_contra hne
  exact hk (update_of_ne hne _ _)
 refine (calls_return_iff (fun _=>length_replicate) storeOk_start ?_ _ _).mpr
  ⟨⟨fun h=>(nomatch h),trivial⟩,?_⟩
 · simp[Writes]
 rintro⟨k,l,a,b,r,s,hk,hl,hab,hka,hlb⟩
 rw[hkey k hk] at hka
 rw[hkey l hl,hka] at hlb
 exact hab (List.cons.inj (append_cancel_left hlb)).1

/-- Two keys fork after a third: reading it panics, and so does deleting it once it is
stored, and there is a proof for it while it is absent. -/
theorem forked_key_panics :
    let sha3 : Bytes → Bytes := fun _=>List.replicate 32 1
    let fork:List Op:=[.update [0x12,0x34] [1],.update [0x12,0x56] [2]]
    (Session.start.run sha3 fork).isSome ∧ (Session.start.run sha3 (fork++[.get [0x12]])).isNone ∧
      (Session.start.run sha3 (fork++[.update [0x12] [3]])).isSome ∧
      (Session.start.run sha3 (fork++[.update [0x12] [3],.delete [0x12]])).isNone ∧
      ((Session.start.run sha3 fork).bind
        (fun s=>prove sha3 s.trie s.store [0x12])).any (·.1.isSome):=by
 decide +kernel

end GoCoupe.TrieArbitraryKeys
