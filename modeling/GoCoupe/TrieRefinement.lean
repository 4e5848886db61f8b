import GoCoupe.TrieNodeCodec
import GoCoupe.TrieOperations

/-!
# The trie operations refine operations on trees

A node stands for a tree, whose parts that are not loaded are hash nodes. `Get`, `insert` and
`delete` compute lookup, insertion and deletion on the tree when no other key of the tree
continues the given key or is continued by it.
-/

namespace GoCoupe.TrieRefinement
open PatriciaTrees HexPrefixKeys TrieNodes TrieNodeCodec TrieOperations AdaptiveReplacementCache
open List Option Function

variable {sha3:Bytes→Bytes}

/-- Every node of the tree that a parent refers to by its hash is in the database. -/
def Stored (sha3:Bytes→Bytes) (db:Db) (t:HexTree):Prop:=
 ∀s,Tree.Subtree s t → Shaped s → 32≤(encoding sha3 s).length →
  db (sha3 (encoding sha3 s))=some (encoding sha3 s)

lemma Stored.edge{db:Db}{k:List Nibble}{c:HexTree}(h:Stored sha3 db (.edge k c)):Stored sha3 db c:=
 fun s hs=>h s (.edge k hs)

lemma Stored.branch{db:Db}{cs:Nibble→HexTree}(h:Stored sha3 db (.branch cs))
 (i:Nibble):Stored sha3 db (cs i):=
 fun s hs=>h s (.branch i hs)

/-- The second database keeps what the first one has. -/
def Includes (db db':Db):Prop:=∀h e,db h=some e→db' h=some e

variable {db:Db} {t c:HexTree} {n:Node} {β:Type} {P:β→Prop} {st:Store} {s p:List Nibble}
 {f:β × Store→Option (γ × Store)} {r:Option (β × Store)} {fuel:ℕ} {k:List Nibble} {a:Nibble}
 {cs:Nibble→HexTree} {o:Option Bytes}

lemma Includes.trans(h:Includes db db')(h':Includes db' db''):Includes db db'':=
 fun k e hk=>h' k e (h k e hk)

lemma Stored.mono(h:Stored sha3 db t)(hi:Includes db db'):Stored sha3 db' t:=
 fun s hs hsh hbig=>hi _ _ (h s hs hsh hbig)

inductive Expands (sha3:Bytes→Bytes) (db:Db):Node→HexTree→Prop
 | nil:Expands sha3 db .nil .empty
 | value (v:Bytes):Expands sha3 db (.valueNode v) (.leaf v)
 | short {n:Node} {c:HexTree} (k:List Nibble) (h:Expands sha3 db n c) :
  Expands sha3 db (.shortNode k n) (.edge k c)
 | full {ns:Nibble→Node} {cs:Nibble→HexTree} (h:∀i,Expands sha3 db (ns i) (cs i)) :
  Expands sha3 db (.fullNode ns) (.branch cs)
 | hash {t:HexTree} (ht:Shaped t) (hbig:32≤(encoding sha3 t).length)
  (hst:Stored sha3 db t):Expands sha3 db (.hashNode (sha3 (encoding sha3 t))) t

lemma Expands.isNil_iff(h:Expands sha3 db n t):n.isNil=true↔t=.empty:=by
 cases h with
 | hash ht=>simp[Node.isNil,ht.ne_empty]
 | _=>simp[Node.isNil]

/-- What stands in the last slot of a full node. -/
lemma Expands.slot{db:Db}{n:Node}{t:HexTree}(h:Expands sha3 db n t)
 (ht:t=.empty∨∃v,t=.leaf v):n=.nil∧t=.empty∨∃v,n=.valueNode v∧t=.leaf v:=by
 rcases ht with rfl|⟨v,rfl⟩
 ·cases h with
  | nil=>exact .inl ⟨rfl,rfl⟩
  | hash hs=>cases hs
 cases h with
 | value=>exact .inr ⟨v,rfl,rfl⟩
 | hash hs=>cases hs

def Loaded (n:Node):Prop:=∀h,n≠.hashNode h

lemma Expands.loaded_or_hash(h:Expands sha3 db n t):
 Loaded n∨n=.hashNode (sha3 (encoding sha3 t))∧Shaped t∧
  32≤(encoding sha3 t).length∧Stored sha3 db t:=by
 cases h with
 | hash ht hbig hst=>exact .inr ⟨rfl,ht,hbig,hst⟩
 | _=>exact .inl fun _=>by simp

lemma expands_childNode(hc:Shaped c)(hst:Stored sha3 db c)(h:Expands sha3 db (nodeOf sha3 c) c):
 Expands sha3 db (childNode sha3 c (nodeOf sha3 c)) c:=by
 rw[childNode_shaped hc]
 split
 ·exact h
 exact .hash hc (by omega) hst

/-- A node that was just decoded stands for the tree that was encoded. -/
lemma expands_nodeOf(ht:Shaped t)(hst:Stored sha3 db t):Expands sha3 db (nodeOf sha3 t) t:=by
 induction ht with
 | @value k v=>exact .short k (.value v)
 | @inner k cs _ _ _ hc ih=>exact .short k (expands_childNode hc hst.edge (ih hst.edge))
 | @branch cs hc hv ih=>
  refine .full fun i=>?_
  by_cases he:cs i=.empty
  ·rw[he]
   exact .nil
  by_cases hi:i=16
  ·subst hi
   rcases hv with hv|⟨v,-,-,hv⟩
   ·exact absurd hv he
   rw[hv]
   exact .value v
  exact expands_childNode (hc i hi he) (hst.branch i) (ih i hi he (hst.branch i))

/-- The cache works and holds only what decoding the database would give. -/
structure StoreOk (st:Store):Prop where
 cache:st.cache.Ok
 agrees:st.cache.Agrees (fun h=>(st.db h).bind mustDecodeNode)

/-- A call that ends, keeps the database and leaves a sound cache. -/
def Keeps {β:Type} (st:Store) (r:Option (β × Store)) (P:β→Prop):Prop:=
 ∃x st',r=some (x,st') ∧ StoreOk st' ∧ st'.db=st.db ∧ P x

lemma Keeps.pure(h:StoreOk st)(hx:P x):Keeps st (some (x,st)) P:=⟨x,st,rfl,h,rfl,hx⟩

lemma Keeps.bind{γ:Type}{Q:γ→Prop}{f:β × Store→Option (γ × Store)}(h:Keeps st r P)
 (hf:∀x st',StoreOk st'→st'.db=st.db→P x→Keeps st' (f (x,st')) Q):
 Keeps st (r>>=f) Q:=by
 obtain⟨x,st',rfl,hok,hdb,hx⟩:=h
 obtain⟨y,st'',hy,hok',hdb',hQ⟩:=hf x st' hok hdb hx
 exact⟨y,st'',hy,hok',hdb'.trans hdb,hQ⟩

lemma Keeps.imp(h:Keeps st r P)(hPQ:∀x,P x→Q x):Keeps st r Q:=by
 obtain⟨x,st',hr,hok,hdb,hx⟩:=h
 exact⟨x,st',hr,hok,hdb,hPQ x hx⟩

lemma resolveHash_spec(hst:StoreOk st)(h:Bytes):
 (∀e n,st.db h=some e→mustDecodeNode e=some n→Keeps st (resolveHash st h) (· = n))∧
  (st.db h=none→Keeps st (resolveHash st h) (· = .nil)):=by
 obtain⟨r,cache,hget,hok,hagr,hr⟩:=Arc.get_spec hst.cache hst.agrees h
 unfold resolveHash
 rw[hget]
 cases r with
 | some n=>
  have hn:=hr n rfl
  refine⟨fun e n' he hd=>?_,fun hdb=>?_⟩
  ·rw[he]at hn
   obtain rfl:=some.inj (hd.symm.trans hn)
   exact⟨n',_,rfl,⟨hok,hagr⟩,rfl,rfl⟩
  rw[hdb]at hn
  cases hn
 | none=>
  refine⟨fun e n he hd=>?_,fun hdb=>?_⟩
  ·simp only[bind_eq_bind,bind_some,he,hd]
   split
   ·exact⟨n,_,rfl,⟨hok,hagr⟩,rfl,rfl⟩
   obtain⟨cache',hput,hok',hagr'⟩:=Arc.put_spec hok hagr (k:=h) (v:=n)
    (by rw[he];exact hd)
   rw[hput]
   exact⟨n,_,rfl,⟨hok',hagr'⟩,rfl,rfl⟩
  simp only[bind_eq_bind,bind_some,hdb]
  exact⟨.nil,_,rfl,⟨hok,hagr⟩,rfl,rfl⟩

lemma resolveHash_stored(hlen:∀b,(sha3 b).length=32)(hst:StoreOk st)(ht:Shaped t)
 (hdb:st.db (sha3 (encoding sha3 t))=some (encoding sha3 t)):
 Keeps st (resolveHash st (sha3 (encoding sha3 t))) (· = nodeOf sha3 t):=
 (resolveHash_spec hst _).1 _ _ hdb (mustDecodeNode_encoding hlen ht)

/-- An operation that resolves a hash node and starts again costs one unit of fuel more
there than on a loaded node. -/
lemma resolved(hlen:∀b,(sha3 b).length=32)(op:ℕ→Store→Node→Option (β × Store))
 (R:Db→Option (β × Store)→Prop)(hm:0 < m)
 (hop:∀fuel st h,op (fuel+1) st (.hashNode h) = resolveHash st h>>=fun r=>op fuel r.2 r.1)
 (hstep:∀n st fuel,Loaded n→Expands sha3 st.db n t → StoreOk st→m≤fuel+1 →
  R st.db (op (fuel+1) st n))(h:Expands sha3 st.db n t)(hst:StoreOk st)
 (hfuel:m+1≤fuel):R st.db (op fuel st n):=by
 obtain⟨fuel,rfl⟩:∃f,fuel=f+2:=⟨fuel-2,by omega⟩
 rcases h.loaded_or_hash with hl|⟨rfl,ht,hbig,hs⟩
 ·exact hstep n st (fuel+1) hl h hst (by omega)
 obtain⟨n',st',hr,hst',hdb,rfl⟩:=resolveHash_stored hlen hst ht (hs _ (.refl _) ht hbig)
 rw[hop,hr]
 rw[←hdb]at hs ⊢
 exact hstep _ st' fuel (nodeOf_ne_hash ht) (expands_nodeOf ht hs) hst' (by omega)

lemma keeps_resolved(hlen:∀b,(sha3 b).length=32)
 (op:ℕ→Store→Node→Option (β × Store))(P:Db→β→Prop)(hm:0 < m)
 (hop:∀fuel st h,op (fuel+1) st (.hashNode h) = resolveHash st h>>=fun r=>op fuel r.2 r.1)
 (hstep:∀n st fuel,Loaded n→Expands sha3 st.db n t → StoreOk st→m≤fuel+1 →
  Keeps st (op (fuel+1) st n) (P st.db))(h:Expands sha3 st.db n t)(hst:StoreOk st)
 (hfuel:m+1≤fuel):Keeps st (op fuel st n) (P st.db):=
 resolved hlen op
  (fun db r=>∃x st',r=some (x,st')∧StoreOk st'∧st'.db=db∧P db x) hm hop hstep
  h hst hfuel

/-- No other key of the tree agrees with the given one up to the end of one of the two.
The last nibble of a key is its terminator. -/
def Separated (k:List Nibble) (t:HexTree):Prop:=
 ∀l v,t.lookup l=some v→l≠k→¬k.dropLast <+: l ∧ ¬l.dropLast <+: k

lemma Separated.fits(h:Separated k t):Tree.Fits k t:=by
 intro l v hl hcmp
 by_contra hne
 obtain⟨h1,h2⟩:=h l v hl hne
 rcases hcmp with hcmp|hcmp
 ·exact h1 (( dropLast_prefix k).trans hcmp)
 exact h2 (( dropLast_prefix l).trans hcmp)

lemma Separated.edge{c:HexTree}(h:Separated (p++s) (.edge p c))(hs:s≠[]):Separated s c:=by
 intro l v hl hne
 obtain⟨h1,h2⟩:=h (p++l) v (by simpa using hl) (fun he=>hne (append_cancel_left he))
 rw[dropLast_append_of_ne_nil hs,prefix_append_right_inj]at h1
 refine⟨h1,fun hpre=>?_⟩
 by_cases hnil:l=[]
 ·subst hnil
  rw[append_nil]at h2
  exact h2 (( dropLast_prefix p).trans (prefix_append p s))
 rw[dropLast_append_of_ne_nil hnil,prefix_append_right_inj]at h2
 exact h2 hpre

lemma Separated.branch{cs:Nibble→HexTree}{a:Nibble}{k:List Nibble}
 (h:Separated (a::k) (.branch cs))(hk:k≠[]):Separated k (cs a):=by
 refine Separated.edge (p:=[a]) (fun l v hl hne=>h l v ?_ hne) hk
 obtain⟨l,rfl,hl'⟩:=Tree.lookup_edge_eq_some hl
 exact hl'

/-- A key that ends with a label ends with a value. -/
lemma Separated.leaf(h:Separated p (.edge p c))(hc:Tree.Canonical (.edge p c)):∃v,c=.leaf v:=by
 obtain⟨l,v,hl⟩:=hc.edge_child_canonical.exists_key
 have heq:=h.fits (p++l) v (by simpa using hl) (.inl (prefix_append p l))
 rw[append_right_eq_self]at heq
 subst heq
 exact⟨v,hc.edge_child_canonical.lookup_nil hl⟩

lemma Separated.child{c:HexTree}(h:Separated (p++s) (.edge p c))
 (hc:Tree.Canonical (.edge p c)):Separated s c:=by
 by_cases hs:s=[]
 ·subst hs
  rw[append_nil]at h
  obtain⟨v,rfl⟩:=h.leaf hc
  intro l w hl hne
  obtain⟨a,l,rfl⟩:=exists_cons_of_ne_nil hne
  rw[Tree.lookup_leaf_cons]at hl
  cases hl
 exact h.edge hs

/-- A key that goes on after a label goes on in a branch. -/
lemma Separated.inner{c:HexTree}(h:Separated (p++s) (.edge p c))
 (hc:Tree.Canonical (.edge p c))(hs:s≠[]):∃cs,c=.branch cs:=by
 cases hc with
 | edgeLeaf _ v=>
  have heq:=h.fits p v (by simp[Tree.lookup_edge_leaf]) (.inr (prefix_append p s))
  simp[hs]at heq
 | @edgeBranch _ _ cs _=>exact⟨cs,rfl⟩

/-- A key that enters a branch does not end there. -/
lemma Separated.branch_ne_nil(h:Separated (a::k) (.branch cs))
 (hc:Tree.Canonical (.branch cs)):k≠[]:=by
 rintro rfl
 obtain⟨x,y,l,m,v,w,hxy,hl,hm⟩:=hc.branch_keys
 by_cases hx:x=a
 ·refine (h _ w hm fun he=>hxy ?_).1 nil_prefix
  rw[hx,(cons.inj he).1]
 exact (h _ v hl fun he=>hx (cons.inj he).1).1 nil_prefix

/-- The words of the tree that begin with `k` do not all go on with one letter. -/
def Forks (t:HexTree) (k:List Nibble):Prop:=
 ∃a b r s,a≠b ∧ t.lookup (k++a::r)≠none ∧ t.lookup (k++b::s)≠none

lemma Separated.not_forks(h:Separated (k++[16]) t):¬Forks t k:=by
 have hne:∀a r,t.lookup (k++a::r)≠none→a::r=[16]:=fun a r hl=>by
  obtain⟨v,hv⟩:=ne_none_iff_exists'.mp hl
  by_contra hcon
  refine (h _ v hv (fun he=>hcon (append_cancel_left he))).1 ?_
  rw[dropLast_concat]
  exact prefix_append k _
 rintro⟨a,b,r,s,hab,ha,hb⟩
 exact hab (cons.inj ((hne a r ha).trans (hne b s hb).symm)).1

lemma forks_edge:Forks (.edge p c) (p++k)↔Forks c k:=by
 simp only[Forks,append_assoc,Tree.lookup_edge_append]

/-- All words below an edge begin with its label. -/
lemma Forks.label(h:Forks (.edge p c) k):p <+: k:=by
 obtain⟨a,b,r,s,hab,ha,hb⟩:=h
 obtain⟨v,ha⟩:=ne_none_iff_exists'.mp ha
 obtain⟨w,hb⟩:=ne_none_iff_exists'.mp hb
 obtain⟨r',hr,-⟩:=Tree.lookup_edge_eq_some ha
 obtain⟨s',hs,-⟩:=Tree.lookup_edge_eq_some hb
 rcases append_eq_append_iff.mp hr with⟨q,rfl,hq⟩|⟨q,rfl,-⟩
 ·cases q with
  | nil=>exact⟨[],by simp⟩
  | cons x q=>
   rw[append_assoc]at hs
   have hx:=(cons.inj hq).1
   exact absurd (hx.trans (cons.inj (append_cancel_left hs)).1.symm) hab
 exact prefix_append p q

/-- What a walk to the key `k` with its terminator meets: the value it finds, and whether
the key comes to its end inside a branch. -/
inductive Walk:HexTree→List Nibble→Option Bytes→Bool→Prop
 | absent (k:List Nibble):Walk .empty k none false
 | mismatch {p k:List Nibble} {c:HexTree} (h:¬p <+: k++[16]):Walk (.edge p c) k none false
 | leaf (k:List Nibble) (v:Bytes):Walk (.edge (k++[16]) (.leaf v)) k (some v) false
 | edge {p k:List Nibble} {cs:Nibble→HexTree} {o:Option Bytes} {f:Bool} (hp:p≠[])
  (hc:Tree.Canonical (.branch cs)) (w:Walk (.branch cs) k o f) :
  Walk (.edge p (.branch cs)) (p++k) o f
 | slot {cs:Nibble→HexTree} (hc:Tree.Canonical (.branch cs))
  (hs:cs 16=.empty ∨ ∃v,cs 16=.leaf v):Walk (.branch cs) [] ((cs 16).lookup []) true
 | branch {cs:Nibble→HexTree} {a:Nibble} {k:List Nibble} {o:Option Bytes} {f:Bool}
  (ha:a≠16) (hc:Tree.Canonical (.branch cs))
  (hs:cs 16=.empty ∨ ∃v,cs 16=.leaf v) (w:Walk (cs a) k o f) :
  Walk (.branch cs) (a::k) o f

lemma Walk.of_shaped(ht:Shaped t):Tree.Canonical t→∀{k:List Nibble},
 16∉k→∃f,Walk t k (t.lookup (k++[16])) f∧(f=true↔Forks t k):=by
 have hmis:∀{p k:List Nibble} {c:HexTree},¬p <+: k++[16] →
  ∃f,Walk (.edge p c) k ((Tree.edge p c).lookup (k++[16])) f∧
   (f=true↔Forks (.edge p c) k):=fun {p k c} h=>by
  rw[Tree.lookup_edge,if_neg h]
  exact⟨false,.mismatch h,by simp,fun hf=>absurd (hf.label.trans (prefix_append k _)) h⟩
 induction ht with
 | @value p v hp hend=>
  intro _ k hk
  by_cases hpre:p <+: k++[16]
  ·rcases prefix_concat_iff.mp hpre with rfl|hpk
   ·refine⟨false,?_,by simp,fun hf=>?_⟩
    ·rw[Tree.lookup_edge_leaf,if_pos rfl]
     exact .leaf k v
    have:=hf.label.length_le
    simp at this
   exact absurd (hpk.subset (mem_of_getLast? hend)) hk
  exact hmis hpre
 | @inner p cs hp hin _ hc ih=>
  intro hcan k hk
  by_cases hpre:p <+: k++[16]
  ·rcases prefix_concat_iff.mp hpre with rfl|⟨k,rfl⟩
   ·exact absurd (hin 16 (by simp)) (by decide)
   rw[mem_append,not_or]at hk
   have hbranch:=hcan.edge_child_canonical
   obtain⟨f,w,hf⟩:=ih hbranch hk.2
   rw[append_assoc,Tree.lookup_edge_append,forks_edge]
   exact⟨f,.edge hp hbranch w,hf⟩
  exact hmis hpre
 | @branch cs hc hv ih=>
  intro hcan k hk
  have hslot:=(Shaped.branch hc hv).slot
  cases k with
  | nil=>
   refine⟨true,.slot hcan hslot,fun _=>?_,fun _=>rfl⟩
   obtain⟨a,b,r,s,v,w,hab,ha,hb⟩:=hcan.branch_keys
   exact⟨a,b,r,s,hab,by simp[ha],by simp[hb]⟩
  | cons a k=>
   rw[mem_cons,not_or]at hk
   have ha:a≠16:=fun h=>hk.1 h.symm
   have hchild:∃f,Walk (cs a) k ((cs a).lookup (k++[16])) f∧(f=true↔Forks (cs a) k):=by
    by_cases he:cs a=.empty
    ·rw[he]
     refine⟨false,by simpa using .absent k,by simp,?_⟩
     rintro⟨_,_,_,_,-,h,-⟩
     simp at h
    exact ih a ha he (hcan.child a he) hk.2
   obtain⟨f,w,hf⟩:=hchild
   exact⟨f,.branch ha hcan hslot w,hf⟩

lemma exists_walk(hn:Tree.Normal t)(ht:t≠.empty → Shaped t)(hk:16∉k):
 ∃f,Walk t k (t.lookup (k++[16])) f∧(f=true↔Forks t k):=by
 by_cases he:t=.empty
 ·rw[he]
  exact⟨false,by simpa using .absent k,by simp,fun ⟨_,_,_,_,_,h,_⟩=>by simp at h⟩
 exact Walk.of_shaped (ht he) (hn he) hk

/-- An operation that walks down to a key, case by case on loaded nodes. -/
lemma Walk.run(hlen:∀b,(sha3 b).length=32)(op:ℕ→Store→Node→List Nibble→Option (β × Store))
 (R:HexTree→List Nibble→Option Bytes→Bool→Db→Option (β × Store)→Prop)
 (hop:∀fuel st h a key,op (fuel+1) st (.hashNode h) (a::key) =
  resolveHash st h>>=fun r=>op fuel r.2 r.1 (a::key))
 (habsent:∀fuel st k a key,StoreOk st→R .empty k none false st.db (op (fuel+1) st .nil (a::key)))
 (hmismatch:∀fuel st p c n k a key,StoreOk st→k++[16]=a::key→¬p <+: a::key →Expands sha3 st.db n c →
  R (.edge p c) k none false st.db (op (fuel+1) st (.shortNode p n) (a::key)))
 (hleaf:∀fuel st k v,StoreOk st→R (.edge (k++[16]) (.leaf v)) k (some v) false st.db
  (op (fuel+1) st (.shortNode (k++[16]) (.valueNode v)) (k++[16])))
 (hedge:∀fuel st p cs n k o f,StoreOk st→Tree.Canonical (.branch cs) →
  Expands sha3 st.db n (.branch cs) →
  R (.branch cs) k o f st.db (op fuel st n (k++[16])) →
  R (.edge p (.branch cs)) (p++k) o f st.db (op (fuel+1) st (.shortNode p n) (p++(k++[16]))))
 (hslot:∀fuel st cs ns,StoreOk st→Tree.Canonical (.branch cs) →
  (∀i,Expands sha3 st.db (ns i) (cs i))→(cs 16=.empty∨∃v,cs 16=.leaf v) →
  R (.branch cs) [] ((cs 16).lookup []) true st.db (op (fuel+2) st (.fullNode ns) [16]))
 (hbranch:∀fuel st cs ns a k o f,StoreOk st→Tree.Canonical (.branch cs)→a≠16 →
  (∀i,Expands sha3 st.db (ns i) (cs i))→(cs 16=.empty∨∃v,cs 16=.leaf v) →
  R (cs a) k o f st.db (op fuel st (ns a) (k++[16])) →
  R (.branch cs) (a::k) o f st.db (op (fuel+1) st (.fullNode ns) (a::(k++[16]))))
 {f:Bool}(w:Walk t k o f):
 ∀{n:Node} {st:Store} {fuel:ℕ},Expands sha3 st.db n t → StoreOk st →
  2*(k++[16]).length+1≤fuel→R t k o f st.db (op fuel st n (k++[16])):=by
 have hcons:∀k:List Nibble,∃a key,k++[16]=a::key:=fun k=>
  exists_cons_of_ne_nil (by simp)
 have hlift:∀{t k o f},(∀n st fuel,Loaded n→Expands sha3 st.db n t → StoreOk st →
  2*(k++[16]).length≤fuel+1→R t k o f st.db (op (fuel+1) st n (k++[16]))) →
  ∀{n st fuel},Expands sha3 st.db n t → StoreOk st → 2*(k++[16]).length+1≤fuel →
   R t k o f st.db (op fuel st n (k++[16])):=by
  intro t k o f hstep n st fuel h hst hfuel
  refine resolved hlen (fun fuel st n=>op fuel st n _) (R _ _ _ _) (by simp)
   (fun fuel st h=>?_) hstep h hst hfuel
  obtain⟨a,key,hkey⟩:=hcons k
  rw[hkey]
  exact hop fuel st h a key
 induction w with
 | absent k=>
  refine fun {_ _ _}=>hlift fun n st fuel hl h hst _=>?_
  cases h with
  | nil=>
   obtain⟨a,key,hkey⟩:=hcons k
   exact hkey▸habsent fuel st k a key hst
  | hash ht=>exact absurd rfl ht.ne_empty
 | @mismatch p k c hp=>
  refine fun {_ _ _}=>hlift fun n st fuel hl h hst _=>?_
  cases h with
  | short _ h=>
   obtain⟨a,key,hkey⟩:=hcons k
   rw[hkey]at hp ⊢
   exact hmismatch fuel st p c _ k a key hst hkey hp h
  | hash=>exact absurd rfl (hl _)
 | leaf k v=>
  refine fun {_ _ _}=>hlift fun n st fuel hl h hst _=>?_
  cases h with
  | short _ h=>
   cases h with
   | value=>exact hleaf fuel st k v hst
   | hash ht=>cases ht
  | hash=>exact absurd rfl (hl _)
 | @edge p k cs o f hp hc w ih=>
  refine fun {_ _ _}=>hlift fun n st fuel hl h hst hfuel=>?_
  cases h with
  | hash=>exact absurd rfl (hl _)
  | @short n _ _ h=>
   have hpos:=length_pos_of_ne_nil hp
   rw[append_assoc,length_append]at hfuel
   rw[append_assoc]
   exact hedge fuel st p cs n k o f hst hc h (ih h hst (by omega))
 | @slot cs hc hs=>
  refine fun {_ _ _}=>hlift fun n st fuel hl h hst hfuel=>?_
  cases h with
  | hash=>exact absurd rfl (hl _)
  | full h=>
   obtain⟨fuel,rfl⟩:∃g,fuel=g+1:=⟨fuel-1,by simp at hfuel;omega⟩
   exact hslot fuel st cs _ hst hc h hs
 | @branch cs a k o f ha hc hs w ih=>
  refine fun {_ _ _}=>hlift fun n st fuel hl h hst hfuel=>?_
  cases h with
  | hash=>exact absurd rfl (hl _)
  | @full ns _ h=>
   rw[cons_append,length_cons]at hfuel
   exact hbranch fuel st cs ns a k o f hst hc ha h hs (ih (h a) hst (by omega))

/-- A call that panics, or keeps the store and returns what `P` says. -/
def Yields {β:Type} (db:Db) (r:Option (β × Store)) (panics:Bool) (P:β→Prop):Prop:=
 if panics then r=none else ∃x st,r=some (x,st) ∧ StoreOk st ∧ st.db=db ∧ P x

lemma Yields.keeps(h:Yields st.db r panics P)(hp:panics=false):Keeps st r P:=by
 subst hp
 exact h

lemma Yields.bind{γ:Type}{Q:γ→Prop}{panics:Bool}{f:β × Store→Option (γ × Store)}
 (h:Yields st.db r panics P)
 (hf:∀x st',StoreOk st'→st'.db=st.db→P x→Keeps st' (f (x,st')) Q):
 Yields st.db (r>>=f) panics Q:=by
 cases panics with
 | true=>
  have hr:r=none:=h
  rw[hr]
  rfl
 | false=>exact Keeps.bind (h.keeps rfl) hf

lemma getNode_value(fuel:ℕ)(st:Store)(v:Bytes):
 getNode fuel st (.valueNode v) []=some (some v,st):=by
 cases fuel<;>rfl

lemma getNode_short(fuel:ℕ)(st:Store)(p:List Nibble)(n:Node)
 (h:p++s≠[]):getNode (fuel+1) st (.shortNode p n) (p++s)=getNode fuel st n s:=by
 obtain⟨a,key,hkey⟩:=exists_cons_of_ne_nil h
 rw[hkey,getNode,←hkey,if_pos (prefix_append p s),drop_left]

/-- `Get` panics on a key that is not there and ends inside a branch. -/
lemma getNode_walk(hlen:∀b,(sha3 b).length=32){f:Bool}(w:Walk t k o f)
 (h:Expands sha3 st.db n t)(hst:StoreOk st)(hfuel:2*(k++[16]).length+1≤fuel):
 Yields st.db (getNode fuel st n (k++[16])) (f && o.isNone) (· = o):=by
 refine w.run hlen getNode (fun _ _ o f db r=>Yields db r (f && o.isNone) (· = o))
  ?_ ?_ ?_ ?_ ?_ ?_ ?_ h hst hfuel
 ·exact fun _ _ _ _ _=>rfl
 ·exact fun _ _ _ _ _ hst=>⟨_,_,rfl,hst,rfl,rfl⟩
 ·intro fuel st p c n k a key hst _ hp _
  rw[getNode,if_neg hp]
  exact⟨_,_,rfl,hst,rfl,rfl⟩
 ·intro fuel st k v hst
  have hget:=getNode_short fuel st (k++[16]) (.valueNode v) (s:=[]) (by simp)
  rw[append_nil]at hget
  rw[hget,getNode_value]
  exact⟨_,_,rfl,hst,rfl,rfl⟩
 ·intro fuel st p cs n k o f _ _ _ hr
  rwa[getNode_short fuel st p n (by simp)]
 ·intro fuel st cs ns hst _ hns hs
  rw[getNode]
  rcases (hns 16).slot hs with⟨hn,he⟩|⟨v,hn,hv⟩
  ·rw[he,hn]
   rfl
  rw[hv,hn]
  exact⟨_,_,rfl,hst,rfl,rfl⟩
 intro fuel st cs ns a k o f _ _ _ _ _ hr
 exact hr

lemma prefixLen_eq(k l:List Nibble):prefixLen k l=Tree.commonLength k l:=by
 induction k generalizing l with
 | nil=>rfl
 | cons a k ih=>
  cases l with
  | nil=>rfl
  | cons b l=>rw[prefixLen,Tree.commonLength,ih]

lemma insert_nil(hst:StoreOk st)(fuel:ℕ)(key:List Nibble)(h:Expands sha3 db value c):
 Keeps st (TrieOperations.insert (fuel+1) st .nil key value)
  (Expands sha3 db · (Tree.graft key c)):=by
 cases key with
 | nil=>exact .pure hst h
 | cons a key=>exact .pure hst (.short _ h)

lemma expands_fork(h:Expands sha3 db n t)(h':Expands sha3 db n' t'):Expands sha3 db
  (.fullNode (update (update (fun _=>Node.nil) a n) b n'))
  (Tree.fork a t b t'):=by
 refine .full fun i=>?_
 by_cases hb:i=b
 ·subst hb
  simpa using h'
 by_cases ha:i=a
 ·subst ha
  simpa[hb]using h
 simpa[hb,ha]using .nil

lemma insert_short_append(fuel:ℕ)(st:Store)(hp:p≠[])(s:List Nibble)(n value:Node):
 TrieOperations.insert (fuel+1) st (.shortNode p n) (p++s) value =
  TrieOperations.insert fuel st n s value>>=fun r=>some (.shortNode p r.1,r.2):=by
 obtain⟨a,p,rfl⟩:=exists_cons_of_ne_nil hp
 have hm:prefixLen (a::(p++s)) (a::p)=(a::p).length:=by
  rw[prefixLen_eq]
  exact Tree.commonLength_append (a::p) s
 have hdrop:(a::(p++s)).drop (a::p).length=s:=by
  rw[←cons_append]
  exact drop_left
 rw[cons_append,TrieOperations.insert]
 simp only[hm,if_true,hdrop]
 rfl

lemma insert_short_split(fuel:ℕ)(st:Store)(q:List Nibble)(hab:a≠b)(r s:List Nibble)(n value:Node):
 TrieOperations.insert (fuel+1) st (.shortNode (q++a::r) n) (q++b::s) value =
  TrieOperations.insert fuel st .nil r n>>=fun old=>
   TrieOperations.insert fuel old.2 .nil s value>>=fun new=>
    let branch:=Node.fullNode (update (update (fun _=>Node.nil) a old.1) b new.1)
    some (if q=[] then branch else .shortNode q branch,new.2):=by
 obtain⟨x,key,hkey⟩:∃x key,q++b::s=x::key:=by
  cases q with
  | nil=>exact⟨b,s,rfl⟩
  | cons x q=>exact⟨x,q++b::s,rfl⟩
 have hm:prefixLen (x::key) (q++a::r)=q.length:=by
  rw[prefixLen_eq,←hkey]
  exact Tree.commonLength_split q r s hab
 have hne:q.length≠(q++a::r).length:=by simp
 have h1:(q++a::r).drop q.length=a::r:=drop_left
 have h2:(x::key).drop q.length=b::s:=by
  rw[←hkey]
  exact drop_left
 have h3:(x::key).take q.length=q:=by
  rw[←hkey]
  exact take_left
 rw[hkey,TrieOperations.insert]
 simp only[hm,if_neg hne,h1,h2,h3,length_eq_zero_iff]
 congr 1
 funext old
 congr 1
 funext new
 split<;>rfl

lemma insert_spec(hlen:∀b,(sha3 b).length=32)(v:Bytes):
 ∀{key:List Nibble},Tree.Normal t→Tree.Fits key t →
  ∀{n:Node} {st:Store} {fuel:ℕ},Expands sha3 st.db n t → StoreOk st → 2*key.length+1≤fuel →
   Keeps st (TrieOperations.insert fuel st n key (.valueNode v))
    (Expands sha3 st.db · (t.insert key v)):=by
 induction t with
 | empty=>
  intro key _ _ n st fuel h hst hfuel
  obtain⟨fuel,rfl⟩:=Nat.exists_eq_add_of_lt (Nat.zero_lt_of_lt hfuel)
  cases h with
  | nil=>
   rw[Nat.zero_add]
   exact insert_nil hst fuel key (.value v)
  | hash ht=>exact absurd rfl ht.ne_empty
 | leaf w=>
  intro key _ hfit n st fuel h hst hfuel
  obtain⟨fuel,rfl⟩:=Nat.exists_eq_add_of_lt (Nat.zero_lt_of_lt hfuel)
  obtain rfl:=hfit [] w rfl (.inr nil_prefix)
  exact .pure hst (.value v)
 | edge p c ih=>
  intro key hn hfit n st fuel h hst hfuel
  have hc:=hn (by simp)
  have hp:=length_pos_of_ne_nil hc.edge_label_ne
  have hkey:=hfit.ne_nil hc (by simp)
  refine keeps_resolved hlen (fun f st n=>TrieOperations.insert f st n key (.valueNode v))
   (fun db n=>Expands sha3 db n ((Tree.edge p c).insert key v))
   (Nat.mul_pos (by simp) (length_pos_of_ne_nil hkey)) (fun f st h=>?_)
   (fun n st fuel hl h hst hfuel=>?_) h hst hfuel
  ·obtain⟨a,key,rfl⟩:=exists_cons_of_ne_nil hkey
   rfl
  cases h with
  | hash=>exact absurd rfl (hl _)
  | @short n _ _ hchild=>
   rcases Tree.commonLength_cases key p with
    ⟨s,rfl,-⟩ | ⟨a,r,rfl,-⟩ | ⟨q,a,b,r,s,hab,rfl,rfl,-⟩
   ·rw[length_append]at hfuel
    rw[insert_short_append _ _ hc.edge_label_ne,Tree.insert_edge_append]
    refine (ih hc.edge_child_canonical.normal hfit.edge hchild hst (by omega)).bind ?_
    exact fun n' st' hst' _ hn'=>.pure hst' (.short p hn')
   ·exact (hfit.not_shorter hc).elim
   obtain⟨fuel,rfl⟩:∃f,fuel=f+1:=⟨fuel-1,by simp at hfuel;omega⟩
   rw[insert_short_split _ _ _ hab,Tree.insert_edge_split q r s c v hab]
   refine (insert_nil hst fuel r hchild).bind fun old st₁ hst1 _ hold=>?_
   have hvalue:Expands sha3 st.db (.valueNode v) (.leaf v):=.value v
   refine (insert_nil hst1 fuel s hvalue).bind fun new st₂ hst2 _ hnew=>?_
   refine .pure hst2 ?_
   cases q with
   | nil=>exact expands_fork hold hnew
   | cons x q=>exact .short _ (expands_fork hold hnew)
 | branch cs ih=>
  intro key hn hfit n st fuel h hst hfuel
  have hc:=hn (by simp)
  obtain⟨a,key,rfl⟩:=exists_cons_of_ne_nil (hfit.ne_nil hc (by simp))
  refine keeps_resolved hlen
   (fun f st n=>TrieOperations.insert f st n (a::key) (.valueNode v))
   (fun db n=>Expands sha3 db n ((Tree.branch cs).insert (a::key) v)) (by simp)
   (fun _ _ _=>rfl) (fun n st fuel hl h hst hfuel=>?_) h hst hfuel
  cases h with
  | hash=>exact absurd rfl (hl _)
  | @full ns _ h=>
   rw[length_cons]at hfuel
   refine (ih a (hc.child a) hfit.branch (h a) hst (by omega)).bind ?_
   refine fun n' st' hst' _ hn'=>.pure hst' (.full fun i=>?_)
   by_cases hi:i=a
   ·subst hi
    simpa using hn'
   simpa[hi]using h i

lemma remaining_one(ns:Nibble→Node)(is:List Nibble)(p:Nibble):
 (∀i∈is,(ns i).isNil=true)∧remaining ns is (.one p)=.one p∨
  (∃i∈is,(ns i).isNil=false)∧remaining ns is (.one p)=.many:=by
 induction is with
 | nil=>exact .inl ⟨by simp,rfl⟩
 | cons i is ih=>
  cases hi:(ns i).isNil with
  | true=>simpa[remaining,hi]using ih
  | false=>exact .inr ⟨⟨i,by simp,hi⟩,by simp[remaining,hi]⟩

/-- The scan finds no child, the only child, or that there are several. -/
lemma remaining_none(ns:Nibble→Node)(hnd:is.Nodup):
 (∀i∈is,(ns i).isNil=true)∧remaining ns is .none=.none∨
  (∃p,(ns p).isNil=false∧(∀i∈is,(ns i).isNil=false→i=p)∧remaining ns is .none=.one p)∨
  ∃p q,p≠q∧(ns p).isNil=false∧(ns q).isNil=false∧remaining ns is .none=.many:=by
 induction is with
 | nil=>exact .inl ⟨by simp,rfl⟩
 | cons i is ih=>
  rw[nodup_cons]at hnd
  cases hi:(ns i).isNil with
  | true=>simpa[remaining,hi]using ih hnd.2
  | false=>
   have hrem:remaining ns (i::is) .none=remaining ns is (.one i):=by
    simp[remaining,hi]
   rw[hrem]
   rcases remaining_one ns is i with⟨hall,hr⟩|⟨⟨j,hj,hjn⟩,hr⟩
   ·refine .inr (.inl ⟨i,hi,fun j hj hjn=>?_,hr⟩)
    rcases mem_cons.mp hj with rfl|hj
    ·rfl
    rw[hall j hj]at hjn
    cases hjn
   exact .inr (.inr ⟨i,j,fun h=>hnd.1 (h▸hj),hi,hjn,hr⟩)

lemma resolve_spec(hlen:∀b,(sha3 b).length=32)(hst:StoreOk st)(h:Expands sha3 st.db n t):
 Keeps st (resolve st n) (fun n'=>Loaded n'∧Expands sha3 st.db n' t):=by
 rcases h.loaded_or_hash with hl|⟨rfl,ht,hbig,hs⟩
 ·have hr:resolve st n=some (n,st):=by
   cases n with
   | hashNode x=>exact absurd rfl (hl x)
   | _=>rfl
  rw[hr]
  exact .pure hst ⟨hl,h⟩
 refine (resolveHash_stored hlen hst ht (hs _ (.refl _) ht hbig)).imp ?_
 rintro _ rfl
 exact⟨nodeOf_ne_hash ht,expands_nodeOf ht hs⟩

/-- A short node takes over the key of a short node below it. -/
lemma expands_extend(h:Expands sha3 db n t)(ht:t≠.empty)(p:Nibble)
 (hl:Loaded n')(h':Expands sha3 db n' t):
 ∃m,(match n' with
  | .shortNode ckey cval=>Node.shortNode (p::ckey) cval
  | _=>.shortNode [p] n)=m∧Loaded m∧Expands sha3 db m (Tree.extend [p] t):=by
 cases h' with
 | hash=>exact absurd rfl (hl _)
 | nil=>exact absurd rfl ht
 | value | full=>exact⟨_,rfl,fun h=>by simp,.short [p] h⟩
 | short k hc=>exact⟨_,rfl,fun h=>by simp,.short (p::k) hc⟩

lemma reduceFull_spec(hlen:∀b,(sha3 b).length=32)(hst:StoreOk st)
 (h:∀i,Expands sha3 st.db (ns i) (cs i))(hlast:cs 16=.empty∨∃v,cs 16=.leaf v)
 (hne:∃i,cs i≠.empty):
 Keeps st (reduceFull st ns) (fun n=>Loaded n∧Expands sha3 st.db n (Tree.collapse cs)):=by
 have hnil:∀i,(ns i).isNil=false↔cs i≠.empty:=fun i=>by
  rw[ne_eq,←(h i).isNil_iff,Bool.not_eq_true]
 unfold reduceFull
 rcases remaining_none ns (nodup_finRange 17) with
  ⟨hall,hr⟩ | ⟨p,hp,huniq,hr⟩ | ⟨p,q,hpq,hp,hq,hr⟩
 ·obtain⟨i,hi⟩:=hne
  rw[←hnil,hall i (mem_finRange i)]at hi
  cases hi
 ·have hpe:=(hnil p).mp hp
  rw[hr,Tree.collapse_of_unique hpe
   (fun i hi=>huniq i (mem_finRange i) ((hnil i).mpr hi))]
  dsimp only
  split
  ·refine (resolve_spec hlen hst (h p)).bind fun n st' hst' _ hn=>?_
   obtain⟨m,hm,hml,hme⟩:=expands_extend (h p) hpe p hn.1 hn.2
   refine⟨m,st',?_,hst',rfl,hml,hme⟩
   rw[←hm]
   cases n<;>rfl
  rename_i hp16
  obtain rfl:=not_not.mp hp16
  have hp:=h 16
  refine .pure hst ⟨fun h=>by simp,?_⟩
  rcases hlast with hlast|⟨v,hlast⟩
  ·exact absurd hlast hpe
  rw[hlast]at hp ⊢
  exact .short [16] hp
 rw[hr,Tree.collapse_of_two hpq ((hnil p).mp hp) ((hnil q).mp hq)]
 exact .pure hst ⟨fun h=>by simp,.full h⟩

lemma delete_branch_ne_empty(hc:Tree.Canonical (.branch cs))(k:List Nibble):
 (Tree.branch cs).delete k≠.empty:=by
 intro he
 obtain⟨x,y,l,m,v,w,hxy,hl,hm⟩:=hc.branch_keys
 have hnone:∀l,(if l=k then none else (Tree.branch cs).lookup l)=none:=fun l=>by
  rw[←Tree.lookup_delete,he,Tree.lookup_empty]
 by_cases hx:x::l=k
 ·have:=hnone (y::m)
  rw[hm,if_neg (fun h=>hxy (cons.inj (hx.trans h.symm)).1)]at this
  cases this
 have:=hnone (x::l)
 rw[hl,if_neg hx]at this
 cases this

/-- The branch that `delete` leaves has a child. -/
lemma exists_child_after_delete(hc:Tree.Canonical (.branch cs))(a:Nibble)(t:HexTree):
 ∃i,update cs a t i≠.empty:=by
 cases hc with
 | branch _ hf=>
  obtain⟨x,y,hxy,hx,hy⟩:=hf
  by_cases ha:x=a
  ·exact⟨y,by rwa[update_of_ne (fun h=>hxy (ha.trans h.symm))]⟩
  exact⟨x,by rwa[update_of_ne ha]⟩

lemma delete_short_append(fuel:ℕ)(st:Store)(p:List Nibble)(hs:s≠[])(n:Node):
 TrieOperations.delete (fuel+1) st (.shortNode p n) (p++s) =
  TrieOperations.delete fuel st n s>>=fun r=>
   some (match r.1 with
    | .shortNode ckey cval=>.shortNode (p++ckey) cval
    | child=>.shortNode p child,r.2):=by
 have hm:prefixLen (p++s) p=p.length:=by
  rw[prefixLen_eq]
  exact Tree.commonLength_append p s
 have hne:p.length≠(p++s).length:=by
  simpa using hs
 rw[TrieOperations.delete]
 simp only[hm,lt_irrefl,if_false,if_neg hne,drop_left]
 congr 1
 funext r
 rcases r with⟨child,st'⟩
 cases child<;>rfl

lemma delete_short_self(fuel:ℕ)(st:Store)(p:List Nibble)(n:Node):
 TrieOperations.delete (fuel+1) st (.shortNode p n) p=some (.nil,st):=by
 have hm:prefixLen p p=p.length:=by
  have:=Tree.commonLength_append p []
  rwa[append_nil,←prefixLen_eq]at this
 rw[TrieOperations.delete]
 simp only[hm,lt_irrefl,if_false,if_true]

lemma delete_short_mismatch(fuel:ℕ)(st:Store)(h:¬p <+: key)(n:Node):
 TrieOperations.delete (fuel+1) st (.shortNode p n) key=some (.shortNode p n,st):=by
 have hm:prefixLen key p<p.length:=by
  rw[prefixLen_eq]
  rcases Tree.commonLength_cases key p with
   ⟨s,rfl,-⟩ | ⟨a,r,rfl,hm⟩ | ⟨q,a,b,r,s,hab,rfl,rfl,hm⟩
  ·exact absurd (prefix_append p s) h
  ·rw[hm]
   simp
  rw[hm]
  simp
 rw[TrieOperations.delete]
 simp only[hm,if_true]

lemma delete_edge_append(p s:List Nibble)(c:HexTree):
 (Tree.edge p c).delete (p++s)=Tree.extend p (c.delete s):=by
 rw[Tree.delete,if_pos (prefix_append p s),drop_left]

/-- `delete` panics on a key that is there and ends inside a branch. -/
lemma delete_walk(hlen:∀b,(sha3 b).length=32){f:Bool}(w:Walk t k o f)
 (h:Expands sha3 st.db n t)(hst:StoreOk st)(hfuel:2*(k++[16]).length+1≤fuel):
 Yields st.db (TrieOperations.delete fuel st n (k++[16])) (f && o.isSome)
  (fun n'=>Loaded n'∧Expands sha3 st.db n' (t.delete (k++[16]))):=by
 refine w.run hlen TrieOperations.delete (fun t k o f db r=>Yields db r (f && o.isSome)
  (fun n'=>Loaded n'∧Expands sha3 db n' (t.delete (k++[16])))) ?_ ?_ ?_ ?_ ?_ ?_ ?_
  h hst hfuel
 ·exact fun _ _ _ _ _=>rfl
 ·exact fun fuel st k _ _ hst=>⟨_,_,rfl,hst,rfl,fun h=>by simp,.nil⟩
 ·intro fuel st p c n k a key hst hkey hp hn
  rw[delete_short_mismatch _ _ hp,hkey,Tree.delete,if_neg hp]
  exact⟨_,_,rfl,hst,rfl,fun h=>by simp,.short p hn⟩
 ·intro fuel st k v hst
  have hdel:=delete_edge_append (k++[16]) [] (.leaf v)
  rw[append_nil]at hdel
  rw[delete_short_self,hdel]
  exact⟨_,_,rfl,hst,rfl,fun h=>by simp,.nil⟩
 ·intro fuel st p cs n k o f hst hc hn hr
  rw[delete_short_append _ _ _ (by simp),append_assoc,delete_edge_append]
  refine hr.bind fun n' st' hst' _ hn'=>.pure hst' ?_
  have hne:=delete_branch_ne_empty hc (k++[16])
  generalize (Tree.branch cs).delete (k++[16])=t' at hn' hne
  obtain⟨hl',hn'⟩:=hn'
  cases hn' with
  | hash=>exact absurd rfl (hl' _)
  | nil=>exact absurd rfl hne
  | value v=>exact⟨fun h=>by simp,.short p (.value v)⟩
  | short k hk=>exact⟨fun h=>by simp,.short (p++k) hk⟩
  | full hk=>exact⟨fun h=>by simp,.short p (.full hk)⟩
 ·intro fuel st cs ns hst hc hns hs
  rcases (hns 16).slot hs with⟨hn,he⟩|⟨v,hn,hv⟩
  ·have hsame:update cs 16 ((cs 16).delete [])=cs:=by
    rw[he,Tree.delete,←he,update_eq_self]
   have hupd:update ns 16 .nil=ns:=by rw[←hn,update_eq_self]
   have hred:=reduceFull_spec hlen hst hns hs (hsame▸exists_child_after_delete hc 16 _)
   rw[nil_append,Tree.delete,hsame,he,TrieOperations.delete,hn,
    TrieOperations.delete,bind_eq_bind,bind_some]
   dsimp only
   rw[hupd]
   exact hred
  rw[hv,TrieOperations.delete,hn,TrieOperations.delete]
  rfl
 intro fuel st cs ns a k o f hst hc ha hns hs hr
 refine hr.bind fun n' st' hst' hdb hn'=>?_
 rw[cons_append,Tree.delete,←hdb]
 refine reduceFull_spec hlen hst' (fun i=>?_) ?_ (exists_child_after_delete hc a _)
 ·rw[hdb]
  by_cases hi:i=a
  ·subst hi
   simpa using hn'.2
  simpa[hi]using hns i
 rwa[update_of_ne ha.symm]

end GoCoupe.TrieRefinement
