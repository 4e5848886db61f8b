import GoCoupe.TrieRefinement
import Mathlib.Data.Set.Function

/-!
# Hashing and committing a trie

Hashing a node gives the collapsed form of its tree, whatever part is loaded. Afterwards the
database holds every node that the tree refers to by its hash, and has lost nothing if no two
encodings have the same hash.
-/

namespace GoCoupe.TrieHashing
open PatriciaTrees HexPrefixKeys RlpEncoding TrieNodes TrieNodeCodec TrieRefinement
open List Option Function

variable {sha3:Bytes→Bytes}

def putAll (sha3:Bytes→Bytes):List Bytes→Db→Db
 | [],db=>db
 | e::es,db=>putAll sha3 es (update db (sha3 e) (some e))

lemma putAll_append(es es':List Bytes)(db:Db):
 putAll sha3 (es++es') db=putAll sha3 es' (putAll sha3 es db):=by
 induction es generalizing db with
 | nil=>rfl
 | cons e es ih=>exact ih _

lemma map_putAll_append(es es':List Bytes)(db:Option Db):
 (db.map (putAll sha3 es)).map (putAll sha3 es')=db.map (putAll sha3 (es++es')):=by
 cases db with
 | none=>rfl
 | some db=>simp only[map_some,putAll_append]

/-- The database maps hashes to encodings from a given set. -/
def Addressed (sha3:Bytes→Bytes) (E:Set Bytes) (db:Db):Prop:=∀h e,db h=some e→e∈E ∧ h=sha3 e

variable {E:Set Bytes} {db db₀:Db} {es:List Bytes} {t:HexTree} {cs:Nibble→HexTree}
 {n:Node} {ns:Nibble→Node}

lemma Addressed.put(h:Addressed sha3 E db)(he:e∈E):
 Addressed sha3 E (update db (sha3 e) (some e)):=by
 intro h' e' hdb
 by_cases heq:h'=sha3 e
 ·subst heq
  rw[update_self,Option.some.injEq]at hdb
  exact hdb▸⟨he,rfl⟩
 rw[update_of_ne heq]at hdb
 exact h h' e' hdb

lemma includes_put(hinj:Set.InjOn sha3 E)(h:Addressed sha3 E db)(he:e∈E):
 Includes db (update db (sha3 e) (some e)):=by
 intro h' e' hdb
 by_cases heq:h'=sha3 e
 ·obtain⟨he',hh⟩:=h h' e' hdb
  rw[heq,update_self,hinj he' he (hh.symm.trans heq)]
 rwa[update_of_ne heq]

lemma putAll_spec(hinj:Set.InjOn sha3 E):∀{db:Db},Addressed sha3 E db→(∀e∈es,e∈E) →
  Addressed sha3 E (putAll sha3 es db)∧Includes db (putAll sha3 es db)∧
   ∀e∈es,putAll sha3 es db (sha3 e)=some e:=by
 induction es with
 | nil=>exact fun h _=>⟨h,fun _ _ hk=>hk,by simp⟩
 | cons e es ih=>
  intro db h hes
  have he:=hes e (by simp)
  obtain⟨ha,hi,hput⟩:=ih (h.put he) (fun e' he'=>hes e' (by simp[he']))
  refine⟨ha,(includes_put hinj h he).trans hi,fun e' he'=>?_⟩
  rcases mem_cons.mp he' with rfl|he'
  ·exact hi _ _ (update_self ..)
  exact hput e' he'

/-- Every node of the tree that needs storing is among the given encodings or in the
database already. -/
def Covers (sha3:Bytes→Bytes) (db:Db) (es:List Bytes) (t:HexTree):Prop:=
 ∀s,Tree.Subtree s t → Shaped s → 32≤(encoding sha3 s).length →
  encoding sha3 s∈es ∨ db (sha3 (encoding sha3 s))=some (encoding sha3 s)

def CoversBelow (sha3:Bytes→Bytes) (db:Db) (es:List Bytes) (t:HexTree):Prop:=
 ∀s,Tree.Subtree s t→s≠t → Shaped s → 32≤(encoding sha3 s).length →
  encoding sha3 s∈es ∨ db (sha3 (encoding sha3 s))=some (encoding sha3 s)

lemma Covers.mono(h:Covers sha3 db es t)(hes:∀e∈es,e∈es'):Covers sha3 db es' t:=
 fun s hs hsh hbig=>(h s hs hsh hbig).imp_left (hes _)

lemma covers_empty(db:Db)(es:List Bytes):Covers sha3 db es .empty:=by
 rintro s ⟨⟩ hsh
 cases hsh

lemma covers_leaf(db:Db)(es:List Bytes)(v:Bytes):Covers sha3 db es (.leaf v):=by
 rintro s ⟨⟩ hsh
 cases hsh

lemma coversBelow_edge(h:Covers sha3 db es c):CoversBelow sha3 db es (.edge k c):=by
 intro s hs hne
 cases hs with
 | refl=>exact absurd rfl hne
 | edge _ hs=>exact h s hs

lemma coversBelow_branch(h:∀i,Covers sha3 db es (cs i)):CoversBelow sha3 db es (.branch cs):=by
 intro s hs hne
 cases hs with
 | refl=>exact absurd rfl hne
 | branch i hs=>exact h i s hs

lemma CoversBelow.cons(h:CoversBelow sha3 db es t):Covers sha3 db (es++[encoding sha3 t]) t:=by
 intro s hs hsh hbig
 by_cases heq:s=t
 ·subst heq
  exact .inl (by simp)
 exact (h s hs heq hsh hbig).imp_left (fun he=>by simp[he])

structure Hashed (sha3:Bytes→Bytes) (db₀:Db) (t:HexTree)
 (f:Option Db→Option (Collapsed × Option Db)) (n:Collapsed) (es:List Bytes):Prop where
 result:∀db,f db=some (n,db.map (putAll sha3 es))
 mem:∀e∈es,e∈nodeEncodings sha3 t
 covers:Covers sha3 db₀ es t

lemma hash_eq(n:Node)(db:Option Db)(force:Bool):TrieNodes.hash sha3 n db force =
  (replaceChildren sha3 n db).map (fun r=>store sha3 r.1 r.2 force):=rfl

lemma replaceChildren_short(hv:val.isValue=false)(key:List Nibble)(db:Option Db):
 replaceChildren sha3 (.shortNode key val) db =
  compactEncode key>>=fun k=>(TrieNodes.hash sha3 val db false).map
   (fun r=>(.shortNode k r.1.orEmpty,r.2)):=by
 rw[replaceChildren,hash_eq]
 congr 1
 funext k
 rw[hv]
 cases replaceChildren sha3 val db<;>rfl

def hashChild (sha3:Bytes→Bytes) (cs:Nibble→Node)
 (acc:(Nibble → Collapsed) × Option Db) (i:Nibble):
 Option ((Nibble → Collapsed) × Option Db):=
 if (cs i).isNil then some (update acc.1 i (.valueNode []),acc.2)
 else (TrieNodes.hash sha3 (cs i) acc.2 false).map (fun r=>(update acc.1 i r.1,r.2))

lemma hashChild_eq(cs:Nibble→Node)(acc:(Nibble → Collapsed) × Option Db)(i:Nibble):(do
  if (cs i).isNil then pure (update acc.1 i (Collapsed.valueNode []),acc.2)
  else do
   let (hashed,db) ← replaceChildren sha3 (cs i) acc.2
   let (child,db):=store sha3 hashed db false
   pure (update acc.1 i child,db):Option ((Nibble → Collapsed) × Option Db)) =
  hashChild sha3 cs acc i:=by
 unfold hashChild
 rw[hash_eq]
 split
 ·rfl
 cases replaceChildren sha3 (cs i) acc.2<;>rfl

lemma replaceChildren_full(cs:Nibble→Node)(db:Option Db):replaceChildren sha3 (.fullNode cs) db =
  (branchIndices.foldlM (hashChild sha3 cs) ((fun i=>(cs i).raw),db)).map
   (fun r=>(.fullNode (update r.1 16 (r.1 16).orEmpty),r.2)):=by
 rw[replaceChildren,funext fun acc=>funext (hashChild_eq cs acc)]
 cases branchIndices.foldlM (hashChild sha3 cs) ((fun i=>(cs i).raw),db)<;>rfl

lemma store_fst(sha3:Bytes→Bytes)(n:Collapsed)(db:Option Db)(force:Bool):
 ∃f:Db→Db,store sha3 n db force=((store sha3 n none force).1,db.map f):=by
 cases n with
 | nil | hashNode=>exact⟨id,by cases db<;>rfl⟩
 | _=>
  simp only[store]
  split
  ·exact⟨id,by cases db<;>rfl⟩
  exact⟨_,rfl⟩

lemma hash_collapse(h:∀db:Option Db,∃f:Db→Db,
 replaceChildren sha3 n db=some (collapse sha3 n,db.map f))(db:Option Db):
 ∃f:Db→Db,TrieNodes.hash sha3 n db false =
  some ((store sha3 (collapse sha3 n) none false).1,db.map f):=by
 obtain⟨f,hf⟩:=h db
 obtain⟨g,hg⟩:=store_fst sha3 (collapse sha3 n) (db.map f) false
 refine⟨g ∘ f,?_⟩
 rw[hash_eq,hf,map_some,hg,Option.map_map]

lemma reference_collapse(hn:n.isNil=false):
 reference sha3 (collapse sha3 n)=(store sha3 (collapse sha3 n) none false).1:=by
 rw[reference]
 cases hc:collapse sha3 n with
 | nil=>cases n<;>simp[collapse,Node.raw,Node.isNil]at hc hn
 | hashNode h=>rfl
 | _=>
  simp only[store]
  split<;>rfl

lemma foldlM_collapse{cs:Nibble→Node}(is:List Nibble)(h:∀i∈is,∀db:Option Db,∃f:Db→Db,
  replaceChildren sha3 (cs i) db=some (collapse sha3 (cs i),db.map f))
 (acc:Nibble → Collapsed)(db:Option Db):
 ∃f:Db→Db,is.foldlM (hashChild sha3 cs) (acc,db) =
  some ((fun i=>if i∈is then reference sha3 (collapse sha3 (cs i)) else acc i),db.map f):=by
 induction is generalizing acc db with
 | nil=>exact⟨id,by cases db<;>rfl⟩
 | cons i is ih=>
  have hturn:∃f:Db→Db,hashChild sha3 cs (acc,db) i =
   some (update acc i (reference sha3 (collapse sha3 (cs i))),db.map f):=by
   rw[hashChild]
   cases hn:(cs i).isNil with
   | true=>
    refine⟨id,?_⟩
    cases hi:cs i with
    | nil=>cases db<;>rfl
    | _=>rw[hi]at hn;cases hn
   | false=>
    obtain⟨f,hf⟩:=hash_collapse (h i (by simp)) db
    refine⟨f,?_⟩
    simp only[Bool.false_eq_true,if_false]
    rw[hf,map_some,reference_collapse hn]
  obtain⟨f,hf⟩:=hturn
  obtain⟨g,hg⟩:=ih (fun j hj=>h j (by simp[hj]))
   (update acc i (reference sha3 (collapse sha3 (cs i)))) (db.map f)
  refine⟨g ∘ f,?_⟩
  rw[foldlM_cons,hf,bind_eq_bind,bind_some,hg,Option.map_map]
  congr 2
  funext j
  by_cases hj:j∈is
  ·simp[hj]
  by_cases hji:j=i
  ·subst hji
   simp[hj]
  simp[hj,hji]

lemma replaceChildren_collapse(sha3:Bytes→Bytes)(h:WellFormed n):∀db:Option Db,
 ∃f:Db→Db,replaceChildren sha3 n db=some (collapse sha3 n,db.map f):=by
 induction h with
 | nil | hash=>exact fun db=>⟨id,by cases db<;>rfl⟩
 | value hk=>
  intro db
  obtain⟨enc,henc,-⟩:=compactDecode_compactEncode hk
  refine⟨id,?_⟩
  rw[replaceChildren,henc,collapse,henc]
  cases db<;>rfl
 | @extension key val hk hin hval ih=>
  intro db
  obtain⟨enc,henc,-⟩:=compactDecode_compactEncode
   (⟨hk,fun n hn=>hin n (dropLast_subset key hn)⟩:HexKey key)
  obtain⟨f,hf⟩:=hash_collapse ih db
  refine⟨f,?_⟩
  rw[replaceChildren_short hval.not_value,henc,bind_eq_bind,bind_some,hf,collapse,henc,hval.not_value]
  rfl
 | @full cs hcs hv ih=>
  intro db
  obtain⟨f,hf⟩:=foldlM_collapse branchIndices
   (fun i hi=>ih i (mem_branchIndices.mp hi)) (fun i=>(cs i).raw) db
  refine⟨f,?_⟩
  rw[replaceChildren_full,hf,map_some,collapse]
  congr 3
  funext i
  by_cases hi:i=16
  ·subst hi
   simp[mem_branchIndices]
  simp[mem_branchIndices,hi]

/-- What the store writes for a node in memory after its children were replaced is decoded
to that node, each child with at least 32 bytes of its own replaced by its hash. -/
theorem decodeNode_stored (hlen : ∀ b, (sha3 b).length = 32) {n : Node} (hn : WellFormed n)
    (hin : isInner n = true) (db : Db) :
    ∃ c db', replaceChildren sha3 n (some db) = some (c, some db') ∧
      (∀ force, store sha3 c (some db') force =
        if (rlpEncode c.toItem).length < 32 ∧ force = false then (c, some db')
        else (.hashNode (sha3 (rlpEncode c.toItem)),
          some (Function.update db' (sha3 (rlpEncode c.toItem)) (some (rlpEncode c.toItem))))) ∧
      ((rlpEncode c.toItem).length < 2 ^ 63 →
        decodeNode (rlpEncode c.toItem) = pure (decoded sha3 n)) := by
 obtain⟨f,hf⟩:=replaceChildren_collapse sha3 hn (some db)
 refine⟨_,_,hf,fun force=>?_,fun hsize=>?_⟩
 · rw[rlpEncode_eq]
   exact store_collapse hin (some (f db)) force
 rw[rlpEncode_eq] at hsize ⊢
 have hdec:=decodeNested_written hlen hn hin (Nat.lt_trans hsize (by norm_num))
  ((written sha3 n).length+1) [] (Nat.lt_succ_self _)
 rwa[append_nil] at hdec

theorem decodeNode_stored_leaf :
    decodeNode (rlpEncode (.list [.string [0x31], .string [7, 8]])) =
      pure (.shortNode [1, 16] (.valueNode [7, 8])) := by
 have hkey:HexKey [1,16]:=⟨by decide,by decide⟩
 have hlen:∀b:Bytes,((fun _=>replicate 32 1:Bytes→Bytes) b).length=32:=fun _=>length_replicate
 obtain⟨c,db',hrep,-,hdec⟩:=decodeNode_stored hlen
  (WellFormed.value (v := [7,8]) hkey rfl) rfl (fun _=>none)
 obtain rfl:Collapsed.shortNode [0x31] (.valueNode [7,8])=c:=
  (Prod.mk.inj (some.inj hrep)).1
 exact hdec (by rw[rlpEncode_eq]; decide)

def childForm (sha3:Bytes→Bytes) (t:HexTree):Collapsed:=(store sha3 (collapsed sha3 t) none false).1

lemma childForm_orEmpty(h:Shaped t):childForm sha3 t=reference sha3 (collapsed sha3 t):=by
 unfold reference childForm
 rw[store_collapsed h]
 split
 ·cases h<;>rfl
 rfl

lemma hash_child(h:Expands sha3 db₀ n c)(hc:Shaped c)
 (ih:Loaded n→∃es,(∀db,replaceChildren sha3 n db = some (collapsed sha3 c,db.map (putAll sha3 es)))∧
  (∀e∈es,e∈nodeEncodings sha3 c)∧CoversBelow sha3 db₀ es c):
 ∃es,Hashed sha3 db₀ c (TrieNodes.hash sha3 n · false) (childForm sha3 c) es:=by
 rcases h.loaded_or_hash with hl|⟨rfl,-,hbig,hst⟩
 ·obtain⟨es,hr,hmem,hcov⟩:=ih hl
  by_cases hlt:(encoding sha3 c).length<32
  ·refine⟨es,fun db=>?_,hmem,fun s hs hsh hbig=>?_⟩
   ·rw[hash_eq,hr,map_some,childForm,store_collapsed hc,store_collapsed hc,
     if_pos ⟨hlt,rfl⟩,if_pos ⟨hlt,rfl⟩]
   exact hcov s hs (by rintro rfl;omega) hsh hbig
  refine⟨es++[encoding sha3 c],fun db=>?_,fun e he=>?_,hcov.cons⟩
  ·rw[hash_eq,hr,map_some,childForm,store_collapsed hc,store_collapsed hc,
    if_neg (hlt ·.1),if_neg (hlt ·.1),←map_putAll_append]
   rfl
  rcases mem_append.mp he with he|he
  ·exact hmem e he
  rw[mem_singleton.mp he]
  exact encoding_mem hc
 refine⟨[],fun db=>?_,by simp,fun s hs hsh hbig'=>.inr (hst s hs hsh hbig')⟩
 rw[childForm,store_collapsed hc,if_neg (fun h=>absurd h.1 (by omega))]
 cases db<;>rfl

lemma hashChild_spec(h:Expands sha3 db₀ (ns i) (cs i))
 (hchild:cs i≠.empty → Shaped (cs i)∧∃es,Hashed sha3 db₀ (cs i)
  (TrieNodes.hash sha3 (ns i) · false) (childForm sha3 (cs i)) es):
 ∃es,(∀f db,hashChild sha3 ns (f,db) i =
  some (update f i (reference sha3 (collapsed sha3 (cs i))),db.map (putAll sha3 es)))∧
  (∀e∈es,e∈nodeEncodings sha3 (cs i))∧Covers sha3 db₀ es (cs i):=by
 by_cases he:cs i=.empty
 ·refine⟨[],fun f db=>?_,by simp,by rw[he];exact covers_empty db₀ []⟩
  rw[hashChild,if_pos (h.isNil_iff.mpr he),he]
  cases db<;>rfl
 obtain⟨hsh,es,hes⟩:=hchild he
 refine⟨es,fun f db=>?_,hes.mem,hes.covers⟩
 rw[hashChild,if_neg (fun hn=>he (h.isNil_iff.mp hn)),hes.result db,childForm_orEmpty hsh,map_some]

lemma foldlM_hashChild(is:List Nibble)(hstep:∀i∈is,∃es,(∀f db,hashChild sha3 ns (f,db) i =
  some (update f i (reference sha3 (collapsed sha3 (cs i))),db.map (putAll sha3 es)))∧
  (∀e∈es,e∈nodeEncodings sha3 (cs i))∧Covers sha3 db₀ es (cs i)):
 ∃es,(∀f db,is.foldlM (hashChild sha3 ns) (f,db) =
  some ((fun i=>if i∈is then reference sha3 (collapsed sha3 (cs i)) else f i),
   db.map (putAll sha3 es)))∧
  (∀e∈es,∃i,e∈nodeEncodings sha3 (cs i))∧∀i∈is,Covers sha3 db₀ es (cs i):=by
 induction is with
 | nil=>exact⟨[],fun f db=>by cases db<;>rfl,by simp,by simp⟩
 | cons i is ih=>
  obtain⟨es,hr,hmem,hcov⟩:=hstep i (by simp)
  obtain⟨es',hr',hmem',hcov'⟩:=ih (fun j hj=>hstep j (by simp[hj]))
  refine⟨es++es',fun f db=>?_,fun e he=>?_,fun j hj=>?_⟩
  ·rw[foldlM_cons,hr,bind_eq_bind,bind_some,hr',map_putAll_append]
   congr 2
   funext j
   by_cases hj:j∈is
   ·simp[hj]
   by_cases hji:j=i
   ·subst hji
    simp[hj]
   simp[hj,hji]
  ·rcases mem_append.mp he with he|he
   ·exact⟨i,hmem e he⟩
   exact hmem' e he
  rcases mem_cons.mp hj with rfl|hj
  ·exact hcov.mono (fun e he=>mem_append_left _ he)
  exact (hcov' j hj).mono (fun e he=>mem_append_right _ he)

lemma expands_slot_raw(h:Expands sha3 db₀ n t)(ht:t=.empty∨∃v,t=.leaf v):
 n.raw.orEmpty=(collapsed sha3 t).orEmpty:=by
 rcases h.slot ht with⟨rfl,rfl⟩|⟨v,rfl,rfl⟩
 ·rfl
 rfl

lemma replaceChildren_spec(h:Expands sha3 db₀ n t):
 Shaped t → Loaded n→∃es,(∀db,replaceChildren sha3 n db =
  some (collapsed sha3 t,db.map (putAll sha3 es)))∧
  (∀e∈es,e∈nodeEncodings sha3 t)∧CoversBelow sha3 db₀ es t:=by
 induction h with
 | nil | value=>exact fun h=>nomatch h
 | hash=>exact fun _ hl=>absurd rfl (hl _)
 | @short n c k h ih=>
  intro hsh _
  obtain⟨enc,henc,-⟩:=compactDecode_compactEncode hsh.hexKey
  cases hsh with
  | @value _ v=>
   refine⟨[],fun db=>?_,by simp,coversBelow_edge (covers_leaf db₀ [] v)⟩
   cases h with
   | value=>
    rw[replaceChildren,henc,collapsed,henc]
    cases db<;>rfl
   | hash hs=>cases hs
  | @inner _ cs _ _ _ hc=>
   obtain⟨es,hes⟩:=hash_child h hc (ih hc)
   refine⟨es,fun db=>?_,fun e he=>nodeEncodings_edge k _ (hes.mem e he),coversBelow_edge hes.covers⟩
   have hv:n.isValue=false:=by
    cases h<;>rfl
   rw[replaceChildren_short hv,henc,collapsed,henc,bind_eq_bind,bind_some,
    hes.result db,map_some,childForm,getD_some]
   rfl
 | @full ns cs h ih=>
  intro hsh _
  have hlast:=hsh.slot
  cases hsh with
  | branch hc hv=>
   obtain⟨es,hr,hmem,hcov⟩:=foldlM_hashChild branchIndices fun i hi=>
    hashChild_spec (h i) fun he=>
     have hs:=hc i (mem_branchIndices.mp hi) he
     ⟨hs,hash_child (h i) hs (ih i hs)⟩
   refine⟨es,fun db=>?_,fun e he=>?_,coversBelow_branch fun i=>?_⟩
   ·rw[replaceChildren_full,hr,map_some,collapsed]
    congr 3
    funext i
    by_cases hi:i=16
    ·subst hi
     simpa[mem_branchIndices]using expands_slot_raw (h 16) hlast
    simp[mem_branchIndices,hi]
   ·obtain⟨i,he⟩:=hmem e he
    exact nodeEncodings_branch cs i he
   by_cases hi:i=16
   ·subst hi
    rcases hlast with hlast|⟨v,hlast⟩
    ·rw[hlast]
     exact covers_empty db₀ es
    rw[hlast]
    exact covers_leaf db₀ es v
   exact hcov i (mem_branchIndices.mpr hi)

/-- Hashing a loaded root always gives its hash. -/
lemma hash_root(h:Expands sha3 db₀ n t)(ht:Shaped t)(hl:Loaded n):
 ∃es,Hashed sha3 db₀ t (TrieNodes.hash sha3 n · true)
  (.hashNode (sha3 (encoding sha3 t))) (es++[encoding sha3 t]):=by
 obtain⟨es,hr,hmem,hcov⟩:=replaceChildren_spec h ht hl
 refine⟨es,fun db=>?_,fun e he=>?_,hcov.cons⟩
 ·rw[hash_eq,hr,map_some,store_collapsed ht,if_neg (by simp),←map_putAll_append]
  rfl
 rcases mem_append.mp he with he|he
 ·exact hmem e he
 rw[mem_singleton.mp he]
 exact encoding_mem ht

end GoCoupe.TrieHashing
