import GoCoupe.MerkleProofs
import GoCoupe.TrieAsMap

/-!
# Merkle proofs are complete and sound

The prover encodes the nodes on a path that are large enough to be kept by their hash, and each
decoded node leads the verifier to the next of them.
-/

namespace GoCoupe.MerkleProofSoundness
open PatriciaTrees HexPrefixKeys RlpEncoding RlpRawSplitting TrieNodes TrieNodeCodec TrieOperations
open List Option
 TrieRefinement TrieHashing TrieMappings TrieSessions MerkleProofs

def path:HexTree→List Nibble→List HexTree
 | .edge p c,key=>if p <+: key then .edge p c::path c (key.drop p.length) else []
 | .branch cs,a::key=>.branch cs::path (cs a) key
 | _,_=>[]

/-- The node is kept by its hash. -/
def Big (sha3:Bytes→Bytes) (t:HexTree):Prop:=32≤(encoding sha3 t).length

instance (sha3:Bytes→Bytes) (t:HexTree):Decidable (Big sha3 t):=inferInstanceAs (Decidable (_≤_))

def bigPath (sha3:Bytes→Bytes) (t:HexTree) (key:List Nibble):List HexTree:=
 (path t key).filter (Big sha3 ·)

/-- The large nodes on a path, without the first node. -/
def bigBelow (sha3:Bytes→Bytes) (t:HexTree) (key:List Nibble):List HexTree:=
 (path t key).tail.filter (Big sha3 ·)

lemma path_edge(p s:List Nibble)(c:HexTree):path (.edge p c) (p++s)=.edge p c::path c s:=by
 rw[path,if_pos (prefix_append p s),drop_left]

variable {key:List Nibble} {t:HexTree} {v:Bytes} {db:Db} {n:Node} {ts:List HexTree}
 {ns:List Node}

lemma path_of_lookup(ht:Tree.Canonical t)(hkey:key≠[])(h:t.lookup key=some v):
 path t key=t::(path t key).tail:=by
 cases t with
 | empty=>cases ht
 | leaf w=>
  obtain⟨a,key,rfl⟩:=exists_cons_of_ne_nil hkey
  rw[Tree.lookup_leaf_cons]at h
  cases h
 | edge p c=>
  obtain⟨s,rfl,-⟩:=Tree.lookup_edge_eq_some h
  rw[path_edge,tail_cons]
 | branch cs=>
  obtain⟨a,key,rfl⟩:=exists_cons_of_ne_nil hkey
  rfl

lemma path_shaped(ht:Shaped t):∀s∈path t key,Shaped s:=by
 induction ht generalizing key with
 | @value k v hk hend hlen hv=>
  intro s hs
  rw[path]at hs
  split at hs
  ·rcases mem_cons.1 hs with rfl|hs
   ·exact .value hk hend hlen hv
   cases hs
  cases hs
 | @inner k cs hk hin hlen hc ih=>
  intro s hs
  rw[path]at hs
  split at hs
  ·rcases mem_cons.1 hs with rfl|hs
   ·exact .inner hk hin hlen hc
   exact ih s hs
  cases hs
 | @branch cs hc hv ih=>
  intro s hs
  cases key with
  | nil=>cases hs
  | cons a key=>
   rcases mem_cons.1 hs with rfl|hs
   ·exact .branch hc hv
   by_cases he:cs a=.empty
   ·rw[he]at hs
    cases hs
   by_cases ha:a=16
   ·subst ha
    obtain⟨v,-,-,hv⟩:=hv.resolve_left he
    rw[hv]at hs
    cases hs
   exact ih a ha he s hs

variable {sha3:Bytes→Bytes}

/-- Where the walk through a decoded node stops: at a value, at a gap, or at the next large
node with the rest of the key. -/
inductive Stop (sha3:Bytes→Bytes) (t:HexTree) (key:List Nibble):List Nibble × Node→Prop
 | value {v:Bytes} (hlook:t.lookup key=some v) (hpath:bigBelow sha3 t key=[]) :
  Stop sha3 t key ([],.valueNode v)
 | missing {rest:List Nibble} (hlook:t.lookup key=none):Stop sha3 t key (rest,.nil)
 | hash {s:HexTree} {rest:List Nibble} (hsub:Tree.Subtree s t) (hs:Shaped s)
  (hc:Tree.Canonical s) (hbig:Big sha3 s) (hsep:Separated rest s) (hrest:rest≠[])
  (hlook:t.lookup key=s.lookup rest)
  (hpath:bigBelow sha3 t key=bigPath sha3 s rest) :
  Stop sha3 t key (rest,.hashNode (sha3 (encoding sha3 s)))

lemma path_cases(t:HexTree)(key:List Nibble):path t key=[]∨path t key=t::(path t key).tail:=by
 cases t with
 | empty=>exact .inl rfl
 | leaf v=>exact .inl rfl
 | edge p c=>
  rw[path]
  split
  ·exact .inr rfl
  exact .inl rfl
 | branch cs=>
  cases key with
  | nil=>exact .inl rfl
  | cons a key=>exact .inr rfl

lemma bigPath_of_small(h:(encoding sha3 t).length<32)(key:List Nibble):
 bigPath sha3 t key=bigBelow sha3 t key:=by
 unfold bigPath bigBelow
 rcases path_cases t key with hp|hp
 ·rw[hp]
  rfl
 have hsmall:¬Big sha3 t:=Nat.not_le.2 h
 rw[hp,tail_cons,filter_cons_of_neg]
 rwa[decide_eq_true_eq]

lemma bigPath_of_big(h:Big sha3 t)(hp:path t key=t::(path t key).tail):
 bigPath sha3 t key=t::bigBelow sha3 t key:=by
 unfold bigPath bigBelow
 rw[hp,tail_cons,filter_cons_of_pos]
 rwa[decide_eq_true_eq]

lemma get_hash(hkey:key≠[])(h:Bytes):get (.hashNode h) key=some (key,.hashNode h):=by
 obtain⟨a,key,rfl⟩:=exists_cons_of_ne_nil hkey
 rfl

/-- The walk goes on into a child, or stops there because the child is large. -/
lemma stop_child(hsub:∀s,Tree.Subtree s c→Tree.Subtree s t)(hs:Shaped c)(hc:Tree.Canonical c)
 (hsep:Separated rest c)(hrest:rest≠[])(hlook:t.lookup key=c.lookup rest)
 (hpath:bigBelow sha3 t key=bigPath sha3 c rest)
 (ih:∃res,get (nodeOf sha3 c) rest=some res∧Stop sha3 c rest res):
 ∃res,get (childNode sha3 c (nodeOf sha3 c)) rest=some res∧Stop sha3 t key res:=by
 rw[childNode_shaped hs]
 split
 ·rename_i hsmall
  obtain⟨res,hres,hstop⟩:=ih
  refine⟨res,hres,?_⟩
  have hbelow:=bigPath_of_small hsmall rest
  cases hstop with
  | value hl hp=>exact .value (hlook.trans hl) (by rw[hpath,hbelow,hp])
  | missing hl=>exact .missing (hlook.trans hl)
  | hash hsub' hs' hc' hbig hsep' hrest' hl hp=>
   exact .hash (hsub _ hsub') hs' hc' hbig hsep' hrest' (hlook.trans hl)
    (by rw[hpath,hbelow,hp])
 rename_i hbig
 refine⟨_,get_hash hrest _,.hash (hsub c (.refl c)) hs hc (Nat.le_of_not_lt hbig) hsep hrest
  hlook hpath⟩

lemma get_short(k s:List Nibble)(n:Node)(hk:k≠[]):get (.shortNode k n) (k++s)=get n s:=by
 obtain⟨a,k,rfl⟩:=exists_cons_of_ne_nil hk
 rw[cons_append,MerkleProofs.get,if_pos ⟨s,rfl⟩,←cons_append,drop_left]
 intro h
 cases h

lemma get_short_mismatch(h:¬k <+: key)(hkey:key≠[])(n:Node):
 get (.shortNode k n) key=some ([],.nil):=by
 obtain⟨a,key,rfl⟩:=exists_cons_of_ne_nil hkey
 rw[MerkleProofs.get,if_neg h]
 intro h
 cases h

/-- The value slot of a branch is never on the way to a separated key. -/
lemma Separated.slot_empty(h:Separated (16::key) (.branch cs))(hkey:key≠[]):cs 16≠.leaf v:=by
 intro hv
 have hlook:(Tree.branch cs).lookup [16]=some v:=by
  rw[Tree.lookup_branch_cons,hv]
  rfl
 refine (h [16] v hlook fun he=>hkey ?_).2 nil_prefix
 exact (List.cons.inj he).2.symm

lemma get_stop(sha3:Bytes→Bytes)(ht:Shaped t):∀{key:List Nibble},Tree.Canonical t →
 Separated key t→key≠[]→∃res,get (nodeOf sha3 t) key=some res∧Stop sha3 t key res:=by
 induction ht with
 | @value k v hk hend hlen hv=>
  intro key hc hsep hkey
  by_cases hpre:k <+: key
  ·obtain⟨s,rfl⟩:=hpre
   have hs:s=[]:=by
    by_contra hs
    obtain⟨cs,hcs⟩:=hsep.inner hc hs
    cases hcs
   subst hs
   refine⟨_,get_short k [] _ hc.edge_label_ne,.value ?_ ?_⟩
   ·rw[Tree.lookup_edge_append]
    rfl
   rw[bigBelow,path_edge]
   rfl
  refine⟨_,get_short_mismatch hpre hkey _,.missing ?_⟩
  rw[Tree.lookup_edge,if_neg hpre]
 | @inner k cs hk hin hlen hb ih=>
  intro key hc hsep hkey
  by_cases hpre:k <+: key
  ·obtain⟨s,rfl⟩:=hpre
   have hs:s≠[]:=by
    rintro rfl
    rw[append_nil]at hsep
    obtain⟨v,hv⟩:=hsep.leaf hc
    cases hv
   have hcb:=hc.edge_child_canonical
   have hsb:=hsep.child hc
   rw[nodeOf,get_short k s _ hk]
   refine stop_child (fun s' hs'=>.edge k hs') hb hcb hsb hs ?_ ?_ (ih hcb hsb hs)
   ·rw[Tree.lookup_edge_append]
   rw[bigBelow,path_edge]
   rfl
  refine⟨_,get_short_mismatch hpre hkey _,.missing ?_⟩
  rw[Tree.lookup_edge,if_neg hpre]
 | @branch cs hch hv ih=>
  intro key hc hsep hkey
  obtain⟨a,key,rfl⟩:=exists_cons_of_ne_nil hkey
  have hrest:=hsep.branch_ne_nil hc
  have hlook:(Tree.branch cs).lookup (a::key)=(cs a).lookup key:=Tree.lookup_branch_cons _ _ _
  by_cases he:cs a=.empty
  ·refine⟨(key,.nil),?_,.missing ?_⟩
   ·obtain⟨b,key,rfl⟩:=exists_cons_of_ne_nil hrest
    rw[nodeOf,MerkleProofs.get,he]
    rfl
   rw[hlook,he,Tree.lookup_empty]
  have ha:a≠16:=by
   rintro rfl
   obtain⟨v,-,-,hv⟩:=hv.resolve_left he
   exact Separated.slot_empty hsep hrest hv
  have hcan:=hc.child a he
  have hsa:=hsep.branch hrest
  exact stop_child (fun s' hs'=>.branch a hs') (hch a ha he) hcan hsa hrest hlook rfl
   (ih a ha he hcan hsa hrest)

lemma decodeNode_encoding(hlen:∀b,(sha3 b).length=32)(ht:Shaped t):
 (decodeNode (encoding sha3 t)).run=some (.ok (nodeOf sha3 t)):=by
 have hdec:=decodeNested_encoding hlen ht ((encoding sha3 t).length+1) [] (Nat.lt_succ_self _)
 rw[append_nil]at hdec
 rw[decodeNode,hdec]
 rfl

/-- The verifier accepts the encodings of the large nodes on the path. -/
lemma verifyFrom_complete(hlen:∀b,(sha3 b).length=32)(i:ℕ)(ht:Shaped t)
 (hc:Tree.Canonical t)(hsep:Separated key t)(hkey:key≠[])(hv:t.lookup key=some v):
 verifyFrom sha3 i (sha3 (encoding sha3 t)) key
  (encoding sha3 t::(bigBelow sha3 t key).map (encoding sha3))=some (.ok v):=by
 induction hn:(bigBelow sha3 t key).length generalizing t key i with
 | zero=>
  obtain⟨res,hres,hstop⟩:=get_stop sha3 ht hc hsep hkey
  have hnil:=length_eq_zero_iff.1 hn
  rw[verifyFrom,if_neg (not_not.2 rfl),decodeNode_encoding hlen ht,hnil]
  dsimp only
  rw[hres]
  cases hstop with
  | value hl _=>
   rw[hv]at hl
   cases hl
   rfl
  | missing hl=>
   rw[hv]at hl
   cases hl
  | hash _ hs hcs hbig _ hrest hl hp=>
   rw[hnil,bigPath_of_big hbig (path_of_lookup hcs hrest (hl.symm.trans hv))]at hp
   cases hp
 | succ n ih=>
  obtain⟨res,hres,hstop⟩:=get_stop sha3 ht hc hsep hkey
  rw[verifyFrom,if_neg (not_not.2 rfl),decodeNode_encoding hlen ht]
  dsimp only
  rw[hres]
  cases hstop with
  | value _ hp=>
   rw[hp]at hn
   cases hn
  | missing hl=>
   rw[hv]at hl
   cases hl
  | hash _ hs hcs hbig hsep' hrest hl hp=>
   rw[bigPath_of_big hbig (path_of_lookup hcs hrest (hl.symm.trans hv))]at hp
   rw[hp]at hn ⊢
   exact ih (i+1) hs hcs hsep' hrest (hl.symm.trans hv) (Nat.succ.inj hn)

/-- Whatever proof the verifier accepts, the value is that of the tree. -/
lemma verifyFrom_sound(hlen:∀b,(sha3 b).length=32)(hinj:Set.InjOn sha3 E)
 (proof:List Bytes)(ht:Shaped t)(hc:Tree.Canonical t)(hsep:Separated key t)
 (hkey:key≠[])(htE:nodeEncodings sha3 t⊆E)(hpE:∀buf∈proof,buf∈E)
 (h:verifyFrom sha3 i (sha3 (encoding sha3 t)) key proof=some (.ok v)):
 t.lookup key=some v:=by
 induction proof generalizing t key i with
 | nil=>cases h
 | cons buf proof ih=>
  rw[verifyFrom]at h
  split at h
  ·cases h
  rename_i heq
  have hbuf:buf=encoding sha3 t:=hinj (hpE buf mem_cons_self) (htE (encoding_mem ht)) (not_not.1 heq)
  obtain⟨res,hres,hstop⟩:=get_stop sha3 ht hc hsep hkey
  rw[hbuf,decodeNode_encoding hlen ht]at h
  dsimp only at h
  rw[hres]at h
  cases hstop with
  | value hl _=>
   dsimp only at h
   split at h
   ·cases h
   cases h
   exact hl
  | missing=>cases h
  | @hash s rest hsub hs hcs _ hsep' hrest hl _=>
   rw[hl]
   refine ih hs hcs hsep' hrest (fun e he=>htE ?_) (fun b hb=>hpE b (mem_cons_of_mem _ hb)) h
   obtain⟨s',hs',hsh,rfl⟩:=he
   exact⟨s',hs'.trans hsub,hsh,rfl⟩

/-- The nodes stand for the trees and are in memory. -/
def Loads (sha3:Bytes→Bytes) (db:Db) (ns:List Node) (ts:List HexTree):Prop:=
 List.Forall₂ (fun n t=>Loaded n ∧ Expands sha3 db n t) ns ts

/-- The nodes on the path, if the walk comes to the end of the key. -/
def PathFound (sha3:Bytes→Bytes) (db:Db) (ts:List HexTree) (r:Option (List Node)):Bool→Prop
 | true=>∃ns,r=some ns ∧ Loads sha3 db ns ts
 | false=>r=none

lemma PathFound.cons{r:Option (List Node)}{found:Bool}(h:PathFound sha3 db ts r found)
 (hn:Loaded n)(hnt:Expands sha3 db n t):
 PathFound sha3 db (t::ts) (r.map (n::·)) found:=by
 cases found with
 | true=>
  obtain⟨ns,rfl,hns⟩:=h
  exact⟨_,rfl,.cons ⟨hn,hnt⟩ hns⟩
 | false=>
  rw[show r=none from h]
  rfl

lemma pathNodes_short(fuel:ℕ)(st:Store)(p:List Nibble)(n:Node)(h:p++s≠[]):
 pathNodes (fuel+1) st (.shortNode p n) (p++s)=pathNodes fuel st n s>>=fun r=>
  some (r.1.map (.shortNode p n::·),r.2):=by
 obtain⟨a,key,hkey⟩:=exists_cons_of_ne_nil h
 rw[hkey,pathNodes,←hkey,if_pos (prefix_append p s),drop_left]
 rfl

/-- The path to a key is found unless the walk stops before the key has come to its end. -/
lemma pathNodes_walk(hlen:∀b,(sha3 b).length=32)(w:Walk t k o f)(h:Expands sha3 st.db n t)
 (hst:StoreOk st)(hfuel:2*(k++[16]).length+1≤fuel):
 Keeps st (pathNodes fuel st n (k++[16]))
  (PathFound sha3 st.db (path t (k++[16])) · (f || o.isSome)):=by
 refine w.run hlen pathNodes (fun t k o f db r=>∃x st',r=some (x,st')∧StoreOk st'∧
  st'.db=db∧PathFound sha3 db (path t (k++[16])) x (f || o.isSome)) ?_ ?_ ?_ ?_ ?_ ?_ ?_
  h hst hfuel
 ·exact fun _ _ _ _ _=>rfl
 ·exact fun _ _ _ _ _ hst=>⟨_,_,rfl,hst,rfl,rfl⟩
 ·intro fuel st p c n k a key hst _ hp _
  rw[pathNodes,if_neg hp]
  exact⟨_,_,rfl,hst,rfl,rfl⟩
 ·intro fuel st k v hst
  have hpath:=pathNodes_short fuel st (k++[16]) (.valueNode v) (s:=[]) (by simp)
  have htree:=path_edge (k++[16]) [] (.leaf v)
  rw[append_nil]at hpath htree
  rw[hpath,htree]
  cases fuel with
  | zero=>exact⟨_,_,rfl,hst,rfl,_,rfl,.cons ⟨fun _=>by simp,.short _ (.value v)⟩ .nil⟩
  | succ fuel=>
   exact⟨_,_,rfl,hst,rfl,_,rfl,.cons ⟨fun _=>by simp,.short _ (.value v)⟩ .nil⟩
 ·intro fuel st p cs n k o f hst _ hn hr
  rw[pathNodes_short fuel st p n (by simp),append_assoc,path_edge]
  obtain⟨x,st',hx,hst',hdb,hr⟩:=hr
  exact⟨_,st',by rw[hx];rfl,hst',hdb,hr.cons (fun _=>by simp) (.short p hn)⟩
 ·intro fuel st cs ns hst _ hns hs
  have htree:path (cs 16) []=[]:=by
   rcases hs with he|⟨v,hv⟩
   ·rw[he]
    rfl
   rw[hv]
   rfl
  rw[nil_append,path,htree]
  exact⟨_,_,rfl,hst,rfl,_,rfl,.cons ⟨fun _=>by simp,.full hns⟩ .nil⟩
 intro fuel st cs ns a k o f hst _ _ hns _ hr
 obtain⟨x,st',hx,hst',hdb,hr⟩:=hr
 exact⟨_,st',by rw[pathNodes,hx];rfl,hst',hdb,hr.cons (fun _=>by simp) (.full hns)⟩

lemma store_isHash(ht:Shaped t):
 Collapsed.isHash (store sha3 (collapsed sha3 t) none false).1=true↔Big sha3 t:=by
 rw[store_collapsed ht]
 split
 ·rename_i h
  constructor
  ·intro hh
   cases ht<;>cases hh
  intro hbig
  exact absurd h.1 (Nat.not_lt.2 hbig)
 rename_i h
 constructor
 ·intro _
  by_contra hbig
  exact h ⟨Nat.not_le.1 hbig,rfl⟩
 intro _
 rfl

lemma proofElements_cons(ht:Shaped t)(hl:Loaded n)
 (h:Expands sha3 db n t)(hrest:proofElements sha3 (i+1) ns=some proof):
 proofElements sha3 i (n::ns)=some (if Big sha3 t∨i=0 then encoding sha3 t::proof else proof):=by
 obtain⟨es,hr,-⟩:=replaceChildren_spec h ht hl
 rw[proofElements,hr none,bind_eq_bind,bind_some]
 dsimp only
 rw[hrest,bind_eq_bind,bind_some]
 simp only[store_isHash ht,rlpEncode_eq]
 split
 ·rfl
 rfl

lemma proofElements_tail(i:ℕ)(h:Loads sha3 db ns ts)(hts:∀t∈ts,Shaped t):
 proofElements sha3 (i+1) ns=some ((ts.filter (Big sha3 ·)).map (encoding sha3)):=by
 induction h generalizing i with
 | nil=>rfl
 | @cons n t ns ts hn _ ih=>
  have hrest:=ih (i+1) fun t ht=>hts t (mem_cons_of_mem _ ht)
  rw[proofElements_cons (hts t mem_cons_self) hn.1 hn.2 hrest]
  by_cases hbig:Big sha3 t
  ·rw[if_pos (.inl hbig),filter_cons_of_pos (by rwa[decide_eq_true_eq]),map_cons]
  rw[if_neg (by simp[hbig]),filter_cons_of_neg (by rwa[decide_eq_true_eq])]

/-- The prover returns the top node and the large nodes below it on the path. -/
lemma proofElements_path(ht:Shaped t)(hp:path t key=t::(path t key).tail)
 (h:Loads sha3 db ns (path t key)):
 proofElements sha3 0 ns=some (encoding sha3 t::(bigBelow sha3 t key).map (encoding sha3)):=by
 have hshaped:∀s∈path t key,Shaped s:=path_shaped ht
 rw[hp]at h hshaped
 cases h with
 | cons hn hns=>
  have hrest:=proofElements_tail 0 hns fun s hs=>hshaped s (mem_cons_of_mem _ hs)
  rw[proofElements_cons ht hn.1 hn.2 hrest,if_pos (.inr rfl)]
  rfl

variable {K:KeySet} {m:Mapping} {trie:Trie} {st:Store}

lemma prove_spec(hlen:∀b,(sha3 b).length=32)(ht:Represents t m)(hm:m.Over K)
 (h:RootExpands sha3 st.db trie.root t)(hst:StoreOk st)
 (hempty:st.db (Trie.emptyRoot sha3)=none)(hk:k∈K.keys)(hv:m k=some v):
 ∃st',prove sha3 trie st k=some (some (encoding sha3 t ::
  (bigBelow sha3 t (compactHexDecode k)).map (encoding sha3)),st'):=by
 have hne:=compactHexDecode_ne_nil k
 have hlook:t.lookup (compactHexDecode k)=some v:=(ht.lookup k).trans hv
 have hcan:Tree.Canonical t:=by
  refine ht.normal ?_
  rintro rfl
  rw[Tree.lookup_empty]at hlook
  cases hlook
 have hwalk:=ht.walk hm hk
 rw[hv]at hwalk
 have hkeeps:Keeps st (pathNodes (Trie.fuelFor (compactHexDecode k)) st trie.root
  (compactHexDecode k))
  (fun r=>∃ns,r=some ns∧Loads sha3 st.db ns (path t (compactHexDecode k))):=by
  refine keeps_root hlen (fun f st n=>pathNodes f st n (compactHexDecode k))
   (fun db r=>∃ns,r=some ns∧Loads sha3 db ns (path t (compactHexDecode k)))
   (fun f st h=>?_) (fun n st f hn hst hf=>pathNodes_walk hlen hwalk hn hst hf) h hst hempty
  obtain⟨a,l,hl⟩:=exists_cons_of_ne_nil hne
  simp only[hl]
  rfl
 obtain⟨r,st',hr,-,-,ns,rfl,hns⟩:=hkeeps
 have hshaped:=ht.shaped hm hcan.ne_empty
 refine⟨st',?_⟩
 rw[prove]
 dsimp only
 rw[hr,bind_eq_bind,bind_some]
 dsimp only
 rw[proofElements_path hshaped (path_of_lookup hcan hne hlook) hns]
 rfl

lemma verifyProof_empty(hinj:Set.InjOn sha3 (insert [0x80] E))(hpE:∀buf∈proof,buf∈E):
 verifyProof sha3 (Trie.emptyRoot sha3) k proof≠some (.ok v):=by
 intro h
 cases proof with
 | nil=>cases h
 | cons buf proof=>
  rw[verifyProof,verifyFrom]at h
  split at h
  ·cases h
  rename_i heq
  have hbuf:buf=[0x80]:=hinj (Set.mem_insert_of_mem _ (hpE buf mem_cons_self))
   (Set.mem_insert _ _) (not_not.1 heq)
  rw[hbuf]at h
  cases h

/-- After any session over keys that do not begin one another, `Prove` gives for every stored
key a proof that `VerifyProof` accepts with the stored value; and whatever list of byte strings
`VerifyProof` accepts for a key, the value is the one that `Get` returns. -/
theorem proofs_complete_and_sound {K : KeySet} {sha3 : Bytes → Bytes} {ops : List Op}
    (hops : ∀ op ∈ ops, op.Over K) (hsound : TrieAsMap.Sound sha3 ops) :
    ∃ s root, Session.start.run sha3 ops = some s ∧ s.trie.hash sha3 = some root ∧
      (∀ k ∈ K.keys, ∀ v st, s.trie.get s.store k = some (some v, st) →
        ∃ proof st', prove sha3 s.trie s.store k = some (some proof, st') ∧
          verifyProof sha3 root k proof = some (.ok v)) ∧
      ∀ k ∈ K.keys, ∀ v proof,
        Set.InjOn sha3 (insert [0x80]
          (nodesOf sha3 [(History.start.run ops).current] ∪ {buf | buf ∈ proof})) →
        verifyProof sha3 root k proof = some (.ok v) →
        ∃ st, s.trie.get s.store k = some (some v, st) := by
 have h80:=emptyString_not_node hsound.length (History.start.reached ops)
 obtain⟨s,hs,hmat⟩:=(matches_start K).run hsound h80 hops subset_rfl
 obtain⟨hm,t,ht,hroot⟩:=hmat.current
 have hempty:=emptyRoot_missing hsound h80 hmat.addressed
 obtain⟨t',ht',-,hhash⟩:=hmat.hash
 obtain rfl:=ht.eq ht'
 refine⟨s,_,hs,hhash,fun k hk v st hget=>?_,fun k hk v proof hinj hver=>?_⟩
 · obtain⟨r,st',hr,-,-,rfl⟩:=get_keeps hsound.length ht hm hroot hmat.store hempty hk
   rw[hr] at hget
   have hv:=(Prod.mk.inj (some.inj hget)).1
   obtain⟨st'',hprove⟩:=prove_spec hsound.length ht hm hroot hmat.store hempty hk hv
   have hlook:t.lookup (compactHexDecode k)=some v:=(ht.lookup k).trans hv
   have hne:t≠.empty:=by
    rintro rfl
    rw[Tree.lookup_empty] at hlook
    cases hlook
   have hshaped:=ht.shaped hm hne
   refine⟨_,st'',hprove,?_⟩
   rw[verifyProof,rootHash_shaped hshaped]
   exact verifyFrom_complete hsound.length 0 hshaped (ht.normal hne) (ht.separated hm hk)
    (compactHexDecode_ne_nil k) hlook
 obtain⟨r,st',hr,-,-,rfl⟩:=get_keeps hsound.length ht hm hroot hmat.store hempty hk
 refine⟨st',?_⟩
 rw[hr,←ht.lookup k]
 by_cases hne:t=.empty
 · rw[hne] at hver
   exact absurd hver (verifyProof_empty hinj fun buf hbuf=>.inr hbuf)
 have hshaped:=ht.shaped hm hne
 have hnodes:nodeEncodings sha3 t ⊆
  nodesOf sha3 [(History.start.run ops).current] ∪ {buf | buf∈proof}:=
  fun e he=>.inl ⟨_,mem_cons_self,t,ht,he⟩
 rw[verifyProof,rootHash_shaped hshaped] at hver
 rw[verifyFrom_sound hsound.length (hinj.mono (Set.subset_insert _ _)) proof hshaped
  (ht.normal hne) (ht.separated hm hk) (compactHexDecode_ne_nil k) hnodes
  (fun buf hbuf=>.inr hbuf) hver]

open Sample TrieAsMap

theorem proofs_complete_and_sound_reopened :
    ∃ s root proof st, Session.start.run padHash (reopened ++ afterwards) = some s ∧
      s.trie.hash padHash = some root ∧
      prove padHash s.trie s.store [0x11] = some (some proof, st) ∧
      verifyProof padHash root [0x11] proof = some (.ok [3]) := by
 have hover:∀op∈reopened++afterwards,op.Over keys:=by
  simp[reopened,afterwards,Op.Over,Sample.keys,KeySet.ofLength]
 obtain⟨s,root,hs,hroot,hcomplete,-⟩:=proofs_complete_and_sound hover sound_reopened
 obtain⟨s',hs',hget⟩:=get_current hover sound_reopened
 cases hs.symm.trans hs'
 obtain⟨st,hst⟩:=hget [0x11] rfl
 obtain⟨proof,st',hprove,hver⟩:=hcomplete [0x11] rfl [3] st hst
 exact⟨s,root,proof,st',hs,hroot,hprove,hver⟩

end GoCoupe.MerkleProofSoundness
