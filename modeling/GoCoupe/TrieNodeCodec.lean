import GoCoupe.PatriciaTrees
import GoCoupe.TrieNodes

/-!
# The node codec on whole trees

Decoding the encoding of a tree gives its top node, with every child embedded or replaced by
its hash as the encoding has it.
-/

namespace GoCoupe.TrieNodeCodec
open PatriciaTrees HexPrefixKeys RlpEncoding RlpRawSplitting TrieNodes List Option Function Nat

abbrev HexTree:=Tree Nibble Bytes

def HexTree.isLeaf:HexTree→Bool
 | .leaf _=>true
 | _=>false

def isInner:Node→Bool
 | .shortNode _ _=>true
 | .fullNode _=>true
 | _=>false

variable (sha3:Bytes→Bytes)

/-- How a collapsed node appears inside its parent. -/
def reference (n:Collapsed):Collapsed:=(store sha3 n none false).1.orEmpty

def collapsed:HexTree → Collapsed
 | .empty=>.nil
 | .leaf v=>.valueNode v
 | .edge k c=>
  .shortNode ((compactEncode k).getD [])
   (if HexTree.isLeaf c then collapsed c else reference sha3 (collapsed c))
 | .branch cs=>
  .fullNode (fun i=>
   if i=16 then (collapsed (cs i)).orEmpty else reference sha3 (collapsed (cs i)))

def encoding (t:HexTree):Bytes:=encode (collapsed sha3 t).toItem

def collapse:Node → Collapsed
 | .shortNode key val=>
  .shortNode ((compactEncode key).getD [])
   (if val.isValue then val.raw else reference sha3 (collapse val))
 | .fullNode cs=>
  .fullNode (fun i=>if i=16 then (cs i).raw.orEmpty else reference sha3 (collapse (cs i)))
 | n=>n.raw

def written (n:Node):Bytes:=encode (collapse sha3 n).toItem

/-- A child as its parent holds it: by its hash, unless its bytes are few. -/
def held (n decoded:Node):Node:=
 if isInner n ∧ 32≤(written sha3 n).length then .hashNode (sha3 (written sha3 n)) else decoded

/-- A node with each child as the written bytes have it. -/
def decoded:Node→Node
 | .shortNode key val=>.shortNode key (held sha3 val (decoded val))
 | .fullNode cs=>.fullNode (fun i=>held sha3 (cs i) (decoded (cs i)))
 | n=>n

/-- The decoded node of a tree, given what its parent holds of it. -/
def childNode (t:HexTree) (n:Node):Node:=
 match t with
 | .edge _ _=>if (encoding sha3 t).length<32 then n else .hashNode (sha3 (encoding sha3 t))
 | .branch _=>if (encoding sha3 t).length<32 then n else .hashNode (sha3 (encoding sha3 t))
 | _=>n

/-- The top node of a tree as it is decoded. -/
def nodeOf:HexTree→Node
 | .empty=>.nil
 | .leaf v=>.valueNode v
 | .edge k c=>.shortNode k (childNode sha3 c (nodeOf c))
 | .branch cs=>.fullNode (fun i=>childNode sha3 (cs i) (nodeOf (cs i)))

/-- The trees of a hex trie: a label closes with the terminator exactly when it leads to
a value, values apart from that occur only in the last slot of a branch, and all
lengths are far below what a byte slice can have. -/
inductive Shaped:HexTree→Prop
 | value {k:List Nibble} {v:Bytes} (hk:HexKey k) (hend:k.getLast? = some 16)
  (hlen:k.length<2^63) (hv:v.length<2^62):Shaped (.edge k (.leaf v))
 | inner {k:List Nibble} {cs:Nibble→HexTree} (hk:k≠[]) (hin:∀n∈k,n.val<16)
  (hlen:k.length<2^63) (hc:Shaped (.branch cs)):Shaped (.edge k (.branch cs))
 | branch {cs:Nibble→HexTree} (hc:∀i,i≠16→cs i≠.empty → Shaped (cs i))
  (hv:cs 16=.empty ∨ ∃v:Bytes,v≠[] ∧ v.length<2^62 ∧ cs 16=.leaf v) :
  Shaped (.branch cs)

variable {c t:HexTree} {k:List Nibble} {cs:Nibble→HexTree} {α:Type} {n:Node}
 {E:Set Bytes}

lemma Shaped.hexKey(h:Shaped (.edge k c)):HexKey k:=by
 cases h with
 | value hk _ _ _=>exact hk
 | inner hk hin _ _=>exact⟨hk,fun n hn=>hin n (dropLast_subset k hn)⟩

lemma Shaped.slot(h:Shaped (.branch cs)):cs 16=.empty∨∃v,cs 16=.leaf v:=by
 cases h with
 | branch _ hv=>
  rcases hv with hv|⟨v,-,-,hv⟩
  ·exact .inl hv
  exact .inr ⟨v,hv⟩

variable {sha3:Bytes→Bytes}

lemma packNibbles_length(l:List Nibble):(packNibbles l).length≤l.length:=by
 induction l using packNibbles.induct with
 | case1 a b rest ih=>
  simp only[packNibbles,length_cons]
  omega
 | case2 a=>simp[packNibbles]
 | case3=>simp[packNibbles]

lemma packHex_length(t:UInt8)(l:List Nibble):(packHex t l).length≤l.length+1:=by
 unfold packHex
 split
 ·have:=packNibbles_length l.tail
  simp only[length_cons,length_tail]at this ⊢
  omega
 have:=packNibbles_length l
 simp only[length_cons]
 omega

lemma compactEncode_length(k:List Nibble):((compactEncode k).getD []).length≤k.length+1:=by
 unfold compactEncode
 split
 ·simp
 split
 ·have:=packHex_length 1 k.dropLast
  simp only[getD_some,length_dropLast]at this ⊢
  omega
 exact packHex_length 0 k

lemma le_encodeString_length(b:Bytes):b.length≤(encodeString b).length:=by
 rcases encodeString_cases b with⟨x,rfl,_,henc,_⟩|⟨_,henc,_⟩
 ·rw[henc]
 rw[henc,length_append]
 omega

lemma store_eq(n:Collapsed)(hnil:n≠.nil)(hhash:∀h,n≠.hashNode h)(db:Option Db)(force:Bool):
 store sha3 n db force=if (encode n.toItem).length<32∧force=false then (n,db)
  else (.hashNode (sha3 (encode n.toItem)),
   db.map (update · (sha3 (encode n.toItem)) (some (encode n.toItem)))):=by
 cases n with
 | nil=>exact absurd rfl hnil
 | hashNode=>exact absurd rfl (hhash _)
 | _=>simp only[store,rlpEncode_eq]

lemma store_collapsed(h:Shaped t)(db:Option Db)(force:Bool):store sha3 (collapsed sha3 t) db force =
  if (encoding sha3 t).length<32∧force=false then (collapsed sha3 t,db)
  else (.hashNode (sha3 (encoding sha3 t)),db.map (fun db=>update db (sha3 (encoding sha3 t))
    (some (encoding sha3 t)))):=by
 cases h with
 | value | inner=>exact store_eq (.shortNode _ _) nofun nofun db force
 | branch=>exact store_eq (.fullNode _) nofun nofun db force

/-- The encoding of a child inside its parent. -/
lemma encode_reference(h:Shaped t):
 encode (reference sha3 (collapsed sha3 t)).toItem = if (encoding sha3 t).length<32 then encoding sha3 t
  else encodeString (sha3 (encoding sha3 t)):=by
 unfold reference
 rw[store_collapsed h]
 by_cases hlt:(encoding sha3 t).length<32
 ·rw[if_pos ⟨hlt,rfl⟩,if_pos hlt]
  cases h<;>rfl
 rw[if_neg (hlt ·.1),if_neg hlt]
 rfl

lemma encode_reference_empty:encode (reference sha3 (collapsed sha3 .empty)).toItem=encodeString []:=rfl

lemma encodeList_length_le(xs:List Item)(B:ℕ)(h:∀x∈xs,(encode x).length≤B):
 (encodeList xs).length≤xs.length*B:=by
 induction xs with
 | nil=>simp[encodeList]
 | cons x xs ih=>
  have h1:=h x (by simp)
  have h2:=ih (fun y hy=>h y (by simp[hy]))
  rw[encodeList,length_append,length_cons,add_mul,one_mul]
  omega

lemma ofFn_nibbles(f:Nibble→α):ofFn f=branchIndices.map f++[f 16]:=rfl

lemma mem_branchIndices:i∈branchIndices↔i≠16:=by
 revert i
 decide

def slotItem (sha3:Bytes→Bytes) (cs:Nibble→HexTree) (i:Nibble):Item:=
 (if i=16 then (collapsed sha3 (cs i)).orEmpty else reference sha3 (collapsed sha3 (cs i))).toItem

lemma encoding_branch(cs:Nibble→HexTree):encoding sha3 (.branch cs) =
  puthead 0xC0 0xF7 (encodeList (branchIndices.map (slotItem sha3 cs) ++ [slotItem sha3 cs 16])).length ++
   encodeList (branchIndices.map (slotItem sha3 cs)++[slotItem sha3 cs 16]):=by
 rw[←ofFn_nibbles]
 rfl

lemma encoding_edge(k:List Nibble)(c:HexTree):
 encoding sha3 (.edge k c)=puthead 0xC0 0xF7 (encodeList [.string ((compactEncode k).getD []),
   (if HexTree.isLeaf c then collapsed sha3 c
    else reference sha3 (collapsed sha3 c)).toItem]).length ++
   encodeList [.string ((compactEncode k).getD []),(if HexTree.isLeaf c then collapsed sha3 c
     else reference sha3 (collapsed sha3 c)).toItem]:=rfl

lemma reference_length(hlen:∀b,(sha3 b).length=32)(h:t≠.empty → Shaped t):
 (encode (reference sha3 (collapsed sha3 t)).toItem).length≤41:=by
 by_cases ht:t=.empty
 ·rw[ht,encode_reference_empty]
  decide
 rw[encode_reference (h ht)]
 split
 ·omega
 have:=encodeString_length (sha3 (encoding sha3 t))
 rw[hlen]at this
 omega

lemma slotItem_last(sha3:Bytes→Bytes)(h:Shaped (.branch cs)):
 ∃v:Bytes,v.length<2^62∧slotItem sha3 cs 16=.string v∧(cs 16=.empty∧v=[]∨cs 16=.leaf v∧v≠[]):=by
 cases h with
 | branch hc hv=>
  rcases hv with hv|⟨v,hne,hlt,hv⟩
  ·refine⟨[],by simp,?_,.inl ⟨hv,rfl⟩⟩
   simp[slotItem,hv,collapsed,Collapsed.orEmpty,Collapsed.toItem]
  refine⟨v,hlt,?_,.inr ⟨hv,hne⟩⟩
  simp[slotItem,hv,collapsed,Collapsed.orEmpty,Collapsed.toItem]

lemma branch_content_length(hlen:∀b,(sha3 b).length=32)(h:Shaped (.branch cs)):
 (encodeList (branchIndices.map (slotItem sha3 cs)++[slotItem sha3 cs 16])).length<2^63:=by
 obtain⟨v,hv,hlast,-⟩:=slotItem_last sha3 h
 have hfirst:(encodeList (branchIndices.map (slotItem sha3 cs))).length≤16*41:=by
  refine encodeList_length_le _ 41 fun x hx=>?_
  obtain⟨i,hi,rfl⟩:=mem_map.mp hx
  rw[slotItem,if_neg (mem_branchIndices.mp hi)]
  cases h with
  | branch hc _=>exact reference_length hlen (hc i (mem_branchIndices.mp hi))
 have hstr:=encodeString_length v
 rw[encodeList_append,length_append,hlast]
 simp only[encodeList,encode,append_nil]
 omega

lemma edge_content_length(hlen:∀b,(sha3 b).length=32)(h:Shaped (.edge k c)):
 (encodeList [.string ((compactEncode k).getD []),(if HexTree.isLeaf c then collapsed sha3 c
   else reference sha3 (collapsed sha3 c)).toItem]).length<2^63+2^62+60:=by
 have hk:=compactEncode_length k
 have hks:=encodeString_length ((compactEncode k).getD [])
 simp only[encodeList,encode,append_nil,length_append]
 cases h with
 | value _ _ hkl hv=>
  have hvs:=encodeString_length ‹Bytes›
  simp only[HexTree.isLeaf,if_true,collapsed,Collapsed.toItem,encode]
  omega
 | inner _ _ hkl hc=>
  have hr:=reference_length hlen (fun _=>hc)
  simp only[HexTree.isLeaf,Bool.false_eq_true,if_false]
  omega

lemma encoding_length(hlen:∀b,(sha3 b).length=32)(h:Shaped t):(encoding sha3 t).length<2^64:=by
 cases t with
 | empty=>cases h
 | leaf v=>cases h
 | edge k c=>
  have hc:=edge_content_length hlen h
  rw[encoding_edge,length_append,puthead_length]
  have:=headsize_le (encodeList [.string ((compactEncode k).getD []),
   (if HexTree.isLeaf c then collapsed sha3 c
    else reference sha3 (collapsed sha3 c)).toItem]).length
  omega
 | branch cs=>
  have hc:=branch_content_length hlen h
  rw[encoding_branch,length_append,puthead_length]
  have:=headsize_le (encodeList (branchIndices.map (slotItem sha3 cs) ++ [slotItem sha3 cs 16])).length
  omega

@[simp] lemma relabel_pure(f:ε→ε')(x:α):
 relabel f (pure x:Outcome ε α)=pure x:=rfl

@[simp] lemma wrapError_pure(context:String)(x:α):wrapError context (pure x)=pure x:=rfl

lemma childNode_shaped(h:Shaped t)(n:Node):childNode sha3 t n =
  if (encoding sha3 t).length<32 then n else .hashNode (sha3 (encoding sha3 t)):=by
 cases h<;>rfl

lemma kindOf_of_length(h:b.length≠1):kindOf b=.string:=by
 unfold kindOf
 split
 ·simp at h
 rfl

lemma elementCount_encodeList(xs:List Item)(h:(encodeList xs).length<2^64):
 elementCount (encodeList xs)=pure xs.length:=by
 unfold elementCount
 rw[countValues_encodeList xs h]
 rfl

lemma decodeNested_list(xs:List Item)(rest:Bytes)(h:(encodeList xs).length<2^64):
 decodeNested (fuel+1)
  ((puthead 0xC0 0xF7 (encodeList xs).length++encodeList xs)++rest) =
  if xs.length=2 then wrapError "short" (decodeShort (decodeNested fuel) (encodeList xs))
  else if xs.length=17 then
   wrapError "full" (decodeFull (decodeNested fuel) (encodeList xs))
  else throw (.elements xs.length):=by
 have hne:((puthead 0xC0 0xF7 (encodeList xs).length++encodeList xs)++rest).length≠0:=by
  rw[length_append,length_append,puthead_length,headsize]
  split<;>omega
 rw[decodeNested,if_neg hne,append_assoc,splitList_list _ rest h,relabel_pure,pure_bind]
 dsimp only
 rw[elementCount_encodeList xs h,pure_bind]

lemma encode_length_le(h:x∈xs):(encode x).length≤(encodeList xs).length:=by
 induction h with
 | head | tail=>rw[encodeList,length_append];omega

lemma puthead_pos(n:ℕ):0<(puthead 0xC0 0xF7 n).length:=by
 rw[puthead_length,headsize]
 split<;>omega

lemma not_terminated(hk:k≠[])(hin:∀n∈k,n.val<16):∃last,k.getLast? = some last∧last≠16:=by
 refine⟨k.getLast hk,getLast?_eq_some_getLast hk,fun h=>?_⟩
 have:=hin _ (getLast_mem hk)
 rw[h]at this
 exact absurd this (by decide)

/-- A node in memory, or a child of one: a key closes with the terminator exactly when it
leads to a value, and the last slot of a full node has a value or nothing. -/
inductive WellFormed:Node→Prop
 | nil:WellFormed .nil
 | hash {h:Bytes} (hlen:h.length=32):WellFormed (.hashNode h)
 | value {key:List Nibble} {v:Bytes} (hk:HexKey key) (hend:key.getLast? = some 16) :
  WellFormed (.shortNode key (.valueNode v))
 | extension {key:List Nibble} {val:Node} (hk:key≠[]) (hin:∀n∈key,n.val<16)
  (hval:WellFormed val):WellFormed (.shortNode key val)
 | full {cs:Nibble→Node} (hcs:∀i,i≠16→WellFormed (cs i))
  (hv:cs 16=.nil ∨ ∃v:Bytes,v≠[] ∧ cs 16=.valueNode v) :
  WellFormed (.fullNode cs)

lemma WellFormed.not_value(h:WellFormed n):n.isValue=false:=by
 cases h<;>rfl

lemma written_list(sha3:Bytes→Bytes)(hn:isInner n=true):
 ∃xs,written sha3 n=puthead 0xC0 0xF7 (encodeList xs).length++encodeList xs:=by
 cases n with
 | shortNode=>exact⟨_,rfl⟩
 | fullNode=>exact⟨_,rfl⟩
 | _=>cases hn

lemma store_collapse(hn:isInner n=true)(db:Option Db)(force:Bool):
 store sha3 (collapse sha3 n) db force =
  if (written sha3 n).length<32∧force=false then (collapse sha3 n,db)
  else (.hashNode (sha3 (written sha3 n)),
   db.map (update · (sha3 (written sha3 n)) (some (written sha3 n)))):=by
 cases n with
 | shortNode=>exact store_eq (.shortNode _ _) nofun nofun db force
 | fullNode=>exact store_eq (.fullNode _) nofun nofun db force
 | _=>cases hn

lemma encode_reference_collapse(hn:isInner n=true):
 encode (reference sha3 (collapse sha3 n)).toItem =
  if 32≤(written sha3 n).length then encodeString (sha3 (written sha3 n))
  else written sha3 n:=by
 rw[reference,store_collapse hn]
 by_cases hle:32≤(written sha3 n).length
 ·rw[if_neg (by omega),if_pos hle]
  rfl
 rw[if_pos ⟨by omega,rfl⟩,if_neg hle]
 cases n with
 | shortNode=>rfl
 | fullNode=>rfl
 | _=>cases hn

lemma decodeRef_hash(dn:Bytes→Outcome DecodeError Node)(hlen:h.length=32)
 (rest:Bytes):decodeRef dn (encodeString h++rest)=pure (.hashNode h,rest):=by
 rw[decodeRef,split_string _ rest (by omega),relabel_pure,pure_bind,kindOf_of_length (by omega)]
 simp[hlen]

lemma decodeRef_reference(hlen:∀b,(sha3 b).length=32)
 (dn:Bytes→Outcome DecodeError Node)(hn:WellFormed n)
 (hdn:isInner n=true→(written sha3 n).length<32 →
  ∀rest,dn (written sha3 n++rest)=pure (decoded sha3 n))(rest:Bytes):
 decodeRef dn (encode (reference sha3 (collapse sha3 n)).toItem++rest) =
  pure (held sha3 n (decoded sha3 n),rest):=by
 cases hin:isInner n with
 | false=>
  rw[held,if_neg (by simp[hin])]
  cases hn with
  | nil=>
   rw[decodeRef]
   change (relabel .split (split (encodeString []++rest))>>=_)=_
   rw[split_string [] rest (by simp),relabel_pure,pure_bind]
   rfl
  | hash h=>exact decodeRef_hash dn h rest
  | _=>cases hin
 | true=>
  rw[encode_reference_collapse hin,held]
  by_cases hle:32≤(written sha3 n).length
  ·rw[if_pos hle,if_pos ⟨hin,hle⟩]
   exact decodeRef_hash dn (hlen _) rest
  rw[if_neg hle,if_neg (hle ·.2)]
  obtain⟨xs,hxs⟩:=written_list sha3 hin
  have hsplit:split (written sha3 n++rest)=pure (.list,encodeList xs,rest):=by
   have hx:=congrArg length hxs
   rw[length_append]at hx
   rw[hxs,append_assoc]
   exact split_list _ rest (by omega)
  have hsize:¬(written sha3 n++rest).length-rest.length>hashLen:=by
   rw[length_append,Nat.add_sub_cancel,hashLen]
   omega
  rw[decodeRef,hsplit,relabel_pure,pure_bind]
  simp only[if_true,if_neg hsize]
  rw[hdn hin (by omega) rest,pure_bind]

def slot (sha3:Bytes→Bytes) (cs:Nibble→Node) (i:Nibble):Item:=
 (if i=16 then (cs i).raw.orEmpty else reference sha3 (collapse sha3 (cs i))).toItem

lemma decodeChildren_slots(hlen:∀b,(sha3 b).length=32)
 (dn:Bytes→Outcome DecodeError Node){cs:Nibble→Node}
 (hcs:∀i,i≠16→WellFormed (cs i))
 (hdn:∀i,i≠16→isInner (cs i)=true→(written sha3 (cs i)).length<32 →
  ∀rest,dn (written sha3 (cs i)++rest)=pure (decoded sha3 (cs i)))
 (is:List Nibble)(his:∀i∈is,i≠16)(n:Nibble→Node)(rest:Bytes):
 decodeChildren dn is n (encodeList (is.map (slot sha3 cs))++rest) =
  pure ((fun i=>if i∈is then held sha3 (cs i) (decoded sha3 (cs i)) else n i),rest):=by
 induction is generalizing n with
 | nil=>simp[decodeChildren,encodeList]
 | cons i is ih=>
  have hi:=his i (by simp)
  have hitem:slot sha3 cs i=(reference sha3 (collapse sha3 (cs i))).toItem:=by
   rw[slot,if_neg hi]
  rw[map_cons,encodeList,append_assoc,decodeChildren,hitem,
   decodeRef_reference hlen dn (hcs i hi) (hdn i hi),wrapError_pure,pure_bind]
  dsimp only
  rw[ih (fun j hj=>his j (by simp[hj]))]
  congr 2
  funext j
  by_cases hj:j∈is
  ·simp[hj]
  by_cases hji:j=i
  ·subst hji
   simp[hj]
  simp[hj,hji]

lemma slot_last(sha3:Bytes→Bytes){cs:Nibble→Node}
 (hv:cs 16=.nil∨∃v:Bytes,v≠[]∧cs 16=.valueNode v):
 ∃v:Bytes,slot sha3 cs 16=.string v∧(cs 16=.nil∧v=[]∨cs 16=.valueNode v∧v≠[]):=by
 rcases hv with hv|⟨v,hne,hv⟩
 ·exact⟨[],by simp[slot,hv,Node.raw,Collapsed.orEmpty,Collapsed.toItem],.inl ⟨hv,rfl⟩⟩
 exact⟨v,by simp[slot,hv,Node.raw,Collapsed.orEmpty,Collapsed.toItem],.inr ⟨hv,hne⟩⟩

lemma written_lt(hin:isInner child=true)(hlt:(written sha3 child).length<32)
 (hxs:written sha3 n=puthead 0xC0 0xF7 (encodeList xs).length++encodeList xs)
 (hmem:(reference sha3 (collapse sha3 child)).toItem∈xs):
 (written sha3 child).length<(written sha3 n).length:=by
 have hle:=encode_length_le hmem
 have hp:=puthead_pos (encodeList xs).length
 rw[encode_reference_collapse hin,if_neg (by omega)]at hle
 rw[hxs,length_append]
 omega

lemma written_full(cs:Nibble→Node):written sha3 (.fullNode cs) =
  puthead 0xC0 0xF7 (encodeList (branchIndices.map (slot sha3 cs) ++ [slot sha3 cs 16])).length ++
   encodeList (branchIndices.map (slot sha3 cs)++[slot sha3 cs 16]):=by
 rw[←ofFn_nibbles]
 rfl

lemma decodeNested_written(hlen:∀b,(sha3 b).length=32)(h:WellFormed n):
 isInner n=true→(written sha3 n).length<2^64 →∀(fuel:ℕ) (rest:Bytes),(written sha3 n).length<fuel →
   decodeNested fuel (written sha3 n++rest)=pure (decoded sha3 n):=by
 induction h with
 | nil | hash=>exact fun h=>nomatch h
 | @value key v hk hend=>
  intro _ hsize fuel rest hfuel
  obtain⟨fuel,rfl⟩:=Nat.exists_eq_add_of_lt (Nat.zero_lt_of_lt hfuel)
  obtain⟨enc,henc,hdec⟩:=compactDecode_compactEncode hk
  have hxs:written sha3 (.shortNode key (.valueNode v)) =
   puthead 0xC0 0xF7 (encodeList [.string enc,.string v]).length ++
    encodeList [.string enc,.string v]:=by
   simp only[written,collapse,henc,getD_some,Node.isValue,if_true,Node.raw,Collapsed.toItem,encode]
  rw[hxs,length_append]at hsize
  have hel:=le_encodeString_length enc
  have hvl:=le_encodeString_length v
  have hitems:(encodeList [Item.string enc,.string v]).length =
   (encodeString enc).length+(encodeString v).length:=by
   simp[encodeList,encode]
  rw[hxs,zero_add,decodeNested_list _ rest (by omega),if_pos (by rfl),decodeShort,
   encodeList,encode,splitString_string enc _ (by omega),relabel_pure,pure_bind]
  simp only[hdec,hend,if_true,encodeList,encode]
  rw[splitString_string v [] (by omega),relabel_pure,pure_bind]
  rfl
 | @extension key val hk hin hval ih=>
  intro _ hsize fuel rest hfuel
  obtain⟨fuel,rfl⟩:=Nat.exists_eq_add_of_lt (Nat.zero_lt_of_lt hfuel)
  obtain⟨enc,henc,hdec⟩:=compactDecode_compactEncode
   (⟨hk,fun n hn=>hin n (dropLast_subset key hn)⟩:HexKey key)
  obtain⟨last,hlast,hne⟩:=not_terminated hk hin
  have hxs:written sha3 (.shortNode key val) =
   puthead 0xC0 0xF7 (encodeList [.string enc,(reference sha3 (collapse sha3 val)).toItem]).length ++
    encodeList [.string enc,(reference sha3 (collapse sha3 val)).toItem]:=by
   simp only[written,collapse,henc,getD_some,hval.not_value,Bool.false_eq_true,
    if_false,Collapsed.toItem,encode]
  have href:=decodeRef_reference hlen (decodeNested fuel) hval
   (fun hinner hlt rest=>by
    have:=written_lt hinner hlt hxs (by simp)
    exact ih hinner (by omega) fuel rest (by omega)) []
  rw[hxs,length_append]at hsize
  have hel:=le_encodeString_length enc
  have hitems:(encodeString enc).length≤(encodeList [Item.string enc,
   (reference sha3 (collapse sha3 val)).toItem]).length:=by
   simp[encodeList,encode]
  rw[hxs,zero_add,decodeNested_list _ rest (by omega),if_pos (by rfl),decodeShort,
   encodeList,encode,splitString_string enc _ (by omega),relabel_pure,pure_bind]
  simp only[hdec,hlast,if_neg hne,encodeList]
  rw[href,wrapError_pure,pure_bind]
  rfl
 | @full cs hcs hv ih=>
  intro _ hsize fuel rest hfuel
  obtain⟨fuel,rfl⟩:=Nat.exists_eq_add_of_lt (Nat.zero_lt_of_lt hfuel)
  obtain⟨v,hlast,hv'⟩:=slot_last sha3 hv
  have hslots:=decodeChildren_slots hlen (decodeNested fuel) hcs
   (fun i hi hinner hlt rest=>by
    have:=written_lt hinner hlt (written_full cs)
     (mem_append_left _ (mem_map.mpr ⟨i,mem_branchIndices.mpr hi,by
      rw[slot,if_neg hi]⟩))
    exact ih i hi hinner (by omega) fuel rest (by omega))
   branchIndices (fun i hi=>mem_branchIndices.mp hi) (fun _=>.nil) (encodeString v)
  rw[written_full,length_append]at hsize
  have hval:splitString (encodeString v)=pure (v,[]):=by
   have hvl:=le_encodeString_length v
   have hmem:(encode (slot sha3 cs 16)).length ≤
    (encodeList (branchIndices.map (slot sha3 cs)++[slot sha3 cs 16])).length:=
    encode_length_le (by simp)
   rw[hlast,encode]at hmem
   rw[hlast]at hsize
   have:=splitString_string v [] (by omega)
   rwa[append_nil]at this
  rw[written_full,zero_add,decodeNested_list _ rest (by omega),
   if_neg (by simp[branchIndices]),if_pos (by rfl),encodeList_append,hlast,encodeList,
   encode,encodeList,append_nil,decodeFull,hslots,pure_bind]
  simp only[hval,relabel_pure,pure_bind,mem_branchIndices]
  rcases hv' with⟨hcs,rfl⟩|⟨hcs,hne⟩
  ·rw[if_neg (by simp),wrapError_pure,decoded]
   congr 2
   funext i
   by_cases hi:i=16
   ·subst hi
    simp[hcs,held,decoded,isInner]
   simp[hi]
  rw[if_pos (length_pos_of_ne_nil hne),wrapError_pure,decoded]
  congr 2
  funext i
  by_cases hi:i=16
  ·subst hi
   simp[hcs,held,decoded,isInner]
  simp[hi]

/-- A tree whose nodes are all in memory. -/
def memory:HexTree→Node
 | .empty=>.nil
 | .leaf v=>.valueNode v
 | .edge k c=>.shortNode k (memory c)
 | .branch cs=>.fullNode (fun i=>memory (cs i))

lemma isInner_memory(h:Shaped t):isInner (memory t)=true:=by
 cases h<;>rfl

lemma wellFormed_memory(h:Shaped t):WellFormed (memory t):=by
 induction h with
 | value hk hend=>exact .value hk hend
 | inner hk hin _ _ ih=>exact .extension hk hin ih
 | @branch cs hc hv ih=>
  refine .full (fun i hi=>?_) ?_
  ·by_cases he:cs i=.empty
   ·rw[he]
    exact .nil
   exact ih i hi he
  rcases hv with hv|⟨v,hne,-,hv⟩
  ·exact .inl (by rw[hv];rfl)
  exact .inr ⟨v,hne,by rw[hv];rfl⟩

lemma collapse_memory(h:Shaped t):collapse sha3 (memory t)=collapsed sha3 t:=by
 induction h with
 | value=>rfl
 | inner _ _ _ _ ih=>
  simp only[memory,collapse,collapsed,Node.isValue,HexTree.isLeaf,Bool.false_eq_true,if_false]at ih ⊢
  rw[ih]
 | @branch cs hc hv ih=>
  simp only[memory,collapse,collapsed]
  congr 1
  funext i
  by_cases hi:i=16
  ·subst hi
   rcases hv with hv|⟨v,-,-,hv⟩<;>rw[hv]<;>rfl
  rw[if_neg hi,if_neg hi]
  by_cases he:cs i=.empty
  ·rw[he]
   rfl
  rw[ih i hi he]

lemma written_memory(h:Shaped t):written sha3 (memory t)=encoding sha3 t:=by
 rw[written,collapse_memory h,encoding]

lemma held_memory(h:Shaped t)(n:Node):held sha3 (memory t) n=childNode sha3 t n:=by
 rw[held,childNode_shaped h,isInner_memory h,written_memory h]
 by_cases hlt:(encoding sha3 t).length<32
 ·rw[if_neg (by omega),if_pos hlt]
 rw[if_pos ⟨rfl,by omega⟩,if_neg hlt]

lemma decoded_memory(h:Shaped t):decoded sha3 (memory t)=nodeOf sha3 t:=by
 induction h with
 | value=>rfl
 | @inner k cs _ _ _ hc ih=>
  change Node.shortNode k (held sha3 (memory (.branch cs)) (decoded sha3 (memory (.branch cs))))=_
  rw[held_memory hc,ih]
  rfl
 | @branch cs hc hv ih=>
  simp only[memory,decoded,nodeOf]
  congr 1
  funext i
  by_cases he:cs i=.empty
  ·rw[he]
   rfl
  by_cases hi:i=16
  ·subst hi
   rcases hv with hv|⟨v,-,-,hv⟩<;>rw[hv]<;>rfl
  rw[held_memory (hc i hi he),ih i hi he]

lemma decodeNested_encoding(hlen:∀b,(sha3 b).length=32)(h:Shaped t)(fuel:ℕ)
 (rest:Bytes)(hfuel:(encoding sha3 t).length<fuel):
 decodeNested fuel (encoding sha3 t++rest)=pure (nodeOf sha3 t):=by
 have hsize:=encoding_length hlen h
 rw[←written_memory h]at hsize hfuel ⊢
 rw[←decoded_memory h]
 exact decodeNested_written hlen (wellFormed_memory h) (isInner_memory h) hsize fuel rest hfuel

lemma mustDecodeNode_encoding(hlen:∀b,(sha3 b).length=32)(h:Shaped t):
 mustDecodeNode (encoding sha3 t)=some (nodeOf sha3 t):=by
 have hdec:=decodeNested_encoding hlen h ((encoding sha3 t).length+1) [] (lt_succ_self _)
 rw[append_nil]at hdec
 unfold mustDecodeNode decodeNode
 rw[hdec]
 rfl

def nodeEncodings (sha3:Bytes→Bytes) (t:HexTree):Set Bytes:=
 {e | ∃s,Tree.Subtree s t ∧ Shaped s ∧ e=encoding sha3 s}

lemma encoding_mem(h:Shaped t):encoding sha3 t∈nodeEncodings sha3 t:=⟨t,.refl t,h,rfl⟩

lemma nodeEncodings_edge(k:List Nibble)(c:HexTree):
 nodeEncodings sha3 c⊆nodeEncodings sha3 (.edge k c):=by
 rintro e ⟨s,hs,hsh,rfl⟩
 exact⟨s,.edge k hs,hsh,rfl⟩

lemma nodeEncodings_branch(cs:Nibble→HexTree)(i:Nibble):
 nodeEncodings sha3 (cs i)⊆nodeEncodings sha3 (.branch cs):=by
 rintro e ⟨s,hs,hsh,rfl⟩
 exact⟨s,.branch i hs,hsh,rfl⟩

lemma Shaped.ne_empty(h:Shaped t):t≠.empty:=by
 rintro rfl
 cases h

lemma nodeOf_ne_hash(h:Shaped t)(b:Bytes):nodeOf sha3 t≠.hashNode b:=by
 cases h<;>simp[nodeOf]

lemma nodeOf_ne_value(h:Shaped t)(v:Bytes):nodeOf sha3 t≠.valueNode v:=by
 cases h<;>simp[nodeOf]

lemma nodeOf_ne_nil(h:Shaped t):nodeOf sha3 t≠.nil:=by
 cases h<;>simp[nodeOf]

lemma nodeOf_eq_of_encoding_eq(hlen:∀b,(sha3 b).length=32)(h:Shaped t)
 (h':Shaped t')(he:encoding sha3 t=encoding sha3 t'):nodeOf sha3 t=nodeOf sha3 t':=by
 have hd:=mustDecodeNode_encoding hlen h
 rw[he,mustDecodeNode_encoding hlen h']at hd
 exact (some.inj hd).symm

lemma childNode_ne_value(h:Shaped t)(v:Bytes):childNode sha3 t (nodeOf sha3 t)≠.valueNode v:=by
 rw[childNode_shaped h]
 split
 ·exact nodeOf_ne_value h v
 simp

lemma childNode_ne_nil(h:Shaped t):childNode sha3 t (nodeOf sha3 t)≠.nil:=by
 rw[childNode_shaped h]
 split
 ·exact nodeOf_ne_nil h
 simp

variable (hlen:∀b,(sha3 b).length=32) (hinj:Set.InjOn sha3 E)

include hlen hinj

lemma childNode_eq_cases(hc:Shaped c)(hd:Shaped d)(hcE:nodeEncodings sha3 c⊆E)
 (hdE:nodeEncodings sha3 d⊆E)
 (h:childNode sha3 c (nodeOf sha3 c)=childNode sha3 d (nodeOf sha3 d)):
 nodeOf sha3 c=nodeOf sha3 d:=by
 rw[childNode_shaped hc,childNode_shaped hd]at h
 split at h<;>split at h
 ·exact h
 ·exact absurd h (nodeOf_ne_hash hc _)
 ·exact absurd h.symm (nodeOf_ne_hash hd _)
 refine nodeOf_eq_of_encoding_eq hlen hc hd ?_
 exact hinj (hcE (encoding_mem hc)) (hdE (encoding_mem hd)) (Node.hashNode.inj h)

/-- Without collisions among the nodes involved a tree is determined by its top node. -/
lemma nodeOf_injective(ht:Shaped t):
 ∀{t':HexTree},Shaped t'→nodeEncodings sha3 t⊆E→nodeEncodings sha3 t'⊆E →
  nodeOf sha3 t=nodeOf sha3 t'→t=t':=by
 induction ht with
 | @value k v hk hend hkl hv=>
  intro t' ht' hE hE' h
  cases ht' with
  | value=>
   simp only[nodeOf,childNode,Node.shortNode.injEq,Node.valueNode.injEq]at h
   rw[h.1,h.2]
  | inner _ _ _ hc=>exact absurd (Node.shortNode.inj h).2.symm (childNode_ne_value hc v)
  | branch=>simp[nodeOf]at h
 | @inner k cs hk hin hkl hc ih=>
  intro t' ht' hE hE' h
  cases ht' with
  | value=>exact absurd (Node.shortNode.inj h).2 (childNode_ne_value hc _)
  | inner _ _ _ hc'=>
   have hcE:=(nodeEncodings_edge k _).trans hE
   have hcE':=(nodeEncodings_edge _ _).trans hE'
   obtain⟨rfl,hchild⟩:=Node.shortNode.inj h
   rw[ih hc' hcE hcE' (childNode_eq_cases hlen hinj hc hc' hcE hcE' hchild)]
  | branch=>simp[nodeOf]at h
 | @branch cs hc hv ih=>
  intro t' ht' hE hE' h
  cases ht' with
  | value=>simp[nodeOf]at h
  | inner=>simp[nodeOf]at h
  | @branch cs' hc' hv'=>
   have hslot:=congrFun (Node.fullNode.inj h)
   congr 1
   funext i
   have hcE:=(nodeEncodings_branch cs i).trans hE
   have hcE':=(nodeEncodings_branch cs' i).trans hE'
   by_cases hi:i=16
   ·subst hi
    have hlast:=hslot 16
    rcases hv with hv|⟨v,-,-,hv⟩<;>rcases hv' with hv'|⟨w,-,-,hv'⟩ <;>
     simp_all[nodeOf,childNode]
   by_cases he:cs i=.empty<;>by_cases he':cs' i=.empty
   ·rw[he,he']
   ·exact (childNode_ne_nil (hc' i hi he') ((hslot i).symm.trans (by rw[he];rfl))).elim
   ·exact (childNode_ne_nil (hc i hi he) ((hslot i).trans (by rw[he'];rfl))).elim
   exact ih i hi he (hc' i hi he') hcE hcE'
    (childNode_eq_cases hlen hinj (hc i hi he) (hc' i hi he') hcE hcE' (hslot i))

lemma encoding_injective(ht:Shaped t)(ht':Shaped t')(hE:nodeEncodings sha3 t⊆E)
 (hE':nodeEncodings sha3 t'⊆E)(h:encoding sha3 t=encoding sha3 t'):t=t':=
 nodeOf_injective hlen hinj ht ht' hE hE' (nodeOf_eq_of_encoding_eq hlen ht ht' h)

end GoCoupe.TrieNodeCodec
