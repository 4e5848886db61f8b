import GoCoupe.TrieAsMap
import Mathlib.Data.List.Lex
import Mathlib.Data.Set.Card
import Mathlib.Data.Set.Finite.List

/-!
# Iterating over a trie

`trie/iterator.go`. Each call of `Next` goes down from the root again and looks for the
successor of the last key. Over keys of one length it meets every stored pair once, in
ascending order.
-/

namespace GoCoupe.TrieIteration
open PatriciaTrees HexPrefixKeys TrieNodes TrieNodeCodec TrieOperations TrieRefinement TrieMappings Nat
open List Option
open TrieSessions TrieAsMap

/-- `none` is the panic of `hasTerm` on an empty slice. -/
def remTerm (s:List Nibble):Option (List Nibble):=
 match s.getLast? with
 | none=>none
 | some last=>if last=16 then some s.dropLast else some s

def decodeCompact:List Nibble→Bytes
 | a::b::key=>(nibbleByte a*16+nibbleByte b)::decodeCompact key
 | _=>[]

/-- The key that a search returns, or nil, and the value that the iterator then holds. -/
abbrev Found:=Option (List Nibble) × Bytes

def firstChild (search:Nibble→Bytes→Store→Option (Found × Store)):
 List Nibble→Bytes→Store→Option (Found × Store)
 | [],value,st=>some ((none,value),st)
 | i::is,value,st=>do
  let (r,st) ← search i value st
  match r.1 with
  | some k=>pure ((some (i::k),r.2),st)
  | none=>firstChild search is r.2 st

/-- `Iterator.key`: the first key below a node. -/
def key:ℕ→Node→Bytes→Store→Option (Found × Store)
 | 0,_,_,_=>none
 | fuel+1,.shortNode nkey val,value,st=>do
  let k ← remTerm nkey
  match val with
  | .valueNode v=>pure ((some k,v),st)
  | val=>do
   let (r,st) ← key fuel val value st
   pure ((some (k++r.1.getD []),r.2),st)
 | fuel+1,.fullNode cs,value,st=>
  match cs 16 with
  | .nil=>firstChild (fun i=>key fuel (cs i)) branchIndices value st
  | .valueNode v=>some ((some [16],v),st)
  | _=>none
 | fuel+1,.hashNode h,value,st=>do
  let (n,st) ← resolveHash st h
  key fuel n value st
 | _+1,_,value,st=>some ((none,value),st)

/-- `Iterator.next`: the first key below a node that comes after the given one, or is the
given one at the start of the iteration. -/
def next (start:Bool):ℕ→Node→List Nibble→Bytes→Store→Option (Found × Store)
 | 0,_,_,_,_=>none
 | fuel+1,.fullNode cs,[],value,st=>
  firstChild (fun i=>key fuel (cs i)) branchIndices value st
 | fuel+1,.fullNode cs,a::rest,value,st=>do
  let (r,st) ← next start fuel (cs a) rest value st
  match r.1 with
  | some k=>pure ((some (a::k),r.2),st)
  | none=>firstChild (fun i=>key fuel (cs i)) (branchIndices.filter (a < ·)) r.2 st
 | fuel+1,.shortNode nkey val,rest,value,st=>do
  let k ← remTerm nkey
  match val with
  | .valueNode v=>
   if k=rest then pure ((if start then (some k,v) else (none,value)),st)
   else if rest<k then pure ((some k,v),st)
   else pure ((none,value),st)
  | val=>
   if rest.length<k.length then none
   else if k <+: rest then do
    let (r,st) ← next start fuel val (rest.drop k.length) value st
    pure ((r.1.map (k ++ ·),r.2),st)
   else if rest.take k.length<k then key (fuel+1) (.shortNode nkey val) value st
   else pure ((none,value),st)
 | fuel+1,.hashNode h,rest,value,st=>do
  let (n,st) ← resolveHash st h
  next start fuel n rest value st
 | _+1,_,_,value,st=>some ((none,value),st)

structure Iterator where
 key:Option Bytes
 value:Bytes

def newIterator:Iterator:=⟨none,[]⟩

def Iterator.next (it:Iterator) (t:Trie) (st:Store):Option (Bool × Iterator × Store):=do
 let self:=it.key.getD (replicate 32 0)
 let k ← remTerm (compactHexDecode self)
 let (r,st) ← TrieIteration.next it.key.isNone (Trie.fuelFor (compactHexDecode self)+1) t.root k
  it.value st
 let k:=r.1.getD []
 pure (decide (k.length>0),⟨some (decodeCompact k),r.2⟩,st)

/-- Calling `Next` until it returns false gives these pairs, one for each call before. -/
inductive Iterates (t:Trie):Iterator→Store→List (Bytes × Bytes)→Prop
 | done {it it':Iterator} {st st':Store} (h:it.next t st=some (false,it',st')):Iterates t it st []
 | more {it it':Iterator} {st st':Store} {k:Bytes} {pairs:List (Bytes × Bytes)}
  (h:it.next t st=some (true,it',st')) (hk:it'.key=some k)
  (hrest:Iterates t it' st' pairs):Iterates t it st ((k,it'.value)::pairs)

section Order

variable {α:Type*} [LinearOrder α]

lemma append_lt_append(p:List α):p++x<p++y↔x<y:=by
 induction p with
 | nil=>rfl
 | cons a p ih=>simp[ih]

lemma lt_append_of_lt(hlen:u.length=v.length)(h:u<v)(x y:List α):u++x<v++y:=by
 induction u generalizing v with
 | nil=>
  obtain rfl:=eq_nil_of_length_eq_zero hlen.symm
  exact absurd h (lt_irrefl _)
 | cons a u ih=>
  cases v with
  | nil=>cases hlen
  | cons b v=>
   rw[cons_append,cons_append,cons_lt_cons_iff]
   rcases cons_lt_cons_iff.mp h with hab|⟨hab,huv⟩
   ·exact .inl hab
   exact .inr ⟨hab,ih (succ.inj hlen) huv⟩

end Order

inductive Uniform:ℕ→HexTree→Prop
 | leaf (k:List Nibble) (v:Bytes) (h:16∉k):Uniform k.length (.edge (k++[16]) (.leaf v))
 | edge {p:List Nibble} {cs:Nibble→HexTree} {n:ℕ} (hp:p≠[]) (h16:16∉p)
  (h:Uniform n (.branch cs)):Uniform (p.length+n) (.edge p (.branch cs))
 | branch {cs:Nibble→HexTree} {n:ℕ} (hlast:cs 16=.empty) (hne:∃i,cs i≠.empty)
  (h:∀i,cs i≠.empty→Uniform n (cs i)):Uniform (n+1) (.branch cs)

variable {t:HexTree} {k:List Nibble} {v:Bytes} {cs:Nibble→HexTree} {start:Bool}

lemma uniform_of_shaped(ht:Shaped t):Tree.Canonical t→∀{n:ℕ},
 (∀l v,t.lookup l=some v→l.length=n+1)→Uniform n t:=by
 induction ht with
 | @value p v hp hend=>
  intro _ n hn
  obtain⟨k,rfl⟩:∃k,p=k++[16]:=⟨p.dropLast,(dropLast_append_getLast? 16 hend).symm⟩
  have hlen:=hn (k++[16]) v (by simp[Tree.lookup_edge_leaf])
  rw[length_append,length_singleton]at hlen
  obtain rfl:=succ.inj hlen
  refine .leaf k v fun h16=>absurd (hp.inner 16 ?_) (by decide)
  rwa[dropLast_concat]
 | @inner p cs hp hin _ _ ih=>
  intro hc n hn
  have hwords:∀l v,(Tree.branch cs).lookup l=some v→p.length+l.length=n+1:=
   fun l v hl=>by simpa using hn (p++l) v (by simpa using hl)
  obtain⟨a,-,l,-,v,-,-,hl,-⟩:=hc.edge_child_canonical.branch_keys
  have hlen:=hwords _ v hl
  obtain⟨m,rfl⟩:∃m,n=p.length+m:=⟨n-p.length,by simp at hlen;omega⟩
  refine .edge hp (fun h16=>absurd (hin 16 h16) (by decide)) (ih hc.edge_child_canonical ?_)
  exact fun l v hl=>by have:=hwords l v hl;omega
 | @branch cs hcs hv ih=>
  intro hc n hn
  have hchild:∀i l v,(cs i).lookup l=some v→l.length=n:=fun i l v hl=>
   succ.inj (hn (i::l) v hl)
  have hpos:n≠0:=by
   rintro rfl
   obtain⟨a,b,k,l,v,w,hab,ha,hb⟩:=hc.branch_keys
   have hleaf:∀i k v,(Tree.branch cs).lookup (i::k)=some v→i=16:=fun i k v hi=>by
    by_contra hi16
    obtain rfl:=eq_nil_of_length_eq_zero (hchild i k v hi)
    have hne:cs i≠.empty:=fun he=>by
     rw[Tree.lookup_branch_cons,he]at hi
     cases hi
    have hs:=hcs i hi16 hne
    rw[(hc.child i hne).lookup_nil hi]at hs
    cases hs
   exact hab ((hleaf a k v ha).trans (hleaf b l w hb).symm)
  have hlast:cs 16=.empty:=by
   rcases hv with hv|⟨v,-,-,hv⟩
   ·exact hv
   exact absurd (hchild 16 [] v (by rw[hv];rfl)).symm hpos
  obtain⟨m,rfl⟩:=exists_eq_succ_of_ne_zero hpos
  refine .branch hlast ?_ fun i hi=>?_
  ·obtain⟨a,-,k,-,v,-,-,ha,-⟩:=hc.branch_keys
   exact⟨a,fun he=>by rw[Tree.lookup_branch_cons,he]at ha;cases ha⟩
  have hi16:i≠16:=fun h=>hi (h▸hlast)
  exact ih i hi16 hi (hc.child i hi) (hchild i)

def Has (t:HexTree) (k:List Nibble) (v:Bytes):Prop:=t.lookup (k++[16])=some v

lemma has_edge(h16:16∉p)(h:Has (.edge p c) k v):∃l,k=p++l∧Has c l v:=by
 obtain⟨s,hs,hv⟩:=Tree.lookup_edge_eq_some h
 rcases append_eq_append_iff.mp hs with⟨q,rfl,hq⟩|⟨q,rfl,rfl⟩
 ·cases q with
  | nil=>exact⟨[],by simp,by rw[Has,nil_append,hq];exact hv⟩
  | cons x q=>
   obtain⟨rfl,-⟩:=cons.inj hq
   exact absurd (by simp) h16
 exact⟨q,rfl,hv⟩

lemma has_leaf(h:Has (.edge (k++[16]) (.leaf v)) l w):l=k∧w=v:=by
 rw[Has,Tree.lookup_edge_leaf]at h
 split at h
 ·next heq=>exact⟨append_cancel_right heq,(some.inj h).symm⟩
 cases h

lemma has_branch(hlast:cs 16=.empty)(h:Has (.branch cs) k v):∃a l,k=a::l∧a≠16∧Has (cs a) l v:=by
 cases k with
 | nil=>
  rw[Has,nil_append,Tree.lookup_branch_cons,hlast]at h
  cases h
 | cons a l=>
  refine⟨a,l,rfl,?_,h⟩
  rintro rfl
  rw[Has,cons_append,Tree.lookup_branch_cons,hlast,Tree.lookup_empty]at h
  cases h

def First (t:HexTree) (r:Found):Prop:=∃k,r.1=some k ∧ Has t k r.2 ∧ ∀l v,Has t l v→¬l<k

/-- Past the given key, or at the key itself at the start. -/
def After (start:Bool) (key l:List Nibble):Prop:=key<l ∨ start=true ∧ key=l

lemma after_cons:After start (a::x) (b::y)↔a<b∨a=b∧After start x y:=by
 simp only[After,cons_lt_cons_iff,cons.injEq]
 tauto

lemma after_append(p:List Nibble):After start (p++x) (p++y)↔After start x y:=by
 simp only[After,append_lt_append,append_cancel_left_eq]

/-- The smallest key of the tree that comes after the given one. -/
def Successor (t:HexTree) (start:Bool) (key:List Nibble) (r:Found):Prop:=
 match r.1 with
 | none=>∀l v,Has t l v→¬After start key l
 | some k=>Has t k r.2 ∧ After start key k ∧ ∀l v,Has t l v → After start key l→¬l<k

/-- The smallest key below the children with the given indices. -/
def Leftmost (cs:Nibble→HexTree) (is:List Nibble) (r:Found):Prop:=
 match r.1 with
 | none=>∀i∈is,cs i=.empty
 | some k=>∃i l,k=i::l ∧ i∈is ∧ Has (cs i) l r.2 ∧ ∀j∈is,∀l' v,Has (cs j) l' v→¬j::l'<k

variable {sha3:Bytes→Bytes}

lemma remTerm_concat(k:List Nibble):remTerm (k++[16])=some k:=by
 simp[remTerm]

lemma remTerm_inner(hp:p≠[])(h16:16∉p):remTerm p=some p:=by
 rw[remTerm,getLast?_eq_some_getLast hp]
 dsimp only
 rw[if_neg fun h:p.getLast hp=16=>h16 (h▸getLast_mem hp)]

lemma not_has_empty:¬Has .empty k v:=by
 rw[Has,Tree.lookup_empty]
 exact nofun

lemma expands_empty{db:Db}{n:Node}(h:Expands sha3 db n .empty):n=.nil:=by
 cases h with
 | nil=>rfl
 | hash ht=>cases ht

/-- The loop over the children stops at the first child that is not empty. -/
lemma firstChild_spec{st:Store}(hst:StoreOk st){ns:Nibble→Node}
 (h:∀i,Expands sha3 st.db (ns i) (cs i)){fuel:ℕ}(hfuel:0<fuel)
 (hfirst:∀i,cs i≠.empty→∀value st',StoreOk st'→st'.db=st.db →
  Keeps st' (key fuel (ns i) value st') (First (cs i))){is:List Nibble}
 (his:is.Pairwise (· < ·))(value:Bytes):
 Keeps st (firstChild (fun i=>key fuel (ns i)) is value st) (Leftmost cs is):=by
 induction is generalizing value st with
 | nil=>exact .pure hst (by simp[Leftmost])
 | cons i is ih=>
  obtain⟨hi,hrest⟩:=pairwise_cons.mp his
  by_cases he:cs i=.empty
  ·obtain⟨fuel,rfl⟩:=Nat.exists_eq_add_of_lt hfuel
   have hnil:key (0+fuel+1) (ns i) value st=some ((none,value),st):=by
    rw[expands_empty (n:=ns i) (he▸h i)]
    rfl
   rw[firstChild,hnil]
   refine (ih hst h hfirst hrest value).imp fun r hr=>?_
   unfold Leftmost at hr ⊢
   split at hr
   ·exact forall_mem_cons.mpr ⟨he,hr⟩
   obtain⟨j,l,hk,hj,hhas,hmin⟩:=hr
   refine⟨j,l,hk,mem_cons_of_mem i hj,hhas,forall_mem_cons.mpr ⟨?_,hmin⟩⟩
   exact fun l' v hl=>absurd (he▸hl) not_has_empty
  refine (hfirst i he value st hst rfl).bind fun r st' hst' _ hr=>?_
  obtain⟨k,hk,hhas,hmin⟩:=hr
  simp only[hk]
  refine .pure hst' ⟨i,k,rfl,mem_cons_self,hhas,forall_mem_cons.mpr ⟨?_,?_⟩⟩
  ·intro l v hl hlt
   rcases cons_lt_cons_iff.mp hlt with hii|⟨-,hlk⟩
   ·exact lt_irrefl _ hii
   exact hmin l v hl hlk
  intro j hj l v _ hlt
  rcases cons_lt_cons_iff.mp hlt with hji|⟨rfl,-⟩
  ·exact lt_asymm hji (hi j hj)
  exact lt_irrefl _ (hi j hj)

lemma sorted_branchIndices:branchIndices.Pairwise (· < ·):=by decide

lemma key_spec(hlen:∀b,(sha3 b).length=32){n:ℕ}(ht:Uniform n t):
 ∀{node:Node} {st:Store} {fuel:ℕ} (value:Bytes),Expands sha3 st.db node t →
  StoreOk st → 2*(n+1)+1≤fuel→Keeps st (key fuel node value st) (First t):=by
 have hlift:∀{n t},(∀value node st fuel,Loaded node→Expands sha3 st.db node t →
  StoreOk st → 2*(n+1)≤fuel+1→Keeps st (key (fuel+1) node value st) (First t)) →
  ∀{node st fuel} (value:Bytes),Expands sha3 st.db node t → StoreOk st →
   2*(n+1)+1≤fuel→Keeps st (key fuel node value st) (First t):=
  fun hstep _ _ _ value h hst hfuel=>
   keeps_resolved hlen (fun fuel st node=>key fuel node value st) (fun _=>First _)
    (by omega) (fun _ _ _=>rfl) (hstep value) h hst hfuel
 induction ht with
 | leaf k v h16=>
  refine fun {_ _ _}=>hlift fun value node st fuel hl h hst _=>?_
  cases h with
  | hash=>exact absurd rfl (hl _)
  | short _ h=>
   cases h with
   | hash ht=>cases ht
   | value=>
    rw[key,remTerm_concat]
    refine .pure hst ⟨k,rfl,by simp[Has,Tree.lookup_edge_leaf],fun l w hl=>?_⟩
    rw[(has_leaf hl).1]
    exact lt_irrefl _
 | @edge p cs n hp h16 h ih=>
  refine fun {_ _ _}=>hlift fun value node st fuel hl h hst hfuel=>?_
  cases h with
  | hash=>exact absurd rfl (hl _)
  | @short val _ _ h=>
   have hpos:=length_pos_of_ne_nil hp
   have hval:val.isValue=false:=by cases h<;>rfl
   have hkey:key (fuel+1) (.shortNode p val) value st=key fuel val value st>>=fun r=>
    some ((some (p++r.1.1.getD []),r.1.2),r.2):=by
    rw[key,remTerm_inner hp h16]
    cases val with
    | valueNode v=>cases hval
    | _=>rfl
   rw[hkey]
   refine (ih value h hst (by omega)).bind fun r st' hst' _ hr=>?_
   obtain⟨k,hk,hhas,hmin⟩:=hr
   refine .pure hst' ⟨p++k,by rw[hk];rfl,?_,fun l v hl hlt=>?_⟩
   ·simpa[Has]using hhas
   obtain⟨l,rfl,hl'⟩:=has_edge h16 hl
   exact hmin l v hl' ((append_lt_append p).mp hlt)
 | @branch cs n hlast hne hu ih=>
  refine fun {_ _ _}=>hlift fun value node st fuel hl h hst hfuel=>?_
  cases h with
  | hash=>exact absurd rfl (hl _)
  | @full ns _ h=>
   have h16:ns 16=.nil:=expands_empty (hlast▸h 16)
   rw[key,h16]
   refine (firstChild_spec hst h (by omega) (fun i hi value st' hst' hdb=>
    ih i hi value (hdb▸h i) hst' (by omega)) sorted_branchIndices value).imp fun r hr=>?_
   unfold Leftmost at hr
   split at hr
   ·obtain⟨i,hi⟩:=hne
    exact absurd (hr i (mem_branchIndices.mpr fun h=>hi (h▸hlast))) hi
   next k hk =>
   obtain⟨i,l,rfl,-,hhas,hmin⟩:=hr
   refine⟨i::l,hk,hhas,fun l' v hl'=>?_⟩
   obtain⟨j,l',rfl,hj,hhas'⟩:=has_branch hlast hl'
   exact hmin j (mem_branchIndices.mpr hj) l' v hhas'

lemma first_successor(h:First t r)
 (hafter:∀l v,Has t l v → After start rest l):Successor t start rest r:=by
 obtain⟨k,hk,hhas,hmin⟩:=h
 rw[Successor,hk]
 exact⟨hhas,hafter k _ hhas,fun l v hl _=>hmin l v hl⟩

lemma next_spec(hlen:∀b,(sha3 b).length=32)(start:Bool){n:ℕ}(ht:Uniform n t):
 ∀{node:Node} {st:Store} {fuel:ℕ} {rest:List Nibble} (value:Bytes),
  rest.length=n → 16∉rest→Expands sha3 st.db node t → StoreOk st → 2*(n+1)+2≤fuel →
   Keeps st (next start fuel node rest value st) (Successor t start rest):=by
 have hlift:∀{n t} {rest:List Nibble},(∀value node st fuel,Loaded node →
  Expands sha3 st.db node t → StoreOk st → 2*(n+1)+1≤fuel+1 →
  Keeps st (next start (fuel+1) node rest value st) (Successor t start rest)) →
  ∀{node st fuel} (value:Bytes),Expands sha3 st.db node t → StoreOk st → 2*(n+1)+2≤fuel →
   Keeps st (next start fuel node rest value st) (Successor t start rest):=
  fun hstep _ _ _ value h hst hfuel=>
   keeps_resolved hlen (fun fuel st node=>next start fuel node _ value st)
    (fun _=>Successor _ _ _) (by omega) (fun _ _ _=>rfl) (hstep value) h hst hfuel
 induction ht with
 | leaf k v h16=>
  intro node st fuel rest value hrest _
  refine hlift (fun value node st fuel hl h hst _=>?_) value
  cases h with
  | hash=>exact absurd rfl (hl _)
  | short _ h=>
   cases h with
   | hash ht=>cases ht
   | value=>
    have hhas:Has (.edge (k++[16]) (.leaf v)) k v:=by simp[Has,Tree.lookup_edge_leaf]
    have hself:∀l w,Has (.edge (k++[16]) (.leaf v)) l w→¬l<k:=fun l w hl=>by
     rw[(has_leaf hl).1]
     exact lt_irrefl _
    rw[next,remTerm_concat,bind_eq_bind,bind_some]
    dsimp only
    split
    ·next heq =>
     subst heq
     cases start with
     | true=>exact .pure hst ⟨hhas,.inr ⟨rfl,rfl⟩,fun l w hl _=>hself l w hl⟩
     | false=>
      refine .pure hst fun l w hl hafter=>?_
      rw[(has_leaf hl).1]at hafter
      exact hafter.elim (lt_irrefl _) (Bool.false_ne_true ·.1)
    split
    ·next hlt=>exact .pure hst ⟨hhas,.inl hlt,fun l w hl _=>hself l w hl⟩
    next hne hlt =>
    refine .pure hst fun l w hl hafter=>?_
    rw[(has_leaf hl).1]at hafter
    exact hafter.elim hlt (hne ·.2.symm)
 | @edge p cs n hp h16 hu ih=>
  intro node st fuel rest value hrest hrest16
  refine hlift (fun value node st fuel hl h hst hfuel=>?_) value
  cases h with
  | hash=>exact absurd rfl (hl _)
  | @short val _ _ h=>
   have hpos:=length_pos_of_ne_nil hp
   have hval:val.isValue=false:=by cases h<;>rfl
   have hnext:next start (fuel+1) (.shortNode p val) rest value st =
    if p <+: rest then next start fuel val (rest.drop p.length) value st>>=fun r=>
     some ((r.1.1.map (p ++ ·),r.1.2),r.2)
    else if rest.take p.length<p then key (fuel+1) (.shortNode p val) value st
    else some ((none,value),st):=by
    rw[next,remTerm_inner hp h16,bind_eq_bind,bind_some]
    have hle:¬rest.length<p.length:=by omega
    cases val with
    | valueNode v=>cases hval
    | _=>
     dsimp only
     rw[if_neg hle]
     rfl
   have htake:(rest.take p.length).length=p.length:=by
    rw[length_take]
    omega
   have hdecomp:=take_append_drop p.length rest
   rw[hnext]
   split
   ·next hpre =>
    obtain⟨rest,rfl⟩:=hpre
    rw[mem_append,not_or]at hrest16
    rw[length_append]at hrest
    rw[drop_left]
    refine (ih value (by omega) hrest16.2 h hst (by omega)).bind fun r st' hst' _ hr=>?_
    refine .pure hst' ?_
    unfold Successor at hr ⊢
    cases hk:r.1 with
    | none=>
     rw[hk]at hr
     intro l v hl hafter
     obtain⟨l,rfl,hl'⟩:=has_edge h16 hl
     exact hr l v hl' ((after_append p).mp hafter)
    | some k=>
     rw[hk]at hr
     refine⟨by simpa[Has]using hr.1,(after_append p).mpr hr.2.1,fun l v hl hafter hlt=>?_⟩
     obtain⟨l,rfl,hl'⟩:=has_edge h16 hl
     exact hr.2.2 l v hl' ((after_append p).mp hafter) ((append_lt_append p).mp hlt)
   split
   ·next hlt =>
    refine (key_spec hlen (.edge hp h16 hu) value (.short p h) hst hfuel).imp
     fun r hr=>first_successor hr fun l v hl=>.inl ?_
    obtain⟨l,rfl,-⟩:=has_edge h16 hl
    rw[←hdecomp]
    exact lt_append_of_lt htake hlt _ _
   next hne hlt =>
   refine .pure hst fun l v hl hafter=>?_
   obtain⟨l,rfl,-⟩:=has_edge h16 hl
   have hgt:p<rest.take p.length:=by
    rcases lt_trichotomy p (rest.take p.length) with h|h|h
    ·exact h
    ·exact absurd (h ▸ take_prefix p.length rest) hne
    exact absurd h hlt
   have hback:=lt_append_of_lt htake.symm hgt l (rest.drop p.length)
   rw[hdecomp]at hback
   rcases hafter with hafter|⟨-,rfl⟩
   ·exact lt_asymm hback hafter
   exact lt_irrefl _ hback
 | @branch cs n hlast hne hu ih=>
  intro node st fuel rest value hrest hrest16
  refine hlift (fun value node st fuel hl h hst hfuel=>?_) value
  obtain⟨a,rest,rfl⟩:=exists_cons_of_length_eq_add_one hrest
  rw[mem_cons,not_or]at hrest16
  cases h with
  | hash=>exact absurd rfl (hl _)
  | @full ns _ h=>
   have hchild:Keeps st (next start fuel (ns a) rest value st)
    (Successor (cs a) start rest):=by
    by_cases he:cs a=.empty
    ·obtain⟨fuel,rfl⟩:∃f,fuel=f+1:=⟨fuel-1,by omega⟩
     rw[expands_empty (n:=ns a) (he▸h a),he]
     exact .pure hst fun l v hl=>absurd hl not_has_empty
    exact ih a he value (succ.inj hrest) hrest16.2 (h a) hst (by omega)
   refine hchild.bind fun r st' hst' hdb hr=>?_
   cases hk:r.1 with
   | some k=>
    simp only[Successor,hk]at hr
    simp only[hk]
    refine .pure hst' ⟨hr.1,after_cons.mpr (.inr ⟨rfl,hr.2.1⟩),fun l v hl hafter hlt=>?_⟩
    obtain⟨b,l,rfl,-,hl'⟩:=has_branch hlast hl
    rcases cons_lt_cons_iff.mp hlt with hba|⟨rfl,hlk⟩
    ·rcases after_cons.mp hafter with hab|⟨rfl,-⟩
     ·exact lt_asymm hab hba
     exact lt_irrefl _ hba
    exact hr.2.2 l v hl' ((after_cons.mp hafter).resolve_left (lt_irrefl _)).2 hlk
   | none=>
    simp only[Successor,hk]at hr
    simp only[hk]
    have hpast:∀l v,Has (.branch cs) l v → After start (a::rest) l →
     ∃b l',l=b::l'∧b∈branchIndices.filter (a < ·)∧Has (cs b) l' v:=by
     intro l v hl hafter
     obtain⟨b,l,rfl,hb,hl'⟩:=has_branch hlast hl
     refine⟨b,l,rfl,mem_filter.mpr ⟨mem_branchIndices.mpr hb,?_⟩,hl'⟩
     rcases after_cons.mp hafter with hab|⟨rfl,hrest⟩
     ·exact decide_eq_true hab
     exact absurd hrest (hr l v hl')
    refine (firstChild_spec hst' (hdb▸h ·) (by omega)
     (fun i hi value st'' hst'' hdb'=>key_spec hlen (hu i hi) value
      (by rw[hdb',hdb];exact h i) hst'' (by omega))
     (sorted_branchIndices.filter _) r.2).imp fun r' hr'=>?_
    unfold Leftmost at hr'
    unfold Successor
    split at hr'
    ·intro l v hl hafter
     obtain⟨b,l,-,hb,hl'⟩:=hpast l v hl hafter
     exact absurd (hr' b hb▸hl') not_has_empty
    obtain⟨i,k,rfl,hi,hhas,hmin⟩:=hr'
    have hai:=of_decide_eq_true (mem_filter.mp hi).2
    refine⟨hhas,after_cons.mpr (.inl hai),fun l v hl hafter=>?_⟩
    obtain⟨b,l,rfl,hb,hl'⟩:=hpast l v hl hafter
    exact hmin b hb l v hl'

lemma decodeCompact_nibbles(k:Bytes):decodeCompact (nibbles k)=k:=by
 induction k with
 | nil=>rfl
 | cons b k ih=>
  rw[nibbles_cons,decodeCompact,ih]
  congr 1
  have hb:=b.toNat_lt
  apply UInt8.toNat_inj.mp
  simp only[nibbleByte,highNibble,lowNibble,UInt8.toNat_add,UInt8.toNat_mul,
   UInt8.toNat_ofNat,UInt8.toNat_ofNat']
  omega

lemma nibbles_lt_iff{k l:Bytes}:nibbles k<nibbles l↔k<l:=by
 induction k generalizing l with
 | nil=>
  cases l with
  | nil=>simp[nibbles]
  | cons c l=>simp[nibbles]
 | cons b k ih=>
  cases l with
  | nil=>simp[nibbles]
  | cons c l=>
   simp only[nibbles_cons,cons_lt_cons_iff,ih,UInt8.lt_iff_toNat_lt,
    ←UInt8.toNat_inj,Fin.lt_def,Fin.ext_iff,highNibble,lowNibble]
   by_cases hkl:k<l
   ·simp only[hkl,and_true]
    omega
   simp only[hkl,and_false,or_false]
   omega

lemma nibbles_injective{k l:Bytes}(h:nibbles k=nibbles l):k=l:=by
 rw[←decodeCompact_nibbles k,h,decodeCompact_nibbles]

def keys32:KeySet:=.ofLength 32 (by decide)

def Left (it:Iterator) (k:Bytes):Prop:=∀l,it.key=some l→nibbles l<nibbles k

lemma zeros_le{l:List Nibble}{n:ℕ}(h:l.length=n):replicate n 0<l∨replicate n 0=l:=by
 induction l generalizing n with
 | nil=>
  subst h
  exact .inr rfl
 | cons a l ih=>
  subst h
  rw[length_cons,replicate_succ,cons_lt_cons_iff,cons.injEq]
  by_cases ha:a=0
  ·exact (ih rfl).imp (.inr ⟨ha.symm,·⟩) (⟨ha.symm,·⟩)
  exact .inl (.inl (Fin.pos_of_ne_zero ha))

section Runs

variable {m:Mapping} {trie:Trie}

variable {it:Iterator}

lemma after_iff_left{k:Bytes}(hk:k.length=32):
 After it.key.isNone (nibbles (it.key.getD (replicate 32 0))) (nibbles k)↔Left it k:=by
 unfold After Left
 cases it.key with
 | none=>
  have h:=zeros_le (l:=nibbles k) (n:=64) (by rw[nibbles_length,hk])
  have hzeros:nibbles (replicate 32 0)=replicate 64 0:=by decide
  rw[←hzeros]at h
  simpa only[isNone_none,getD_none,true_and,reduceCtorEq,false_implies,implies_true,iff_true]using h
 | some l=>simp

def remaining (m:Mapping) (it:Iterator):Set (List Nibble):=
 {l | ∃k v,nibbles k=l ∧ m k=some v ∧ Left it k}

lemma finite_remaining(hm:m.Over keys32)(it:Iterator):(remaining m it).Finite:=by
 refine (finite_length_eq Nibble 64).subset ?_
 rintro _ ⟨k,v,rfl,hk,-⟩
 exact (nibbles_length k).trans (by rw[(hm k v hk).1])

variable (hlen:∀b,(sha3 b).length=32) (ht:Represents t m) (hm:m.Over keys32) {st:Store}
 (hroot:RootExpands sha3 st.db trie.root t) (hst:StoreOk st)
 (hempty:st.db (Trie.emptyRoot sha3)=none)

include hlen ht hm hroot hst hempty

lemma Iterator.next_spec(hit:∀k,it.key=some k→k.length=32):
 ∃b it' st',it.next trie st=some (b,it',st')∧StoreOk st'∧st'.db=st.db∧
  (b=false∧(∀k v,m k=some v→¬Left it k)∨∃k,b=true∧it'.key=some k∧m k=some it'.value∧Left it k∧
    ∀l v,m l=some v → Left it l→¬nibbles l<nibbles k):=by
 have hself:(it.key.getD (replicate 32 0)).length=32:=by
  cases h:it.key with
  | none=>rfl
  | some k=>exact hit k h
 have hhas:∀k v,Has t (nibbles k) v↔m k=some v:=fun k v=>by
  rw[←ht.lookup]
  rfl
 unfold Iterator.next
 dsimp only
 generalize hs:it.key.getD (replicate 32 0)=self at hself
 obtain⟨r,st',hr,hst',hdb,hsucc⟩:=keeps_root hlen (t:=t) (m:=2*65+1)
  (fun fuel st n=>TrieIteration.next it.key.isNone fuel n (nibbles self) it.value st)
  (fun _=>Successor t it.key.isNone (nibbles self)) (fun _ _ _=>rfl)
  (fun n st fuel h hst hfuel=>by
   by_cases he:t=.empty
   ·subst he
    obtain⟨fuel,rfl⟩:∃f,fuel=f+1:=⟨fuel-1,by omega⟩
    rw[expands_empty h]
    exact .pure hst fun l v hl=>absurd hl not_has_empty
   have hu:Uniform 64 t:=uniform_of_shaped (ht.shaped hm he) (ht.normal he)
    fun l v hl=>by
     obtain⟨k,rfl,hk⟩:=ht.of_lookup hl
     rw[compactHexDecode,length_append,nibbles_length,(hm k v hk).1]
     rfl
   exact TrieIteration.next_spec hlen _ hu it.value (by rw[nibbles_length,hself])
    (terminator_notMem self) h hst hfuel)
  hroot hst hempty
 have hfuel:Trie.fuelFor (compactHexDecode self)+1=2*65+1+2:=by
  rw[Trie.fuelFor,compactHexDecode,length_append,nibbles_length,hself]
  rfl
 rw[show remTerm (compactHexDecode self)=some (nibbles self) from remTerm_concat _,hfuel]
 refine⟨_,_,st',by rw[bind_eq_bind,bind_some,hr];rfl,hst',hdb,?_⟩
 unfold Successor at hsucc
 split at hsucc
 ·next hnone =>
  refine .inl ⟨by rw[hnone];rfl,fun k v hk hleft=>?_⟩
  refine hsucc (nibbles k) v ((hhas k v).mpr hk) ?_
  rw[←hs]
  exact (after_iff_left (hm k v hk).1).mpr hleft
 next l hl =>
 obtain⟨hhasl,hafter,hmin⟩:=hsucc
 obtain⟨k,hk,hmk⟩:=ht.of_lookup hhasl
 obtain rfl:l=nibbles k:=append_cancel_right hk
 have hk32:k.length=32:=(hm k _ hmk).1
 refine .inr ⟨k,?_,?_,hmk,?_,fun l v hlv hleft=>hmin _ v ((hhas l v).mpr hlv) ?_⟩
 ·rw[hl,getD_some,nibbles_length,hk32]
  rfl
 ·rw[hl,getD_some,decodeCompact_nibbles]
 ·rw[←hs]at hafter
  exact (after_iff_left hk32).mp hafter
 rw[←hs]
 exact (after_iff_left (hm l v hlv).1).mpr hleft

lemma exists_iterates(hit:∀k,it.key=some k→k.length=32):
 ∃pairs,Iterates trie it st pairs∧pairs.Pairwise (fun a b=>a.1<b.1)∧
  ∀k v,(k,v)∈pairs↔m k=some v∧Left it k:=by
 induction hn:(remaining m it).ncard using Nat.strong_induction_on generalizing it st with
 | _ n ih=>
  obtain⟨b,it',st',hnext,hst',hdb,⟨rfl,hdone⟩|⟨k,rfl,hkey,hmk,hleft,hmin⟩⟩:=
   Iterator.next_spec hlen ht hm hroot hst hempty hit
  ·refine⟨[],.done hnext,.nil,fun k v=>?_⟩
   simpa using hdone k v
  have hleft':∀l,Left it' l↔nibbles k<nibbles l:=fun l=>by
   simp[Left,hkey]
  have hmono:∀l,nibbles k<nibbles l → Left it l:=fun l hl q hq=>
   (hleft q hq).trans hl
  have hit':∀q,it'.key=some q → q.length=32:=fun q hq=>by
   rw[hkey]at hq
   exact some.inj hq▸(hm k _ hmk).1
  have hless:(remaining m it').ncard<n:=by
   rw[←hn]
   refine Set.ncard_lt_ncard ⟨?_,fun hsub=>?_⟩ (finite_remaining hm it)
   ·rintro _ ⟨l,v,rfl,hl,hll⟩
    exact⟨l,v,rfl,hl,hmono l ((hleft' l).mp hll)⟩
   obtain⟨l,v,hlk,-,hll⟩:=hsub ⟨k,_,rfl,hmk,hleft⟩
   exact lt_irrefl _ (hlk▸(hleft' l).mp hll)
  obtain⟨pairs,hrest,hsorted,hmem⟩:=ih _ hless (hdb▸hroot) hst' (hdb▸hempty) hit' rfl
  refine⟨_,.more hnext hkey hrest,pairwise_cons.mpr ⟨fun q hq=>?_,hsorted⟩,fun l v=>?_⟩
  ·exact nibbles_lt_iff.mp ((hleft' q.1).mp ((hmem q.1 q.2).mp hq).2)
  rw[mem_cons,hmem,hleft',Prod.mk.injEq]
  constructor
  ·rintro (⟨rfl,rfl⟩|⟨hl,hlt⟩)
   ·exact⟨hmk,hleft⟩
   exact⟨hl,hmono l hlt⟩
  rintro⟨hl,hll⟩
  rcases lt_trichotomy (nibbles k) (nibbles l) with hlt|heq|hlt
  ·exact .inr ⟨hl,hlt⟩
  ·obtain rfl:=nibbles_injective heq
   exact .inl ⟨rfl,some.inj (hl.symm.trans hmk)⟩
  exact absurd hlt (hmin l v hl hll)

end Runs

/-- For every committed trie over keys of 32 bytes that is opened from its root, calling `Next`
until it returns false gives the stored pairs, each once, in ascending order of the keys. -/
theorem iterates_stored_pairs {ops : List Op} {i : ℕ} {m : Mapping}
    (hops : ∀ op ∈ ops, op.Over keys32) (hi : (History.start.run ops).saved[i]? = some m)
    (hsound : Sound sha3 (ops ++ [.reopen i])) :
    ∃ s, Session.start.run sha3 (ops ++ [.reopen i]) = some s ∧
      ∃ pairs, Iterates s.trie newIterator s.store pairs ∧
        pairs.Pairwise (fun a b => a.1 < b.1) ∧ ∀ k v, (k, v) ∈ pairs ↔ m k = some v := by
 have h80:=emptyString_not_node hsound.length (History.start.reached (ops++[.reopen i]))
 have hover:∀op∈ops++[.reopen i],op.Over keys32:=fun op hop=>by
  rcases mem_append.mp hop with hop|hop
  · exact hops op hop
  rw[mem_singleton.mp hop]
  trivial
 obtain⟨s,hs,hmat⟩:=(matches_start keys32).run hsound h80 hover subset_rfl
 have hcur:(History.start.run (ops++[.reopen i])).current=m:=by
  rw[History.run,foldl_append]
  change (((History.start.run ops).saved[i]?).getD _)=m
  rw[hi]
  rfl
 obtain⟨hm,t,ht,hroot⟩:=hmat.current
 rw[hcur] at hm ht
 have hnew:∀k,newIterator.key≠some k:=fun _=>some_ne_none _ |>.symm
 obtain⟨pairs,hpairs,hsorted,hmem⟩:=exists_iterates hsound.length ht hm hroot hmat.store
  (emptyRoot_missing hsound h80 hmat.addressed) (fun k hk=>absurd hk (hnew k))
 refine⟨s,hs,pairs,hpairs,hsorted,fun k v=>?_⟩
 rw[hmem]
 exact and_iff_left fun l hl=>absurd hl (hnew l)

/-- Tells one node from the empty string. -/
def twoHash (b:Bytes):Bytes:=replicate 32 (if b=[0x80] then 1 else 2)

def sampleKey:Bytes:=replicate 32 7

def sampleOps:List Op:=[.update sampleKey [5],.commit]

lemma sound_sample:Sound twoHash (sampleOps++[.reopen 0]):=by
 have htree:=represents_empty.insert sampleKey (v:=[5]) (by simp)
 have hnodes:∀e∈nodesOf twoHash (History.start.reached (sampleOps++[.reopen 0])),
  e=encoding twoHash (.edge (compactHexDecode sampleKey) (.leaf [5])):=by
  rintro e ⟨m,hm,t,ht,s,hs,hsh,rfl⟩
  have hcases:m=History.start.current∨m=History.start.current.write sampleKey [5]:=by
   simpa[sampleOps,History.reached,History.step,History.start]using hm
  rcases hcases with rfl|rfl
  ·obtain rfl:=ht.eq represents_empty
   cases hs
   cases hsh
  obtain rfl:=ht.eq htree
  rcases hs with _|⟨_,_ | _⟩
  ·rfl
  cases hsh
 have hne:∀e∈nodesOf twoHash (History.start.reached (sampleOps++[.reopen 0])),
  e≠[0x80]:=fun e he h=>emptyString_not_node (by simp[twoHash]) _ (h▸he)
 refine⟨by simp[twoHash],?_,fun e he=>?_⟩
 ·rintro a (rfl|ha) b (rfl|hb) hab
  ·rfl
  ·simp[twoHash,hne b hb]at hab
  ·simp[twoHash,hne a ha]at hab
  rw[hnodes a ha,hnodes b hb]
 simp[twoHash,hne e he,Trie.zeroHash]

theorem iterates_stored_pairs_single :
    ∃ s, Session.start.run twoHash (sampleOps ++ [.reopen 0]) = some s ∧
      ∃ pairs, Iterates s.trie newIterator s.store pairs ∧
        pairs.Pairwise (fun a b => a.1 < b.1) ∧
        ∀ k v, (k, v) ∈ pairs ↔ History.start.current.write sampleKey [5] k = some v :=
 iterates_stored_pairs (by simp[sampleOps,Op.Over,keys32,KeySet.ofLength,sampleKey]) rfl
  sound_sample

end GoCoupe.TrieIteration
