import Mathlib.Data.List.Infix
import Mathlib.Logic.ExistsUnique
import Mathlib.Logic.Function.Basic

/-!
# Patricia trees

A tree with labelled edges denotes a finite map from words to values. A canonical tree has no
empty label, no edge below an edge and no branch with fewer than two children, and is
determined by its map.
-/

namespace GoCoupe.PatriciaTrees
open List Function

inductive Tree (α V:Type) where
 | empty
 | leaf (v:V)
 | edge (label:List α) (child:Tree α V)
 | branch (children:α→Tree α V)

namespace Tree

variable {α V:Type}

inductive Canonical:Tree α V→Prop
 | leaf (v:V):Canonical (.leaf v)
 | edgeLeaf {p:List α} (hp:p≠[]) (v:V):Canonical (.edge p (.leaf v))
 | edgeBranch {p:List α} (hp:p≠[]) {cs:α→Tree α V} (hc:Canonical (.branch cs)) :
  Canonical (.edge p (.branch cs))
 | branch {cs:α→Tree α V} (hc:∀a,cs a≠.empty → Canonical (cs a))
  (hf:∃a b,a≠b ∧ cs a≠.empty ∧ cs b≠.empty):Canonical (.branch cs)

inductive Subtree:Tree α V→Tree α V→Prop
 | refl (t:Tree α V):Subtree t t
 | edge {s c:Tree α V} (p:List α) (h:Subtree s c):Subtree s (.edge p c)
 | branch {s:Tree α V} {cs:α→Tree α V} (a:α) (h:Subtree s (cs a)):Subtree s (.branch cs)

variable {t c:Tree α V} {p k:List α} {cs:α→Tree α V} {a b:α}

lemma Subtree.trans(h:Subtree r s)(h':Subtree s t):Subtree r t:=by
 induction h' with
 | refl=>exact h
 | edge p _ ih=>exact .edge p ih
 | branch a _ ih=>exact .branch a ih

def Normal (t:Tree α V):Prop:=t≠.empty → Canonical t

lemma Canonical.normal(h:Canonical t):Normal t:=fun _=>h

lemma Canonical.edge_label_ne(h:Canonical (.edge p c)):p≠[]:=by
 cases h with
 | edgeLeaf hp _=>exact hp
 | edgeBranch hp _=>exact hp

lemma Canonical.edge_child_canonical(h:Canonical (.edge p c)):Canonical c:=by
 cases h with
 | edgeLeaf _ v=>exact .leaf v
 | edgeBranch _ hc=>exact hc

lemma Canonical.child(h:Canonical (.branch cs))(a:α):Normal (cs a):=by
 cases h with
 | branch hc _=>exact hc a

lemma normal_empty:Normal (.empty:Tree α V):=fun h=>absurd rfl h

variable [DecidableEq α]

def lookup:Tree α V→List α→Option V
 | .empty,_=>none
 | .leaf v,k=>if k=[] then some v else none
 | .edge p c,k=>if p <+: k then c.lookup (k.drop p.length) else none
 | .branch _,[]=>none
 | .branch cs,a::k=>(cs a).lookup k

@[simp] lemma lookup_empty(k:List α):lookup (.empty:Tree α V) k=none:=by
 cases k<;>rfl

@[simp] lemma lookup_leaf_nil(v:V):lookup (.leaf v:Tree α V) []=some v:=rfl

@[simp] lemma lookup_leaf_cons(v:V)(a:α)(k:List α):lookup (.leaf v) (a::k)=none:=rfl

lemma lookup_edge(p:List α)(c:Tree α V)(k:List α):
 lookup (.edge p c) k=if p <+: k then c.lookup (k.drop p.length) else none:=by
 cases k<;>rfl

@[simp] lemma lookup_edge_append(p:List α)(c:Tree α V)(k:List α):
 lookup (.edge p c) (p++k)=c.lookup k:=by
 rw[lookup_edge,if_pos (prefix_append p k),drop_left]

@[simp] lemma lookup_branch_nil(cs:α→Tree α V):lookup (.branch cs) []=none:=rfl

@[simp] lemma lookup_branch_cons(cs:α→Tree α V)(a:α)(k:List α):
 lookup (.branch cs) (a::k)=(cs a).lookup k:=rfl

lemma lookup_edge_eq_some(h:lookup (.edge p c) k=some v):∃s,k=p++s∧c.lookup s=some v:=by
 rw[lookup_edge]at h
 split at h
 ·rename_i hp
  obtain⟨s,rfl⟩:=hp
  exact⟨s,rfl,by simpa using h⟩
 cases h

lemma lookup_edge_nil(hp:p≠[])(c:Tree α V):lookup (.edge p c) []=none:=by
 rw[lookup_edge,if_neg]
 simpa using hp

lemma Canonical.exists_key(h:Canonical t):∃k v,t.lookup k=some v:=by
 induction h with
 | leaf v=>exact⟨[],v,rfl⟩
 | @edgeLeaf p hp v=>exact⟨p++[],v,lookup_edge_append p _ []⟩
 | @edgeBranch p hp cs hc ih=>
  obtain⟨k,v,hk⟩:=ih
  exact⟨p++k,v,by simpa using hk⟩
 | @branch cs hc hf ih=>
  obtain⟨a,_,_,ha,_⟩:=hf
  obtain⟨k,v,hk⟩:=ih a ha
  exact⟨a::k,v,hk⟩

lemma Normal.eq_empty(h:Normal t)(hn:∀k,t.lookup k=none):t=.empty:=by
 by_contra hne
 obtain⟨k,v,hk⟩:=(h hne).exists_key
 rw[hn k]at hk
 cases hk

lemma Canonical.branch_keys(h:Canonical (.branch cs)):
 ∃a b k l v w,a≠b∧lookup (.branch cs) (a::k)=some v∧lookup (.branch cs) (b::l)=some w:=by
 cases h with
 | branch hc hf=>
  obtain⟨a,b,hab,ha,hb⟩:=hf
  obtain⟨k,v,hk⟩:=(hc a ha).exists_key
  obtain⟨l,w,hl⟩:=(hc b hb).exists_key
  exact⟨a,b,k,l,v,w,hab,hk,hl⟩

/-- The words below an edge do not share a first letter. -/
lemma Canonical.edge_child(h:Canonical (.edge p c))(a:α):∃k v,c.lookup k=some v∧∀s,k≠a::s:=by
 cases h with
 | edgeLeaf hp v=>exact⟨[],v,rfl,by simp⟩
 | edgeBranch hp hc=>
  obtain⟨x,y,k,l,v,w,hxy,hk,hl⟩:=hc.branch_keys
  by_cases hx:x=a
  ·refine⟨y::l,w,hl,fun s hs=>hxy ?_⟩
   rw[hx,(cons.inj hs).1]
  exact⟨x::k,v,hk,fun s hs=>hx (cons.inj hs).1⟩

/-- A label is the longest common part of the words it leads to. -/
lemma Canonical.label_prefix(hp:Canonical (.edge p c))
 (h:lookup (.edge p c)=lookup (.edge q d)):q <+: p:=by
 obtain⟨k,v,hk⟩:=hp.edge_child_canonical.exists_key
 have hpk:lookup (.edge q d) (p++k)=some v:=by
  rw[←h]
  simpa using hk
 obtain⟨s,hs,-⟩:=lookup_edge_eq_some hpk
 rcases append_eq_append_iff.mp hs with⟨r,hr,-⟩|⟨r,hr,-⟩
 ·cases r with
  | nil=>exact⟨[],by simpa using hr⟩
  | cons a r=>
   obtain⟨k',v',hk',hne⟩:=hp.edge_child a
   have hpk':lookup (.edge q d) (p++k')=some v':=by
    rw[←h]
    simpa using hk'
   obtain⟨s',hs',-⟩:=lookup_edge_eq_some hpk'
   rw[hr,append_assoc]at hs'
   exact absurd (append_cancel_left hs') (hne _)
 exact⟨r,hr.symm⟩

lemma Canonical.edge_ne_branch(hp:Canonical (.edge p c))(hb:Canonical (.branch cs)):
 lookup (.edge p c)≠lookup (.branch cs):=by
 intro h
 obtain⟨a,b,k,l,v,w,hab,hk,hl⟩:=hb.branch_keys
 rw[←h]at hk hl
 obtain⟨s,hs,-⟩:=lookup_edge_eq_some hk
 obtain⟨s',hs',-⟩:=lookup_edge_eq_some hl
 cases p with
 | nil=>exact hp.edge_label_ne rfl
 | cons x p=>
  rw[cons_append]at hs hs'
  exact hab ((cons.inj hs).1.trans (cons.inj hs').1.symm)

lemma Canonical.lookup_nil(h:Canonical t){v:V}(hv:t.lookup []=some v):t=.leaf v:=by
 cases h with
 | leaf w=>
  rw[lookup_leaf_nil,Option.some.injEq]at hv
  rw[hv]
 | edgeLeaf hp | edgeBranch hp=>
  rw[lookup_edge_nil hp]at hv
  cases hv
 | branch=>cases hv

/-- Canonical trees with one map are one tree. -/
lemma Normal.ext(h:Normal t)(h':Normal t')(he:t.lookup=t'.lookup):t=t':=by
 induction t generalizing t' with
 | empty=>
  refine (h'.eq_empty fun k=>?_).symm
  rw[←he]
  exact lookup_empty k
 | leaf v=>
  have hne:t'≠.empty:=by
   rintro rfl
   have:=congrFun he []
   simp at this
  exact ((h' hne).lookup_nil (v:=v) (by rw[←he];rfl)).symm
 | edge p c ih=>
  have hp:=h (by simp)
  cases t' with
  | empty=>
   obtain⟨k,v,hk⟩:=hp.exists_key
   rw[he]at hk
   simp at hk
  | leaf v=>
   have:=congrFun he []
   rw[lookup_edge_nil hp.edge_label_ne]at this
   simp at this
  | edge q d=>
   have hq:=h' (by simp)
   have hpq:=hq.label_prefix he.symm
   have hqp:=hp.label_prefix he
   obtain rfl:=IsPrefix.eq_of_length_le hqp hpq.length_le
   have hcd:c=d:=by
    refine ih hp.edge_child_canonical.normal hq.edge_child_canonical.normal (funext fun k=>?_)
    have:=congrFun he (q++k)
    simpa using this
   rw[hcd]
  | branch cs=>exact absurd he (hp.edge_ne_branch (h' (by simp)))
 | branch cs ih=>
  have hb:=h (by simp)
  cases t' with
  | empty=>
   obtain⟨k,v,hk⟩:=hb.exists_key
   rw[he]at hk
   simp at hk
  | leaf v=>
   have:=congrFun he []
   simp at this
  | edge q d=>exact absurd he.symm ((h' (by simp)).edge_ne_branch hb)
  | branch cs'=>
   have hb':=h' (by simp)
   cases hb with
   | branch hc _=>
    cases hb' with
    | branch hc' _=>
     have hcs:cs=cs':=by
      funext a
      refine ih a (hc a) (hc' a) (funext fun k=>?_)
      exact congrFun he (a::k)
     rw[hcs]

def commonLength:List α→List α→ℕ
 | a::k,b::l=>if a=b then commonLength k l+1 else 0
 | _,_=>0

/-- How a word compares with a label. -/
lemma commonLength_cases(k p:List α):
 (∃s,k=p++s∧commonLength k p=p.length)∨(∃a r,p=k++a::r∧commonLength k p=k.length)∨
  ∃q a b r s,a≠b∧p=q++a::r∧k=q++b::s∧commonLength k p=q.length:=by
 induction k generalizing p with
 | nil=>
  cases p with
  | nil=>exact .inl ⟨[],rfl,rfl⟩
  | cons a r=>exact .inr (.inl ⟨a,r,rfl,rfl⟩)
 | cons b k ih=>
  cases p with
  | nil=>exact .inl ⟨b::k,rfl,rfl⟩
  | cons a p=>
   by_cases hab:b=a
   ·subst hab
    rcases ih p with⟨s,hs,hl⟩|⟨a,r,hs,hl⟩|⟨q,a,c,r,s,hac,hp,hk,hl⟩
    ·exact .inl ⟨s,by rw[hs];rfl,by simp[commonLength,hl]⟩
    ·exact .inr (.inl ⟨a,r,by rw[hs];rfl,by simp[commonLength,hl]⟩)
    exact .inr (.inr ⟨b::q,a,c,r,s,hac,by rw[hp];rfl,by rw[hk];rfl,by simp[commonLength,hl]⟩)
   exact .inr (.inr ⟨[],a,b,p,k,fun h=>hab h.symm,rfl,rfl,by simp[commonLength,hab]⟩)

/-- Put a label in front of a tree, unless it is empty. -/
def graft:List α→Tree α V→Tree α V
 | [],t=>t
 | a::p,t=>.edge (a::p) t

def fork (a:α) (t:Tree α V) (b:α) (t':Tree α V):Tree α V:=
 .branch (update (update (fun _=>.empty) a t) b t')

def insert:Tree α V→List α→V→Tree α V
 | .empty,k,v=>graft k (.leaf v)
 | .leaf _,_,v=>.leaf v
 | .edge p c,k,v=>
  let m:=commonLength k p
  if m=p.length then .edge p (c.insert (k.drop m) v)
  else
   match p.drop m,k.drop m with
   | a::r,b::s=>graft (p.take m) (fork a (graft r c) b (graft s (.leaf v)))
   | _,_=>.leaf v
 | .branch _,[],v=>.leaf v
 | .branch cs,a::k,v=>.branch (update cs a ((cs a).insert k v))

lemma commonLength_append(p s:List α):commonLength (p++s) p=p.length:=by
 induction p with
 | nil=>cases s<;>rfl
 | cons x p ih=>simp[commonLength,ih]

lemma commonLength_split(q:List α)(r s:List α)(hab:a≠b):
 commonLength (q++b::s) (q++a::r)=q.length:=by
 induction q with
 | nil=>simp[commonLength,hab.symm]
 | cons x q ih=>simp[commonLength,ih]

lemma insert_edge_append(p:List α)(c:Tree α V)(s:List α)(v:V):
 insert (.edge p c) (p++s) v=.edge p (c.insert s v):=by
 have hdrop:(p++s).drop p.length=s:=drop_left
 simp only[insert,commonLength_append,if_true,hdrop]

lemma insert_edge_split(q:List α)(r s:List α)(c:Tree α V)(v:V)(hab:a≠b):
 insert (.edge (q++a::r) c) (q++b::s) v=graft q (fork a (graft r c) b (graft s (.leaf v))):=by
 have hne:q.length≠(q++a::r).length:=by simp
 have h1:(q++a::r).drop q.length=a::r:=drop_left
 have h2:(q++b::s).drop q.length=b::s:=drop_left
 have h3:(q++a::r).take q.length=q:=take_left
 simp only[insert,commonLength_split q r s hab,if_neg hne,h1,h2,h3]

/-- No word of the tree is a proper extension or a proper prefix of `k`. -/
def Fits (k:List α) (t:Tree α V):Prop:=∀l v,t.lookup l=some v→(k <+: l ∨ l <+: k)→l=k

lemma Fits.edge{s:List α}(h:Fits (p++s) (.edge p c)):Fits s c:=by
 intro l v hl hcmp
 refine append_cancel_left (h (p++l) v (by simpa using hl) ?_)
 simpa only[prefix_append_right_inj]using hcmp

lemma Fits.branch(h:Fits (a::k) (.branch cs)):Fits k (cs a):=by
 intro l v hl hcmp
 refine (cons.inj (h (a::l) v hl ?_)).2
 simpa only[cons_prefix_cons,true_and]using hcmp

lemma Fits.ne_nil(h:Fits k t)(hc:Canonical t)(hleaf:∀v,t≠.leaf v):k≠[]:=by
 rintro rfl
 obtain⟨l,v,hl⟩:=hc.exists_key
 obtain rfl:=h l v hl (.inl nil_prefix)
 exact hleaf v (hc.lookup_nil hl)

/-- A word that fits does not end inside a label. -/
lemma Fits.not_shorter(hf:Fits k (.edge (k++a::r) c))(hp:Canonical (.edge (k++a::r) c)):False:=by
 obtain⟨l,v,hl⟩:=hp.edge_child_canonical.exists_key
 have heq:=hf ((k++a::r)++l) v (by rw[lookup_edge_append];exact hl)
  (.inl (by rw[append_assoc];exact prefix_append _ _))
 have:=congrArg length heq
 simp at this

/-- For the map an empty label makes no difference. -/
lemma lookup_graft(p:List α)(t:Tree α V):lookup (graft p t)=lookup (.edge p t):=by
 funext k
 cases p with
 | nil=>rw[graft,lookup_edge,if_pos nil_prefix,length_nil,drop_zero]
 | cons a p=>rfl

lemma lookup_edge_append_append(q p:List α)(c:Tree α V)(k:List α):
 lookup (.edge (q++p) c) (q++k)=lookup (.edge p c) k:=by
 simp only[lookup_edge,prefix_append_right_inj,length_append]
 rw[←drop_drop,drop_left]

lemma lookup_edge_cons_cons(a:α)(p:List α)(c:Tree α V)(b:α)(k:List α):
 lookup (.edge (a::p) c) (b::k)=if b=a then lookup (.edge p c) k else none:=by
 by_cases h:b=a
 ·subst h
  rw[if_pos rfl]
  exact lookup_edge_append_append [b] p c k
 rw[lookup_edge,if_neg h,if_neg]
 rw[cons_prefix_cons]
 exact fun hp=>h hp.1.symm

lemma lookup_edge_leaf(p k:List α)(v:V):
 lookup (.edge p (.leaf v)) k=if k=p then some v else none:=by
 rw[lookup_edge]
 by_cases h:p <+: k
 ·obtain⟨s,rfl⟩:=h
  cases s with
  | nil=>simp
  | cons a s=>simp
 rw[if_neg h,if_neg]
 rintro rfl
 exact h (prefix_refl k)

lemma lookup_fork(t t':Tree α V)(x:α)(k:List α):
 lookup (fork a t b t') (x::k)=if x=b then t'.lookup k else if x=a then t.lookup k else none:=by
 by_cases hb:x=b
 ·simp[fork,hb]
 by_cases ha:x=a
 ·subst ha
  simp[fork,hb]
 simp[fork,hb,ha]

/-- Splitting a label adds one word to the map. -/
lemma lookup_split(q:List α)(r s:List α)(c:Tree α V)(v:V)(hab:a≠b)(l:List α):
 lookup (graft q (fork a (graft r c) b (graft s (.leaf v)))) l =
  if l=q++b::s then some v else lookup (.edge (q++a::r) c) l:=by
 rw[lookup_graft]
 by_cases hq:q <+: l
 ·obtain⟨l,rfl⟩:=hq
  rw[lookup_edge_append,lookup_edge_append_append]
  cases l with
  | nil=>simp[fork,lookup_edge]
  | cons x l=>
   rw[lookup_fork,lookup_graft,lookup_graft,lookup_edge_leaf,lookup_edge_cons_cons]
   by_cases hx:x=b
   ·subst hx
    simp[hab.symm]
   simp[hx]
 have h1:¬(q++a::r) <+: l:=fun h=>hq ((prefix_append q _).trans h)
 rw[lookup_edge,if_neg hq,lookup_edge,if_neg h1,if_neg]
 rintro rfl
 exact hq (prefix_append q _)

lemma lookup_insert(h:Normal t)(hf:Fits k t)(v:V)(l:List α):
 (t.insert k v).lookup l=if l=k then some v else t.lookup l:=by
 induction t generalizing k l with
 | empty=>rw[insert,lookup_graft,lookup_edge_leaf,lookup_empty]
 | leaf w=>
  obtain rfl:=hf [] w rfl (.inr nil_prefix)
  cases l with
  | nil=>simp[insert]
  | cons a l=>simp[insert]
 | edge p c ih=>
  have hp:=h (by simp)
  rcases commonLength_cases k p with⟨s,rfl,-⟩|⟨a,r,rfl,-⟩|⟨q,a,b,r,s,hab,rfl,rfl,-⟩
  ·rw[insert_edge_append,lookup_edge,lookup_edge]
   by_cases hl:p <+: l
   ·obtain⟨l,rfl⟩:=hl
    simp[ih hp.edge_child_canonical.normal hf.edge]
   have hne:l≠p++s:=by
    rintro rfl
    exact hl (prefix_append p s)
   simp[hl,hne]
  ·exact (hf.not_shorter hp).elim
  rw[insert_edge_split q r s c v hab,lookup_split q r s c v hab]
 | branch cs ih=>
  have hb:=h (by simp)
  cases k with
  | nil=>
   obtain⟨l',v',hl'⟩:=hb.exists_key
   obtain rfl:=hf l' v' hl' (.inl nil_prefix)
   cases hl'
  | cons a k=>
   cases l with
   | nil=>simp[insert]
   | cons x l=>
    rw[insert,lookup_branch_cons,lookup_branch_cons]
    by_cases hx:x=a
    ·subst hx
     cases hb with
     | branch hc _=>simp[ih x (hc x) hf.branch]
    simp[hx]

omit [DecidableEq α] in
lemma canonical_graft_leaf(p:List α)(v:V):Canonical (graft p (.leaf v)):=by
 cases p with
 | nil=>exact .leaf v
 | cons a p=>exact .edgeLeaf (by simp) v

omit [DecidableEq α] in
lemma canonical_graft_branch(p:List α)(h:Canonical (.branch cs)):
 Canonical (graft p (.branch cs)):=by
 cases p with
 | nil=>exact h
 | cons a p=>exact .edgeBranch (by simp) h

lemma canonical_fork(hab:a≠b)(h:Canonical t)(h':Canonical t')
 (ht:t≠.empty)(ht':t'≠.empty):Canonical (fork a t b t'):=by
 refine .branch (fun x hx=>?_) ⟨a,b,hab,by simp[hab,ht],by simp[ht']⟩
 by_cases hb:x=b
 ·subst hb
  simpa using h'
 by_cases ha:x=a
 ·subst ha
  simpa[hb]using h
 simp[ha,hb]at hx

omit [DecidableEq α] in
lemma Canonical.ne_empty(h:Canonical t):t≠.empty:=by
 rintro rfl
 cases h

lemma canonical_insert(h:Normal t)(hf:Fits k t)(v:V):Canonical (t.insert k v):=by
 induction t generalizing k with
 | empty=>exact canonical_graft_leaf k v
 | leaf w=>exact .leaf v
 | edge p c ih=>
  have hp:=h (by simp)
  rcases commonLength_cases k p with⟨s,rfl,-⟩|⟨a,r,rfl,-⟩|⟨q,a,b,r,s,hab,rfl,rfl,-⟩
  ·rw[insert_edge_append]
   have hc:=ih hp.edge_child_canonical.normal hf.edge
   cases hp with
   | edgeLeaf hne w=>exact .edgeLeaf hne v
   | edgeBranch hne hb=>
    cases s with
    | nil=>exact .edgeLeaf hne v
    | cons x s=>exact .edgeBranch hne hc
  ·exact (hf.not_shorter hp).elim
  rw[insert_edge_split q r s c v hab]
  refine canonical_graft_branch q (canonical_fork hab ?_ (canonical_graft_leaf s v) ?_ ?_)
  ·cases hp with
   | edgeLeaf _ w=>exact canonical_graft_leaf r w
   | edgeBranch _ hb=>exact canonical_graft_branch r hb
  ·cases hp with
   | edgeLeaf _ w=>exact (canonical_graft_leaf r w).ne_empty
   | edgeBranch _ hb=>exact (canonical_graft_branch r hb).ne_empty
  exact (canonical_graft_leaf s v).ne_empty
 | branch cs ih=>
  have hb:=h (by simp)
  cases k with
  | nil=>exact .leaf v
  | cons a k=>
   cases hb with
   | branch hc hf'=>
    have hins:=ih a (hc a) hf.branch
    have hstay:∀x,cs x≠.empty →update cs a ((cs a).insert k v) x≠.empty:=by
     intro x hx
     by_cases hxa:x=a
     ·subst hxa
      simpa using hins.ne_empty
     simpa[hxa]using hx
    obtain⟨x,y,hxy,hx,hy⟩:=hf'
    refine .branch (fun z hz=>?_) ⟨x,y,hxy,hstay x hx,hstay y hy⟩
    by_cases hza:z=a
    ·subst hza
     simpa using hins
    simp only[update_of_ne hza]at hz ⊢
    exact hc z hz

/-- Put a label in front of a tree, merging it with the label of an edge. -/
def extend (p:List α):Tree α V→Tree α V
 | .empty=>.empty
 | .edge q c=>.edge (p++q) c
 | t=>.edge p t

open Classical in
/-- A branch with one child left becomes an edge. -/
noncomputable def collapse (cs:α→Tree α V):Tree α V:=
 if h : ∃! a,cs a≠.empty then extend [h.choose] (cs h.choose) else .branch cs

noncomputable def delete:Tree α V→List α→Tree α V
 | .empty,_=>.empty
 | .leaf v,k=>if k=[] then .empty else .leaf v
 | .edge p c,k=>if p <+: k then extend p (c.delete (k.drop p.length)) else .edge p c
 | .branch cs,[]=>.branch cs
 | .branch cs,a::k=>collapse (update cs a ((cs a).delete k))

omit [DecidableEq α] in
lemma collapse_of_unique(ha:cs a≠.empty)(hu:∀b,cs b≠.empty→b=a):collapse cs=extend [a] (cs a):=by
 have h:∃! a,cs a≠.empty:=⟨a,ha,hu⟩
 rw[collapse,dif_pos h,hu h.choose h.choose_spec.1]

omit [DecidableEq α] in
lemma collapse_of_two(hab:a≠b)(ha:cs a≠.empty)(hb:cs b≠.empty):collapse cs=.branch cs:=by
 rw[collapse,dif_neg]
 rintro⟨c,-,hu⟩
 exact hab ((hu a ha).trans (hu b hb).symm)

lemma lookup_extend(p:List α)(t:Tree α V):lookup (extend p t)=lookup (.edge p t):=by
 funext k
 cases t with
 | empty=>simp[extend,lookup_edge]
 | leaf v=>rfl
 | branch cs=>rfl
 | edge q c=>
  rw[extend]
  by_cases h:p <+: k
  ·obtain⟨k,rfl⟩:=h
   rw[lookup_edge_append_append,lookup_edge_append]
  have h':¬(p++q) <+: k:=fun hq=>h ((prefix_append p q).trans hq)
  rw[lookup_edge,if_neg h',lookup_edge,if_neg h]

lemma lookup_collapse(cs:α→Tree α V):lookup (collapse cs)=lookup (.branch cs):=by
 by_cases h:∃! a,cs a≠.empty
 ·obtain⟨a,ha,hu⟩:=h
  rw[collapse_of_unique ha hu,lookup_extend]
  funext k
  cases k with
  | nil=>exact lookup_edge_nil (by simp) _
  | cons b k=>
   rw[lookup_edge_cons_cons,lookup_branch_cons]
   by_cases hb:b=a
   ·subst hb
    rw[if_pos rfl]
    exact lookup_edge_append [] (cs b) k
   have hempty:cs b=.empty:=by
    by_contra hne
    exact hb (hu b hne)
   rw[if_neg hb,hempty,lookup_empty]
 rw[collapse,dif_neg h]

lemma lookup_delete(t:Tree α V)(k l:List α):
 (t.delete k).lookup l=if l=k then none else t.lookup l:=by
 induction t generalizing k l with
 | empty=>simp[delete]
 | leaf v=>
  rw[delete]
  cases k with
  | nil=>
   cases l with
   | nil=>simp
   | cons a l=>simp
  | cons a k=>
   cases l with
   | nil=>simp
   | cons b l=>simp
 | edge p c ih=>
  rw[delete]
  by_cases hk:p <+: k
  ·obtain⟨s,rfl⟩:=hk
   rw[if_pos (prefix_append p s),drop_left,lookup_extend]
   by_cases hl:p <+: l
   ·obtain⟨l,rfl⟩:=hl
    simp[ih]
   simp[lookup_edge,hl]
  rw[if_neg hk]
  split
  ·rename_i hlk
   rw[hlk,lookup_edge,if_neg hk]
  rfl
 | branch cs ih=>
  cases k with
  | nil=>
   cases l with
   | nil=>simp[delete]
   | cons b l=>simp[delete]
  | cons a k=>
   rw[delete,lookup_collapse]
   cases l with
   | nil=>simp
   | cons b l=>
    rw[lookup_branch_cons,lookup_branch_cons]
    by_cases hb:b=a
    ·subst hb
     simp[ih]
    simp[hb]

omit [DecidableEq α] in
lemma canonical_extend(hp:p≠[])(h:Canonical t):Canonical (extend p t):=by
 cases h with
 | leaf v=>exact .edgeLeaf hp v
 | edgeLeaf _ v=>exact .edgeLeaf (by simp[hp]) v
 | edgeBranch _ hc=>exact .edgeBranch (by simp[hp]) hc
 | branch hc hf=>exact .edgeBranch hp (.branch hc hf)

lemma normal_delete(h:Normal t)(k:List α):Normal (t.delete k):=by
 induction t generalizing k with
 | empty=>exact normal_empty
 | leaf v=>
  rw[delete]
  split
  ·exact normal_empty
  exact h
 | edge p c ih=>
  have hp:=h (by simp)
  rw[delete]
  split
  ·intro hne
   have hd:=ih hp.edge_child_canonical.normal (k.drop p.length)
   refine canonical_extend hp.edge_label_ne (hd ?_)
   intro he
   rw[he]at hne
   exact hne rfl
  exact h
 | branch cs ih=>
  have hb:=h (by simp)
  cases k with
  | nil=>exact h
  | cons a k=>
   cases hb with
   | branch hc hf=>
    rw[delete]
    set cs':=update cs a ((cs a).delete k) with hcs'
    have hnormal:∀x,Normal (cs' x):=by
     intro x
     by_cases hx:x=a
     ·subst hx
      simpa[hcs']using ih x (hc x) k
     have hsame:cs' x=cs x:=by simp[hcs',hx]
     rw[hsame]
     exact hc x
    obtain⟨x,y,hxy,hx,hy⟩:=hf
    obtain⟨z,hza,hz⟩:∃z,z≠a∧cs z≠.empty:=by
     by_cases hxa:x=a
     ·exact⟨y,fun hya=>hxy (hxa.trans hya.symm),hy⟩
     exact⟨x,hxa,hx⟩
    have hz':cs' z≠.empty:=by simpa[hcs',hza]using hz
    by_cases hu:∀b,cs' b≠.empty→b=z
    ·rw[collapse_of_unique hz' hu]
     exact (canonical_extend (by simp) (hnormal z hz')).normal
    push Not at hu
    obtain⟨b,hb,hbz⟩:=hu
    rw[collapse_of_two hbz hb hz']
    exact (Canonical.branch hnormal ⟨b,z,hbz,hb,hz'⟩).normal

end Tree

end GoCoupe.PatriciaTrees
