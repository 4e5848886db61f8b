import Mathlib.Data.List.Basic
import Mathlib.Data.List.Nodup
import Mathlib.Logic.Function.Basic
import Mathlib.Order.Lattice

/-!
# The adaptive replacement cache

`trie/arc.go`. Of the four lists, most recently used first, `t1` and `t2` hold values, `b1` and
`b2` only keys. `none` is the panic on the last element of an empty list, which the size bounds
of the lists exclude.
-/

namespace GoCoupe.AdaptiveReplacementCache
open List Function Option

inductive Which where
 | t1
 | b1
 | t2
 | b2
 deriving DecidableEq,Repr

structure Entry (V:Type) where
 value:Option V
 ll:Which

structure Arc (K V:Type) where
 p:ℕ
 c:ℕ
 ll:Which→List K
 cache:K→Option (Entry V)

namespace Arc

variable {K V:Type} [DecidableEq K]

def new (c:ℕ):Arc K V:=⟨0,c,fun _=>[],fun _=>none⟩

def len (a:Arc K V) (w:Which):ℕ:=(a.ll w).length

/-- `setMRU`: the entry `e` of key `k` leaves its list and becomes the first of `w`. -/
def setMRU (a:Arc K V) (k:K) (e:Entry V) (w:Which):Arc K V:=
 let detached:=update a.ll e.ll ((a.ll e.ll).erase k)
 {a with
  ll:=update detached w (k::detached w)
  cache:=update a.cache k (some {e with ll:=w})}

def delLRU (a:Arc K V) (w:Which):Option (Arc K V):=
 match (a.ll w).getLast? with
 | none=>none
 | some k=>
  some {a with
   ll:=update a.ll w (a.ll w).dropLast
   cache:=update a.cache k none}

/-- The last entry of `w` loses its value and becomes the first of `ghost`. -/
def demote (a:Arc K V) (w ghost:Which):Option (Arc K V):=
 match (a.ll w).getLast? with
 | none=>none
 | some k=>some (a.setMRU k ⟨none,w⟩ ghost)

/-- `replace`; the flag says whether the requested entry is on `b2`. -/
def replace (a:Arc K V) (onB2:Bool):Option (Arc K V):=
 if a.len .t1>0 ∧ (a.len .t1>a.p ∨ (onB2 ∧ a.len .t1=a.p)) then a.demote .t1 .b1
 else a.demote .t2 .b2

/-- The amount by which `p` moves: the list that is hit against the other one. -/
def adaptation (hit other:ℕ):ℕ:=if hit≥other then 1 else other/hit

/-- `req` for an entry that is in the cache map. -/
def req (a:Arc K V) (k:K) (e:Entry V):Option (Arc K V):=
 match e.ll with
 | .t1=>some (a.setMRU k e .t2)
 | .t2=>some (a.setMRU k e .t2)
 | .b1=>do
  let d:=adaptation (a.len .b1) (a.len .b2)
  let a ← replace {a with p:=min (a.p+d) a.c} false
  pure (a.setMRU k e .t2)
 | .b2=>do
  let d:=adaptation (a.len .b2) (a.len .b1)
  let a ← replace {a with p:=a.p-d} true
  pure (a.setMRU k e .t2)

/-- What `req` does for a new entry before it puts it on `t1`. -/
def makeRoom (a:Arc K V):Option (Arc K V):=
 if a.len .t1+a.len .b1=a.c then
  if a.len .t1<a.c then do
   let a ← a.delLRU .b1
   a.replace false
  else a.delLRU .t1
 else if a.len .t1+a.len .b1<a.c then
  if a.len .t1+a.len .t2+a.len .b1+a.len .b2≥a.c then
   if a.len .t1+a.len .t2+a.len .b1+a.len .b2=2*a.c then do
    let a ← a.delLRU .b2
    a.replace false
   else a.replace false
  else some a
 else some a

def setEntry (a:Arc K V) (k:K) (e:Entry V):Arc K V:=
 {a with cache:=update a.cache k (some e)}

def put (a:Arc K V) (k:K) (v:V):Option (Arc K V):=
 match a.cache k with
 | none=>do
  let a ← a.makeRoom
  pure {a with
   ll:=update a.ll .t1 (k::a.ll .t1)
   cache:=update a.cache k (some ⟨some v,.t1⟩)}
 | some e=>(a.setEntry k {e with value:=some v}).req k {e with value:=some v}

def get (a:Arc K V) (k:K):Option (Option V × Arc K V):=
 match a.cache k with
 | none=>some (none,a)
 | some e=>do
  let a ← a.req k e
  pure (e.value,a)

/-- An entry is on the list its map entry names, once, and on no other. -/
structure Consistent (a:Arc K V):Prop where
 nodup:∀w,(a.ll w).Nodup
 mem:∀k w,k∈a.ll w ↔ ∃e,a.cache k=some e ∧ e.ll=w

structure Sized (a:Arc K V):Prop where
 pos:1≤a.c
 p_le:a.p≤a.c
 first:a.len .t1+a.len .b1≤a.c
 held:a.len .t1+a.len .t2≤a.c
 total:a.len .t1+a.len .t2+a.len .b1+a.len .b2≤2*a.c
 full:0<a.len .b1+a.len .b2→a.len .t1+a.len .t2=a.c

/-- No entry is invented: each one of `a'` was there, with its value or one to lose. -/
def Forgets (a a':Arc K V):Prop:=
 ∀k e',a'.cache k=some e'→∃e,a.cache k=some e ∧ (e'.value=none ∨ e'.value=e.value)

omit [DecidableEq K] in
lemma Forgets.refl(a:Arc K V):Forgets a a:=fun _ e h=>⟨e,h,.inr rfl⟩

variable {a:Arc K V} {e:Entry V} {k:K} {f:K→Option V}

omit [DecidableEq K] in
lemma Forgets.trans{b c:Arc K V}(h:Forgets a b)(h':Forgets b c):Forgets a c:=by
 intro k e'' he''
 obtain⟨e',he',hv'⟩:=h' k e'' he''
 obtain⟨e,he,hv⟩:=h k e' he'
 refine⟨e,he,?_⟩
 rcases hv' with hv'|hv'
 ·exact .inl hv'
 rw[hv']
 exact hv

lemma ll_setMRU(a:Arc K V)(k:K)(e:Entry V)(w x:Which):
 (a.setMRU k e w).ll x=(if x=w then [k] else [])++if x=e.ll then (a.ll x).erase k else a.ll x:=by
 by_cases hw:x=w
 ·subst hw
  by_cases he:x=e.ll
  ·subst he
   simp[setMRU]
  simp[setMRU,he]
 by_cases he:x=e.ll
 ·subst he
  simp[setMRU,hw]
 simp[setMRU,hw,he]

lemma len_setMRU(hk:k∈a.ll e.ll)(w x:Which):
 (a.setMRU k e w).len x=(if x=w then 1 else 0)+(a.len x-if x=e.ll then 1 else 0):=by
 rw[len,ll_setMRU,length_append]
 congr 1
 ·split<;>rfl
 by_cases he:x=e.ll
 ·subst he
  rw[if_pos rfl,if_pos rfl,length_erase_of_mem hk]
  rfl
 rw[if_neg he,if_neg he]
 rfl

lemma Consistent.setMRU(h:Consistent a)(hk:a.cache k=some e0)
 (he:e.ll=e0.ll)(w:Which):Consistent (a.setMRU k e w):=by
 have hother:∀x,x≠e.ll→k∉a.ll x:=by
  intro x hx hmem
  obtain⟨e',he',rfl⟩:=(h.mem k x).mp hmem
  rw[hk,some.injEq]at he'
  rw[he']at he
  exact hx he.symm
 have hnot:∀x,k∉if x=e.ll then (a.ll x).erase k else a.ll x:=by
  intro x
  split
  ·exact (h.nodup x).not_mem_erase
  rename_i hx
  exact hother x hx
 have hmem:∀k',k'≠k→∀x,(k'∈if x=e.ll then (a.ll x).erase k else a.ll x)↔k'∈a.ll x:=by
  intro k' hne x
  split
  ·exact mem_erase_of_ne hne
  rfl
 constructor
 ·intro x
  rw[ll_setMRU]
  have hbase:(if x=e.ll then (a.ll x).erase k else a.ll x).Nodup:=by
   split
   ·exact (h.nodup x).erase k
   exact h.nodup x
  split
  ·exact List.nodup_cons.mpr ⟨hnot x,hbase⟩
  exact hbase
 intro k' x
 rw[ll_setMRU]
 by_cases hkk:k'=k
 ·subst hkk
  simp only[mem_append,hnot x,or_false]
  by_cases hx:x=w
  ·simp[hx,Arc.setMRU]
  simp[hx,Arc.setMRU,Ne.symm hx]
 have hnew:k'∉(if x=w then [k] else []):=by
  split<;>simp[hkk]
 simp only[mem_append,hnew,false_or,hmem k' hkk x]
 rw[h.mem k' x]
 simp[Arc.setMRU,hkk]

omit [DecidableEq K] in
lemma exists_last(hw:0<a.len w):∃l k,a.ll w=l++[k]:=
 ⟨_,_,(dropLast_append_getLast (ne_nil_of_length_pos hw)).symm⟩

lemma delLRU_spec(h:Consistent a)(hw:0<a.len w):
 ∃a',a.delLRU w=some a'∧Consistent a'∧Forgets a a'∧a'.p=a.p∧a'.c=a.c∧
  ∀x,a'.len x=a.len x-if x=w then 1 else 0:=by
 obtain⟨l,k,hl⟩:=exists_last hw
 have hnd:=h.nodup w
 rw[hl,nodup_append]at hnd
 have hkl:k∉l:=fun hmem=>hnd.2.2 k hmem k (by simp) rfl
 refine⟨{a with ll:=update a.ll w l,cache:=update a.cache k none},
  by simp[delLRU,hl],?_,?_,rfl,rfl,?_⟩
 ·constructor
  ·intro x
   by_cases hx:x=w
   ·subst hx
    simpa using hnd.1
   simpa[hx]using h.nodup x
  intro k' x
  by_cases hkk:k'=k
  ·subst hkk
   have hno:k'∉update a.ll w l x:=by
    by_cases hx:x=w
    ·subst hx
     simpa using hkl
    rw[update_of_ne hx]
    intro hmem
    obtain⟨e,he,rfl⟩:=(h.mem k' x).mp hmem
    obtain⟨e',he',hw'⟩:=(h.mem k' w).mp (by simp[hl])
    rw[he,some.injEq]at he'
    rw[he']at hx
    exact hx hw'
   simp[hno]
  simp only[update_of_ne hkk]
  rw[←h.mem k' x]
  by_cases hx:x=w
  ·subst hx
   simp[hl,hkk]
  simp[hx]
 ·intro k' e' he'
  by_cases hkk:k'=k
  ·subst hkk
   simp at he'
  simp only[update_of_ne hkk]at he'
  exact⟨e',he',.inr rfl⟩
 intro x
 by_cases hx:x=w
 ·subst hx
  simp[len,hl]
 simp[len,hx]

lemma demote_spec(h:Consistent a)(ghost:Which)(hw:0<a.len w):
 ∃a',a.demote w ghost=some a'∧Consistent a'∧Forgets a a'∧a'.p=a.p∧a'.c=a.c∧
  (∀x,a'.len x=(if x=ghost then 1 else 0)+(a.len x-if x=w then 1 else 0))∧
  ∀k e,a.cache k=some e→e.ll≠w→a'.cache k=some e:=by
 obtain⟨l,k,hl⟩:=exists_last hw
 have hmem:k∈a.ll w:=by simp[hl]
 obtain⟨e0,he0,hll⟩:=(h.mem k w).mp hmem
 refine⟨a.setMRU k ⟨none,w⟩ ghost,by rw[demote,hl,getLast?_concat],
  h.setMRU he0 hll.symm ghost,?_,rfl,rfl,?_,?_⟩
 ·intro k' e' he'
  by_cases hkk:k'=k
  ·subst hkk
   simp only[setMRU,update_self,some.injEq]at he'
   exact⟨e0,he0,.inl (by rw[←he'])⟩
  simp only[setMRU,update_of_ne hkk]at he'
  exact⟨e',he',.inr rfl⟩
 ·exact len_setMRU (e:=⟨none,w⟩) hmem ghost
 intro k' e hk' hne'
 have hkk:k'≠k:=by
  rintro rfl
  rw[he0,some.injEq]at hk'
  rw[←hk']at hne'
  exact hne' hll
 simpa only[setMRU,update_of_ne hkk]using hk'

lemma forall_which{q:Which→Prop}:(∀x,q x)↔q .t1∧q .b1∧q .t2∧q .b2:=
 ⟨fun h=>⟨h _,h _,h _,h _⟩,fun ⟨h1,h2,h3,h4⟩ x=>by cases x<;>assumption⟩

/-- `replace` moves one entry from a list of values to the list of ghosts behind it. -/
lemma replace_spec(h:Consistent a)(b:Bool)(hheld:0<a.len .t1+a.len .t2)
 (hb:a.len .t2=0→a.p<a.len .t1∨(b=true∧a.len .t1=a.p)):
 ∃a',a.replace b=some a'∧Consistent a'∧Forgets a a'∧a'.p=a.p∧a'.c=a.c∧
  ((0<a.len .t1∧a'.len .t1+1=a.len .t1∧a'.len .b1=a.len .b1+1∧
   a'.len .t2=a.len .t2∧a'.len .b2=a.len .b2)∨
   (0<a.len .t2∧a'.len .t1=a.len .t1∧a'.len .b1=a.len .b1∧
    a'.len .t2+1=a.len .t2∧a'.len .b2=a.len .b2+1))∧
  ∀k e,a.cache k=some e→e.ll=.b1∨e.ll=.b2→a'.cache k=some e:=by
 unfold replace
 by_cases ht:a.len .t1>0∧(a.len .t1>a.p∨(b∧a.len .t1=a.p))
 ·rw[if_pos ht]
  obtain⟨a',hr,hc,hf,hp,hcc,hlen,hkeep⟩:=demote_spec h .b1 ht.1
  refine⟨a',hr,hc,hf,hp,hcc,.inl ⟨ht.1,?_⟩,?_⟩
  ·simp only[forall_which,reduceCtorEq,if_false,if_true]at hlen
   omega
  intro k e hk he
  refine hkeep k e hk ?_
  rcases he with he|he<;>simp[he]
 rw[if_neg ht]
 have ht2:0<a.len .t2:=by
  by_contra hzero
  have hzero:a.len .t2=0:=by omega
  exact ht ⟨by omega,hb hzero⟩
 obtain⟨a',hr,hc,hf,hp,hcc,hlen,hkeep⟩:=demote_spec h .b2 ht2
 refine⟨a',hr,hc,hf,hp,hcc,.inr ⟨ht2,?_⟩,?_⟩
 ·simp only[forall_which,reduceCtorEq,if_false,if_true]at hlen
  omega
 intro k e hk he
 refine hkeep k e hk ?_
 rcases he with he|he<;>simp[he]

lemma setMRU_forgets(hk:a.cache k=some e)(w:Which):Forgets a (a.setMRU k e w):=by
 intro k' e' he'
 by_cases hkk:k'=k
 ·subst hkk
  simp only[setMRU,update_self,some.injEq]at he'
  exact⟨e,hk,.inr (by rw[←he'])⟩
 simp only[setMRU,update_of_ne hkk]at he'
 exact⟨e',he',.inr rfl⟩

lemma len_promote(h:Consistent a)(hk:a.cache k=some e)(x:Which):
 0<a.len e.ll∧(a.setMRU k e .t2).len x =
  (if x=.t2 then 1 else 0)+(a.len x-if x=e.ll then 1 else 0):=by
 have hmem:k∈a.ll e.ll:=(h.mem k e.ll).mpr ⟨e,hk,rfl⟩
 exact⟨length_pos_of_mem hmem,len_setMRU hmem .t2 x⟩

/-- The bounds after the requested entry moved to `t2`, from sizes before the move. -/
lemma sized_promote(h:Consistent a)(hk:a.cache k=some e)(hpos:1≤a.c)(hp:a.p≤a.c)
 (hsize:∀n:Which→ℕ,(∀x,n x=(if x=.t2 then 1 else 0)+(a.len x-if x=e.ll then 1 else 0)) →
  n .t1+n .b1≤a.c∧n .t1+n .t2≤a.c∧n .t1+n .t2+n .b1+n .b2≤2*a.c∧(0<n .b1+n .b2→n .t1+n .t2=a.c)):
 Sized (a.setMRU k e .t2):=by
 obtain⟨h1,h2,h3,h4⟩:=hsize (a.setMRU k e .t2).len (fun x=>(len_promote h hk x).2)
 exact⟨hpos,hp,h1,h2,h3,h4⟩

lemma adaptation_pos(h:0<hit)(other:ℕ):1≤adaptation hit other:=by
 unfold adaptation
 split
 ·exact le_rfl
 exact Nat.div_pos (by omega) h

/-- A ghost is promoted after `replace` has made room. -/
lemma replace_promote(h:Consistent a)(hs:Sized a)(hk:a.cache k=some e)
 (hghost:e.ll=.b1∨e.ll=.b2)(b:Bool){p:ℕ}(hp:p≤a.c)
 (hb:a.len .t2=0→p<a.len .t1∨(b=true∧a.len .t1=p)):
 ∃a',(({a with p:=p}:Arc K V).replace b).bind (fun a=>some (a.setMRU k e .t2)) =
  some a'∧a'.c=a.c∧Consistent a'∧Sized a'∧Forgets a a':=by
 obtain⟨hpos,-,hfirst,hheld,htotal,hfull⟩:=hs
 have hin:=(len_promote h hk .t1).1
 have hsome:0<a.len .t1+a.len .t2:=by
  rcases hghost with he|he<;>rw[he]at hin<;>omega
 obtain⟨a₂,hr,hc,hf,hp2,hcc,hlen,hkeep⟩:=replace_spec (a:={a with p:=p}) ⟨h.nodup,h.mem⟩ b hsome hb
 have hk2:a₂.cache k=some e:=hkeep k e hk hghost
 have hf':Forgets a a₂:=hf
 have hcc':a₂.c=a.c:=hcc
 rw[hr]
 refine⟨_,rfl,hcc',hc.setMRU hk2 rfl .t2,sized_promote hc hk2 (by omega) (by rwa[hp2,hcc]) ?_,
  hf'.trans (setMRU_forgets hk2 .t2)⟩
 intro n hn
 rcases hghost with he|he
 all_goals
  simp only[hn,he,hcc',reduceCtorEq,if_false,if_true]at hin ⊢
  simp only[len]at *
  omega

lemma req_spec(h:Consistent a)(hs:Sized a)(hk:a.cache k=some e):
 ∃a',a.req k e=some a'∧a'.c=a.c∧Consistent a'∧Sized a'∧Forgets a a':=by
 obtain⟨hpos,hple,hfirst,hheld,htotal,hfull⟩:=id hs
 have hin:=(len_promote h hk .t1).1
 unfold req
 cases he:e.ll with
 | t1 | t2=>
  refine⟨_,rfl,rfl,h.setMRU hk rfl .t2,sized_promote h hk hpos hple ?_,setMRU_forgets hk .t2⟩
  intro n hn
  simp only[hn,he,reduceCtorEq,if_false,if_true]at hin ⊢
  omega
 | b1=>
  rw[he]at hin
  refine replace_promote h hs hk (.inl he) false (min_le_right _ _) fun hzero=>?_
  omega
 | b2=>
  rw[he]at hin
  have hd:=adaptation_pos hin (a.len .b1)
  refine replace_promote h hs hk (.inr he) true ((Nat.sub_le _ _).trans hple) fun hzero=>?_
  omega

structure Roomy (a:Arc K V):Prop where
 pos:1≤a.c
 p_le:a.p≤a.c
 first:a.len .t1+a.len .b1<a.c
 held:a.len .t1+a.len .t2<a.c
 total:a.len .t1+a.len .t2+a.len .b1+a.len .b2<2*a.c
 full:0<a.len .b1+a.len .b2→a.len .t1+a.len .t2+1=a.c

lemma makeRoom_spec(h:Consistent a)(hs:Sized a):
 ∃a',a.makeRoom=some a'∧a'.c=a.c∧Consistent a'∧Roomy a'∧Forgets a a':=by
 obtain⟨hpos,hple,hfirst,hheld,htotal,hfull⟩:=hs
 unfold makeRoom
 by_cases hA:a.len .t1+a.len .b1=a.c
 ·rw[if_pos hA]
  by_cases ht:a.len .t1<a.c
  ·rw[if_pos ht]
   obtain⟨a₁,hr1,hc1,hf1,hp1,hcc1,hlen1⟩:=delLRU_spec h (w:=.b1) (by omega)
   simp only[forall_which,reduceCtorEq,if_false,if_true]at hlen1
   obtain⟨a₂,hr2,hc2,hf2,hp2,hcc2,hlen2,-⟩:=replace_spec hc1 false (by omega) (by omega)
   refine⟨a₂,by simp[hr1,hr2],hcc2.trans hcc1,hc2,?_,hf1.trans hf2⟩
   constructor<;>omega
  rw[if_neg ht]
  obtain⟨a₁,hr1,hc1,hf1,hp1,hcc1,hlen1⟩:=delLRU_spec h (w:=.t1) (by omega)
  simp only[forall_which,reduceCtorEq,if_false,if_true]at hlen1
  refine⟨a₁,hr1,hcc1,hc1,?_,hf1⟩
  constructor<;>omega
 rw[if_neg hA,if_pos (by omega)]
 by_cases hB:a.len .t1+a.len .t2+a.len .b1+a.len .b2≥a.c
 ·rw[if_pos hB]
  by_cases hC:a.len .t1+a.len .t2+a.len .b1+a.len .b2=2*a.c
  ·rw[if_pos hC]
   obtain⟨a₁,hr1,hc1,hf1,hp1,hcc1,hlen1⟩:=delLRU_spec h (w:=.b2) (by omega)
   simp only[forall_which,reduceCtorEq,if_false,if_true]at hlen1
   obtain⟨a₂,hr2,hc2,hf2,hp2,hcc2,hlen2,-⟩:=replace_spec hc1 false (by omega) (by omega)
   refine⟨a₂,by simp[hr1,hr2],hcc2.trans hcc1,hc2,?_,hf1.trans hf2⟩
   constructor<;>omega
  rw[if_neg hC]
  obtain⟨a₂,hr2,hc2,hf2,hp2,hcc2,hlen2,-⟩:=replace_spec h false (by omega) (by omega)
  refine⟨a₂,hr2,hcc2,hc2,?_,hf2⟩
  constructor<;>omega
 rw[if_neg hB]
 refine⟨a,rfl,rfl,h,?_,.refl a⟩
 constructor<;>omega

structure Ok (a:Arc K V):Prop where
 consistent:Consistent a
 sized:Sized a

omit [DecidableEq K] in
lemma ok_new{c:ℕ}(h:1≤c):Ok (new c:Arc K V) where
 consistent:=⟨fun _=>nodup_nil,by simp[new]⟩
 sized:=⟨h,Nat.zero_le c,by simp[new,len],by simp[new,len],by simp[new,len],by simp[new,len]⟩

/-- Every cached value is the one the reference map has for its key. -/
def Agrees (a:Arc K V) (f:K→Option V):Prop:=∀k e v,a.cache k=some e→e.value=some v→f k=some v

omit [DecidableEq K] in
lemma agrees_new(c:ℕ)(f:K→Option V):Agrees (new c:Arc K V) f:=by
 intro k e v h
 simp[new]at h

omit [DecidableEq K] in
lemma Agrees.mono(h:Agrees a f)(hfg:∀k v,f k=some v → g k=some v):Agrees a g:=
 fun k e v hk hv=>hfg k v (h k e v hk hv)

omit [DecidableEq K] in
lemma Forgets.agrees(hf:Forgets a a')(h:Agrees a f):Agrees a' f:=by
 intro k e' v hk hv
 obtain⟨e,he,hval|hval⟩:=hf k e' hk
 ·rw[hval]at hv
  cases hv
 exact h k e v he (hval▸hv)

lemma get_ok(h:Ok a)(k:K):
 ∃r a',a.get k=some (r,a')∧a'.c=a.c∧Ok a'∧Forgets a a'∧∀v,r=some v→∃e,a.cache k=some e∧e.value=some v:=by
 unfold get
 cases hk:a.cache k with
 | none=>exact⟨none,a,rfl,rfl,h,.refl a,nofun⟩
 | some e=>
  obtain⟨a',hr,hcc,hc,hs,hforget⟩:=req_spec h.consistent h.sized hk
  exact⟨e.value,a',by simp[hr],hcc,⟨hc,hs⟩,hforget,fun v hv=>⟨e,rfl,hv⟩⟩

lemma get_spec(h:Ok a)(hf:Agrees a f)(k:K):
 ∃r a',a.get k=some (r,a')∧Ok a'∧Agrees a' f∧∀v,r=some v→f k=some v:=by
 obtain⟨r,a',hr,-,hok,hforget,hval⟩:=get_ok h k
 refine⟨r,a',hr,hok,hforget.agrees hf,fun v hv=>?_⟩
 obtain⟨e,hk,he⟩:=hval v hv
 exact hf k e v hk he

/-- What is in the cache after `Put` is the new value or was there. -/
lemma put_ok(h:Ok a)(k:K)(v:V):
 ∃a',a.put k v=some a'∧a'.c=a.c∧Ok a'∧∀x e',a'.cache x=some e'→e'.value=none∨
  (x=k∧e'.value=some v)∨∃e,a.cache x=some e∧e'.value=e.value:=by
 unfold put
 cases hk:a.cache k with
 | none=>
  obtain⟨a₁,hr,hcc,hc,hs,hforget⟩:=makeRoom_spec h.consistent h.sized
  have hnew:a₁.cache k=none:=by
   cases hk1:a₁.cache k with
   | none=>rfl
   | some e=>
    obtain⟨e',he',-⟩:=hforget k e hk1
    rw[hk]at he'
    cases he'
  have hout:∀w,k∉a₁.ll w:=by
   intro w hmem
   obtain⟨e,he,-⟩:=(hc.mem k w).mp hmem
   rw[hnew]at he
   cases he
  simp only[hr,bind_eq_bind,bind_some]
  refine⟨_,rfl,hcc,⟨⟨?_,?_⟩,?_⟩,?_⟩
  ·intro w
   by_cases hw:w=.t1
   ·subst hw
    simpa using⟨hout .t1,hc.nodup .t1⟩
   simpa[hw]using hc.nodup w
  ·intro k' w
   by_cases hkk:k'=k
   ·subst hkk
    by_cases hw:w=.t1
    ·simp[hw]
    simp[hw,hout w,Ne.symm hw]
   have hmem:=hc.mem k' w
   by_cases hw:w=.t1
   ·subst hw
    simpa[hkk]using hmem
   simpa[hkk,hw]using hmem
  ·obtain⟨hpos,hple,hfirst,hheld,htotal,hfull⟩:=hs
   simp only[len]at hfirst hheld htotal hfull
   constructor<;>simp[len]<;>omega
  intro x e' he'
  by_cases hkk:x=k
  ·subst hkk
   simp only[update_self,some.injEq]at he'
   exact .inr (.inl ⟨rfl,by rw[←he']⟩)
  simp only[update_of_ne hkk]at he'
  obtain⟨e,he,hval⟩:=hforget x e' he'
  exact hval.imp_right fun hval=>.inr ⟨e,he,hval⟩
 | some e=>
  obtain⟨a',hr,hcc,hc,hs,hforget⟩:=req_spec
   (a:=a.setEntry k {e with value:=some v}) (k:=k) (e:={e with value:=some v})
   ⟨h.consistent.nodup,by
    intro k' w
    refine (h.consistent.mem k' w).trans ?_
    by_cases hkk:k'=k
    ·subst hkk
     simp[setEntry,hk]
    simp[setEntry,hkk]⟩
   ⟨h.sized.pos,h.sized.p_le,h.sized.first,h.sized.held,h.sized.total,h.sized.full⟩
   (by simp[setEntry])
  refine⟨a',hr,hcc,⟨hc,hs⟩,fun x e' he'=>?_⟩
  obtain⟨e₁,he₁,hval⟩:=hforget x e' he'
  by_cases hkk:x=k
  ·subst hkk
   simp only[setEntry,update_self,some.injEq]at he₁
   exact hval.imp_right fun hval=>.inl ⟨rfl,by rw[hval,←he₁]⟩
  simp only[setEntry,update_of_ne hkk]at he₁
  exact hval.imp_right fun hval=>.inr ⟨e₁,he₁,hval⟩

lemma put_spec(h:Ok a)(hf:Agrees a f)(hv:f k=some v):∃a',a.put k v=some a'∧Ok a'∧Agrees a' f:=by
 obtain⟨a',hr,-,hok,hval⟩:=put_ok h k v
 refine⟨a',hr,hok,fun x e' w hx hw=>?_⟩
 obtain hnone|⟨rfl,hnew⟩|⟨e,he,hold⟩:=hval x e' hx
 ·cases hnone.symm.trans hw
 ·exact hv.trans (hnew.symm.trans hw)
 exact hf x e w he (hold.symm.trans hw)

inductive Call (K V:Type) where
 | put (k:K) (v:V)
 | get (k:K)

def call (a:Arc K V):Call K V→Option (Arc K V)
 | .put k v=>a.put k v
 | .get k=>(a.get k).map Prod.snd

/-- The cache after calls in turn, if none panics. -/
def calls (a:Arc K V) (l:List (Call K V)):Option (Arc K V):=l.foldlM call a

structure Within (c:ℕ) (a:Arc K V):Prop where
 target:a.p≤c
 values:a.len .t1+a.len .t2≤c
 recent:a.len .t1+a.len .b1≤c
 total:a.len .t1+a.len .t2+a.len .b1+a.len .b2≤2*c

lemma Ok.call(h:Ok a)(x:Call K V):∃a',a.call x=some a'∧a'.c=a.c∧Ok a':=by
 cases x with
 | put k v=>
  obtain⟨a',hr,hcc,hok,-⟩:=put_ok h k v
  exact⟨a',hr,hcc,hok⟩
 | get k=>
  obtain⟨r,a',hr,hcc,hok,-⟩:=get_ok h k
  exact⟨a',by rw[Arc.call,hr];rfl,hcc,hok⟩

lemma Ok.calls(h:Ok a)(l:List (Call K V)):∃a',a.calls l=some a'∧a'.c=a.c∧Ok a':=by
 induction l generalizing a with
 | nil=>exact⟨a,rfl,rfl,h⟩
 | cons x l ih=>
  obtain⟨a₁,hr,hcc,hok⟩:=h.call x
  obtain⟨a',hr',hcc',hok'⟩:=ih hok
  refine⟨a',?_,hcc'.trans hcc,hok'⟩
  rw[Arc.calls,foldlM_cons,hr]
  exact hr'

/-- No call panics, and the bounds and the map hold after every sequence of calls. -/
theorem cache_invariants {K V : Type} [DecidableEq K] {c : ℕ} (hc : 1 ≤ c) (l : List (Call K V)) :
    ∃ a, (new c).calls l = some a ∧ Within c a ∧ Consistent a := by
 obtain⟨a,hr,rfl,hok⟩:=(ok_new hc).calls l
 exact⟨a,hr,⟨hok.sized.p_le,hok.sized.held,hok.sized.first,hok.sized.total⟩,hok.consistent⟩

theorem cache_invariants_single : ∃ a : Arc ℕ ℕ,
    (new 1).calls [.put 1 5, .put 2 6, .get 1] = some a ∧ Within 1 a ∧ Consistent a :=
 cache_invariants (by decide) _

end Arc

end GoCoupe.AdaptiveReplacementCache
