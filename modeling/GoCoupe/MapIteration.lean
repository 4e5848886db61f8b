import Mathlib.Data.List.AList

/-!
# Loops over maps

A Go map is visited in an order of the runtime's choice, here a permutation of its entries, and
a loop may delete the entry it has reached.
-/

namespace GoCoupe.MapIteration
open List Option AList

abbrev GoMap (κ β:Type):=AList (fun _:κ=>β)

/-- The order in which the runtime visits maps. -/
structure MapOrder (κ β:Type) where
 visit:GoMap κ β→List (Σ _:κ,β)
 perm:∀m,(visit m).Perm m.entries

variable {κ β:Type}

variable {m:GoMap κ β} {visit l:List (Σ _:κ,β)}

lemma nodup_visit(h:visit.Perm m.entries):(visit.map Sigma.fst).Nodup:=
 (h.map Sigma.fst).nodup_iff.2 m.nodupKeys

lemma nodup_filter_visit(h:visit.Perm m.entries)(p:(Σ _:κ,β)→Bool):
 ((visit.filter p).map Sigma.fst).Nodup:=
 (nodup_visit h).sublist (filter_sublist.map _)

variable [DecidableEq κ]

lemma mem_visit(h:visit.Perm m.entries):⟨k,v⟩∈visit↔m.lookup k=some v:=by
 rw[h.mem_iff,←mem_lookup_iff,mem_def]

def eraseAll (m:GoMap κ β) (ks:List κ):GoMap κ β:=ks.foldl (fun m k=>m.erase k) m

lemma lookup_eraseAll(m:GoMap κ β)(ks:List κ)(k:κ):
 (eraseAll m ks).lookup k=if k∈ks then none else m.lookup k:=by
 induction ks generalizing m with
 | nil=>rfl
 | cons j ks ih=>
  rw[eraseAll,foldl_cons,←eraseAll,ih]
  by_cases hk:k=j
  ·subst hk
   simp
  rw[lookup_erase_ne hk]
  simp[hk]

/-- The loop that deletes the entries with a property. -/
def sweep (bad:κ→β→Bool) (visit:List (Σ _:κ,β)) (m:GoMap κ β):GoMap κ β:=
 visit.foldl (fun m e=>if bad e.1 e.2 then m.erase e.1 else m) m

lemma sweep_eq_eraseAll(bad:κ→β→Bool)(visit:List (Σ _:κ,β))(m:GoMap κ β):
 sweep bad visit m=eraseAll m ((visit.filter (fun e=>bad e.1 e.2)).map Sigma.fst):=by
 induction visit generalizing m with
 | nil=>rfl
 | cons e visit ih=>
  rw[sweep,foldl_cons,←sweep,ih,filter_cons]
  split<;>rfl

lemma lookup_sweep(h:visit.Perm m.entries)(k:κ):
 (sweep bad visit m).lookup k=(m.lookup k).filter (!bad k ·):=by
 rw[sweep_eq_eraseAll,lookup_eraseAll]
 have hmem:k∈(visit.filter (fun e=>bad e.1 e.2)).map Sigma.fst↔∃v,m.lookup k=some v∧bad k v=true:=by
  rw[List.mem_map]
  constructor
  ·rintro⟨⟨j,v⟩,hv,rfl⟩
   rw[mem_filter,mem_visit h]at hv
   exact⟨v,hv⟩
  rintro⟨v,hv,hbad⟩
  exact⟨⟨k,v⟩,mem_filter.2 ⟨(mem_visit h).2 hv,hbad⟩,rfl⟩
 cases hv:m.lookup k with
 | none=>simp
 | some v=>
  rw[filter_some]
  by_cases hbad:bad k v=true
  ·rw[if_pos (hmem.2 ⟨v,hv,hbad⟩)]
   simp[hbad]
  rw[if_neg]
  ·simp[hbad]
  intro hcon
  obtain⟨w,hw,hbad'⟩:=hmem.1 hcon
  rw[hv,some.injEq]at hw
  rw[hw]at hbad
  exact hbad hbad'

lemma lookup_insert_cases(h:(m.insert k v).lookup j=some w):m.lookup j=some w∨(j=k∧w=v):=by
 by_cases hj:j=k
 ·subst hj
  rw[lookup_insert,some.injEq]at h
  exact .inr ⟨rfl,h.symm⟩
 rw[lookup_insert_ne hj]at h
 exact .inl h

/-- A value is appended to the list of a key. -/
lemma mem_append_cases{m:GoMap κ (List β)}
 (h:w∈((m.insert k ((m.lookup k).getD []++[v])).lookup j).getD []):
 w∈(m.lookup j).getD []∨(j=k∧w=v):=by
 by_cases hj:j=k
 ·subst hj
  rw[lookup_insert,getD_some,mem_append,mem_singleton]at h
  exact h.imp_right (⟨rfl,·⟩)
 rw[lookup_insert_ne hj]at h
 exact .inl h

def insertAll (m:GoMap κ β) (l:List (Σ _:κ,β)):GoMap κ β:=l.foldl (fun m e=>m.insert e.1 e.2) m

/-- New keys stay new while another one is inserted. -/
lemma new_insert(hnodup:((e::l).map Sigma.fst).Nodup)
 (hnew:∀e'∈e::l,m.lookup e'.1=none):∀e'∈l,(m.insert e.1 e.2).lookup e'.1=none:=by
 intro e' he'
 rw[map_cons,nodup_cons]at hnodup
 have hne:e'.1≠e.1:=fun h=>hnodup.1 (h▸mem_map_of_mem he')
 rw[lookup_insert_ne hne]
 exact hnew e' (mem_cons_of_mem _ he')

lemma lookup_insertAll(hnodup:(l.map Sigma.fst).Nodup)(hnew:∀e∈l,m.lookup e.1=none)
 (k:κ)(v:β):(insertAll m l).lookup k=some v↔m.lookup k=some v∨⟨k,v⟩∈l:=by
 induction l generalizing m with
 | nil=>simp[insertAll]
 | cons e l ih=>
  have hrest:=ih (nodup_cons.1 hnodup).2 (new_insert hnodup hnew)
  rw[insertAll,foldl_cons,←insertAll,hrest,mem_cons]
  obtain⟨j,w⟩:=e
  have hnone:=hnew ⟨j,w⟩ mem_cons_self
  by_cases hk:k=j
  ·subst hk
   simp only[lookup_insert,hnone,some.injEq,reduceCtorEq,false_or]
   constructor
   ·rintro (rfl|hmem)
    ·exact Or.inl rfl
    exact Or.inr hmem
   rintro (heq|hmem)
   ·cases heq
    exact Or.inl rfl
   exact Or.inr hmem
  rw[lookup_insert_ne hk]
  have hne:(⟨k,v⟩:Σ _:κ,β)≠⟨j,w⟩:=fun h=>hk (congrArg Sigma.fst h)
  simp[hne]

/-- A map has no more entries than a list that holds them all. -/
lemma length_entries_le(h:∀k v,m.lookup k=some v→⟨k,v⟩∈l):m.entries.length≤l.length:=by
 have hsub:m.entries⊆l:=by
  rintro⟨k,v⟩ he
  exact h k v (mem_lookup_iff.2 he)
 exact (subperm_of_subset m.nodupKeys.nodup hsub).length_le

variable {κ β:Type} {f:β→ℕ}

def total (f:β→ℕ) (m:GoMap κ β):ℕ:=m.entries.foldr (fun e n=>f e.2+n) 0

variable [DecidableEq κ]

lemma foldr_kerase(l:List (Σ _:κ,β))(k:κ):l.foldr (fun e n=>f e.2+n) 0 =
  ((l.dlookup k).map f).getD 0+(l.kerase k).foldr (fun e n=>f e.2+n) 0:=by
 induction l with
 | nil=>rfl
 | cons e l ih=>
  obtain⟨j,v⟩:=e
  by_cases hk:k=j
  ·subst hk
   simp
  rw[dlookup_cons_ne _ _ hk,kerase_cons_ne hk,foldr_cons,foldr_cons,ih]
  omega

lemma total_erase(m:GoMap κ β)(k:κ):total f m=((m.lookup k).map f).getD 0+total f (m.erase k):=
 foldr_kerase m.entries k

lemma total_insert(m:GoMap κ β)(k:κ)(v:β):total f (m.insert k v)=f v+total f (m.erase k):=by
 rw[total,entries_insert]
 rfl

lemma total_insert_new{m:GoMap κ β}(h:m.lookup k=none)(v:β):total f (m.insert k v)=f v+total f m:=by
 rw[total_insert,total_erase m k,h]
 simp

variable {κ ε σ γ τ:Type}

/-- Two accumulators that one loop keeps independently. -/
lemma foldl_pair(f:σ→ε→σ)(g:τ→ε→τ)(visit:List ε)(s:σ)(t:τ):
 visit.foldl (fun (st:σ × τ) e=>(f st.1 e,g st.2 e)) (s,t)=(visit.foldl f s,visit.foldl g t):=by
 induction visit generalizing s t with
 | nil=>rfl
 | cons e visit ih=>exact ih (f s e) (g t e)

variable {key:ε→κ} {step:σ→ε→σ} {view:κ→σ→γ} {inv:σ→Prop}

/-- In a loop whose turns belong to different keys and do not show at other keys, what shows at a
key in the end is what its own turn made of what showed there at the beginning. -/
lemma foldl_local(visit:List ε)(hnodup:(visit.map key).Nodup)(s:σ)
 (hstep:∀t e,inv t→e∈visit→view (key e) t=view (key e) s →
  inv (step t e)∧∀k≠key e,view k (step t e)=view k t)
 (hs:inv s):
 inv (visit.foldl step s)∧
 (∀e∈visit,∃t,inv t∧view (key e) t=view (key e) s∧
  view (key e) (visit.foldl step s)=view (key e) (step t e))∧
 ∀k∉visit.map key,view k (visit.foldl step s)=view k s:=by
 induction visit generalizing s with
 | nil=>exact⟨hs,fun e he=>absurd he not_mem_nil,fun _ _=>rfl⟩
 | cons e visit ih=>
  rw[map_cons,nodup_cons]at hnodup
  obtain⟨hfirst,hframe⟩:=hstep s e hs mem_cons_self rfl
  have hother:∀e'∈visit,view (key e') (step s e)=view (key e') s:=by
   intro e' he'
   apply hframe
   intro heq
   exact hnodup.1 (heq▸mem_map_of_mem he')
  obtain⟨hinv,hturns,hrest⟩:=ih hnodup.2 (step s e)
   (fun t e' ht he' hview=>hstep t e' ht (mem_cons_of_mem _ he')
    (hview.trans (hother e' he'))) hfirst
  rw[foldl_cons]
  refine⟨hinv,?_,?_⟩
  ·intro e' he'
   rcases mem_cons.1 he' with rfl|he'
   ·exact⟨s,hs,rfl,hrest _ hnodup.1⟩
   obtain⟨t,ht,hview,hend⟩:=hturns e' he'
   exact⟨t,ht,hview.trans (hother e' he'),hend⟩
  intro k hk
  rw[map_cons,mem_cons,not_or]at hk
  rw[hrest k hk.2,hframe k hk.1]

end GoCoupe.MapIteration
