import Mathlib.Data.List.Induction
import Mathlib.Data.List.Sort
import Mathlib.Data.Prod.Lex

/-!
# Stable insertion into a bounded list

Elements are inserted one after another behind those with the same key, and the list is cut to
a bound. An element remains if and only if fewer elements than the bound come before it, by key
and then by place.
-/

namespace GoCoupe.StableInsertion
open List

variable {α β:Type*} [LinearOrder β] (key:α→β)

/-- The element goes behind those whose keys are not larger. -/
def place (l:List α) (a:α):List α:=l.orderedInsert (fun a b=>key a<key b) a

def insertAll (l:List α):List α:=l.foldl (place key) []

lemma take_place(a:α)(m:ℕ)(l:List α):(place key (l.take m) a).take m=(place key l a).take m:=by
 induction l generalizing m with
 | nil=>rw[take_nil]
 | cons b l ih=>
  cases m with
  | zero=>rfl
  | succ m=>
   by_cases hab:key a<key b
   ·cases m<;>simp[place,hab,take_take]
   have hm:=ih m
   simp only[place]at hm ⊢
   simp[hab,hm]

lemma take_foldl(m:ℕ)(l acc:List α):
 l.foldl (fun es a=>(place key es a).take m) (acc.take m)=(l.foldl (place key) acc).take m:=by
 induction l generalizing acc with
 | nil=>rfl
 | cons a l ih=>rw[foldl_cons,foldl_cons,take_place,ih]

/-- The key of an element and its place in the input. -/
def rank (p:α × ℕ):β ×ₗ ℕ:=toLex (key p.1,p.2)

lemma rank_lt_iff:rank key p<rank key q↔key p.1<key q.1∨key p.1=key q.1∧p.2<q.2:=
 Prod.Lex.toLex_lt_toLex

def ranked (l:List α):List (α × ℕ):=l.zipIdx.reverse.insertionSort (fun p q=>rank key p≤rank key q)

lemma perm_ranked(l:List α):(ranked key l).Perm l.zipIdx:=
 (perm_insertionSort _ _).trans (reverse_perm _)

lemma pairwise_ranked(l:List α):(ranked key l).Pairwise (fun p q=>rank key p<rank key q):=by
 have:Std.Total (fun p q:α × ℕ=>rank key p≤rank key q):=⟨fun _ _=>le_total _ _⟩
 have:IsTrans (α × ℕ) (fun p q=>rank key p≤rank key q):=⟨fun _ _ _=>le_trans⟩
 have hplaces:((ranked key l).map Prod.snd).Nodup:=by
  rw[((perm_ranked key l).map Prod.snd).nodup_iff,zipIdx_map_snd]
  exact nodup_range'
 have hle:(ranked key l).Pairwise (fun p q=>rank key p≤rank key q):=pairwise_insertionSort _ _
 refine (hle.and (pairwise_map.mp hplaces)).imp fun h=>lt_of_le_of_ne h.1 fun he=>?_
 exact h.2 (Prod.ext_iff.mp (toLex.injective he)).2

lemma map_orderedInsert_rank{l:List (α × ℕ)}(h:∀q∈l,q.2<p.2):
 (l.orderedInsert (fun p q=>rank key p≤rank key q) p).map Prod.fst =
  place key (l.map Prod.fst) p.1:=by
 induction l with
 | nil=>rfl
 | cons q l ih=>
  obtain⟨hq,hl⟩:=forall_mem_cons.mp h
  have hiff:rank key p≤rank key q↔key p.1<key q.1:=by
   rw[rank,rank,Prod.Lex.toLex_le_toLex,or_iff_left fun h=>absurd hq (not_lt.mpr h.2)]
  have hrest:=ih hl
  simp only[place]at hrest ⊢
  by_cases hlt:key p.1<key q.1
  ·simp[hiff,hlt]
  simp[hiff,hlt,hrest]

/-- Inserting one by one sorts by key and place. -/
lemma map_ranked(l:List α):(ranked key l).map Prod.fst=insertAll key l:=by
 induction l using reverseRecOn with
 | nil=>rfl
 | append_singleton l a ih=>
  have hplaces:∀q∈ranked key l,q.2<l.length:=fun q hq=>
   (mem_zipIdx ((perm_ranked key l).mem_iff.mp hq)).2.1.trans_eq (Nat.zero_add _)
  have hranked:ranked key (l++[a]) =
   (ranked key l).orderedInsert (fun p q=>rank key p≤rank key q) (a,l.length):=by
   simp[ranked,zipIdx_append]
  rw[hranked,map_orderedInsert_rank key hplaces,ih,insertAll,insertAll,foldl_append]
  rfl

variable {l:List α}

lemma mem_take_ranked(hp:p∈l.zipIdx)(m:ℕ):
 p∈(ranked key l).take m↔l.zipIdx.countP (rank key ·<rank key p) < m:=by
 rw[←(perm_ranked key l).countP_eq]
 obtain⟨u,v,huv⟩:=append_of_mem ((perm_ranked key l).mem_iff.mpr hp)
 have hsorted:=pairwise_ranked key l
 rw[huv]at hsorted ⊢
 obtain⟨-,hv,huv⟩:=pairwise_append.mp hsorted
 have hu:∀q∈u,rank key q<rank key p:=fun q hq=>huv q hq p mem_cons_self
 have hcount:(u++p::v).countP (rank key ·<rank key p)=u.length:=by
  rw[countP_append,countP_eq_length.mpr (by simpa using hu),countP_eq_zero.mpr]
  ·rfl
  intro q hq
  rcases mem_cons.mp hq with rfl|hq
  ·simp
  simpa using ((pairwise_cons.mp hv).1 q hq).le
 rw[hcount]
 constructor
 ·intro hmem
  by_contra hle
  rw[take_append_of_le_length (not_lt.mp hle)]at hmem
  exact lt_irrefl _ (hu p (mem_of_mem_take hmem))
 intro hlt
 obtain⟨k,rfl⟩:=Nat.exists_eq_add_of_lt hlt
 rw[take_append,show u.length+k+1-u.length=k+1 by omega,take_succ_cons]
 simp

/-- The names of what remains are pairwise different if and only if an element whose name was
inserted before has too many elements before it to remain. -/
lemma nodup_take_iff(hf:∀a b,f a=f b→key a=key b)(m:ℕ):
 (((insertAll key l).take m).map f).Nodup↔∀p∈l.zipIdx,∀q∈l.zipIdx,q.2<p.2→f q.1=f p.1 →
   m≤l.zipIdx.countP (rank key ·<rank key p):=by
 rw[←map_ranked,←map_take,map_map]
 have hsub:∀p∈(ranked key l).take m,p∈l.zipIdx:=fun p hp=>
  (perm_ranked key l).mem_iff.mp (mem_of_mem_take hp)
 constructor
 ·intro hnodup p hp q hq hqp hfqp
  by_contra hlt
  have hrank:rank key q<rank key p:=(rank_lt_iff key).mpr (.inr ⟨hf _ _ hfqp,hqp⟩)
  have hmono:l.zipIdx.countP (rank key ·<rank key q) ≤
   l.zipIdx.countP (rank key ·<rank key p):=
   countP_mono_left fun r _ hr=>by simpa using (of_decide_eq_true hr).trans hrank
  have heq:=inj_on_of_nodup_map hnodup ((mem_take_ranked key hq m).mpr (by omega))
   ((mem_take_ranked key hp m).mpr (by omega)) hfqp
  rw[heq]at hqp
  exact lt_irrefl _ hqp
 intro h
 have hne:∀p∈(ranked key l).take m,∀q∈(ranked key l).take m,f p.1=f q.1 →
  ¬q.2<p.2:=fun p hp q hq hpq hlt=>
  absurd ((mem_take_ranked key (hsub p hp) m).mp hp)
   (not_lt.mpr (h p (hsub p hp) q (hsub q hq) hlt hpq.symm))
 refine Nodup.map_on (fun p hp q hq hpq=>?_) ?_
 ·have hplace:p.2=q.2:=le_antisymm (not_lt.mp (hne p hp q hq hpq)) (not_lt.mp (hne q hq p hp hpq.symm))
  have hp':=mem_zipIdx_iff_getElem?.mp (hsub p hp)
  rw[hplace,mem_zipIdx_iff_getElem?.mp (hsub q hq)]at hp'
  exact Prod.ext (Option.some.inj hp').symm hplace
 exact ((pairwise_ranked key l).imp fun h=>ne_of_apply_ne _ h.ne).sublist
  (take_sublist _ _)

lemma mem_insertAll:a∈insertAll key l↔a∈l:=by
 rw[←map_ranked,((perm_ranked key l).map Prod.fst).mem_iff,zipIdx_map_fst]

lemma pairwise_insertAll:(insertAll key l).Pairwise (fun a b=>key a≤key b):=by
 rw[←map_ranked,pairwise_map]
 refine (pairwise_ranked key l).imp fun h=>?_
 rcases (rank_lt_iff key).mp h with h|h
 ·exact h.le
 exact h.1.le

/-- What does not remain is at least as far as everything that does, and the list is full. -/
lemma remains_or_beyond(ha:a∈l)(m:ℕ):a∈(insertAll key l).take m∨
  ((insertAll key l).take m).length=m∧∀b∈(insertAll key l).take m,key b≤key a:=by
 have hsplit:=take_append_drop m (insertAll key l)
 have hmem:=(mem_insertAll key).mpr ha
 have hsorted:=pairwise_insertAll key (l:=l)
 rw[←hsplit]at hmem hsorted
 rcases mem_append.mp hmem with hmem|hmem
 ·exact .inl hmem
 refine .inr ⟨?_,fun b hb=>(pairwise_append.mp hsorted).2.2 b hb a hmem⟩
 have:=length_pos_of_mem hmem
 rw[length_drop]at this
 rw[length_take]
 omega

end GoCoupe.StableInsertion
