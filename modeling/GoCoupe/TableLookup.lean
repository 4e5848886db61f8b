import GoCoupe.DiscoveryBonding
import GoCoupe.StableInsertion
import Mathlib.Data.Fintype.Card
import Mathlib.Data.List.Lex

/-!
# Lookups in the discovery table

`Table.Lookup` with `closest` and `nodesByDistance.push`. A reply is the list of nodes that
`bondall` returns, in order of arrival. Nodes of the table are not marked as seen, so a node in
the table and in a reply is pushed twice.
-/

namespace GoCoupe.TableLookup
open DiscoveryBonding (Node bucketSize)
open StableInsertion List

/-- `common.Hash` by its bytes. -/
abbrev Digest:=Fin 32→UInt8

def distcmpFrom (target a b:Digest):List (Fin 32)→ℤ
 | []=>0
 | i::is=>
  let da:=a i ^^^ target i
  let db:=b i ^^^ target i
  if da>db then 1 else if da<db then -1 else distcmpFrom target a b is

def distcmp (target a b:Digest):ℤ:=distcmpFrom target a b (finRange 32)

def alpha:ℕ:=3

variable {ι α:Type} (sha:ι→Digest)

/-- `nodesByDistance.push`. `sort.Search` finds the first entry that is farther away. -/
def push (target:Digest) (maxElems:ℕ) (entries:List (Node ι α)) (n:Node ι α):List (Node ι α):=
 let near:=fun e:Node ι α=>decide (¬distcmp target (sha e.id) (sha n.id)>0)
 (entries.takeWhile near++n::entries.dropWhile near).take maxElems

def closest (buckets:List (List (Node ι α))) (target:Digest) (nresults:ℕ):List (Node ι α):=
 buckets.flatten.foldl (push sha target nresults) []

/-- The bytes of the distance, the highest first. -/
def distance (target:Digest) (n:Node ι α):List ℕ:=
 (finRange 32).map (fun i=>(sha n.id i ^^^ target i).toNat)

lemma distcmpFrom_pos(is:List (Fin 32)):distcmpFrom target a b is>0↔
  is.map (fun i=>(b i ^^^ target i).toNat) < is.map (fun i=>(a i ^^^ target i).toNat):=by
 induction is with
 | nil=>simp[distcmpFrom]
 | cons i is ih=>
  rw[distcmpFrom,map_cons,map_cons,cons_lt_cons_iff,←ih]
  simp only[gt_iff_lt,UInt8.lt_iff_toNat_lt]
  split_ifs<;>omega

lemma push_eq(target:Digest)(m:ℕ):push sha target m=fun (entries:List (Node ι α)) n=>
  (place (distance sha target) entries n).take m:=by
 funext entries n
 have hnear:∀e:Node ι α,decide (¬distcmp target (sha e.id) (sha n.id)>0) =
  decide (¬distance sha target n<distance sha target e):=fun e=>
  decide_eq_decide.mpr (not_congr (distcmpFrom_pos _))
 rw[place,orderedInsert_eq_take_drop]
 simp only[push,hnear]
 congr!

lemma closest_eq(buckets:List (List (Node ι α)))(target:Digest)(m:ℕ):
 closest sha buckets target m=(insertAll (distance sha target) buckets.flatten).take m:=by
 rw[closest,push_eq,insertAll,←take_foldl,take_nil]

variable [DecidableEq ι]

/-- The variables of `Lookup`. The identifiers in `asked` are that of the local node and those
of the nodes for which a query was started. -/
structure Search (ι α:Type) where
 entries:List (Node ι α)
 queried:List (Node ι α)
 seen:List ι
 pendingQueries:ℕ

def query (n:Node ι α) (s:Search ι α):Search ι α:=
 {s with queried:=n::s.queried,pendingQueries:=s.pendingQueries+1}

/-- The loop that asks the closest nodes. -/
def ask (self:ι):List (Node ι α) → Search ι α→Search ι α
 | [],s=>s
 | n::entries,s=>
  if s.pendingQueries<alpha then
   if n.id=self ∨ n.id∈s.queried.map Node.id then ask self entries s
   else ask self entries (query n s)
  else s

def see (target:Digest) (s:Search ι α) (n:Node ι α):Search ι α:=if n.id∈s.seen then s
 else {s with seen:=n.id::s.seen,entries:=push sha target bucketSize s.entries n}

def receive (target:Digest) (reply:List (Node ι α)) (s:Search ι α):Search ι α:=
 let s:=reply.foldl (see sha target) s
 {s with pendingQueries:=s.pendingQueries-1}

/-- The loop of `Lookup` with the replies that it receives. -/
inductive Ends (self:ι) (target:Digest):Search ι α→List (List (Node ι α)) → Search ι α→Prop
 | stop {s:Search ι α} (h:(ask self s.entries s).pendingQueries=0) :
  Ends self target s [] (ask self s.entries s)
 | reply {s t:Search ι α} {nodes:List (Node ι α)} {replies:List (List (Node ι α))}
  (h:(ask self s.entries s).pendingQueries≠0)
  (hrest:Ends self target (receive sha target nodes (ask self s.entries s)) replies t) :
  Ends self target s (nodes::replies) t

/-- `Lookup` receives the replies, has then queried the nodes of the first list and returns
the second. With an empty table it only requests a refresh. -/
inductive Lookup (self targetID:ι) (buckets:List (List (Node ι α))) :
 List (List (Node ι α)) → List (Node ι α) → List (Node ι α)→Prop
 | empty (h:closest sha buckets (sha targetID) bucketSize=[]):Lookup self targetID buckets [] [] []
 | search {replies:List (List (Node ι α))} {t:Search ι α}
  (h:closest sha buckets (sha targetID) bucketSize≠[])
  (hends:Ends sha self (sha targetID)
   ⟨closest sha buckets (sha targetID) bucketSize,[],[],0⟩ replies t) :
  Lookup self targetID buckets replies t.queried t.entries

structure Right (self:ι) (target:Digest) (learned queried result:List (Node ι α)) :
 Prop where
 size:result.length≤bucketSize
 distinct:(result.map Node.id).Nodup
 sorted:result.Pairwise (fun a b=>distance sha target a≤distance sha target b)
 known:∀n∈result,n∈learned
 closest:∀n∈learned,n.id∈result.map Node.id ∨
  result.length=bucketSize ∧ ∀m∈result,distance sha target m≤distance sha target n
 asked:∀n∈result,n.id=self ∨ n.id∈queried.map Node.id

def accepted:List ι→List (Node ι α) → List (Node ι α)
 | _,[]=>[]
 | seen,n::nodes=>
  if n.id∈seen then accepted seen nodes else n::accepted (n.id::seen) nodes

/-- Every node whose identifier was pushed before has at least as many pushed nodes before it
as the result can hold: nodes that are closer, or that are as close and were pushed earlier. -/
def RepeatsCrowdedOut (target:Digest) (pushed:List (Node ι α)):Prop:=
 ∀p∈pushed.zipIdx,∀q∈pushed.zipIdx,q.2<p.2 → q.1.id=p.1.id →bucketSize≤pushed.zipIdx.countP
   (rank (distance sha target) ·<rank (distance sha target) p)

variable (self:ι) (target:Digest)

lemma ask_entries(ns:List (Node ι α))(s:Search ι α):
 (ask self ns s).entries=s.entries∧(ask self ns s).seen=s.seen:=by
 induction ns generalizing s with
 | nil=>exact⟨rfl,rfl⟩
 | cons n ns ih=>
  rw[ask]
  split_ifs
  ·exact ih s
  ·exact ih _
  exact⟨rfl,rfl⟩

lemma ask_mono(ns:List (Node ι α))(s:Search ι α):
 s.pendingQueries≤(ask self ns s).pendingQueries∧s.queried⊆(ask self ns s).queried:=by
 induction ns generalizing s with
 | nil=>exact⟨le_rfl,fun _ h=>h⟩
 | cons n ns ih=>
  rw[ask]
  split_ifs
  ·exact ih s
  ·obtain⟨hp,hq⟩:=ih (query n s)
   exact⟨(Nat.le_succ _).trans hp,fun x hx=>hq (mem_cons_of_mem n hx)⟩
  exact⟨le_rfl,fun _ h=>h⟩

/-- If no query is pending after asking, all entries were asked before. -/
lemma asked_of_idle(h:(ask self ns s).pendingQueries=0):
 ∀n∈ns,n.id=self∨n.id∈(ask self ns s).queried.map Node.id:=by
 induction ns generalizing s with
 | nil=>simp
 | cons n ns ih=>
  rw[ask]at h ⊢
  split_ifs at h ⊢ with hlt hasked
  ·refine forall_mem_cons.mpr ⟨hasked.imp_right fun hn=>?_,ih h⟩
   exact map_subset _ (ask_mono self ns s).2 hn
  ·exact absurd ((ask_mono self ns (query n s)).1.trans h.le) (Nat.not_succ_le_zero _)
  exact absurd (h▸hlt) (by decide)

lemma receive_spec(reply rest:List (Node ι α))(s:Search ι α):
 (receive sha target reply s).queried=s.queried∧
 (receive sha target reply s).pendingQueries=s.pendingQueries-1∧
 (accepted s.seen (reply++rest)).foldl (push sha target bucketSize) s.entries =
  (accepted (receive sha target reply s).seen rest).foldl (push sha target bucketSize)
   (receive sha target reply s).entries:=by
 induction reply generalizing s with
 | nil=>exact⟨rfl,rfl,rfl⟩
 | cons n reply ih=>
  obtain⟨hq,hp,he⟩:=ih (see sha target s n)
  have hsee:receive sha target (n::reply) s=receive sha target reply (see sha target s n):=rfl
  rw[hsee,hq,hp,←he,cons_append,accepted,see]
  split_ifs
  ·exact⟨rfl,rfl,rfl⟩
  exact⟨rfl,rfl,rfl⟩

lemma Ends.entries(h:Ends sha self target s replies t):
 t.entries=(accepted s.seen replies.flatten).foldl (push sha target bucketSize) s.entries∧
  ∀n∈t.entries,n.id=self∨n.id∈t.queried.map Node.id:=by
 induction h with
 | @stop s h=>
  refine⟨(ask_entries self s.entries s).1,?_⟩
  rw[(ask_entries self s.entries s).1]
  exact asked_of_idle self h
 | @reply s t nodes replies h hrest ih=>
  obtain⟨he,hs⟩:=ask_entries self s.entries s
  refine⟨?_,ih.2⟩
  rw[ih.1,←(receive_spec sha target nodes replies.flatten _).2.2,he,hs,flatten_cons]

/-- What is left to do: queries that can still be started count twice. -/
def toDo [Fintype ι] (s:Search ι α):ℕ:=2*(Fintype.card ι-s.queried.length)+s.pendingQueries

lemma toDo_ask [Fintype ι](ns:List (Node ι α))(h:(s.queried.map Node.id).Nodup):
 ((ask self ns s).queried.map Node.id).Nodup∧toDo (ask self ns s)≤toDo s:=by
 induction ns generalizing s with
 | nil=>exact⟨h,le_rfl⟩
 | cons n ns ih=>
  rw[ask]
  split_ifs with hlt hasked
  ·exact ih h
  ·have hnodup:((n::s.queried).map Node.id).Nodup:=nodup_cons.mpr ⟨fun hn=>hasked (.inr hn),h⟩
   have hcard:=hnodup.length_le_card
   obtain⟨hq,hle⟩:=ih (s:=query n s) hnodup
   refine⟨hq,hle.trans ?_⟩
   simp only[toDo,query,length_cons,length_map]at hcard ⊢
   omega
  exact⟨h,le_rfl⟩

lemma exists_ends [Fintype ι](replies:ℕ→List (Node ι α))(h:(s.queried.map Node.id).Nodup):
 ∃k t,Ends sha self target s ((range k).map replies) t:=by
 induction hn:toDo s using Nat.strong_induction_on generalizing s replies with
 | _ n ih=>
  obtain⟨hnodup,hle⟩:=toDo_ask self s.entries h
  by_cases hidle:(ask self s.entries s).pendingQueries=0
  ·exact⟨0,_,.stop hidle⟩
  obtain⟨hq,hp,-⟩:=receive_spec sha target (replies 0) [] (ask self s.entries s)
  have hless:toDo (receive sha target (replies 0) (ask self s.entries s))<n:=by
   rw[←hn]
   simp only[toDo,hq,hp]at hle ⊢
   omega
  obtain⟨k,t,hrest⟩:=ih (toDo (receive sha target (replies 0) (ask self s.entries s)))
   hless (fun i=>replies (i+1)) (by rwa[hq]) rfl
  refine⟨k+1,t,?_⟩
  rw[range_succ_eq_map,map_cons,map_map]
  exact .reply hidle hrest

lemma accepted_subset(seen:List ι)(nodes:List (Node ι α)):accepted seen nodes⊆nodes:=by
 induction nodes generalizing seen with
 | nil=>exact fun _ h=>h
 | cons n nodes ih=>
  rw[accepted]
  split_ifs
  ·exact subset_cons_of_subset n (ih seen)
  exact cons_subset_cons n (ih _)

lemma exists_accepted(seen:List ι){nodes:List (Node ι α)}{n:Node ι α}(hn:n∈nodes):
 n.id∈seen∨∃m∈accepted seen nodes,m.id=n.id:=by
 induction nodes generalizing seen with
 | nil=>cases hn
 | cons x nodes ih=>
  rw[accepted]
  split_ifs with hx
  ·rcases mem_cons.mp hn with rfl|hn
   ·exact .inl hx
   exact ih seen hn
  rcases mem_cons.mp hn with rfl|hn
  ·exact .inr ⟨n,mem_cons_self,rfl⟩
  rcases ih (x.id::seen) hn with hseen|⟨m,hm,hid⟩
  ·rcases mem_cons.mp hseen with hid|hseen
   ·exact .inr ⟨x,mem_cons_self,hid.symm⟩
   exact .inl hseen
  exact .inr ⟨m,mem_cons_of_mem x hm,hid⟩

lemma Lookup.result{targetID:ι}{buckets replies:List (List (Node ι α))}
 {queried result:List (Node ι α)}
 (h:Lookup sha self targetID buckets replies queried result):
 result=(insertAll (distance sha (sha targetID))
  (buckets.flatten++accepted [] replies.flatten)).take bucketSize∧
  ∀n∈result,n.id=self∨n.id∈queried.map Node.id:=by
 cases h with
 | empty h=>
  refine⟨?_,by simp⟩
  rw[←h,closest_eq,flatten_nil,accepted,append_nil]
 | search h hends=>
  refine⟨?_,(Ends.entries sha self _ hends).2⟩
  rw[(Ends.entries sha self _ hends).1,closest_eq,push_eq,take_foldl,insertAll,insertAll,foldl_append]

/-- Every lookup ends, whatever the replies are, and what it returns is right if and only if
every node that is pushed a second time is crowded out of the result. -/
theorem lookup_right_iff [Fintype ι] (targetID : ι) (buckets : List (List (Node ι α)))
    (replies : ℕ → List (Node ι α)) :
    ∃ k queried result,
      Lookup sha self targetID buckets ((List.range k).map replies) queried result ∧
      (Right sha self (sha targetID) (buckets.flatten ++ ((List.range k).map replies).flatten)
          queried result ↔
        RepeatsCrowdedOut sha (sha targetID)
          (buckets.flatten ++ accepted [] ((List.range k).map replies).flatten)) := by
 have hends:∃k queried result,
  Lookup sha self targetID buckets ((range k).map replies) queried result:=by
  by_cases h:closest sha buckets (sha targetID) bucketSize=[]
  · exact⟨0,[],[],.empty h⟩
  obtain⟨k,t,ht⟩:=exists_ends sha self (sha targetID) replies
   (s := ⟨closest sha buckets (sha targetID) bucketSize,[],[],0⟩) nodup_nil
  exact⟨k,_,_,.search h ht⟩
 obtain⟨k,queried,result,hlookup⟩:=hends
 refine⟨k,queried,result,hlookup,?_⟩
 obtain⟨hresult,hasked⟩:=Lookup.result sha self hlookup
 generalize ((range k).map replies).flatten=nodes at hresult ⊢
 have hkey:∀a b:Node ι α,a.id=b.id →
  distance sha (sha targetID) a=distance sha (sha targetID) b:=fun a b h=>by
  rw[distance,h,distance]
 rw[RepeatsCrowdedOut,←nodup_take_iff _ hkey,←hresult]
 refine⟨Right.distinct,fun hdistinct=>?_⟩
 refine⟨?_,hdistinct,?_,fun n hn=>?_,fun n hn=>?_,hasked⟩
 · rw[hresult]
   exact length_take_le _ _
 · rw[hresult]
   exact (pairwise_insertAll _).sublist (take_sublist _ _)
 · rw[hresult] at hn
   rcases mem_append.mp ((mem_insertAll _).mp (mem_of_mem_take hn)) with hn|hn
   · exact mem_append_left _ hn
   exact mem_append_right _ (accepted_subset [] nodes hn)
 obtain⟨m,hm,hid⟩:∃m∈buckets.flatten++accepted [] nodes,m.id=n.id:=by
  rcases mem_append.mp hn with hn|hn
  · exact⟨n,mem_append_left _ hn,rfl⟩
  obtain⟨m,hm,hid⟩:=(exists_accepted [] hn).resolve_left not_mem_nil
  exact⟨m,mem_append_right _ hm,hid⟩
 rw[←hid,←hkey m n hid,hresult]
 exact (remains_or_beyond _ hm bucketSize).imp_left (mem_map_of_mem)

/-- Two nodes of the table are asked, and the first one names the second. -/
theorem lookup_returns_repeated :
    ∃ queried result, Lookup (fun _ _ => 0) (0 : Fin 3) 0 [[⟨1, (), 0⟩, ⟨2, (), 0⟩]]
        [[⟨2, (), 0⟩], []] queried result ∧ ¬ (result.map Node.id).Nodup :=
 ⟨_,_,.search (by decide) (.reply (by decide) (.reply (by decide) (.stop (by decide)))),by decide⟩

end GoCoupe.TableLookup
