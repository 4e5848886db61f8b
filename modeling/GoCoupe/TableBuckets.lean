import GoCoupe.DiscoveryMoves

/-!
# Buckets of the discovery table

`Table.add` gives up the lock while it pings the last node of a full bucket. Whatever happens to
the bucket in between, it stays small, without repetitions, and loses only that last node.
-/

namespace GoCoupe.TableBuckets
open GuardedRuns DiscoveryBonding DiscoveryMoves List Option Function

variable {ι α:Type} {P:Params ι α}

structure Sound (P:Params ι α) (T:ℕ→List (Node ι α)):Prop where
 size:∀i,(T i).length≤bucketSize
 distinct:∀i,((T i).map Node.id).Nodup
 place:∀i,∀n∈T i,P.logdist n.id=i

lemma Sound.update(h:Sound P T)
 (hsize:l.length≤bucketSize)(hdistinct:(l.map Node.id).Nodup)(hplace:∀n∈l,P.logdist n.id=d):
 Sound P (update T d l):=by
 have hcases:∀{Q:ℕ→List (Node ι α)→Prop},(∀i,Q i (T i))→Q d l →∀i,Q i (Function.update T d l i):=by
  intro Q hQ hl i
  by_cases hi:i=d
  ·subst hi
   simpa using hl
  simpa[hi]using hQ i
 exact⟨hcases (Q:=fun _ l=>l.length≤bucketSize) h.size hsize,
  hcases (Q:=fun _ l=>(l.map Node.id).Nodup) h.distinct hdistinct,
  hcases (Q:=fun i l=>∀n∈l,P.logdist n.id=i) h.place hplace⟩

variable [DecidableEq ι]

lemma map_id_eraseP(l:List (Node ι α))(id:ι):
 (l.eraseP (·.id=id)).map Node.id=(l.map Node.id).erase id:=by
 rw[erase_eq_eraseP',eraseP_map]
 rfl

lemma sound_stuffed(h:Sound P T)(n:Node ι α):Sound P (stuffed P T n):=by
 unfold stuffed
 dsimp only
 split
 ·exact h
 rename_i hn
 push Not at hn
 refine h.update (by simpa using Nat.succ_le_of_lt hn.2.2) ?_ ?_
 ·rw[map_append]
  exact (h.distinct _).append (nodup_singleton _) (by simpa using hn.2.1)
 intro x hx
 obtain hx|hx:=mem_append.1 hx
 ·exact h.place _ x hx
 rw[mem_singleton.1 hx]

lemma prefix_stuffed(T:ℕ→List (Node ι α))(n:Node ι α)(i:ℕ):T i<+:stuffed P T n i:=by
 unfold stuffed
 split
 ·exact prefix_refl _
 by_cases hi:i=P.logdist n.id
 ·subst hi
  simp
 simp[hi]

lemma sound_turn(h:Sound P (table s))(hturn:Turn P s a T):Sound P T:=by
 cases hturn with
 | @bump _ n _ hin=>
  obtain⟨x,hx,hid⟩:=mem_map.1 hin
  refine h.update ?_ ?_ ?_
  ·rw[length_cons,length_eraseP_of_mem hx (by simpa using hid)]
   have:=h.size (P.logdist n.id)
   have:=length_pos_of_mem hx
   omega
  ·rw[map_cons,nodup_cons,map_id_eraseP]
   exact⟨(h.distinct _).not_mem_erase,(h.distinct _).erase _⟩
  intro y hy
  obtain rfl|hy:=mem_cons.1 hy
  ·rfl
  exact h.place _ y (mem_of_mem_eraseP hy)
 | @replace _ n _ hnew=>
  have hsub:=take_sublist bucketSize (n::table s (P.logdist n.id))
  refine h.update (by simp) (.sublist (hsub.map _) (nodup_cons.2 ⟨hnew,h.distinct _⟩)) fun y hy=>?_
  obtain rfl|hy:=mem_cons.1 (hsub.subset hy)
  ·rfl
  exact h.place _ y hy
 | delete id=>
  refine h.update (length_eraseP_le.trans (h.size _)) ?_ fun y hy=>h.place _ y (mem_of_mem_eraseP hy)
  rw[map_id_eraseP]
  exact (h.distinct _).erase _
 | stuff nodes=>
  exact foldlRecOn nodes (motive:=Sound P) (stuffed P) h (fun _ hT n _=>sound_stuffed hT n)
 | restart=>exact⟨fun _=>Nat.zero_le _,fun _=>nodup_nil,fun _ _=>nofun⟩

/-- A bucket that is full before and after an action loses at most its last node, and that to the
end of an eviction whose ping was not answered. -/
lemma displaced(hturn:Turn P s a T)
 (hfull:(table s i).length=bucketSize)(hfull':(T i).length=bucketSize)
 (hx:x∈(table s i).map Node.id)(hlost:x∉(T i).map Node.id):
 ∃k now e,a=.evict k now∧s.evictions[k]?=some e∧e.reply=.timedOut∧e.oldest.id=x∧
  (table s i).getLast?.map Node.id=some x:=by
 have hplace:∀{d:ℕ} {l:List (Node ι α)},x∉(update (table s) d l i).map Node.id→i=d:=by
  intro d l hl
  by_contra hi
  rw[update_of_ne hi]at hl
  exact hl hx
 cases hturn with
 | bump=>
  obtain rfl:=hplace hlost
  rw[update_self,map_cons,map_id_eraseP,mem_cons,not_or]at hlost
  exact absurd ((mem_erase_of_ne hlost.1).2 hx) hlost.2
 | @replace _ n _ _ hevict=>
  obtain rfl:=hplace hlost
  obtain⟨k,now,e,ha,he,hreply,hlast⟩:=hevict hfull
  refine⟨k,now,e,ha,he,hreply,?_⟩
  generalize table s (P.logdist n.id)=b at *
  cases b using List.reverseRecOn with
  | nil=>cases hx
  | append_singleton b y=>
   rw[length_append,length_singleton]at hfull
   have htake:(n::(b++[y])).take bucketSize=n::b:=by
    rw[←hfull,←cons_append]
    exact take_left' (by simp)
   rw[getLast?_append]at hlast ⊢
   rw[update_self,htake]at hlost
   simp only[getLast?_singleton,some_or,map_some,some.injEq,map_append,
    map_cons,map_nil,mem_append,mem_cons,not_mem_nil,or_false]at hlast hx hlost ⊢
   obtain hx|rfl:=hx
   ·exact absurd (.inr hx) hlost
   exact⟨hlast.symm,rfl⟩
 | delete id=>
  obtain rfl:=hplace hlost
  rw[update_self]at hlost hfull'
  rw[←length_map Node.id,map_id_eraseP]at hfull'
  rw[map_id_eraseP]at hlost
  by_cases hid:id∈(table s (P.logdist id)).map Node.id
  ·rw[length_erase_of_mem hid,length_map,hfull]at hfull'
   cases hfull'
  rw[erase_of_not_mem hid]at hlost
  exact absurd hx hlost
 | stuff nodes=>
  have hkept:table s i<+:nodes.foldl (stuffed P) (table s) i:=
   foldlRecOn nodes (motive:=fun T=>table s i<+:T i) (stuffed P) (prefix_refl _)
    (fun T hT n _=>hT.trans (prefix_stuffed T n i))
  exact absurd ((hkept.map Node.id).subset hx) hlost
 | restart=>cases hfull'

variable [DecidableEq α]

/-- In every run the buckets are small, without repetitions and hold the nodes of their distance; a
full bucket that stays full loses only its last node, when that has not answered its ping; and a
node that comes to the front leaves the others in their order. -/
theorem bucket_invariants {actions : List (Action ι α)} {s : Discovery ι α}
    (hrun : exec (step P) (fresh ι α) actions = some s) :
    (∀ i, (table s i).length ≤ bucketSize ∧ ((table s i).map Node.id).Nodup ∧
      ∀ n ∈ table s i, P.logdist n.id = i) ∧
    (∀ a t, step P s a = some t → ∀ i x, (table s i).length = bucketSize →
      (table t i).length = bucketSize → x ∈ (table s i).map Node.id →
      x ∉ (table t i).map Node.id → ∃ k now e, a = .evict k now ∧ s.evictions[k]? = some e ∧
        e.reply = .timedOut ∧ e.oldest.id = x ∧ (table s i).getLast?.map Node.id = some x) ∧
    (∀ n (b : List (Entry ι α)), (bump n b).filter (fun e => e.node.id ≠ n.id) =
      b.filter (fun e => e.node.id ≠ n.id)) ∧
    ∀ n last (b : List (Entry ι α)), (DiscoveryBonding.replace n last b).filter
      (fun e => e.node.id ≠ n.id) <+: b.filter (fun e => e.node.id ≠ n.id) := by
 have hsound:Sound P (table s):=by
  have hstep:∀(s:Discovery ι α) a t,Sound P (table s)→step P s a=some t → Sound P (table t):=by
   intro s a t h hstep
   obtain hsame|hturn:=turn_of_step hstep
   · exact hsame▸h
   exact sound_turn h hturn
  have hfresh:Sound P (table (fresh ι α)):=⟨fun _=>Nat.zero_le _,fun _=>nodup_nil,fun _ _=>nofun⟩
  exact exec_invariant hstep hfresh hrun
 refine⟨fun i=>⟨hsound.size i,hsound.distinct i,hsound.place i⟩,?_,?_,?_⟩
 · intro a t hstep i x hfull hfull' hx hlost
   obtain hsame|hturn:=turn_of_step hstep
   · exact absurd (hsame▸hx) hlost
   exact displaced hturn hfull hfull' hx hlost
 · intro n b
   rw[bump,filter_cons_of_neg (by simp)]
   induction b with
   | nil=>rfl
   | cons e b ih=>
    by_cases he:e.node.id=n.id
    · simp[he]
    simpa[he] using ih
 intro n last b
 unfold DiscoveryBonding.replace
 split
 · exact prefix_refl _
 split
 · exact prefix_refl _
 rw[show bucketSize=15+1 from rfl,take_succ_cons,filter_cons_of_neg (by simp)]
 exact ( take_prefix 15 b).filter _

/-- A seed is bonded with at another address. -/
theorem bucket_invariants_bumped : ∃ s : Discovery ℕ ℕ,
    exec (step ⟨0, id, fun _ a b => compare a b, fun _ => true, 12⟩) (fresh ℕ ℕ)
      [.stuff [⟨1, 5, 0⟩, ⟨0, 5, 0⟩, ⟨1, 6, 0⟩], .bond ⟨1, 7, 0⟩, .begin 0 0, .takeSlot 0 [],
        .packet 0 7 1 [] (.pong [] 100), .resume 0 0, .timeout 0, .resume 0 0, .finish 0 []] = some s ∧
      table s 1 = [⟨1, 7, 0⟩] ∧ ∀ n ∈ table s 1, n.id = 1 := by
 have hrun:(exec (step ⟨0,id,fun _ a b=>compare a b,fun _=>true,12⟩) (fresh ℕ ℕ)
  [.stuff [⟨1,5,0⟩,⟨0,5,0⟩,⟨1,6,0⟩],.bond ⟨1,7,0⟩,.begin 0 0,.takeSlot 0 [],
   .packet 0 7 1 [] (.pong [] 100),.resume 0 0,.timeout 0,.resume 0 0,.finish 0 []]).map
  (table · 1)=some [⟨1,7,0⟩]:=by decide +kernel
 obtain⟨s,hrun,htable⟩:=map_eq_some_iff.1 hrun
 exact⟨s,hrun,htable,((bucket_invariants hrun).1 1).2.2⟩

end GoCoupe.TableBuckets
