import GoCoupe.FetcherMoves

/-!
# The counters of the block fetcher

The blocks of each peer are counted rightly in every run. An announcement that is moved on by a
timer is no longer counted, but counted down when its hash is forgotten, so these counters are
right exactly when no announcement is ever picked for fetching.
-/

namespace GoCoupe.FetcherAccounting
open GuardedRuns MapIteration BlockFetching FetcherMoves List Option Function

variable {W H ι Hd T:Type} [DecidableEq ι]

section Counts

def listed (p:ι) (as:List (Announce H ι Hd)):ℕ:=as.countP (·.origin=p)

/-- The announcements of a peer in the four maps. -/
def held (p:ι) (s:Fetcher H ι Hd T):ℕ:=
 total (listed p) s.announced+total (listed p [·]) s.fetching +
  total (listed p) s.fetched+total (listed p [·]) s.completing

def stored (p:ι) (s:Fetcher H ι Hd T):ℕ:=total (fun op=>if op.origin=p then 1 else 0) s.queued

/-- The counters of all peers are right and within the limits. -/
structure Accounted (s:Fetcher H ι Hd T):Prop where
 announces:∀p,s.announces p=held p s
 queues:∀p,s.queues p=stored p s
 nonneg:∀p,0 ≤ s.announces p ∧ 0 ≤ s.queues p
 held_le:∀p,held p s≤256
 stored_le:∀p,stored p s≤64

/-- What a peer holds beyond its counter. -/
def debt (p:ι) (s:Fetcher H ι Hd T):ℤ:=held p s-s.announces p

structure Sound (s:Fetcher H ι Hd T):Prop where
 queues:∀p,s.queues p=stored p s
 queues_le:∀p,s.queues p≤64
 announces_le:∀p,s.announces p≤256

structure Idle (s:Fetcher H ι Hd T):Prop where
 fetching:s.fetching = ∅
 fetched:s.fetched = ∅
 completing:s.completing = ∅

structure Settles (s t:Fetcher H ι Hd T):Prop where
 debt:∀p,debt p t=debt p s
 sound:Sound s → Sound t
 idle:Idle s→Idle t

/-- A part of a step after which no peer holds less beyond its counter. -/
structure Owes (s t:Fetcher H ι Hd T):Prop where
 debt:∀p,FetcherAccounting.debt p s≤FetcherAccounting.debt p t
 sound:Sound s → Sound t

variable {s t u:Fetcher H ι Hd T}

lemma Settles.refl(s:Fetcher H ι Hd T):Settles s s:=⟨fun _=>rfl,id,id⟩

lemma Settles.trans(h:Settles s t)(h':Settles t u):Settles s u:=
 ⟨fun p=>(h'.debt p).trans (h.debt p),h'.sound ∘ h.sound,h'.idle ∘ h.idle⟩

lemma Settles.owes(h:Settles s t):Owes s t:=⟨fun p=>Int.le_of_eq (h.debt p).symm,h.sound⟩

lemma Owes.refl(s:Fetcher H ι Hd T):Owes s s:=(Settles.refl s).owes

lemma Owes.trans(h:Owes s t)(h':Owes t u):Owes s u:=
 ⟨fun p=>Int.le_trans (h.debt p) (h'.debt p),h'.sound ∘ h.sound⟩

/-- What the debts and the bounds are about. -/
def books (s:Fetcher H ι Hd T):=
 (s.announces,s.announced,s.fetching,s.fetched,s.completing,s.queues,s.queued)

lemma settles_frame(h:books t=books s):Settles s t:=by
 simp only[books,Prod.mk.injEq]at h
 obtain⟨hcount,hannounced,hfetching,hfetched,hcompleting,hqueues,hqueued⟩:=h
 refine⟨fun p=>?_,fun h=>⟨fun p=>?_,hqueues▸h.queues_le,hcount▸h.announces_le⟩,
  fun h=>⟨hfetching▸h.fetching,hfetched▸h.fetched,hcompleting▸h.completing⟩⟩
 ·simp only[debt,held,hcount,hannounced,hfetching,hfetched,hcompleting]
 simp only[stored,hqueues,hqueued]
 exact h.queues p

/-- More is held, and nothing is counted. -/
lemma owes_of_held(hheld:∀p,held p s≤held p t)
 (hcount:t.announces=s.announces)(hqueues:t.queues=s.queues)
 (hqueued:t.queued=s.queued):Owes s t where
 debt p:=by
  have hp:=hheld p
  rw[debt,debt,hcount]
  omega
 sound h:=by
  refine⟨fun p=>?_,hqueues▸h.queues_le,hcount▸h.announces_le⟩
  simp only[stored,hqueues,hqueued]
  exact h.queues p

lemma owes_foldl{ε:Type}{f:Fetcher H ι Hd T→ε→Fetcher H ι Hd T}
 (hf:∀s e,Owes s (f s e))(l:List ε)(s:Fetcher H ι Hd T):Owes s (l.foldl f s):=
 List.foldlRecOn (motive:=Owes s) l f (.refl s) (fun t ht e _=>ht.trans (hf t e))

lemma listed_append(p:ι)(as bs:List (Announce H ι Hd)):
 listed p (as++bs)=listed p as+listed p bs:=countP_append

lemma listed_single(p:ι)(a:Announce H ι Hd):listed p [a]=if a.origin=p then 1 else 0:=by
 simp[listed,countP_singleton]

lemma listed_getD(p:ι)(o:Option (List (Announce H ι Hd))):
 listed p (o.getD [])=(o.map (listed p)).getD 0:=by
 cases o<;>rfl

lemma listed_toList(p:ι)(o:Option (Announce H ι Hd)):
 listed p o.toList=(o.map (listed p [·])).getD 0:=by
 cases o<;>rfl

lemma foldl_decrement(as:List (Announce H ι Hd))(counts:ι→ℤ)(p:ι):
 as.foldl (fun counts a=>decrement counts a.origin) counts p=counts p-listed p as:=by
 induction as generalizing counts with
 | nil=>simp[listed]
 | cons a as ih=>
  rw[foldl_cons,ih,←singleton_append,listed_append,listed_single,decrement,update_apply]
  by_cases h:a.origin=p
  ·subst h
   simp
   omega
  simp[h,Ne.symm h]

structure Quiet (s:Fetcher H ι Hd T):Prop extends Idle s where
 debt:∀p,debt p s=0

/-- What holds of every state: when a counter of announcements was ever wrong, one still is. -/
structure Coherent (s:Fetcher H ι Hd T):Prop extends Sound s where
 owed:Quiet s ∨ ∃p,0<debt p s

lemma accounted_iff(h:Coherent s):Accounted s↔Quiet s:=by
 constructor
 ·intro hs
  refine h.owed.resolve_right ?_
  rintro⟨p,hp⟩
  have heq:=hs.announces p
  rw[debt]at hp
  omega
 intro hs
 have heq:∀p,s.announces p=held p s:=by
  intro p
  have hp:=hs.debt p
  rw[debt]at hp
  omega
 refine⟨heq,h.queues,fun p=>⟨?_,?_⟩,fun p=>?_,fun p=>?_⟩
 ·rw[heq p]
  exact Int.natCast_nonneg _
 ·rw[h.queues p]
  exact Int.natCast_nonneg _
 ·have hle:=h.announces_le p
  have hp:=heq p
  omega
 have hle:=h.queues_le p
 have hp:=h.queues p
 omega

lemma quiet_new:Quiet (new H ι Hd T):=⟨⟨rfl,rfl,rfl⟩,fun _=>rfl⟩

lemma coherent_new:Coherent (new H ι Hd T):=
 ⟨⟨fun _=>rfl,fun _=>(by decide:(0:ℤ)≤64),fun _=>(by decide:(0:ℤ)≤256)⟩,.inl quiet_new⟩

end Counts

variable [DecidableEq H] {s:Fetcher H ι Hd T}

lemma held_forgetHash(p:ι)(hash:H)(s:Fetcher H ι Hd T):
 held p s=listed p (traces hash s)+held p (forgetHash hash s):=by
 have h1:=@total_erase _ _ (listed p) _ s.announced hash
 have h2:=@total_erase _ _ (listed p [·]) _ s.fetching hash
 have h3:=@total_erase _ _ (listed p) _ s.fetched hash
 have h4:=@total_erase _ _ (listed p [·]) _ s.completing hash
 simp only[held,traces,forgetHash,listed_append,listed_getD,listed_toList]
 omega

lemma erase_empty(hash:H):(∅ : GoMap H β).erase hash = ∅:=rfl

lemma idle_forgetHash(h:Idle s)(hash:H):Idle (forgetHash hash s):=by
 refine⟨?_,?_,?_⟩
 ·rw[forgetHash,h.fetching,erase_empty]
 ·rw[forgetHash,h.fetched,erase_empty]
 rw[forgetHash,h.completing,erase_empty]

lemma announces_forgetHash(p:ι)(hash:H)(s:Fetcher H ι Hd T):
 (forgetHash hash s).announces p=s.announces p-listed p (traces hash s):=
 foldl_decrement (traces hash s) s.announces p

lemma settles_forgetHash(hash:H)(s:Fetcher H ι Hd T):Settles s (forgetHash hash s) where
 debt p:=by
  have hheld:=held_forgetHash p hash s
  rw[debt,debt,announces_forgetHash]
  omega
 sound h:=by
  refine⟨h.queues,h.queues_le,fun p=>?_⟩
  have hle:=h.announces_le p
  rw[announces_forgetHash]
  omega
 idle h:=idle_forgetHash h hash

lemma settles_forgetBlock(hash:H)(s:Fetcher H ι Hd T):Settles s (forgetBlock hash s):=by
 unfold forgetBlock
 split
 ·rename_i op hop
  refine⟨fun _=>rfl,fun h=>?_,fun h=>⟨h.fetching,h.fetched,h.completing⟩⟩
  refine⟨fun p=>?_,fun p=>?_,h.announces_le⟩
  all_goals
   have hp:=@total_erase _ _ (fun op=>if op.origin=p then 1 else 0) _ s.queued hash
   have hqueues:=h.queues p
   have hle:=h.queues_le p
   simp only[hop,map_some,getD_some]at hp
   simp only[stored,decrement,update_apply]at hqueues ⊢
   by_cases heq:p=op.origin
   ·subst heq
    simp only[if_true]at hp ⊢
    omega
   simp only[if_neg heq,if_neg (Ne.symm heq)]at hp ⊢
   omega
 exact .refl s

lemma held_fetching{hash:H}(h:s.fetching.lookup hash=none)(a:Announce H ι Hd)
 (p:ι):held p {s with fetching:=s.fetching.insert hash a} = listed p [a]+held p s:=by
 simp only[held,total_insert_new h]
 omega

lemma owes_fetching{hash:H}(a:Announce H ι Hd)(h:s.fetching.lookup hash=none):
 Owes s {s with fetching:=s.fetching.insert hash a}:=by
 refine owes_of_held (fun p=>?_) rfl rfl rfl
 rw[held_fetching h]
 exact Nat.le_add_left _ _

lemma owes_completing{hash:H}(h:s.completing.lookup hash=none)(a:Announce H ι Hd):
 Owes s {s with completing:=s.completing.insert hash a}:=by
 refine owes_of_held (fun p=>?_) rfl rfl rfl
 simp only[held,total_insert_new h]
 omega

/-- A moved announcement is held and not counted. -/
lemma debt_fetch{look:Look H}{a:Announce H ι Hd}(ha:due look s=some a)
 (hknown:look.known=false)(p:ι):debt p (fetch s look)=listed p [a]+debt p s:=by
 have hdebt:=(settles_forgetHash look.hash s).debt p
 have hnew:(forgetHash look.hash s).fetching.lookup look.hash=none:=AList.lookup_erase look.hash s.fetching
 have hheld:=held_fetching hnew a p
 simp only[fetch,ha,hknown,Bool.false_eq_true,if_false]
 rw[←hdebt,debt,hheld,debt]
 push_cast
 omega

lemma held_received{hash:H}{a:Announce H ι Hd}(h:s.fetching.lookup hash=some a)
 (header:Option Hd)(time:ℤ)(p:ι):
 held p {s with fetching:=s.fetching.insert hash {a with header:=header,time:=time}}=held p s:=by
 have htotal:=@total_erase _ _ (listed p [·]) _ s.fetching hash
 rw[h,map_some,getD_some]at htotal
 rw[held,held,total_insert,htotal]
 rfl

/-- Every announcement that is due is of a block that the chain has by then. -/
def Prudent (s:Fetcher H ι Hd T):Action W H ι Hd T→Prop
 | .event (.fetchTick visit)=>∀look∈visit,(due look s).isSome→look.known
 | _=>True

instance prudent_decidable (s:Fetcher H ι Hd T):∀a:Action W H ι Hd T,Decidable (Prudent s a)
 | .event (.fetchTick visit)=>
  inferInstanceAs (Decidable (∀look∈visit,(due look s).isSome→look.known))
 | .event (.notify ..) | .event (.inject ..) | .event (.done ..) | .event (.completeTick ..)
 | .event (.blocks ..) | .event (.headers ..) | .event (.bodies ..) | .newBlockHashes ..
 | .newBlock .. | .insert .. | .expire .. | .pop .. | .select=>.isTrue trivial

variable {P:Params W H Hd T} {s₀ t:Fetcher H ι Hd T} {g g':List (Announce H ι Hd)}
 {a:Action W H ι Hd T}

/-- The debts stay as they are, except where an announcement has been picked. -/
lemma settles_or_owes(h:Edit P s₀ a s g t g'):
 (Settles s t∧g'=g)∨(Owes s t∧¬(Prudent s₀ a∧Idle s∧g=[])):=by
 cases h with
 | phase | message | block | taken | pop | drop=>exact .inl ⟨settles_frame rfl,rfl⟩
 | forget hash=>exact .inl ⟨settles_forgetHash hash s,rfl⟩
 | forgetBlock hash=>exact .inl ⟨settles_forgetBlock hash s,rfl⟩
 | @notify n l now hn hl hcount=>
  refine .inl ⟨⟨fun p=>?_,fun h=>⟨h.queues,h.queues_le,fun p=>?_⟩,
   fun h=>⟨h.fetching,h.fetched,h.completing⟩⟩,rfl⟩
  ·have htotal:=@total_erase _ _ (listed p) _ s.announced n.2.1
   simp only[debt,held,total_insert,listed_append,listed_getD,listed_single,update_apply]
   by_cases heq:p=n.1
   ·subst heq
    simp only[if_true]
    omega
   simp only[if_neg heq,if_neg (Ne.symm heq)]
   omega
  have hle:=h.announces_le p
  simp only[update_apply]
  split
  ·exact hcount
  exact hle
 | @pick visit look b hact hlook hknown hdue hb=>
  refine .inr ⟨(settles_forgetHash look.hash s).owes.trans
   (owes_fetching b (AList.lookup_erase look.hash s.fetching)),fun hidle=>?_⟩
  subst hact
  rw[hidle.1 look hlook (by rw[hdue];rfl)]at hknown
  cases hknown
 | @move visit hash b hact hb=>
  refine .inr ⟨(settles_forgetHash hash s).owes.trans
   (owes_completing (AList.lookup_erase hash s.completing) _),fun hidle=>?_⟩
  rw[hidle.2.1.fetched]at hb
  cases hb
 | receive hact hb=>
  obtain⟨hfetching,-⟩:=requested_eq_some hb
  refine .inr ⟨owes_of_held (fun p=>Nat.le_of_eq (held_received hfetching _ _ p).symm) rfl rfl rfl,fun hidle=>?_⟩
  rw[hidle.2.1.fetching]at hfetching
  cases hfetching
 | finish hb hnew=>
  refine .inr ⟨owes_completing hnew _,fun hidle=>?_⟩
  rw[hidle.2.1.fetching]at hb
  cases hb
 | @schedule b header hb hheader=>
  refine .inr ⟨owes_of_held (fun p=>?_) rfl rfl rfl,fun hidle=>?_⟩
  ·have htotal:=@total_erase _ _ (listed p) _ s.fetched (P.hash header)
   simp only[held,total_insert,listed_append,listed_getD]
   omega
  rw[hidle.2.2]at hb
  cases hb
 | @enqueue op l hl hop hcount hnew=>
  refine .inl ⟨⟨fun _=>rfl,fun h=>⟨fun p=>?_,fun p=>?_,h.announces_le⟩,
   fun h=>⟨h.fetching,h.fetched,h.completing⟩⟩,rfl⟩
  ·have hqueues:=h.queues p
   simp only[stored,total_insert_new hnew,update_apply]at hqueues ⊢
   by_cases heq:p=op.origin
   ·subst heq
    simp only[if_true]
    omega
   simp only[if_neg heq,if_neg (Ne.symm heq)]
   omega
  have hle:=h.queues_le p
  simp only[update_apply]
  split
  ·exact hcount
  exact hle

lemma owes_edit(h:Edit P s₀ a s g t g'):Owes s t:=
 (settles_or_owes h).elim (·.1.owes) And.left

lemma owes_step(h:step P s a=some t):Owes s t:=by
 have hedit:∀{m g n g'},Owes s m→Edit P s a m g n g'→Owes s n:=fun hm he=>hm.trans (owes_edit he)
 exact (step_of_edit hedit (.refl s) h).choose_spec

/-- While nothing has been picked for fetching, what is not picked is counted rightly. -/
lemma settles_step_idle(hidle:Idle s)(hok:Prudent s a)(h:step P s a=some t):Settles s t:=by
 have hedit:∀{m g n g'},Settles s m∧g=[]→Edit P s a m g n g' → Settles s n∧g'=[]:=by
  intro m g n g' hm he
  obtain⟨hn,rfl⟩:=(settles_or_owes he).resolve_right (·.2 ⟨hok,hm.1.idle hidle,hm.2⟩)
  exact⟨hm.1.trans hn,hm.2⟩
 exact (step_of_edit hedit ⟨.refl s,rfl⟩ h).choose_spec.1

lemma owes_fetch(s:Fetcher H ι Hd T)(look:Look H):Owes s (fetch s look):=by
 unfold fetch
 split
 ·refine (settles_forgetHash look.hash s).owes.trans ?_
  dsimp only
  split
  ·exact .refl _
  exact owes_fetching _ (AList.lookup_erase look.hash s.fetching)
 exact .refl s

variable {visit:List (Look H)}

/-- The peer whose announcement is picked holds more beyond its counter. -/
lemma debt_fetchAll(hnodup:(visit.map Look.hash).Nodup){look:Look H}(hlook:look∈visit)
 {a:Announce H ι Hd}(ha:due look s=some a)(hknown:look.known=false):
 debt a.origin s<debt a.origin (visit.foldl fetch s):=by
 induction visit generalizing s with
 | nil=>exact absurd hlook not_mem_nil
 | cons l visit ih=>
  rw[map_cons,nodup_cons]at hnodup
  rw[foldl_cons]
  obtain rfl|hlook:=mem_cons.1 hlook
  ·refine Int.lt_of_lt_of_le ?_ ((owes_foldl owes_fetch visit _).debt a.origin)
   rw[debt_fetch ha hknown,listed_single,if_pos rfl]
   omega
  have hne:look.hash≠l.hash:=fun h=>hnodup.1 (h▸List.mem_map_of_mem hlook)
  exact Int.lt_of_le_of_lt ((owes_fetch s l).debt a.origin)
   (ih hnodup.2 hlook ((due_fetch hne s).trans ha))

lemma debt_step(hok:¬Prudent s a)(h:step P s a=some t):∃p,debt p s<debt p t:=by
 unfold Prudent at hok
 split at hok
 ·rename_i visit
  obtain⟨-,h⟩:=ite_none_right_eq_some.1 h
  obtain⟨m,hm,rfl⟩:=map_eq_some_iff.1 h
  obtain⟨hvisit,hm⟩:=ite_none_right_eq_some.1 hm
  cases hm
  simp only[not_forall]at hok
  obtain⟨look,hlook,hdue,hknown⟩:=hok
  obtain⟨a,ha⟩:=isSome_iff_exists.1 hdue
  exact⟨a.origin,debt_fetchAll (hvisit.nodup_iff.2 s.announced.keys_nodup) hlook ha
   (Bool.eq_false_iff.2 hknown)⟩
 exact absurd trivial hok

lemma quiet_step(hs:Quiet s)(h:step P s a=some t)(hok:Prudent s a):Quiet t:=by
 have hsettles:=settles_step_idle hs.toIdle hok h
 exact⟨hsettles.idle hs.toIdle,fun p=>(hsettles.debt p).trans (hs.debt p)⟩

lemma owed_step(hs:Quiet s)(h:step P s a=some t)(hok:¬Prudent s a):∃p,0<debt p t:=by
 obtain⟨p,hp⟩:=debt_step hok h
 exact⟨p,hs.debt p▸hp⟩

lemma coherent_step(hs:Coherent s)(h:step P s a=some t):Coherent t:=by
 refine⟨(owes_step h).sound hs.toSound,?_⟩
 obtain hquiet|⟨p,hp⟩:=hs.owed
 ·by_cases hok:Prudent s a
  ·exact .inl (quiet_step hquiet h hok)
  exact .inr (owed_step hquiet h hok)
 exact .inr ⟨p,Int.lt_of_lt_of_le hp ((owes_step h).debt p)⟩

/-- In a run of the fetcher the counters are right in every state exactly when no announcement is
ever picked for fetching. -/
theorem accounted_throughout_iff {actions : List (Action W H ι Hd T)}
    (hrun : exec (step P) (new H ι Hd T) actions = some t) :
    Throughout (step P) Accounted (new H ι Hd T) actions ↔
      Careful (step P) Prudent (new H ι Hd T) actions := by
 have hiff:=@throughout_iff_careful _ _ (step P) Coherent (¬Accounted ·) Prudent
  (fun s a m hs hm=>coherent_step hs hm) ?_ _ t actions hrun coherent_new
  (not_not.2 ((accounted_iff coherent_new).2 quiet_new))
 · simpa only[not_not] using hiff
 intro s a m hs hgood hm
 have hquiet:=(accounted_iff hs).1 (not_not.1 hgood)
 rw[not_not,accounted_iff (coherent_step hs hm)]
 refine⟨fun hm'=>?_,quiet_step hquiet hm⟩
 by_contra hok
 obtain⟨p,hp⟩:=owed_step hquiet hm hok
 exact absurd (hm'.debt p) (Int.ne_of_gt hp)

theorem accounted_when_known : ∃ t,
    exec (step sampleParams) (new ℕ ℕ ℕ ℕ) (announceFive (.blocks [(5, 5)]) true) = some t ∧
      Throughout (step sampleParams) Accounted (new ℕ ℕ ℕ ℕ)
        (announceFive (.blocks [(5, 5)]) true) := by
 have hrun:(exec (step sampleParams) (new ℕ ℕ ℕ ℕ)
  (announceFive (.blocks [(5,5)]) true)).isSome:=by decide +kernel
 obtain⟨t,hrun⟩:=isSome_iff_exists.1 hrun
 exact⟨t,hrun,(accounted_throughout_iff hrun).2 (by decide +kernel)⟩

/-- A fetch that is picked and then expires is counted down twice. -/
theorem counter_negative : ∃ t,
    exec (step sampleParams) (new ℕ ℕ ℕ ℕ)
      (announceFive (.blocks [(5, 5)]) false ++ [.expire [(5, 10000000000)] 0]) = some t ∧
      t.announces 1 = -1 ∧ ¬Accounted t := by
 have hrun:(exec (step sampleParams) (new ℕ ℕ ℕ ℕ)
  (announceFive (.blocks [(5,5)]) false++[.expire [(5,10000000000)] 0])).map (·.announces 1) =
  some (-1):=by decide +kernel
 obtain⟨t,hrun,hcount⟩:=map_eq_some_iff.1 hrun
 refine⟨t,hrun,hcount,fun h=>?_⟩
 have hnonneg:=(h.nonneg 1).1
 rw[hcount] at hnonneg
 exact absurd hnonneg (by decide)

end GoCoupe.FetcherAccounting
