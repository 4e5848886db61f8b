import GoCoupe.FetcherMoves

/-!
# What the block fetcher cleans up

The clean-up looks at the hashes that are being fetched. A hash whose body has been requested is
not among them any more, and stays until its block arrives.
-/

namespace GoCoupe.FetcherCleaning
open GuardedRuns MapIteration BlockFetching FetcherMoves List Option AList

variable {W H ι Hd T:Type} [DecidableEq H]

/-- The announcements on behalf of which a hash is fetched or its block completed. -/
def stages (hash:H) (s:Fetcher H ι Hd T):List (Announce H ι Hd):=
 (s.fetching.lookup hash).toList++(s.fetched.lookup hash).getD []++(s.completing.lookup hash).toList

/-- Whatever is done with a hash that is being fetched began at the time of the fetch. -/
def Tied (s:Fetcher H ι Hd T):Prop:=
 ∀hash b,s.fetching.lookup hash=some b→∀a∈stages hash s,a.time=b.time

lemma mem_stages{s:Fetcher H ι Hd T}{hash:H}:
 a∈stages hash s↔s.fetching.lookup hash=some a∨a∈(s.fetched.lookup hash).getD []∨
  s.completing.lookup hash=some a:=by
 simp[stages]

def view (hash:H) (s:Fetcher H ι Hd T):=
 (s.fetching.lookup hash,s.fetched.lookup hash,s.completing.lookup hash)

lemma stages_congr{s t:Fetcher H ι Hd T}{hash:H}(h:view hash t=view hash s):
 stages hash t=stages hash s:=by
 simp only[view,Prod.mk.injEq]at h
 rw[stages,stages,h.1,h.2.1,h.2.2]

variable {P:Params W H Hd T} {s₀ s t:Fetcher H ι Hd T} {act:Action W H ι Hd T}
 {g g':List (Announce H ι Hd)} {hash k:H}

/-- The headers that have arrived came at the time of their action. -/
structure TiedAll (P:Params W H Hd T) (act:Action W H ι Hd T) (s:Fetcher H ι Hd T)
 (g:List (Announce H ι Hd)):Prop where
 tied:Tied s
 arrived:∀a∈g,∃batch heights,act=.event (.headers a.time batch heights)
 fetched:∀a∈g,∀header,a.header=some header →
  ∀b,s.fetching.lookup (P.hash header)=some b→a.time=b.time

/-- An edit that shows at one hash only. -/
lemma TiedAll.touch(h:TiedAll P act s g)(hash:H)(hother:∀k≠hash,view k t=view k s)
 (hhere:∀b,t.fetching.lookup hash=some b→(∀a∈stages hash t,a.time=b.time)∧
  ∀a∈g,∀header,a.header=some header→P.hash header=hash→a.time=b.time):
 TiedAll P act t g where
 tied k b hb a ha:=by
  by_cases hk:k=hash
  ·subst hk
   exact (hhere b hb).1 a ha
  rw[stages_congr (hother k hk)]at ha
  exact h.tied k b ((congrArg Prod.fst (hother k hk)).symm.trans hb) a ha
 arrived:=h.arrived
 fetched a ha header hheader b hb:=by
  by_cases hk:P.hash header=hash
  ·exact (hhere b (hk▸hb)).2 a ha header hheader hk
  exact h.fetched a ha header hheader b ((congrArg Prod.fst (hother _ hk)).symm.trans hb)

lemma TiedAll.frame(h:TiedAll P act s g)(hview:∀k,view k t=view k s):TiedAll P act t g where
 tied k b hb a ha:=by
  rw[stages_congr (hview k)]at ha
  exact h.tied k b ((congrArg Prod.fst (hview k)).symm.trans hb) a ha
 arrived:=h.arrived
 fetched a ha header hheader b hb:=
  h.fetched a ha header hheader b ((congrArg Prod.fst (hview _)).symm.trans hb)

variable [DecidableEq ι]

lemma view_forgetHash_ne(h:k≠hash):view k (forgetHash hash s)=view k s:=by
 simp[view,forgetHash,lookup_erase_ne h]

lemma view_forgetHash_self:view hash (forgetHash hash s)=(none,none,none):=by
 simp[view,forgetHash]

lemma tiedAll_edit(h:TiedAll P act s g)(he:Edit P s₀ act s g t g'):TiedAll P act t g':=by
 cases he with
 | phase | message | block | taken | notify | enqueue | pop | drop=>exact h.frame (fun _=>rfl)
 | forgetBlock hash=>
  refine h.frame (fun k=>?_)
  unfold forgetBlock
  split<;>rfl
 | forget hash=>
  refine h.touch hash (fun _ hk=>view_forgetHash_ne hk) (fun b hb=>?_)
  rw[forgetHash,lookup_erase]at hb
  cases hb
 | @pick visit look a hact hlook hknown hdue ha=>
  refine h.touch look.hash (fun k hk=>?_) (fun b hb=>⟨fun c hc=>?_,fun c hc=>?_⟩)
  ·simp[view,forgetHash,lookup_erase_ne hk,lookup_insert_ne hk]
  ·simp only[lookup_insert,some.injEq]at hb
   simp[stages,forgetHash]at hc
   rw[hc,hb]
  obtain⟨batch,heights,hheaders⟩:=h.arrived c hc
  cases hact.symm.trans hheaders
 | @move visit hash a hact ha=>
  refine h.touch hash (fun k hk=>?_) (fun b hb=>?_)
  ·simp[view,forgetHash,lookup_erase_ne hk,lookup_insert_ne hk]
  rw[forgetHash,lookup_erase]at hb
  cases hb
 | @receive time batch heights b a hact ha=>
  obtain⟨-,hfetched,hcompleting⟩:=requested_eq_some ha
  have hold:TiedAll P act {s with
   fetching:=s.fetching.insert (P.hash b.1) {a with header:=some b.1,time:=time}} g:=by
   refine h.touch (P.hash b.1) (fun k hk=>?_) (fun c hc=>⟨fun d hd=>?_,fun d hd _ _ _=>?_⟩)
   ·simp[view,lookup_insert_ne hk]
   ·simp only[lookup_insert,some.injEq]at hc
    simp[stages,hfetched,hcompleting]at hd
    rw[hd,hc]
   simp only[lookup_insert,some.injEq]at hc
   obtain⟨batch,heights,hheaders⟩:=h.arrived d hd
   cases hact.symm.trans hheaders
   rw[←hc]
  refine⟨hold.tied,forall_mem_append.2 ⟨hold.arrived,?_⟩,forall_mem_append.2 ⟨hold.fetched,?_⟩⟩
  ·exact forall_mem_singleton.2 ⟨batch,heights,hact⟩
  refine forall_mem_singleton.2 (fun header hheader c hc=>?_)
  obtain rfl:=some.inj hheader
  simp only[lookup_insert,some.injEq]at hc
  rw[←hc]
 | @finish hash a ha hnew=>
  refine h.touch hash (fun k hk=>?_) (fun b hb=>⟨fun c hc=>?_,fun c hc header hheader hk=>?_⟩)
  ·simp[view,lookup_insert_ne hk]
  ·rw[mem_stages]at hc
   obtain hc|hc|hc:=hc
   ·exact h.tied hash b hb c (mem_stages.2 (.inl hc))
   ·exact h.tied hash b hb c (mem_stages.2 (.inr (.inl hc)))
   rw[lookup_insert,some.injEq]at hc
   rw[←hc,some.inj (ha.symm.trans hb)]
  exact h.fetched c hc header hheader b (hk▸hb)
 | @schedule a header ha hheader=>
  refine h.touch (P.hash header) (fun k hk=>?_) (fun b hb=>⟨fun c hc=>?_,fun c hc d hd hk=>?_⟩)
  ·simp[view,lookup_insert_ne hk]
  ·rw[mem_stages]at hc
   obtain hc|hc|hc:=hc
   ·exact h.tied _ b hb c (mem_stages.2 (.inl hc))
   ·obtain hc|⟨-,rfl⟩:=mem_append_cases hc
    ·exact h.tied _ b hb c (mem_stages.2 (.inr (.inl hc)))
    exact h.fetched c ha header hheader b hb
   exact h.tied _ b hb c (mem_stages.2 (.inr (.inr hc)))
  exact h.fetched c hc d hd b (hk▸hb)

lemma tied_step(hs:Tied s)(h:step P s act=some t):Tied t:=by
 have hedit:∀{m g n g'},TiedAll P act m g→Edit P s act m g n g'→TiedAll P act n g':=tiedAll_edit
 exact (step_of_edit hedit ⟨hs,fun _ ha=>absurd ha not_mem_nil,fun _ ha=>absurd ha not_mem_nil⟩
  h).choose_spec.tied

omit [DecidableEq ι] in
lemma tied_new:Tied (new H ι Hd T):=fun _ _ h=>absurd h nofun

section Expiry

variable {visit:List (H × ℤ)} {now:ℤ}

/-- What the clean-up leaves of a hash. -/
lemma view_expire(k:H)(look:H × ℤ)(s:Fetcher H ι Hd T):view k (expire s look) =
 if k=look.1∧(s.fetching.lookup k).any (look.2-·.time>fetchTimeout) then
  (none,none,none) else view k s:=by
 unfold expire
 by_cases hk:k=look.1
 ·subst hk
  cases hb:s.fetching.lookup look.1 with
  | none=>simp
  | some b=>
   dsimp only
   split
   ·rename_i hold
    simp[hold,view_forgetHash_self]
   rename_i hnew
   simp[hnew]
 simp only[hk,false_and,if_false]
 split
 ·split
  ·exact view_forgetHash_ne hk
  rfl
 rfl

lemma queued_expire(look:H × ℤ)(s:Fetcher H ι Hd T):(expire s look).queued=s.queued:=by
 unfold expire
 split
 ·split<;>rfl
 rfl

/-- The clean-up forgets exactly the hashes whose fetch is too old. -/
lemma expireAll_spec(hvisit:Visits (visit.map Prod.fst) s.fetching)
 (hnow:∀look∈visit,look.2=now):(visit.foldl expire s).queued=s.queued∧∀k,
  view k (visit.foldl expire s) =
   if (s.fetching.lookup k).any (now-·.time>fetchTimeout) then (none,none,none)
   else view k s:=by
 have hnodup:(visit.map Prod.fst).Nodup:=hvisit.nodup_iff.2 s.fetching.keys_nodup
 have hlocal:=@foldl_local H (H × ℤ) (Fetcher H ι Hd T) _ Prod.fst expire view
  (·.queued=s.queued) visit hnodup s ?_ rfl
 ·obtain⟨hqueued,hturns,hrest⟩:=hlocal
  refine⟨hqueued,fun k=>?_⟩
  by_cases hk:k∈visit.map Prod.fst
  ·obtain⟨look,hlook,rfl⟩:=List.mem_map.1 hk
   obtain⟨t,-,hview,hend⟩:=hturns look hlook
   have hfetching:t.fetching.lookup look.1=s.fetching.lookup look.1:=congrArg Prod.fst hview
   rw[hend,view_expire,hview,hfetching,hnow look hlook]
   simp
  have hnone:s.fetching.lookup k=none:=by
   rw[lookup_eq_none]
   exact fun hmem=>hk (hvisit.mem_iff.2 hmem)
  rw[hrest k hk,hnone]
  rfl
 intro t look ht hlook hview
 refine⟨(queued_expire look t).trans ht,fun k hk=>?_⟩
 rw[view_expire,if_neg (hk ·.1)]

/-- A hash that is neither fetched nor completed is announced anew. -/
lemma notify_files(hview:view hash s=(none,none,none))
 (hcount:s.announces peer+1≤hashLimit)(hnear:¬(number>0∧tooDistant number height)):
 ⟨hash,number,none,time,peer⟩∈
  ((notify peer hash number time height s).announced.lookup hash).getD []:=by
 simp only[view,Prod.mk.injEq]at hview
 rw[notify,if_neg (Int.not_lt.2 hcount),if_neg hnear,hview.1,hview.2.2,if_neg (by simp)]
 simp

end Expiry

/-- After a clean-up of any run nothing is held for longer than the timeout exactly when nothing
is that has left the fetching stage; and a hash that is forgotten can be announced again. -/
theorem cleaned_iff {actions : List (Action W H ι Hd T)}
    (hrun : exec (step P) (new H ι Hd T) actions = some s) {visit : List (H × ℤ)}
    {height : UInt64} {now : ℤ} (hnow : ∀ look ∈ visit, look.2 = now)
    (hstep : step P s (.expire visit height) = some t) :
    ((∀ hash, t.queued.lookup hash = none → ∀ a ∈ stages hash t, now - a.time ≤ fetchTimeout) ↔
      ∀ hash, s.fetching.lookup hash = none → s.queued.lookup hash = none →
        ∀ a ∈ stages hash s, now - a.time ≤ fetchTimeout) ∧
    ∀ hash b, s.fetching.lookup hash = some b → now - b.time > fetchTimeout →
      ∀ peer number time height, t.announces peer + 1 ≤ hashLimit →
        ¬(number > 0 ∧ tooDistant number height) →
        ⟨hash, number, none, time, peer⟩ ∈
          ((notify peer hash number time height t).announced.lookup hash).getD [] := by
 have htied:Tied s:=exec_invariant (fun _ _ _ hs hm=>tied_step hs hm) tied_new hrun
 obtain⟨⟨-,hvisit⟩,rfl⟩:=of_guarded hstep
 obtain⟨hqueued,hview⟩:=expireAll_spec hvisit hnow
 refine⟨⟨fun h hash hnone hfree a ha=>?_,fun h hash hfree a ha=>?_⟩,fun hash b hb hold=>?_⟩
 · have hsame:=hview hash
   rw[hnone,any_none,if_neg Bool.false_ne_true] at hsame
   refine h hash (hqueued▸hfree) a ?_
   rw[←stages_congr hsame] at ha
   exact ha
 · have hsame:=hview hash
   cases hb:s.fetching.lookup hash with
   | none=>
    rw[hb,any_none,if_neg Bool.false_ne_true] at hsame
    exact h hash hb (hqueued▸hfree) a (stages_congr hsame▸ha)
   | some b=>
    rw[hb,any_some] at hsame
    by_cases hold:now-b.time>fetchTimeout
    · rw[if_pos (decide_eq_true hold)] at hsame
      simp only[view,Prod.mk.injEq] at hsame
      simp[stages,hsame] at ha
    rw[if_neg (by simpa using hold)] at hsame
    rw[htied hash b hb a (stages_congr hsame▸ha)]
    exact Int.not_lt.1 hold
 intro peer number time height hcount hnear
 have hsame:=hview hash
 rw[hb,any_some,if_pos (decide_eq_true hold)] at hsame
 exact notify_files hsame hcount hnear

/-- A fetch of block 5 that is not answered is forgotten. -/
theorem cleaned_fetch : ∃ s t,
    exec (step sampleParams) (new ℕ ℕ ℕ ℕ) (announceFive (.blocks [(5, 5)]) false) = some s ∧
    step sampleParams s (.expire [(5, 10000000000)] 0) = some t ∧
    ∀ hash, t.queued.lookup hash = none → ∀ a ∈ stages hash t,
      10000000000 - a.time ≤ fetchTimeout := by
 have hrun:((exec (step sampleParams) (new ℕ ℕ ℕ ℕ) (announceFive (.blocks [(5,5)]) false)).bind
  (fun s=>(step sampleParams s (.expire [(5,10000000000)] 0)).map
   (fun _=>(s.fetched.entries,s.completing.entries))))=some ([],[]):=by decide +kernel
 obtain⟨s,hs,hrun⟩:=bind_eq_some_iff.1 hrun
 obtain⟨t,ht,hempty⟩:=map_eq_some_iff.1 hrun
 obtain⟨hfetched,hcompleting⟩:=Prod.mk.inj hempty
 refine⟨s,t,hs,ht,(cleaned_iff hs (fun _ h=>by rw[mem_singleton.1 h]) ht).1.2 ?_⟩
 intro hash hnone _ a ha
 rw[stages,hnone] at ha
 simp[AList.lookup,hfetched,hcompleting] at ha

/-- The header of block 5 arrives, its body is requested and never sent. -/
def withheld:List (Action Unit ℕ ℕ ℕ ℕ):=
 announceFive (.blocks [(5,5)]) false++[.expire [(5,500000000)] 0,.select,
  .event (.headers 500000000 [(5,false)] (fun _=>0)),.expire [(5,500000000)] 0,.select,
  .event (.completeTick [⟨5,600000000,0,false⟩])]

/-- The hash is still held at any later time, and announcements of it are refused. -/
theorem body_withheld : ∃ s t,
    exec (step sampleParams) (new ℕ ℕ ℕ ℕ) withheld = some s ∧
    step sampleParams s (.expire [] 0) = some t ∧ t.queued.lookup 5 = none ∧
    (∃ a ∈ stages 5 t, 10000000000 - a.time > fetchTimeout) ∧
    (notify 2 5 5 10000000000 0 t).announced.lookup 5 = none := by
 have hrun:((exec (step sampleParams) (new ℕ ℕ ℕ ℕ) withheld).bind (fun s=>
  (step sampleParams s (.expire [] 0)).map (fun t=>(t.queued.lookup 5,
   (stages 5 t).map Announce.time,(notify 2 5 5 10000000000 0 t).announced.lookup 5)))) =
  some (none,[500000000],none):=by decide +kernel
 obtain⟨s,hs,hrun⟩:=bind_eq_some_iff.1 hrun
 obtain⟨t,ht,heq⟩:=map_eq_some_iff.1 hrun
 simp only[Prod.mk.injEq,List.map_eq_singleton_iff] at heq
 obtain⟨hqueued,⟨a,ha,htime⟩,hrefused⟩:=heq
 refine⟨s,t,hs,ht,hqueued,⟨a,ha▸mem_singleton_self a,?_⟩,hrefused⟩
 rw[htime,fetchTimeout]
 decide

end GoCoupe.FetcherCleaning
