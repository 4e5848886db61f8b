import GoCoupe.BlockFetching
import Mathlib.Logic.Relation

/-!
# What an action of the block fetcher does

Every action is a sequence of small edits of the fetcher, and beside it stand the announcements
whose header has arrived in the action. An invariant is proved edit by edit.
-/

namespace GoCoupe.FetcherMoves
open GuardedRuns MapIteration BlockFetching List Option Relation Function AList

variable {W H ι Hd T:Type} [DecidableEq H]

variable {r s:Fetcher H ι Hd T} {hash:H} {a:Announce H ι Hd}

lemma mem_traces:a∈traces hash s↔a∈(s.announced.lookup hash).getD []∨s.fetching.lookup hash=some a∨
  a∈(s.fetched.lookup hash).getD []∨s.completing.lookup hash=some a:=by
 simp[traces]

lemma traces_fetching(hb:b∈traces k {s with fetching:=s.fetching.insert hash a}):
 b∈traces k s∨(k=hash∧b=a):=by
 rw[mem_traces]at hb ⊢
 obtain hb|hb|hb:=hb
 ·exact .inl (.inl hb)
 ·exact (lookup_insert_cases hb).imp_left (fun hb=>.inr (.inl hb))
 exact .inl (.inr (.inr hb))

lemma traces_completing(hb:b∈traces k {s with completing:=s.completing.insert hash a}):
 b∈traces k s∨(k=hash∧b=a):=by
 rw[mem_traces]at hb ⊢
 obtain hb|hb|hb|hb:=hb
 ·exact .inl (.inl hb)
 ·exact .inl (.inr (.inl hb))
 ·exact .inl (.inr (.inr (.inl hb)))
 exact (lookup_insert_cases hb).imp_left (fun hb=>.inr (.inr (.inr hb)))

lemma requested_eq_some(h:requested hash s=some a):s.fetching.lookup hash=some a∧s.fetched.lookup hash=none∧
 s.completing.lookup hash=none:=by
 obtain⟨⟨hfetched,hcompleting,-⟩,hfetching⟩:=ite_none_right_eq_some.1 h
 exact⟨hfetching,isNone_iff_eq_none.1 hfetched,isNone_iff_eq_none.1 hcompleting⟩

lemma fetching_mem(s:Fetcher H ι Hd T)(hash:H)(a:Announce H ι Hd)
 (h:s.fetching.lookup hash=some a):a∈traces hash s:=mem_traces.2 (.inr (.inl h))

lemma completing_mem(s:Fetcher H ι Hd T)(hash:H)(a:Announce H ι Hd)
 (h:s.completing.lookup hash=some a):a∈traces hash s:=mem_traces.2 (.inr (.inr (.inr h)))

lemma mem_of_getD:(first::rest).getD k first∈first::rest:=by
 rw[getD_eq_getElem?_getD]
 cases hget:(first::rest)[k]? with
 | none=>exact mem_cons_self
 | some a=>exact mem_of_getElem? hget

lemma mem_of_due(h:due look s=some a):a∈(s.announced.lookup look.hash).getD []:=by
 unfold due at h
 split at h
 ·rename_i first rest hlookup
  obtain⟨-,h⟩:=ite_none_right_eq_some.1 h
  rw[hlookup,←some.inj h]
  exact mem_of_getD
 cases h

/-- What is requested was requested when the headers arrived. -/
def Tracks (r s:Fetcher H ι Hd T):Prop:=∀hash,∀a∈requested hash s,∃b∈requested hash r,
 b.origin=a.origin ∧ b.number=a.number

lemma Tracks.receive(h:Tracks r s){b:Announce H ι Hd}
 (ha:requested hash s=some a)(hb:b.origin=a.origin∧b.number=a.number):
 Tracks r {s with fetching:=s.fetching.insert hash b}:=by
 intro k c hc
 by_cases hk:k=hash
 ·subst hk
  have hc:=(requested_eq_some hc).1
  rw[lookup_insert,Option.some.injEq]at hc
  obtain⟨a₀,ha0,horigin,hnumber⟩:=h _ a ha
  rw[←hc,hb.1,hb.2]
  exact⟨a₀,ha0,horigin,hnumber⟩
 refine h k c ?_
 simpa only[requested,lookup_insert_ne hk]using hc

lemma Tracks.finish(h:Tracks r s):Tracks r {s with completing:=s.completing.insert hash a}:=by
 intro k c hc
 have hne:k≠hash:=by
  rintro rfl
  simp[requested]at hc
 refine h k c ?_
 simpa only[requested,lookup_insert_ne hne]using hc

variable [DecidableEq ι]

section Edits

variable (P:Params W H Hd T) (s₀:Fetcher H ι Hd T) (act:Action W H ι Hd T)

/-- Why a peer is dropped: its block is invalid, or a header has not the number it announced. -/
def Blamed (peer:ι):Prop:=
 (∃op∈s₀.inserting,∃parent world,op.origin=peer ∧ P.hash parent=P.parentHash op.block.header ∧
  P.validateBlock world op.block.header parent=.invalid) ∨
 ∃time batch heights,act=.event (.headers time batch heights) ∧ ∃b∈batch,
  ∃a∈requested (P.hash b.1) s₀,a.origin=peer ∧ P.number b.1≠a.number

/-- An edit of `s` while `act` is taken in `s₀`, where the headers of `g` have arrived. -/
inductive Edit (s:Fetcher H ι Hd T) (g:List (Announce H ι Hd)) :
 Fetcher H ι Hd T→List (Announce H ι Hd)→Prop
 | phase (phase:Phase):Edit s g {s with phase:=phase} g
 | message {peer:ι} {message:NewBlockHashes H} {known:H→Bool} {l:List (ι × H × UInt64)}
  (hact:act=.newBlockHashes peer message known)
  (hl:∀n∈l,n.1=peer ∧ n.2∈message.announces) :
  Edit s g {s with notifying:=s.notifying++l} g
 | block {peer:ι} {block:Block Hd T} (hact:act=.newBlock peer block) :
  Edit s g {s with injecting:=s.injecting++[⟨peer,block⟩]} g
 | taken {notifying:List (ι × H × UInt64)} {injecting queue inserting:List (Inject ι Hd T)}
  (finished:List H) (hnotifying:notifying⊆s.notifying) (hinjecting:injecting⊆s.injecting)
  (hqueue:queue⊆s.queue) (hinserting:inserting⊆s.inserting) :
  Edit s g {s with
   notifying:=notifying,injecting:=injecting,queue:=queue,inserting:=inserting
   finished:=finished} g
 | forget (hash:H):Edit s g (forgetHash hash s) g
 | forgetBlock (hash:H):Edit s g (forgetBlock hash s) g
 | notify {n:ι × H × UInt64} {l:List (ι × H × UInt64)} (now:ℤ) (hn:n∈s.notifying)
  (hl:l⊆s.notifying) (hcount:s.announces n.1+1≤hashLimit) :
  Edit s g {s with
   notifying:=l
   announces:=update s.announces n.1 (s.announces n.1+1)
   announced:=s.announced.insert n.2.1
    ((s.announced.lookup n.2.1).getD []++[⟨n.2.1,n.2.2,none,now,n.1⟩])} g
 | pick {visit:List (Look H)} {look:Look H} {a:Announce H ι Hd}
  (hact:act=.event (.fetchTick visit)) (hlook:look∈visit) (hknown:look.known=false)
  (hdue:due look s₀=some a) (ha:a∈(s.announced.lookup look.hash).getD []) :
  Edit s g {forgetHash look.hash s with
   fetching:=(forgetHash look.hash s).fetching.insert look.hash a} g
 | move {visit:List (Look H)} {hash:H} {a:Announce H ι Hd}
  (hact:act=.event (.completeTick visit)) (ha:a∈(s.fetched.lookup hash).getD []) :
  Edit s g {forgetHash hash s with
   completing:=(forgetHash hash s).completing.insert hash a} g
 | receive {time:ℤ} {batch:List (Hd × Bool)} {heights:ℕ→UInt64} {b:Hd × Bool}
  {a:Announce H ι Hd} (hact:act=.event (.headers time batch heights))
  (ha:requested (P.hash b.1) s=some a) :
  Edit s g {s with
   fetching:=s.fetching.insert (P.hash b.1) {a with header:=some b.1,time:=time}}
   (g++[{a with header:=some b.1,time:=time}])
 | finish {hash:H} {a:Announce H ι Hd} (ha:s.fetching.lookup hash=some a)
  (hnew:s.completing.lookup hash=none) :
  Edit s g {s with completing:=s.completing.insert hash a} g
 | schedule {a:Announce H ι Hd} {header:Hd} (ha:a∈g) (hheader:a.header=some header) :
  Edit s g {s with
   fetched:=s.fetched.insert (P.hash header)
    ((s.fetched.lookup (P.hash header)).getD []++[a])} g
 | enqueue {op:Inject ι Hd T} {l:List (Inject ι Hd T)} (hl:l⊆s.injecting)
  (hop:op∈s.injecting ∨ ∃a∈traces (P.hash op.block.header) s,a.origin=op.origin)
  (hcount:s.queues op.origin+1≤blockLimit)
  (hnew:s.queued.lookup (P.hash op.block.header)=none) :
  Edit s g {s with
   injecting:=l
   queues:=update s.queues op.origin (s.queues op.origin+1)
   queued:=s.queued.insert (P.hash op.block.header) op
   queue:=s.queue++[op]} g
 | pop {op:Inject ι Hd T} (k:ℕ) (hop:op∈s.queue) :
  Edit s g {s with queue:=s.queue.eraseIdx k,inserting:=s.inserting++[op]} g
 | drop {peer:ι} (hpeer:Blamed P s₀ act peer):Edit s g {s with dropped:=s.dropped++[peer]} g

def Edits (s:Fetcher H ι Hd T) (g:List (Announce H ι Hd)) (t:Fetcher H ι Hd T)
 (g':List (Announce H ι Hd)):Prop:=
 ReflTransGen (fun x y:Fetcher H ι Hd T × List (Announce H ι Hd)=>
  Edit P s₀ act x.1 x.2 y.1 y.2) (s,g) (t,g')

end Edits

variable {P:Params W H Hd T} {s₀ t u:Fetcher H ι Hd T} {act:Action W H ι Hd T}
 {g g' g'':List (Announce H ι Hd)}

lemma Edits.refl:Edits P s₀ act s g s g:=ReflTransGen.refl

lemma Edits.edit(h:Edits P s₀ act s g t g')(he:Edit P s₀ act t g' u g''):
 Edits P s₀ act s g u g'':=ReflTransGen.tail h he

lemma Edits.trans(h:Edits P s₀ act s g t g')(h':Edits P s₀ act t g' u g''):
 Edits P s₀ act s g u g'':=ReflTransGen.trans h h'

lemma edits_enqueue(op:Inject ι Hd T)(hl:l⊆s.injecting)
 (hop:op∈s.injecting∨∃a∈traces (P.hash op.block.header) s,a.origin=op.origin)(height:UInt64):
 Edits P s₀ act s g (enqueue P height op.origin op.block {s with injecting:=l}) g:=by
 have htaken:Edits P s₀ act s g {s with injecting:=l} g:=
  Edits.refl.edit (.taken s.finished (Subset.refl _) hl (Subset.refl _) (Subset.refl _))
 unfold enqueue
 dsimp only
 split
 ·exact htaken.edit (.forget _)
 split
 ·exact htaken.edit (.forget _)
 split
 ·exact htaken
 rename_i hcount _ _ hnew
 exact Edits.refl.edit (.enqueue hl hop (Int.not_lt.1 hcount) hnew)

/-- The blocks are queued for the announcers of their hashes. -/
lemma edits_enqueueAll
 (hawaited:∀s hash a,(awaited s).lookup hash=some a→a∈traces hash s)(heights:ℕ→UInt64)
 (blocks:List (Block Hd T))(s:Fetcher H ι Hd T):
 Edits P s₀ act s g (enqueueAll P awaited heights blocks s) g:=by
 refine foldlRecOn (motive:=fun t=>Edits P s₀ act s g t g) blocks.zipIdx _ .refl ?_
 intro t ht b _
 split
 ·rename_i a ha
  exact ht.trans (edits_enqueue ⟨a.origin,b.1⟩ (Subset.refl _) (.inr ⟨a,hawaited t _ a ha,rfl⟩) _)
 exact ht

lemma edits_filterBlocks(batch:List (Block Hd T × Bool))(heights:ℕ→UInt64):
 Edits P s₀ act s g (filterBlocks P batch heights s) g:=by
 refine Edits.trans ?_ (edits_enqueueAll fetching_mem _ _ _)
 refine foldlRecOn (motive:=fun r=>Edits P s₀ act s g r.fetcher g) batch (filterBlock P)
  ?_ ?_
 ·exact .refl
 intro r hr b _
 unfold filterBlock
 dsimp only
 split
 ·split
  ·exact hr.edit (.forget _)
  exact hr
 exact hr

lemma due_fetch(hne:look.hash≠l.hash)(s:Fetcher H ι Hd T):due look (fetch s l)=due look s:=by
 have hlookup:(fetch s l).announced.lookup look.hash=s.announced.lookup look.hash:=by
  unfold fetch
  split
  ·dsimp only
   split<;>exact lookup_erase_ne hne
  rfl
 rw[due,due,hlookup]

lemma edits_fetch(hact:act=.event (.fetchTick visit))
 (hlook:look∈visit)(hdue:due look s=due look s₀):Edits P s₀ act s g (fetch s look) g:=by
 unfold fetch
 split
 ·rename_i a ha
  dsimp only
  split
  ·exact Edits.refl.edit (.forget _)
  rename_i hknown
  exact Edits.refl.edit (.pick hact hlook (Bool.eq_false_iff.2 hknown) (hdue▸ha) (mem_of_due ha))
 exact .refl

/-- The hashes that are visited differ, so what is due does not change before its turn. -/
lemma edits_fetchAll{visit all:List (Look H)}(hact:act=.event (.fetchTick all))
 (hvisit:visit⊆all)(hnodup:(visit.map Look.hash).Nodup)
 (hdue:∀look∈visit,due look s=due look s₀):
 Edits P s₀ act s g (visit.foldl fetch s) g:=by
 induction visit generalizing s with
 | nil=>exact .refl
 | cons l visit ih=>
  rw[map_cons,nodup_cons]at hnodup
  rw[cons_subset]at hvisit
  refine (edits_fetch hact hvisit.1 (hdue l mem_cons_self)).trans
   (ih hvisit.2 hnodup.2 (fun look hlook=>?_))
  rw[due_fetch (fun h=>hnodup.1 (h▸mem_map_of_mem hlook))]
  exact hdue look (mem_cons_of_mem _ hlook)

lemma edits_completeAll{visit all:List (Look H)}(hact:act=.event (.completeTick all)):
 Edits P s₀ act s g (visit.foldl complete s) g:=by
 refine foldlRecOn (motive:=fun t=>Edits P s₀ act s g t g) visit _ .refl ?_
 intro t ht look _
 unfold complete
 split
 ·rename_i first rest hlookup
  dsimp only
  split
  ·exact ht.edit (.forget _)
  refine ht.edit (.move hact ?_)
  rw[hlookup]
  exact mem_of_getD
 exact ht

lemma Tracks.forgetHash(h:Tracks s₀ s)(hash:H):Tracks s₀ (forgetHash hash s):=by
 intro k a ha
 have hne:k≠hash:=by
  rintro rfl
  simp[requested,BlockFetching.forgetHash]at ha
 refine h k a ?_
 simpa only[requested,BlockFetching.forgetHash,lookup_erase_ne hne]using ha

/-- The loop over the headers, with what has arrived. -/
structure Filtered (P:Params W H Hd T) (s₀:Fetcher H ι Hd T) (act:Action W H ι Hd T)
 (r:HeaderFiltering H ι Hd T) (g:List (Announce H ι Hd)):Prop where
 edits:Edits P s₀ act s₀ [] r.fetcher g
 tracks:Tracks s₀ r.fetcher
 incomplete:r.incomplete⊆g

lemma filtered_filterHeader
 {r:HeaderFiltering H ι Hd T}(hact:act=.event (.headers time batch heights))
 (hb:b∈batch)(h:Filtered P s₀ act r g):∃g',Filtered P s₀ act (filterHeader P time r b) g':=by
 unfold filterHeader
 dsimp only
 split
 ·exact⟨g,h.edits,h.tracks,h.incomplete⟩
 rename_i a ha
 split
 ·rename_i hnumber
  obtain⟨a₀,ha0,horigin,hnumber0⟩:=h.tracks _ a ha
  have hblamed:Blamed P s₀ act a.origin:=
   .inr ⟨time,batch,heights,hact,b,hb,a₀,ha0,horigin,hnumber0▸hnumber⟩
  exact⟨g,(h.edits.edit (.drop hblamed)).edit (.forget _),h.tracks.forgetHash _,h.incomplete⟩
 split
 ·exact⟨g,h.edits.edit (.forget _),h.tracks.forgetHash _,h.incomplete⟩
 have hreceived:=h.edits.edit (.receive hact ha)
 have htracks:=h.tracks.receive (b:={a with header:=some b.1,time:=time}) ha ⟨rfl,rfl⟩
 have hincomplete:=Subset.trans h.incomplete (subset_append_left g
  [{a with header:=some b.1,time:=time}])
 split
 ·refine⟨_,hreceived.edit (.finish (lookup_insert _) (requested_eq_some ha).2.2),
   htracks.finish,hincomplete⟩
 exact⟨_,hreceived,htracks,append_subset.2 ⟨hincomplete,subset_append_right _ _⟩⟩

lemma edits_filterHeaders(hact:act=.event (.headers time batch heights)):
 ∃g,Edits P s act s [] (filterHeaders P time batch heights s) g:=by
 have hall:∃g,Filtered P s act (batch.foldl (filterHeader P time) ⟨s,[],[],[]⟩) g:=by
  refine foldlRecOn (motive:=fun r=>∃g,Filtered P s act r g) batch _ ?_ ?_
  ·exact⟨[],.refl,fun _ a ha=>⟨a,ha,rfl,rfl⟩,Subset.refl _⟩
  exact fun r ⟨g,hr⟩ b hb=>filtered_filterHeader hact hb hr
 obtain⟨g,hfiltered⟩:=hall
 refine⟨g,Edits.trans ?_ (edits_enqueueAll completing_mem _ _ _)⟩
 refine foldlRecOn (motive:=fun t=>Edits P s act s [] t g) _ _ hfiltered.edits ?_
 intro t ht a ha
 unfold schedule
 split
 ·exact ht
 dsimp only
 split
 ·exact ht
 rename_i header hheader _
 exact ht.edit (.schedule (hfiltered.incomplete ha) hheader)

lemma edits_matchBodies(h:matchBodies P batch s blocks=some result):Edits P s₀ act s g result.1 g:=by
 induction batch generalizing s blocks result with
 | nil=>
  cases h
  exact .refl
 | cons b rest ih=>
  obtain⟨-,h⟩:=ite_none_right_eq_some.1 h
  obtain⟨rest',hrest,rfl⟩:=map_eq_some_iff.1 h
  refine Edits.trans ?_ (@ih _ _ rest' hrest)
  refine foldlRecOn (motive:=fun r=>Edits P s₀ act s g r.fetcher g) b.visit
   (matchBody P b.transactions b.uncles) ?_ ?_
  ·exact .refl
  intro r hr look _
  unfold matchBody
  split
  ·exact hr
  split
  ·split
   ·exact hr.edit (.forget _)
   exact hr
  exact hr

lemma edits_pop(hop:s.queue[k]?=some op)
 (known:Bool):Edits P s₀ act s g (pop P height k op known s) g:=by
 unfold pop
 dsimp only
 split
 ·exact Edits.refl.edit (.phase _)
 split
 ·have htaken:Edits P s₀ act s g {s with queue:=s.queue.eraseIdx k} g:=
   Edits.refl.edit (.taken s.finished (Subset.refl _) (Subset.refl _) (eraseIdx_subset) (Subset.refl _))
  exact htaken.edit (.forgetBlock _)
 exact Edits.refl.edit (.pop k (mem_of_getElem? hop))

lemma edits_insert(hop:op∈s.inserting)(hl:l⊆s.inserting)
 (hparent:∀header∈parent,P.hash header=P.parentHash op.block.header)(world:W):
 Edits P s act s g (BlockFetching.insert P op parent world {s with inserting:=l}) g:=by
 have htaken:Edits P s act s g
  {s with inserting:=l,finished:=s.finished++[P.hash op.block.header]} g:=
  Edits.refl.edit (.taken _ (Subset.refl _) (Subset.refl _) (Subset.refl _) hl)
 unfold BlockFetching.insert
 dsimp only
 split
 ·exact htaken
 rename_i header
 split
 ·rename_i hinvalid
  exact htaken.edit (.drop (.inl ⟨op,hop,header,world,rfl,hparent header rfl,hinvalid⟩))
 exact htaken

lemma edits_handle{e:Event H Hd T}(h:handle P s e=some t):∃g,Edits P s (.event e) s [] t g:=by
 cases e with
 | notify k now height=>
  obtain⟨n,hn,rfl⟩:=map_eq_some_iff.1 h
  have htaken:Edits P s (.event (.notify k now height)) s [] {s with
   notifying:=s.notifying.eraseIdx k} []:=
   Edits.refl.edit (.taken s.finished eraseIdx_subset (Subset.refl _) (Subset.refl _) (Subset.refl _))
  refine⟨[],?_⟩
  unfold BlockFetching.notify
  dsimp only
  split
  ·exact htaken
  split
  ·exact htaken
  split
  ·exact htaken
  rename_i hcount _ _
  exact Edits.refl.edit (.notify now (mem_of_getElem? hn) eraseIdx_subset (Int.not_lt.1 hcount))
 | inject k height=>
  obtain⟨op,hop,rfl⟩:=map_eq_some_iff.1 h
  exact⟨[],edits_enqueue op eraseIdx_subset (.inl (mem_of_getElem? hop)) height⟩
 | done k=>
  obtain⟨hash,-,rfl⟩:=map_eq_some_iff.1 h
  have htaken:Edits P s (.event (.done k)) s [] {s with finished:=s.finished.eraseIdx k} []:=
   Edits.refl.edit (.taken _ (Subset.refl _) (Subset.refl _) (Subset.refl _) (Subset.refl _))
  exact⟨[],(htaken.edit (.forget hash)).edit (.forgetBlock hash)⟩
 | fetchTick visit=>
  obtain⟨hvisit,rfl⟩:=of_guarded h
  exact⟨[],edits_fetchAll rfl (Subset.refl _) (hvisit.nodup_iff.2 s.announced.keys_nodup)
   (fun _ _=>rfl)⟩
 | completeTick visit=>
  obtain⟨-,rfl⟩:=of_guarded h
  exact⟨[],edits_completeAll rfl⟩
 | blocks batch heights=>
  cases h
  exact⟨[],edits_filterBlocks batch heights⟩
 | headers time batch heights=>
  cases h
  exact edits_filterHeaders rfl
 | bodies batch heights=>
  obtain⟨result,hresult,rfl⟩:=map_eq_some_iff.1 h
  exact⟨[],(edits_matchBodies hresult).trans (edits_enqueueAll completing_mem _ _ _)⟩

lemma edits_of_step(h:step P s act=some t):∃g,Edits P s act s [] t g:=by
 cases act with
 | newBlockHashes peer message known=>
  cases h
  refine⟨[],Edits.refl.edit (.message rfl (fun n hn=>?_))⟩
  obtain⟨b,hb,rfl⟩:=mem_map.1 hn
  exact⟨rfl,mem_of_mem_filter hb⟩
 | newBlock peer block=>
  cases h
  exact⟨[],Edits.refl.edit (.block rfl)⟩
 | insert k parent world=>
  obtain⟨op,hop,h⟩:=bind_eq_some_iff.1 h
  obtain⟨hparent,rfl⟩:=of_guarded h
  exact⟨[],edits_insert (mem_of_getElem? hop) eraseIdx_subset hparent world⟩
 | expire visit height=>
  obtain⟨-,rfl⟩:=of_guarded h
  refine⟨[],Edits.edit ?_ (.phase _)⟩
  refine foldlRecOn (motive:=fun t=>Edits P s _ s [] t []) visit _ .refl ?_
  intro t ht look _
  unfold expire
  split
  ·split
   ·exact ht.edit (.forget _)
   exact ht
  exact ht
 | pop k known=>
  rw[step]at h
  split at h
  ·obtain⟨op,hop,h⟩:=bind_eq_some_iff.1 h
   obtain⟨-,rfl⟩:=of_guarded h
   exact⟨[],edits_pop hop known⟩
  cases h
 | select=>
  rw[step]at h
  split at h
  ·obtain⟨-,rfl⟩:=of_guarded h
   exact⟨[],Edits.refl.edit (.phase _)⟩
  cases h
 | event e=>
  obtain⟨-,h⟩:=ite_none_right_eq_some.1 h
  obtain⟨m,hm,rfl⟩:=map_eq_some_iff.1 h
  obtain⟨g,hg⟩:=edits_handle hm
  exact⟨g,hg.edit (.phase _)⟩

/-- What every edit keeps holds after a step. -/
lemma step_of_edit{Inv:Fetcher H ι Hd T→List (Announce H ι Hd)→Prop}
 (hedit:∀{m g n g'},Inv m g→Edit P s act m g n g'→Inv n g')(hs:Inv s [])
 (h:step P s act=some t):∃g,Inv t g:=by
 obtain⟨g,hg⟩:=edits_of_step h
 refine⟨g,?_⟩
 have hall:∀{y},ReflTransGen (fun x y:Fetcher H ι Hd T × List (Announce H ι Hd)=>
  Edit P s act x.1 x.2 y.1 y.2) (s,[]) y→Inv y.1 y.2:=by
  intro y hy
  induction hy with
  | refl=>exact hs
  | tail _ he ih=>exact hedit ih he
 exact hall hg

end GoCoupe.FetcherMoves
