import GoCoupe.GuardedRuns
import GoCoupe.MapIteration

/-!
# Deliveries to the download queue

A delivery ends the pending request of its peer, returns what is missing to the task queue and
is judged; the judgement decides whether the peer is idle again.
-/

namespace GoCoupe.DownloadDeliveries
open GuardedRuns MapIteration List Option Function AList

inductive Verdict (H:Type) where
 | ok
 | noFetchesPending
 | invalidChain
 | partialFailure
 | staleDelivery
 | multipleFailures (errs:List H)
 deriving DecidableEq

variable {ι H β:Type} [DecidableEq ι] [DecidableEq H]

structure StateQueue (ι H β:Type) where
 taskPool:GoMap H ℤ
 taskQueue:List (H × ℤ)
 pendPool:GoMap ι (GoMap H ℤ)
 processing:List (List (H × β))

/-- What the loop over the delivered blobs keeps. -/
structure Verified (H β:Type) where
 hashes:GoMap H ℤ
 taskPool:GoMap H ℤ
 process:List (H × β)
 accepted:ℕ
 errs:List H

def verify (hash:β→H) (v:Verified H β) (blob:β):Verified H β:=
 if v.hashes.lookup (hash blob)=none then {v with errs:=v.errs++[hash blob]}
 else {v with
  hashes:=v.hashes.erase (hash blob)
  taskPool:=v.taskPool.erase (hash blob)
  process:=v.process++[(hash blob,blob)]
  accepted:=v.accepted+1}

def Verified.verdict (v:Verified H β):Verdict H:=if v.errs.length=0 then .ok
 else if v.errs.length=v.hashes.keys.length then .staleDelivery
 else .multipleFailures v.errs

def deliverNodeData (hash:β→H) (order:MapOrder H ℤ) (q:StateQueue ι H β) (id:ι)
 (data:List β):(ℕ × Verdict H) × StateQueue ι H β:=
 match q.pendPool.lookup id with
 | none=>((0,.noFetchesPending),q)
 | some hashes=>
  let v:=data.foldl (verify hash) ⟨hashes,q.taskPool,[],0,[]⟩
  ((v.accepted,v.verdict),{
   taskPool:=v.taskPool
   taskQueue:=q.taskQueue++(order.visit v.hashes).map (fun e=>(e.1,e.2))
   pendPool:=q.pendPool.erase id
   processing:=q.processing++[v.process]})

variable (hash:β→H)

lemma hashes_foldl_verify(data:List β)(v:Verified H β):
 (data.foldl (verify hash) v).hashes=eraseAll v.hashes (data.map hash):=by
 induction data generalizing v with
 | nil=>rfl
 | cons blob data ih=>
  rw[foldl_cons,ih,map_cons,eraseAll,eraseAll,foldl_cons,verify]
  split
  ·rename_i hnone
   have hself:v.hashes.erase (hash blob)=v.hashes:=
    ext (kerase_of_notMem_keys (lookup_eq_none.1 hnone))
   rw[hself]
  rfl

/-- Each blob is accepted or an error, and each accepted one is struck off the request. -/
lemma counts_foldl_verify(data:List β)(v:Verified H β):
 (data.foldl (verify hash) v).accepted+(data.foldl (verify hash) v).errs.length =
  v.accepted+v.errs.length+data.length∧
 (data.foldl (verify hash) v).accepted+(data.foldl (verify hash) v).hashes.keys.length =
  v.accepted+v.hashes.keys.length:=by
 induction data generalizing v with
 | nil=>exact⟨rfl,rfl⟩
 | cons blob data ih=>
  obtain⟨herrs,hkeys⟩:=ih (verify hash v blob)
  rw[foldl_cons,herrs,hkeys,length_cons]
  unfold verify
  split
  ·simp only[length_append,length_singleton,and_true]
   omega
  rename_i hsome
  have hmem:hash blob∈v.hashes.keys:=mem_keys.1 (lookup_isSome.1 (isSome_iff_ne_none.2 hsome))
  have hpos:=length_pos_of_mem hmem
  simp only[keys_erase,length_erase_of_mem hmem]
  omega

lemma keys_eraseAll(m:GoMap H ℤ)(ks:List H):(eraseAll m ks).keys=m.keys.filter (· ∉ ks):=by
 have hdiff:(eraseAll m ks).keys=m.keys.diff ks:=by
  induction ks generalizing m with
  | nil=>rfl
  | cons k ks ih=>rw[eraseAll,foldl_cons,←eraseAll,ih,keys_erase,diff_cons]
 exact hdiff.trans (Nodup.sdiff_eq_filter m.nodupKeys)

/-- A delivery is called stale exactly when it is as long as the request and one of its blobs
was not accepted. -/
theorem staleDelivery_iff_useless (order : MapOrder H ℤ) (q : StateQueue ι H β) (id : ι)
    (request : GoMap H ℤ) (data : List β) :
    let result := deliverNodeData hash order
      { q with pendPool:=q.pendPool.insert id request } id data
    let accepted:=(request.keys.filter (· ∈ data.map hash)).length
    ((result.1.2 = .staleDelivery ↔ data ≠ [] ∧ result.1.1 = 0) ∧ result.1.1 = accepted ∧
      ∃back, result.2.taskQueue = q.taskQueue ++ back ∧ (back.map Prod.fst).Nodup ∧
        ∀h i, (h, i) ∈ back ↔ request.lookup h = some i ∧ h ∉ data.map hash) ↔
    (accepted = 0→data = [] ∨ data.length = request.keys.length) ∧
      (accepted ≠ 0→data.length = request.keys.length→accepted = data.length):=by
 intro result accepted
 let v:=data.foldl (verify hash) ⟨request,q.taskPool,[],0,[]⟩
 have hresult:result.1=(v.accepted,v.verdict) ∧ result.2.taskQueue =
  q.taskQueue++(order.visit v.hashes).map (fun e=>(e.1,e.2)):=by
  simp only[result,deliverNodeData,lookup_insert]
  exact⟨rfl,rfl⟩
 have hhashes:v.hashes=eraseAll request (data.map hash):=hashes_foldl_verify hash data _
 obtain⟨herrs,hkeys⟩:v.accepted+v.errs.length=0+0+data.length ∧
  v.accepted+v.hashes.keys.length=0+request.keys.length:=counts_foldl_verify hash data _
 have hleft:request.keys.length=accepted+v.hashes.keys.length:=by
  rw[hhashes,keys_eraseAll,length_eq_length_filter_add (· ∈ data.map hash)]
  simp only[decide_not]
  rfl
 have haccepted:v.accepted=accepted:=by omega
 have hstale:v.verdict=.staleDelivery ↔ v.accepted≠data.length ∧ data.length=request.keys.length:=by
  rw[Verified.verdict]
  split
  · simp only[reduceCtorEq,false_iff]
    omega
  split<;>simp<;>omega
 have hback:∃back,result.2.taskQueue=q.taskQueue++back ∧ (back.map Prod.fst).Nodup ∧
  ∀h i,(h,i)∈back ↔ request.lookup h=some i ∧ h∉data.map hash:=by
  refine⟨_,hresult.2,?_,fun h i=>?_⟩
  · rw[List.map_map]
    exact nodup_visit (order.perm v.hashes)
  have hmem:(h,i)∈(order.visit v.hashes).map (fun e=>(e.1,e.2)) ↔
   (⟨h,i⟩:Σ _:H,ℤ)∈order.visit v.hashes:=by
   simp
  rw[hmem,mem_visit (order.perm v.hashes),hhashes,lookup_eraseAll]
  by_cases hh:h∈data.map hash
  · simp[hh]
  simp[hh]
 have hempty:data=[] ↔ data.length=0:=List.length_eq_zero_iff.symm
 simp only[hback,and_true,hresult.1,hstale,haccepted,ne_eq,hempty]
 omega

/-- One of two requested blobs arrives together with one that was not requested. -/
theorem staleDelivery_of_accepted : (deliverNodeData (fun b : ℕ => b)
    ⟨AList.entries, fun _ => List.Perm.refl _⟩
    ⟨∅, [], AList.singleton 0 ((AList.singleton 1 5).insert 2 6), []⟩ 0 [1, 7]).1 = (1, .staleDelivery) :=
 rfl

variable {Hd P H:Type}

inductive Failure where
 | invalidChain
 | invalidPart

/-- The loop of `deliver`; the result cache may lack a slot for the header. -/
def assemble (cached:Hd→Bool) (reconstruct:Hd→P→Bool):List Hd→List P→ℕ × Option Failure
 | header::headers,part::parts=>
  if !cached header then (0,some .invalidChain)
  else if !reconstruct header part then (0,some .invalidPart)
  else ((assemble cached reconstruct headers parts).1+1,(assemble cached reconstruct headers parts).2)
 | _,_=>(0,none)

def deliver (cached:Hd→Bool) (reconstruct:Hd→P→Bool) (headers:List Hd)
 (parts:List P):ℕ × Verdict H:=
 match assemble cached reconstruct headers parts with
 | (accepted,none)=>(accepted,.ok)
 | (accepted,some .invalidChain)=>(accepted,.invalidChain)
 | (accepted,some .invalidPart)=>
  (accepted,if 0<accepted then .partialFailure else .staleDelivery)

/-- What `fetchParts` is told about a kind of data: the items of a request and the judgement of
a delivery. -/
structure Kind (R C H:Type) where
 items:R→ℕ
 judge:R→C→Verdict H

variable {ι R C H:Type}

def partsKind {Hd P:Type} (reconstruct:Hd→P→Bool):Kind (List Hd) ((Hd→Bool) × List P) H:=
 ⟨List.length,fun r c=>(deliver c.1 reconstruct r c.2).2⟩

def stateKind {β:Type} [DecidableEq H] (hash:β→H):Kind (GoMap H ℤ) (List β) H:=
 ⟨fun r=>r.keys.length,fun r c=>(c.foldl (verify hash) ⟨r,∅,[],0,[]⟩).verdict⟩

/-- A peer, its pending request and the requests that it has not answered yet. -/
structure Assignee (R:Type) where
 registered:Bool
 busy:Bool
 pending:Option R
 unanswered:ℕ

inductive Move (R C:Type) where
 | register
 | unregister
 | fetch (r:R)
 | deliver (c:C)
 | lose
 | expire

/-- The deliveries after which `fetchParts` does not set the peer idle. -/
def Verdict.rejected:Verdict H→Bool
 | .invalidChain | .staleDelivery=>true
 | _=>false

namespace Assignee

def verdict (kind:Kind R C H) (x:Assignee R) (c:C):Verdict H:=
 match x.pending with
 | none=>.noFetchesPending
 | some r=>kind.judge r c

/-- An expired request of one item costs the peer its registration, an answer without a
synchronisation is lost. -/
def move (kind:Kind R C H) (x:Assignee R):Move R C→Option (Assignee R)
 | .register=>if x.registered then none else some {x with registered:=true,busy:=false}
 | .unregister=>some {x with registered:=false,pending:=none}
 | .fetch r=>
  if x.registered ∧ ¬x.busy ∧ x.pending.isNone then
   some {x with busy:=true,pending:=some r,unanswered:=x.unanswered+1}
  else none
 | .deliver c=>
  if x.unanswered=0 then none
  else if ¬x.registered then some {x with unanswered:=x.unanswered-1}
  else some {x with
   busy:=x.busy && (x.verdict kind c).rejected
   pending:=none
   unanswered:=x.unanswered-1}
 | .lose=>if x.unanswered=0 then none else some {x with unanswered:=x.unanswered-1}
 | .expire=>x.pending.map (fun r=>
  if 1<kind.items r then {x with pending:=none,busy:=false}
  else {x with pending:=none,registered:=false})

/-- The peer is busy with nothing. -/
def Stranded (x:Assignee R):Prop:=x.registered ∧ x.busy ∧ x.pending=none ∧ x.unanswered=0

/-- A rejected or lost answer is not the last thing a busy peer is busy with. -/
def Spared (kind:Kind R C H) (x:Assignee R):Move R C→Prop
 | .deliver c=>x.registered ∧ x.busy ∧ (x.verdict kind c).rejected → 1<x.unanswered
 | .lose=>x.registered ∧ x.busy ∧ x.pending=none → 1<x.unanswered
 | _=>True

variable {kind:Kind R C H} {x y:Assignee R}

lemma not_stranded_iff(h:x.move kind mv=some y):¬y.Stranded↔x.Spared kind mv:=by
 cases mv with
 | register=>
  obtain⟨-,h⟩:=ite_none_left_eq_some.1 h
  cases h
  simp[Stranded,Spared]
 | unregister=>
  cases h
  simp[Stranded,Spared]
 | fetch r=>
  obtain⟨-,rfl⟩:=of_guarded h
  simp[Stranded,Spared]
 | deliver c=>
  obtain⟨hpos,h⟩:=ite_none_left_eq_some.1 h
  have hlast:x.unanswered-1=0↔¬1<x.unanswered:=by omega
  split at h<;>rename_i hreg<;>cases h
  ·simp[Stranded,Spared,hreg]
  simp[Stranded,Spared,hlast]
 | lose=>
  obtain⟨hpos,h⟩:=ite_none_left_eq_some.1 h
  have hlast:x.unanswered-1=0↔¬1<x.unanswered:=by omega
  cases h
  simp[Stranded,Spared,hlast]
 | expire=>
  obtain⟨r,-,rfl⟩:=map_eq_some_iff.1 h
  split<;>simp[Stranded,Spared]

end Assignee

inductive Event (ι R C:Type) where
 | peer (p:ι) (mv:Move R C)
 | synchronise

variable [DecidableEq ι]

/-- A new synchronisation resets the queue and the peers. -/
def step (kind:Kind R C H) (s:ι→Assignee R):Event ι R C→Option (ι→Assignee R)
 | .peer p mv=>((s p).move kind mv).map (Function.update s p)
 | .synchronise=>some ({s · with busy:=false,pending:=none})

def start:ι→Assignee R:=fun _=>⟨false,false,none,0⟩

def Spares (kind:Kind R C H) (s:ι→Assignee R):Event ι R C→Prop
 | .peer p mv=>(s p).Spared kind mv
 | .synchronise=>True

variable {kind:Kind R C H} {s t:ι→Assignee R}

lemma step_spares(hs:¬∃q,(s q).Stranded)(h:step kind s e=some t):
 (¬∃q,(t q).Stranded)↔Spares kind s e:=by
 cases e with
 | peer p mv=>
  obtain⟨y,hy,rfl⟩:=map_eq_some_iff.1 h
  rw[Spares,←Assignee.not_stranded_iff hy,not_iff_not]
  constructor
  ·rintro⟨q,hq⟩
   rw[update_apply]at hq
   split at hq
   ·exact hq
   exact absurd ⟨q,hq⟩ hs
  intro hy
  exact⟨p,by rwa[update_self]⟩
 | synchronise=>
  cases h
  simp[Assignee.Stranded,Spares]

/-- In a run no peer is ever busy with nothing exactly when no step takes the last thing a busy
peer is busy with. -/
theorem never_stranded_iff (kind : Kind R C H) (events : List (Event ι R C))
    (h : exec (step kind) start events = some s) :
    Throughout (step kind) (fun s => ¬∃ p, (s p).Stranded) start events ↔
      Careful (step kind) (Spares kind) start events :=
 @throughout_iff_careful _ _ (step kind) (fun _=>True) _ _ (fun _ _ _ _ _=>trivial)
  (fun _ _ _ _ hs hm=>step_spares hs hm) _ _ _ h trivial (fun ⟨_,h⟩=>absurd h.1 nofun)

/-- The late answer to an expired request is taken for the answer to the next one. -/
theorem never_stranded_late_answer : Throughout
    (step (partsKind (fun h b => h == b) : Kind (List ℕ) ((ℕ → Bool) × List ℕ) ℕ))
    (fun s => ¬∃ p, (s p).Stranded) (start : ℕ → _)
    [.peer 0 .register, .peer 0 (.fetch [1, 2]), .peer 0 .expire, .peer 0 (.fetch [3]),
      .peer 0 (.deliver (fun _ => true, [1, 2])), .peer 0 (.deliver (fun _ => true, [3]))] :=
 (never_stranded_iff _ _ rfl).2 (by simp[Careful,step,Spares,Assignee.Spared,Assignee.move,
  Assignee.verdict,Verdict.rejected,partsKind,deliver,assemble,start])

/-- Two wrong bodies answer the only request. -/
theorem stranded_after_wrong_answer : ∃ s, exec
    (step (partsKind (fun h b => h == b) : Kind (List ℕ) ((ℕ → Bool) × List ℕ) ℕ)) start
    [.peer 0 .register, .peer 0 (.fetch [1, 2]), .peer 0 (.deliver (fun _ => true, [3, 4]))] =
      some s ∧ (s 0).Stranded :=
 ⟨_, rfl, rfl, rfl, rfl, rfl⟩

end GoCoupe.DownloadDeliveries
