import GoCoupe.DialTaskAccounting
import GoCoupe.GuardedRuns
import Mathlib.Data.Finset.Card

/-!
# The budget and the pauses of the dialer

Runs of `newTasks` and `taskDone` of `p2p/dial.go` while peers come and go. Dynamic dials stay
within their number, but a pause counts from the time that `taskDone` is told.
-/

namespace GoCoupe.DialBudgets
open DialTaskAccounting DialTasks GuardedRuns MapIteration List Option

/-- The tasks in progress, the time of the last turn and, of each dial task that was reported,
the node and the time at which it finished. -/
structure Dialing where
 dialer:DialState
 peers:GoMap NodeId ConnFlag
 tasks:List TaskKind
 turn:ℕ
 finished:List (NodeId × ℕ)

def start (static:List Node) (maxdyn:ℕ):Dialing:=⟨newDialState static maxdyn,∅,[],0,[]⟩

/-- The node and the flag of a dial. -/
def entry:TaskKind→Option (Σ _:NodeId,ConnFlag)
 | .dial flags dest=>some ⟨dest.id,flags⟩
 | _=>none

def isDiscover:TaskKind→Bool
 | .discover _=>true
 | _=>false

def dynamic (l:List (Σ _:NodeId,ConnFlag)):List NodeId:=
 (l.filter (·.2 &&& dynDialedConn≠0)).map Sigma.fst

/-- The nodes that are dynamically dialed peers or have a dynamic dial in progress. -/
def used (peers:GoMap NodeId ConnFlag) (tasks:List TaskKind):List NodeId:=
 dynamic peers.entries++dynamic (tasks.filterMap entry)

/-- A task is done at a time; the dialer is told another one. -/
inductive Event where
 | tick (nRunning:ℕ) (i:Surroundings)
 | done (t:TaskKind) (time told:ℕ) (results:List Node)
 | evolve (peers:GoMap NodeId ConnFlag)
 | addStatic (n:Node)

/-- A dynamically dialed peer is added while its dial is in progress. -/
def step (s:Dialing):Event→Option Dialing
 | .tick nRunning i=>
  let r:=newTasks s.dialer nRunning {i with peers:=s.peers}
  if s.turn ≤ i.now then some {s with dialer:=r.2,tasks:=s.tasks++r.1,turn:=i.now} else none
 | .done t time told results=>
  if t∈s.tasks then some
   {s with
    dialer:=s.dialer.taskDone t (told,results)
    tasks:=s.tasks.erase t
    finished:=((entry t).map (fun e=>(e.1,time))).toList++s.finished}
  else none
 | .evolve peers=>
  if dynamic peers.entries⊆used s.peers s.tasks then some {s with peers:=peers} else none
 | .addStatic n=>some {s with dialer:=addStatic s.dialer n}

structure InBudget (maxdyn:ℕ) (s:Dialing):Prop where
 budget:(used s.peers s.tasks).toFinset.card ≤ maxdyn
 single:((s.tasks.filterMap entry).map Sigma.fst).Nodup
 lookup:s.tasks.countP isDiscover≤1

/-- The dialer knows its dials and its lookup. -/
structure Known (maxdyn:ℕ) (peers:GoMap NodeId ConnFlag) (d:DialState) (tasks:List TaskKind) :
 Prop where
 limit:d.maxDynDials=maxdyn
 dials:d.dialing.entries.Perm (tasks.filterMap entry)
 budget:(used peers tasks).toFinset.card ≤ maxdyn
 lookup:tasks.countP isDiscover ≤ if d.lookupRunning then 1 else 0

variable {maxdyn:ℕ} {peers:GoMap NodeId ConnFlag} {d:DialState} {tasks:List TaskKind}

lemma dynDials_eq(flags:GoMap NodeId ConnFlag):dynDials flags=(dynamic flags.entries).length:=by
 rw[dynDials,dynamic,length_map,countP_eq_length_filter]

lemma length_used(h:d.dialing.entries.Perm (tasks.filterMap entry)):
 ((used peers tasks).length:ℤ)=dynDials peers+dynDials d.dialing:=by
 rw[used,length_append,dynDials_eq,dynDials_eq,dynamic,dynamic,dynamic,
  ((h.filter _).map Sigma.fst).length_eq]
 omega

lemma Known.lookup_le(h:Known maxdyn peers d tasks):tasks.countP isDiscover≤1:=
 h.lookup.trans (by split<;>decide)

lemma Known.dial(h:Known maxdyn peers d tasks)(hn:n.id∉d.dialing)
 (hb:(used peers (tasks++[.dial flag n])).toFinset.card ≤ maxdyn):
 Known maxdyn peers {d with dialing:=d.dialing.insert n.id flag} (tasks++[.dial flag n]):=by
 refine⟨h.limit,?_,hb,?_⟩
 ·rw[AList.entries_insert_of_notMem hn,filterMap_append]
  exact (h.dials.cons _).trans (perm_append_singleton _ _).symm
 ·rw[countP_append]
  exact h.lookup

lemma Known.task(h:Known maxdyn peers d tasks)(ht:entry t=none)
 (hb:(tasks++[t]).countP isDiscover ≤ if b then 1 else 0):
 Known maxdyn peers {d with lookupRunning:=b} (tasks++[t]):=by
 have hsame:(tasks++[t]).filterMap entry=tasks.filterMap entry:=by simp[ht]
 refine⟨h.limit,hsame▸h.dials,?_,hb⟩
 rw[used,hsame]
 exact h.budget

lemma used_static(n:Node):used peers (tasks++[.dial staticDialedConn n])=used peers tasks:=by
 simp[used,dynamic,entry,staticDialedConn,dynDialedConn]

lemma used_dynamic(n:Node):used peers (tasks++[.dial dynDialedConn n])=used peers tasks++[n.id]:=by
 simp[used,dynamic,entry,dynDialedConn]

lemma dynDials_insert{flags:GoMap NodeId ConnFlag}{id:NodeId}(h:id∉flags)(flag:ConnFlag):
 dynDials (flags.insert id flag)=dynDials flags+if flag &&& dynDialedConn≠0 then 1 else 0:=by
 rw[dynDials,AList.entries_insert_of_notMem h,countP_cons]
 simp[dynDials]

lemma known_newTasks{i:Surroundings}(h:Known maxdyn i.peers d tasks)(nRunning:ℕ):
 Known maxdyn i.peers (newTasks d nRunning i).2 (tasks++(newTasks d nRunning i).1):=by
 refine (@newTasks_induction (fun need a=>Known maxdyn i.peers a.dialer (tasks++a.newtasks)∧
  need=maxdyn-dynDials i.peers-dynDials a.dialer.dialing) d i ?_ ?_ ?_ ?_ ?_ ?_ nRunning).elim
  fun _ h=>h.1
 ·rw[append_nil]
  exact⟨⟨h.limit,h.dials,h.budget,h.lookup⟩,by rw[needDynDials,h.limit]⟩
 ·rintro need a n ⟨h,hneed⟩
  unfold addDial
  split
  ·exact⟨h,hneed⟩
  rename_i hn
  have hn:=(not_or.1 hn).1
  dsimp only
  rw[←append_assoc,dynDials_insert hn]
  exact⟨h.dial hn (by rw[used_static];exact h.budget),by rw[if_neg (by decide),add_zero,hneed]⟩
 ·rintro need a n hpos ⟨h,hneed⟩
  unfold addDial
  split
  ·exact⟨h,hneed⟩
  rename_i hn
  have hn:=(not_or.1 hn).1
  have hlen:=@length_used i.peers _ _ h.dials
  dsimp only
  rw[←append_assoc,dynDials_insert hn,if_pos rfl,if_pos (by decide)]
  refine⟨h.dial hn ?_,by omega⟩
  refine (toFinset_card_le _).trans ?_
  rw[used_dynamic,length_append,length_singleton]
  omega
 ·rintro need a buf ⟨h,hneed⟩
  exact⟨⟨h.limit,h.dials,h.budget,h.lookup⟩,hneed⟩
 ·rintro need a bootstrap hrun ⟨h,hneed⟩
  have hlookup:=h.lookup
  rw[hrun]at hlookup
  dsimp only
  rw[←append_assoc]
  refine⟨h.task rfl ?_,hneed⟩
  rw[countP_append]
  exact Nat.succ_le_succ hlookup
 ·rintro need a t hidle ⟨h,hneed⟩
  rw[hidle,append_nil]at h
  exact⟨h.task rfl (by rw[countP_append];exact h.lookup),hneed⟩

variable {s m:Dialing} {e:Event}

lemma card_le_of_subset{l l':List NodeId}(h:l⊆l'):l.toFinset.card≤l'.toFinset.card:=
 Finset.card_le_card (fun _ hx=>mem_toFinset.2 (h (mem_toFinset.1 hx)))

lemma known_taskDone{t:TaskKind}(h:Known maxdyn peers d tasks)(ht:t∈tasks)(r:ℕ × List Node):
 Known maxdyn peers (d.taskDone t r) (tasks.erase t):=by
 have hsub:=(erase_sublist:(tasks.erase t).Sublist tasks)
 have hbudget:=(card_le_of_subset ((((hsub.filterMap entry).filter _).map _).append_left
  (dynamic peers.entries)).subset).trans h.budget
 have hperm:=perm_cons_erase ht
 have hdials:=h.dials.trans (hperm.filterMap entry)
 have hlookup:=hsub.countP_le.trans h.lookup
 cases t with
 | dial flags dest=>
  exact⟨h.limit,(hdials.kerase d.dialing.nodupKeys).trans (.of_eq (kerase_cons_eq rfl)),hbudget,hlookup⟩
 | discover bootstrap=>
  have hcount:=hperm.countP_eq isDiscover
  have hle:=h.lookup_le
  rw[countP_cons_of_pos rfl]at hcount
  exact⟨h.limit,hdials,hbudget,show _≤0 by omega⟩
 | waitExpire duration=>exact⟨h.limit,hdials,hbudget,hlookup⟩

lemma known_step(h:Known maxdyn s.peers s.dialer s.tasks)(hstep:step s e=some m):
 Known maxdyn m.peers m.dialer m.tasks:=by
 cases e with
 | tick nRunning i=>
  obtain⟨-,rfl⟩:=of_guarded hstep
  exact known_newTasks (i:={i with peers:=s.peers}) h nRunning
 | done t time told results=>
  obtain⟨ht,rfl⟩:=of_guarded hstep
  exact known_taskDone h ht (told,results)
 | evolve peers=>
  obtain⟨hsub,rfl⟩:=of_guarded hstep
  refine⟨h.limit,h.dials,?_,h.lookup⟩
  exact (card_le_of_subset (append_subset.2 ⟨hsub,subset_append_right _ _⟩)).trans h.budget
 | addStatic n=>
  obtain rfl:=some_inj.1 hstep
  exact⟨h.limit,h.dials,h.budget,h.lookup⟩

lemma known_of_exec
 (h:exec step (start static maxdyn) events=some s):Known maxdyn s.peers s.dialer s.tasks:=
 @exec_invariant _ _ _ (fun s=>Known maxdyn s.peers s.dialer s.tasks) (fun _ _ _=>known_step) _ _ _
  ⟨rfl,.nil,Nat.zero_le _,Nat.zero_le _⟩ h

theorem dials_within_budget {static : List Node} {maxdyn : ℕ} {events : List Event} {s : Dialing}
    (h : exec step (start static maxdyn) events = some s) : InBudget maxdyn s := by
 have hknown:=known_of_exec h
 refine⟨hknown.budget,?_,hknown.lookup_le⟩
 exact (hknown.dials.map Sigma.fst).nodup_iff.1 s.dialer.dialing.nodupKeys

theorem dials_within_budget_one : ∃ s, exec step (start [] 1)
    [.tick 0 quiet, .done (.discover true) 0 0 [node 1], .tick 0 quiet] = some s ∧ InBudget 1 s :=
 ⟨_,rfl,dials_within_budget (rfl:exec step (start [] 1)
  [.tick 0 quiet,.done (.discover true) 0 0 [node 1],.tick 0 quiet]=_)⟩

/-- No dial is created to a node that is a peer, is being dialed or has a past dial that has not
expired. -/
lemma newTasks_spaced(d:DialState)(nRunning:ℕ)(i:Surroundings):
 (newTasks d nRunning i).2.hist=expire d.hist i.now∧
  ∀flags n,.dial flags n∈(newTasks d nRunning i).1 →
   n.id∉d.dialing∧n.id∉i.peers∧n.id∉(expire d.hist i.now).map PastDial.id:=by
 let Spaced (a:Adding):Prop:=a.dialer.hist=expire d.hist i.now∧(∀id∈d.dialing,id∈a.dialer.dialing)∧
  ∀flags n,.dial flags n∈a.newtasks →
   n.id∉d.dialing∧n.id∉i.peers∧n.id∉(expire d.hist i.now).map PastDial.id
 have hdial:∀a flag n,Spaced a → Spaced (addDial i.peers a flag n).2:=by
  rintro a flag n ⟨hhist,hold,hnew⟩
  unfold addDial
  split
  ·exact⟨hhist,hold,hnew⟩
  rename_i hn
  simp only[not_or,hhist]at hn
  refine⟨hhist,fun id hid=>(AList.mem_insert _).2 (.inr (hold id hid)),fun flags n' hn'=>?_⟩
  obtain hn'|hn':=mem_append.1 hn'
  ·exact hnew flags n' hn'
  ·obtain⟨-,rfl⟩:=TaskKind.dial.inj (mem_singleton.1 hn')
   exact⟨mt (hold _) hn.1,hn.2⟩
 refine (@newTasks_induction (fun _ a=>Spaced a) d i ⟨rfl,fun _ h=>h,by simp⟩ (fun _ a n=>hdial a _ n)
  (fun _ a n _=>hdial a _ n) (fun _ _ _ h=>h) ?_ ?_ nRunning).elim fun _ h=>⟨h.1,h.2.2⟩
 ·rintro - a bootstrap - ⟨hhist,hold,hnew⟩
  exact⟨hhist,hold,fun flags n hn=>hnew flags n (by simpa using hn)⟩
 ·rintro - a t - ⟨hhist,hold,-⟩
  exact⟨hhist,hold,fun flags n hn=>by simp at hn⟩

/-- The dialer is told a time that is not before the end of the task. -/
def Told (_:Dialing):Event→Prop
 | .done _ time told _=>time≤told
 | _=>True

/-- The pause of a finished dial is over or recorded. -/
def Paused (s:Dialing):Prop:=∀f∈s.finished,f.2+dialHistoryExpiration<s.turn ∨
 ∃e∈s.dialer.hist,e.id=f.1 ∧ f.2+dialHistoryExpiration≤e.exp

lemma paused_step(h:Paused s)(htold:Told s e)(hstep:step s e=some m):Paused m:=by
 cases e with
 | tick nRunning i=>
  obtain⟨hturn,rfl⟩:=of_guarded hstep
  intro f hf
  obtain hlt|⟨e,he,hid,hexp⟩:=h f hf
  ·exact .inl (lt_of_lt_of_le hlt hturn)
  dsimp only
  rw[(newTasks_spaced ..).1]
  by_cases hout:e.exp < i.now
  ·exact .inl (lt_of_le_of_lt hexp hout)
  ·exact .inr ⟨e,mem_filter.2 ⟨he,by simpa using hout⟩,hid,hexp⟩
 | done t time told results=>
  obtain⟨ht,rfl⟩:=of_guarded hstep
  intro f hf
  cases t with
  | dial flags dest=>
   obtain rfl|hf:=mem_cons.1 hf
   ·exact .inr ⟨_,mem_cons_self,rfl,Nat.add_le_add_right htold _⟩
   ·exact (h f hf).imp_right fun ⟨e,he,h⟩=>⟨e,mem_cons_of_mem _ he,h⟩
  | discover | waitExpire=>exact h f hf
 | evolve peers=>
  obtain⟨-,rfl⟩:=of_guarded hstep
  exact h
 | addStatic n=>
  obtain rfl:=some_inj.1 hstep
  exact h

/-- If the dialer is never told a time before the end of a task, a dial that a turn creates is to
a node that is neither connected nor being dialed, and whose dials ended 30 seconds before. -/
theorem dials_spaced {static : List Node} {maxdyn : ℕ} {events : List Event} {s : Dialing}
    (h : exec step (start static maxdyn) events = some s)
    (htold : Careful step Told (start static maxdyn) events) {nRunning : ℕ} {i : Surroundings}
    (hturn : s.turn ≤ i.now) {flags : ConnFlag} {n : Node}
    (hnew : .dial flags n ∈ (newTasks s.dialer nRunning { i with peers := s.peers }).1) :
    n.id ∉ s.peers ∧ n.id ∉ (s.tasks.filterMap entry).map Sigma.fst ∧
      ∀ time, (n.id, time) ∈ s.finished→time + dialHistoryExpiration ≤ i.now:=by
 have hknown:=known_of_exec h
 have hpaused:=careful_invariant (fun _ _ _=>paused_step) (by simp[Paused,start]) h htold
 obtain⟨hdialing,hpeers,hhist⟩:=(newTasks_spaced ..).2 flags n hnew
 refine⟨hpeers,?_,fun time hf=>?_⟩
 · rwa[←(hknown.dials.map Sigma.fst).mem_iff]
 · obtain hlt|⟨e,he,hid,hexp⟩:=hpaused _ hf
   · exact hlt.le.trans hturn
   · by_contra hlt
     refine hhist (mem_map.2 ⟨e,mem_filter.2 ⟨he,?_⟩,hid⟩)
     simp
     omega

/-- A static node is dialed, and the dial ends after 20 seconds. -/
def dialed (told:ℕ):List Event:=
 [.tick 0 quiet,.done (.dial staticDialedConn (node 1)) (20*10^9) told []]

def afterDial (told:ℕ):Dialing:=(exec step (start [node 1] 0) (dialed told)).getD (start [] 0)

def later (told seconds:ℕ):List TaskKind:=
 (newTasks (afterDial told).dialer 0
  {quiet with now:=seconds*10^9,peers:=(afterDial told).peers}).1

theorem dials_spaced_once :
    (node 1).id ∉ (afterDial (20 * 10 ^ 9)).peers ∧
      (node 1).id ∉ ((afterDial (20 * 10 ^ 9)).tasks.filterMap entry).map Sigma.fst ∧
      ∀ time, ((node 1).id, time) ∈ (afterDial (20 * 10 ^ 9)).finished →
        time + dialHistoryExpiration ≤ 51 * 10 ^ 9 := by
 have hsome:(exec step (start [node 1] 0) (dialed (20*10^9))).isSome:=by decide +kernel
 have hrun:exec step (start [node 1] 0) (dialed (20*10^9))=some (afterDial (20*10^9)):=by
  obtain⟨s,hs⟩:=isSome_iff_exists.1 hsome
  rw[afterDial,hs,getD_some]
 exact dials_spaced hrun ⟨trivial,fun _ _=>⟨le_rfl,fun _ _=>trivial⟩⟩ (i:={quiet with now:=51*10^9})
  (by decide +kernel) (by decide +kernel : .dial staticDialedConn (node 1)∈later (20*10^9) 51)

/-- The dialer is told the time of the turn, and dials again after 31 seconds. -/
theorem dialed_too_soon :
    (afterDial 0).finished = [((node 1).id, 20 * 10 ^ 9)] ∧
      later 0 31 = [.dial staticDialedConn (node 1)] := by
 decide +kernel

end GoCoupe.DialBudgets
