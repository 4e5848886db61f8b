import GoCoupe.GuardedRuns

/-!
# Closing the discovery table

The goroutines around `Table.refreshLoop` of `p2p/discover/table.go`. The channels `refreshReq`
and `closeReq` have no buffer, so sending and receiving are one action of two goroutines;
`done` and `closed` are only ever closed. The number of entries of the table changes at any
time.
-/

namespace GoCoupe.TableClosing
open GuardedRuns List Option

def alpha:ℕ:=3

/-- Where a call of `Lookup` stands. `asking` is the select of `requestRefresh`. A query runs
until its reply is in the buffer of the reply channel. -/
inductive Lookup where
 | start
 | asking
 | querying (running replies:ℕ)
 | returned (found:Bool)
 deriving DecidableEq,Repr

/-- Where `doRefresh` stands. `finished` has closed `done`. -/
inductive Refresh where
 | first (l:Lookup)
 | seeding (bonding:ℕ)
 | second (l:Lookup)
 | finished
 deriving DecidableEq,Repr

/-- Where `refreshLoop` stands. `draining` waits for the running refresh after `closeReq`,
`ending` runs the deferred function and `ended` has closed `closed`. -/
inductive Loop where
 | selecting
 | draining
 | ending
 | ended
 deriving DecidableEq,Repr

/-- Where a caller stands. `close` is the select of `Close`, `awaiting` its wait for `closed`
and `requesting` the select of `requestRefresh` in `Bootstrap`. -/
inductive Caller where
 | close
 | awaiting
 | bootstrap
 | requesting
 | lookup (l:Lookup)
 | returned
 deriving DecidableEq,Repr

/-- `refresh` is `none` when the loop's variable `done` is nil. -/
structure Table where
 loop:Loop
 refresh:Option Refresh
 entries:ℕ
 callers:List Caller
 deriving DecidableEq,Repr

def newTable:Table:=⟨.selecting,none,0,[]⟩

inductive LookupMove where
 | look
 | query
 | reply
 | receive
 | stop
 | released
 deriving DecidableEq,Repr

inductive RefreshMove where
 | lookup (m:LookupMove)
 | seeds (n:ℕ)
 | bonded
 | stuff (added:ℕ)
 | leave
 deriving DecidableEq,Repr

inductive CallerMove where
 | setNursery
 | lookup (m:LookupMove)
 | released
 deriving DecidableEq,Repr

/-- What can happen. `heard` is a receive from `refreshReq`: from the refresh or from a caller.
`resize` is a change of the table by other goroutines and `call` a new caller. -/
inductive Action where
 | tick
 | heard (sender:Option ℕ)
 | collect
 | closeHeard (i:ℕ)
 | drained
 | ended
 | refresh (m:RefreshMove)
 | caller (i:ℕ) (m:CallerMove)
 | resize (n:ℕ)
 | call (c:Caller)
 deriving DecidableEq,Repr

def Lookup.move (closed:Bool) (entries:ℕ):Lookup→LookupMove→Option Lookup
 | .start,.look=>some (if entries=0 then .asking else .querying 0 0)
 | .querying r p,.query=>if r+p<alpha then some (.querying (r+1) p) else none
 | .querying (r+1) p,.reply=>some (.querying r (p+1))
 | .querying r (p+1),.receive=>some (.querying r p)
 | .querying 0 0,.stop=>some (.returned true)
 | .asking,.released=>if closed then some (.returned false) else none
 | _,_=>none

def Lookup.heard:Lookup→Option Lookup
 | .asking=>some (.returned false)
 | _=>none

/-- The refresh after a move, and the entries it adds. -/
def Refresh.move (closed:Bool) (entries:ℕ):Refresh→RefreshMove→Option (Refresh × ℕ)
 | .first l,.lookup m=>(l.move closed entries m).map (fun l=>(.first l,0))
 | .second l,.lookup m=>(l.move closed entries m).map (fun l=>(.second l,0))
 | .first (.returned false),.seeds n=>some (.seeding n,0)
 | .seeding (n+1),.bonded=>some (.seeding n,0)
 | .seeding 0,.stuff added=>some (.second .start,added)
 | .first (.returned true),.leave=>some (.finished,0)
 | .second (.returned _),.leave=>some (.finished,0)
 | _,_=>none

def Refresh.heard:Refresh→Option Refresh
 | .first l=>l.heard.map .first
 | .second l=>l.heard.map .second
 | _=>none

def Caller.move (closed:Bool) (entries:ℕ):Caller→CallerMove→Option Caller
 | .bootstrap,.setNursery=>some .requesting
 | .lookup l,.lookup m=>(l.move closed entries m).map .lookup
 | .requesting,.released | .close,.released | .awaiting,.released=>
  if closed then some .returned else none
 | _,_=>none

def Caller.heard:Caller→Option Caller
 | .requesting=>some .returned
 | .lookup l=>l.heard.map .lookup
 | _=>none

def Caller.Fresh (c:Caller):Prop:=c=.close ∨ c=.bootstrap ∨ c=.lookup .start

instance fresh_decidable (c:Caller):Decidable c.Fresh:=inferInstanceAs (Decidable (_ ∨ _ ∨ _))

/-- The loop's answer to a tick or a request. -/
def Table.startRefresh (s:Table):Table:=
 if s.refresh=none then {s with refresh:=some (.first .start)} else s

def step (s:Table):Action→Option Table
 | .tick=>if s.loop=.selecting then some s.startRefresh else none
 | .heard none=>
  if s.loop=.selecting then
   (s.refresh.bind Refresh.heard).map (fun r=>({s with refresh:=some r}).startRefresh)
  else none
 | .heard (some i)=>
  if s.loop=.selecting then
   (s.callers[i]?.bind Caller.heard).map
    (fun c=>({s with callers:=s.callers.set i c}).startRefresh)
  else none
 | .collect=>
  if s.loop=.selecting ∧ s.refresh=some .finished then some {s with refresh:=none}
  else none
 | .closeHeard i=>
  if s.loop=.selecting ∧ s.callers[i]?=some .close then
   some {s with
    loop:=if s.refresh=none then .ending else .draining
    callers:=s.callers.set i .awaiting}
  else none
 | .drained=>
  if s.loop=.draining ∧ s.refresh=some .finished then
   some {s with loop:=.ending,refresh:=none}
  else none
 | .ended=>if s.loop=.ending then some {s with loop:=.ended} else none
 | .refresh m=>
  (s.refresh.bind (Refresh.move (s.loop=.ended) s.entries · m)).map
   (fun r=>{s with refresh:=some r.1,entries:=s.entries+r.2})
 | .caller i m=>
  (s.callers[i]?.bind (Caller.move (s.loop=.ended) s.entries · m)).map
   ({s with callers:=s.callers.set i ·})
 | .resize n=>some {s with entries:=n}
 | .call c=>if c.Fresh then some {s with callers:=s.callers++[c]} else none

/-- The caller waits for another goroutine. -/
def Caller.Waits (c:Caller):Prop:=c=.close ∨ c=.awaiting ∨ c=.requesting ∨ c=.lookup .asking

/-- The action is one of the loop (the ticker apart), of the refresh or of a waiting caller. -/
def Awaited (s:Table):Action→Prop
 | .heard _ | .collect | .closeHeard _ | .drained | .ended | .refresh _=>True
 | .caller i _=>∃c,s.callers[i]?=some c ∧ c.Waits
 | _=>False

/-- `Close` waits, and none of the loop, the refresh and the waiting callers can go on. -/
def Stuck (s:Table):Prop:=(.close∈s.callers ∨ .awaiting∈s.callers) ∧ ∀a,Awaited s a→step s a=none

/-- The refresh waits in `requestRefresh`. -/
def Refresh.Asks (r:Refresh):Prop:=r=.first .asking ∨ r=.second .asking

instance asks_decidable (r:Refresh):Decidable r.Asks:=inferInstanceAs (Decidable (_ ∨ _))

variable {closed:Bool} {n:ℕ}

lemma Lookup.move_asking{l l':Lookup}(h:l.move closed n m=some l'):l'=.asking↔m=.look∧n=0:=by
 unfold Lookup.move at h
 split at h
 ·cases h
  split
  ·rename_i hn
   exact iff_of_true rfl ⟨rfl,hn⟩
  rename_i hn
  exact iff_of_false nofun (hn ·.2)
 ·split at h<;>cases h
  exact iff_of_false nofun nofun
 ·cases h
  exact iff_of_false nofun nofun
 ·cases h
  exact iff_of_false nofun nofun
 ·cases h
  exact iff_of_false nofun nofun
 ·split at h<;>cases h
  exact iff_of_false nofun nofun
 cases h

/-- Only a look at an empty table leads to a request. -/
lemma Refresh.move_asks{r:Refresh}
 (h:r.move closed n m=some r'):r'.1.Asks↔m=.lookup .look∧n=0:=by
 unfold Refresh.move at h
 split at h
 ·obtain⟨l',hl,rfl⟩:=map_eq_some_iff.1 h
  simpa[Asks]using Lookup.move_asking hl
 ·obtain⟨l',hl,rfl⟩:=map_eq_some_iff.1 h
  simpa[Asks]using Lookup.move_asking hl
 all_goals cases h
 all_goals exact iff_of_false (·.elim nofun nofun) nofun

/-- A lookup that does not ask for a refresh goes on. -/
lemma Lookup.move_of_not_asking{l:Lookup}(h:l≠.asking)(hret:∀b,l≠.returned b):
 ∃m,(l.move closed n m).isSome:=by
 cases l with
 | start=>exact⟨.look,rfl⟩
 | asking=>exact absurd rfl h
 | querying r p=>
  cases r with
  | succ r=>exact⟨.reply,rfl⟩
  | zero=>
   cases p with
   | succ p=>exact⟨.receive,rfl⟩
   | zero=>exact⟨.stop,rfl⟩
 | returned b=>exact absurd rfl (hret b)

/-- A refresh that does not ask for a refresh goes on, until it has finished. -/
lemma Refresh.move_of_not_asks{r:Refresh}(h:¬r.Asks)(hfin:r≠.finished):
 ∃m,(r.move closed n m).isSome:=by
 cases r with
 | first l=>
  by_cases hret:∃b,l=.returned b
  ·obtain⟨b,rfl⟩:=hret
   cases b with
   | true=>exact⟨.leave,rfl⟩
   | false=>exact⟨.seeds 0,rfl⟩
  have hl:l≠.asking:=fun hl=>h (.inl (congrArg _ hl))
  obtain⟨m,hm⟩:=@Lookup.move_of_not_asking closed n l hl (fun b hb=>hret ⟨b,hb⟩)
  exact⟨.lookup m,by rw[Refresh.move,isSome_map,hm]⟩
 | seeding k=>
  cases k with
  | zero=>exact⟨.stuff 0,rfl⟩
  | succ k=>exact⟨.bonded,rfl⟩
 | second l=>
  by_cases hret:∃b,l=.returned b
  ·obtain⟨b,rfl⟩:=hret
   exact⟨.leave,rfl⟩
  have hl:l≠.asking:=fun hl=>h (.inr (congrArg _ hl))
  obtain⟨m,hm⟩:=@Lookup.move_of_not_asking closed n l hl (fun b hb=>hret ⟨b,hb⟩)
  exact⟨.lookup m,by rw[Refresh.move,isSome_map,hm]⟩
 | finished=>exact absurd rfl hfin

lemma Caller.move_ne_awaiting{c c':Caller}{m:CallerMove}(h:c.move closed n m=some c'):
 c'≠.awaiting∧(c=.awaiting→closed=true):=by
 unfold Caller.move at h
 split at h
 ·cases h
  exact⟨nofun,nofun⟩
 ·obtain⟨l',-,rfl⟩:=map_eq_some_iff.1 h
  exact⟨nofun,nofun⟩
 all_goals try (split at h<;>cases h)
 all_goals first | exact⟨nofun,fun _=>by assumption⟩ | cases h

lemma Caller.heard_ne_awaiting{c c':Caller}(h:c.heard=some c'):c'≠.awaiting∧c≠.awaiting:=by
 unfold Caller.heard at h
 split at h
 ·cases h
  exact⟨nofun,nofun⟩
 ·obtain⟨l',-,rfl⟩:=map_eq_some_iff.1 h
  exact⟨nofun,nofun⟩
 cases h

/-- The loop waits for a refresh only after `closeReq`, whose sender waits for the loop. -/
structure Coherent (s:Table):Prop where
 drains:s.loop=.draining→s.refresh≠none ∧ .awaiting∈s.callers
 awaits:.awaiting∈s.callers→s.loop≠.selecting

lemma coherent_newTable:Coherent newTable:=⟨nofun,nofun⟩

lemma mem_set_of_other{x c d:Caller}{l:List Caller}{i:ℕ}(hx:x∈l)
 (hd:l[i]?=some d)(hne:d≠x):x∈l.set i c:=by
 obtain⟨j,hj⟩:=mem_iff_getElem?.1 hx
 have hij:i≠j:=by
  rintro rfl
  exact hne (some.inj (hd.symm.trans hj))
 exact mem_iff_getElem?.2 ⟨j,by rw[getElem?_set_ne hij,hj]⟩

lemma startRefresh_loop(s:Table):s.startRefresh.loop=s.loop:=by
 rw[Table.startRefresh]
 split<;>rfl

lemma startRefresh_callers(s:Table):s.startRefresh.callers=s.callers:=by
 rw[Table.startRefresh]
 split<;>rfl

variable {s:Table}

lemma coherent_of_selecting(hloop:s.loop=.selecting)(hcallers:.awaiting∉s.callers):Coherent s:=
 ⟨fun h=>absurd (hloop.symm.trans h) nofun,fun h=>absurd h hcallers⟩

lemma Coherent.not_awaiting(h:Coherent s)(hloop:s.loop=.selecting):
 .awaiting∉s.callers:=fun hmem=>h.awaits hmem hloop

/-- What an action does to the loop, the refresh and the callers that wait for `closed`. -/
lemma coherent_step{t:Table}{a:Action}(h:Coherent s)(hstep:step s a=some t):Coherent t:=by
 cases a with
 | tick=>
  obtain⟨hloop,rfl⟩:=of_guarded hstep
  exact coherent_of_selecting ((startRefresh_loop s).trans hloop)
   (startRefresh_callers s▸h.not_awaiting hloop)
 | heard sender=>
  cases sender with
  | none=>
   obtain⟨hloop,hstep⟩:=ite_none_right_eq_some.1 hstep
   obtain⟨r,-,rfl⟩:=map_eq_some_iff.1 hstep
   exact coherent_of_selecting ((startRefresh_loop _).trans hloop)
    (startRefresh_callers _▸h.not_awaiting hloop)
  | some i=>
   obtain⟨hloop,hstep⟩:=ite_none_right_eq_some.1 hstep
   obtain⟨c,c',-,hheard,rfl⟩:=of_moved hstep
   refine coherent_of_selecting ((startRefresh_loop _).trans hloop) ?_
   rw[startRefresh_callers]
   intro hmem
   obtain hmem|heq:=mem_or_eq_of_mem_set hmem
   ·exact h.not_awaiting hloop hmem
   exact (Caller.heard_ne_awaiting hheard).1 heq.symm
 | collect=>
  obtain⟨hloop,rfl⟩:=of_guarded hstep
  exact coherent_of_selecting hloop.1 (h.not_awaiting hloop.1)
 | closeHeard i=>
  obtain⟨hi,rfl⟩:=of_guarded hstep
  have hmem:.awaiting∈s.callers.set i .awaiting:=mem_set (List.getElem?_eq_some_iff.1 hi.2).1 _
  constructor
  ·intro hdrain
   refine⟨fun hnone=>?_,hmem⟩
   dsimp only at hdrain hnone
   rw[if_pos hnone]at hdrain
   cases hdrain
  intro _ hsel
  dsimp only at hsel
  split at hsel<;>cases hsel
 | drained | ended=>
  obtain⟨-,rfl⟩:=of_guarded hstep
  exact⟨nofun,nofun⟩
 | refresh m=>
  obtain⟨r,-,rfl⟩:=map_eq_some_iff.1 hstep
  exact⟨fun hdrain=>⟨nofun,(h.drains hdrain).2⟩,h.awaits⟩
 | caller i m=>
  obtain⟨c,c',hi,hmove,rfl⟩:=of_moved hstep
  obtain⟨hnew,hold⟩:=Caller.move_ne_awaiting hmove
  constructor
  ·intro hdrain
   refine⟨(h.drains hdrain).1,mem_set_of_other (h.drains hdrain).2 hi (fun hc=>?_)⟩
   have hended:=of_decide_eq_true (hold hc)
   exact absurd (hended.symm.trans hdrain) nofun
  intro hmem
  obtain hmem|heq:=mem_or_eq_of_mem_set hmem
  ·exact h.awaits hmem
  exact absurd heq.symm hnew
 | resize n=>
  cases hstep
  exact⟨h.drains,h.awaits⟩
 | call c=>
  obtain⟨hfresh,rfl⟩:=of_guarded hstep
  constructor
  ·intro hdrain
   exact⟨(h.drains hdrain).1,mem_append_left _ (h.drains hdrain).2⟩
  intro hmem
  obtain hmem|hmem:=mem_append.1 hmem
  ·exact h.awaits hmem
  rw[←mem_singleton.1 hmem]at hfresh
  exact hfresh.elim nofun (·.elim nofun nofun)

/-- The loop waits for the refresh, and the refresh for the loop. -/
def Deadlocked (s:Table):Prop:=s.loop=.draining ∧ ∃r∈s.refresh,r.Asks

lemma Refresh.not_move_of_asks{r:Refresh}(h:r.Asks)(m:RefreshMove):r.move false n m=none:=by
 obtain rfl|rfl:=h
 all_goals cases m with
  | lookup m=>cases m<;>rfl
  | _=>rfl

lemma Caller.not_move_of_waits{c:Caller}(h:c.Waits)(m:CallerMove):c.move false n m=none:=by
 obtain rfl|rfl|rfl|rfl:=h
 all_goals cases m with
  | lookup m=>cases m<;>rfl
  | _=>rfl

variable {t:Table} {a:Action}

lemma stuck_of_deadlocked(hs:Coherent s)(h:Deadlocked s):Stuck s:=by
 obtain⟨hloop,r,hr,hasks⟩:=h
 have hfin:r≠.finished:=by
  rintro rfl
  exact hasks.elim nofun nofun
 refine⟨.inr (hs.drains hloop).2,fun a ha=>?_⟩
 cases a with
 | tick=>cases ha
 | heard sender=>cases sender<;>simp[step,hloop]
 | collect | closeHeard | ended=>simp[step,hloop]
 | drained=>simp[step,mem_def.1 hr,hfin]
 | refresh m=>simp[step,hloop,mem_def.1 hr,Refresh.not_move_of_asks hasks]
 | caller i m=>
  obtain⟨c,hi,hwaits⟩:=ha
  simp[step,hloop,hi,Caller.not_move_of_waits hwaits]
 | resize n=>cases ha
 | call c=>cases ha

lemma deadlocked_of_stuck(hs:Coherent s)(h:Stuck s):Deadlocked s:=by
 obtain⟨hclose,hnone⟩:=h
 cases hloop:s.loop with
 | selecting=>
  obtain hmem|hmem:=hclose
  ·obtain⟨i,hi⟩:=mem_iff_getElem?.1 hmem
   have hblocked:=hnone (.closeHeard i) trivial
   simp[step,hloop,hi]at hblocked
  exact absurd hloop (hs.awaits hmem)
 | draining=>
  obtain⟨r,hr⟩:=ne_none_iff_exists'.1 (hs.drains hloop).1
  refine⟨hloop,r,hr,?_⟩
  by_contra hasks
  by_cases hfin:r=.finished
  ·have hblocked:=hnone .drained trivial
   simp[step,hloop,hr,hfin]at hblocked
  obtain⟨m,hm⟩:=@Refresh.move_of_not_asks (s.loop=.ended) s.entries r hasks hfin
  have hblocked:=hnone (.refresh m) trivial
  rw[step,hr,bind_some,map_eq_none_iff]at hblocked
  rw[hblocked]at hm
  cases hm
 | ending=>
  have hblocked:=hnone .ended trivial
  simp[step,hloop]at hblocked
 | ended=>
  have hreturns:∀c:Caller,c∈s.callers→c.Waits →
   c.move true s.entries .released=some .returned→False:=by
   intro c hmem hwaits hmove
   obtain⟨i,hi⟩:=mem_iff_getElem?.1 hmem
   have hblocked:=hnone (.caller i .released) ⟨c,hi,hwaits⟩
   simp[step,hloop,hi,hmove]at hblocked
  obtain hmem|hmem:=hclose
  ·exact (hreturns _ hmem (.inl rfl) rfl).elim
  exact (hreturns _ hmem (.inr (.inl rfl)) rfl).elim

lemma stuck_iff(hs:Coherent s):Stuck s↔Deadlocked s:=
 ⟨deadlocked_of_stuck hs,stuck_of_deadlocked hs⟩

/-- The loop does not take `closeReq` while the refresh asks for another one, and while the loop
waits for it the refresh does not find the table empty. -/
def Prudent (s:Table):Action→Prop
 | .closeHeard _=>∀r∈s.refresh,¬r.Asks
 | .refresh (.lookup .look)=>s.loop=.draining→s.entries≠0
 | _=>True

instance prudent_decidable (s:Table):∀a,Decidable (Prudent s a)
 | .closeHeard _=>inferInstanceAs (Decidable (∀r∈s.refresh,¬r.Asks))
 | .refresh (.lookup .look)=>inferInstanceAs (Decidable (s.loop=.draining→s.entries≠0))
 | .refresh (.lookup .query) | .refresh (.lookup .reply) | .refresh (.lookup .receive)
 | .refresh (.lookup .stop) | .refresh (.lookup .released) | .refresh (.seeds _)
 | .refresh .bonded | .refresh (.stuff _) | .refresh .leave | .tick | .heard _ | .collect
 | .drained | .ended | .caller _ _ | .resize _ | .call _=>.isTrue trivial

/-- What an action does to the loop and the refresh: it leaves both, takes `closeReq` or is a move
of the refresh, or the loop does not wait for a refresh, before and after or since it is over. -/
inductive Effect (s t:Table):Action→Prop where
 | kept {a:Action} (hloop:t.loop=s.loop) (hrefresh:t.refresh=s.refresh)
  (hok:Prudent s a):Effect s t a
 | closeHeard (i:ℕ) (hrefresh:t.refresh=s.refresh)
  (hloop:t.loop=if s.refresh=none then .ending else .draining) :
  Effect s t (.closeHeard i)
 | refresh (m:RefreshMove) {r:Refresh} {r':Refresh × ℕ} (hloop:t.loop=s.loop)
  (hr:s.refresh=some r) (hmove:r.move (s.loop=.ended) s.entries m=some r')
  (hr':t.refresh=some r'.1):Effect s t (.refresh m)
 | outside {a:Action} (hs:s.loop≠.draining) (ht:t.loop≠.draining)
  (hok:Prudent s a):Effect s t a
 | ended {a:Action} (hfin:s.refresh=some .finished) (ht:t.loop=.ending)
  (hok:Prudent s a):Effect s t a

lemma effect_of_selecting(hs:s.loop=.selecting)(ht:t.loop=.selecting)
 (hok:Prudent s a):Effect s t a:=
 .outside (fun h=>absurd (hs.symm.trans h) nofun) (fun h=>absurd (ht.symm.trans h) nofun) hok

lemma effect_of_step(hstep:step s a=some t):Effect s t a:=by
 cases a with
 | tick=>
  obtain⟨hloop,rfl⟩:=of_guarded hstep
  exact effect_of_selecting hloop ((startRefresh_loop s).trans hloop) trivial
 | heard sender=>
  cases sender with
  | none=>
   obtain⟨hloop,hstep⟩:=ite_none_right_eq_some.1 hstep
   obtain⟨r,-,rfl⟩:=map_eq_some_iff.1 hstep
   exact effect_of_selecting hloop ((startRefresh_loop _).trans hloop) trivial
  | some i=>
   obtain⟨hloop,hstep⟩:=ite_none_right_eq_some.1 hstep
   obtain⟨c,-,rfl⟩:=map_eq_some_iff.1 hstep
   exact effect_of_selecting hloop ((startRefresh_loop _).trans hloop) trivial
 | collect=>
  obtain⟨hloop,rfl⟩:=of_guarded hstep
  exact effect_of_selecting hloop.1 hloop.1 trivial
 | closeHeard i=>
  obtain⟨-,rfl⟩:=of_guarded hstep
  exact .closeHeard i rfl rfl
 | drained=>
  obtain⟨hfin,rfl⟩:=of_guarded hstep
  exact .ended hfin.2 rfl trivial
 | ended=>
  obtain⟨hloop,rfl⟩:=of_guarded hstep
  exact .outside (fun h=>absurd (hloop.symm.trans h) nofun) nofun trivial
 | refresh m=>
  obtain⟨r,r',hr,hmove,rfl⟩:=of_moved hstep
  exact .refresh m rfl hr hmove rfl
 | caller i m=>
  obtain⟨c',-,rfl⟩:=map_eq_some_iff.1 hstep
  exact .kept rfl rfl trivial
 | resize n=>
  cases hstep
  exact .kept rfl rfl trivial
 | call c=>
  obtain⟨-,rfl⟩:=of_guarded hstep
  exact .kept rfl rfl trivial

lemma prudent_refresh:Prudent s (.refresh m)↔¬(s.loop=.draining∧m=.lookup .look∧s.entries=0):=by
 unfold Prudent
 split
 ·rename_i heq
  cases heq
 ·rename_i heq
  cases heq
  simp
 rename_i hne
 exact iff_of_true trivial (fun h=>hne (congrArg _ h.2.1))

/-- A step leads to the deadlock exactly when it is not prudent. -/
lemma not_deadlocked_step(h:¬Deadlocked s)(hstep:step s a=some t):¬Deadlocked t↔Prudent s a:=by
 cases effect_of_step hstep with
 | kept hloop hrefresh hok=>
  refine iff_of_true ?_ hok
  rwa[Deadlocked,hloop,hrefresh]
 | closeHeard i hrefresh hloop=>
  rw[Deadlocked,hloop,hrefresh,Prudent]
  cases s.refresh with
  | none=>simp
  | some r=>simp
 | refresh m hloop hr hmove hr'=>
  rw[Deadlocked,hloop,hr',prudent_refresh]
  simp only[mem_some_iff,exists_eq_left',Refresh.move_asks hmove]
 | outside hs ht hok=>exact iff_of_true (ht ·.1) hok
 | ended hfin ht hok=>exact iff_of_true (fun hdead=>absurd (ht.symm.trans hdead.1) nofun) hok

lemma deadlocked_step(h:Deadlocked s)(hstep:step s a=some t):Deadlocked t:=by
 obtain⟨hdrain,r,hr,hasks⟩:=h
 cases effect_of_step hstep with
 | kept hloop hrefresh hok=>exact⟨hloop.trans hdrain,r,hrefresh▸hr,hasks⟩
 | closeHeard i hrefresh hloop=>simp[step,hdrain]at hstep
 | refresh m hloop hr0 hmove hr'=>
  obtain rfl:=Option.mem_unique hr hr0
  simp[hdrain,Refresh.not_move_of_asks hasks]at hmove
 | outside hs ht hok=>exact absurd hdrain hs
 | ended hfin ht hok=>
  obtain rfl:r=.finished:=some.inj (hr.symm.trans hfin)
  obtain hasks|hasks:=hasks
  ·cases hasks
  cases hasks

lemma deadlocked_exec(h:Deadlocked s)(hrun:exec step s actions=some t):Deadlocked t:=
 exec_invariant (fun _ _ _ hs hstep=>deadlocked_step hs hstep) h hrun

/-- A run of the table meets a state in which closing is stuck exactly when one of its steps is
not prudent. -/
theorem close_never_stuck_iff {t : Table} {actions : List Action}
    (hrun : exec step newTable actions = some t) :
    Throughout step (fun s => ¬Stuck s) newTable actions ↔
      Careful step Prudent newTable actions := by
 refine throughout_iff_careful (fun _ _ _ hs hstep=>coherent_step hs hstep) ?_ hrun
  coherent_newTable ?_
 · intro s a m hs hgood hstep
   rw[stuck_iff (coherent_step hs hstep)]
   exact not_deadlocked_step (fun hdead=>hgood (stuck_of_deadlocked hs hdead)) hstep
 rw[stuck_iff coherent_newTable]
 exact fun hdead=>absurd hdead.1 nofun

/-- A refresh that fills the empty table with a seed, and a close that waits for it. -/
def seededClose:List Action:=
 [.tick,.refresh (.lookup .look),.heard none,.refresh (.seeds 1),.refresh .bonded,
  .refresh (.stuff 1),.call .close,.closeHeard 0,.refresh (.lookup .look),
  .refresh (.lookup .query),.refresh (.lookup .reply),.refresh (.lookup .receive),
  .refresh (.lookup .stop),.refresh .leave,.drained,.ended,.caller 0 .released]

theorem close_never_stuck_seeded :
    exec step newTable seededClose = some ⟨.ended, none, 1, [.returned]⟩ ∧
      Throughout step (fun s => ¬Stuck s) newTable seededClose := by
 have hrun:exec step newTable seededClose=some ⟨.ended,none,1,[.returned]⟩:=by decide
 exact⟨hrun,(close_never_stuck_iff hrun).2 (by decide)⟩

/-- The loop hears of the close before the refresh has looked at the empty table. -/
def emptyClose:List Action:=[.tick,.call .close,.closeHeard 0,.refresh (.lookup .look)]

theorem close_stuck_forever : ∃ t, exec step newTable emptyClose = some t ∧ Stuck t ∧
    ∀ actions u, exec step t actions = some u → Stuck u := by
 have hrun:exec step newTable emptyClose =
  some ⟨.draining,some (.first .asking),0,[.awaiting]⟩ := by decide
 have hinv:∀s a m,Coherent s→step s a=some m → Coherent m:=
  fun _ _ _ hs hstep=>coherent_step hs hstep
 have hcoherent:=exec_invariant hinv coherent_newTable hrun
 have hdead:Deadlocked ⟨.draining,some (.first .asking),0,[.awaiting]⟩:=⟨rfl,_,rfl,.inl rfl⟩
 refine⟨_,hrun,stuck_of_deadlocked hcoherent hdead,fun actions u hu=>?_⟩
 exact stuck_of_deadlocked (exec_invariant hinv hcoherent hu) (deadlocked_exec hdead hu)

end GoCoupe.TableClosing
