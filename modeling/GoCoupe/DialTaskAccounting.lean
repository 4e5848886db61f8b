import GoCoupe.DialTasks
import Mathlib.Data.List.Perm.Subperm

/-!
# No dial task is lost

Every task that the dialer hands over is active, pending or completed, except that tasks handed
over while the active list is full are dropped by `scheduleTasks`.
-/

namespace GoCoupe.DialTaskAccounting
open MapIteration DialTasks List Nat

variable {σ κ ι ρ:Type} {s:Loop σ κ} {new:List (NumberedTask κ)}

/-- Nothing is handed over while the active list is full. -/
def Careful (D:Dialer σ κ ι ρ) (s:Loop σ κ):Event κ ι ρ→Prop
 | .tick i=>
  (D.newTasks s.dialer (s.pendingTasks.length+s.tasks.length) i).1=[] ∨ s.tasks.length < maxActiveDialTasks
 | _=>True

/-- Each task that was handed over is in exactly one place, was started once if it is no longer
pending, and no more tasks are active than allowed. -/
structure Accounted (s:Loop σ κ):Prop where
 placed:s.handed.Perm (s.tasks++s.pendingTasks++s.completed)
 once:s.handed.Nodup
 begun:s.started.Perm (s.tasks++s.completed)
 bounded:s.tasks.length ≤ maxActiveDialTasks

/-- Tasks wait only while the active list is full. -/
def Prompt (s:Loop σ κ):Prop:=s.pendingTasks=[] ∨ s.tasks.length=maxActiveDialTasks

lemma startCount_pos_iff:startCount active waiting>0↔0<waiting∧active < maxActiveDialTasks:=by
 unfold startCount
 split<;>omega

lemma scheduleTasks_idle(h:s.pendingTasks++new=[]∨maxActiveDialTasks ≤ s.tasks.length):
 scheduleTasks s new=s:=by
 unfold scheduleTasks
 dsimp only
 rw[if_neg]
 rw[startCount_pos_iff]
 rintro⟨hpos,hlt⟩
 rcases h with h|h
 ·rw[h]at hpos
  exact lt_irrefl 0 hpos
 omega

/-- What is started, and what is left pending. A careful call keeps every task. -/
lemma scheduleTasks_careful(hbound:s.tasks.length ≤ maxActiveDialTasks)
 (h:new=[]∨s.tasks.length < maxActiveDialTasks):
 ∃go wait,go++wait=s.pendingTasks++new∧(wait=[]∨s.tasks.length+go.length=maxActiveDialTasks)∧
  s.tasks.length+go.length ≤ maxActiveDialTasks∧
  scheduleTasks s new = {s with
   tasks:=s.tasks++go,started:=s.started++go,pendingTasks:=wait}:=by
 by_cases hlt:s.tasks.length < maxActiveDialTasks
 ·by_cases hempty:s.pendingTasks++new=[]
  ·refine⟨[],[],hempty.symm,.inl rfl,hbound,?_⟩
   rw[scheduleTasks_idle (.inl hempty),append_nil,append_nil,←(append_eq_nil_iff.1 hempty).1]
  have hpos:=length_pos_iff.2 hempty
  refine⟨(s.pendingTasks++new).take (startCount s.tasks.length
   (s.pendingTasks++new).length).toNat,(s.pendingTasks++new).drop (startCount s.tasks.length
   (s.pendingTasks++new).length).toNat,take_append_drop _ _,?_,?_,?_⟩
  ·rw[drop_eq_nil_iff,length_take]
   unfold startCount
   split<;>omega
  ·rw[length_take]
   unfold startCount
   split<;>omega
  unfold scheduleTasks
  dsimp only
  rw[if_pos (startCount_pos_iff.2 ⟨hpos,hlt⟩)]
 obtain rfl:new=[]:=h.resolve_right hlt
 refine⟨[],s.pendingTasks,(append_nil _).symm,.inr ?_,hbound,?_⟩
 ·exact Nat.le_antisymm hbound (Nat.le_of_not_lt hlt)
 rw[scheduleTasks_idle (.inr (Nat.le_of_not_lt hlt)),append_nil,append_nil]

lemma mem_number{next:ℕ}(h:t∈number next kinds):next≤t.id∧t.id<next+kinds.length:=by
 obtain⟨⟨k,i⟩,hk,rfl⟩:=mem_map.1 h
 have hlt:=snd_lt_of_mem_zipIdx hk
 exact⟨Nat.le_add_right _ _,Nat.add_lt_add_left (by simpa using hlt) next⟩

lemma exists_mem_number(next:ℕ)(h:k∈kinds):∃t∈number next kinds,t.kind=k:=by
 obtain⟨i,hi,rfl⟩:=mem_iff_getElem.1 h
 refine⟨⟨next+i,kinds[i]⟩,mem_map.2 ⟨(kinds[i],i),?_,rfl⟩,rfl⟩
 rw[mem_zipIdx_iff_getElem?]
 exact getElem?_eq_getElem hi

lemma nodup_number(next:ℕ)(kinds:List κ):(number next kinds).Nodup:=by
 apply Nodup.of_map NumberedTask.id
 rw[number,map_map]
 have hids:(NumberedTask.id ∘ fun k:κ × ℕ=>(⟨next+k.2,k.1⟩:NumberedTask κ))=(next+·) ∘ Prod.snd:=rfl
 rw[hids,←map_map,zipIdx_map_snd]
 exact (nodup_range').map (fun i j hij=>add_left_cancel hij)

lemma number_eq_nil{next:ℕ}:number next kinds=[]↔kinds=[]:=by
 cases kinds with
 | nil=>simp[number]
 | cons k kinds=>simp[number]

variable {D:Dialer σ κ ι ρ} {i:ι}

structure Fresh (s:Loop σ κ):Prop where
 below:∀t∈s.handed,t.id < s.next
 once:s.handed.Nodup

def offered (D:Dialer σ κ ι ρ) (s:Loop σ κ) (i:ι):List (NumberedTask κ):=
 number s.next (D.newTasks s.dialer (s.pendingTasks.length+s.tasks.length) i).1

def asked (D:Dialer σ κ ι ρ) (s:Loop σ κ) (i:ι):Loop σ κ:=
 {s with
  dialer:=(D.newTasks s.dialer (s.pendingTasks.length+s.tasks.length) i).2
  next:=s.next+(D.newTasks s.dialer (s.pendingTasks.length+s.tasks.length) i).1.length
  handed:=s.handed++offered D s i}

lemma tick_eq(D:Dialer σ κ ι ρ)(s:Loop σ κ)(i:ι):
 tick D s i=scheduleTasks (asked D s i) (offered D s i):=rfl

lemma scheduleTasks_rest(s:Loop σ κ)(new:List (NumberedTask κ)):
 (scheduleTasks s new).handed=s.handed∧(scheduleTasks s new).next=s.next∧
  (scheduleTasks s new).completed=s.completed∧
  (scheduleTasks s new).dialer=s.dialer:=by
 unfold scheduleTasks
 dsimp only
 split<;>exact⟨rfl,rfl,rfl,rfl⟩

lemma handed_tick(D:Dialer σ κ ι ρ)(s:Loop σ κ)(i:ι):(tick D s i).handed=s.handed++offered D s i:=
 (scheduleTasks_rest _ _).1

lemma Fresh.tick(h:Fresh s)(D:Dialer σ κ ι ρ)(i:ι):Fresh (tick D s i):=by
 have hnext:(DialTasks.tick D s i).next=s.next +
  (D.newTasks s.dialer (s.pendingTasks.length+s.tasks.length) i).1.length:=
  (scheduleTasks_rest _ _).2.1
 constructor
 ·intro t ht
  rw[handed_tick,mem_append]at ht
  rw[hnext]
  rcases ht with ht|ht
  ·exact Nat.lt_add_right _ (h.below t ht)
  exact (mem_number ht).2
 rw[handed_tick,nodup_append']
 refine⟨h.once,nodup_number _ _,fun t ht ht'=>?_⟩
 exact absurd (h.below t ht) (not_lt.2 (mem_number ht').1)

/-- A careful turn: what it hands over is started or kept. -/
lemma tick_careful(hb:s.tasks.length ≤ maxActiveDialTasks)(hc:Careful D s (.tick i)):
 ∃go wait,go++wait=s.pendingTasks++offered D s i∧
  (wait=[]∨s.tasks.length+go.length=maxActiveDialTasks)∧
  s.tasks.length+go.length ≤ maxActiveDialTasks∧
  (tick D s i).tasks=s.tasks++go∧(tick D s i).started=s.started++go∧
  (tick D s i).pendingTasks=wait∧(tick D s i).completed=s.completed:=by
 obtain⟨go,wait,happend,hprompt,hle,heq⟩:=@scheduleTasks_careful σ κ (asked D s i)
  (offered D s i) hb (hc.imp_left number_eq_nil.2)
 rw[tick_eq,heq]
 exact⟨go,wait,happend,hprompt,hle,rfl,rfl,rfl,rfl⟩

lemma Accounted.tick(h:Accounted s)(hf:Fresh s)(hc:Careful D s (.tick i)):
 Accounted (tick D s i)∧Prompt (tick D s i):=by
 obtain⟨go,wait,happend,hprompt,hle,htasks,hstarted,hpending,hcompleted⟩:=tick_careful h.bounded hc
 refine⟨⟨?_,(hf.tick D i).once,?_,?_⟩,?_⟩
 ·rw[handed_tick,htasks,hpending,hcompleted,append_assoc s.tasks,happend]
  refine (h.placed.append_right _).trans ?_
  rw[←append_assoc s.tasks,append_assoc _ s.completed,append_assoc _ (offered D s i)]
  exact perm_append_comm.append_left _
 ·rw[hstarted,htasks,hcompleted]
  refine (h.begun.append_right _).trans ?_
  rw[append_assoc,append_assoc]
  exact perm_append_comm.append_left _
 ·rw[htasks,length_append]
  exact hle
 unfold Prompt
 rw[hpending,htasks,length_append]
 exact hprompt

/-- A started task that was not reported is active. -/
lemma Accounted.mem_tasks(h:Accounted s)(hs:t∈s.started)(hc:t∉s.completed):t∈s.tasks:=
 (mem_append.1 (h.begun.mem_iff.1 hs)).resolve_right hc

/-- Tasks that are handed over while the active list is full are in no place afterwards. -/
lemma not_accounted_of_careless(h:Accounted s)(hc:¬Careful D s (.tick i)):
 ¬Accounted (tick D s i):=by
 intro h'
 obtain⟨hkinds,hfull⟩:=not_or.1 hc
 have htick:tick D s i=asked D s i:=scheduleTasks_idle (.inr (Nat.le_of_not_lt hfull))
 have hlost:offered D s i≠[]:=mt number_eq_nil.1 hkinds
 have hplaced:=h'.placed.length_eq
 rw[htick]at hplaced
 change (s.handed++offered D s i).length=(s.tasks++s.pendingTasks++s.completed).length at hplaced
 rw[length_append,h.placed.length_eq]at hplaced
 have hpos:=length_pos_iff.2 hlost
 omega

variable [DecidableEq κ]

lemma Fresh.step(h:Fresh s)(e:Event κ ι ρ):Fresh (step D s e):=by
 cases e with
 | tick i=>exact h.tick D i
 | done t r=>
  rw[DialTasks.step]
  split
  ·exact⟨h.below,h.once⟩
  exact h
 | addStatic n=>exact⟨h.below,h.once⟩

lemma Accounted.taskDone(h:Accounted s)(ht:t∈s.tasks)(r:ρ):Accounted (taskDone D s t r):=by
 have herase:=perm_cons_erase ht
 refine⟨?_,h.once,?_,?_⟩
 ·refine h.placed.trans ?_
  change (s.tasks++s.pendingTasks++s.completed).Perm
   (s.tasks.erase t++s.pendingTasks++(s.completed++[t]))
  refine ((herase.append_right _).append_right _).trans ?_
  rw[←append_assoc]
  exact (perm_append_singleton t _).symm
 ·refine h.begun.trans ?_
  change (s.tasks++s.completed).Perm (s.tasks.erase t++(s.completed++[t]))
  refine (herase.append_right _).trans ?_
  rw[←append_assoc]
  exact (perm_append_singleton t _).symm
 exact (length_erase_le).trans h.bounded

lemma Accounted.step(h:Accounted s)(hf:Fresh s){e:Event κ ι ρ}(hc:Careful D s e):
 Accounted (step D s e):=by
 cases e with
 | tick i=>exact (h.tick hf hc).1
 | done t r=>
  rw[DialTasks.step]
  split
  ·rename_i hdone
   exact h.taskDone (h.mem_tasks hdone.1 hdone.2) r
  exact h
 | addStatic n=>exact⟨h.placed,h.once,h.begun,h.bounded⟩

variable {d:σ} {events before after:List (Event κ ι ρ)} {e:Event κ ι ρ}

lemma run_concat(s:Loop σ κ):run D s (before++[e])=step D (run D s before) e:=foldl_append

def CarefulRun (D:Dialer σ κ ι ρ) (d:σ) (events:List (Event κ ι ρ)):Prop:=
 ∀before e after,events=before++e::after → Careful D (run D (begin d) before) e

structure Kept (D:Dialer σ κ ι ρ) (d:σ) (events:List (Event κ ι ρ)):Prop where
 accounted:∀before after,events=before++after → Accounted (run D (begin d) before)
 prompt:∀before i after,events=before++.tick i::after→Prompt (tick D (run D (begin d) before) i)

lemma fresh_run(D:Dialer σ κ ι ρ)(d:σ)(events:List (Event κ ι ρ)):Fresh (run D (begin d) events):=by
 induction events using reverseRecOn with
 | nil=>exact⟨nofun,nodup_nil⟩
 | append_singleton before e ih=>
  rw[run_concat]
  exact ih.step e

lemma accounted_run(hc:CarefulRun D d events)(h:events=before++after):
 Accounted (run D (begin d) before):=by
 induction before using reverseRecOn generalizing after with
 | nil=>exact⟨Perm.refl _,nodup_nil,Perm.refl _,zero_le _⟩
 | append_singleton before e ih=>
  rw[run_concat]
  rw[append_assoc,singleton_append]at h
  exact (ih h).step (fresh_run D d before) (hc before e after h)

lemma kept_of_careful(hc:CarefulRun D d events):Kept D d events where
 accounted _ _ h:=accounted_run hc h
 prompt before _ after h:=((accounted_run hc h).tick (fresh_run D d before) (hc before _ after h)).2

lemma careful_of_accounted(h:∀before after,events=before++after → Accounted (run D (begin d) before)):
 CarefulRun D d events:=by
 intro before e after heq
 cases e with
 | tick i=>
  by_contra hc
  refine not_accounted_of_careless (h before _ heq) hc ?_
  have hafter:=h (before++[.tick i]) after (by rw[heq,append_assoc];rfl)
  rw[run_concat]at hafter
  exact hafter
 | done t r=>trivial
 | addStatic n=>trivial

section Induction

variable {P:ℤ→Adding→Prop} {peers:GoMap NodeId ConnFlag} {need:ℤ} {a:Adding}

def Dials (peers:GoMap NodeId ConnFlag) (P:ℤ→Adding→Prop):Prop:=∀need a n,0<need→P need a →
 P (if (addDial peers a dynDialedConn n).1 then need-1 else need) (addDial peers a dynDialedConn n).2

lemma dialCandidates_induction(hdyn:Dials peers P)(enough:ℤ→Bool)(nodes:List Node)
 (hpos:∀m≤need,need-nodes.length < m→enough m=false → 0 < m)(h:P need a):
 P (dialCandidates peers enough nodes need a).2.1 (dialCandidates peers enough nodes need a).2.2:=by
 induction nodes generalizing need a with
 | nil=>exact h
 | cons n nodes ih=>
  rw[dialCandidates]
  rw[length_cons]at hpos
  split
  ·exact h
  rename_i henough
  have hneed:=hpos need le_rfl (by omega) (by simpa using henough)
  refine ih (fun m hm hlt=>?_) (hdyn need a n hneed h)
  split at hm<;>exact hpos m (by omega) (by simp_all;omega)

/-- What one turn of the dialer does: dials, dynamic ones while they are needed, a lookup if none
is running, and a timer if there is no other task. -/
lemma newTasks_induction{s:DialState}{i:Surroundings}
 (hstart:P (needDynDials s i) ⟨{s with hist:=expire s.hist i.now},[]⟩)
 (hstatic:∀need a n,P need a→P need (addDial i.peers a staticDialedConn n).2)
 (hdyn:Dials i.peers P)
 (hbuf:∀need a buf,P need a→P need ⟨{a.dialer with lookupBuf:=buf},a.newtasks⟩)
 (hlook:∀need a bootstrap,a.dialer.lookupRunning=false→P need a →
  P need ⟨{a.dialer with lookupRunning:=true},a.newtasks++[.discover bootstrap]⟩)
 (htimer:∀need a d,a.newtasks=[]→P need a→P need ⟨a.dialer,[.waitExpire d]⟩)(nRunning:ℕ):
 ∃need,P need ⟨(newTasks s nRunning i).2,(newTasks s nRunning i).1⟩:=by
 have hs:P (needDynDials s i) (dialStatic s i):=
  foldlRecOn (motive:=P (needDynDials s i)) _ _ hstart (fun a h e _=>hstatic _ a e.2 h)
 have hlen:∀m≤needDynDials s i,
  needDynDials s i-(randomCandidates s i (needDynDials s i)).length < m → 0 < m:=by
  intro m hm hlt
  unfold randomCandidates at hlt
  split at hlt
  ·have hhalf:=Int.tdiv_mul_le (needDynDials s i) (b:=2) two_ne_zero
   rw[length_take]at hlt
   split at hhalf<;>omega
  ·exact absurd hm (by simpa using hlt)
 have hr:=dialCandidates_induction hdyn (fun _=>false) _ (fun m hm hlt _=>hlen m hm hlt) hs
 have hb:P (dialDynamic s i).1 (dialDynamic s i).2:=
  hbuf _ _ _ (dialCandidates_induction hdyn (·≤0) s.lookupBuf 
   (fun m _ _ hm=>by simpa using hm) hr)
 have hl:P (dialDynamic s i).1 (launchLookup (dialDynamic s i).1 (dialDynamic s i).2):=by
  unfold launchLookup
  split
  ·rename_i h
   exact hlook _ _ _ (by simpa using h.2) hb
  ·exact hb
 refine⟨(dialDynamic s i).1,?_⟩
 change P _ (launchTimer nRunning i.now _)
 unfold launchTimer
 split
 ·rename_i h
  split
  ·exact htimer _ _ _ h.2 hl
  ·exact hl
 ·exact hl

end Induction

/-- The dialer's record is backed by tasks: every node it believes to be dialled has a dial task,
and a running lookup a discovery task, that is active or pending. -/
structure Backed (s:Loop DialState TaskKind):Prop where
 dialing:∀id∈s.dialer.dialing,∃t∈s.tasks++s.pendingTasks,∃flags dest,
  t.kind=.dial flags dest ∧ dest.id=id
 lookup:s.dialer.lookupRunning=true→∃t∈s.tasks++s.pendingTasks,∃bootstrap,t.kind=.discover bootstrap

structure Recorded (old:DialState) (a:Adding):Prop where
 dialing:∀id∈a.dialer.dialing,id∈old.dialing ∨ ∃flags dest,.dial flags dest∈a.newtasks ∧ dest.id=id
 lookup:a.dialer.lookupRunning=true → old.lookupRunning=true ∨ ∃bootstrap,.discover bootstrap∈a.newtasks

variable {old:DialState} {a:Adding} {peers:GoMap NodeId ConnFlag}

/-- Another task does not undo the record. -/
lemma Recorded.push(h:Recorded old a)(t:TaskKind):
 Recorded old {a with newtasks:=a.newtasks++[t]}:=by
 constructor
 ·intro id hid
  refine (h.dialing id hid).imp_right ?_
  rintro⟨flags,dest,hmem,hdest⟩
  exact⟨flags,dest,mem_append_left _ hmem,hdest⟩
 ·intro hrun
  refine (h.lookup hrun).imp_right ?_
  rintro⟨bootstrap,hmem⟩
  exact⟨bootstrap,mem_append_left _ hmem⟩

lemma Recorded.addDial(h:Recorded old a)(flag:ConnFlag)(n:Node):
 Recorded old (addDial peers a flag n).2:=by
 unfold DialTasks.addDial
 split
 ·exact h
 constructor
 ·intro id hid
  rw[AList.mem_insert]at hid
  rcases hid with rfl|hid
  ·exact .inr ⟨flag,n,mem_append_right _ (mem_singleton_self _),rfl⟩
  exact (h.push _).dialing id hid
 exact (h.push _).lookup

lemma recorded_newTasks(s:DialState)(nRunning:ℕ)(i:Surroundings):
 Recorded s ⟨(newTasks s nRunning i).2,(newTasks s nRunning i).1⟩:=by
 refine (@newTasks_induction (fun _ a=>Recorded s a) s i
  ⟨fun _ hid=>.inl hid,fun hrun=>.inl hrun⟩ (fun _ _ n h=>h.addDial _ n)
  (fun _ _ n _ h=>h.addDial _ n) (fun _ _ _ h=>⟨h.dialing,h.lookup⟩) ?_ ?_ nRunning).elim fun _ h=>h
 ·refine fun _ a bootstrap _ h=>⟨fun id hid=>?_,fun _=>.inr ⟨_,mem_append_right _ (mem_singleton_self _)⟩⟩
  exact (h.push _).dialing id hid
 ·refine fun _ a d hidle h=>⟨fun id hid=>(h.dialing id hid).imp_right ?_,fun hrun=>(h.lookup hrun).imp_right ?_⟩
  ·rintro⟨flags,dest,hmem,-⟩
   exact absurd (hidle▸hmem) not_mem_nil
  ·rintro⟨bootstrap,hmem⟩
   exact absurd (hidle▸hmem) not_mem_nil

variable {s:Loop DialState TaskKind} {i:Surroundings}

/-- A careful turn backs what the dialer newly records. -/
lemma Backed.tick(h:Backed s)(hb:s.tasks.length ≤ maxActiveDialTasks)
 (hc:Careful dialstate s (.tick i)):Backed (tick dialstate s i):=by
 obtain⟨go,wait,happend,-,-,htasks,-,hpending,-⟩:=tick_careful hb hc
 have hmem:∀t,t∈(DialTasks.tick dialstate s i).tasks ++ (DialTasks.tick dialstate s i).pendingTasks↔
  t∈s.tasks++s.pendingTasks∨t∈offered dialstate s i:=by
  intro t
  rw[htasks,hpending,append_assoc,happend,←append_assoc,mem_append]
 have hdialer:(DialTasks.tick dialstate s i).dialer =
  (newTasks s.dialer (s.pendingTasks.length+s.tasks.length) i).2:=by
  rw[tick_eq]
  exact (scheduleTasks_rest _ _).2.2.2
 have hrec:=recorded_newTasks s.dialer (s.pendingTasks.length+s.tasks.length) i
 constructor
 ·intro id hid
  rw[hdialer]at hid
  rcases hrec.dialing id hid with hold|⟨flags,dest,hnew,hdest⟩
  ·obtain⟨t,ht,hkind⟩:=h.dialing id hold
   exact⟨t,(hmem t).2 (.inl ht),hkind⟩
  obtain⟨t,ht,hkind⟩:=exists_mem_number s.next hnew
  exact⟨t,(hmem t).2 (.inr ht),flags,dest,hkind,hdest⟩
 intro hrun
 rw[hdialer]at hrun
 rcases hrec.lookup hrun with hold|⟨bootstrap,hnew⟩
 ·obtain⟨t,ht,hkind⟩:=h.lookup hold
  exact⟨t,(hmem t).2 (.inl ht),hkind⟩
 obtain⟨t,ht,hkind⟩:=exists_mem_number s.next hnew
 exact⟨t,(hmem t).2 (.inr ht),bootstrap,hkind⟩

/-- A task other than the one that is done stays where it is. -/
lemma mem_taskDone(ht:t'∈s.tasks++s.pendingTasks)(hne:t'.kind≠t.kind):
 t'∈(taskDone dialstate s t r).tasks++(taskDone dialstate s t r).pendingTasks:=by
 rcases mem_append.1 ht with ht|ht
 ·refine mem_append_left _ ((mem_erase_of_ne ?_).2 ht)
  rintro rfl
  exact hne rfl
 exact mem_append_right _ ht

lemma Backed.taskDone(h:Backed s)(t:NumberedTask TaskKind)(r:ℕ × List Node):
 Backed (taskDone dialstate s t r):=by
 have hdialer:(DialTasks.taskDone dialstate s t r).dialer=s.dialer.taskDone t.kind r:=rfl
 constructor
 ·intro id hid
  rw[hdialer]at hid
  cases hkind:t.kind with
  | dial flags dest=>
   rw[hkind]at hid
   obtain⟨hne,hold⟩:=AList.mem_erase.1 hid
   obtain⟨t',ht',flags',dest',hkind',hdest'⟩:=h.dialing id hold
   refine⟨t',mem_taskDone ht' ?_,flags',dest',hkind',hdest'⟩
   rw[hkind,hkind']
   intro heq
   exact hne (hdest'.symm.trans (congrArg Node.id (TaskKind.dial.inj heq).2))
  | discover | waitExpire=>
   rw[hkind]at hid
   obtain⟨t',ht',flags',dest',hkind',hdest'⟩:=h.dialing id hid
   exact⟨t',mem_taskDone ht' (by rw[hkind,hkind'];nofun),flags',dest',hkind',hdest'⟩
 intro hrun
 rw[hdialer]at hrun
 cases hkind:t.kind with
 | dial | waitExpire=>
  rw[hkind]at hrun
  obtain⟨t',ht',bootstrap',hkind'⟩:=h.lookup hrun
  exact⟨t',mem_taskDone ht' (by rw[hkind,hkind'];nofun),bootstrap',hkind'⟩
 | discover bootstrap=>
  rw[hkind]at hrun
  exact absurd hrun Bool.false_ne_true

lemma Backed.step(h:Backed s)(ha:Accounted s)
 {e:Event TaskKind Surroundings (ℕ × List Node)}(hc:Careful dialstate s e):
 Backed (step dialstate s e):=by
 cases e with
 | tick i=>exact h.tick ha.bounded hc
 | done t r=>
  rw[DialTasks.step]
  split
  ·exact h.taskDone t r
  exact h
 | addStatic n=>exact⟨h.dialing,h.lookup⟩

variable {events before after:List (Event TaskKind Surroundings (ℕ × List Node))}
 {static:List Node} {maxdyn:ℤ}

lemma backed_run(hc:CarefulRun dialstate (newDialState static maxdyn) events)
 (h:events=before++after):
 Backed (run dialstate (begin (newDialState static maxdyn)) before):=by
 induction before using reverseRecOn generalizing after with
 | nil=>
  exact⟨fun _ hid=>absurd hid (AList.notMem_empty _),fun h=>absurd h Bool.false_ne_true⟩
 | append_singleton before e ih=>
  rw[run_concat]
  rw[append_assoc,singleton_append]at h
  exact (ih h).step (accounted_run hc h) (hc before e after h)

/-- No task of any dialer is lost, in a run of the loop, if and only if none is handed over
while the active list is full. For the dialer of the server, what it believes to be under way
then always belongs to a task that is active or pending. -/
theorem no_task_lost_iff {σ κ ι ρ : Type} [DecidableEq κ] (D : Dialer σ κ ι ρ) (d : σ)
    (events : List (Event κ ι ρ)) (static : List Node) (maxdyn : ℤ)
    (dials : List (Event TaskKind Surroundings (ℕ × List Node))) :
    (Kept D d events ↔ CarefulRun D d events) ∧
    ((Kept dialstate (newDialState static maxdyn) dials ∧ ∀ before after,
        dials = before ++ after →
          Backed (run dialstate (begin (newDialState static maxdyn)) before)) ↔
      CarefulRun dialstate (newDialState static maxdyn) dials) := by
 constructor
 · exact⟨fun h=>careful_of_accounted h.accounted,kept_of_careful⟩
 constructor
 · exact fun h=>careful_of_accounted h.1.accounted
 exact fun hc=>⟨kept_of_careful hc,fun _ _ h=>backed_run hc h⟩

def quiet:Surroundings:=⟨∅,0,[],id,Perm.refl⟩

def node (n:ℕ):Node:=⟨BitVec.ofNat 512 n,[127,0,0,1],30303,30303⟩

theorem no_task_lost_one_node :
    Kept dialstate (newDialState [node 0] 0) [.tick quiet] ∧
      Backed (run dialstate (begin (newDialState [node 0] 0)) [.tick quiet]) := by
 have hc:CarefulRun dialstate (newDialState [node 0] 0) [.tick quiet]:=by
  intro before e after h
  cases before with
  | nil =>
   rw[nil_append] at h
   rw[←(cons.inj h).1]
   exact .inr (by decide)
  | cons x before=>exact absurd (congrArg length h) (by simp)
 obtain⟨hkept,hbacked⟩:=(no_task_lost_iff dialstate (newDialState [node 0] 0) [.tick quiet]
  [node 0] 0 [.tick quiet]).2.2 hc
 exact⟨hkept,hbacked [.tick quiet] [] rfl⟩

/-- Sixteen static nodes are dialled when another one is added. -/
def fullRun:List (Event TaskKind Surroundings (ℕ × List Node)):=
 [.tick quiet,.addStatic (node 16),.tick quiet]

def afterFullRun:Loop DialState TaskKind:=
 run dialstate (begin (newDialState ((range 16).map node) 0)) fullRun

def dialledId:TaskKind→Option NodeId
 | .dial _ dest=>some dest.id
 | _=>none

/-- The dial of the seventeenth node is lost, and the dialer believes that it goes on. -/
theorem dial_task_lost :
    ¬Kept dialstate (newDialState ((List.range 16).map node) 0) fullRun ∧
    (node 16).id ∈ afterFullRun.dialer.dialing ∧ ¬Backed afterFullRun := by
 have hdialing:(node 16).id∈afterFullRun.dialer.dialing:=by decide +kernel
 refine⟨fun h=>?_,hdialing,fun h=>?_⟩
 · have hplaced:=(h.accounted fullRun [] rfl).placed.length_eq
   have hne:afterFullRun.handed.length≠(afterFullRun.tasks++afterFullRun.pendingTasks ++
    afterFullRun.completed).length:=by decide +kernel
   exact hne hplaced
 obtain⟨t,ht,flags,dest,hkind,hdest⟩:=h.dialing _ hdialing
 have hnone:∀t∈afterFullRun.tasks++afterFullRun.pendingTasks,
  dialledId t.kind≠some (node 16).id:=by decide +kernel
 apply hnone t ht
 rw[hkind,dialledId,hdest]

end GoCoupe.DialTaskAccounting
