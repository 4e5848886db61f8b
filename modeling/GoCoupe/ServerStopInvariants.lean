import GoCoupe.ServerStopping

/-!
# Who waits for whom while the server stops

What each action needs and does, and four invariants: of the lock, of connections that wait for
an answer, of goroutines that wait for the end of their operation, and of the peers of the map.
-/

namespace GoCoupe.ServerStopInvariants
open GuardedRuns MapIteration ServerStopping List Option AList

variable {ι:Type} {s t:Server ι} {cfg:Config ι} {a:Action ι} {i:ℕ} {p p':Proc ι}

section Lists

variable {α:Type} {l:List α} {j:ℕ} {a b c:α}

lemma getElem?_set_here(h:l[i]?=some c):(l.set i a)[i]?=some a:=by
 rw[getElem?_set_self (List.getElem?_eq_some_iff.1 h).1]

/-- What stands at an index of a list in which one element was exchanged. -/
lemma getElem?_set_cases(h:(l.set i a)[j]?=some b):(j=i∧b=a)∨(j≠i∧l[j]?=some b):=by
 by_cases hij:i=j
 ·subst hij
  rw[getElem?_set]at h
  simp only[if_true]at h
  split at h
  ·exact .inl ⟨rfl,(some.inj h).symm⟩
  cases h
 rw[getElem?_set_ne hij]at h
 exact .inr ⟨Ne.symm hij,h⟩

lemma getElem?_append_cases(h:(l++[a])[j]?=some b):l[j]?=some b∨(j=l.length∧b=a):=by
 rw[getElem?_append]at h
 split at h
 ·exact .inl h
 rename_i hj
 obtain⟨hj',hb⟩:=List.getElem?_eq_some_iff.1 h
 rw[length_singleton]at hj'
 have hzero:j-l.length=0:=by omega
 simp only[hzero,getElem_cons_zero]at hb
 exact .inr ⟨by omega,hb.symm⟩

lemma getElem?_append_of_some(h:l[j]?=some b):(l++[a])[j]?=some b:=by
 rw[getElem?_append_left (List.getElem?_eq_some_iff.1 h).1,h]

end Lists

section Moves

variable [DecidableEq ι] [Inhabited ι]

inductive Moves (cfg:Config ι) (s:Server ι):Action ι→Server ι→Prop where
 | conn {i:ℕ} {m:ConnMove ι} {c c':Conn ι} (hc:s.conns[i]?=some c)
  (hm:c.move s m=some c'):Moves cfg s (.conn i m) {s with conns:=s.conns.set i c'}
 | proc {k:ℕ} {m:ProcMove} {p p':Proc ι} (hp:s.procs[k]?=some p)
  (hm:p.move s.quit m=some p') :
  Moves cfg s (.proc k m) {s with procs:=s.procs.set k p'}
 | caller {i:ℕ} {c c':Caller} (hc:s.callers[i]?=some c) (hm:c.move s=some c') :
  Moves cfg s (.caller i) {s with callers:=s.callers.set i c'}
 | stop {i:ℕ} (hc:s.callers[i]?=some (.stop .start)) (hlock:s.lock=none)
  (hrunning:s.running=true):Moves cfg s (.stop i) {s with
   lock:=some i,running:=false,listening:=false
   callers:=s.callers.set i (.stop .closing)}
 | stopIdle {i:ℕ} (hc:s.callers[i]?=some (.stop .start)) (hlock:s.lock=none)
  (hrunning:s.running=false) :
  Moves cfg s (.stop i) {s with callers:=s.callers.set i (.stop .returned)}
 | closeQuit {i:ℕ} (hc:s.callers[i]?=some (.stop .closing)) :
  Moves cfg s (.closeQuit i)
   {s with quit:=true,callers:=s.callers.set i (.stop .waiting)}
 | stopped {i:ℕ} (hc:s.callers[i]?=some (.stop .waiting)) (hrun:s.run=.ended)
  (hlisten:s.listen=.ended):Moves cfg s (.stopped i)
   {s with lock:=none,callers:=s.callers.set i (.stop .returned)}
 | quitHeard (hrun:s.run=.selecting) (hquit:s.quit=true) :
  Moves cfg s .quitHeard {s with run:=.closingTable}
 | callerHeard {i:ℕ} (hrun:s.run=.selecting)
  (hc:s.callers[i]?=some (.peerCount .asking)):Moves cfg s (.opHeard (.caller i)) {s with
   run:=.answeringOp (.caller i),callers:=s.callers.set i (.peerCount .waiting)}
 | procHeard {k:ℕ} {p p':Proc ι} (hrun:s.run=.selecting) (hp:s.procs[k]?=some p)
  (hm:p.count Count.ask=some p'):Moves cfg s (.opHeard (.proc k)) {s with
   run:=.answeringOp (.proc k),procs:=s.procs.set k p'}
 | callerDone {i:ℕ} {w:Counter} (hrun:s.run=.answeringOp w)
  (hc:s.callers[i]?=some (.peerCount .waiting)):Moves cfg s (.opDone (.caller i)) {s with
   run:=.selecting,callers:=s.callers.set i (.peerCount .counted)}
 | procDone {k:ℕ} {w:Counter} {p p':Proc ι} (hrun:s.run=.answeringOp w)
  (hp:s.procs[k]?=some p) (hm:p.count Count.answer=some p') :
  Moves cfg s (.opDone (.proc k)) {s with
   run:=.selecting,procs:=s.procs.set k p'}
 | staticHeard {i:ℕ} (hrun:s.run=.selecting)
  (hc:s.callers[i]?=some (.addPeer false)) :
  Moves cfg s (.staticHeard i) {s with callers:=s.callers.set i (.addPeer true)}
 | connHeard {i:ℕ} {c:Conn ι} {r:Stage × Conn ι} (hrun:s.run=.selecting)
  (hc:s.conns[i]?=some c) (hr:c.heard cfg=some r):Moves cfg s (.connHeard i)
   {s with run:=.checking r.1 i,conns:=s.conns.set i r.2}
 | check {stage:Stage} {i:ℕ} {c:Conn ι} (hrun:s.run=.checking stage i)
  (hc:s.conns[i]?=some c) (hself:CallsSelf cfg stage s.peers c→s.lock=none) :
  Moves cfg s .check
   (s.checked c stage i (checks cfg (s.selfId cfg) s.peers c stage))
 | answered {stage:Stage} {i:ℕ} {err:Option DiscReason} {c:Conn ι}
  (hrun:s.run=.answering stage i err) (hc:s.conns[i]?=some c)
  (hpc:c.pc=.waiting stage):Moves cfg s .answered
   {s with run:=.selecting,conns:=s.conns.set i (c.answer err stage)}
 | delHeard {k:ℕ} {p:Proc ι}
  (hrun:s.run=.selecting ∨ (s.run=.draining ∧ s.peers.entries≠[]))
  (hp:s.procs[k]?=some p) (hpc:p.pc=.leaving):Moves cfg s (.delHeard k) {s with
   peers:=s.peers.erase p.id
   procs:=s.procs.set k {p with pc:=.recounting .asking}}
 | tableClosed {order:List (Σ _:ι,ℕ)} (hrun:s.run=.closingTable)
  (horder:order.Perm s.peers.entries) :
  Moves cfg s (.tableClosed order) {s with run:=.disconnecting (order.map Sigma.snd)}
 | disconnect {k:ℕ} {left:List ℕ} {p p':Proc ι}
  (hrun:s.run=.disconnecting (k::left)) (hp:s.procs[k]?=some p)
  (hm:p.disconnect=some p'):Moves cfg s .disconnect
   {s with run:=.disconnecting left,procs:=s.procs.set k p'}
 | drain (hrun:s.run=.disconnecting []):Moves cfg s .drain {s with run:=.draining}
 | runEnded (hrun:s.run=.draining) (hpeers:s.peers.entries=[]) :
  Moves cfg s .runEnded {s with run:=.ended}
 | takeSlot (hlisten:s.listen=.waitingSlot) (hslots:0 < s.slots) :
  Moves cfg s .takeSlot {s with listen:=.accepting,slots:=s.slots-1}
 | accept (hlisten:s.listen=.accepting) (hopen:s.listening=true) :
  Moves cfg s .accept {s with
   listen:=.waitingSlot
   conns:=s.conns++[⟨.start,default,none,false,false,0,true⟩]}
 | acceptFailed (hlisten:s.listen=.accepting) (hshut:s.listening=false) :
  Moves cfg s .acceptFailed {s with listen:=.ended}
 | giveSlot {i:ℕ} {c:Conn ι} (hc:s.conns[i]?=some c) (hslot:c.slot=true)
  (hpc:c.pc=.closed ∨ c.pc=.established):Moves cfg s (.giveSlot i)
   {s with slots:=s.slots+1,conns:=s.conns.set i {c with slot:=false}}
 | dial {dest:ι} {static:Bool}:Moves cfg s (.dial dest static) {s with
  conns:=s.conns++[⟨.start,default,some dest,false,static,0,false⟩]}
 | call {c:Caller} (hfresh:c.Fresh):Moves cfg s (.call c) {s with callers:=s.callers++[c]}

lemma callerCount_eq_some{f:Count→Option Count}{c c':Caller}
 (h:c.count f=some c'):∃n n',f n=some n'∧c=.peerCount n∧c'=.peerCount n':=by
 cases c with
 | peerCount n=>
  obtain⟨n',hn,rfl⟩:=map_eq_some_iff.1 h
  exact⟨n,n',hn,rfl,rfl⟩
 | stop pc=>cases h
 | addPeer r=>cases h
 | self r=>cases h

lemma ask_eq_some{n n':Count}(h:n.ask=some n'):n=.asking∧n'=.waiting:=by
 cases n<;>cases h
 exact⟨rfl,rfl⟩

lemma answer_eq_some{n n':Count}(h:n.answer=some n'):n=.waiting∧n'=.counted:=by
 cases n<;>cases h
 exact⟨rfl,rfl⟩

lemma moves_of_step
 (h:step cfg s a=some t):Moves cfg s a t:=by
 cases a with
 | conn i m=>
  obtain⟨c,c',hc,hm,rfl⟩:=of_moved h
  exact .conn hc hm
 | proc k m=>
  obtain⟨p,p',hp,hm,rfl⟩:=of_moved h
  exact .proc hp hm
 | caller i=>
  obtain⟨c,c',hc,hm,rfl⟩:=of_moved h
  exact .caller hc hm
 | stop i=>
  rw[step]at h
  split at h<;>[rename_i hi;cases h]
  split at h<;>rename_i hrunning<;>cases h
  ·exact .stop hi.1 hi.2 hrunning
  exact .stopIdle hi.1 hi.2 (Bool.eq_false_iff.2 hrunning)
 | closeQuit i=>
  obtain⟨hi,rfl⟩:=of_guarded h
  exact .closeQuit hi
 | stopped i=>
  obtain⟨hi,rfl⟩:=of_guarded h
  exact .stopped hi.1 hi.2.1 hi.2.2
 | quitHeard=>
  obtain⟨hrun,rfl⟩:=of_guarded h
  exact .quitHeard hrun.1 hrun.2
 | opHeard w=>
  obtain⟨hrun,h⟩:=ite_none_right_eq_some.1 h
  obtain⟨s',hw,rfl⟩:=map_eq_some_iff.1 h
  cases w with
  | caller i=>
   obtain⟨c,c',hc,hm,rfl⟩:=of_moved hw
   obtain⟨n,n',hn,rfl,rfl⟩:=callerCount_eq_some hm
   obtain⟨rfl,rfl⟩:=ask_eq_some hn
   exact .callerHeard hrun hc
  | proc k=>
   obtain⟨p,p',hp,hm,rfl⟩:=of_moved hw
   exact .procHeard hrun hp hm
 | opDone w=>
  rw[step]at h
  split at h<;>[rename_i hrun;cases h]
  obtain⟨s',hw,rfl⟩:=map_eq_some_iff.1 h
  cases w with
  | caller i=>
   obtain⟨c,c',hc,hm,rfl⟩:=of_moved hw
   obtain⟨n,n',hn,rfl,rfl⟩:=callerCount_eq_some hm
   obtain⟨rfl,rfl⟩:=answer_eq_some hn
   exact .callerDone hrun hc
  | proc k=>
   obtain⟨p,p',hp,hm,rfl⟩:=of_moved hw
   exact .procDone hrun hp hm
 | staticHeard i=>
  obtain⟨hrun,rfl⟩:=of_guarded h
  exact .staticHeard hrun.1 hrun.2
 | connHeard i=>
  obtain⟨hrun,h⟩:=ite_none_right_eq_some.1 h
  obtain⟨c,r,hc,hr,rfl⟩:=of_moved h
  exact .connHeard hrun hc hr
 | check=>
  rw[step]at h
  split at h<;>[rename_i hrun;cases h]
  obtain⟨c,hc,h⟩:=bind_eq_some_iff.1 h
  obtain⟨hself,h⟩:=ite_none_left_eq_some.1 h
  cases h
  exact .check hrun hc (fun hcalls=>by_contra (hself ⟨hcalls,·⟩))
 | answered=>
  rw[step]at h
  split at h<;>[rename_i hrun;cases h]
  obtain⟨c,hc,h⟩:=bind_eq_some_iff.1 h
  obtain⟨hpc,rfl⟩:=of_guarded h
  exact .answered hrun hc hpc
 | delHeard k=>
  obtain⟨hrun,h⟩:=ite_none_right_eq_some.1 h
  obtain⟨p,hp,h⟩:=bind_eq_some_iff.1 h
  obtain⟨hpc,rfl⟩:=of_guarded h
  exact .delHeard hrun hp hpc
 | tableClosed order=>
  obtain⟨hrun,rfl⟩:=of_guarded h
  exact .tableClosed hrun.1 hrun.2
 | disconnect=>
  rw[step]at h
  split at h<;>[rename_i hrun;cases h]
  obtain⟨p,p',hp,hm,rfl⟩:=of_moved h
  exact .disconnect hrun hp hm
 | drain=>
  obtain⟨hrun,rfl⟩:=of_guarded h
  exact .drain hrun
 | runEnded=>
  obtain⟨hrun,rfl⟩:=of_guarded h
  exact .runEnded hrun.1 hrun.2
 | takeSlot=>
  obtain⟨hl,rfl⟩:=of_guarded h
  exact .takeSlot hl.1 hl.2
 | accept=>
  obtain⟨hl,rfl⟩:=of_guarded h
  exact .accept hl.1 hl.2
 | acceptFailed=>
  obtain⟨hl,rfl⟩:=of_guarded h
  exact .acceptFailed hl.1 hl.2
 | giveSlot i=>
  obtain⟨c,hc,h⟩:=bind_eq_some_iff.1 h
  obtain⟨hpc,rfl⟩:=of_guarded h
  exact .giveSlot hc hpc.1 hpc.2
 | dial dest static=>
  cases h
  exact .dial
 | call c=>
  obtain⟨hfresh,rfl⟩:=of_guarded h
  exact .call hfresh

end Moves

section Locking

lemma give_eq_some{quit:Bool}{n n':Count}(h:n.give quit=some n'):n=.asking∧n'=.counted:=by
 unfold Count.give at h
 split at h
 ·obtain⟨-,h⟩:=ite_none_right_eq_some.1 h
  exact⟨rfl,(some.inj h).symm⟩
 cases h

/-- What a caller does without `run`. -/
lemma callerMove_eq_some{c c':Caller}(h:c.move s=some c'):
 (c=.peerCount .asking∧c'=.peerCount .counted)∨(c=.addPeer false∧c'=.addPeer true)∨
  (c=.self false∧c'=.self true):=by
 unfold Caller.move at h
 split at h
 ·obtain⟨n,hn,rfl⟩:=map_eq_some_iff.1 h
  obtain⟨rfl,rfl⟩:=give_eq_some hn
  exact .inl ⟨rfl,rfl⟩
 ·split at h<;>cases h
  exact .inr (.inl ⟨rfl,rfl⟩)
 ·split at h<;>cases h
  exact .inr (.inr ⟨rfl,rfl⟩)
 cases h

/-- The caller is a `Stop` with the lock. -/
def Stops (c:Caller):Prop:=c=.stop .closing ∨ c=.stop .waiting

/-- The lock is with the one `Stop` that has not returned, which has closed the listener and,
when it waits, `quit`. -/
structure Locked (s:Server ι):Prop where
 holder:∀i:ℕ,s.lock=some i ↔ ∃c,s.callers[i]?=some c ∧ Stops c
 quits:∀i:ℕ,s.callers[i]?=some (.stop .waiting)→s.quit=true
 shut:s.lock≠none→s.running=false ∧ s.listening=false
 unquit:s.running=true→s.quit=false
 kept:s.quit=true→s.lock≠none ∨ s.run=.ended

lemma locked_started(listens:Bool)(slots:ℕ):Locked (started ι listens slots) where
 holder _:=iff_of_false nofun (fun ⟨_,h,_⟩=>absurd h nofun)
 quits _:=nofun
 shut h:=absurd rfl h
 unquit _:=rfl
 kept:=nofun

/-- A caller without the lock goes on without it. -/
lemma Locked.exchange(h:Locked s){c c':Caller}{run:RunPc}
 (hc:s.callers[i]?=some c)(hold:¬Stops c)(hnew:¬Stops c')
 (hrun:s.run=.ended → run=.ended):
 Locked {s with run:=run,callers:=s.callers.set i c'} where
 holder j:=by
  rw[h.holder j]
  constructor
  ·rintro⟨d,hd,hstops⟩
   have hij:i≠j:=by
    rintro rfl
    exact hold (some.inj (hc.symm.trans hd)▸hstops)
   exact⟨d,by rw[getElem?_set_ne hij,hd],hstops⟩
  rintro⟨d,hd,hstops⟩
  obtain⟨-,rfl⟩|⟨-,hd⟩:=getElem?_set_cases hd
  ·exact absurd hstops hnew
  exact⟨d,hd,hstops⟩
 quits j hj:=by
  obtain⟨-,rfl⟩|⟨-,hj⟩:=getElem?_set_cases hj
  ·exact absurd (.inr rfl) hnew
  exact h.quits j hj
 shut:=h.shut
 unquit:=h.unquit
 kept hquit:=(h.kept hquit).imp id hrun

/-- What the callers and the lock are not part of. -/
lemma Locked.frame(h:Locked s)(hlock:t.lock=s.lock)
 (hcallers:t.callers=s.callers)(hrunning:t.running=s.running)
 (hlistening:t.listening=s.listening)(hquit:t.quit=s.quit)
 (hrun:s.run=.ended→t.run=.ended):Locked t where
 holder i:=by rw[hlock,hcallers,h.holder i]
 quits i:=by rw[hcallers,hquit];exact h.quits i
 shut:=by rw[hlock,hrunning,hlistening];exact h.shut
 unquit:=by rw[hrunning,hquit];exact h.unquit
 kept:=by
  rw[hquit,hlock]
  exact fun hq=>(h.kept hq).imp id hrun

lemma checked_locked [DecidableEq ι](h:Locked s)
 (hrun:s.run≠.ended):Locked (s.checked c stage i err):=by
 rw[Server.checked]
 split
 ·exact h.frame rfl rfl rfl rfl rfl (absurd · hrun)
 exact h.frame rfl rfl rfl rfl rfl (absurd · hrun)

variable [DecidableEq ι] [Inhabited ι]

lemma locked_step(h:Locked s)(hstep:step cfg s a=some t):Locked t:=by
 have hnot:∀{r:RunPc} {P:Prop},s.run=r → r≠.ended→s.run=.ended→P:=
  fun hr hne he=>absurd (hr.symm.trans he) hne
 cases moves_of_step hstep with
 | caller hc hm=>
  obtain⟨rfl,rfl⟩|⟨rfl,rfl⟩|⟨rfl,rfl⟩:=callerMove_eq_some hm
  all_goals exact h.exchange hc (·.elim nofun nofun) (·.elim nofun nofun) id
 | @stop i hc hlock hrunning=>
  refine⟨fun j=>?_,fun j hj=>?_,fun _=>⟨rfl,rfl⟩,nofun,fun _=>.inl nofun⟩
  ·constructor
   ·intro hij
    obtain rfl:=some.inj hij
    exact⟨_,getElem?_set_here hc,.inl rfl⟩
   rintro⟨d,hd,hstops⟩
   obtain⟨rfl,-⟩|⟨-,hd⟩:=getElem?_set_cases hd
   ·rfl
   have:=(h.holder j).2 ⟨d,hd,hstops⟩
   rw[hlock]at this
   cases this
  obtain⟨-,hj⟩|⟨-,hj⟩:=getElem?_set_cases hj
  ·cases hj
  exact h.quits j hj
 | stopIdle hc | staticHeard hrun hc=>
  exact h.exchange hc (·.elim nofun nofun) (·.elim nofun nofun) id
 | @closeQuit i hc=>
  have hlock:=(h.holder i).2 ⟨_,hc,.inl rfl⟩
  refine⟨fun j=>?_,fun _ _=>rfl,h.shut,?_,fun _=>.inl ?_⟩
  ·constructor
   ·intro hij
    obtain rfl:=some.inj (hlock.symm.trans hij)
    exact⟨_,getElem?_set_here hc,.inr rfl⟩
   rintro⟨d,hd,hstops⟩
   obtain⟨rfl,-⟩|⟨-,hd⟩:=getElem?_set_cases hd
   ·exact hlock
   exact (h.holder j).2 ⟨d,hd,hstops⟩
  ·intro hrunning
   rw[(h.shut (hlock▸nofun)).1]at hrunning
   cases hrunning
  exact hlock▸nofun
 | @stopped i hc hrun hlisten=>
  have hlock:=(h.holder i).2 ⟨_,hc,.inr rfl⟩
  refine⟨fun j=>?_,fun j hj=>?_,fun hne=>absurd rfl hne,h.unquit,fun _=>.inr hrun⟩
  ·refine iff_of_false nofun ?_
   rintro⟨d,hd,hstops⟩
   obtain⟨-,rfl⟩|⟨hji,hd⟩:=getElem?_set_cases hd
   ·exact hstops.elim nofun nofun
   exact hji (some.inj (((h.holder j).2 ⟨d,hd,hstops⟩).symm.trans hlock))
  obtain⟨-,hj⟩|⟨-,hj⟩:=getElem?_set_cases hj
  ·cases hj
  exact h.quits j hj
 | quitHeard hrun | procHeard hrun | procDone hrun | connHeard hrun | answered hrun
 | tableClosed hrun | disconnect hrun | drain hrun=>
  exact h.frame rfl rfl rfl rfl rfl (hnot hrun nofun)
 | callerHeard hrun hc | callerDone hrun hc=>
  exact h.exchange hc (·.elim nofun nofun) (·.elim nofun nofun)
   (hnot hrun nofun)
 | check hrun hc hself=>exact checked_locked h (hrun▸nofun)
 | runEnded hrun hpeers=>exact h.frame rfl rfl rfl rfl rfl (fun _=>rfl)
 | @call c hfresh=>
  have hnew:¬Stops c:=by
   obtain rfl|rfl|rfl|rfl:=hfresh
   all_goals exact fun h=>h.elim nofun nofun
  refine⟨fun j=>?_,fun j hj=>?_,h.shut,h.unquit,h.kept⟩
  ·rw[h.holder j]
   constructor
   ·rintro⟨d,hd,hstops⟩
    exact⟨d,getElem?_append_of_some hd,hstops⟩
   rintro⟨d,hd,hstops⟩
   obtain hd|⟨-,rfl⟩:=getElem?_append_cases hd
   ·exact⟨d,hd,hstops⟩
   exact absurd hstops hnew
  obtain hj|⟨-,rfl⟩:=getElem?_append_cases hj
  ·exact h.quits j hj
  exact absurd (.inr rfl) hnew
 | _=>exact h.frame rfl rfl rfl rfl rfl id

end Locking

section Connections

/-- `run` has received the connection and not yet answered it. -/
def Engages:RunPc→Stage→ℕ→Prop
 | .checking st j,stage,i=>st=stage ∧ j=i
 | .answering st j _,stage,i=>st=stage ∧ j=i
 | _,_,_=>False

/-- A connection waits for its answer exactly while `run` has it, unless it has given up. -/
structure Engaged (s:Server ι):Prop where
 awaited:∀(i:ℕ) (c:Conn ι) (stage:Stage),s.conns[i]?=some c →
  c.pc=.waiting stage→Engages s.run stage i
 kept:∀(stage:Stage) (i:ℕ),Engages s.run stage i→∃c,s.conns[i]?=some c ∧
  (c.pc=.waiting stage ∨ c.pc=.closed ∧ s.quit=true)

lemma engaged_started(listens:Bool)(slots:ℕ):Engaged (started ι listens slots):=
 ⟨fun _ _ _ h=>absurd h nofun,fun _ _ h=>h.elim⟩

variable {c:Conn ι}

lemma Engaged.frame(h:Engaged s)(hconns:t.conns=s.conns)
 (hrun:∀stage i,Engages t.run stage i↔Engages s.run stage i)
 (hquit:s.quit=true→t.quit=true):Engaged t where
 awaited i c stage hc hpc:=(hrun stage i).2 (h.awaited i c stage (hconns▸hc) hpc)
 kept stage i hi:=by
  obtain⟨c,hc,hpc⟩:=h.kept stage i ((hrun stage i).1 hi)
  exact⟨c,hconns▸hc,hpc.imp id (fun hclosed=>⟨hclosed.1,hquit hclosed.2⟩)⟩

lemma Engaged.append(h:Engaged s){listen:ListenPc}(hc:c.pc=.start):
 Engaged {s with listen:=listen,conns:=s.conns++[c]} where
 awaited i d stage hd hpc:=by
  obtain hd|⟨-,rfl⟩:=getElem?_append_cases hd
  ·exact h.awaited i d stage hd hpc
  cases hc.symm.trans hpc
 kept stage i hi:=by
  obtain⟨d,hd,hpc⟩:=h.kept stage i hi
  exact⟨d,getElem?_append_of_some hd,hpc⟩

lemma connHeard_eq_some [DecidableEq ι](h:c.heard cfg=some r):
 c.pc=.sending r.1∧r.2.pc=.waiting r.1∧r.2.slot=c.slot:=by
 unfold Conn.heard at h
 split at h<;>rename_i hpc<;>cases h
 ·exact⟨hpc,rfl,rfl⟩
 exact⟨hpc,rfl,rfl⟩

structure ConnMoved (s:Server ι) (c c':Conn ι) (m:ConnMove ι):Prop where
 ongoing:c.pc≠.closed
 fresh:c'.pc≠.start
 slot:c'.slot=c.slot
 locked:c.pc=.start→s.lock=none
 waits:∀stage,c'.pc≠.waiting stage
 quits:∀stage,c.pc=.waiting stage→m=.giveUp
 gives:m=.giveUp→s.quit=true ∧ c' = {c with pc:=.closed}

/-- A handshake closes the connection or sends it to `run`. -/
lemma connMoved_of_handshake(hslot:c'.slot=c.slot)
 (hm:m≠.giveUp)(hpc:c.pc=.encHandshake∨c.pc=.protoHandshake)
 (hpc':c'.pc=.closed∨∃stage,c'.pc=.sending stage):ConnMoved s c c' m:=by
 rcases hpc with hpc|hpc<;>rcases hpc' with hpc'|⟨_,hpc'⟩ <;>
  exact⟨by simp[hpc],by simp[hpc'],hslot,by simp[hpc],by simp[hpc'],by simp[hpc],fun h=>absurd h hm⟩

lemma connMoved_of_move [DecidableEq ι](h:c.move s m=some c'):ConnMoved s c c' m:=by
 cases m with
 | begin=>
  obtain⟨hpc,rfl⟩:=of_guarded h
  refine⟨?_,?_,rfl,fun _=>hpc.2,fun stage=>?_,fun stage hw=>?_,nofun⟩
  ·exact hpc.1▸nofun
  ·dsimp only
   split<;>nofun
  ·dsimp only
   split<;>nofun
  cases hpc.1.symm.trans hw
 | encHandshake id=>
  cases id with
  | none=>
   obtain⟨hpc,rfl⟩:=of_guarded h
   exact connMoved_of_handshake rfl nofun (.inl hpc) (.inl rfl)
  | some id=>
   obtain⟨hpc,rfl⟩:=of_guarded h
   refine connMoved_of_handshake rfl nofun (.inl hpc) ?_
   dsimp only
   split
   ·exact .inr ⟨_,rfl⟩
   exact .inl rfl
 | protoHandshake result=>
  cases result with
  | none=>
   obtain⟨hpc,rfl⟩:=of_guarded h
   exact connMoved_of_handshake rfl nofun (.inr hpc) (.inl rfl)
  | some result=>
   obtain⟨hpc,rfl⟩:=of_guarded h
   refine connMoved_of_handshake rfl nofun (.inr hpc) ?_
   dsimp only
   split
   ·exact .inr ⟨_,rfl⟩
   exact .inl rfl
 | giveUp=>
  rw[Conn.move]at h
  split at h<;>rename_i hpc
  case h_3=>cases h
  all_goals
   obtain⟨hquit,rfl⟩:=of_guarded h
   exact⟨hpc▸nofun,nofun,rfl,fun hs=>absurd (hpc.symm.trans hs) nofun,nofun,
    fun _ _=>rfl,fun _=>⟨hquit,rfl⟩⟩

/-- `run` goes on and a connection that does not wait is exchanged for one that does not wait. -/
lemma Engaged.exchange(h:Engaged s){c c':Conn ι}
 (hc:s.conns[i]?=some c)(hconns:t.conns=s.conns.set i c')
 (hrun:∀stage j,Engages t.run stage j→Engages s.run stage j)
 (hother:∀stage j,j≠i→Engages s.run stage j→Engages t.run stage j)
 (hquit:s.quit=true→t.quit=true)(hnew:∀stage,c'.pc≠.waiting stage)
 (hold:∀stage,Engages t.run stage i→c'.pc=.closed∧t.quit=true):Engaged t where
 awaited j d stage hd hpc:=by
  rw[hconns]at hd
  obtain⟨-,rfl⟩|⟨hji,hd⟩:=getElem?_set_cases hd
  ·exact absurd hpc (hnew stage)
  exact hother stage j hji (h.awaited j d stage hd hpc)
 kept stage j hj:=by
  obtain⟨d,hd,hpc⟩:=h.kept stage j (hrun stage j hj)
  by_cases hji:i=j
  ·subst hji
   exact⟨c',hconns▸getElem?_set_here hc,.inr (hold stage hj)⟩
  exact⟨d,by rw[hconns,getElem?_set_ne hji,hd],hpc.imp id (fun hclosed=>⟨hclosed.1,hquit hclosed.2⟩)⟩

lemma answer_pc(c:Conn ι)(err:Option DiscReason)(stage stage':Stage):
 (c.answer err stage).pc≠.waiting stage'∧(c.answer err stage).pc≠.start:=by
 cases stage with
 | posthandshake | addpeer=>
  dsimp only[Conn.answer]
  split<;>exact⟨nofun,nofun⟩

lemma answer_slot(c:Conn ι)(err:Option DiscReason)(stage:Stage):(c.answer err stage).slot=c.slot:=by
 cases stage<;>rfl

lemma checked_conns [DecidableEq ι](s:Server ι)(c:Conn ι)(stage:Stage)(i:ℕ)
 (err:Option DiscReason):(s.checked c stage i err).conns=s.conns∧
  (s.checked c stage i err).run=.answering stage i err∧
  (s.checked c stage i err).quit=s.quit:=by
 rw[Server.checked]
 split<;>exact⟨rfl,rfl,rfl⟩

variable [DecidableEq ι] [Inhabited ι]

lemma engaged_step(h:Engaged s)(hstep:step cfg s a=some t):Engaged t:=by
 have hidle:∀{r r':RunPc},s.run=r→(∀stage i,¬Engages r stage i)→(∀stage i,¬Engages r' stage i) →
  ∀stage i,Engages r' stage i↔Engages s.run stage i:=by
  intro r r' hr hold hnew stage i
  exact iff_of_false (hnew stage i) (hr▸hold stage i)
 cases moves_of_step hstep with
 | @conn i m c c' hc hm=>
  have hmoved:=connMoved_of_move hm
  refine h.exchange hc rfl (fun _ _=>id) (fun _ _ _=>id) id hmoved.waits (fun stage hi=>?_)
  obtain⟨d,hd,hpc⟩:=h.kept stage i hi
  obtain rfl:=some.inj (hc.symm.trans hd)
  obtain hpc|hpc:=hpc
  ·obtain⟨hquit,rfl⟩:=hmoved.gives (hmoved.quits stage hpc)
   exact⟨rfl,hquit⟩
  exact absurd hpc.1 hmoved.ongoing
 | closeQuit hc=>exact h.frame rfl (fun _ _=>Iff.rfl) (fun _=>rfl)
 | quitHeard hrun | callerHeard hrun | procHeard hrun | callerDone hrun | procDone hrun
 | tableClosed hrun | disconnect hrun | drain hrun | runEnded hrun=>
  exact h.frame rfl (hidle hrun (fun _ _=>id) (fun _ _=>id)) id
 | @connHeard i c r hrun hc hr=>
  obtain⟨hsend,hwait,-⟩:=connHeard_eq_some hr
  have hnone:∀stage j,¬Engages s.run stage j:=fun stage j=>hrun▸id
  constructor
  ·intro j d stage hd hpc
   obtain⟨rfl,rfl⟩|⟨hji,hd⟩:=getElem?_set_cases hd
   ·exact⟨(ConnPc.waiting.inj (hwait.symm.trans hpc)),rfl⟩
   exact absurd (h.awaited j d stage hd hpc) (hnone stage j)
  rintro stage j ⟨rfl,rfl⟩
  exact⟨r.2,getElem?_set_here hc,.inl hwait⟩
 | @check stage i c hrun hc hself=>
  obtain⟨hconns,hrun',hquit⟩:=checked_conns s c stage i
   (checks cfg (s.selfId cfg) s.peers c stage)
  refine h.frame hconns (fun stage' j=>?_) (hquit.trans ·)
  rw[hrun',hrun]
  exact Iff.rfl
 | @answered stage i err c hrun hc hpc=>
  refine h.exchange hc rfl (fun _ _=>False.elim) (fun stage' j hji hj=>?_) id
   (fun stage'=>(answer_pc c err stage stage').1) (fun _=>False.elim)
  rw[hrun]at hj
  exact absurd hj.2.symm hji
 | accept hlisten hopen=>exact h.append rfl
 | @giveSlot i c hc hslot hpc=>
  have hnew:∀stage,c.pc≠.waiting stage:=by
   intro stage hw
   obtain hpc|hpc:=hpc
   ·cases hpc.symm.trans hw
   cases hpc.symm.trans hw
  refine h.exchange hc rfl (fun _ _=>id) (fun _ _ _=>id) id hnew (fun stage hi=>?_)
  obtain⟨d,hd,hpc'⟩:=h.kept stage i hi
  obtain rfl:=some.inj (hc.symm.trans hd)
  exact hpc'.resolve_left (hnew stage)
 | dial=>exact h.append rfl
 | _=>exact h.frame rfl (fun _ _=>Iff.rfl) id

end Connections

section Counting

/-- The goroutine waits on `peerOpDone` in its first or its second call of `PeerCount`. -/
def ProcWaits (p:Proc ι):Prop:=p.pc=.counting .waiting ∨ p.pc=.recounting .waiting

def Waiting (s:Server ι):Counter→Prop
 | .caller i=>s.callers[i]?=some (.peerCount .waiting)
 | .proc k=>∃p,s.procs[k]?=some p ∧ ProcWaits p

/-- A goroutine waits on `peerOpDone` exactly while `run` sends on it. -/
def Counted (s:Server ι):Prop:=∀w,Waiting s w ↔ s.run=.answeringOp w

lemma counted_started(listens:Bool)(slots:ℕ):Counted (started ι listens slots)
 | .caller _=>iff_of_false nofun nofun
 | .proc _=>iff_of_false (fun ⟨_,h,_⟩=>absurd h nofun) nofun

variable {f:Count→Option Count}

lemma Counted.frame(h:Counted s)(hcallers:t.callers=s.callers)(hprocs:t.procs=s.procs)
 (hrun:∀w,t.run=.answeringOp w↔s.run=.answeringOp w):Counted t:=by
 intro w
 rw[hrun,←h w]
 cases w with
 | caller i=>rw[Waiting,Waiting,hcallers]
 | proc k=>rw[Waiting,Waiting,hprocs]

lemma Counted.exchangeCaller(h:Counted s)(hc:s.callers[i]?=some c)
 (hcallers:t.callers=s.callers.set i c')(hprocs:t.procs=s.procs)
 (hhere:c'=.peerCount .waiting↔t.run=.answeringOp (.caller i))
 (hrun:∀w,w≠.caller i→(t.run=.answeringOp w↔s.run=.answeringOp w)):Counted t:=by
 intro w
 by_cases hw:w=.caller i
 ·subst hw
  rw[Waiting,hcallers,getElem?_set_here hc,←hhere,Option.some.injEq]
 rw[hrun w hw,←h w]
 cases w with
 | caller j=>
  have hij:i≠j:=fun hij=>hw (congrArg _ hij.symm)
  rw[Waiting,Waiting,hcallers,getElem?_set_ne hij]
 | proc k=>rw[Waiting,Waiting,hprocs]

lemma Counted.exchangeProc(h:Counted s)(hp:s.procs[k]?=some p)
 (hprocs:t.procs=s.procs.set k p')(hcallers:t.callers=s.callers)
 (hhere:ProcWaits p'↔t.run=.answeringOp (.proc k))
 (hrun:∀w,w≠.proc k→(t.run=.answeringOp w↔s.run=.answeringOp w)):Counted t:=by
 intro w
 by_cases hw:w=.proc k
 ·subst hw
  rw[Waiting,hprocs,getElem?_set_here hp,←hhere]
  exact⟨fun ⟨q,hq,hwaits⟩=>some.inj hq▸hwaits,fun hwaits=>⟨p',rfl,hwaits⟩⟩
 rw[hrun w hw,←h w]
 cases w with
 | caller j=>rw[Waiting,Waiting,hcallers]
 | proc j=>
  have hkj:k≠j:=fun hkj=>hw (congrArg _ hkj.symm)
  rw[Waiting,Waiting,hprocs,getElem?_set_ne hkj]

/-- A step of the call of `PeerCount` in `runPeer`. -/
lemma procCount_eq_some(h:p.count f=some p'):
 ∃n n',f n=some n'∧((p.pc=.counting n∧p' = {p with pc:=.counting n'})∨
  (p.pc=.recounting n∧p' = {p with pc:=.recounting n'})):=by
 unfold Proc.count at h
 split at h<;>rename_i hpc
 ·obtain⟨n',hn,rfl⟩:=map_eq_some_iff.1 h
  exact⟨_,n',hn,.inl ⟨hpc,rfl⟩⟩
 ·obtain⟨n',hn,rfl⟩:=map_eq_some_iff.1 h
  exact⟨_,n',hn,.inr ⟨hpc,rfl⟩⟩
 cases h

lemma procWaits_of_count(h:p.count f=some p'):
 ∃n n',f n=some n'∧(ProcWaits p↔n=.waiting)∧(ProcWaits p'↔n'=.waiting):=by
 obtain⟨n,n',hn,⟨hpc,rfl⟩|⟨hpc,rfl⟩⟩:=procCount_eq_some h
 ·exact⟨n,n',hn,by simp[ProcWaits,hpc],by simp[ProcWaits]⟩
 exact⟨n,n',hn,by simp[ProcWaits,hpc],by simp[ProcWaits]⟩

lemma procMove_not_waits{quit:Bool}{m:ProcMove}(h:p.move quit m=some p'):
 ¬ProcWaits p∧¬ProcWaits p':=by
 have hpcs:∀{q:Proc ι} {pc:ProcPc},q.pc=pc→pc≠.counting .waiting →
  pc≠.recounting .waiting→¬ProcWaits q:=by
  rintro q pc rfl hcount hrecount hwaits
  exact hwaits.elim hcount hrecount
 cases m with
 | quit=>
  obtain⟨n,n',hn,hold,hnew⟩:=procWaits_of_count h
  obtain⟨rfl,rfl⟩:=give_eq_some hn
  exact⟨fun hw=>absurd (hold.1 hw) nofun,fun hw=>absurd (hnew.1 hw) nofun⟩
 | run | failed | closed=>
  obtain⟨hpc,rfl⟩:=of_guarded h
  exact⟨hpcs hpc nofun nofun,hpcs rfl nofun nofun⟩

lemma procDisconnect_waits(h:p.disconnect=some p'):ProcWaits p'→ProcWaits p:=by
 unfold Proc.disconnect at h
 split at h<;>cases h
 ·exact fun hw=>hw.elim nofun nofun
 exact id

lemma counted_checked [DecidableEq ι](h:Counted s)(hrun:s.run=.checking stage i):
 Counted (s.checked c stage i err):=by
 have hnone:∀w,RunPc.answering stage i err=.answeringOp w↔s.run=.answeringOp w:=by
  intro w
  rw[hrun]
  exact iff_of_false nofun nofun
 rw[Server.checked]
 split
 ·intro w
  refine Iff.trans ?_ ((h w).trans (hnone w).symm)
  cases w with
  | caller j=>exact Iff.rfl
  | proc k=>
   constructor
   ·rintro⟨q,hq,hwaits⟩
    obtain hq|⟨-,rfl⟩:=getElem?_append_cases hq
    ·exact⟨q,hq,hwaits⟩
    exact (hwaits.elim nofun nofun:False).elim
   rintro⟨q,hq,hwaits⟩
   exact⟨q,getElem?_append_of_some hq,hwaits⟩
 exact h.frame rfl rfl hnone

variable [DecidableEq ι] [Inhabited ι]

lemma counted_step(h:Counted s)(hstep:step cfg s a=some t):Counted t:=by
 have hidle:∀{r r':RunPc},s.run=r→(∀w,r≠.answeringOp w) →
  (∀w,r'≠.answeringOp w)→∀w,r'=.answeringOp w↔s.run=.answeringOp w:=by
  intro r r' hr hold hnew w
  exact iff_of_false (hnew w) (hr▸hold w)
 have hstop:∀{i:ℕ} {pc:StopPc} {pc':StopPc} {t:Server ι},
  s.callers[i]?=some (.stop pc)→t.callers=s.callers.set i (.stop pc') →
  t.procs=s.procs→t.run=s.run → Counted t:=by
  intro i pc pc' t hc hcallers hprocs hrun
  refine h.exchangeCaller hc hcallers hprocs (iff_of_false nofun ?_) (fun w _=>by rw[hrun])
  rw[hrun,←h (.caller i),Waiting,hc]
  nofun
 cases moves_of_step hstep with
 | @proc k m p p' hp hm=>
  obtain⟨hold,hnew⟩:=procMove_not_waits hm
  refine h.exchangeProc hp rfl rfl (iff_of_false hnew ?_) (fun _ _=>Iff.rfl)
  rw[←h (.proc k)]
  rintro⟨q,hq,hwaits⟩
  exact hold (some.inj (hp.symm.trans hq)▸hwaits)
 | @caller i c c' hc hm=>
  obtain⟨rfl,rfl⟩|⟨rfl,rfl⟩|⟨rfl,rfl⟩:=callerMove_eq_some hm
  all_goals
   refine h.exchangeCaller hc rfl rfl (iff_of_false nofun ?_) (fun _ _=>Iff.rfl)
   rw[←h (.caller i),Waiting,hc]
   nofun
 | stop hc | stopIdle hc | closeQuit hc | stopped hc=>exact hstop hc rfl rfl rfl
 | quitHeard hrun | connHeard hrun | answered hrun | tableClosed hrun | drain hrun
 | runEnded hrun=>exact h.frame rfl rfl (hidle hrun nofun nofun)
 | @callerHeard i hrun hc=>
  refine h.exchangeCaller hc rfl rfl (iff_of_true rfl rfl) (fun w hw=>?_)
  rw[hrun]
  exact iff_of_false (fun heq=>hw (RunPc.answeringOp.inj heq).symm) nofun
 | @procHeard k p p' hrun hp hm=>
  obtain⟨n,n',hn,-,hnew⟩:=procWaits_of_count hm
  refine h.exchangeProc hp rfl rfl (iff_of_true (hnew.2 (ask_eq_some hn).2) rfl) (fun w hw=>?_)
  rw[hrun]
  exact iff_of_false (fun heq=>hw (RunPc.answeringOp.inj heq).symm) nofun
 | @callerDone i w hrun hc=>
  have hw:w=.caller i:=RunPc.answeringOp.inj (hrun.symm.trans ((h (.caller i)).1 hc))
  refine h.exchangeCaller hc rfl rfl (iff_of_false nofun nofun) (fun w' hw'=>?_)
  rw[hrun,hw]
  exact iff_of_false nofun (fun heq=>hw' (RunPc.answeringOp.inj heq).symm)
 | @procDone k w p p' hrun hp hm=>
  obtain⟨n,n',hn,hold,hnew⟩:=procWaits_of_count hm
  obtain⟨rfl,rfl⟩:=answer_eq_some hn
  have hw:w=.proc k:=RunPc.answeringOp.inj (hrun.symm.trans ((h (.proc k)).1 ⟨p,hp,hold.2 rfl⟩))
  refine h.exchangeProc hp rfl rfl (iff_of_false (fun hwaits=>absurd (hnew.1 hwaits) nofun) nofun)
   (fun w' hw'=>?_)
  rw[hrun,hw]
  exact iff_of_false nofun (fun heq=>hw' (RunPc.answeringOp.inj heq).symm)
 | @staticHeard i hrun hc=>
  refine h.exchangeCaller hc rfl rfl (iff_of_false nofun ?_) (fun _ _=>Iff.rfl)
  exact hrun▸nofun
 | check hrun hc hself=>exact counted_checked h hrun
 | @delHeard k p hrun hp hpc=>
  refine h.exchangeProc hp rfl rfl (iff_of_false (·.elim nofun nofun) ?_)
   (fun _ _=>Iff.rfl)
  obtain hrun|hrun:=hrun
  ·exact hrun▸nofun
  exact hrun.1▸nofun
 | @disconnect k left p p' hrun hp hm=>
  have hold:¬ProcWaits p:=by
   intro hwaits
   have:=(h (.proc k)).1 ⟨p,hp,hwaits⟩
   rw[hrun]at this
   cases this
  exact h.exchangeProc hp rfl rfl
   (iff_of_false (fun hw=>hold (procDisconnect_waits hm hw)) nofun)
   (fun w _=>iff_of_false nofun (hrun▸nofun))
 | @call c hfresh=>
  have hnew:c≠.peerCount .waiting:=by
   obtain rfl|rfl|rfl|rfl:=hfresh
   all_goals nofun
  intro w
  refine Iff.trans ?_ (h w)
  cases w with
  | caller j=>
   constructor
   ·intro hj
    obtain hj|⟨-,heq⟩:=getElem?_append_cases hj
    ·exact hj
    exact absurd heq.symm hnew
   exact getElem?_append_of_some
  | proc k=>exact Iff.rfl
 | _=>exact h.frame rfl rfl (fun _=>Iff.rfl)

end Counting

/-- The run of the peer is over, or its connection is closed. -/
def Going (s:Server ι) (k:ℕ):Prop:=∃p,s.procs[k]?=some p ∧ (p.pc=.closing ∨ p.pc=.leaving)

structure Onward (p p':Proc ι):Prop where
 id:p'.id=p.id
 alive:(∀n,p.pc≠.recounting n)→∀n,p'.pc≠.recounting n
 going:p.pc=.closing ∨ p.pc=.leaving→p'.pc=.closing ∨ p'.pc=.leaving

lemma onward_of_count(h:p.count f=some p'):Onward p p':=by
 obtain⟨n,n',-,⟨hpc,rfl⟩|⟨hpc,rfl⟩⟩:=procCount_eq_some h
 ·refine⟨rfl,fun _ _=>nofun,fun hgoing=>?_⟩
  rw[hpc]at hgoing
  exact (hgoing.elim nofun nofun:False).elim
 exact⟨rfl,fun halive=>absurd hpc (halive n),fun hgoing=>by
  rw[hpc]at hgoing
  exact (hgoing.elim nofun nofun:False).elim⟩

lemma onward_of_move(h:p.move quit m=some p'):Onward p p':=by
 cases m with
 | quit=>exact onward_of_count h
 | run=>
  obtain⟨hpc,rfl⟩:=of_guarded h
  refine⟨rfl,fun _ _=>nofun,fun hgoing=>?_⟩
  rw[hpc]at hgoing
  exact (hgoing.elim nofun nofun:False).elim
 | failed=>
  obtain⟨hpc,rfl⟩:=of_guarded h
  exact⟨rfl,fun _ _=>nofun,fun _=>.inl rfl⟩
 | closed=>
  obtain⟨hpc,rfl⟩:=of_guarded h
  exact⟨rfl,fun _ _=>nofun,fun _=>.inr rfl⟩

lemma Going.set(h:Going s j)(hp:s.procs[k]?=some p)
 (hprocs:t.procs=s.procs.set k p')(honward:Onward p p'):Going t j:=by
 obtain⟨q,hq,hgoing⟩:=h
 by_cases hkj:k=j
 ·subst hkj
  obtain rfl:=some.inj (hp.symm.trans hq)
  exact⟨p',hprocs▸getElem?_set_here hp,honward.going hgoing⟩
 exact⟨q,by rw[hprocs,getElem?_set_ne hkj,hq],hgoing⟩

lemma onward_of_disconnect(h:p.disconnect=some p'):
 Onward p p'∧((∀n,p.pc≠.recounting n)→p'.pc=.closing∨p'.pc=.leaving):=by
 unfold Proc.disconnect at h
 split at h<;>cases h
 ·exact⟨⟨rfl,fun _ _=>nofun,fun _=>.inl rfl⟩,fun _=>.inl rfl⟩
 rename_i hcount hrun
 refine⟨⟨rfl,id,id⟩,fun halive=>?_⟩
 cases hpc:p.pc with
 | counting n=>exact (hcount n hpc).elim
 | running=>exact (hrun hpc).elim
 | closing=>exact .inl rfl
 | leaving=>exact .inr rfl
 | recounting n=>exact absurd hpc (halive n)

variable [DecidableEq ι]

/-- Every peer of the map has a goroutine that has not yet sent it on `delpeer`. While peers are
disconnected those that are not left are going, and then all of them. -/
structure Registered (s:Server ι):Prop where
 alive:∀id k,s.peers.lookup id=some k→∃p,s.procs[k]?=some p ∧ p.id=id ∧ ∀n,p.pc≠.recounting n
 left:∀left,s.run=.disconnecting left→(∀k∈left,k < s.procs.length) ∧
  ∀id k,s.peers.lookup id=some k→k∈left ∨ Going s k
 drained:s.run=.draining→∀id k,s.peers.lookup id=some k→Going s k

lemma registered_started(listens:Bool)(slots:ℕ):Registered (started ι listens slots):=
 ⟨fun id _ h=>absurd ((lookup_empty id).symm.trans h) nofun,nofun,nofun⟩

lemma Registered.frame(h:Registered s)(hpeers:t.peers=s.peers)(hprocs:t.procs=s.procs)
 (hleft:∀left,t.run=.disconnecting left→s.run=.disconnecting left)
 (hdrained:t.run=.draining→s.run=.draining):Registered t where
 alive:=by
  rw[hpeers,hprocs]
  exact h.alive
 left l hl:=by
  simp only[hpeers,hprocs,Going]
  exact h.left l (hleft l hl)
 drained hd:=by
  simp only[hpeers,Going,hprocs]
  exact h.drained (hdrained hd)

lemma Registered.exchange(h:Registered s){k:ℕ}
 (hp:s.procs[k]?=some p)(hprocs:t.procs=s.procs.set k p')(honward:Onward p p')
 (hpeers:t.peers=s.peers)
 (hleft:∀left,t.run=.disconnecting left→s.run=.disconnecting left)
 (hdrained:t.run=.draining→s.run=.draining):Registered t where
 alive id j hj:=by
  rw[hpeers]at hj
  obtain⟨q,hq,hid,halive⟩:=h.alive id j hj
  by_cases hkj:k=j
  ·subst hkj
   obtain rfl:=some.inj (hp.symm.trans hq)
   exact⟨p',hprocs▸getElem?_set_here hp,honward.id.trans hid,honward.alive halive⟩
  exact⟨q,by rw[hprocs,getElem?_set_ne hkj,hq],hid,halive⟩
 left l hl:=by
  obtain⟨hlength,hgoing⟩:=h.left l (hleft l hl)
  rw[hpeers,hprocs,length_set]
  exact⟨hlength,fun id j hj=>(hgoing id j hj).imp_right (·.set hp hprocs honward)⟩
 drained hd id j hj:=by
  rw[hpeers]at hj
  exact (h.drained (hdrained hd) id j hj).set hp hprocs honward

lemma registered_checked(h:Registered s):Registered (s.checked c stage i err):=by
 rw[Server.checked]
 split
 ·refine⟨fun id k hk=>?_,nofun,nofun⟩
  by_cases hid:id=c.id
  ·subst hid
   rw[lookup_insert]at hk
   obtain rfl:=some.inj hk
   exact⟨_,getElem?_concat_length,rfl,nofun⟩
  rw[lookup_insert_ne hid]at hk
  obtain⟨p,hp,hrest⟩:=h.alive id k hk
  exact⟨p,getElem?_append_of_some hp,hrest⟩
 exact h.frame rfl rfl nofun nofun

/-- A peer that has left leaves the map. -/
lemma registered_delHeard(h:Registered s)
 (hrun:s.run=.selecting∨s.run=.draining)(hp:s.procs[k]?=some p):
 Registered {s with
  peers:=s.peers.erase p.id
  procs:=s.procs.set k {p with pc:=.recounting .asking}}:=by
 have hother:∀{id j},(s.peers.erase p.id).lookup id=some j →s.peers.lookup id=some j∧k≠j:=by
  intro id j hj
  have hid:id≠p.id:=by
   rintro rfl
   rw[lookup_erase]at hj
   cases hj
  rw[lookup_erase_ne hid]at hj
  refine⟨hj,?_⟩
  rintro rfl
  obtain⟨q,hq,hqid,-⟩:=h.alive id k hj
  rw[some.inj (hp.symm.trans hq)]at hid
  exact hid hqid.symm
 refine⟨fun id j hj=>?_,fun l hl=>?_,fun hd id j hj=>?_⟩
 ·obtain⟨hj,hkj⟩:=hother hj
  obtain⟨q,hq,hrest⟩:=h.alive id j hj
  exact⟨q,by rw[getElem?_set_ne hkj,hq],hrest⟩
 ·obtain hrun|hrun:=hrun
  ·cases hrun.symm.trans hl
  cases hrun.symm.trans hl
 obtain⟨hj,hkj⟩:=hother hj
 obtain⟨q,hq,hgoing⟩:=h.drained hd id j hj
 exact⟨q,by rw[getElem?_set_ne hkj,hq],hgoing⟩

variable [Inhabited ι]

lemma registered_step(h:Registered s)(hstep:step cfg s a=some t):Registered t:=by
 cases moves_of_step hstep with
 | proc hp hm=>exact h.exchange hp rfl (onward_of_move hm) rfl (fun _=>id) id
 | quitHeard | callerHeard | callerDone | connHeard | answered | runEnded=>
  exact h.frame rfl rfl nofun nofun
 | procHeard hrun hp hm | procDone hrun hp hm=>
  exact h.exchange hp rfl (onward_of_count hm) rfl nofun nofun
 | check hrun hc hself=>exact registered_checked h
 | delHeard hrun hp hpc=>exact registered_delHeard h (hrun.imp id And.left) hp
 | @tableClosed order hrun horder=>
  refine⟨h.alive,fun l hl=>?_,nofun⟩
  obtain rfl:=RunPc.disconnecting.inj hl
  refine⟨fun k hk=>?_,fun id k hk=>.inl ?_⟩
  ·obtain⟨e,he,rfl⟩:=mem_map.1 hk
   obtain⟨p,hp,-⟩:=h.alive e.1 e.2 ((mem_visit horder).1 he)
   exact (List.getElem?_eq_some_iff.1 hp).1
  exact mem_map.2 ⟨⟨id,k⟩,(mem_visit horder).2 hk,rfl⟩
 | @disconnect k left p p' hrun hp hm=>
  obtain⟨honward,hgone⟩:=onward_of_disconnect hm
  obtain⟨hlength,hgoing⟩:=h.left _ hrun
  have halive:=Registered.exchange (t:={s with procs:=s.procs.set k p'}) h hp rfl
   honward rfl (fun _=>id) id
  refine⟨halive.alive,fun l hl=>?_,nofun⟩
  obtain rfl:=RunPc.disconnecting.inj hl
  refine⟨fun j hj=>?_,fun id j hj=>?_⟩
  ·rw[length_set]
   exact hlength j (mem_cons_of_mem _ hj)
  by_cases hkj:k=j
  ·subst hkj
   obtain⟨q,hq,-,hq'⟩:=h.alive id k hj
   obtain rfl:=some.inj (hp.symm.trans hq)
   exact .inr ⟨p',getElem?_set_here hp,hgone hq'⟩
  obtain hmem|hj:=hgoing id j hj
  ·exact .inl ((mem_cons.1 hmem).resolve_left (Ne.symm hkj))
  exact .inr (hj.set hp rfl honward)
 | drain hrun=>
  refine⟨h.alive,nofun,fun _ id k hk=>?_⟩
  exact ((h.left _ hrun).2 id k hk).resolve_left not_mem_nil
 | _=>exact h.frame rfl rfl (fun _=>id) id

end GoCoupe.ServerStopInvariants
