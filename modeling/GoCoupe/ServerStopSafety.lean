import GoCoupe.ServerStopInvariants

/-!
# When stopping the server cannot deadlock

`Stop` waits with the lock in its hands. It waits forever in three ways: `run` asks for the
lock, `run` answers a connection that has given up, or `listenLoop` waits for a slot while
every connection that has one asks for the lock.
-/

namespace GoCoupe.ServerStopSafety
open GuardedRuns MapIteration ServerStopping ServerStopInvariants List Option

variable {ι:Type} [DecidableEq ι] {cfg:Config ι} {s t:Server ι} {a:Action ι} {i:ℕ} {c:Conn ι}

section Danger

def AsksLock (cfg:Config ι) (s:Server ι):Prop:=
 ∃stage i c,s.run=.checking stage i ∧ s.conns[i]?=some c ∧ CallsSelf cfg stage s.peers c

/-- `run` has a connection that does not wait for the answer. -/
def Abandoned (s:Server ι):Prop:=
 ∃stage i,Engages s.run stage i ∧ ∀c,s.conns[i]?=some c→c.pc≠.waiting stage

/-- `listenLoop` waits for a slot, and every connection that has one asks for the lock. -/
def Jammed (s:Server ι):Prop:=s.listen=.waitingSlot ∧ s.slots=0 ∧ ∀c∈s.conns,c.slot=true→c.pc=.start

def Danger (cfg:Config ι) (s:Server ι):Prop:=AsksLock cfg s ∨ Abandoned s ∨ Jammed s

/-- One of the loops that `Stop` waits for never ends. -/
def Doomed (cfg:Config ι) (s:Server ι):Prop:=s.lock≠none ∧ Danger cfg s

/-- `Stop` takes the lock only when `run` does not ask for it and `listenLoop` is not jammed, the
checks of a connection that `run` receives later do not come to `Self`, and no connection gives
up between the two channel operations of a checkpoint. -/
def Prudent (cfg:Config ι) (s:Server ι):Action ι→Prop
 | .stop _=>s.running=true→¬AsksLock cfg s ∧ ¬Jammed s
 | .connHeard i=>s.lock≠none→∀c∈s.conns[i]?,∀r∈c.heard cfg,¬CallsSelf cfg r.1 s.peers r.2
 | .conn i .giveUp=>∀c∈s.conns[i]?,∀stage,c.pc≠.waiting stage
 | _=>True

lemma forall_stage{P:Stage→Prop}:P .posthandshake∧P .addpeer↔∀stage,P stage:=by
 constructor
 ·rintro⟨hpost,hadd⟩ stage
  cases stage with
  | posthandshake=>exact hpost
  | addpeer=>exact hadd
 exact fun h=>⟨h _,h _⟩

lemma asksLock_iff(h:s.run=.checking stage i):
 (∃c∈s.conns[i]?,CallsSelf cfg stage s.peers c)↔AsksLock cfg s:=by
 constructor
 ·rintro⟨c,hc,hcalls⟩
  exact⟨stage,i,c,h,hc,hcalls⟩
 rintro⟨stage',j,c,hrun,hc,hcalls⟩
 obtain⟨rfl,rfl⟩:=RunPc.checking.inj (h.symm.trans hrun)
 exact⟨c,hc,hcalls⟩

lemma not_asksLock(hrun:s.run=r)(hr:∀stage i,r≠.checking stage i):¬AsksLock cfg s:=
 fun ⟨stage,i,_,hcheck,_⟩=>hr stage i (hrun.symm.trans hcheck)

instance asksLock_decidable (cfg:Config ι) (s:Server ι):Decidable (AsksLock cfg s):=
 match h:s.run with
 | .checking _ _=>decidable_of_iff _ (asksLock_iff h)
 | .selecting=>.isFalse (not_asksLock h nofun)
 | .answering _ _ _=>.isFalse (not_asksLock h nofun)
 | .answeringOp _=>.isFalse (not_asksLock h nofun)
 | .closingTable=>.isFalse (not_asksLock h nofun)
 | .disconnecting _=>.isFalse (not_asksLock h nofun)
 | .draining=>.isFalse (not_asksLock h nofun)
 | .ended=>.isFalse (not_asksLock h nofun)

instance jammed_decidable (s:Server ι):Decidable (Jammed s):=
 inferInstanceAs (Decidable (_ ∧ _ ∧ ∀c∈s.conns,_))

instance prudent_decidable (cfg:Config ι) (s:Server ι):∀a,Decidable (Prudent cfg s a)
 | .stop _=>inferInstanceAs (Decidable (s.running=true→¬AsksLock cfg s ∧ ¬Jammed s))
 | .connHeard i=>inferInstanceAs (Decidable (s.lock≠none→∀c∈s.conns[i]?,
  ∀r∈c.heard cfg,¬CallsSelf cfg r.1 s.peers r.2))
 | .conn i .giveUp=>decidable_of_iff (∀c∈s.conns[i]?,
  c.pc≠.waiting .posthandshake ∧ c.pc≠.waiting .addpeer)
  (forall₂_congr (fun c _=>forall_stage (P:=fun stage=>c.pc≠.waiting stage)))
 | .conn _ .begin | .conn _ (.encHandshake _) | .conn _ (.protoHandshake _) | .proc _ _
 | .caller _ | .closeQuit _ | .stopped _ | .quitHeard | .opHeard _ | .opDone _ | .staticHeard _
 | .check | .answered | .delHeard _ | .tableClosed _ | .disconnect | .drain | .runEnded
 | .takeSlot | .accept | .acceptFailed | .giveSlot _ | .dial _ _ | .call _=>.isTrue trivial

structure Sound (s:Server ι):Prop where
 locked:Locked s
 engaged:Engaged s
 counted:Counted s
 registered:Registered s

lemma sound_started(listens:Bool)(slots:ℕ):Sound (started ι listens slots):=
 ⟨locked_started listens slots,engaged_started listens slots,counted_started listens slots,
  registered_started listens slots⟩

variable [Inhabited ι]

lemma sound_step(h:Sound s)(hstep:step cfg s a=some t):Sound t:=
 ⟨locked_step h.locked hstep,engaged_step h.engaged hstep,counted_step h.counted hstep,
  registered_step h.registered hstep⟩

end Danger

section AsksLock

lemma asksLock_frame(hrun:t.run=s.run)(hconns:t.conns=s.conns)
 (hpeers:t.peers=s.peers):AsksLock cfg t↔AsksLock cfg s:=by
 rw[AsksLock,AsksLock,hrun,hconns,hpeers]

/-- One connection is exchanged for one that is checked alike. -/
lemma asksLock_exchange(hrun:t.run=s.run)(hpeers:t.peers=s.peers)(hc:s.conns[i]?=some c)
 (hconns:t.conns=s.conns.set i c')(halike:∀stage,s.run=.checking stage i →
  (CallsSelf cfg stage s.peers c'↔CallsSelf cfg stage s.peers c)):
 AsksLock cfg t↔AsksLock cfg s:=by
 rw[AsksLock,AsksLock,hrun,hconns,hpeers]
 constructor
 ·rintro⟨stage,j,d,hcheck,hd,hcalls⟩
  obtain⟨rfl,rfl⟩|⟨-,hd⟩:=getElem?_set_cases hd
  ·exact⟨stage,j,c,hcheck,hc,(halike stage hcheck).1 hcalls⟩
  exact⟨stage,j,d,hcheck,hd,hcalls⟩
 rintro⟨stage,j,d,hcheck,hd,hcalls⟩
 by_cases hij:i=j
 ·subst hij
  obtain rfl:=some.inj (hc.symm.trans hd)
  exact⟨stage,i,c',hcheck,getElem?_set_here hc,(halike stage hcheck).2 hcalls⟩
 exact⟨stage,j,d,hcheck,by rw[getElem?_set_ne hij,hd],hcalls⟩

lemma asksLock_append{listen:ListenPc}(hs:Engaged s):
 AsksLock cfg {s with listen:=listen,conns:=s.conns++[c]}↔AsksLock cfg s:=by
 constructor
 ·rintro⟨stage,j,d,hcheck,hd,hcalls⟩
  obtain⟨d',hd',-⟩:=hs.kept stage j (by rw[hcheck];exact⟨rfl,rfl⟩)
  have hd'':=getElem?_append_of_some hd' (a:=c)
  obtain rfl:=some.inj (hd''.symm.trans hd)
  exact⟨stage,j,d',hcheck,hd',hcalls⟩
 rintro⟨stage,j,d,hcheck,hd,hcalls⟩
 exact⟨stage,j,d,hcheck,getElem?_append_of_some hd,hcalls⟩

lemma callsSelf_congr(hid:c'.id=c.id)(htrusted:c'.trusted=c.trusted)(hstatic:c'.static=c.static)
 (hmatching:c'.matching=c.matching):
 CallsSelf cfg stage peers c'↔CallsSelf cfg stage peers c:=by
 rw[CallsSelf,CallsSelf,hid,htrusted,hstatic,hmatching]

variable [Inhabited ι]

/-- While the lock is taken only a connection that comes up for checks makes `run` ask for it. -/
lemma asksLock_step(hs:Sound s)(hlock:s.lock≠none)
 (hstep:step cfg s a=some t):AsksLock cfg t↔AsksLock cfg s∨
  ∃i,a=.connHeard i∧∃c∈s.conns[i]?,∃r∈c.heard cfg,CallsSelf cfg r.1 s.peers r.2:=by
 have hkeep:(∀i,a≠.connHeard i)→(AsksLock cfg t↔AsksLock cfg s) →
  (AsksLock cfg t↔AsksLock cfg s∨∃i,a=.connHeard i∧∃c∈s.conns[i]?,
   ∃r∈c.heard cfg,CallsSelf cfg r.1 s.peers r.2):=by
  intro ha hiff
  rw[hiff]
  exact⟨.inl,fun h=>h.resolve_right (fun ⟨i,hi,_⟩=>ha i hi)⟩
 have hidle:∀{r r':RunPc},s.run=r→(∀stage i,r≠.checking stage i)→t.run=r' →
  (∀stage i,r'≠.checking stage i)→(AsksLock cfg t↔AsksLock cfg s):=
  fun hr hne hr' hne'=>iff_of_false (not_asksLock hr' hne') (not_asksLock hr hne)
 cases moves_of_step hstep with
 | @conn i m c c' hc hm=>
  have hmoved:=connMoved_of_move hm
  refine hkeep nofun (asksLock_exchange rfl rfl hc rfl (fun stage hcheck=>?_))
  obtain⟨d,hd,hpc⟩:=hs.engaged.kept stage i (by rw[hcheck];exact⟨rfl,rfl⟩)
  obtain rfl:=some.inj (hc.symm.trans hd)
  obtain hpc|hpc:=hpc
  ·obtain⟨-,rfl⟩:=hmoved.gives (hmoved.quits stage hpc)
   exact callsSelf_congr rfl rfl rfl rfl
  exact absurd hpc.1 hmoved.ongoing
 | stop hc hlock' | stopIdle hc hlock'=>exact absurd hlock' hlock
 | quitHeard hrun | callerHeard hrun | procHeard hrun | callerDone hrun | procDone hrun
 | answered hrun | tableClosed hrun | disconnect hrun | drain hrun | runEnded hrun=>
  exact hkeep nofun (hidle hrun nofun rfl nofun)
 | @connHeard i c r hrun hc hr=>
  constructor
  ·rintro⟨stage,j,d,hcheck,hd,hcalls⟩
   obtain⟨rfl,rfl⟩:=RunPc.checking.inj hcheck
   obtain rfl:=some.inj ((getElem?_set_here hc).symm.trans hd)
   exact .inr ⟨i,rfl,c,hc,r,hr,hcalls⟩
  rintro (hasks|⟨j,hj,d,hd,r',hr',hcalls⟩)
  ·exact absurd hasks (not_asksLock hrun nofun)
  obtain rfl:=Action.connHeard.inj hj
  obtain rfl:=some.inj (hc.symm.trans hd)
  obtain rfl:=some.inj (hr.symm.trans hr')
  exact⟨r.1,i,r.2,rfl,getElem?_set_here hc,hcalls⟩
 | @check stage i c hrun hc hself=>
  refine hkeep nofun (iff_of_false (not_asksLock (checked_conns s c stage i _).2.1 nofun) ?_)
  rintro⟨stage',j,d,hcheck,hd,hcalls⟩
  obtain⟨rfl,rfl⟩:=RunPc.checking.inj (hrun.symm.trans hcheck)
  obtain rfl:=some.inj (hc.symm.trans hd)
  exact hlock (hself hcalls)
 | delHeard hrun hp hpc=>
  obtain hrun|⟨hrun,-⟩:=hrun
  ·exact hkeep nofun (hidle hrun nofun hrun nofun)
  exact hkeep nofun (hidle hrun nofun hrun nofun)
 | accept | dial=>exact hkeep nofun (asksLock_append hs.engaged)
 | giveSlot hc hslot hpc=>
  exact hkeep nofun (asksLock_exchange rfl rfl hc rfl
   (fun _ _=>callsSelf_congr rfl rfl rfl rfl))
 | _=>exact hkeep nofun (asksLock_frame rfl rfl rfl)

end AsksLock

section Abandoned

omit [DecidableEq ι] in
lemma abandoned_frame(hrun:∀stage i,Engages t.run stage i↔Engages s.run stage i)
 (hconns:t.conns=s.conns):Abandoned t↔Abandoned s:=by
 simp only[Abandoned,hrun,hconns]

omit [DecidableEq ι] in
lemma not_abandoned(hrun:∀stage i,¬Engages s.run stage i):¬Abandoned s:=
 fun ⟨stage,i,hi,_⟩=>hrun stage i hi

omit [DecidableEq ι] in
lemma abandoned_append{listen:ListenPc}(hs:Engaged s):
 Abandoned {s with listen:=listen,conns:=s.conns++[c]}↔Abandoned s:=by
 constructor
 ·rintro⟨stage,i,hi,hpc⟩
  exact⟨stage,i,hi,fun d hd=>hpc d (getElem?_append_of_some hd)⟩
 rintro⟨stage,i,hi,hpc⟩
 refine⟨stage,i,hi,fun d hd=>?_⟩
 obtain⟨d',hd',-⟩:=hs.kept stage i hi
 have hd'':=getElem?_append_of_some hd' (a:=c)
 obtain rfl:=some.inj (hd''.symm.trans hd)
 exact hpc d' hd'

variable [Inhabited ι]

/-- Only a connection that gives up between the two operations of a checkpoint is abandoned. -/
lemma abandoned_step(hs:Sound s)(hstep:step cfg s a=some t):
 Abandoned t↔Abandoned s∨∃i,a=.conn i .giveUp∧∃c∈s.conns[i]?,∃stage,c.pc=.waiting stage:=by
 have hkeep:(∀i,a≠.conn i .giveUp)→(Abandoned t↔Abandoned s) →(Abandoned t↔Abandoned s∨
   ∃i,a=.conn i .giveUp∧∃c∈s.conns[i]?,∃stage,c.pc=.waiting stage):=by
  intro ha hiff
  rw[hiff]
  exact⟨.inl,fun h=>h.resolve_right (fun ⟨i,hi,_⟩=>ha i hi)⟩
 have hidle:∀{r r':RunPc},s.run=r→(∀stage i,¬Engages r stage i)→t.run=r' →
  (∀stage i,¬Engages r' stage i)→(Abandoned t↔Abandoned s):=by
  intro r r' hr hne hr' hne'
  exact iff_of_false (not_abandoned (hr'▸hne')) (not_abandoned (hr▸hne))
 cases moves_of_step hstep with
 | @conn i m c c' hc hm=>
  have hmoved:=connMoved_of_move hm
  constructor
  ·rintro⟨stage,j,hj,hpc⟩
   obtain⟨d,hd,hdpc⟩:=hs.engaged.kept stage j hj
   obtain hdpc|hdpc:=hdpc
   ·by_cases hij:i=j
    ·subst hij
     obtain rfl:=some.inj (hc.symm.trans hd)
     obtain rfl:=hmoved.quits stage hdpc
     exact .inr ⟨i,rfl,c,hc,stage,hdpc⟩
    exact absurd hdpc (hpc d (by rw[getElem?_set_ne hij,hd]))
   refine .inl ⟨stage,j,hj,fun d' hd' hw=>?_⟩
   obtain rfl:=some.inj (hd.symm.trans hd')
   cases hdpc.1.symm.trans hw
  rintro (⟨stage,j,hj,hpc⟩|⟨j,hgive,d,hd,stage,hw⟩)
  ·refine⟨stage,j,hj,fun d hd=>?_⟩
   obtain⟨-,rfl⟩|⟨-,hd⟩:=getElem?_set_cases hd
   ·exact hmoved.waits stage
   exact hpc d hd
  obtain⟨rfl,rfl⟩:=Action.conn.inj hgive
  obtain rfl:=some.inj (hc.symm.trans hd)
  refine⟨stage,i,hs.engaged.awaited i c stage hc hw,fun d hd=>?_⟩
  obtain rfl:=some.inj ((getElem?_set_here hc).symm.trans hd)
  exact hmoved.waits stage
 | quitHeard hrun | callerHeard hrun | procHeard hrun | callerDone hrun | procDone hrun
 | tableClosed hrun | disconnect hrun | drain hrun | runEnded hrun=>
  exact hkeep nofun (hidle hrun (fun _ _=>id) rfl (fun _ _=>id))
 | @connHeard i c r hrun hc hr=>
  refine hkeep nofun (iff_of_false ?_ (not_abandoned (fun _ _=>hrun▸id)))
  rintro⟨stage,j,⟨rfl,rfl⟩,hpc⟩
  exact hpc r.2 (getElem?_set_here hc) (connHeard_eq_some hr).2.1
 | @check stage i c hrun hc hself=>
  obtain⟨hconns,hrun',-⟩:=checked_conns s c stage i (checks cfg (s.selfId cfg) s.peers c stage)
  refine hkeep nofun (abandoned_frame (fun stage' j=>?_) hconns)
  rw[hrun',hrun]
  exact Iff.rfl
 | @answered stage i err c hrun hc hpc=>
  refine hkeep nofun (iff_of_false (not_abandoned (fun _ _=>id)) ?_)
  rintro⟨stage',j,hj,hne⟩
  rw[hrun]at hj
  obtain⟨rfl,rfl⟩:=hj
  exact hne c hc hpc
 | accept | dial=>exact hkeep nofun (abandoned_append hs.engaged)
 | @giveSlot i c hc hslot hpc=>
  refine hkeep nofun ?_
  constructor
  ·rintro⟨stage,j,hj,hne⟩
   refine⟨stage,j,hj,fun d hd=>?_⟩
   by_cases hij:i=j
   ·subst hij
    obtain rfl:=some.inj (hc.symm.trans hd)
    exact hne {c with slot:=false} (getElem?_set_here hc)
   exact hne d (by rw[getElem?_set_ne hij,hd])
  rintro⟨stage,j,hj,hne⟩
  refine⟨stage,j,hj,fun d hd=>?_⟩
  obtain⟨rfl,rfl⟩|⟨-,hd⟩:=getElem?_set_cases hd
  ·exact hne c hc
  exact hne d hd
 | _=>exact hkeep nofun (abandoned_frame (fun _ _=>Iff.rfl) rfl)

end Abandoned

section Jammed

omit [DecidableEq ι] in
lemma jammed_frame(hlisten:t.listen=s.listen)(hslots:t.slots=s.slots)
 (hconns:t.conns=s.conns):Jammed t↔Jammed s:=by
 rw[Jammed,Jammed,hlisten,hslots,hconns]

omit [DecidableEq ι] in
/-- A connection past the start is exchanged for another one past the start. -/
lemma jammed_exchange(hlisten:t.listen=s.listen)(hslots:t.slots=s.slots)(hc:s.conns[i]?=some c)
 (hconns:t.conns=s.conns.set i c')(hold:c.pc≠.start)(hnew:c'.pc≠.start)
 (hslot:c'.slot=c.slot):Jammed t↔Jammed s:=by
 rw[Jammed,Jammed,hlisten,hslots,hconns]
 refine and_congr_right' (and_congr_right' ⟨fun h d hd hdslot=>?_,fun h d hd hdslot=>?_⟩)
 ·obtain⟨j,hj⟩:=mem_iff_getElem?.1 hd
  by_cases hij:i=j
  ·subst hij
   obtain rfl:=some.inj (hc.symm.trans hj)
   exact absurd (h c' (mem_iff_getElem?.2 ⟨i,getElem?_set_here hc⟩)
    (hslot.trans hdslot)) hnew
  exact h d (mem_iff_getElem?.2 ⟨j,by rw[getElem?_set_ne hij,hj]⟩) hdslot
 obtain⟨j,hj⟩:=mem_iff_getElem?.1 hd
 obtain⟨-,rfl⟩|⟨-,hj⟩:=getElem?_set_cases hj
 ·exact absurd (h c (mem_iff_getElem?.2 ⟨i,hc⟩) (hslot.symm.trans hdslot)) hold
 exact h d (mem_iff_getElem?.2 ⟨j,hj⟩) hdslot

variable [Inhabited ι]

/-- While the lock is taken `listenLoop` neither becomes jammed nor comes free. -/
lemma jammed_step(hs:Sound s)(hlock:s.lock≠none)(hstep:step cfg s a=some t):Jammed t↔Jammed s:=by
 cases moves_of_step hstep with
 | conn hc hm=>
  have hmoved:=connMoved_of_move hm
  exact jammed_exchange rfl rfl hc rfl (fun hpc=>hlock (hmoved.locked hpc)) hmoved.fresh
   hmoved.slot
 | connHeard hrun hc hr=>
  obtain⟨hsend,hwait,hslot⟩:=connHeard_eq_some hr
  refine jammed_exchange rfl rfl hc rfl ?_ ?_ hslot
  ·rw[hsend]
   exact ConnPc.noConfusion
  rw[hwait]
  exact ConnPc.noConfusion
 | @check stage i c hrun hc hself=>
  have hchecked:∀err,(s.checked c stage i err).listen=s.listen∧
   (s.checked c stage i err).slots=s.slots:=by
   intro err
   rw[Server.checked]
   split<;>exact⟨rfl,rfl⟩
  exact jammed_frame (hchecked _).1 (hchecked _).2 (checked_conns s c stage i _).1
 | @answered stage i err c hrun hc hpc=>
  refine jammed_exchange rfl rfl hc rfl ?_ (answer_pc c err stage stage).2
   (answer_slot c err stage)
  rw[hpc]
  exact ConnPc.noConfusion
 | takeSlot hlisten hslots=>
  exact iff_of_false (ListenPc.noConfusion ·.1)
   (absurd ·.2.1 (Nat.pos_iff_ne_zero.1 hslots))
 | accept hlisten hopen=>exact absurd (hopen.symm.trans (hs.locked.shut hlock).2) Bool.false_ne_true.symm
 | acceptFailed hlisten hshut=>
  exact iff_of_false (ListenPc.noConfusion ·.1)
   (fun h=>ListenPc.noConfusion (hlisten.symm.trans h.1))
 | @giveSlot i c hc hslot hpc=>
  refine iff_of_false (absurd ·.2.1 (Nat.succ_ne_zero _)) (fun h=>?_)
  have hstart:=h.2.2 c (mem_iff_getElem?.2 ⟨i,hc⟩) hslot
  obtain hpc|hpc:=hpc
  ·cases hpc.symm.trans hstart
  cases hpc.symm.trans hstart
 | dial=>
  refine and_congr_right' (and_congr_right' ?_)
  rw[forall_mem_append]
  exact and_iff_left (fun c hc hslot=>by
   rw[mem_singleton.1 hc]at hslot
   cases hslot)
 | _=>exact jammed_frame rfl rfl rfl

end Jammed

lemma not_prudent_iff(hlock:s.lock≠none)(hstop:∀i,a≠.stop i):
 ¬Prudent cfg s a↔(∃i,a=.connHeard i∧∃c∈s.conns[i]?,∃r∈c.heard cfg,CallsSelf cfg r.1 s.peers r.2)∨
  ∃i,a=.conn i .giveUp∧∃c∈s.conns[i]?,∃stage,c.pc=.waiting stage:=by
 unfold Prudent
 split
 ·exact absurd rfl (hstop _)
 ·simp[hlock]
 ·simp
 rename_i hheard hgive
 refine iff_of_false (· trivial) ?_
 rintro (⟨i,hi,-⟩|⟨i,hi,-⟩)
 ·exact hheard i hi
 exact hgive i hi

/-- A loop that is in danger has not ended. -/
lemma not_ended_of_danger(h:Danger cfg s):¬(s.run=.ended∧s.listen=.ended):=by
 rintro⟨hrun,hlisten⟩
 obtain⟨stage,i,c,hcheck,-⟩|⟨stage,i,hi,-⟩|hjam:=h
 ·cases hrun.symm.trans hcheck
 ·rw[hrun]at hi
  exact hi
 cases hlisten.symm.trans hjam.1

/-- Before `quit` is closed no connection is abandoned. -/
lemma not_abandoned_of_running(hs:Sound s)(h:s.running=true):¬Abandoned s:=by
 rintro⟨stage,i,hi,hne⟩
 obtain⟨c,hc,hpc|hpc⟩:=hs.engaged.kept stage i hi
 ·exact hne c hc hpc
 exact absurd ((hs.locked.unquit h).symm.trans hpc.2) nofun

variable [Inhabited ι]

/-- While the lock is taken exactly the steps that are not prudent bring danger, and it stays. -/
lemma danger_step(hs:Sound s)(hlock:s.lock≠none)
 (hstep:step cfg s a=some t):Danger cfg t↔Danger cfg s∨¬Prudent cfg s a:=by
 have hstop:∀i,a≠.stop i:=by
  rintro i rfl
  cases moves_of_step hstep with
  | stop hc hlock' hrunning=>exact hlock hlock'
  | stopIdle hc hlock' hrunning=>exact hlock hlock'
 rw[Danger,Danger,asksLock_step hs hlock hstep,abandoned_step hs hstep,
  jammed_step hs hlock hstep,not_prudent_iff hlock hstop]
 constructor
 ·rintro ((h|h)|(h|h)|h)
  ·exact .inl (.inl h)
  ·exact .inr (.inl h)
  ·exact .inl (.inr (.inl h))
  ·exact .inr (.inr h)
  exact .inl (.inr (.inr h))
 rintro ((h|h|h)|h|h)
 ·exact .inl (.inl h)
 ·exact .inr (.inl (.inl h))
 ·exact .inr (.inr h)
 ·exact .inl (.inr h)
 exact .inr (.inl (.inr h))

lemma lock_step(hstep:step cfg s a=some t):
 t.lock=s.lock∨(∃i,a=.stop i∧s.lock=none∧s.running=true∧t.run=s.run∧
  t.conns=s.conns∧t.peers=s.peers∧t.listen=s.listen∧t.slots=s.slots)∨
  (t.lock=none∧s.run=.ended∧s.listen=.ended∧∃i,a=.stopped i):=by
 cases moves_of_step hstep with
 | stop hc hlock hrunning=>exact .inr (.inl ⟨_,rfl,hlock,hrunning,rfl,rfl,rfl,rfl,rfl⟩)
 | stopped hc hrun hlisten=>exact .inr (.inr ⟨rfl,hrun,hlisten,_,rfl⟩)
 | @check stage i c hrun hc hself=>
  left
  rw[Server.checked]
  split<;>rfl
 | _=>exact .inl rfl

lemma doomed_step(hs:Sound s)(h:Doomed cfg s)(hstep:step cfg s a=some t):Doomed cfg t:=by
 obtain hlock|⟨i,-,hlock,-⟩|⟨-,hrun,hlisten,-⟩:=lock_step hstep
 ·exact⟨hlock▸h.1,(danger_step hs h.1 hstep).2 (.inl h.2)⟩
 ·exact absurd hlock h.1
 exact absurd ⟨hrun,hlisten⟩ (not_ended_of_danger h.2)

/-- With the lock free only `Stop` can be imprudent. -/
lemma prudent_of_unlocked(hs:Sound s)(hlock:s.lock=none)
 (hstop:∀i,a≠.stop i)(hstep:step cfg s a=some t):Prudent cfg s a:=by
 unfold Prudent
 split
 ·exact absurd rfl (hstop _)
 ·exact fun h=>absurd hlock h
 ·rename_i i
  intro c hc stage hpc
  cases moves_of_step hstep with
  | conn hc' hm=>
   have hquit:=((connMoved_of_move hm).gives rfl).1
   have hengaged:=hs.engaged.awaited i c stage hc hpc
   obtain hlock'|hrun:=hs.locked.kept hquit
   ·exact hlock' hlock
   rw[hrun]at hengaged
   exact hengaged
 trivial

/-- A step dooms `Stop` exactly when it is not prudent. -/
lemma not_doomed_step(hs:Sound s)(h:¬Doomed cfg s)
 (hstep:step cfg s a=some t):¬Doomed cfg t↔Prudent cfg s a:=by
 by_cases hlock:s.lock=none
 ·by_cases hstop:∃i,a=.stop i
  ·obtain⟨i,rfl⟩:=hstop
   cases moves_of_step hstep with
   | stop hc hlock' hrunning=>
    have habandoned:=not_abandoned_of_running hs hrunning
    have hdanger:Danger cfg {s with
     lock:=some i,running:=false,listening:=false
     callers:=s.callers.set i (.stop .closing)}↔AsksLock cfg s∨Jammed s:=by
     change AsksLock cfg s∨Abandoned s∨Jammed s↔_
     exact or_congr_right (or_iff_right habandoned)
    rw[Doomed,hdanger,Prudent]
    simp[hrunning]
   | stopIdle hc hlock' hrunning=>
    refine iff_of_true (·.1 hlock') (fun hrun=>?_)
    exact absurd (hrunning.symm.trans hrun) nofun
  have hstop':∀i,a≠.stop i:=fun i hi=>hstop ⟨i,hi⟩
  refine iff_of_true (·.1 ?_) (prudent_of_unlocked hs hlock hstop' hstep)
  obtain hlock'|⟨i,hi,-⟩|⟨hlock',-⟩:=lock_step hstep
  ·exact hlock'.trans hlock
  ·exact absurd hi (hstop' i)
  exact hlock'
 have hdanger:¬Danger cfg s:=fun hd=>h ⟨hlock,hd⟩
 obtain hlock'|⟨i,-,hlock',-⟩|⟨hlock',-,-,i,rfl⟩:=lock_step hstep
 ·rw[Doomed,danger_step hs hlock hstep,hlock']
  simp[hlock,hdanger]
 ·exact absurd hlock' hlock
 exact iff_of_true (·.1 hlock') trivial

/-- A peer that is disconnected or waited for can go on. -/
lemma proc_moves(hp:s.procs[k]?=some p)(hm:(p.move s.quit m).isSome):step cfg s (.proc k m)≠none:=by
 rw[step,hp,bind_some,Ne,map_eq_none_iff,←Ne,←isSome_iff_ne_none]
 exact hm

/-- While `run` winds up it or a peer can go on. -/
lemma run_progress(hs:Sound s)(hquit:s.quit=true)
 (hnone:∀a:Action ι,¬a.FromOutside→step cfg s a=none):
 AsksLock cfg s∨Abandoned s∨s.run=.ended:=by
 cases hrun:s.run with
 | selecting=>
  have hblocked:=hnone .quitHeard id
  simp[step,hrun,hquit]at hblocked
 | checking stage i=>
  left
  obtain⟨c,hc,-⟩:=hs.engaged.kept stage i (by rw[hrun];exact⟨rfl,rfl⟩)
  refine⟨stage,i,c,hrun,hc,?_⟩
  by_contra hcalls
  have hblocked:=hnone .check id
  simp[step,hrun,hc,hcalls]at hblocked
 | answering stage i err=>
  right;left
  have hengaged:Engages s.run stage i:=by rw[hrun];exact⟨rfl,rfl⟩
  refine⟨stage,i,hengaged,fun c hc hpc=>?_⟩
  have hblocked:=hnone .answered id
  simp[step,hrun,hc,hpc]at hblocked
 | answeringOp w=>
  exfalso
  have hwaiting:=(hs.counted w).2 hrun
  have hblocked:=hnone (.opDone w) id
  cases w with
  | caller i=>
   rw[Waiting]at hwaiting
   simp[step,hrun,Server.count,hwaiting,Caller.count,Count.answer]at hblocked
  | proc k=>
   obtain⟨p,hp,hpc|hpc⟩:=hwaiting
   ·simp[step,hrun,Server.count,hp,Proc.count,hpc,Count.answer]at hblocked
   simp[step,hrun,Server.count,hp,Proc.count,hpc,Count.answer]at hblocked
 | closingTable=>
  have hblocked:=hnone (.tableClosed s.peers.entries) id
  simp[step,hrun]at hblocked
 | disconnecting left=>
  exfalso
  cases left with
  | nil=>
   have hblocked:=hnone .drain id
   simp[step,hrun]at hblocked
  | cons k left=>
   have hk:=(hs.registered.left _ hrun).1 k mem_cons_self
   obtain⟨p,hp⟩:∃p,s.procs[k]?=some p:=⟨_,getElem?_eq_getElem hk⟩
   have hblocked:=hnone .disconnect id
   cases hpc:p.pc with
   | counting n=>
    cases n with
    | asking=>
     refine proc_moves hp ?_ (hnone (.proc k .quit) id)
     simp[Proc.move,Proc.count,hpc,Count.give,hquit]
    | waiting=>
     have hop:=(hs.counted (.proc k)).1 ⟨p,hp,.inl hpc⟩
     cases hrun.symm.trans hop
    | counted=>
     refine proc_moves hp ?_ (hnone (.proc k .run) id)
     simp[Proc.move,hpc]
   | running | closing | leaving | recounting=>
    simp[step,hrun,hp,Proc.disconnect,hpc]at hblocked
 | draining=>
  exfalso
  by_cases hpeers:s.peers.entries=[]
  ·have hblocked:=hnone .runEnded id
   simp[step,hrun,hpeers]at hblocked
  obtain⟨e,he⟩:=exists_mem_of_ne_nil _ hpeers
  have hlookup:s.peers.lookup e.1=some e.2:=(mem_visit (List.Perm.refl _)).1 he
  obtain⟨p,hp,hpc|hpc⟩:=hs.registered.drained hrun e.1 e.2 hlookup
  ·refine proc_moves hp ?_ (hnone (.proc e.2 .closed) id)
   simp[Proc.move,hpc]
  have hblocked:=hnone (.delHeard e.2) id
  simp[step,hrun,hpeers,hp,hpc]at hblocked
 | ended=>exact .inr (.inr rfl)

/-- A connection past the start that has a slot can go on. -/
lemma conn_progress(cfg:Config ι)(hquit:s.quit=true)(hc:s.conns[i]?=some c)
 (hslot:c.slot=true)(hstart:c.pc≠.start):
 ∃a:Action ι,¬a.FromOutside∧step cfg s a≠none:=by
 cases hpc:c.pc with
 | start=>exact absurd hpc hstart
 | encHandshake=>exact⟨.conn i (.encHandshake none),id,by simp[step,hc,Conn.move,hpc]⟩
 | sending | waiting=>exact⟨.conn i .giveUp,id,by simp[step,hc,Conn.move,hpc,hquit]⟩
 | protoHandshake=>
  exact⟨.conn i (.protoHandshake none),id,by simp[step,hc,Conn.move,hpc]⟩
 | closed | established=>exact⟨.giveSlot i,id,by simp[step,hc,hpc,hslot]⟩

lemma doomed_of_stuck(hs:Sound s)(h:Stuck cfg s):Doomed cfg s:=by
 obtain⟨hmem,hnone⟩:=h
 obtain⟨i,hi⟩:=mem_iff_getElem?.1 hmem
 have hquit:=hs.locked.quits i hi
 have hlock:s.lock≠none:=by
  rw[(hs.locked.holder i).2 ⟨_,hi,.inr rfl⟩]
  nofun
 refine⟨hlock,?_⟩
 obtain hasks|habandoned|hrun:=run_progress hs hquit hnone
 ·exact .inl hasks
 ·exact .inr (.inl habandoned)
 right;right
 cases hlisten:s.listen with
 | waitingSlot=>
  refine⟨hlisten,?_,fun c hc hslot=>?_⟩
  ·by_contra hslots
   have hblocked:=hnone .takeSlot id
   simp[step,hlisten,Nat.pos_of_ne_zero hslots]at hblocked
  by_contra hstart
  obtain⟨j,hj⟩:=mem_iff_getElem?.1 hc
  obtain⟨a,ha,hgoes⟩:=conn_progress cfg hquit hj hslot hstart
  exact hgoes (hnone a ha)
 | accepting=>
  have hblocked:=hnone .acceptFailed id
  simp[step,hlisten,(hs.locked.shut hlock).2]at hblocked
 | ended=>
  have hblocked:=hnone (.stopped i) id
  simp[step,hi,hrun,hlisten]at hblocked

/-- In a run whose steps are all prudent no state is stuck. After a step that is not prudent the
`Stop` that has the lock never returns, whatever happens. -/
theorem stop_never_stuck_of_prudent {listens : Bool} {slots : ℕ} {t : Server ι}
    {actions : List (Action ι)} (hrun : exec (step cfg) (started ι listens slots) actions = some t) :
    (Careful (step cfg) (Prudent cfg) (started ι listens slots) actions →
      Throughout (step cfg) (fun s => ¬Stuck cfg s) (started ι listens slots) actions) ∧
    (¬Careful (step cfg) (Prudent cfg) (started ι listens slots) actions →
      ∀ more u, exec (step cfg) t more = some u →
        ∃ c ∈ u.callers, c = .stop .closing ∨ c = .stop .waiting) := by
 have hinv:∀s a m,Sound s→step cfg s a=some m → Sound m:=fun _ _ _ hs hstep=>sound_step hs hstep
 have hsound:Sound (started ι listens slots):=sound_started listens slots
 have hgood:¬Doomed cfg (started ι listens slots):=fun h=>h.1 rfl
 have hiff:=throughout_iff_careful hinv (fun _ _ _ hs h hstep=>not_doomed_step hs h hstep) hrun
  hsound hgood
 constructor
 · intro hcareful
   exact (hiff.2 hcareful).imp hinv (fun s hs h hstuck=>h (doomed_of_stuck hs hstuck)) hsound
 intro hcareless more u hmore
 have hdoomed:=bad_of_not_throughout hinv
  (fun _ _ _ hs h hstep=>doomed_step hs h hstep) hsound hrun (mt hiff.1 hcareless)
 obtain⟨hs,h⟩:=@exec_invariant _ _ (step cfg) (fun s=>Sound s ∧ Doomed cfg s)
  (fun _ _ _ hs hstep=>⟨sound_step hs.1 hstep,doomed_step hs.1 hs.2 hstep⟩) t u more
  ⟨exec_invariant hinv hsound hrun,hdoomed⟩ hmore
 obtain⟨i,hi⟩:=ne_none_iff_exists'.1 h.1
 obtain⟨c,hc,hstops⟩:=(hs.locked.holder i).1 hi
 exact⟨c,mem_iff_getElem?.2 ⟨i,hc⟩,hstops⟩

def sampleConfig:Config ℕ:=⟨0,10,0,[]⟩

/-- A node is dialed and becomes a peer, and the server is stopped. -/
def peacefulStop:List (Action ℕ):=
 [.dial 1 false,.conn 0 .begin,.conn 0 (.encHandshake (some 1)),.connHeard 0,.check,
  .answered,.conn 0 (.protoHandshake (some (1,1))),.connHeard 0,.check,.answered,
  .opHeard (.proc 0),.opDone (.proc 0),.proc 0 .run,.call (.stop .start),.stop 0,
  .closeQuit 0,.quitHeard,.tableClosed [⟨1,0⟩],.disconnect,.drain,.proc 0 .closed,
  .delHeard 0,.runEnded,.stopped 0]

theorem stop_never_stuck_peaceful : ∃ t,
    exec (step sampleConfig) (started ℕ false 0) peacefulStop = some t ∧
    t.callers = [.stop .returned] ∧
    Throughout (step sampleConfig) (fun s => ¬Stuck sampleConfig s) (started ℕ false 0)
      peacefulStop := by
 refine⟨_,rfl,rfl,(stop_never_stuck_of_prudent rfl).1 ?_⟩
 decide

/-- `Stop` takes the lock while `run` checks a dialed node, which then gives up. -/
def unluckyStop:List (Action ℕ):=
 [.dial 1 false,.conn 0 .begin,.conn 0 (.encHandshake (some 1)),.connHeard 0,
  .call (.stop .start),.stop 0,.closeQuit 0,.conn 0 .giveUp]

/-- `run` asks for the lock, which `Stop` has until `run` ends. -/
def unluckyServer:Server ℕ where
 lock:=some 0
 running:=false
 listening:=false
 quit:=true
 run:=.checking .posthandshake 0
 peers:=∅
 listen:=.ended
 slots:=0
 conns:=[⟨.closed,1,some 1,false,false,0,false⟩]
 procs:=[]
 callers:=[.stop .waiting]

lemma unluckyServer_conn(i:ℕ)(m:ConnMove ℕ):step sampleConfig unluckyServer (.conn i m)=none:=by
 by_contra hgoes
 obtain⟨t,ht⟩:=ne_none_iff_exists'.1 hgoes
 cases moves_of_step ht with
 | conn hc hm=>
  have hmem:=mem_iff_getElem?.2 ⟨i,hc⟩
  rw[mem_singleton.1 hmem]at hm
  exact (connMoved_of_move hm).ongoing rfl

lemma unluckyServer_caller(i:ℕ):step sampleConfig unluckyServer (.caller i)=none:=by
 cases i with
 | zero=>rfl
 | succ i=>rfl

theorem stop_stuck :
    exec (step sampleConfig) (started ℕ false 0) unluckyStop = some unluckyServer ∧
      Stuck sampleConfig unluckyServer := by
 refine⟨rfl,mem_cons_self,fun a ha=>?_⟩
 cases a with
 | conn i m=>exact unluckyServer_conn i m
 | proc | quitHeard | opHeard | opDone | connHeard | answered | delHeard | disconnect | drain
 | takeSlot | acceptFailed=>rfl
 | caller i=>exact unluckyServer_caller i
 | closeQuit i=>cases i<;>simp[step,unluckyServer]
 | check=>decide
 | accept | dial | call=>exact absurd trivial ha
 | giveSlot i=>cases i<;>rfl
 | _=>simp[step,unluckyServer]

end GoCoupe.ServerStopSafety
