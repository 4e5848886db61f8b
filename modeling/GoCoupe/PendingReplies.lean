import Mathlib.Data.Int.Notation
import Mathlib.Data.List.Perm.Basic
import GoCoupe.GuardedRuns

/-!
# Pending replies of the discovery loop

`loop` of `p2p/discover/udp.go` with its list of pending requests, its timer and the channel of
the timer. `Next` of a removed element is nil, so a walk over the list ends at its first removal.
Every event has the clock readings of its case and of the `resetTimeout` after it.
-/

namespace GoCoupe.PendingReplies
open GuardedRuns List Option

/-- What the error channel of a request receives. -/
inductive Outcome where
 | done
 | errTimeout
 | errClockWarp
 | errClosed

/-- A pending request; its callback is a function `call` on the variables it has captured. -/
structure Pending (ν σ:Type) where
 id:ℕ
 sender:ν
 ptype:UInt8
 deadline:ℤ
 callback:σ

structure Loop (ν σ:Type) where
 plist:List (Pending ν σ)
 nextTimeout:Option ℕ
 timeout:Option ℤ
 fired:Option ℤ
 errc:List (ℕ×Outcome)
 matched:List Bool
 added:ℕ
 closed:Bool

inductive Event (ν σ ρ:Type) where
 | addpending (sender:ν) (ptype:UInt8) (callback:σ)
 | gotreply (sender:ν) (ptype:UInt8) (data:ρ)
 | fire
 | timeout
 | closing

def respTimeout:ℤ:=500000000

def initial:Loop ν σ:=⟨[],none,none,none,[],[],0,false⟩

def visited (visit:α→Bool×α):List α→List α
 | []=>[]
 | p::ps=>p::if (visit p).1 then [] else visited visit ps

/-- What a walk removes and what it leaves. -/
def walk (visit:α→Bool×α):List α→List α×List α
 | []=>([],[])
 | p::ps=>
  if (visit p).1 then ([p],ps) else ((walk visit ps).1,(visit p).2::(walk visit ps).2)

namespace Loop

def answer (l:Loop ν σ) (o:Outcome) (w:List (Pending ν σ)×List (Pending ν σ)):Loop ν σ:=
 {l with plist:=w.2,errc:=w.1.map (fun p=>(p.id,o))++l.errc}

def resetTimeout (l:Loop ν σ) (now:ℤ):Loop ν σ:=
 match l.plist with
 | []=>l
 | p::ps=>
  if l.nextTimeout=some p.id then l
  else if p.deadline-now<2*respTimeout then
   {l with nextTimeout:=some p.id,timeout:=some p.deadline}
  else {l.answer .errClockWarp ([p],ps) with nextTimeout:=none,timeout:=none}

def addpending (l:Loop ν σ) (now:ℤ) (sender:ν) (ptype:UInt8) (callback:σ):Loop ν σ:=
 {l with
  plist:=l.plist++[⟨l.added,sender,ptype,now+respTimeout,callback⟩]
  added:=l.added+1}

def gotreply [DecidableEq ν] (l:Loop ν σ) (call:σ→ρ→Bool×σ) (sender:ν) (ptype:UInt8) (data:ρ):
 Loop ν σ:=
 let awaits (p:Pending ν σ):=decide (p.sender=sender ∧ p.ptype=ptype)
 let visit (p:Pending ν σ):=
  if awaits p then ((call p.callback data).1,{p with callback:=(call p.callback data).2})
  else (false,p)
 {l.answer .done (walk visit l.plist) with
  matched:=(visited visit l.plist).any awaits::l.matched}

/-- The timer sends the time; its channel holds one value. -/
def fire (l:Loop ν σ) (now:ℤ):Option (Loop ν σ):=
 if ∃d∈l.timeout,d≤now then some {l with timeout:=none,fired:=some (l.fired.getD now)} else none

def tick (l:Loop ν σ) (now:ℤ):Loop ν σ:=
 {l.answer .errTimeout (walk (fun p=>(p.deadline≤now,p)) l.plist) with
  nextTimeout:=none,fired:=none}

def closing (l:Loop ν σ):Loop ν σ:=
 {l.answer .errClosed (l.plist,[]) with timeout:=none,closed:=true}

end Loop

/-- One turn of the loop. The timer may fire while the loop waits. -/
def step [DecidableEq ν] (call:σ→ρ→Bool×σ) (l:Loop ν σ) (e:Event ν σ ρ×ℤ×ℤ):Option (Loop ν σ):=
 if l.closed then none
 else match e.1 with
 | .addpending sender ptype callback=>
  some ((l.addpending e.2.1 sender ptype callback).resetTimeout e.2.2)
 | .gotreply sender ptype data=>
  some ((l.gotreply call sender ptype data).resetTimeout e.2.2)
 | .fire=>l.fire e.2.1
 | .timeout=>l.fired.map (fun now=>(l.tick now).resetTimeout e.2.2)
 | .closing=>some l.closing

/-- Every request is removed or left. -/
def Splits(ps:List (Pending ν σ))(w:List (Pending ν σ)×List (Pending ν σ)):Prop:=
 w.1.map Pending.id++w.2.map Pending.id~ps.map Pending.id

lemma splits_walk(visit:Pending ν σ→Bool×Pending ν σ)(hid:∀p,(visit p).2.id=p.id)
 (ps:List (Pending ν σ)):Splits ps (walk visit ps):=by
 induction ps with
 | nil=>exact .refl _
 | cons p ps ih=>
  rw[walk]
  split
  ·exact .refl _
  rw[Splits,map_cons,hid]
  exact perm_middle.trans (ih.cons _)

namespace Loop

variable {l:Loop ν σ} {w:List (Pending ν σ)×List (Pending ν σ)}

/-- The requests with a result and those in the list. -/
def ids(l:Loop ν σ):List ℕ:=l.errc.map Prod.fst++l.plist.map Pending.id

lemma ids_answer(hw:Splits l.plist w):(l.answer o w).ids~l.ids:=by
 have hfst:(w.1.map (fun p=>(p.id,o))).map Prod.fst=w.1.map Pending.id:=List.map_map
 simp only[ids,answer,map_append,hfst,append_assoc]
 exact (perm_append_comm_assoc _ _ _).trans (hw.append_left _)

/-- Every request has one result or is in the list once. -/
structure Accounted(l:Loop ν σ):Prop where
 once:l.ids~ range l.added
 closed:l.closed→l.plist=[]

lemma accounted_resetTimeout(h:l.ids~ range l.added)(hl:l.closed=false)(now:ℤ):
 (l.resetTimeout now).Accounted:=by
 have hopen {q:Prop}:l.closed=true→q:=by simp[hl]
 rw[resetTimeout]
 split
 ·exact⟨h,hopen⟩
 rename_i p ps hps
 split_ifs
 ·exact⟨h,hopen⟩
 ·exact⟨h,hopen⟩
 have hw:Splits l.plist ([p],ps):=hps▸.refl _
 exact⟨(ids_answer hw).trans h,hopen⟩

end Loop

variable [DecidableEq ν] {call:σ→ρ→Bool×σ} {l m:Loop ν σ} {e:Event ν σ ρ×ℤ×ℤ}

lemma splits_gotreply(l:Loop ν σ)(sender:ν)(ptype:UInt8)(data:ρ):
 ∃w,Splits l.plist w∧(l.gotreply call sender ptype data).ids=(l.answer .done w).ids:=by
 refine⟨_,splits_walk _ (fun p=>?_) _,rfl⟩
 split<;>rfl

lemma accounted_step(hl:l.Accounted)(h:step call l e=some m):m.Accounted:=by
 rw[step]at h
 split at h
 ·contradiction
 rename_i hopen
 rw[Bool.not_eq_true]at hopen
 split at h
 ·cases h
  refine Loop.accounted_resetTimeout ?_ (by exact hopen) _
  simpa[Loop.ids,Loop.addpending,range_succ]using hl.once.append_right [l.added]
 ·cases h
  refine Loop.accounted_resetTimeout ?_ (by exact hopen) _
  obtain⟨w,hw,hids⟩:=splits_gotreply l _ _ _
  exact hids▸(Loop.ids_answer hw).trans hl.once
 ·obtain⟨-,rfl⟩:=of_guarded h
  exact⟨hl.once,hl.closed⟩
 ·obtain⟨now,-,rfl⟩:=map_eq_some_iff.1 h
  refine Loop.accounted_resetTimeout ?_ (by exact hopen) _
  exact (Loop.ids_answer (splits_walk _ (fun _=>rfl) _)).trans hl.once
 ·cases h
  have hw:Splits l.plist (l.plist,[]):=by simp[Splits]
  exact⟨(Loop.ids_answer hw).trans hl.once,fun _=>rfl⟩

/-- Every request gets at most one result, and until it has one it is in the list. -/
theorem answered_at_most_once (call : σ → ρ → Bool × σ)
    (events : List (Event ν σ ρ × ℤ × ℤ)) (l : Loop ν σ)
    (h : exec (step call) initial events = some l) :
    l.errc.map Prod.fst ++ l.plist.map Pending.id ~ range l.added ∧
      (l.closed → l.plist = []) := by
 have hl:l.Accounted:=exec_invariant (fun _ _ _=>accounted_step) ⟨.refl _,fun _=>rfl⟩ h
 exact⟨hl.once,hl.closed⟩

/-- Of three requests a reply completes one and a tick expires one. -/
def sampleEvents:List (Event Bool ℕ ℕ×ℤ×ℤ):=
 [(.addpending true 2 1,0,0),(.addpending false 4 2,1,1),(.addpending true 2 1,2,2),
  (.gotreply false 4 0,3,3),(.gotreply true 2 0,4,4),(.fire,500000002,500000002),
  (.timeout,500000003,500000003)]

/-- A callback that counts down. -/
def sampleCall (n:ℕ) (_:ℕ):Bool×ℕ:=(n≤1,n-1)

theorem answered_at_most_once_sample : ∃ l, exec (step sampleCall) initial sampleEvents = some l ∧
    l.plist.map Pending.id = [2] ∧
      l.errc.map Prod.fst ++ l.plist.map Pending.id ~ range 3 :=
 ⟨_,rfl,rfl,(answered_at_most_once sampleCall sampleEvents _ rfl).1⟩

end GoCoupe.PendingReplies
