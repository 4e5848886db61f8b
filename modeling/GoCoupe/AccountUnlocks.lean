import GoCoupe.GuardedRuns
import Mathlib.Data.Int.Notation
import Mathlib.Logic.Function.Basic

/-!
# Unlocked accounts and their timers

`TimedUnlock`, `expire` and the key that `Sign` finds in `accounts/account_manager.go`. A timer
drops an account only while the map still holds the value that the timer was started for.
-/

namespace GoCoupe.AccountUnlocks
open GuardedRuns Function Option

variable {Addr K:Type} [DecidableEq Addr]

/-- Where the goroutine of an unlock stands, if it has one. -/
inductive Timer where
 | unset | running | fired | aborted | processed
deriving DecidableEq

/-- An `unlocked` value; of its abort channel, whether it is closed. -/
structure Unlocked (Addr K:Type) where
 addr:Addr
 key:K
 zeroed:Bool
 abort:Option Bool
 timer:Timer

/-- The map holds addresses of the heap. Beside it stands the latest unlock of each account. -/
structure Manager (Addr K:Type) where
 unlocked:Addr→Option ℕ
 heap:ℕ→Option (Unlocked Addr K)
 next:ℕ
 latest:Addr→Option ℕ
 panicked:Bool

def Manager.new:Manager Addr K:=⟨fun _=>none,fun _=>none,0,fun _=>none,false⟩

/-- The key that `Sign` signs with. -/
def signKey (am:Manager Addr K) (a:Addr):Option K:=do
 let i ← am.unlocked a
 let u ← am.heap i
 if u.zeroed then none else some u.key

def put (i:ℕ) (u:Unlocked Addr K) (am:Manager Addr K):Manager Addr K:=
 {am with heap:=update am.heap i (some u)}

def closeAbort (am:Manager Addr K) (i:ℕ):Manager Addr K:=
 match am.heap i with
 | some u=>u.abort.elim am fun closed=>
  if closed then {am with panicked:=true} else put i {u with abort:=some true} am
 | none=>am

def timedUnlock (a:Addr) (key:K) (timeout:ℤ) (am:Manager Addr K):Manager Addr K:=
 let am:=(am.unlocked a).elim am (closeAbort am)
 let u:=if timeout>0 then ⟨a,key,false,some false,.running⟩ else ⟨a,key,false,none,.unset⟩
 if am.panicked then am
 else {put am.next u am with
  next:=am.next+1
  unlocked:=update am.unlocked a am.next
  latest:=update am.latest a am.next}

inductive Wake where
 | abort | timer | lock

/-- A turn of the goroutine `expire` of an unlock. -/
def expire (i:ℕ) (u:Unlocked Addr K) (am:Manager Addr K):Wake→Option (Manager Addr K)
 | .abort=>
  if u.timer=.running ∧ u.abort=some true then some (put i {u with timer:=.aborted} am) else none
 | .timer=>if u.timer=.running then some (put i {u with timer:=.fired} am) else none
 | .lock=>
  if u.timer=.fired then some
   (if am.unlocked u.addr=some i then
    {put i {u with zeroed:=true,timer:=.processed} am with unlocked:=update am.unlocked u.addr none}
   else put i {u with timer:=.processed} am)
  else none

/-- `GetKey` gives a new key or an error. -/
inductive Action (Addr K:Type) where
 | unlock (a:Addr) (key:Option K) (timeout:ℤ)
 | expire (i:ℕ) (w:Wake)

def step (am:Manager Addr K):Action Addr K→Option (Manager Addr K)
 | .unlock a key timeout=>some (key.elim am (timedUnlock a · timeout am))
 | .expire i w=>(am.heap i).bind (expire i · am w)

variable {am m:Manager Addr K} {i:ℕ} {u v:Unlocked Addr K} {a:Addr}

/-- The map holds the latest unlocks whose timers have not been processed. -/
structure Held (am:Manager Addr K):Prop where
 calm:am.panicked=false
 fresh:∀i u,am.heap i=some u→i<am.next
 valid:∀a i,am.latest a=some i→∃u,am.heap i=some u ∧ u.addr=a
 current:∀a i,am.unlocked a=some i ↔ am.latest a=some i ∧ ∀u,am.heap i=some u→u.timer≠.processed
 cleared:∀i u,am.heap i=some u→u.zeroed→u.timer=.processed
 aborted:∀i u,am.heap i=some u→u.abort=some true→am.latest u.addr≠some i

omit [DecidableEq Addr] in
/-- The channel that is closed is an open one, of the value in the map. -/
lemma closed_spec(h:Held am)(a:Addr):∃heap,
 (am.unlocked a).elim am (closeAbort am)={am with heap:=heap}∧∀j,heap j=am.heap j∨
  am.unlocked a=some j∧∃u,am.heap j=some u∧heap j=some {u with abort:=some true}:=by
 cases hi:am.unlocked a with
 | none=>exact⟨am.heap,rfl,fun j=>.inl rfl⟩
 | some i=>
  obtain⟨hlast,-⟩:=(h.current a i).1 hi
  obtain⟨u,hu,rfl⟩:=h.valid a i hlast
  rw[elim_some,closeAbort,hu]
  dsimp only
  cases hclosed:u.abort with
  | none=>exact⟨am.heap,rfl,fun j=>.inl rfl⟩
  | some closed=>
   cases closed with
   | true=>exact absurd hlast (h.aborted i u hu hclosed)
   | false=>
    refine⟨_,rfl,fun j=>?_⟩
    grind[update_apply]

lemma held_timedUnlock(h:Held am)(a:Addr)(key:K)(timeout:ℤ):Held (timedUnlock a key timeout am):=by
 obtain⟨heap,hclose,hheap⟩:=closed_spec h a
 obtain⟨hcalm,hfresh,hvalid,hcurrent,hcleared,haborted⟩:=h
 rw[timedUnlock,hclose,put]
 dsimp only
 rw[if_neg (by simp[hcalm])]
 generalize hw:(if timeout>0 then _ else _:Unlocked Addr K)=w
 obtain⟨hzero,habort,htimer,rfl⟩:w.zeroed=false∧w.abort≠some true∧w.timer≠.processed∧w.addr=a:=by
  subst hw
  split<;>simp
 have hne:∀a i,am.latest a=some i→i≠am.next:=by grind
 constructor<;>grind[update_apply]

/-- A goroutine changes no value but its own, and drops its account only. -/
lemma held_expire(h:Held am)(hu:am.heap i=some u)(hstep:expire i u am w=some m):
 Held m∧m.latest=am.latest∧∀j≠i,m.heap j=am.heap j:=by
 have hold:∀a,am.unlocked a=some i→u.addr=a:=by
  intro a ha
  obtain⟨v,hv,rfl⟩:=h.valid a i ((h.current a i).1 ha).1
  rw[some_inj.1 (hu.symm.trans hv)]
 obtain⟨hcalm,hfresh,hvalid,hcurrent,hcleared,haborted⟩:=h
 unfold expire put at hstep
 cases w with
 | abort=>
  obtain⟨⟨hrun,-⟩,rfl⟩:=of_guarded hstep
  refine⟨?_,rfl,fun j hj=>update_of_ne hj ..⟩
  constructor<;>grind[update_apply]
 | timer=>
  obtain⟨hrun,rfl⟩:=of_guarded hstep
  refine⟨?_,rfl,fun j hj=>update_of_ne hj ..⟩
  constructor<;>grind[update_apply]
 | lock=>
  obtain⟨hrun,rfl⟩:=of_guarded hstep
  split
  all_goals
   refine⟨?_,rfl,fun j hj=>update_of_ne hj ..⟩
   constructor<;>grind[update_apply]

lemma held_step(h:Held am)(hstep:step am act=some m):Held m:=by
 cases act with
 | unlock a key timeout=>
  obtain rfl:=some_inj.1 hstep
  cases key with
  | none=>exact h
  | some key=>exact held_timedUnlock h a key timeout
 | expire i w=>
  obtain⟨u,hu,hstep⟩:=bind_eq_some_iff.1 hstep
  exact (held_expire h hu hstep).1

structure Independent (am:Manager Addr K):Prop where
 signs:∀a k,signKey am a=some k ↔
  ∃i u,am.latest a=some i ∧ am.heap i=some u ∧ u.timer≠.processed ∧ u.key=k
 undisturbed:∀i w m a,step am (.expire i w)=some m→am.latest a≠some i→signKey m a=signKey am a
 cleared:∀i u,am.heap i=some u→u.zeroed→u.timer=.processed
 calm:am.panicked=false

omit [DecidableEq Addr] in
/-- An account signs with the key of its latest unlock. -/
lemma signKey_iff(h:Held am):signKey am a=some k↔
 ∃i u,am.latest a=some i∧am.heap i=some u∧u.timer≠.processed∧u.key=k:=by
 obtain⟨-,-,-,hcurrent,hcleared,-⟩:=h
 simp only[signKey,bind_eq_bind,bind_eq_some_iff]
 grind

/-- However the unlocks and their timers are interleaved, an account signs exactly while its
latest unlock has no timeout or one that is not processed, and no other timer disturbs it. -/
theorem unlocks_independent {Addr K : Type} [DecidableEq Addr] {actions : List (Action Addr K)}
    {am : Manager Addr K} (h : exec step .new actions = some am) : Independent am := by
 have hheld:Held am:=exec_invariant (fun _ _ _=>held_step) (by constructor<;>simp[Manager.new]) h
 refine⟨fun a k=>signKey_iff hheld,?_,hheld.cleared,hheld.calm⟩
 intro i w m a hstep hne
 obtain⟨u,hu,hstep⟩:=bind_eq_some_iff.1 hstep
 obtain⟨hm,hlatest,hheap⟩:=held_expire hheld hu hstep
 refine ext fun k=>?_
 rw[signKey_iff hm,signKey_iff hheld,hlatest]
 grind

/-- An account is unlocked for good while the timer of its first unlock waits for the lock. -/
def again:List (Action ℕ ℕ):=
 [.unlock 1 (some 7) 5,.expire 0 .timer,.unlock 1 (some 8) 0,.expire 0 .lock]

theorem unlocked_again :
    ∃ am, exec step .new again = some am ∧ signKey am 1 = some 8 ∧ Independent am :=
 ⟨_,rfl,rfl,unlocks_independent (rfl:exec step .new again=_)⟩

end GoCoupe.AccountUnlocks
