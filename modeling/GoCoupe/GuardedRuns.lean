import Mathlib.Data.List.Basic

/-!
# Runs of guarded actions

Interleaved goroutines are a state and a partial step function: an action that is not enabled
has no successor. A condition that decides at each step whether the next state is bad decides
whether a run meets a bad state.
-/

namespace GoCoupe.GuardedRuns
open List Option

variable {S A:Type*} {step:S→A→Option S}

def exec (step:S→A→Option S) (s:S) (actions:List A):Option S:=actions.foldlM step s

@[simp] lemma exec_nil(s:S):exec step s []=some s:=rfl

/-- What an action needs and does. -/
lemma of_guarded [Decidable p](h:(if p then some s else none)=some t):p∧s=t:=by
 obtain⟨hp,h⟩:=ite_none_right_eq_some.1 h
 exact⟨hp,some.inj h⟩

/-- What an action of one of several goroutines needs and does. -/
lemma of_moved(h:(x.bind f).map g=some t):∃a b,x=some a∧f a=some b∧g b=t:=by
 obtain⟨b,hb,hg⟩:=map_eq_some_iff.1 h
 obtain⟨a,ha,hf⟩:=bind_eq_some_iff.1 hb
 exact⟨a,b,ha,hf,hg⟩

variable {actions:List A} {s:S} {Ok:S→A→Prop} {Inv:S→Prop}

lemma exec_cons:exec step s (a::actions)=some t↔∃m,step s a=some m∧exec step m actions=some t:=by
 rw[exec,foldlM_cons]
 exact bind_eq_some_iff

/-- Every action of the run meets a condition on the state it is taken in. -/
def Careful (step:S→A→Option S) (Ok:S→A→Prop):S→List A→Prop
 | _,[]=>True
 | s,a::actions=>Ok s a ∧ ∀m,step s a=some m → Careful step Ok m actions

lemma careful_cons_none(h:step s a=none):Ok s a↔Careful step Ok s (a::actions):=by
 simp[Careful,h]

lemma careful_cons_some(h:step s a=some m):
 Ok s a∧Careful step Ok m actions↔Careful step Ok s (a::actions):=by
 simp[Careful,h]

/-- A condition on the actions alone joins one on the states. -/
lemma Careful.and{Q:A→Prop}(h:Careful step Ok s actions)(hQ:∀a∈actions,Q a):
 Careful step (fun s a=>Q a∧Ok s a) s actions:=by
 induction actions generalizing s with
 | nil=>trivial
 | cons a actions ih=>
  refine⟨⟨hQ a mem_cons_self,h.1⟩,fun m hm=>?_⟩
  exact ih (h.2 m hm) (fun b hb=>hQ b (mem_cons_of_mem _ hb))

/-- Whether a run is careful is decided by running it. -/
instance careful_decidable {Ok:S→A→Prop} [∀s a,Decidable (Ok s a)]:
 ∀(actions:List A) (s:S),Decidable (Careful step Ok s actions)
 | [],_=>.isTrue trivial
 | a::actions,s=>
  match h:step s a with
  | none=>decidable_of_iff (Ok s a) (careful_cons_none h)
  | some m=>
   have:Decidable (Careful step Ok m actions):=careful_decidable actions m
   decidable_of_iff (Ok s a ∧ Careful step Ok m actions) (careful_cons_some h)

def Throughout (step:S→A→Option S) (P:S→Prop):S→List A→Prop
 | s,[]=>P s
 | s,a::actions=>P s ∧ ∀m,step s a=some m→Throughout step P m actions

lemma Throughout.head(h:Throughout step P s actions):P s:=by
 cases actions with
 | nil=>exact h
 | cons a actions=>exact h.1

lemma exec_invariant{Inv:S→Prop}(hstep:∀s a m,Inv s→step s a=some m→Inv m)
 {s t:S}{actions:List A}(hs:Inv s)(h:exec step s actions=some t):Inv t:=by
 induction actions generalizing s with
 | nil=>exact some.inj h▸hs
 | cons a actions ih=>
  obtain⟨m,hm,h⟩:=exec_cons.1 h
  exact ih (hstep s a m hs hm) h

/-- An invariant that the steps of a careful run keep. -/
lemma careful_invariant(hstep:∀s a m,Inv s→Ok s a→step s a=some m→Inv m)
 (hs:Inv s)(h:exec step s actions=some t)(hok:Careful step Ok s actions):Inv t:=by
 induction actions generalizing s with
 | nil=>exact some.inj h▸hs
 | cons a actions ih=>
  obtain⟨m,hm,h⟩:=exec_cons.1 h
  exact ih (hstep s a m hs hok.1 hm) h (hok.2 m hm)

lemma Throughout.imp(hinv:∀s a m,Inv s→step s a=some m→Inv m)
 (hPQ:∀s,Inv s→P s→Q s)(hs:Inv s)(h:Throughout step P s actions):
 Throughout step Q s actions:=by
 induction actions generalizing s with
 | nil=>exact hPQ s hs h
 | cons a actions ih=>
  exact⟨hPQ s hs h.1,fun m hm=>ih (hinv s a m hs hm) (h.2 m hm)⟩

/-- A run that meets a bad state ends in one, when bad states are not left. -/
lemma bad_of_not_throughout{Bad:S→Prop}(hinv:∀s a m,Inv s→step s a=some m→Inv m)
 (hbad:∀s a m,Inv s→Bad s→step s a=some m→Bad m){t:S}(hs:Inv s)
 (hrun:exec step s actions=some t)(h:¬Throughout step (¬Bad ·) s actions):
 Bad t:=by
 have hlast:∀{s:S} {actions:List A},Inv s→Bad s→exec step s actions=some t →Bad t:=by
  intro s actions hs hb hrun
  exact (@exec_invariant S A step (fun s=>Inv s∧Bad s)
   (fun s a m hs hm=>⟨hinv s a m hs.1 hm,hbad s a m hs.1 hs.2 hm⟩) s t actions
   ⟨hs,hb⟩ hrun).2
 induction actions generalizing s with
 | nil=>exact hlast hs (not_not.1 h) hrun
 | cons a actions ih=>
  by_cases hb:Bad s
  ·exact hlast hs hb hrun
  obtain⟨m,hm,hrun⟩:=exec_cons.1 hrun
  refine ih (hinv s a m hs hm) hrun (fun hrest=>h ⟨hb,fun n hn=>?_⟩)
  exact some.inj (hm.symm.trans hn)▸hrest

/-- The condition decides at each step whether the next state is bad. -/
lemma throughout_iff_careful{Inv Bad:S→Prop}{Ok:S→A→Prop}
 (hinv:∀s a m,Inv s→step s a=some m→Inv m)
 (hok:∀s a m,Inv s→¬Bad s→step s a=some m→(¬Bad m↔Ok s a))
 {s t:S}{actions:List A}(h:exec step s actions=some t)(hs:Inv s)(hgood:¬Bad s):
 Throughout step (¬Bad ·) s actions↔Careful step Ok s actions:=by
 induction actions generalizing s with
 | nil=>exact iff_of_true hgood trivial
 | cons a actions ih=>
  obtain⟨m,hm,h⟩:=exec_cons.1 h
  have hnext:∀{P:S→Prop},(∀n,step s a=some n→P n)↔P m:=by
   intro P
   rw[hm]
   exact⟨fun hP=>hP m rfl,fun hP n hn=>some.inj hn▸hP⟩
  rw[Throughout,Careful,hnext,hnext,←hok s a m hs hgood hm]
  constructor
  ·intro hrun
   exact⟨hrun.2.head,(ih h (hinv s a m hs hm) hrun.2.head).1 hrun.2⟩
  intro hcare
  exact⟨hgood,(ih h (hinv s a m hs hm) hcare.1).2 hcare.2⟩

end GoCoupe.GuardedRuns
