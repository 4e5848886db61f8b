import Mathlib.Control.Basic

/-!
# Programs that interact with an environment

A program ends with a value, crashes, or asks its environment, a handler with a state of its
own. `Safe` bounds what a program may ask and return as long as the answers keep an agreement.
Questions can be answered by programs over simpler questions.
-/

namespace GoCoupe.InteractionPrograms

/-- The answer to a question `q` has type `R q`. -/
inductive Prog {Q:Type} (R:Q→Type) (α:Type) where
 | done (a:α)
 | crash
 | ask (q:Q) (next:R q→Prog R α)

/-- `none` is a crash of the environment. -/
abbrev Handler {Q:Type} (R:Q→Type) (σ:Type):=(q:Q) → σ→Option (R q × σ)

namespace Prog

variable {Q Q':Type} {R:Q→Type} {R':Q'→Type} {α β γ σ:Type}

def bind:Prog R α→(α→Prog R β)→Prog R β
 | done a,f=>f a
 | crash,_=>crash
 | ask q next,f=>ask q (fun r=>(next r).bind f)

instance:Monad (Prog R) where
 pure:=done
 bind:=bind

def query (q:Q):Prog R (R q):=ask q done

@[simp] lemma pure_eq(a:α):(pure a:Prog R α)=done a:=rfl

@[simp] lemma done_bind(a:α)(f:α→Prog R β):(done a:Prog R α)>>=f = f a:=rfl

@[simp] lemma crash_bind(f:α→Prog R β):(crash:Prog R α)>>=f = crash:=rfl

@[simp] lemma ask_bind(q:Q)(next:R q→Prog R α)(f:α→Prog R β):
 (ask q next)>>=f = ask q (next · >>= f):=rfl

@[simp] lemma query_bind(q:Q)(f:R q→Prog R β):query q>>=f = ask q f:=rfl

lemma bind_assoc(p:Prog R α)(f:α→Prog R β)(g:β→Prog R γ):(p>>=f)>>=g = p>>=fun a=>f a>>=g:=by
 induction p with
 | done a=>rfl
 | crash=>rfl
 | ask q next ih=>
  rw[ask_bind,ask_bind,ask_bind]
  exact congrArg (ask q) (funext ih)

/-- Run a program; the value it ends with and the state of the environment then. -/
def run (h:Handler R σ):Prog R α→σ→Option (α × σ)
 | done a,s=>some (a,s)
 | crash,_=>none
 | ask q next,s=>
  match h q s with
  | none=>none
  | some (r,s')=>(next r).run h s'

variable (h:Handler R σ)

@[simp] lemma run_done(a:α)(s:σ):(done a:Prog R α).run h s=some (a,s):=rfl

@[simp] lemma run_crash(s:σ):(crash:Prog R α).run h s=none:=rfl

lemma run_ask(q:Q)(next:R q→Prog R α)(s:σ):
 (ask q next).run h s=(h q s).bind fun x=>(next x.1).run h x.2:=by
 rw[run]
 cases h q s<;>rfl

lemma run_bind(p:Prog R α)(f:α→Prog R β)(s:σ):
 (p>>=f).run h s=(p.run h s).bind fun x=>(f x.1).run h x.2:=by
 induction p generalizing s with
 | done a=>rfl
 | crash=>rfl
 | ask q next ih=>
  rw[ask_bind,run_ask,run_ask,Option.bind_assoc]
  exact congrArg _ (funext fun x=>ih x.1 x.2)

/-- What a run shows of itself: the questions it asks, each with the state it leaves. -/
def trail (h:Handler R σ):Prog R α→σ→List (Q × σ)
 | done _,_=>[]
 | crash,_=>[]
 | ask q next,s=>
  match h q s with
  | none=>[]
  | some (r,s')=>(q,s')::(next r).trail h s'

/-- Answer every question by a program over other questions. -/
def expand (f:(q:Q)→Prog R' (R q)):Prog R α→Prog R' α
 | done a=>done a
 | crash=>crash
 | ask q next=>f q>>=fun r=>(next r).expand f

/-- Every question asked is admitted by `pre`, and the program ends in `post`, as long as
the answers keep `ok`; `c` says whether it may crash. -/
def Safe (c:Prop) (pre:Q→Prop) (ok:(q:Q)→R q→Prop) (post:α→Prop):Prog R α→Prop
 | done a=>post a
 | crash=>c
 | ask q next=>pre q ∧ ∀r,ok q r→(next r).Safe c pre ok post

namespace Safe

variable {c:Prop} {pre:Q→Prop} {ok:(q:Q)→R q→Prop} {post:α→Prop}

@[simp] lemma done_iff(a:α):(done a:Prog R α).Safe c pre ok post↔post a:=Iff.rfl

@[simp] lemma crash_iff:(crash:Prog R α).Safe c pre ok post↔c:=Iff.rfl

@[simp] lemma ask_iff(q:Q)(next:R q→Prog R α):
 (ask q next).Safe c pre ok post↔pre q∧∀r,ok q r→(next r).Safe c pre ok post:=
 Iff.rfl

lemma bind{p:Prog R α}{f:α→Prog R β}{post':β→Prop}(hp:p.Safe c pre ok post)
 (hf:∀a,post a→(f a).Safe c pre ok post'):(p>>=f).Safe c pre ok post':=by
 induction p with
 | done a=>exact hf a hp
 | crash=>exact hp
 | ask q next ih=>exact⟨hp.1,fun r hr=>ih r (hp.2 r hr)⟩

lemma mono{p:Prog R α}(hp:p.Safe c pre ok post)(h:∀a,post a→post' a):p.Safe c pre ok post':=by
 induction p with
 | done a=>exact h a hp
 | crash=>exact hp
 | ask q next ih=>exact⟨hp.1,fun r hr=>ih r (hp.2 r hr)⟩

lemma and{p:Prog R α}(h:p.Safe c pre ok post)
 (h':p.Safe c pre ok post'):p.Safe c pre ok (fun a=>post a∧post' a):=by
 induction p with
 | done a=>exact⟨h,h'⟩
 | crash=>exact h
 | ask q next ih=>exact⟨h.1,fun r hr=>ih r (h.2 r hr) (h'.2 r hr)⟩

/-- A run that ends keeps every invariant that the admitted questions keep. -/
lemma keeps{p:Prog R α}(hp:p.Safe c pre ok post){h:Handler R σ}{inv:σ→Prop}
 (hq:∀q s r s',inv s→pre q→h q s=some (r,s')→inv s'∧ok q r)
 {s s':σ}{a:α}(hs:inv s)(hr:p.run h s=some (a,s')):inv s'∧post a:=by
 induction p generalizing s with
 | done b=>
  obtain⟨rfl,rfl⟩:b=a∧s=s':=by simpa using hr
  exact⟨hs,hp⟩
 | crash=>simp at hr
 | ask q next ih=>
  rw[run_ask,Option.bind_eq_some_iff]at hr
  obtain⟨⟨r,s₁⟩,hh,hr⟩:=hr
  obtain⟨hs1,ho⟩:=hq q s r s₁ hs hp.1 hh
  exact ih r (hp.2 r ho) hs1 hr

/-- A program that may not crash runs to its end when no admitted question crashes. -/
lemma runs{p:Prog R α}(hp:p.Safe False pre ok post){h:Handler R σ}{inv:σ→Prop}
 (hq:∀q s,inv s→pre q→∃r s',h q s=some (r,s')∧inv s'∧ok q r)
 {s:σ}(hs:inv s):∃a s',p.run h s=some (a,s')∧inv s'∧post a:=by
 induction p generalizing s with
 | done a=>exact⟨a,s,rfl,hs,hp⟩
 | crash=>exact hp.elim
 | ask q next ih=>
  obtain⟨r,s₁,hh,hs1,ho⟩:=hq q s hs hp.1
  obtain⟨a,s',hr,hs',ha⟩:=ih r (hp.2 r ho) hs1
  refine⟨a,s',?_,hs',ha⟩
  rw[run_ask,hh]
  exact hr

end Safe

end Prog

end GoCoupe.InteractionPrograms
