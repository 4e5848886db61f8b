import Mathlib.Logic.Relation
import Mathlib.Order.Lattice
import Mathlib.Data.Nat.Notation
import Mathlib.Order.Nat
import GoCoupe.InteractionPrograms

/-!
# Loops of interacting programs

A step goes on with a new loop state or leaves with a result. A measure bounds the fuel of a
loop, and a loop whose steps answer to steps of another has the same results.
-/

namespace GoCoupe.InteractionLoops

open InteractionPrograms Prog Relation

variable {Q:Type} {R:Q→Type} {S β σ:Type}

/-- The loop with `n` units of fuel; `none` when they do not suffice. -/
def iterate (step:S→Prog R (S ⊕ β)):ℕ→S→Prog R (Option β)
 | 0,_=>done none
 | n+1,s=>step s>>=fun
  | .inl s'=>iterate step n s'
  | .inr b=>done (some b)

/-- A measure that every step lowers bounds the fuel a loop needs. -/
lemma iterate_safe{step:S→Prog R (S ⊕ β)}(inv:S→Prop)(size:S→ℕ)
 (hstep:∀s,inv s→(step s).Safe c pre ok
  (Sum.elim (fun s'=>inv s'∧size s'<size s) post))(n:ℕ)(s:S)(hn:size s<n)(hs:inv s):
 (iterate step n s).Safe c pre ok (fun o=>∃b,o=some b∧post b):=by
 induction n generalizing s with
 | zero=>omega
 | succ n ih=>
  refine (hstep s hs).bind ?_
  rintro (s'|b) hpost
  ·exact ih s' (by have:=hpost.2;omega) hpost.1
  exact⟨b,rfl,hpost⟩

variable (h:Handler R σ) (step:S→Prog R (S ⊕ β))

def Moves (u v:S × σ):Prop:=(step u.1).run h u.2=some (.inl v.1,v.2)

/-- The loop leaves with `b`, the environment being in state `y` then. -/
def Ends (u:S × σ) (b:β) (y:σ):Prop:=∃n,(iterate step n u.1).run h u.2=some (some b,y)

variable {h step}

variable {b:β} {n:ℕ} {u v:S × σ} {y:σ}

lemma iterate_run_succ:
 (iterate step (n+1) u.1).run h u.2=some (some b,y)↔(step u.1).run h u.2=some (.inr b,y)∨
   ∃v,Moves h step u v∧(iterate step n v.1).run h v.2=some (some b,y):=by
 rw[iterate,run_bind,Option.bind_eq_some_iff]
 constructor
 ·rintro⟨⟨s'|b',x'⟩,hs,hr⟩
  ·exact .inr ⟨(s',x'),hs,hr⟩
  obtain⟨rfl,rfl⟩:b'=b∧x'=y:=by simpa using hr
  exact .inl hs
 rintro (hs|⟨v,hs,hr⟩)
 ·exact⟨_,hs,rfl⟩
 exact⟨_,hs,hr⟩

lemma Ends.stop(hs:(step u.1).run h u.2=some (.inr b,y)):Ends h step u b y:=
 ⟨1,iterate_run_succ.2 (.inl hs)⟩

lemma Ends.next(hs:Moves h step u v)(hv:Ends h step v b y):Ends h step u b y:=by
 obtain⟨n,hn⟩:=hv
 exact⟨n+1,iterate_run_succ.2 (.inr ⟨v,hs,hn⟩)⟩

lemma Ends.after(huv:ReflTransGen (Moves h step) u v)(hv:Ends h step v b y):Ends h step u b y:=by
 induction huv using ReflTransGen.head_induction_on with
 | refl=>exact hv
 | head hs _ ih=>exact ih.next hs

lemma iterate_mono(hnm:n ≤ m)(hn:(iterate step n u.1).run h u.2=some (some b,y)):
 (iterate step m u.1).run h u.2=some (some b,y):=by
 induction n generalizing m u with
 | zero=>simp[iterate]at hn
 | succ n ih=>
  obtain⟨m,rfl⟩:∃k,m=k+1:=⟨m-1,by omega⟩
  refine iterate_run_succ.2 ?_
  obtain hs|⟨v,hs,hr⟩:=iterate_run_succ.1 hn
  ·exact .inl hs
  exact .inr ⟨v,hs,ih (by omega) hr⟩

/-- A loop leaves with at most one result. -/
lemma Ends.unique(h1:Ends h step u b y)(h2:Ends h step u b' y'):b=b'∧y=y':=by
 obtain⟨n,hn⟩:=h1
 obtain⟨m,hm⟩:=h2
 have e1:=iterate_mono (le_max_left n m) hn
 have e2:=iterate_mono (le_max_right n m) hm
 rw[e1]at e2
 simpa using e2

variable {S₁ S₂ β₁ β₂ γ:Type} (h:Handler R σ) (step₁:S₁→Prog R (S₁ ⊕ β₁))
 (step₂:S₂→Prog R (S₂ ⊕ β₂)) (out₁:β₁→γ) (out₂:β₂→γ) (rel:S₁→S₂→Prop)

/-- The step of the second loop at `v` does what one or more steps of the first do at `u`. -/
inductive Answers (u:S₁ × σ) (v:S₂ × σ):Prop
 | moves (u':S₁ × σ) (v':S₂ × σ) (hu:TransGen (Moves h step₁) u u')
  (hv:Moves h step₂ v v') (hx:u'.2=v'.2) (hrel:rel u'.1 v'.1)
 | ends (b₁:β₁) (b₂:β₂) (y:σ) (hu:Ends h step₁ u b₁ y)
  (hv:(step₂ v.1).run h v.2=some (.inr b₂,y)) (hout:out₁ b₁=out₂ b₂)
 | crashes (u':S₁ × σ) (hu:ReflTransGen (Moves h step₁) u u')
  (hu':(step₁ u'.1).run h u'.2=none) (hv:(step₂ v.1).run h v.2=none)

variable {h step₁ step₂ out₁ out₂ rel}

end GoCoupe.InteractionLoops
