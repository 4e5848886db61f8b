import Mathlib.Data.List.Basic
import Mathlib.Data.Set.Basic

/-!
# Descent along parent links

`par p b` reads "`p` is the parent of `b`". A descent from `b` to `a` records the nodes it
leaves behind, `b` first and `a` excluded. Where parents are unique and one level down, it is
determined by its end points.
-/

namespace GoCoupe.DescentPaths
open List

variable {β:Type*}

inductive Descent (par:β→β→Prop):β→List β→β→Prop
 | refl (b:β):Descent par b [] b
 | step {b p a:β} {l:List β} (hp:par p b) (tail:Descent par p l a):Descent par b (b::l) a

def Ancestor (par:β→β→Prop) (a b:β):Prop:=∃l,Descent par b l a

structure Graded (par:β→β→Prop) (height:β→ℕ):Prop where
 unique:∀{p q b},par p b→par q b→p=q
 succ:∀{p b},par p b→height b=height p+1

variable {par:β→β→Prop} {height:β→ℕ} {a b c:β} {l k:List β}

namespace Descent

lemma trans(h:Descent par b l a)(h':Descent par a k c):Descent par b (l++k) c:=by
 induction h with
 | refl=>exact h'
 | step hp _ ih=>exact .step hp (ih h')

lemma mono(hsub:∀p b,par p b→par' p b)(h:Descent par b l a):Descent par' b l a:=by
 induction h with
 | refl b=>exact .refl b
 | step hp _ ih=>exact .step (hsub _ _ hp) ih

lemma height_eq(hg:Graded par height)(h:Descent par b l a):height b=height a+l.length:=by
 induction h with
 | refl=>rfl
 | step hp _ ih=>
  rw[hg.succ hp,ih,length_cons]
  omega

lemma unique(hg:Graded par height)(h:Descent par b l a)
 (h':Descent par b k a')(he:height a=height a'):l=k∧a=a':=by
 induction h generalizing k with
 | refl b=>
  have hlen:=h'.height_eq hg
  cases h' with
  | refl=>exact⟨rfl,rfl⟩
  | step hp tail=>
   rw[length_cons]at hlen
   omega
 | @step b p a l hp tail ih=>
  have hlen:=(Descent.step hp tail).height_eq hg
  have hlen':=h'.height_eq hg
  cases h' with
  | refl=>
   rw[length_cons]at hlen
   omega
  | step hp' tail'=>
   have hpp:=hg.unique hp hp'
   subst hpp
   obtain⟨hl,ha⟩:=ih tail' he
   exact⟨by rw[hl],ha⟩

lemma split_mem(h:Descent par b l a)(hx:x∈l):
 ∃l₁ l₂,l=l₁++x::l₂∧Descent par b l₁ x∧Descent par x (x::l₂) a:=by
 induction h with
 | refl=>simp at hx
 | @step b p a l hp tail ih=>
  rcases List.mem_cons.mp hx with rfl|hx
  ·exact⟨[],l,rfl,.refl _,.step hp tail⟩
  obtain⟨l₁,l₂,rfl,h1,h2⟩:=ih hx
  exact⟨b::l₁,l₂,rfl,.step hp h1,h2⟩

section

variable (hg:Graded par height) (h:Descent par b l a)

include hg h

lemma mem_height(hx:x∈l):height a<height x∧height x≤height b:=by
 obtain⟨l₁,l₂,_,h1,h2⟩:=h.split_mem hx
 have e1:=h1.height_eq hg
 have e2:=h2.height_eq hg
 rw[length_cons]at e2
 omega

lemma exists_height(hlo:height a<n)(hhi:n≤height b):∃x∈l,height x=n:=by
 induction h with
 | refl=>omega
 | @step b p a l hp tail ih=>
  have hb:=hg.succ hp
  by_cases hn:n=height b
  ·exact⟨b,by simp,hn.symm⟩
  obtain⟨x,hx,he⟩:=ih hlo (by omega)
  exact⟨x,mem_cons_of_mem b hx,he⟩

lemma pairwise_height:l.Pairwise (fun x y=>height y<height x):=by
 induction h with
 | refl=>exact .nil
 | @step b p a l hp tail ih=>
  refine .cons (fun x hx=>?_) ih
  have hb:=hg.succ hp
  have hx':=(tail.mem_height hg hx).2
  omega

/-- Two nodes passed at one level are one node. -/
lemma mem_unique(hx:x∈l)(hy:y∈l)(he:height x=height y):x=y:=by
 obtain⟨l₁,_,_,h1,_⟩:=h.split_mem hx
 obtain⟨k₁,_,_,h2,_⟩:=h.split_mem hy
 exact (h1.unique hg h2 he).2

end

lemma ancestor(h:Descent par b l a):Ancestor par a b:=⟨l,h⟩

end Descent

namespace Ancestor

lemma refl(b:β):Ancestor par b b:=⟨[],.refl b⟩

lemma trans(h:Ancestor par a b)(h':Ancestor par b c):Ancestor par a c:=by
 obtain⟨l,hl⟩:=h
 obtain⟨k,hk⟩:=h'
 exact⟨k++l,hk.trans hl⟩

lemma parent(h:par a b):Ancestor par a b:=⟨[b],.step h (.refl a)⟩

lemma mono(hsub:∀p b,par p b→par' p b)(h:Ancestor par a b):Ancestor par' a b:=by
 obtain⟨l,hl⟩:=h
 exact⟨l,hl.mono hsub⟩

lemma height_le(hg:Graded par height)(h:Ancestor par a b):height a≤height b:=by
 obtain⟨l,hl⟩:=h
 have:=hl.height_eq hg
 omega

lemma unique(hg:Graded par height)(h:Ancestor par a c)(h':Ancestor par b c)
 (he:height a=height b):a=b:=by
 obtain⟨l,hl⟩:=h
 obtain⟨k,hk⟩:=h'
 exact (hl.unique hg hk he).2

/-- An ancestor that is not the node itself is an ancestor of the parent. -/
lemma of_parent(hg:Graded par height)(hp:par p b)(h:Ancestor par a b)(hne:a≠b):Ancestor par a p:=by
 obtain⟨l,hl⟩:=h
 cases hl with
 | refl=>exact absurd rfl hne
 | step hq tail=>exact⟨_,hg.unique hp hq▸tail⟩

/-- An ancestor of the start of a descent is passed, or is an ancestor of its end. -/
lemma mem_or_ancestor(hg:Graded par height)(hl:Descent par b l a)
 (h:Ancestor par c b):c∈l∨Ancestor par c a:=by
 induction hl with
 | refl=>exact .inr h
 | @step b p a l hp tail ih=>
  by_cases hcb:c=b
  ·exact .inl (hcb▸mem_cons_self)
  exact (ih (h.of_parent hg hp hcb)).imp_left (mem_cons_of_mem b)

/-- Of two ancestors of one node, the lower is an ancestor of the higher. -/
lemma of_height_le(hg:Graded par height)(h:Ancestor par a c)(h':Ancestor par b c)
 (hle:height a≤height b):Ancestor par a b:=by
 obtain⟨k,hk⟩:=h'
 induction hk with
 | refl=>exact h
 | @step c p b k hp tail ih=>
  apply ih _ hle
  apply of_parent hg hp h
  intro hac
  have h1:=Ancestor.height_le hg ⟨k,tail⟩
  have h2:=hg.succ hp
  subst hac
  omega

/-- Every level between an ancestor and a node holds one ancestor of the node. -/
lemma exists_height(hg:Graded par height)(h:Ancestor par a b)
 (hlo:height a≤n)(hhi:n≤height b):∃x,Ancestor par x b∧height x=n:=by
 rcases Nat.eq_or_lt_of_le hlo with rfl|hlt
 ·exact⟨a,h,rfl⟩
 obtain⟨l,hl⟩:=h
 obtain⟨x,hx,he⟩:=hl.exists_height hg hlt hhi
 obtain⟨l₁,_,_,h1,_⟩:=hl.split_mem hx
 exact⟨x,⟨l₁,h1⟩,he⟩

end Ancestor

end GoCoupe.DescentPaths
