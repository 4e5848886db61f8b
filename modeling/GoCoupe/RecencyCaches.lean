import Mathlib.Data.List.Basic

/-!
# Bounded recency caches

The most recently used entry comes first, and adding one may drop the last. A cache never
invents a value: entries that agree with a reference map still do after every operation.
-/

namespace GoCoupe.RecencyCaches
open List

structure Cache (K V:Type) where
 size:ℕ
 items:List (K × V)

namespace Cache

variable {K V:Type} [DecidableEq K]

def new (size:ℕ):Cache K V:=⟨size,[]⟩

def peek (c:Cache K V) (k:K):Option V:=(c.items.find? (·.1=k)).map Prod.snd

def contains (c:Cache K V) (k:K):Bool:=(c.peek k).isSome

def remove (c:Cache K V) (k:K):Cache K V:={c with items:=c.items.filter (·.1≠k)}

def removeOldest (c:Cache K V):Cache K V:={c with items:=c.items.dropLast}

def get (c:Cache K V) (k:K):Option V × Cache K V:=
 match c.peek k with
 | some v=>(some v,{c with items:=(k,v)::(c.remove k).items})
 | none=>(none,c)

def add (c:Cache K V) (k:K) (v:V):Cache K V:=
 if c.contains k then {c with items:=(k,v)::(c.remove k).items}
 else
  let pushed:Cache K V:={c with items:=(k,v)::c.items}
  if pushed.items.length>c.size then pushed.removeOldest else pushed

def purge (c:Cache K V):Cache K V:={c with items:=[]}

/-- Every cached entry is the value the reference map has for its key. -/
def Agrees (c:Cache K V) (f:K→Option V):Prop:=∀e∈c.items,f e.1=some e.2

omit [DecidableEq K] in
lemma agrees_new(size:ℕ)(f:K→Option V):(new size:Cache K V).Agrees f:=by
 intro e he
 simp[new]at he

variable {c:Cache K V} {f:K→Option V}

lemma peek_mem(h:c.peek k=some v):(k,v)∈c.items:=by
 simp only[peek,Option.map_eq_some_iff]at h
 obtain⟨⟨k',v'⟩,hf,hv⟩:=h
 have hk:=find?_some hf
 simp only[decide_eq_true_eq]at hk
 subst hk
 subst hv
 exact mem_of_find?_eq_some hf

lemma Agrees.peek_eq(h:c.Agrees f)(hp:c.peek k=some v):f k=some v:=h (k,v) (peek_mem hp)

lemma Agrees.remove(h:c.Agrees f)(k:K):(c.remove k).Agrees f:=by
 intro e he
 exact h e (List.mem_filter.mp he).1

omit [DecidableEq K] in
lemma Agrees.removeOldest(h:c.Agrees f):c.removeOldest.Agrees f:=by
 intro e he
 exact h e ((dropLast_sublist _).mem he)

lemma Agrees.get(h:c.Agrees f)(k:K):(c.get k).2.Agrees f:=by
 unfold Cache.get
 split
 ·rename_i v hv
  intro e he
  rcases List.mem_cons.mp he with rfl|he
  ·exact h.peek_eq hv
  exact h.remove k e he
 exact h

@[simp] lemma get_fst(c:Cache K V)(k:K):(c.get k).1=c.peek k:=by
 unfold Cache.get
 split<;>simp_all

lemma Agrees.add(h:c.Agrees f)(hv:f k=some v):(c.add k v).Agrees f:=by
 have hcons:∀{items:List (K × V)},(∀e∈items,f e.1=some e.2) →∀e∈(k,v)::items,f e.1=some e.2:=by
  intro items hi e he
  rcases List.mem_cons.mp he with rfl|he
  ·exact hv
  exact hi e he
 unfold Cache.add
 dsimp only
 split
 ·exact hcons (h.remove k)
 split
 ·have hp:(Cache.mk c.size ((k,v)::c.items)).Agrees f:=hcons h
  exact hp.removeOldest
 exact hcons h

omit [DecidableEq K] in
/-- The reference map may grow or be rewritten as long as it keeps the values
the cache holds. -/
lemma Agrees.mono(h:c.Agrees f)(hfg:∀k v,f k=some v → g k=some v):c.Agrees g:=
 fun e he=>hfg _ _ (h e he)

end Cache

end GoCoupe.RecencyCaches
