import Mathlib.Data.List.Basic
import Mathlib.Data.Nat.Basic

/-!
# The first of the heaviest

Items with weights arrive one after the other, and the head is replaced by an item that is
strictly heavier. The head is then a heaviest item, and the first such item to arrive.
-/

namespace GoCoupe.HeaviestItems
open List

variable {α:Type*} [DecidableEq α] {weight weight':α→Option ℕ} {head:α} {arrived:List α}

structure FirstHeaviest (weight:α→Option ℕ) (head:α) (arrived:List α):Prop where
 head_mem:head∈arrived
 heaviest:∀b∈arrived,∀n m,weight b=some n→weight head=some m→n ≤ m
 first:∀b∈arrived,weight b=weight head→arrived.idxOf head≤arrived.idxOf b

lemma firstHeaviest_singleton(weight:α→Option ℕ)(head:α):FirstHeaviest weight head [head] where
 head_mem:=by simp
 heaviest:=by
  intro b hb n m hn hm
  rw[mem_singleton.1 hb,hm]at hn
  exact Nat.le_of_eq (Option.some.inj hn).symm
 first:=by
  intro b hb _
  rw[mem_singleton.1 hb]

lemma idxOf_le_of_mem(hx:x∈arrived)(hy:y∉arrived)(l:List α):
 (arrived++l).idxOf x≤(arrived++l).idxOf y:=by
 have hlt:=idxOf_lt_length_of_mem hx
 rw[idxOf_append_of_mem hx,idxOf_append_of_notMem hy]
 omega

/-- An item that is not heavier than the head does not replace it. -/
lemma FirstHeaviest.keep(h:FirstHeaviest weight head arrived)
 (hsame:∀x∈arrived,weight' x=weight x)(hb:weight' b=some n)
 (hle:∀m,weight head=some m→n ≤ m):FirstHeaviest weight' head (arrived++[b]) where
 head_mem:=mem_append_left _ h.head_mem
 heaviest:=by
  intro x hx k m hk hm
  rw[hsame head h.head_mem]at hm
  rcases mem_append.1 hx with hx|hx
  ·rw[hsame x hx]at hk
   exact h.heaviest x hx k m hk hm
  rw[mem_singleton.1 hx,hb]at hk
  cases hk
  exact hle m hm
 first:=by
  intro x hx heq
  by_cases hmem:x∈arrived
  ·rw[hsame x hmem,hsame head h.head_mem]at heq
   rw[idxOf_append_of_mem h.head_mem,idxOf_append_of_mem hmem]
   exact h.first x hmem heq
  exact idxOf_le_of_mem h.head_mem hmem [b]

/-- An item that is heavier than the head is the new head. -/
lemma FirstHeaviest.replace(h:FirstHeaviest weight head arrived)
 (hsame:∀x∈arrived,weight' x=weight x){b:α}{n m:ℕ}(hb:weight' b=some n)
 (hm:weight head=some m)(hlt:m<n):FirstHeaviest weight' b (arrived++[b]):=by
 have hlight:∀x∈arrived,∀k,weight' x=some k→k<n:=by
  intro x hx k hk
  rw[hsame x hx]at hk
  exact Nat.lt_of_le_of_lt (h.heaviest x hx k m hk hm) hlt
 refine⟨by simp,fun x hx k m' hk hm'=>?_,fun x hx heq=>?_⟩
 ·rw[hb]at hm'
  cases hm'
  rcases mem_append.1 hx with hx|hx
  ·exact Nat.le_of_lt (hlight x hx k hk)
  rw[mem_singleton.1 hx,hb]at hk
  exact Nat.le_of_eq (Option.some.inj hk).symm
 rw[hb]at heq
 rcases mem_append.1 hx with hx|hx
 ·exact absurd (hlight x hx n heq) (Nat.lt_irrefl n)
 rw[mem_singleton.1 hx]

end GoCoupe.HeaviestItems
