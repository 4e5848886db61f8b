import Mathlib.Data.Finmap
import Mathlib.Algebra.BigOperators.Group.Finset.Basic

/-!
# Counting references in a finite map

The values of a finite map name keys. The number of references to a key is the number of its
occurrences in all values of the map.
-/

namespace GoCoupe.ReferenceCounts
open List Finmap

variable {κ ρ:Type} [DecidableEq κ] {m:Finmap (fun _:κ=>ρ)} {j:κ}

lemma erase_insert(m:Finmap (fun _:κ=>ρ))(j:κ)(r:ρ):(m.insert j r).erase j=m.erase j:=by
 refine ext_lookup fun i=>?_
 by_cases hi:i=j
 ·rw[hi,lookup_erase,lookup_erase]
 rw[lookup_erase_ne hi,lookup_erase_ne hi,lookup_insert_of_ne _ hi]

lemma erase_of_notMem(h:j∉m):m.erase j=m:=by
 refine ext_lookup fun i=>?_
 by_cases hi:i=j
 ·rw[hi,lookup_erase,lookup_eq_none.2 h]
 exact lookup_erase_ne hi

variable [BEq κ] (names:ρ→List κ)

def references (m:Finmap (fun _:κ=>ρ)) (k:κ):ℕ:=∑ j∈m.keys,((m.lookup j).elim [] names).count k

variable {names} {k:κ} {r r':ρ}

lemma references_erase(h:m.lookup j=some r):
 references names m k=(names r).count k+references names (m.erase j) k:=by
 have hj:j∈m.keys:=mem_keys.2 (mem_of_lookup_eq_some h)
 rw[references,←Finset.add_sum_erase _ _ hj,h,references,keys_erase]
 refine congrArg₂ _ rfl (Finset.sum_congr rfl fun i hi=>?_)
 rw[lookup_erase_ne (Finset.ne_of_mem_erase hi)]

lemma references_insert(m:Finmap (fun _:κ=>ρ))(j:κ)(r:ρ):
 references names (m.insert j r) k=(names r).count k+references names (m.erase j) k:=by
 rw[references_erase (lookup_insert m),erase_insert]

/-- A value is exchanged for one that names further keys. -/
lemma references_replace(h:m.lookup j=some r)(hr:names r'=names r++more):
 references names (m.insert j r') k=references names m k+more.count k:=by
 rw[references_insert,references_erase h,hr,count_append]
 omega

lemma references_insert_new(h:j∉m):
 references names (m.insert j r) k=(names r).count k+references names m k:=by
 rw[references_insert,erase_of_notMem h]

lemma references_eq_zero_iff [LawfulBEq κ]:
 references names m k=0↔∀j r,m.lookup j=some r→k∉names r:=by
 rw[references,Finset.sum_eq_zero_iff]
 constructor
 ·intro h j r hj
  have:=h j (mem_keys.2 (mem_of_lookup_eq_some hj))
  rw[hj]at this
  exact count_eq_zero.1 this
 intro h j hj
 obtain⟨r,hr⟩:=mem_iff.1 (mem_keys.1 hj)
 rw[hr]
 exact count_eq_zero.2 (h j r hr)

end GoCoupe.ReferenceCounts
