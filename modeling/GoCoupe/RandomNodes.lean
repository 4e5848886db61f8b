import Mathlib.Data.List.Perm.Subperm
import Mathlib.Data.Nat.Notation

/-!
# Random nodes of the discovery table

`Table.ReadRandomNodes`: the entries of the buckets are dealt into a buffer, one bucket after
another in a shuffled order. The number returned counts one slot too many when the buffer is full.
-/

namespace GoCoupe.RandomNodes
open List

variable {ν:Type}

/-- The shuffle, from the last bucket down; `draw i` is the random number for position `i`. -/
def shuffle (draw:ℕ→ℕ):ℕ→Array (List ν) → Array (List ν)
 | 0,buckets=>buckets
 | i+1,buckets=>shuffle draw i (buckets.swapIfInBounds (i+1) (draw (i+1)%(i+1)))

/-- The dealing loop at slot `written.length`, with `room` slots left: the slots that were written
and the number returned. An index out of range or an empty bucket would be a run-time panic. -/
def fill:ℕ→List (List ν)→ℕ→List ν→Option (List ν × ℕ)
 | 0,_,_,written=>some (written,written.length+1)
 | room+1,buckets,j,written=>
  match buckets[j]? with
  | some (n::rest)=>
   let buckets:=if rest.isEmpty then buckets.eraseIdx j else buckets.set j rest
   if buckets.isEmpty then some (written++[n],written.length+1)
   else fill room buckets ((j+1)%buckets.length) (written++[n])
  | _=>none

/-- `ReadRandomNodes`: the table after the call, the buffer and the number returned. -/
def readRandomNodes (table:List (List ν)) (draw:ℕ→ℕ) (buf:List ν):
 Option (List (List ν) × List ν × ℕ):=
 let buckets:=(table.filter (!·.isEmpty)).toArray
 if buckets.isEmpty then some (table,buf,0)
 else (fill buf.length (shuffle draw (buckets.size-1) buckets).toList 0 []).map
  (fun r=>(table,r.1++buf.drop r.1.length,r.2))

lemma shuffle_perm(draw:ℕ→ℕ)(i:ℕ)(buckets:Array (List ν)):
 (shuffle draw i buckets).toList.Perm buckets.toList:=by
 induction i generalizing buckets with
 | zero=>exact .refl _
 | succ i ih=>
  refine (ih _).trans ?_
  unfold Array.swapIfInBounds
  split
  ·split
   ·exact (Array.swap_perm _ _).toList
   exact .refl _
  exact .refl _

/-- Taking the first entry of a bucket, with an emptied bucket dropped or not. -/
lemma flatten_take{buckets:List (List ν)}(h:buckets[j]?=some (n::rest)):
 buckets.flatten.Perm (n::(if rest.isEmpty then buckets.eraseIdx j else buckets.set j rest).flatten):=by
 induction buckets generalizing j with
 | nil=>simp at h
 | cons b buckets ih=>
  cases j with
  | zero=>
   obtain rfl:b=n::rest:=by simpa using h
   cases rest<;>simp
  | succ j=>
   have hrest:=(ih (j:=j) (by simpa using h)).append_left b
   refine (hrest.trans perm_middle).trans ?_
   cases rest<;>simp

variable {buckets:List (List ν)}

/-- The loop deals entries of the buckets until they are gone or the buffer is full, and returns
the number of them only in the first case. -/
lemma fill_spec(room:ℕ)(written:List ν)(hj:j<buckets.length)
 (hfull:∀b∈buckets,b≠[]):∃dealt,dealt.Subperm buckets.flatten∧
  dealt.length=min room buckets.flatten.length∧
  fill room buckets j written=some (written++dealt,written.length+
   if buckets.flatten.length≤room then buckets.flatten.length else room+1):=by
 induction room generalizing buckets j written with
 | zero=>
  have hpos:0<buckets.flatten.length:=by
   rw[length_pos_iff,flatten_ne_nil_iff]
   exact⟨_,getElem_mem hj,hfull _ (getElem_mem hj)⟩
  exact⟨[],nil_subperm,by simp,by rw[fill,if_neg (by omega)];simp⟩
 | succ room ih=>
  obtain⟨n,rest,hb⟩:=exists_cons_of_ne_nil (hfull _ (getElem_mem hj))
  have hget:buckets[j]?=some (n::rest):=by rw[getElem?_eq_getElem hj,hb]
  have hperm:=flatten_take hget
  have hlen:=hperm.length_eq
  rw[fill,hget]
  dsimp only
  generalize hnew:(if rest.isEmpty then buckets.eraseIdx j else buckets.set j rest)=left at *
  have hleft:∀b∈left,b≠[]:=by
   intro b hb
   subst hnew
   split at hb
   ·exact hfull b (mem_of_mem_eraseIdx hb)
   rename_i hrest
   obtain hb|rfl:=mem_or_eq_of_mem_set hb
   ·exact hfull b hb
   simpa using hrest
  rw[length_cons]at hlen
  cases left with
  | nil=>
   refine⟨[n],hperm.symm.subperm,?_,?_⟩
   ·simp[hlen]
   simp[hlen]
  | cons c left=>
   obtain⟨dealt,hsub,hdealt,hfill⟩:=ih (written++[n]) (Nat.mod_lt (j+1) (by simp)) hleft
   refine⟨n::dealt,(subperm_cons n).2 hsub |>.trans hperm.symm.subperm,?_,?_⟩
   ·rw[length_cons,hdealt,hlen]
    omega
   rw[if_neg (by simp),hfill,hlen,append_assoc,singleton_append,length_append,length_singleton]
   congr 2
   split<;>split<;>omega

/-- The call fills the slots with different nodes of the table and returns their number exactly
when the buffer has room for the whole table. -/
theorem readRandomNodes_exact_iff (table : List (List ν)) (hdistinct : table.flatten.Nodup)
    (draw : ℕ → ℕ) (buf : List ν) :
    (∃ buf' n, readRandomNodes table draw buf = some (table, buf', n) ∧
      n = min buf.length table.flatten.length ∧ (buf'.take n).length = n ∧ (buf'.take n).Nodup ∧
      (∀ x ∈ buf'.take n, x ∈ table.flatten) ∧ buf'.drop n = buf.drop n) ↔
    table.flatten.length ≤ buf.length := by
 have hkept:(table.filter (!·.isEmpty)).flatten=table.flatten:=flatten_filter_not_isEmpty
 unfold readRandomNodes
 dsimp only
 rw[List.isEmpty_toArray,List.size_toArray]
 cases hfull:table.filter (!·.isEmpty) with
 | nil=>
  rw[hfull] at hkept
  simp[←hkept]
 | cons b bs=>
  have hperm:=shuffle_perm draw ((b::bs).length-1) (b::bs).toArray
  rw[hfull] at hkept
  have hflat:=hkept▸hperm.flatten
  obtain⟨dealt,hsub,hdealt,hfill⟩:=fill_spec buf.length (j:=0) []
   (by rw[hperm.length_eq]; simp) (fun c hc=>by
    have hmem:=hfull▸hperm.subset hc
    simpa using (mem_filter.1 hmem).2)
  rw[hflat.length_eq] at hdealt hfill
  rw[isEmpty_cons,if_neg Bool.false_ne_true,hfill,Option.map_some,nil_append,length_nil,Nat.zero_add]
  constructor
  · rintro⟨buf',n,hr,hn,-⟩
    by_contra hlarge
    rw[if_neg hlarge] at hr
    simp only[Option.some.injEq,Prod.mk.injEq] at hr
    omega
  intro hroom
  rw[if_pos hroom]
  have hlen:dealt.length=table.flatten.length:=by omega
  have htake:(dealt++buf.drop dealt.length).take table.flatten.length=dealt:=take_left' hlen
  refine⟨_,_,rfl,by omega,?_,?_,?_,?_⟩
  · rw[htake]
    omega
  · rw[htake]
    obtain⟨l,hl,hsubl⟩:=hsub.trans hflat.subperm
    exact hl.nodup_iff.1 (hdistinct.sublist hsubl)
  · rw[htake]
    exact fun x hx=>hflat.subset (hsub.subset hx)
  rw[←hlen]
  exact drop_left

theorem readRandomNodes_exact_small : ([[1], [], [2, 3]] : List (List ℕ)).flatten.Nodup ∧
    ∃ buf' n, readRandomNodes [[1], [], [2, 3]] id [0, 0, 0, 0] = some ([[1], [], [2, 3]], buf', n) ∧
      n = 3 ∧ (buf'.take n).length = n ∧ (buf'.take n).Nodup ∧
      (∀ x ∈ buf'.take n, x ∈ [1, 2, 3]) ∧ buf'.drop n = [0, 0, 0, 0].drop n :=
 ⟨by decide,(readRandomNodes_exact_iff [[1],[],[2,3]] (by decide) id [0,0,0,0]).2 (by decide)⟩

/-- A buffer of one slot for two nodes: two are said to be read. -/
theorem readRandomNodes_short_buffer : ([[1, 2]] : List (List ℕ)).flatten.Nodup ∧
    readRandomNodes [[1, 2]] id [0] = some ([[1, 2]], [1], 2) := by
 decide

end GoCoupe.RandomNodes
