import GoCoupe.BigEndianBytes
import GoCoupe.TableLookup
import Mathlib.Data.List.TakeWhile
import Mathlib.Data.Nat.Size

/-!
# The closest nodes of the discovery table

`distcmp`, `logdist` and its table of leading zeros in `p2p/discover/node.go` read the bytes of
two hashes. They compare and measure the number that the exclusive or of the hashes spells, and
`closest` of `table.go` slides the nodes into that order.
-/

namespace GoCoupe.NodeDistances
open BigEndianBytes TableLookup StableInsertion List Nat
open DiscoveryBonding (Node)

/-- Leading zeros of a byte. -/
def lzcount:List ℕ:=[8,7,6,6]++replicate 4 5++replicate 8 4++replicate 16 3++replicate 32 2++
 replicate 64 1++replicate 128 0

/-- The loop of `logdist`. -/
def leadingZeros:List UInt8→ℕ
 | []=>0
 | x::xs=>if x=0 then 8+leadingZeros xs else lzcount.getD x.toNat 0

def xorBytes (a b:Digest) (is:List (Fin 32)):List UInt8:=is.map (fun i=>a i ^^^ b i)

def logdist (a b:Digest):ℕ:=32*8-leadingZeros (xorBytes a b (finRange 32))

/-- The exclusive or of two hashes as a number of 256 bits. -/
def xor (a b:Digest):ℕ:=value (xorBytes a b (finRange 32))

lemma lzcount_eq:∀x<256,x≠0→lzcount.getD x 0=7-x.log2∧x.log2<8:=by
 decide +kernel

lemma size_value(xs:List UInt8):(value xs).size+leadingZeros xs=8*xs.length:=by
 induction xs with
 | nil=>rfl
 | cons x xs ih=>
  rw[value_cons,leadingZeros,length_cons]
  split
  ·rename_i hx
   simp only[hx,UInt8.toNat_zero,zero_mul,zero_add]
   omega
  rename_i hx
  have hx0:x.toNat≠0:=fun h=>hx (UInt8.toNat_inj.1 h)
  obtain⟨hlz,hlog⟩:=lzcount_eq x.toNat x.toNat_lt hx0
  have hv:=value_lt xs
  have hpow:(256:ℕ)^xs.length=2^(8*xs.length):=by rw[pow_mul];rfl
  have hsize:(x.toNat*256^xs.length+value xs).size=x.toNat.log2+1+8*xs.length:=by
   rw[hpow]at hv ⊢
   apply le_antisymm
   ·rw[size_le,pow_add]
    have:=lt_log2_self (n:=x.toNat)
    nlinarith
   ·have hle:=log2_self_le hx0
    have:x.toNat.log2+8*xs.length<(x.toNat*2^(8*xs.length)+value xs).size:=by
     rw[lt_size,pow_add]
     nlinarith[zero_le (value xs)]
    omega
  rw[hsize,hlz]
  omega

lemma logdist_eq(a b:Digest):logdist a b=(xor a b).size:=by
 have h:=size_value (xorBytes a b (finRange 32))
 rw[xorBytes,length_map,length_finRange]at h
 rw[logdist,xor,xorBytes]
 omega

lemma value_cons_lt{x y:UInt8}(hxy:x<y)(hlen:xs.length=ys.length):value (x::xs)<value (y::ys):=by
 have hx:=value_lt xs
 rw[UInt8.lt_iff_toNat_lt]at hxy
 rw[value_cons,value_cons,hlen]
 rw[hlen]at hx
 nlinarith[zero_le (value ys)]

lemma distcmpFrom_eq(target a b:Digest)(is:List (Fin 32)):distcmpFrom target a b is =
 ((value (xorBytes a target is):ℤ)-value (xorBytes b target is)).sign:=by
 induction is with
 | nil=>rfl
 | cons i is ih=>
  have hlen:∀c d:Digest,(xorBytes c target is).length=(xorBytes d target is).length:=by
   simp[xorBytes]
  rw[distcmpFrom,xorBytes,xorBytes,map_cons,map_cons]
  split_ifs with hgt hlt
  ·have:=value_cons_lt hgt (hlen b a)
   exact (Int.sign_eq_one_of_pos (by unfold xorBytes at this;omega)).symm
  ·have:=value_cons_lt hlt (hlen a b)
   exact (Int.sign_eq_neg_one_of_neg (by unfold xorBytes at this;omega)).symm
  ·have hxy:a i ^^^ target i=b i ^^^ target i:=
    UInt8.le_antisymm (UInt8.not_lt.1 hgt) (UInt8.not_lt.1 hlt)
   rw[ih,hxy,value_cons,value_cons,length_map,length_map,xorBytes,xorBytes]
   congr 1
   omega

/-- The binary search of `sort.Search`. -/
def search (f:ℕ→Bool) (i j:ℕ):ℕ:=
 if i<j then
  if f ((i+j)/2) then search f i ((i+j)/2) else search f ((i+j)/2+1) j
 else i
termination_by j-i

lemma search_eq(hik:i≤k)(hkj:k≤j)(hlow:∀m<k,f m=false)(hhigh:∀m,k ≤ m→m<j→f m=true):
 search f i j=k:=by
 fun_induction search f i j with
 | case1 i j hij hf ih=>
  have hmid:k≤(i+j)/2:=by
   by_contra hlt
   simp[hlow _ (not_le.1 hlt)]at hf
  exact ih hik hmid fun m hm hlt=>hhigh m hm (by omega)
 | case2 i j hij hf ih=>
  have hmid:(i+j)/2<k:=by
   by_contra hle
   exact hf (hhigh _ (not_lt.1 hle) (by omega))
  exact ih hmid hkj hhigh
 | case3=>omega

variable {ι α:Type} (sha:ι→Digest)

/-- `push`, which slides the farther entries by one place. -/
def push (target:Digest) (maxElems:ℕ) (entries:List (Node ι α)) (n:Node ι α):List (Node ι α):=
 let ix:=search (fun i=>entries[i]?.any fun e=>distcmp target (sha e.id) (sha n.id)>0)
  0 entries.length
 let entries:=if entries.length < maxElems then entries++[n] else entries
 if ix=entries.length then entries else entries.take ix++n::(entries.drop ix).dropLast

lemma push_split{ts ds:List (Node ι α)}{n:Node ι α}(hlen:(ts++ds).length ≤ m)
 (hts:∀e∈ts,¬distance sha target n<distance sha target e)
 (hds:∀e∈ds,distance sha target n<distance sha target e):
 push sha target m (ts++ds) n=(ts++n::ds).take m:=by
 have hix:search (fun i=>(ts++ds)[i]?.any fun e=>distcmp target (sha e.id) (sha n.id)>0)
  0 (ts++ds).length=ts.length:=by
  refine search_eq (zero_le _) (by simp) (fun i hi=>?_) (fun i hi hlt=>?_)
  ·rw[getElem?_append_left hi,getElem?_eq_getElem hi]
   exact decide_eq_false (mt (distcmpFrom_pos _).1 (hts _ (getElem_mem hi)))
  ·rw[length_append]at hlt
   rw[getElem?_append_right hi,getElem?_eq_getElem (by omega)]
   exact decide_eq_true ((distcmpFrom_pos _).2 (hds _ (getElem_mem _)))
 rw[push,hix]
 rw[length_append]at hlen
 rcases hlen.lt_or_eq with hlt|rfl
 ·simp only[length_append,hlt,if_true]
  rw[if_neg (by simp;omega),append_assoc,take_left,drop_left,dropLast_concat,
   take_of_length_le (by simp;omega)]
 ·rw[length_append,if_neg (lt_irrefl _),length_append]
  rcases eq_nil_or_concat ds with rfl|⟨ds,d,rfl⟩
  ·simp
  ·rw[if_neg (by simp),take_left,drop_left,concat_eq_append,dropLast_concat,
    show ts++n::(ds++[d])=(ts++n::ds)++[d] by simp,take_left' (by simp)]

lemma of_mem_dropWhile{l:List (Node ι α)}(h:l.Pairwise fun a b=>p b→p a):∀e∈l.dropWhile p,¬p e:=by
 induction h with
 | nil=>exact nofun
 | @cons a l ha _ ih=>
  by_cases hp:p a
  ·rwa[dropWhile_cons_of_pos hp]
  ·rw[dropWhile_cons_of_neg hp]
   exact forall_mem_cons.2 ⟨hp,fun e he=>mt (ha e he) hp⟩

lemma push_sorted{entries:List (Node ι α)}(target:Digest)(n:Node ι α)(hlen:entries.length ≤ m)
 (hsorted:entries.Pairwise fun a b=>distance sha target a≤distance sha target b):
 push sha target m entries n=(place (distance sha target) entries n).take m:=by
 rw[place,orderedInsert_eq_take_drop]
 rw[←takeWhile_append_dropWhile (l:=entries)]at hlen
 refine (congrArg (push sha target m · n) (takeWhile_append_dropWhile (l:=entries)).symm).trans
  (push_split sha hlen (fun e he=>?_) (fun e he=>?_))
 ·simpa using mem_takeWhile_imp he
 ·have hfar:=of_mem_dropWhile (hsorted.imp fun {a b} hab hb=>?_) e he
  ·simpa using hfar
  ·simp only[decide_eq_true_eq]at hb ⊢
   exact fun ha=>hb (lt_of_lt_of_le ha hab)

def closest (buckets:List (List (Node ι α))) (target:Digest) (nresults:ℕ):List (Node ι α):=
 buckets.flatten.foldl (push sha target nresults) []

lemma closest_sorted(buckets:List (List (Node ι α)))(target:Digest)(m:ℕ):
 closest sha buckets target m=(insertAll (distance sha target) buckets.flatten).take m:=by
 rw[closest]
 induction buckets.flatten using reverseRecOn with
 | nil=>exact take_nil.symm
 | append_singleton l n ih=>
  rw[foldl_concat,ih,push_sorted sha target n (length_take_le _ _)
   ((pairwise_insertAll _).sublist (take_sublist _ _)),take_place,insertAll,insertAll,foldl_concat]

lemma distance_lt_iff(target:Digest)(m n:Node ι α):distance sha target m<distance sha target n↔
 xor (sha m.id) target<xor (sha n.id) target:=by
 rw[distance,distance,←distcmpFrom_pos,distcmpFrom_eq,gt_iff_lt,Int.sign_pos_iff]
 exact sub_pos.trans cast_lt

structure Closest (nodes:List (Node ι α)) (target:Digest) (n:ℕ) (result:List (Node ι α)) :
 Prop where
 length:result.length=min n nodes.length
 smallest:∃rest,(result++rest).Perm nodes ∧
  (result++rest).Pairwise fun a b=>xor (sha a.id) target≤xor (sha b.id) target

/-- `closest` returns the nodes with the smallest distances, in their order; `distcmp` is the
order of the distances as numbers, `logdist` their length in bits, and it is monotone. -/
theorem closest_by_distance {ι α : Type} (sha : ι → Digest) (buckets : List (List (Node ι α)))
    (target : Digest) (n : ℕ) :
    Closest sha buckets.flatten target n (closest sha buckets target n) ∧
    (∀ a b, distcmp target a b = ((xor a target : ℤ) - xor b target).sign) ∧
    (∀ a b, logdist a b = (xor a b).size) ∧
    ∀ self a b, xor self a ≤ xor self b → logdist self a ≤ logdist self b := by
 refine⟨?_,fun a b=>distcmpFrom_eq target a b _,logdist_eq,fun self a b h=>?_⟩
 · have hperm:(insertAll (distance sha target) buckets.flatten).Perm buckets.flatten:=by
    rw[←map_ranked]
    exact ((perm_ranked _ _).map _).trans (.of_eq (zipIdx_map_fst ..))
   rw[closest_sorted]
   have hsplit:=take_append_drop n (insertAll (distance sha target) buckets.flatten)
   refine⟨by rw[length_take,hperm.length_eq],_,hsplit.symm▸hperm,?_⟩
   rw[hsplit]
   refine (pairwise_insertAll _).imp fun {a b} h=>?_
   exact not_lt.1 (mt (distance_lt_iff sha target b a).2 (not_lt.2 h))
 · rw[logdist_eq,logdist_eq]
   exact size_le_size h

end GoCoupe.NodeDistances
