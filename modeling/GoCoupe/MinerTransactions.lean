import GoCoupe.BlockWireFormats
import Mathlib.Data.List.Chain
import Mathlib.Data.List.Perm.Subperm
import Mathlib.Data.List.Sort

/-!
# The transactions of a mined block

The order that the miner sorts by compares nonces of one sender, but prices of different ones.
-/

namespace GoCoupe.MinerTransactions
open BlockWireFormats List

variable {α:Type} {r:α→α→Prop} [DecidableRel r]

lemma isChain_orderedInsert(htotal:∀a b,r a b∨r b a){l:List α}(h:l.IsChain r)
 (a:α):(l.orderedInsert r a).IsChain r:=by
 induction l with
 | nil=>exact .singleton a
 | cons b l ih=>
  rw[orderedInsert]
  split
  ·rename_i hab
   exact .cons_cons hab h
  rename_i hab
  have hba:=(htotal a b).resolve_left hab
  have hl:=ih h.tail
  cases l with
  | nil=>exact .cons_cons hba hl
  | cons c l=>
   rw[orderedInsert]at hl ⊢
   split at hl<;>rename_i hac
   ·rw[if_pos hac]
    exact .cons_cons hba hl
   rw[if_neg hac]
   exact .cons_cons (isChain_cons_cons.1 h).1 hl

/-- A chain among the elements of a list grows to a chain of all of them. -/
lemma exists_isChain_of_subperm(htotal:∀a b,r a b∨r b a){c l:List α}
 (hc:c.IsChain r)(hsub:c.Subperm l):∃l',l'.Perm l∧l'.IsChain r∧c.Sublist l':=by
 obtain⟨c',hc',hsub⟩:=hsub
 obtain⟨rest,hperm⟩:=hsub.exists_perm_append
 have hgrown:∃l',l'.Perm (c++rest)∧l'.IsChain r∧c.Sublist l':=by
  clear hperm hsub
  induction rest with
  | nil=>exact⟨c,by rw[append_nil],hc,.refl c⟩
  | cons a rest ih=>
   obtain⟨l',hl',hchain,hsub⟩:=ih
   refine⟨l'.orderedInsert r a,?_,isChain_orderedInsert htotal hchain a,
    hsub.trans (sublist_orderedInsert a l')⟩
   exact (perm_orderedInsert r a l').trans ((hl'.cons a).trans perm_middle.symm)
 obtain⟨l',hl',hchain⟩:=hgrown
 exact⟨l',hl'.trans ((hc'.symm.append_right rest).trans hperm.symm),hchain⟩

lemma pairwise_of_infix(h:∀a c b,(a::c++[b]) <:+: l→p a b):l.Pairwise p:=by
 induction l with
 | nil=>exact .nil
 | cons a l ih=>
  refine .cons (fun b hb=>?_) (ih fun x c b hin=>h x c b (hin.trans (suffix_cons a l).isInfix))
  obtain⟨c,d,rfl⟩:=append_of_mem hb
  exact h a c b ⟨[],d,by simp⟩

variable (sender:Transaction→Option Address)

/-- `From` without its error. -/
def origin (tx:Transaction):Address:=(sender tx).getD 0

/-- `TxByPriceAndNonce.Less`. -/
def Less (t u:Transaction):Prop:=
 if origin sender t=origin sender u then t.accountNonce<u.accountNonce else u.price<t.price

instance less_decidable:DecidableRel (Less sender):=fun t u=>inferInstanceAs
 (Decidable (if origin sender t=origin sender u then t.accountNonce<u.accountNonce else u.price<t.price))

/-- No two neighbours are out of order. -/
def Sorted (txs:List Transaction):Prop:=txs.IsChain (fun t u=>¬Less sender u t)

lemma less_total(t u:Transaction):¬Less sender u t∨¬Less sender t u:=by
 unfold Less
 by_cases h:origin sender t=origin sender u
 ·rw[if_pos h,if_pos h.symm]
  exact (BitVec.le_total t.accountNonce u.accountNonce).imp BitVec.not_lt.2 BitVec.not_lt.2
 rw[if_neg h,if_neg (Ne.symm h)]
 exact (le_total u.price t.price).imp not_lt.2 not_lt.2

/-- Every sorted arrangement has the nonces of each sender in order exactly when no sorted
selection of transactions leads from one to an earlier one of its sender. -/
theorem nonces_ordered_iff (txs : List Transaction) :
    (∀ sorted, sorted.Perm txs → Sorted sender sorted → sorted.Pairwise (fun t u =>
      origin sender t = origin sender u → t.accountNonce < u.accountNonce)) ↔
    ∀ t between u, (t :: between ++ [u]).Subperm txs → Sorted sender (t :: between ++ [u]) →
      origin sender t = origin sender u → t.accountNonce < u.accountNonce := by
 constructor
 · intro h t between u hsub hsorted
   obtain⟨all,hperm,hall,hin⟩:=exists_isChain_of_subperm (less_total sender) hsorted hsub
   have hpair:=(h all hperm hall).sublist hin
   exact (pairwise_cons.1 hpair).1 u (by simp)
 intro h sorted hperm hsorted
 refine pairwise_of_infix fun t between u hin=>?_
 have hchain:= hsorted.infix hin
 exact h t between u (hin.sublist.subperm.trans hperm.subperm) hchain

/-- A dear transaction stands before a cheaper one of the same sender with a smaller nonce,
between them one of another sender. -/
theorem nonces_unordered : ∃ sender a b c, Sorted sender [a, b, c] ∧
    ([a, b, c].map fun t => (origin sender t, t.accountNonce)).Nodup ∧
      origin sender a = origin sender c ∧ c.accountNonce < a.accountNonce := by
 refine⟨fun t=>some (if t.price=2 then 1 else 0),⟨2,3,0,none,0,[],0,0,0⟩,
  ⟨0,2,0,none,0,[],0,0,0⟩,⟨1,1,0,none,0,[],0,0,0⟩,?_,by decide,rfl,by decide⟩
 exact .cons_cons (by decide) (.cons_cons (by decide) (.singleton _))

end GoCoupe.MinerTransactions
