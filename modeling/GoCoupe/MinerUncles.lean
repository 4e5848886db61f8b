import GoCoupe.MapIteration
import GoCoupe.UncleRewards

/-!
# The uncles of a mined block

`commitNewWork` takes up to two side blocks that `commitUncle` accepts. It does not ask, as
`VerifyUncles` does, whether one is a child of the head.
-/

namespace GoCoupe.MinerUncles
open HeaderValidation MapIteration UncleRewards List

structure Work where
 ancestors:List Hash
 family:List Hash
 uncles:List Hash

inductive CommitError where
 | notUnique
 | parentUnknown (parent:Hash)
 | inFamily (hash:Hash)

structure Selection where
 work:Work
 uncles:List Header
 badUncles:List Hash

variable (hash:Header→Hash) (getBlock:Hash→Option Block)

def commitUncle (work:Work) (uncle:Header):Except CommitError Work:=
 if hash uncle∈work.uncles then .error .notUnique
 else if uncle.parentHash∉work.ancestors then .error (.parentUnknown uncle.parentHash)
 else if hash uncle∈work.family then .error (.inFamily (hash uncle))
 else .ok {work with uncles:=work.uncles++[hash uncle]}

/-- The loop of `commitNewWork`, which ends when there are two uncles. -/
def commitNext (s:Selection) (e:Σ _:Hash,Block):Selection:=
 if s.uncles.length=2 then s
 else match commitUncle hash s.work e.2.header with
  | .error _=>{s with badUncles:=s.badUncles++[e.1]}
  | .ok work=>{s with work:=work,uncles:=s.uncles++[e.2.header]}

structure Chosen (work:Work) (s:Selection):Prop where
 same:s.work = {work with uncles:=s.uncles.map hash}
 count:s.uncles.length≤2
 unique:(s.uncles.map hash).Nodup
 outside:∀u∈s.uncles,hash u∉work.family

variable {hash getBlock}

lemma Chosen.commitNext(h:Chosen hash work s)
 (e:Σ _:Hash,Block):Chosen hash work (commitNext hash s e):=by
 unfold MinerUncles.commitNext
 split
 ·exact h
 rename_i hcount
 cases hcommit:commitUncle hash s.work e.2.header with
 | error=>exact⟨h.same,h.count,h.unique,h.outside⟩
 | ok work'=>
  rw[commitUncle,h.same]at hcommit
  split_ifs at hcommit with hnew hparent hfamily
  cases hcommit
  have hlen:=h.count
  refine⟨by simp,?_,?_,?_⟩
  ·rw[length_append,length_singleton]
   omega
  ·rw[map_append]
   exact h.unique.append (nodup_singleton _) (by simpa using hnew)
  simpa[or_imp,forall_and]using⟨h.outside,hfamily⟩

end GoCoupe.MinerUncles
