import GoCoupe.TrieSessions

/-!
# A trie is a map

After any session `Get` returns what the last write to its key left. A trie that is opened on a
committed root starts from the mapping that was committed.
-/

namespace GoCoupe.TrieAsMap
open TrieNodes TrieOperations TrieMappings TrieSessions List Function

/-- What a call writes to a key, if it writes there at all. An empty value is a deletion. -/
def writeTo (k:Bytes):Op→Option (Option Bytes)
 | .update key value=>if key=k then some (if value=[] then none else some value) else none
 | .delete key=>if key=k then some none else none
 | _=>none

/-- The value that the last write to a key leaves, or the given one if there is none. -/
def lastWritten (k:Bytes) (ops:List Op) (initial:Option Bytes):Option Bytes:=
 ((ops.filterMap (writeTo k)).getLast?).getD initial

/-- The call continues with the same trie. -/
def SameTrie (op:Op):Prop:=∀i,op≠.reopen i

lemma step_current(p:History)(h:SameTrie op)(k:Bytes):
 (p.step op).current k=(writeTo k op).getD (p.current k):=by
 cases op with
 | update key value=>
  by_cases hk:key=k
  ·simp[History.step,Mapping.write,writeTo,hk]
  simp[History.step,Mapping.write,writeTo,hk,update_of_ne (Ne.symm hk)]
 | delete key=>
  by_cases hk:key=k
  ·simp[History.step,Mapping.erase,writeTo,hk]
  simp[History.step,Mapping.erase,writeTo,hk,update_of_ne (Ne.symm hk)]
 | get key=>rfl
 | hash=>rfl
 | commit=>rfl
 | reopen i=>exact absurd rfl (h i)

lemma lastWritten_cons(k:Bytes)(op:Op)(ops:List Op)(initial:Option Bytes):
 lastWritten k (op::ops) initial=lastWritten k ops ((writeTo k op).getD initial):=by
 unfold lastWritten
 cases hw:writeTo k op with
 | none=>simp[hw]
 | some r=>
  rw[filterMap_cons_some hw,getLast?_cons]
  cases (ops.filterMap (writeTo k)).getLast?<;>rfl

lemma run_current(p:History)(h:∀op∈ops,SameTrie op)(k:Bytes):
 (p.run ops).current k=lastWritten k ops (p.current k):=by
 induction ops generalizing p with
 | nil=>rfl
 | cons op ops ih=>
  rw[lastWritten_cons,←step_current p (h op (by simp)) k]
  exact ih (p.step op) (fun op' hop'=>h op' (by simp[hop']))

/-- Nodes of one session are hashed without collisions. -/
def Sound (sha3:Bytes→Bytes) (ops:List Op):Prop:=
 CollisionFree sha3 (nodesOf sha3 (History.start.reached ops))

lemma get_current(hops:∀op∈ops,op.Over K)(hsound:Sound sha3 ops):
 ∃s,Session.start.run sha3 ops=some s∧∀k∈K.keys,∃st,
  s.trie.get s.store k=some ((History.start.run ops).current k,st):=by
 have h80:=emptyString_not_node hsound.length (History.start.reached ops)
 obtain⟨s,hs,hmat⟩:=(matches_start K).run hsound h80 hops subset_rfl
 refine⟨s,hs,fun k hk=>?_⟩
 obtain⟨hm,t,ht,hroot⟩:=hmat.current
 obtain⟨r,st,hr,-,-,rfl⟩:=get_keeps hsound.length ht hm hroot hmat.store
  (emptyRoot_missing hsound h80 hmat.addressed) hk
 exact⟨st,hr⟩

/-- A session over keys that do not begin one another runs to its end, and then `Get`
returns what the last write to the key since the trie was opened left, or what was
stored under the key when it was opened. -/
theorem get_returns_last_written {K : KeySet} {sha3 : Bytes → Bytes} {opening ops : List Op}
    (hops : ∀ op ∈ opening ++ ops, op.Over K) (hsame : ∀ op ∈ ops, SameTrie op)
    (hsound : Sound sha3 (opening ++ ops)) :
    ∃ s, Session.start.run sha3 (opening ++ ops) = some s ∧
      ∀ k ∈ K.keys, ∃ st, s.trie.get s.store k =
        some (lastWritten k ops ((History.start.run opening).current k), st) := by
 obtain⟨s,hs,hget⟩:=get_current hops hsound
 refine⟨s,hs,fun k hk=>?_⟩
 obtain⟨st,hr⟩:=hget k hk
 refine⟨st,?_⟩
 rw[hr,←run_current _ hsame k,History.run,History.run,History.run,foldl_append]

open Sample

lemma single_of_erased:(pair [1]).erase [0x11]=single:=by
 funext k
 by_cases hk:k=[0x11]
 ·subst hk
  rfl
 simp[Mapping.erase,pair,Mapping.write,update_of_ne hk]

lemma pair_overwritten:(pair [1]).write [0x11] [3]=pair [3]:=by
 simp[pair,Mapping.write]

/-- Two keys are committed, one is deleted, and the committed trie is opened again. -/
def reopened:List Op:=[.update [0x12] [2],.update [0x11] [1],.commit,.delete [0x11],.reopen 0]

def afterwards:List Op:=[.hash,.update [0x11] [3],.get [0x12],.commit]

lemma sound_reopened:Sound padHash (reopened++afterwards):=by
 refine collisionFree_padHash fun m hm=>small_mapping ?_
 simp only[reopened,afterwards,cons_append,nil_append,History.reached,mem_cons,not_mem_nil,or_false]at hm
 rcases hm with rfl|rfl|rfl|rfl|rfl|rfl|rfl|rfl|rfl|rfl
 ·exact .inl rfl
 ·exact .inr (.inl rfl)
 ·exact .inr (.inr (.inl rfl))
 ·exact .inr (.inr (.inl rfl))
 ·exact .inr (.inl single_of_erased)
 ·exact .inr (.inr (.inl rfl))
 ·exact .inr (.inr (.inl rfl))
 ·exact .inr (.inr (.inr pair_overwritten))
 ·exact .inr (.inr (.inr pair_overwritten))
 exact .inr (.inr (.inr pair_overwritten))

theorem get_returns_last_written_reopened :
    ∃ s, Session.start.run padHash (reopened ++ afterwards) = some s ∧
      (∃ st, s.trie.get s.store [0x11] = some (some [3], st)) ∧
      (∃ st, s.trie.get s.store [0x12] = some (some [2], st)) ∧
      ∃ st, s.trie.get s.store [0x13] = some (none, st) := by
 have hover:∀op∈reopened++afterwards,op.Over keys:=by
  simp[reopened,afterwards,Op.Over,Sample.keys,KeySet.ofLength]
 have hsame:∀op∈afterwards,SameTrie op:=by
  simp[afterwards,SameTrie]
 obtain⟨s,hs,hget⟩:=get_returns_last_written hover hsame sound_reopened
 exact⟨s,hs,hget [0x11] rfl,hget [0x12] rfl,hget [0x13] rfl⟩

end GoCoupe.TrieAsMap
