import GoCoupe.TrieAsMap

/-!
# The root hash stands for the mapping

Two sessions end with the same root hash exactly when they leave the same mapping, whatever was
written, deleted, hashed, committed and reloaded in between.
-/

namespace GoCoupe.CanonicalRoots
open TrieNodes TrieNodeCodec TrieOperations TrieMappings TrieSessions List

variable {sha3:Bytes→Bytes} {E:Set Bytes}

lemma rootHash_injective(hE:CollisionFree sha3 E)(h80:[0x80]∉E)
 (ht:t≠.empty → Shaped t)(ht':t'≠.empty → Shaped t')
 (hn:nodeEncodings sha3 t⊆E)(hn':nodeEncodings sha3 t'⊆E)
 (h:rootHash sha3 t=rootHash sha3 t'):t=t':=by
 have hmixed:∀u:HexTree,Shaped u→nodeEncodings sha3 u⊆E →
  Trie.emptyRoot sha3≠sha3 (encoding sha3 u):=by
  intro u hu hnu heq
  have hmem:=hnu (encoding_mem hu)
  have:=hE.injective (Set.mem_insert _ _) (Set.mem_insert_of_mem _ hmem) heq
  exact h80 (this▸hmem)
 by_cases he:t=.empty
 ·by_cases he':t'=.empty
  ·rw[he,he']
  rw[he,rootHash_shaped (ht' he')]at h
  exact absurd h (hmixed t' (ht' he') hn')
 rw[rootHash_shaped (ht he)]at h
 by_cases he':t'=.empty
 ·rw[he']at h
  exact absurd h.symm (hmixed t (ht he) hn)
 rw[rootHash_shaped (ht' he')]at h
 refine encoding_injective hE.length hE.injOn (ht he) (ht' he') hn hn' ?_
 exact hE.injOn (hn (encoding_mem (ht he))) (hn' (encoding_mem (ht' he'))) h

lemma nodesOf_mono(h:∀m∈ms,m∈ms'):nodesOf sha3 ms⊆nodesOf sha3 ms':=by
 rintro e ⟨m,hm,he⟩
 exact⟨m,h m hm,he⟩

lemma ends_mem_reached(ops ops':List Op):
 ∀m∈[(History.start.run ops).current,(History.start.run ops').current],
  m∈History.start.reached ops++History.start.reached ops':=by
 simp[run_mem_reached]

lemma hash_eq_iff(hE:CollisionFree sha3 E)
 (h80:[0x80]∉E)(hm:Matches sha3 E K s p)(hm':Matches sha3 E K' s' p')
 (hn:nodesOf sha3 [p.current,p'.current]⊆E):∃root root',s.trie.hash sha3=some root∧
  s'.trie.hash sha3=some root'∧(root=root'↔p.current=p'.current):=by
 obtain⟨t,ht,hsh,hr⟩:=hm.hash
 obtain⟨t',ht',hsh',hr'⟩:=hm'.hash
 refine⟨_,_,hr,hr',fun h=>?_,fun h=>?_⟩
 ·have heq:=rootHash_injective hE h80 hsh hsh'
   (fun e he=>hn ⟨_,by simp,t,ht,he⟩) (fun e he=>hn ⟨_,by simp,t',ht',he⟩) h
  exact ht.mapping_eq (heq▸ht')
 rw[ht.eq (h▸ht')]

/-- Two sessions over the same keys, whose nodes are hashed without collisions, end with
the same root hash if and only if they end with the same mapping. -/
theorem same_root_iff_same_mapping {K : KeySet} {ops ops' : List Op}
    (hops : ∀ op ∈ ops, op.Over K) (hops' : ∀ op ∈ ops', op.Over K)
    (hE : CollisionFree sha3
      (nodesOf sha3 (History.start.reached ops ++ History.start.reached ops'))) :
    ∃ s s' root root', Session.start.run sha3 ops = some s ∧
      Session.start.run sha3 ops' = some s' ∧
      s.trie.hash sha3 = some root ∧ s'.trie.hash sha3 = some root' ∧
      (root = root' ↔ (History.start.run ops).current = (History.start.run ops').current) := by
 have h80:=emptyString_not_node hE.length (History.start.reached ops++History.start.reached ops')
 obtain⟨s,hs,hm⟩:=(matches_start K).run hE h80 hops
  (nodesOf_mono fun m hm=>mem_append_left _ hm)
 obtain⟨s',hs',hm'⟩:=(matches_start K).run hE h80 hops'
  (nodesOf_mono fun m hm=>mem_append_right _ hm)
 obtain⟨root,root',h⟩:=hash_eq_iff hE h80 hm hm' (nodesOf_mono (ends_mem_reached ops ops'))
 exact⟨s,s',root,root',hs,hs',h⟩

open Sample TrieAsMap

/-- Another way to the mapping of the reopened trie. -/
def overwritten:List Op:=[.update [0x12] [2],.commit,.update [0x11] [3],.hash,.update [0x11] [1]]

lemma pair_restored:(pair [3]).write [0x11] [1]=pair [1]:=by
 simp[pair,Mapping.write]

theorem same_root_after_reopening :
    ∃ s s' root, Session.start.run padHash reopened = some s ∧
      Session.start.run padHash overwritten = some s' ∧
      s.trie.hash padHash = some root ∧ s'.trie.hash padHash = some root := by
 have hover:∀op∈reopened,op.Over keys:=by
  simp[reopened,Op.Over,Sample.keys,KeySet.ofLength]
 have hover':∀op∈overwritten,op.Over keys:=by
  simp[overwritten,Op.Over,Sample.keys,KeySet.ofLength]
 have hE:CollisionFree padHash (nodesOf padHash
  (History.start.reached reopened++History.start.reached overwritten)):=by
  refine collisionFree_padHash fun m hm=>small_mapping ?_
  simp only[reopened,overwritten,cons_append,nil_append,History.reached,
   mem_cons,not_mem_nil,or_false] at hm
  rcases hm with rfl|rfl|rfl|rfl|rfl|rfl|rfl|rfl|rfl|rfl|rfl|rfl
  · exact .inl rfl
  · exact .inr (.inl rfl)
  · exact .inr (.inr (.inl rfl))
  · exact .inr (.inr (.inl rfl))
  · exact .inr (.inl single_of_erased)
  · exact .inr (.inr (.inl rfl))
  · exact .inl rfl
  · exact .inr (.inl rfl)
  · exact .inr (.inl rfl)
  · exact .inr (.inr (.inr rfl))
  · exact .inr (.inr (.inr rfl))
  exact .inr (.inr (.inl pair_restored))
 obtain⟨s,s',root,root',hs,hs',hr,hr',hiff⟩:=same_root_iff_same_mapping hover hover' hE
 have hmap:(History.start.run reopened).current=(History.start.run overwritten).current:=
  pair_restored.symm
 rw[←hiff.mpr hmap] at hr'
 exact⟨s,s',root,hs,hs',hr,hr'⟩

end GoCoupe.CanonicalRoots
