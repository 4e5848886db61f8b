import GoCoupe.BlockChainRuns

/-!
# The three head pointers

`insert` moves the head header and the head fast block only when the number was not yet
assigned to its block, and `reorg` inserts the new branch from its newest block to its oldest.
The two pointers end at the oldest block of the branch that was not yet in the index.
-/

namespace GoCoupe.HeadPointers
open BlockChainModel BlockChainInvariants BlockChainWrites BlockChainRuns DescentPaths List

/-- The head header and the head fast block are the head block or descend from it, in
memory and by the hashes in the database. -/
structure HeadsAtOrAbove (hash:Header→Hash) (bc:BlockChain):Prop where
 currentHeader:∃x,Ancestor (Parent hash bc.chainDb) bc.currentBlock x ∧ bc.currentHeader=x.header
 currentFastBlock:Ancestor (Parent hash bc.chainDb) bc.currentBlock bc.currentFastBlock
 headBlock:bc.chainDb.headBlock=some (hash bc.currentBlock.header)
 headHeader:∃x,Ancestor (Parent hash bc.chainDb) bc.currentBlock x ∧
  bc.chainDb.headHeader=some (hash x.header)
 headFast:∃x,Ancestor (Parent hash bc.chainDb) bc.currentBlock x ∧
  bc.chainDb.headFast=some (hash x.header)

structure HeadsCoincide (bc:BlockChain):Prop where
 currentHeader:bc.currentHeader=bc.currentBlock.header
 currentFastBlock:bc.currentFastBlock=bc.currentBlock

/-- The new block is not in the index yet, and the blocks between it and the head's
chain are. The second part is void when the parent is the head or an ancestor of it. -/
structure OnlyNewestMissing (hash:Header→Hash) (bc:BlockChain) (b:Block):Prop where
 missing:¬Indexed hash bc.chainDb b
 present:∀x,Ancestor (Parent hash bc.chainDb) x b→x≠b →
  ¬Ancestor (Parent hash bc.chainDb) x bc.currentBlock→Indexed hash bc.chainDb x

variable {hash:Header→Hash} {U:Set Block} {b a:Block} {td:ℕ} {l k:List Block}
 {bc bc' bc₀:BlockChain}

/-- The replayed blocks are the ancestors of the new block that are not on the old chain. -/
lemma mem_branch_iff(hU:CollisionFree hash U)(hc:ChainOk hash U bc)
 (hw:CanonicalWrite hash b td a l k bc bc'):
 x∈k↔Ancestor (Parent hash bc.chainDb) x b∧¬Ancestor (Parent hash bc.chainDb) x bc.currentBlock:=by
 have hg:=graded hU hc.store
 constructor
 ·intro hx
  obtain⟨l₁,_,_,h1,_⟩:=hw.newPath.split_mem hx
  exact⟨h1.ancestor,hw.leaves x hx⟩
 rintro⟨hxb,hxh⟩
 by_cases hlt:a.number<x.number
 ·obtain⟨y,hy,hyn⟩:=hw.newPath.exists_height hg hlt (hxb.height_le hg)
  obtain⟨l₁,_,_,h1,_⟩:=hw.newPath.split_mem hy
  rwa[hxb.unique hg h1.ancestor hyn.symm]
 have hxa:=hxb.of_height_le hg hw.newPath.ancestor (by omega)
 exact absurd (hxa.trans hw.oldPath.ancestor) hxh

/-- A block whose parent is on the head's chain replays only itself. -/
lemma OnlyNewestMissing.of_parent(hU:CollisionFree hash U)
 (hc:ChainOk hash U bc)(hp:Parent hash bc.chainDb p b)
 (hph:Ancestor (Parent hash bc.chainDb) p bc.currentBlock)
 (hb:¬Indexed hash bc.chainDb b):OnlyNewestMissing hash bc b where
 missing:=hb
 present:=by
  intro x hx hne hxh
  exact absurd ((hx.of_parent (graded hU hc.store) hp hne).trans hph) hxh

lemma branch_eq_cons(hw:CanonicalWrite hash b td a l k bc bc')
 (hnew:¬Ancestor (Parent hash bc.chainDb) b bc.currentBlock):∃k',k=b::k':=by
 have hpath:=hw.newPath
 cases hpath with
 | refl=>exact absurd hw.oldPath.ancestor hnew
 | step=>exact⟨_,rfl⟩

lemma HeadsAtOrAbove.of_otherHeads(hcur:bc.currentBlock=b)
 (hblock:bc.chainDb.headBlock=some (hash b.header))(h:OtherHeadsAt hash b bc):
 HeadsAtOrAbove hash bc:=by
 subst hcur
 exact⟨⟨_,.refl _,h.currentHeader⟩,by rw[h.currentFastBlock];exact .refl _,hblock,
  ⟨_,.refl _,h.headHeader⟩,⟨_,.refl _,h.headFast⟩⟩

/-- Under the guard the last block moved to is the new head. -/
lemma otherHeads_at_new(hU:CollisionFree hash U)(hc:ChainOk hash U bc)
 (hw:CanonicalWrite hash b td a l k bc bc')
 (hnew:¬Ancestor (Parent hash bc.chainDb) b bc.currentBlock)
 (hguard:OnlyNewestMissing hash bc b):OtherHeadsAt hash b bc':=by
 have hbk:b∈k:=(mem_branch_iff hU hc hw).mpr ⟨.refl b,hnew⟩
 rcases hw.otherHeads with⟨hall,_⟩|⟨L₁,x,L₂,hk,hx,_,hat⟩
 ·exact absurd (hall b hbk) hguard.missing
 have hxk:x∈k:=by simp[hk]
 obtain⟨hxb,hxh⟩:=(mem_branch_iff hU hc hw).mp hxk
 by_cases hxeq:x=b
 ·exact hxeq▸hat
 exact absurd (hguard.present x hxb hxeq hxh) hx

/-- Conversely, if the fast block did not end below the new head, the guard was met. -/
lemma guard_of_heads(hU:CollisionFree hash U)(hc:ChainOk hash U bc)
 (hc':ChainOk hash U bc')(hb:b∈U)(hw:CanonicalWrite hash b td a l k bc bc')
 (hnew:¬Ancestor (Parent hash bc.chainDb) b bc.currentBlock)(hco:HeadsCoincide bc)
 (hfast:Ancestor (Parent hash bc'.chainDb) b bc'.currentFastBlock):
 OnlyNewestMissing hash bc b:=by
 have hg:=graded hU hc.store
 obtain⟨k',hk'⟩:=branch_eq_cons hw hnew
 rcases hw.otherHeads with⟨_,hkept⟩|⟨L₁,x,L₂,hk,hx,hL2,hat⟩
 ·rw[hkept.currentFastBlock,hco.currentFastBlock]at hfast
  have hs':=hc'.store
  rw[hw.caches.genesisBlock]at hs'
  exact absurd (hw.stored.ancestor_of_stored hU hc.store hs' hb hc.head_stored hfast) hnew
 have hxk:x∈k:=by simp[hk]
 have hbk:b∈k:=by simp[hk']
 rw[hat.currentFastBlock]at hfast
 have hle:=hfast.height_le (graded hU hc'.store)
 have hle':=(hw.newPath.mem_height hg hxk).2
 have hxb:x=b:=hw.newPath.mem_unique hg hxk hbk (by omega)
 subst hxb
 have hL1:L₁=[]:=by
  cases L₁ with
  | nil=>rfl
  | cons y L₁=>
   have hpair:=hw.newPath.pairwise_height hg
   rw[hk']at hk
   obtain⟨rfl,htail⟩:=List.cons.inj hk
   rw[hk',htail]at hpair
   have:=(List.pairwise_cons.mp hpair).1 x (by simp)
   omega
 subst hL1
 refine⟨hx,fun y hy hne hyh=>hL2 y ?_⟩
 have hyk:=(mem_branch_iff hU hc hw).mpr ⟨hy,hyh⟩
 rw[hk]at hyk
 simpa[hne]using hyk

lemma heads_after_write(hw:IsWrite hash U w)(hU:CollisionFree hash U)
 (hc:ChainOk hash U w.pre)(hco:HeadsCoincide w.pre):
 ((w.status=.canonStatTy→HeadsAtOrAbove hash w.post)↔
  (Heavier hash w.pre w.block→OnlyNewestMissing hash w.pre w.block))∧
  ((Heavier hash w.pre w.block→OnlyNewestMissing hash w.pre w.block) →HeadsCoincide w.post):=by
 have hc':=(hw.stored hU hc).2.1
 obtain⟨td,hd,⟨hlight,hst,-,hside⟩|⟨hheavy,hst,hlt,a,l,k,hcan⟩⟩:=hw.outcome hU hc
 ·refine⟨⟨fun _ h=>absurd h hlight,fun _ h=>?_⟩,fun _=>⟨?_,?_⟩⟩
  ·rw[hst]at h
   cases h
  ·rw[hside.otherHeads.currentHeader,hside.currentBlock,hco.currentHeader]
  rw[hside.otherHeads.currentFastBlock,hside.currentBlock,hco.currentFastBlock]
 obtain⟨m,hm,_⟩:=hc.store.difficulty _ hc.head_stored
 have hnew:=not_ancestor_of_heavier hU hc hd hm (hlt m hm)
 refine⟨⟨fun h _=>?_,fun h _=>?_⟩,fun h=>?_⟩
 ·have hfast:=(h hst).currentFastBlock
  rw[hcan.currentBlock]at hfast
  exact guard_of_heads hU hc hc' hw.known hcan hnew hco hfast
 ·exact .of_otherHeads hcan.currentBlock hcan.headBlock
   (otherHeads_at_new hU hc hcan hnew (h hheavy))
 have hat:=otherHeads_at_new hU hc hcan hnew (h hheavy)
 exact⟨by rw[hat.currentHeader,hcan.currentBlock],by rw[hat.currentFastBlock,hcan.currentBlock]⟩

/-- In a run from a chain whose heads coincide, the two other heads are at or above the
head block after every call that makes its block canonical exactly when each such call
finds only its own block missing from the index. -/
theorem head_pointers_keep_up_iff (hU : CollisionFree hash U) (h₀ : ChainOk hash U bc₀)
    (hco : HeadsCoincide bc₀) {ws : List Write} (h : Run hash U bc₀ ws bc) :
    ((∀ w ∈ ws, w.status = .canonStatTy → HeadsAtOrAbove hash w.post) ↔
        ∀ w ∈ ws, Heavier hash w.pre w.block → OnlyNewestMissing hash w.pre w.block) ∧
      ∀ b ∈ U, ∀ p, Parent hash bc.chainDb p b →
        ∃ bc' status, bc.writeBlock hash b = some (bc', status, none) :=
 ⟨(h.exact hU h₀ hco (fun _ hw hc hi=>heads_after_write hw hU hc hi)).1,
  fun _ hb _ hp=>h.writes hU h₀ hb hp⟩

theorem head_pointers_of_straight_run :
    HeadsAtOrAbove Sample.headerHash Sample.wroteFirst.post ∧
      HeadsAtOrAbove Sample.headerHash Sample.wroteSecond.post := by
 suffices hall : ∀w∈[Sample.wroteFirst,Sample.wroteSecond],
  w.status=.canonStatTy→HeadsAtOrAbove Sample.headerHash w.post from
  ⟨hall _ mem_cons_self (by decide +kernel),
   hall _ (mem_cons_of_mem _ mem_cons_self) (by decide +kernel)⟩
 refine (head_pointers_keep_up_iff Sample.collisionFree Sample.start_ok ⟨rfl,rfl⟩
  Sample.straight_run).1.mpr ?_
 have hpost:=Sample.first_run.chainOk Sample.collisionFree Sample.start_ok
 have h1:OnlyNewestMissing Sample.headerHash Sample.start Sample.first:=
  .of_parent Sample.collisionFree Sample.start_ok Sample.first_parent (.refl Sample.root)
   (by unfold Indexed; decide +kernel)
 have hhead:Sample.wroteFirst.post.currentBlock=Sample.first:=by decide +kernel
 have h2:OnlyNewestMissing Sample.headerHash Sample.wroteFirst.post Sample.second:=
  .of_parent Sample.collisionFree hpost Sample.second_parent (by rw[hhead]; exact .refl _)
   (by unfold Indexed; decide +kernel)
 simp only[forall_mem_cons]
 exact⟨fun _=>h1,fun _=>h2,by simp⟩

/-- After the reorganisation to the branch of `first` and `heavy` the head is `heavy`, and
the other two heads are `first`, in memory and in the database. -/
theorem head_pointers_fall_behind :
    Run Sample.headerHash Sample.blocks (newBlockChain Sample.headerHash Sample.root)
        [Sample.besideFirst, Sample.behindRival, Sample.wroteHeavy] Sample.wroteHeavy.post ∧
      Sample.wroteHeavy.status = .canonStatTy ∧
      Sample.wroteHeavy.post.currentBlock = Sample.heavy ∧
      OtherHeadsAt Sample.headerHash Sample.first Sample.wroteHeavy.post ∧
      ¬ HeadsAtOrAbove Sample.headerHash Sample.wroteHeavy.post := by
 have hhead:Sample.wroteHeavy.post.currentBlock=Sample.heavy:=by decide +kernel
 have hother:OtherHeadsAt Sample.headerHash Sample.first Sample.wroteHeavy.post:=
  ⟨by decide +kernel,by decide +kernel,by decide +kernel,by decide +kernel⟩
 refine⟨Sample.heavy_run,by decide +kernel,hhead,hother,fun h=>?_⟩
 have hpost:=Sample.heavy_run.chainOk Sample.collisionFree Sample.start_ok
 have hle:=h.currentFastBlock.height_le (graded Sample.collisionFree hpost.store)
 rw[hhead,hother.currentFastBlock] at hle
 exact absurd hle (by decide)

end GoCoupe.HeadPointers
