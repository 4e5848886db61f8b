import GoCoupe.BlockChainRuns

/-!
# The canonical number index

`reorg` rewrites the entries of the new branch but never deletes those of the old one, so the
index is right after every call of a run exactly when no block that outweighs the head is
numbered below it.
-/

namespace GoCoupe.CanonicalNumberIndex
open BlockChainModel BlockChainInvariants BlockChainWrites BlockChainRuns DescentPaths List

/-- The index holds the ancestry of the head block and nothing else. -/
structure IndexIsAncestry (hash:Header→Hash) (bc:BlockChain):Prop where
 below:∀n≤bc.currentBlock.number,
  ∃x,Ancestor (Parent hash bc.chainDb) x bc.currentBlock ∧ x.number=n ∧
   bc.chainDb.canonical n=some (hash x.header)
 above:∀n,bc.currentBlock.number<n→bc.chainDb.canonical n=none

/-- A block that is about to become the head is not numbered below the head. -/
def HeavierIsNotLower (hash:Header→Hash) (bc:BlockChain) (b:Block):Prop:=
 Heavier hash bc b→bc.currentBlock.number≤b.number

variable {hash:Header→Hash} {U:Set Block} {genesis b a:Block} {td:ℕ}
 {l k:List Block} {bc bc':BlockChain}

lemma IndexIsAncestry.sideWrite(hU:CollisionFree hash U)(hc:ChainOk hash U bc)
 (hb:b∈U)(hi:IndexIsAncestry hash bc)(hw:SideWrite hash b td bc bc'):
 IndexIsAncestry hash bc' where
 below:=by
  intro n hn
  rw[hw.currentBlock]at hn ⊢
  obtain⟨x,hx,hxn,hcan⟩:=hi.below n hn
  refine⟨x,hx.mono (fun _ _=>hw.stored.parent_mono hU hc.store hb),hxn,?_⟩
  rw[hw.canonical,hcan]
 above:=by
  intro n hn
  rw[hw.currentBlock]at hn
  rw[hw.canonical]
  exact hi.above n hn

lemma IndexIsAncestry.canonicalWrite(hU:CollisionFree hash U)(hc:ChainOk hash U bc)
 (hb:b∈U)(hi:IndexIsAncestry hash bc)(hw:CanonicalWrite hash b td a l k bc bc')
 (hle:bc.currentBlock.number≤b.number):IndexIsAncestry hash bc' where
 below:=by
  intro n hn
  rw[hw.currentBlock]at hn ⊢
  have hg:=graded hU hc.store
  have hmono:∀p x,Parent hash bc.chainDb p x→Parent hash bc'.chainDb p x:=
   fun _ _=>hw.stored.parent_mono hU hc.store hb
  by_cases han:a.number<n
  ·obtain⟨x,hx,hxn⟩:=hw.newPath.exists_height hg han hn
   obtain⟨l₁,_,_,h1,_⟩:=hw.newPath.split_mem hx
   exact⟨x,h1.ancestor.mono hmono,hxn,hxn▸hw.assigned x hx⟩
  have hah:=hw.oldPath.ancestor.height_le hg
  obtain⟨x,hx,hxn,hcan⟩:=hi.below n (by omega)
  have hxa:=hx.of_height_le hg hw.oldPath.ancestor (by omega)
  refine⟨x,(hxa.trans hw.newPath.ancestor).mono hmono,hxn,?_⟩
  rw[hw.kept n (fun y hy=>?_),hcan]
  have:=(hw.newPath.mem_height hg hy).1
  omega
 above:=by
  intro n hn
  rw[hw.currentBlock]at hn
  have hg:=graded hU hc.store
  rw[hw.kept n (fun y hy=>?_)]
  ·exact hi.above n (by omega)
  have:=(hw.newPath.mem_height hg hy).2
  omega

/-- A reorganisation to a lower block leaves the entry of the old head behind. -/
lemma stale_entry(hU:CollisionFree hash U)(hc:ChainOk hash U bc)
 (hi:IndexIsAncestry hash bc)(hw:CanonicalWrite hash b td a l k bc bc')
 (hlt:b.number<bc.currentBlock.number):¬IndexIsAncestry hash bc':=by
 intro hi'
 have hnone:=hi'.above bc.currentBlock.number (by rw[hw.currentBlock];exact hlt)
 rw[hw.kept]at hnone
 ·obtain⟨x,_,_,hcan⟩:=hi.below _ le_rfl
  rw[hcan]at hnone
  cases hnone
 intro y hy
 have:=(hw.newPath.mem_height (graded hU hc.store) hy).2
 omega

lemma index_after_write(hw:IsWrite hash U w)(hU:CollisionFree hash U)
 (hc:ChainOk hash U w.pre)(hi:IndexIsAncestry hash w.pre):
 IndexIsAncestry hash w.post↔HeavierIsNotLower hash w.pre w.block:=by
 obtain⟨td,-,⟨hlight,-,-,hside⟩|⟨hheavy,-,-,a,l,k,hcan⟩⟩:=hw.outcome hU hc
 ·exact⟨fun _ hheavy=>absurd hheavy hlight,fun _=>hi.sideWrite hU hc hw.known hside⟩
 constructor
 ·intro hi' _
  by_contra hlt
  exact stale_entry hU hc hi hcan (by omega) hi'
 intro hguard
 exact hi.canonicalWrite hU hc hw.known hcan (hguard hheavy)

lemma index_newBlockChain(h0:genesis.number=0):
 IndexIsAncestry hash (newBlockChain hash genesis) where
 below:=by
  intro n hn
  have hn0:n=genesis.number:=by
   change n≤genesis.number at hn
   omega
  subst hn0
  exact⟨genesis,.refl genesis,rfl,by
   simp[newBlockChain,writeGenesisBlock,ChainDb.writeCanonicalHash,ChainDb.writeHeadBlockHash]⟩
 above:=by
  intro n hn
  change genesis.number<n at hn
  have hne:n≠genesis.number:=by omega
  simp[newBlockChain,writeGenesisBlock,ChainDb.writeCanonicalHash,ChainDb.writeHeadBlockHash,
   ChainDb.writeBlockReceipts,ChainDb.writeBlock,ChainDb.writeHeader,ChainDb.writeBody,
   ChainDb.writeTd,ChainDb.empty,hne]

/-- In a run from genesis the index is the head's ancestry after every call exactly
when no call makes a block canonical that is numbered below the head it replaces. -/
theorem canonical_index_is_ancestry_iff (hU : CollisionFree hash U) (hg : genesis ∈ U)
    (h₀ : genesis.number = 0) {ws : List Write}
    (h : Run hash U (newBlockChain hash genesis) ws bc) :
    ((∀ w ∈ ws, IndexIsAncestry hash w.post) ↔
        ∀ w ∈ ws, HeavierIsNotLower hash w.pre w.block) ∧
      ∀ b ∈ U, ∀ p, Parent hash bc.chainDb p b →
        ∃ bc' status, bc.writeBlock hash b = some (bc', status, none) := by
 have hok:=chainOk_newBlockChain hash hg h₀
 refine⟨(h.exact hU hok (index_newBlockChain h₀) ?_).1,?_⟩
 · intro w hw hc hi
   have hiff:=index_after_write hw hU hc hi
   exact⟨hiff,hiff.mpr⟩
 intro b hb p hp
 exact h.writes hU hok hb hp

/-- Two calls that only extend the head meet the guard. -/
theorem canonical_index_of_straight_run :
    IndexIsAncestry Sample.headerHash Sample.wroteFirst.post ∧
      IndexIsAncestry Sample.headerHash Sample.wroteSecond.post := by
 suffices hall : ∀w∈[Sample.wroteFirst,Sample.wroteSecond],
  IndexIsAncestry Sample.headerHash w.post from
  ⟨hall _ mem_cons_self,hall _ (mem_cons_of_mem _ mem_cons_self)⟩
 refine (canonical_index_is_ancestry_iff Sample.collisionFree Sample.root_mem rfl
  Sample.straight_run).1.mpr ?_
 have h1:Sample.wroteFirst.pre.currentBlock.number≤Sample.wroteFirst.block.number:=by
  decide +kernel
 have h2:Sample.wroteSecond.pre.currentBlock.number≤Sample.wroteSecond.block.number:=by
  decide +kernel
 simp only[forall_mem_cons]
 exact⟨fun _=>h1,fun _=>h2,by simp⟩

/-- Once the rival is written the head is number one, and number two is still assigned
to a block of the abandoned branch. -/
theorem canonical_index_keeps_stale_entry :
    Run Sample.headerHash Sample.blocks (newBlockChain Sample.headerHash Sample.root)
        [Sample.wroteFirst, Sample.wroteSecond, Sample.wroteRival] Sample.wroteRival.post ∧
      Sample.wroteRival.status = .canonStatTy ∧
      Sample.wroteRival.post.currentBlock = Sample.rival ∧
      Sample.wroteRival.post.chainDb.canonical 2 =
        some (Sample.headerHash Sample.second.header) ∧
      ¬ IndexIsAncestry Sample.headerHash Sample.wroteRival.post := by
 have hhead:Sample.wroteRival.post.currentBlock=Sample.rival:=by decide +kernel
 have hstale:Sample.wroteRival.post.chainDb.canonical 2 =
  some (Sample.headerHash Sample.second.header):=by decide +kernel
 refine⟨Sample.rival_run,by decide +kernel,hhead,hstale,fun hi=>?_⟩
 have hnone:=hi.above 2 (by rw[hhead]; decide)
 rw[hstale] at hnone
 cases hnone

end GoCoupe.CanonicalNumberIndex
