import GoCoupe.BlockChainRuns

/-!
# Fork choice by total difficulty

The total difficulty stored for a block is the sum on its path to genesis, and the head is the
first written of the heaviest blocks, because `WriteBlock` compares strictly.
-/

namespace GoCoupe.ForkChoice
open BlockChainModel BlockChainInvariants BlockChainWrites BlockChainRuns List

variable {hash:Header→Hash} {U:Set Block} {genesis b:Block} {td:ℕ}
 {bc bc':BlockChain} {written:List Block}

def headTd (hash:Header→Hash) (bc:BlockChain):Option ℕ:=bc.chainDb.tds (hash bc.currentBlock.header)

/-- The head is the first of the heaviest blocks in the order of writing. -/
structure HeadIsFirstHeaviest (hash:Header→Hash) (bc:BlockChain) (written:List Block) :
 Prop where
 stored:∀b∈written,Stored hash bc.chainDb b
 head_mem:bc.currentBlock∈written
 heaviest:∀b∈written,∀n m,bc.chainDb.tds (hash b.header)=some n→headTd hash bc=some m→n ≤ m
 first:∀b∈written,bc.chainDb.tds (hash b.header)=headTd hash bc →
  written.idxOf bc.currentBlock≤written.idxOf b

lemma tds_self(hs:BlockStored hash b td bc.chainDb bc'.chainDb):
 bc'.chainDb.tds (hash b.header)=some td:=by
 simp[hs.tds]

lemma idxOf_le_of_mem(hx:x∈written)(hy:y∉written)(c:List Block):
 (written++c).idxOf x≤(written++c).idxOf y:=by
 have hlt:=idxOf_lt_length_of_mem hx
 rw[idxOf_append_of_mem hx,idxOf_append_of_notMem hy]
 omega

section

variable (hU:CollisionFree hash U) (hc:ChainOk hash U bc) (hb:b∈U)
 (hd:PathDifficulty hash bc.chainDb bc.genesisBlock b td)

include hU hc hb

lemma HeadIsFirstHeaviest.stored_append(h:HeadIsFirstHeaviest hash bc written)
 (hs:BlockStored hash b td bc.chainDb bc'.chainDb):
 ∀x∈written++[b],Stored hash bc'.chainDb x:=by
 intro x hx
 rcases mem_append.mp hx with hx|hx
 ·exact hs.stored_mono hU hc.store hb (h.stored x hx)
 rw[mem_singleton.mp hx]
 exact hs.stored_self

include hd

lemma tds_eq_of_stored(hs:BlockStored hash b td bc.chainDb bc'.chainDb)
 (hx:Stored hash bc.chainDb x):
 bc'.chainDb.tds (hash x.header)=bc.chainDb.tds (hash x.header):=by
 obtain⟨n,hn,_⟩:=hc.store.difficulty x hx
 rw[hs.tds_mono hU hc.store hb hd hn,hn]

lemma HeadIsFirstHeaviest.sideWrite(hle:∀m,headTd hash bc=some m→td ≤ m)
 (h:HeadIsFirstHeaviest hash bc written)
 (hw:SideWrite hash b td bc bc'):HeadIsFirstHeaviest hash bc' (written++[b]):=by
 have hhead:headTd hash bc'=headTd hash bc:=by
  unfold headTd
  rw[hw.currentBlock]
  exact tds_eq_of_stored hU hc hb hd hw.stored hc.head_stored
 refine⟨h.stored_append hU hc hb hw.stored,by simp[hw.currentBlock,h.head_mem],?_,?_⟩
 ·intro x hx n m hn hm
  rw[hhead]at hm
  rcases mem_append.mp hx with hx|hx
  ·rw[tds_eq_of_stored hU hc hb hd hw.stored (h.stored x hx)]at hn
   exact h.heaviest x hx n m hn hm
  rw[mem_singleton.mp hx,tds_self hw.stored]at hn
  cases hn
  exact hle m hm
 intro x hx heq
 rw[hw.currentBlock]
 by_cases hxw:x∈written
 ·rw[hhead,tds_eq_of_stored hU hc hb hd hw.stored (h.stored x hxw)]at heq
  rw[idxOf_append_of_mem h.head_mem,idxOf_append_of_mem hxw]
  exact h.first x hxw heq
 exact idxOf_le_of_mem h.head_mem hxw [b]

end

lemma HeadIsFirstHeaviest.canonicalWrite(hU:CollisionFree hash U)(hc:ChainOk hash U bc)(hb:b∈U)
 (hd:PathDifficulty hash bc.chainDb bc.genesisBlock b td)
 (hlt:∀m,headTd hash bc=some m→m<td)(h:HeadIsFirstHeaviest hash bc written)
 (hw:CanonicalWrite hash b td a l k bc bc'):HeadIsFirstHeaviest hash bc' (written++[b]):=by
 obtain⟨m₀,hm0,_⟩:=hc.store.difficulty _ hc.head_stored
 have hhead:headTd hash bc'=some td:=by
  unfold headTd
  rw[hw.currentBlock]
  exact tds_self hw.stored
 have hlight:∀x∈written,∀n,bc'.chainDb.tds (hash x.header)=some n→n<td:=by
  intro x hx n hn
  rw[tds_eq_of_stored hU hc hb hd hw.stored (h.stored x hx)]at hn
  have:=h.heaviest x hx n m₀ hn hm0
  have:=hlt m₀ hm0
  omega
 refine⟨h.stored_append hU hc hb hw.stored,by simp[hw.currentBlock],?_,?_⟩
 ·intro x hx n m hn hm
  rw[hhead]at hm
  cases hm
  rcases mem_append.mp hx with hx|hx
  ·exact (hlight x hx n hn).le
  rw[mem_singleton.mp hx,tds_self hw.stored]at hn
  cases hn
  exact le_rfl
 intro x hx heq
 rw[hhead]at heq
 rcases mem_append.mp hx with hx|hx
 ·exact absurd (hlight x hx td heq) (lt_irrefl td)
 rw[hw.currentBlock,mem_singleton.mp hx]

lemma HeadIsFirstHeaviest.write{w:Write}(hw:IsWrite hash U w)(hU:CollisionFree hash U)
 (hc:ChainOk hash U w.pre)(h:HeadIsFirstHeaviest hash w.pre written):
 HeadIsFirstHeaviest hash w.post (written++[w.block]):=by
 obtain⟨td,hd,⟨-,-,hle,hside⟩|⟨-,-,hlt,a,l,k,hcan⟩⟩:=hw.outcome hU hc
 ·exact h.sideWrite hU hc hw.known hd hle hside
 exact h.canonicalWrite hU hc hw.known hd hlt hcan

lemma headIsFirstHeaviest_newBlockChain:
 HeadIsFirstHeaviest hash (newBlockChain hash genesis) [genesis] where
 stored:=by simp[stored_newBlockChain_iff]
 head_mem:=by simp[newBlockChain]
 heaviest:=by
  intro b hb n m hn hm
  rw[mem_singleton.mp hb]at hn
  exact (Option.some.inj (hn.symm.trans hm)).le
 first:=by
  intro b hb _
  rw[mem_singleton.mp hb]
  exact le_rfl

lemma headTd_le_of_write(hw:IsWrite hash U w)(hU:CollisionFree hash U)(hc:ChainOk hash U w.pre):
 ∃m m',headTd hash w.pre=some m∧headTd hash w.post=some m'∧m ≤ m':=by
 obtain⟨m,hm,_⟩:=hc.store.difficulty _ hc.head_stored
 obtain⟨td,hd,⟨-,-,-,hside⟩|⟨-,-,hlt,a,l,k,hcan⟩⟩:=hw.outcome hU hc
 ·refine⟨m,m,hm,?_,le_rfl⟩
  unfold headTd
  rw[hside.currentBlock,tds_eq_of_stored hU hc hw.known hd hside.stored hc.head_stored,hm]
 refine⟨m,td,hm,?_,(hlt m hm).le⟩
 unfold headTd
 rw[hcan.currentBlock]
 exact tds_self hcan.stored

lemma run_headIsFirstHeaviest(hU:CollisionFree hash U)(hg:genesis∈U)(h0:genesis.number=0)
 (h:Run hash U (newBlockChain hash genesis) ws bc):
 HeadIsFirstHeaviest hash bc (genesis::ws.map Write.block):=by
 induction h with
 | nil=>exact headIsFirstHeaviest_newBlockChain
 | write before hw ih=>
  rw[map_append,←cons_append]
  exact ih.write hw hU (before.chainOk hU (chainOk_newBlockChain hash hg h0))

/-- In every run from genesis: each written block has the difficulty of its path as its
stored and as its cached total difficulty; no call lowers the total difficulty of the
head; and no written block is heavier than the head, or as heavy and written before it. -/
theorem fork_choice_follows_total_difficulty (hU : CollisionFree hash U) (hg : genesis ∈ U)
    (h₀ : genesis.number = 0) {ws : List Write}
    (h : Run hash U (newBlockChain hash genesis) ws bc) :
    (∀ b ∈ genesis :: ws.map Write.block, ∃ n, PathDifficulty hash bc.chainDb genesis b n ∧
        bc.chainDb.tds (hash b.header) = some n ∧ (bc.getTd (hash b.header)).1 = some n) ∧
      (∀ w ∈ ws, ∃ m m', headTd hash w.pre = some m ∧ headTd hash w.post = some m' ∧ m ≤ m') ∧
      (∃ m, headTd hash bc = some m ∧ bc.currentBlock ∈ genesis :: ws.map Write.block ∧
        ∀ b ∈ genesis :: ws.map Write.block, ∀ n, bc.chainDb.tds (hash b.header) = some n →
          n ≤ m ∧ (n = m → (genesis :: ws.map Write.block).idxOf bc.currentBlock ≤
            (genesis :: ws.map Write.block).idxOf b)) ∧
      ∀ b ∈ U, ∀ p, Parent hash bc.chainDb p b →
        ∃ bc' status, bc.writeBlock hash b = some (bc', status, none) := by
 have hok:=chainOk_newBlockChain hash hg h₀
 have hc:=h.chainOk hU hok
 have hfirst:=run_headIsFirstHeaviest hU hg h₀ h
 refine⟨?_,?_,?_,fun b hb p hp=>h.writes hU hok hb hp⟩
 · intro b hb
   obtain⟨n,hn,hpath⟩:=hc.store.difficulty b (hfirst.stored b hb)
   obtain⟨c,_,hget⟩:=getTd_spec bc hc.tdCache (hash b.header)
   rw[h.genesisBlock hU hok] at hpath
   exact⟨n,hpath,hn,by rw[hget,hn]⟩
 · intro w hw
   obtain⟨hwrite,hpre⟩:=h.mem hU hok hw
   exact headTd_le_of_write hwrite hU hpre
 obtain⟨m,hm,_⟩:=hc.store.difficulty _ hc.head_stored
 refine⟨m,hm,hfirst.head_mem,fun b hb n hn=>⟨hfirst.heaviest b hb n m hn hm,?_⟩⟩
 intro hnm
 refine hfirst.first b hb ?_
 rw[hn,hnm]
 exact hm.symm

/-- In the run that writes the rival last, the rival outweighs all other blocks. -/
theorem fork_choice_of_rival_run :
    ∃ m, headTd Sample.headerHash Sample.wroteRival.post = some m ∧
      ∀ b ∈ [Sample.root, Sample.first, Sample.second, Sample.rival], ∀ n,
        Sample.wroteRival.post.chainDb.tds (Sample.headerHash b.header) = some n → n ≤ m := by
 obtain⟨-,-,⟨m,hm,-,h⟩,-⟩:=fork_choice_follows_total_difficulty
  Sample.collisionFree Sample.root_mem rfl Sample.rival_run
 have hblocks:Sample.root::[Sample.wroteFirst,Sample.wroteSecond,Sample.wroteRival].map
  Write.block=[Sample.root,Sample.first,Sample.second,Sample.rival]:=by decide +kernel
 rw[hblocks] at h
 exact⟨m,hm,fun b hb n hn=>(h b hb n hn).1⟩

end GoCoupe.ForkChoice
