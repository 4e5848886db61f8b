import GoCoupe.HeaviestItems
import GoCoupe.HeaderChain
import GoCoupe.BlockChainRuns

/-!
# Sequences of `writeHeader` calls

`writeHeader` deletes assignments upwards until it meets a gap and overwrites them downwards
until it meets one that is right. That is enough when the index is the ancestry of the head,
which the call makes it again.
-/

namespace GoCoupe.HeaderChainRuns
open BlockChainModel RecencyCaches DescentPaths HeaviestItems List Option Function

variable {x:Header} {n:ℕ} {db:ChainDb}

section Tree

variable (hash:Header→Hash)

structure NoCollision (U:Set Header):Prop where
 inj:∀a∈U,∀b∈U,hash a=hash b→a=b
 nonzero:∀a∈U,hash a≠0

/-- `p` is stored, `h` names it as its parent and is numbered one higher. -/
def ParentHeader (headers:Hash→Option Header) (p h:Header):Prop:=
 headers (hash p)=some p ∧ hash p=h.parentHash ∧ h.number=p.number+1

inductive PathTd (headers:Hash→Option Header) (genesis:Header):Header→ℕ→Prop
 | genesis:PathTd headers genesis genesis genesis.difficulty
 | child {p h:Header} {n:ℕ} (hp:ParentHeader hash headers p h)
  (tail:PathTd headers genesis p n):PathTd headers genesis h (h.difficulty+n)

structure HeadersOk (U:Set Header) (genesis:Header) (headers:Hash→Option Header)
 (tds:Hash→Option ℕ):Prop where
 keyed:∀k h,headers k=some h→hash h=k ∧ h∈U
 genesis_stored:headers (hash genesis)=some genesis
 genesis_number:genesis.number=0
 linked:∀h,headers (hash h)=some h→h=genesis ∨ ∃p,ParentHeader hash headers p h
 difficulty:∀h,headers (hash h)=some h→∃n,tds (hash h)=some n ∧ PathTd hash headers genesis h n
 tds_stored:∀k n,tds k=some n→∃h,headers k=some h

/-- The index is the ancestry of `head`, and nothing is assigned above it. -/
structure IndexFollows (headers:Hash→Option Header) (canonical:ℕ→Option Hash)
 (head:Header):Prop where
 below:∀n≤head.number,∃x,Ancestor (ParentHeader hash headers) x head ∧ x.number=n ∧
  canonical n=some (hash x)
 above:∀n,head.number<n→canonical n=none

variable {hash} {U:Set Header} {genesis:Header} {headers:Hash→Option Header}
 {tds:Hash→Option ℕ} {canonical:ℕ→Option Hash}

lemma gradedHeaders(hU:NoCollision hash U)(hs:HeadersOk hash U genesis headers tds):
 Graded (ParentHeader hash headers) Header.number where
 unique:=by
  intro p q h hp hq
  exact hU.inj p (hs.keyed _ _ hp.1).2 q (hs.keyed _ _ hq.1).2 (hp.2.1.trans hq.2.1.symm)
 succ:=fun hp=>hp.2.2

lemma HeadersOk.rooted(hs:HeadersOk hash U genesis headers tds)
 (hh:headers (hash h)=some h):Ancestor (ParentHeader hash headers) genesis h:=by
 induction hn:h.number generalizing h with
 | zero=>
  rcases hs.linked h hh with rfl|⟨p,hp⟩
  ·exact .refl h
  have:=hp.2.2
  omega
 | succ n ih=>
  rcases hs.linked h hh with rfl|⟨p,hp⟩
  ·exact .refl h
  exact (ih hp.1 (by have:=hp.2.2;omega)).trans (.parent hp)

lemma stored_of_ancestor(hx:Ancestor (ParentHeader hash headers) x h)
 (hh:headers (hash h)=some h):headers (hash x)=some x:=by
 obtain⟨l,hl⟩:=hx
 induction hl with
 | refl=>exact hh
 | step hp _ ih=>exact ih hp.1

lemma PathTd.unique(hU:NoCollision hash U)(hs:HeadersOk hash U genesis headers tds)
 (hn:PathTd hash headers genesis h n)(hm:PathTd hash headers genesis h m):n=m:=by
 have hnum:=hs.genesis_number
 induction hn generalizing m with
 | genesis=>
  cases hm with
  | genesis=>rfl
  | child hp _=>have:=hp.2.2;omega
 | @child p h n hp tail ih=>
  cases hm with
  | genesis=>have:=hp.2.2;omega
  | child hp' tail'=>
   obtain rfl:=(gradedHeaders hU hs).unique hp hp'
   rw[ih tail']

/-- The right entries of the index are closed under parents. -/
lemma IndexFollows.closed(hU:NoCollision hash U)(hs:HeadersOk hash U genesis headers tds)
 {head:Header}(hi:IndexFollows hash headers canonical head)(hhead:headers (hash head)=some head)
 {y:Header}(hx:headers (hash x)=some x)(hright:canonical x.number=some (hash x))
 (hy:Ancestor (ParentHeader hash headers) y x):canonical y.number=some (hash y):=by
 have hg:=gradedHeaders hU hs
 have hle:x.number≤head.number:=by
  by_contra hlt
  rw[hi.above x.number (by omega)]at hright
  cases hright
 obtain⟨z,hz,hzn,hzc⟩:=hi.below x.number hle
 obtain rfl:z=x:=by
  rw[hright]at hzc
  exact hU.inj z (hs.keyed _ _ (stored_of_ancestor hz hhead)).2 x (hs.keyed _ _ hx).2
   (some.inj hzc).symm
 have hyle:=hy.height_le hg
 obtain⟨w,hw,hwn,hwc⟩:=hi.below y.number (by omega)
 obtain rfl:w=y:=hw.unique hg (hy.trans hz) hwn
 exact hwc

end Tree

section Reads

variable {hash:Header→Hash} {U:Set Header} {genesis:Header}

lemma getTd_eq(hc:HeaderChain)(h:hc.chain.tdCache.Agrees hc.chain.chainDb.tds)(k:Hash):
 ∃c:Cache Hash ℕ,c.Agrees hc.chain.chainDb.tds∧
  hc.getTd k=(hc.chain.chainDb.tds k,{hc with chain:={hc.chain with tdCache:=c}}):=by
 obtain⟨c,hagrees,hget⟩:=BlockChainInvariants.getTd_spec hc.chain h k
 refine⟨c,hagrees,?_⟩
 rw[HeaderChain.getTd,hget]

/-- A read through the header cache is a read of the database. -/
lemma getHeader_of_keyed(hc:HeaderChain)(hs:∀k h,hc.chain.chainDb.headers k=some h→hash h=k)
 (h:hc.headerCache.Agrees hc.chain.chainDb.headers)(k:Hash):
 ∃c:Cache Hash Header,c.Agrees hc.chain.chainDb.headers∧
  hc.getHeader hash k=(hc.chain.chainDb.headers k,{hc with headerCache:=c}):=by
 have hget:=h.get k
 have hfst:=Cache.get_fst hc.headerCache k
 unfold HeaderChain.getHeader
 split
 ·rename_i header cache hcache
  rw[hcache]at hget hfst
  exact⟨cache,hget,by rw[h.peek_eq hfst.symm]⟩
 rename_i cache hcache
 rw[hcache]at hget
 split
 ·rename_i hnone
  exact⟨cache,hget,by rw[hnone]⟩
 rename_i header hsome
 have hkey:hc.chain.chainDb.headers (hash header)=some header:=by
  rw[hs k header hsome]
  exact hsome
 exact⟨cache.add (hash header) header,hget.add hkey,by rw[hsome]⟩

lemma getHeader_eq(hc:HeaderChain)(hs:HeadersOk hash U genesis hc.chain.chainDb.headers hc.chain.chainDb.tds)
 (h:hc.headerCache.Agrees hc.chain.chainDb.headers)(k:Hash):
 ∃c:Cache Hash Header,c.Agrees hc.chain.chainDb.headers∧
  hc.getHeader hash k=(hc.chain.chainDb.headers k,{hc with headerCache:=c}):=
 getHeader_of_keyed hc (fun k h hk=>(hs.keyed k h hk).1) h k

end Reads

section Index

variable {hash:Header→Hash} {U:Set Header} {genesis:Header}

def reindex (db:ChainDb) (canonical:ℕ→Option Hash):ChainDb:={db with canonical:=canonical}

lemma getCanonicalHash_ne_zero(h:db.canonical n=some k)(hk:k≠0):db.getCanonicalHash n≠0:=by
 rw[ChainDb.getCanonicalHash,h]
 exact hk

lemma getCanonicalHash_eq_zero(h:db.canonical n=none):db.getCanonicalHash n=0:=by
 rw[ChainDb.getCanonicalHash,h]
 rfl

/-- Where the index has no gap up to `m` and nothing above, the first loop clears it from `i`
on. -/
lemma deleteAbove_eq(hbelow:∀n,i≤n→n ≤ m→∃k,db.canonical n=some k∧k≠0)
 (habove:∀n,i≤n→m<n→db.canonical n=none)(hfuel:m+1 < i+fuel)(hpos:0<fuel):
 db.deleteAbove fuel i=some (reindex db fun n=>if n < i then db.canonical n else none):=by
 induction fuel generalizing db i with
 | zero=>omega
 | succ fuel ih=>
  rw[ChainDb.deleteAbove]
  rcases Nat.lt_or_ge m i with hlt|hge
  ·rw[if_neg (not_not.2 (getCanonicalHash_eq_zero (habove i le_rfl hlt)))]
   have hsame:(fun n=>if n < i then db.canonical n else none)=db.canonical:=by
    funext n
    split
    ·rfl
    rename_i hn
    exact (habove n (by omega) (by omega)).symm
   rw[hsame]
   rfl
  obtain⟨k,hk,hne⟩:=hbelow i le_rfl hge
  have hother:∀n,i+1≤n→(db.deleteCanonicalHash i).canonical n=db.canonical n:=by
   intro n hn
   exact update_of_ne (by omega) _ _
  rw[if_pos (getCanonicalHash_ne_zero hk hne),ih (i:=i+1)]
  ·congr 1
   rw[reindex,reindex,ChainDb.deleteCanonicalHash]
   congr 1
   funext n
   rcases lt_trichotomy n i with h|h|h
   ·rw[if_pos (by omega),if_pos h]
    exact update_of_ne (by omega) _ _
   ·rw[if_pos (by omega),if_neg (by omega),h]
    exact update_self _ _ _
   rw[if_neg (by omega),if_neg (by omega)]
  ·intro n hn hnm
   obtain⟨k',hk',hne'⟩:=hbelow n (by omega) hnm
   exact⟨k',by rw[hother n hn,hk'],hne'⟩
  ·intro n hn hnm
   rw[hother n hn]
   exact habove n (by omega) hnm
  ·omega
  omega

lemma getCanonicalHash_ne_iff(hx:hash x≠0):
 db.getCanonicalHash x.number≠hash x↔db.canonical x.number≠some (hash x):=by
 rw[ChainDb.getCanonicalHash]
 cases db.canonical x.number with
 | none=>simpa using hx.symm
 | some k=>simp

/-- Below a right entry all entries are right, so the second loop may stop at the first. -/
lemma overwriteStale_eq(hU:NoCollision hash U)(hc:HeaderChain)
 (hs:HeadersOk hash U genesis hc.chain.chainDb.headers hc.chain.chainDb.tds)
 (hcache:hc.headerCache.Agrees hc.chain.chainDb.headers){head:Header}
 (hhead:hc.chain.chainDb.headers (hash head)=some head){fuel:ℕ}
 (hfuel:head.number<fuel)
 (hroot:hc.chain.chainDb.canonical 0=some (hash genesis))
 (hclosed:∀x y,hc.chain.chainDb.headers (hash x)=some x→x.number≤head.number →
  hc.chain.chainDb.canonical x.number=some (hash x) →
  Ancestor (ParentHeader hash hc.chain.chainDb.headers) y x →
  hc.chain.chainDb.canonical y.number=some (hash y)):
 ∃c idx,Cache.Agrees c hc.chain.chainDb.headers∧hc.overwriteStale hash fuel head =
   some {(hc.withDb (reindex hc.chain.chainDb idx)) with headerCache:=c}∧
  (∀y,Ancestor (ParentHeader hash hc.chain.chainDb.headers) y head→idx y.number=some (hash y))∧
  ∀n,head.number<n→idx n=hc.chain.chainDb.canonical n:=by
 have hg:=gradedHeaders hU hs
 have hne:=hU.nonzero head (hs.keyed _ _ hhead).2
 induction fuel generalizing hc head with
 | zero=>omega
 | succ fuel ih=>
  rw[HeaderChain.overwriteStale]
  by_cases hright:hc.chain.chainDb.canonical head.number=some (hash head)
  ·rw[if_neg ((getCanonicalHash_ne_iff hne).not.2 (not_not.2 hright))]
   exact⟨hc.headerCache,hc.chain.chainDb.canonical,hcache,rfl,
    fun y hy=>hclosed head y hhead le_rfl hright hy,fun _ _=>rfl⟩
  rw[if_pos ((getCanonicalHash_ne_iff hne).2 hright)]
  have hparent:∃p,ParentHeader hash hc.chain.chainDb.headers p head:=by
   rcases hs.linked head hhead with rfl|hp
   ·rw[hs.genesis_number]at hright
    exact absurd hroot hright
   exact hp
  obtain⟨p,hp⟩:=hparent
  let hc':=hc.withDb (hc.chain.chainDb.writeCanonicalHash (hash head) head.number)
  obtain⟨c,hagrees,hget⟩:=getHeader_eq hc' hs hcache head.parentHash
  have hfound:hc'.chain.chainDb.headers head.parentHash=some p:=by
   rw[←hp.2.1]
   exact hp.1
  rw[hfound]at hget
  have hnum:=hp.2.2
  have hother:∀n,n≠head.number→hc'.chain.chainDb.canonical n=hc.chain.chainDb.canonical n:=
   fun n hn=>update_of_ne hn _ _
  have hclosed':∀x y,hc'.chain.chainDb.headers (hash x)=some x→x.number≤p.number →
   hc'.chain.chainDb.canonical x.number=some (hash x) →
   Ancestor (ParentHeader hash hc'.chain.chainDb.headers) y x →
   hc'.chain.chainDb.canonical y.number=some (hash y):=by
   intro x y hx hxn hxr hy
   have hyle:=hy.height_le hg
   rw[hother x.number (by omega)]at hxr
   rw[hother y.number (by omega)]
   exact hclosed x y hx (by omega) hxr hy
  have hroot':hc'.chain.chainDb.canonical 0=some (hash genesis):=(hother 0 (by omega)).trans hroot
  obtain⟨c',idx,hagrees',hrun,hall,hkeep⟩:=ih {hc' with headerCache:=c} hs hagrees
   hp.1 (by omega) hroot' hclosed' hg (hU.nonzero p (hs.keyed _ _ hp.1).2)
  refine⟨c',idx,hagrees',?_,fun y hy=>?_,fun n hn=>?_⟩
  ·dsimp only
   rw[hget]
   exact hrun
  ·rcases eq_or_ne y head with rfl|hyne
   ·rw[hkeep y.number (by omega)]
    exact update_self _ _ _
   exact hall y (hy.of_parent hg hp hyne)
  rw[hkeep n (by omega)]
  exact hother n (by omega)

end Index

section Calls

variable (hash:Header→Hash) (U:Set Header)

structure HeaderChainOk (hc:HeaderChain):Prop where
 store:HeadersOk hash U hc.chain.genesisBlock.header hc.chain.chainDb.headers hc.chain.chainDb.tds
 tdCache:hc.chain.tdCache.Agrees hc.chain.chainDb.tds
 headerCache:hc.headerCache.Agrees hc.chain.chainDb.headers
 head_stored:hc.chain.chainDb.headers (hash hc.chain.currentHeader) = some hc.chain.currentHeader
 index:IndexFollows hash hc.chain.chainDb.headers hc.chain.chainDb.canonical
  hc.chain.currentHeader

structure HeaderStored (h:Header) (td:ℕ) (hc hc':HeaderChain):Prop where
 headers:hc'.chain.chainDb.headers=update hc.chain.chainDb.headers (hash h) (some h)
 tds:hc'.chain.chainDb.tds=update hc.chain.chainDb.tds (hash h) (some td)
 genesisBlock:hc'.chain.genesisBlock=hc.chain.genesisBlock
 tdCache:hc'.chain.tdCache.Agrees hc.chain.chainDb.tds
 headerCache:hc'.headerCache.Agrees hc.chain.chainDb.headers

structure HeadKept (hc hc':HeaderChain):Prop where
 currentHeader:hc'.chain.currentHeader=hc.chain.currentHeader
 canonical:hc'.chain.chainDb.canonical=hc.chain.chainDb.canonical

structure HeadReplaced (h:Header) (hc hc':HeaderChain):Prop where
 currentHeader:hc'.chain.currentHeader=h
 headHeader:hc'.chain.chainDb.headHeader=some (hash h)
 assigned:∀y,Ancestor (ParentHeader hash hc.chain.chainDb.headers) y h →
  hc'.chain.chainDb.canonical y.number=some (hash y)
 above:∀n,h.number<n→hc'.chain.chainDb.canonical n=none

variable {hash U} {hc hc':HeaderChain} {h p:Header} {td:ℕ}

/-- The branch for a heavier header, before the header is stored. -/
lemma makeCanonical_eq(hU:NoCollision hash U)(hok:HeaderChainOk hash U hc)
 (hp:ParentHeader hash hc.chain.chainDb.headers p h):
 ∃c db,Cache.Agrees c hc.chain.chainDb.headers∧
  hc.makeCanonical hash h=some ⟨{hc.chain with chainDb:=db,currentHeader:=h},c⟩∧
  db.headers=hc.chain.chainDb.headers∧db.tds=hc.chain.chainDb.tds∧
  db.headHeader=some (hash h)∧
  (∀y,Ancestor (ParentHeader hash hc.chain.chainDb.headers) y h→db.canonical y.number=some (hash y))∧
  ∀n,h.number<n→db.canonical n=none:=by
 have hg:=gradedHeaders hU hok.store
 have hcur:=hok.head_stored
 have hnum:=hp.2.2
 have hnonzero:∀x,Ancestor (ParentHeader hash hc.chain.chainDb.headers) x
  hc.chain.currentHeader→hash x≠0:=fun x hx=>
  hU.nonzero x (hok.store.keyed _ _ (stored_of_ancestor hx hcur)).2
 let cleared:ℕ→Option Hash:=fun n=>
  if n<h.number+1 then hc.chain.chainDb.canonical n else none
 have hdel:hc.chain.chainDb.deleteAbove (hc.chain.currentHeader.number+h.number+2)
  (h.number+1)=some (reindex hc.chain.chainDb cleared):=by
  refine deleteAbove_eq (fun n _ hn=>?_) (fun n _ hn=>hok.index.above n hn) (by omega)
   (by omega)
  obtain⟨x,hx,-,hcan⟩:=hok.index.below n hn
  exact⟨hash x,hcan,hnonzero x hx⟩
 have hkept:∀n,n≤h.number→cleared n=hc.chain.chainDb.canonical n:=fun n hn=>if_pos (by omega)
 let hc1:=hc.withDb (reindex hc.chain.chainDb cleared)
 obtain⟨c₁,hc₁',hget⟩:=getHeader_eq hc1 hok.store hok.headerCache h.parentHash
 have hfound:hc1.chain.chainDb.headers h.parentHash=some p:=by
  rw[←hp.2.1]
  exact hp.1
 rw[hfound]at hget
 have hroot:cleared 0=some (hash hc.chain.genesisBlock.header):=by
  obtain⟨x,hx,hxn,hcan⟩:=hok.index.below 0 (Nat.zero_le _)
  rw[hkept 0 (Nat.zero_le _),hcan]
  rw[hx.unique hg (hok.store.rooted hcur) (hxn.trans hok.store.genesis_number.symm)]
 have hclosed:∀x y,hc.chain.chainDb.headers (hash x)=some x→x.number≤p.number →
  cleared x.number=some (hash x) →
  Ancestor (ParentHeader hash hc.chain.chainDb.headers) y x →
  cleared y.number=some (hash y):=by
  intro x y hx hxn hxr hy
  have hyle:=hy.height_le hg
  rw[hkept _ (by omega)]at hxr ⊢
  exact hok.index.closed hU hok.store hcur hx hxr hy
 obtain⟨c,idx,hagrees,hover,hassigned,habove⟩:=
  overwriteStale_eq hU {hc1 with headerCache:=c₁} hok.store hc₁' hp.1
   (show p.number<hc.chain.currentHeader.number+h.number+2 by omega) hroot hclosed
 refine⟨c,((reindex hc.chain.chainDb idx).writeCanonicalHash (hash h) h.number
  ).writeHeadHeaderHash (hash h),hagrees,?_,rfl,rfl,rfl,fun y hy=>?_,fun n hn=>?_⟩
 ·rw[HeaderChain.makeCanonical,hdel]
  dsimp only
  rw[hget]
  dsimp only
  rw[hover]
  rfl
 ·rcases eq_or_ne y h with rfl|hne
  ·exact update_self _ _ _
  have hyp:=hy.of_parent hg hp hne
  have hyle:=hyp.height_le hg
  exact (update_of_ne (by omega) _ _).trans (hassigned y hyp)
 refine (update_of_ne (by omega) _ _).trans ((habove n (by omega)).trans ?_)
 exact if_neg (by omega)

/-- Both total difficulties are read from the cache or the database. -/
lemma writeHeader_eq(hok:HeaderChainOk hash U hc)(hptd:hc.chain.chainDb.tds h.parentHash=some ptd)
 (hhead:hc.chain.chainDb.tds (hash hc.chain.currentHeader)=some headTd):
 ∃c:Cache Hash ℕ,c.Agrees hc.chain.chainDb.tds∧hc.writeHeader hash h=if h.difficulty+ptd>headTd then
   match HeaderChain.makeCanonical hash
    {hc with chain:={hc.chain with tdCache:=c}} h with
   | none=>none
   | some hc=>some (hc.storeHeader hash h (h.difficulty+ptd),none)
  else some (HeaderChain.storeHeader hash
   {hc with chain:={hc.chain with tdCache:=c}} h (h.difficulty+ptd),none):=by
 obtain⟨c₁,hc1,hget1⟩:=getTd_eq hc hok.tdCache h.parentHash
 rw[hptd]at hget1
 let hc0:HeaderChain:={hc with chain:={hc.chain with tdCache:=c₁}}
 obtain⟨c₂,hc2,hget2⟩:=getTd_eq hc0 hc1 (hash hc.chain.currentHeader)
 rw[show hc0.chain.chainDb.tds (hash hc.chain.currentHeader)=some headTd from hhead]at hget2
 refine⟨c₂,hc2,?_⟩
 rw[HeaderChain.writeHeader,hget1]
 dsimp only
 rewrite [hget2]
 rfl

lemma writeHeader_cases(hU:NoCollision hash U)(hok:HeaderChainOk hash U hc)
 (hp:ParentHeader hash hc.chain.chainDb.headers p h):
 ∃td headTd hc',PathTd hash hc.chain.chainDb.headers hc.chain.genesisBlock.header h td∧
  hc.chain.chainDb.tds (hash hc.chain.currentHeader)=some headTd∧
  hc.writeHeader hash h=some (hc',none)∧HeaderStored hash h td hc hc'∧
  ((td≤headTd∧HeadKept hc hc')∨(headTd<td∧HeadReplaced hash h hc hc')):=by
 obtain⟨ptd,hptd,hpath⟩:=hok.store.difficulty p hp.1
 obtain⟨headTd,hhead,-⟩:=hok.store.difficulty _ hok.head_stored
 rw[hp.2.1]at hptd
 obtain⟨c₂,hc2,hstart⟩:=writeHeader_eq hok hptd hhead
 have hok':HeaderChainOk hash U {hc with chain:={hc.chain with tdCache:=c₂}}:=
  ⟨hok.store,hc2,hok.headerCache,hok.head_stored,hok.index⟩
 rcases Nat.lt_or_ge headTd (h.difficulty+ptd) with hlt|hge
 ·obtain⟨c,db,hagrees,hmake,hheaders,htds,hhh,hassigned,habove⟩:=makeCanonical_eq hU hok' hp
  rw[if_pos hlt,hmake]at hstart
  refine⟨_,headTd,_,.child hp hpath,hhead,hstart,⟨?_,?_,rfl,hc2,hagrees⟩,
   .inr ⟨hlt,rfl,hhh,hassigned,habove⟩⟩
  ·exact congrArg (update · (hash h) (some h)) hheaders
  exact congrArg (update · (hash h) (some (h.difficulty+ptd))) htds
 rw[if_neg (by omega)]at hstart
 exact⟨_,headTd,_,.child hp hpath,hhead,hstart,⟨rfl,rfl,rfl,hc2,hok.headerCache⟩,.inl ⟨hge,rfl,rfl⟩⟩

variable (hU:NoCollision hash U) (hok:HeaderChainOk hash U hc) (hh:h∈U)

include hU hok hh

lemma headers_mono(hst:HeaderStored hash h td hc hc')
 (hx:hc.chain.chainDb.headers k=some x):hc'.chain.chainDb.headers k=some x:=by
 rw[hst.headers,update_apply]
 split
 ·rename_i hk
  obtain⟨hkey,hxU⟩:=hok.store.keyed k x hx
  rw[hU.inj h hh x hxU (hk.symm.trans hkey.symm)]
 exact hx

lemma parent_mono(hst:HeaderStored hash h td hc hc')
 (hxy:ParentHeader hash hc.chain.chainDb.headers x y):
 ParentHeader hash hc'.chain.chainDb.headers x y:=
 ⟨headers_mono hU hok hh hst hxy.1,hxy.2⟩

lemma pathTd_mono(hst:HeaderStored hash h td hc hc')
 (hx:PathTd hash hc.chain.chainDb.headers genesis x n):
 PathTd hash hc'.chain.chainDb.headers genesis x n:=by
 induction hx with
 | genesis=>exact .genesis
 | child hp _ ih=>exact .child (parent_mono hU hok hh hst hp) ih

lemma tds_mono(hpath:PathTd hash hc.chain.chainDb.headers hc.chain.genesisBlock.header h td)
 (hst:HeaderStored hash h td hc hc')
 (hn:hc.chain.chainDb.tds k=some n):hc'.chain.chainDb.tds k=some n:=by
 rw[hst.tds,update_apply]
 split
 ·rename_i hk
  obtain⟨x,hx⟩:=hok.store.tds_stored k n hn
  obtain⟨hkey,hxU⟩:=hok.store.keyed k x hx
  obtain rfl:=hU.inj h hh x hxU (hk.symm.trans hkey.symm)
  rw[hk]at hx hn
  obtain⟨m,hm,hpath'⟩:=hok.store.difficulty h hx
  rw[hn]at hm
  rw[hpath.unique hU hok.store hpath',some.inj hm]
 exact hn

lemma indexFollows_of_kept(hst:HeaderStored hash h td hc hc')(hkept:HeadKept hc hc'):
 IndexFollows hash hc'.chain.chainDb.headers hc'.chain.chainDb.canonical
  hc'.chain.currentHeader:=by
 rw[hkept.currentHeader,hkept.canonical]
 refine⟨fun n hn=>?_,hok.index.above⟩
 obtain⟨x,hx,hxn,hcan⟩:=hok.index.below n hn
 exact⟨x,hx.mono fun _ _=>parent_mono hU hok hh hst,hxn,hcan⟩

lemma indexFollows_of_replaced(hp:ParentHeader hash hc.chain.chainDb.headers p h)
 (hst:HeaderStored hash h td hc hc')(hnew:HeadReplaced hash h hc hc'):
 IndexFollows hash hc'.chain.chainDb.headers hc'.chain.chainDb.canonical
  hc'.chain.currentHeader:=by
 rw[hnew.currentHeader]
 refine⟨fun n hn=>?_,hnew.above⟩
 have hg:=gradedHeaders hU hok.store
 have hanc:=(hok.store.rooted hp.1).trans (.parent hp)
 obtain⟨x,hx,hxn⟩:=hanc.exists_height hg (by rw[hok.store.genesis_number];omega) hn
 exact⟨x,hx.mono fun _ _=>parent_mono hU hok hh hst,hxn,hxn▸hnew.assigned x hx⟩

variable (hp:ParentHeader hash hc.chain.chainDb.headers p h)
 (hpath:PathTd hash hc.chain.chainDb.headers hc.chain.genesisBlock.header h td)
 (hst:HeaderStored hash h td hc hc')

include hp hpath hst

lemma headersOk_of_stored:HeadersOk hash U hc'.chain.genesisBlock.header hc'.chain.chainDb.headers
  hc'.chain.chainDb.tds:=by
 have hsplit:∀k x,hc'.chain.chainDb.headers k=some x →
  (k=hash h∧x=h)∨hc.chain.chainDb.headers k=some x:=by
  intro k x hx
  rw[hst.headers,update_apply]at hx
  split at hx
  ·rename_i hk
   exact .inl ⟨hk,(some.inj hx).symm⟩
  exact .inr hx
 rw[hst.genesisBlock]
 refine⟨fun k x hx=>?_,headers_mono hU hok hh hst hok.store.genesis_stored,
  hok.store.genesis_number,fun x hx=>?_,fun x hx=>?_,fun k n hn=>?_⟩
 ·rcases hsplit k x hx with⟨rfl,rfl⟩|hx
  ·exact⟨rfl,hh⟩
  exact hok.store.keyed k x hx
 ·rcases hsplit _ x hx with⟨-,rfl⟩|hx
  ·exact .inr ⟨p,parent_mono hU hok hh hst hp⟩
  rcases hok.store.linked x hx with hg|⟨q,hq⟩
  ·exact .inl hg
  exact .inr ⟨q,parent_mono hU hok hh hst hq⟩
 ·rcases hsplit _ x hx with⟨-,rfl⟩|hx
  ·exact⟨td,by rw[hst.tds,update_self],pathTd_mono hU hok hh hst hpath⟩
  obtain⟨n,hn,hpath'⟩:=hok.store.difficulty x hx
  exact⟨n,tds_mono hU hok hh hpath hst hn,pathTd_mono hU hok hh hst hpath'⟩
 rw[hst.tds,update_apply]at hn
 split at hn
 ·rename_i hk
  exact⟨h,by rw[hst.headers,hk,update_self]⟩
 obtain⟨x,hx⟩:=hok.store.tds_stored k n hn
 exact⟨x,headers_mono hU hok hh hst hx⟩

lemma headerChainOk_of_write(hhead:HeadKept hc hc'∨HeadReplaced hash h hc hc'):HeaderChainOk hash U hc' where
 store:=headersOk_of_stored hU hok hh hp hpath hst
 tdCache:=hst.tdCache.mono fun _ _=>tds_mono hU hok hh hpath hst
 headerCache:=hst.headerCache.mono fun _ _=>headers_mono hU hok hh hst
 head_stored:=by
  rcases hhead with hkept|hnew
  ·rw[hkept.currentHeader]
   exact headers_mono hU hok hh hst hok.head_stored
  rw[hnew.currentHeader,hst.headers,update_self]
 index:=by
  rcases hhead with hkept|hnew
  ·exact indexFollows_of_kept hU hok hh hst hkept
  exact indexFollows_of_replaced hU hok hh hp hst hnew

end Calls

section Runs

variable (hash:Header→Hash) (U:Set Header)

inductive HeaderRun (start:HeaderChain):List Header→HeaderChain→Prop
 | nil:HeaderRun start [] start
 | write {hs:List Header} {hc hc':HeaderChain} {h:Header} {err:Option ChainError}
  (before:HeaderRun start hs hc) (hh:h∈U)
  (hp:∃p,ParentHeader hash hc.chain.chainDb.headers p h)
  (hr:hc.writeHeader hash h=some (hc',err)):HeaderRun start (hs++[h]) hc'

variable {hash U} {genesis:Block} {hc:HeaderChain} {hs:List Header}

def weight (hash:Header→Hash) (hc:HeaderChain) (x:Header):Option ℕ:=hc.chain.chainDb.tds (hash x)

structure RunOk (hash:Header→Hash) (U:Set Header) (written:List Header)
 (hc:HeaderChain):Prop where
 ok:HeaderChainOk hash U hc
 stored:∀x∈written,hc.chain.chainDb.headers (hash x)=some x
 head:FirstHeaviest (weight hash hc) hc.chain.currentHeader written

lemma headers_newHeaderChain:(newHeaderChain hash genesis).chain.chainDb.headers =
 update (fun _=>none) (hash genesis.header) (some genesis.header):=rfl

lemma tds_newHeaderChain:(newHeaderChain hash genesis).chain.chainDb.tds =
 update (fun _=>none) (hash genesis.header) (some genesis.difficulty):=rfl

lemma canonical_newHeaderChain:(newHeaderChain hash genesis).chain.chainDb.canonical =
 update (fun _=>none) genesis.number (some (hash genesis.header)):=rfl

lemma headerChainOk_newHeaderChain(hg:genesis.header∈U)(h0:genesis.number=0):
 HeaderChainOk hash U (newHeaderChain hash genesis):=by
 have honly:∀k x,(newHeaderChain hash genesis).chain.chainDb.headers k=some x →
  k=hash genesis.header∧x=genesis.header:=by
  intro k x hx
  rw[headers_newHeaderChain,update_apply]at hx
  split at hx
  ·rename_i hk
   exact⟨hk,(some.inj hx).symm⟩
  cases hx
 have hroot:(newHeaderChain hash genesis).chain.chainDb.headers (hash genesis.header) =
  some genesis.header:=update_self _ _ _
 refine⟨⟨fun k x hx=>?_,hroot,h0,fun x hx=>.inl (honly _ x hx).2,fun x hx=>?_,
  fun k n hn=>?_⟩,Cache.agrees_new _ _,Cache.agrees_new _ _,hroot,fun n hn=>?_,
  fun n hn=>?_⟩
 ·obtain⟨rfl,rfl⟩:=honly k x hx
  exact⟨rfl,hg⟩
 ·obtain⟨-,rfl⟩:=honly _ x hx
  exact⟨_,update_self _ _ _,.genesis⟩
 ·rw[tds_newHeaderChain,update_apply]at hn
  split at hn
  ·rename_i hk
   exact⟨_,hk▸hroot⟩
  cases hn
 ·replace hn:n≤genesis.number:=hn
  obtain rfl:n=genesis.number:=by omega
  exact⟨genesis.header,.refl _,rfl,update_self _ _ _⟩
 replace hn:genesis.number<n:=hn
 rw[canonical_newHeaderChain,update_of_ne (by omega)]

lemma runOk_newHeaderChain(hg:genesis.header∈U)(h0:genesis.number=0):
 RunOk hash U [genesis.header] (newHeaderChain hash genesis):=by
 have hok:HeaderChainOk hash U (newHeaderChain hash genesis):=headerChainOk_newHeaderChain hg h0
 refine⟨hok,fun x hx=>?_,firstHeaviest_singleton _ _⟩
 rw[mem_singleton.1 hx]
 exact hok.head_stored

lemma RunOk.write(hU:NoCollision hash U){written:List Header}{hc hc':HeaderChain}
 (h:RunOk hash U written hc){p:Header}{err:Option ChainError}(hx:x∈U)
 (hp:ParentHeader hash hc.chain.chainDb.headers p x)
 (hr:hc.writeHeader hash x=some (hc',err)):RunOk hash U (written++[x]) hc':=by
 obtain⟨td,headTd,hc'',hpath,hhead,hr',hst,hcases⟩:=writeHeader_cases hU h.ok hp
 obtain⟨rfl,-⟩:hc''=hc'∧none=err:=by simpa[hr]using hr'.symm
 have hself:weight hash hc'' x=some td:=by
  rw[weight,hst.tds,update_self]
 have hsame:∀y∈written,weight hash hc'' y=weight hash hc y:=by
  intro y hy
  obtain⟨n,hn,-⟩:=h.ok.store.difficulty y (h.stored y hy)
  rw[weight,weight,tds_mono hU h.ok hx hpath hst hn,hn]
 refine⟨headerChainOk_of_write hU h.ok hx hp hpath hst (hcases.imp And.right And.right),fun y hy=>?_,?_⟩
 ·rcases mem_append.1 hy with hy|hy
  ·exact headers_mono hU h.ok hx hst (h.stored y hy)
  rw[mem_singleton.1 hy,hst.headers,update_self]
 rcases hcases with⟨hle,hkept⟩|⟨hlt,hnew⟩
 ·rw[hkept.currentHeader]
  refine h.head.keep hsame hself fun m hm=>?_
  rw[weight,hhead]at hm
  cases hm
  exact hle
 rw[hnew.currentHeader]
 exact h.head.replace hsame hself hhead hlt

section

variable (hU:NoCollision hash U) (hg:genesis.header∈U) (h0:genesis.number=0)
 (h:HeaderRun hash U (newHeaderChain hash genesis) hs hc)

include hU hg h0 h

lemma HeaderRun.runOk:RunOk hash U (genesis.header::hs) hc:=by
 induction h with
 | nil=>exact runOk_newHeaderChain hg h0
 | write before hh hp hr ih=>
  obtain⟨p,hp⟩:=hp
  exact ih.write hU hh hp hr

lemma HeaderRun.genesisBlock:hc.chain.genesisBlock=genesis:=by
 induction h with
 | nil=>rfl
 | write before hh hp hr ih=>
  obtain⟨p,hp⟩:=hp
  obtain⟨td,headTd,hc'',-,-,hr',hst,-⟩:=writeHeader_cases hU (before.runOk hU hg h0).ok hp
  rw[hr]at hr'
  obtain⟨rfl,-⟩:=by simpa using hr'
  exact hst.genesisBlock.trans ih

def perform (hash:Header→Hash) (hc:HeaderChain) (h:Header):HeaderChain:=
 match hc.writeHeader hash h with
 | some (hc',_)=>hc'
 | none=>hc

lemma HeaderRun.perform(p:Header)(hx:x∈U)(hp:ParentHeader hash hc.chain.chainDb.headers p x):
 HeaderRun hash U (newHeaderChain hash genesis) (hs++[x])
  (HeaderChainRuns.perform hash hc x):=by
 obtain⟨_,_,hc',_,_,hr,_,_⟩:=writeHeader_cases hU (h.runOk hU hg h0).ok hp
 have he:HeaderChainRuns.perform hash hc x=hc':=by
  simp only[HeaderChainRuns.perform,hr]
 rw[he]
 exact .write h hx ⟨p,hp⟩ hr

end

/-- After every call the index up to the head is the ancestry of the head down to genesis and
nothing is assigned above; the head is the first of the heaviest headers written; and a
further call on a header with a stored parent returns without an error. -/
theorem header_chain_stays_linked (hU : NoCollision hash U) (hg : genesis.header ∈ U)
    (h₀ : genesis.number = 0) (h : HeaderRun hash U (newHeaderChain hash genesis) hs hc) :
    (∀ n ≤ hc.chain.currentHeader.number, ∃ x,
      Ancestor (ParentHeader hash hc.chain.chainDb.headers) genesis.header x ∧
      Ancestor (ParentHeader hash hc.chain.chainDb.headers) x hc.chain.currentHeader ∧
      x.number = n ∧ hc.chain.chainDb.canonical n = some (hash x)) ∧
    (∀ n, hc.chain.currentHeader.number < n → hc.chain.chainDb.canonical n = none) ∧
    (∃ m, hc.chain.chainDb.tds (hash hc.chain.currentHeader) = some m ∧
      hc.chain.currentHeader ∈ genesis.header :: hs ∧
      ∀ x ∈ genesis.header :: hs, ∃ n, PathTd hash hc.chain.chainDb.headers genesis.header x n ∧
        hc.chain.chainDb.tds (hash x) = some n ∧ n ≤ m ∧
        (n = m → (genesis.header :: hs).idxOf hc.chain.currentHeader ≤
          (genesis.header :: hs).idxOf x)) ∧
    ∀ x ∈ U, ∀ p, ParentHeader hash hc.chain.chainDb.headers p x →
      ∃ hc', hc.writeHeader hash x = some (hc', none) := by
 have hrun:=h.runOk hU hg h₀
 have hgen:=h.genesisBlock hU hg h₀
 refine⟨fun n hn=>?_,hrun.ok.index.above,?_,fun x _ p hp=>?_⟩
 · obtain⟨x,hx,hxn,hcan⟩:=hrun.ok.index.below n hn
   have hroot:=hrun.ok.store.rooted (stored_of_ancestor hx hrun.ok.head_stored)
   rw[hgen] at hroot
   exact⟨x,hroot,hx,hxn,hcan⟩
 · obtain⟨m,hm,-⟩:=hrun.ok.store.difficulty _ hrun.ok.head_stored
   refine⟨m,hm,hrun.head.head_mem,fun x hx=>?_⟩
   obtain⟨n,hn,hpath⟩:=hrun.ok.store.difficulty x (hrun.stored x hx)
   rw[hgen] at hpath
   refine⟨n,hpath,hn,hrun.head.heaviest x hx n m hn hm,fun hnm=>?_⟩
   exact hrun.head.first x hx (by rw[weight,weight,hn,hm,hnm])
 obtain⟨_,_,hc',_,_,hr,_,_⟩:=writeHeader_cases hU hrun.ok hp
 exact⟨hc',hr⟩

end Runs

open BlockChainRuns.Sample

def sampleHeaders:Set Header:={h | h∈[root.header,first.header,second.header,rival.header]}

lemma noCollision_sampleHeaders:NoCollision headerHash sampleHeaders where
 inj:=by
  have h:∀a∈[root.header,first.header,second.header,rival.header],
   ∀b∈[root.header,first.header,second.header,rival.header],
    headerHash a=headerHash b→a=b:=by decide +kernel
  exact h
 nonzero:=by
  have h:∀a∈[root.header,first.header,second.header,rival.header],headerHash a≠0:=by decide +kernel
  exact h

lemma root_mem_sampleHeaders:root.header∈sampleHeaders:=by simp[sampleHeaders]

def afterFirst:HeaderChain:=perform headerHash (newHeaderChain headerHash root) first.header
def afterSecond:HeaderChain:=perform headerHash afterFirst second.header
def afterRival:HeaderChain:=perform headerHash afterSecond rival.header

lemma second_headerRun:HeaderRun headerHash sampleHeaders (newHeaderChain headerHash root)
 [first.header,second.header] afterSecond:=by
 have h1:HeaderRun headerHash sampleHeaders (newHeaderChain headerHash root)
  [first.header] afterFirst:=
  HeaderRun.nil.perform noCollision_sampleHeaders root_mem_sampleHeaders rfl root.header
   (by simp[sampleHeaders]) ⟨by decide +kernel,by decide +kernel,rfl⟩
 exact h1.perform noCollision_sampleHeaders root_mem_sampleHeaders rfl first.header
  (by simp[sampleHeaders]) ⟨by decide +kernel,by decide +kernel,rfl⟩

/-- The rival of the first header outweighs both headers of the longer chain. -/
lemma rival_headerRun:HeaderRun headerHash sampleHeaders (newHeaderChain headerHash root)
 [first.header,second.header,rival.header] afterRival:=
 second_headerRun.perform noCollision_sampleHeaders root_mem_sampleHeaders rfl root.header
  (by simp[sampleHeaders]) ⟨by decide +kernel,by decide +kernel,rfl⟩

/-- The longer chain is given up, and number 2 is no longer assigned. -/
theorem header_chain_stays_linked_rival :
    afterSecond.chain.chainDb.canonical 2 = some (headerHash second.header) ∧
    afterRival.chain.currentHeader = rival.header ∧
    afterRival.chain.chainDb.canonical 2 = none := by
 have h:=header_chain_stays_linked noCollision_sampleHeaders root_mem_sampleHeaders rfl
  rival_headerRun
 have hhead:afterRival.chain.currentHeader=rival.header:=by decide +kernel
 refine⟨by decide +kernel,hhead,h.2.1 2 ?_⟩
 rw[hhead]
 decide

end GoCoupe.HeaderChainRuns
