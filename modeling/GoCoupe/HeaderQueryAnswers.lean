import GoCoupe.HeaderQueries
import Mathlib.Tactic.Ring

/-!
# What header queries are answered with

When index and headers of a state are a canonical chain, all reads of the query loop have
definite answers, and the reply is compared with the walk over the unbounded integers.
-/

namespace GoCoupe.HeaderQueryAnswers
open BlockChainModel HeaderChainRuns HeaderQueries List Function Nat

/-- The canonical chain of the state: the headers `chain 0, …, chain head`. -/
structure Serves (hash:Header→Hash) (chain:ℕ→Header) (head:ℕ) (hc:HeaderChain) :
 Prop where
 keyed:∀k h,hc.chain.chainDb.headers k=some h→hash h=k
 cache:hc.headerCache.Agrees hc.chain.chainDb.headers
 stored:∀i≤head,hc.chain.chainDb.headers (hash (chain i))=some (chain i)
 nonzero:∀i≤head,hash (chain i)≠0
 number:∀i≤head,(chain i).number=i
 linked:∀i<head,(chain (i+1)).parentHash=hash (chain i)
 bottom:hc.chain.chainDb.headers (chain 0).parentHash=none
 indexed:∀i≤head,hc.chain.chainDb.canonical i=some (hash (chain i))
 above:∀i,head < i→hc.chain.chainDb.canonical i=none
 numbers:head<2^64

def InChain (head:ℕ) (n:ℤ):Prop:=0≤n ∧ n≤head

instance decidableInChain (head:ℕ) (n:ℤ):Decidable (InChain head n):=
 inferInstanceAs (Decidable (_ ∧ _))

/-- The headers at the numbers `n`, `n + d`, `n + 2 * d`, …, up to the first number outside the
chain and at most `count` of them. -/
def walk (chain:ℕ→Header) (head:ℕ) (n d:ℤ) (count:ℕ):List Header:=
 (((range count).map (fun k:ℕ=>n+k*d)).takeWhile (InChain head ·)).map
  (chain ·.toNat)

variable (hash:Header→Hash) (chain:ℕ→Header) (head:ℕ) {α β:Type}

/-- From every state that serves the chain the program gives `v` and leaves such a state. -/
def Answers (m:Reading α) (v:Option α):Prop:=
 ∀hc,Serves hash chain head hc→∃hc',Serves hash chain head hc' ∧ m hc=v.map (fun a=>(a,hc'))

variable {hash chain head}

lemma Answers.fst(hv:Answers hash chain head m v)(hs:Serves hash chain head hc):
 (m hc).map Prod.fst=v:=by
 obtain⟨hc',-,hm⟩:=hv hc hs
 rw[hm]
 cases v with
 | none=>rfl
 | some a=>rfl

lemma Answers.bind{m:Reading α}{f:α→Reading β}{a:α}{v:Option β}
 (hm:Answers hash chain head m (some a))(hf:Answers hash chain head (f a) v):
 Answers hash chain head (m>>=f) v:=by
 intro hc hs
 obtain⟨hc1,hs1,h1⟩:=hm hc hs
 obtain⟨hc2,hs2,h2⟩:=hf hc1 hs1
 refine⟨hc2,hs2,?_⟩
 simp only[Option.map_some]at h1
 change (m hc).bind (fun p=>f p.1 p.2)=_
 rw[h1]
 exact h2

lemma answers_getHeader(h:∀hc,Serves hash chain head hc→hc.chain.chainDb.headers k=v):
 Answers hash chain head (getHeader hash k) (some v):=by
 intro hc hs
 obtain⟨c,hc',heq⟩:=getHeader_of_keyed hc hs.keyed hs.cache k
 refine⟨{hc with headerCache:=c},{hs with cache:=hc'},?_⟩
 rw[getHeader,heq,h hc hs]
 rfl

lemma answers_stored(hi:i≤head):
 Answers hash chain head (getHeader hash (hash (chain i))) (some (some (chain i))):=
 answers_getHeader (fun _ hs=>hs.stored i hi)

lemma answers_bottom:Answers hash chain head (getHeader hash (chain 0).parentHash) (some none):=
 answers_getHeader (fun _ hs=>hs.bottom)

lemma answers_byNumber_inside(h:n.toNat≤head):
 Answers hash chain head (getHeaderByNumber hash n) (some (some (chain n.toNat))):=by
 intro hc hs
 have hcan:hc.chain.chainDb.getCanonicalHash n.toNat=hash (chain n.toNat):=by
  rw[ChainDb.getCanonicalHash,hs.indexed _ h]
  rfl
 have hread:getHeaderByNumber hash n hc=getHeader hash (hash (chain n.toNat)) hc:=by
  change (if hc.chain.chainDb.getCanonicalHash n.toNat=0 then _ else _:Reading _) hc=_
  rw[hcan,if_neg (hs.nonzero _ h)]
 rw[hread]
 exact answers_stored h hc hs

lemma answers_byNumber_outside(h:head<n.toNat):
 Answers hash chain head (getHeaderByNumber hash n) (some none):=by
 intro hc hs
 have hcan:hc.chain.chainDb.getCanonicalHash n.toNat=0:=by
  rw[ChainDb.getCanonicalHash,hs.above _ h]
  rfl
 refine⟨hc,hs,?_⟩
 change (if hc.chain.chainDb.getCanonicalHash n.toNat=0 then _ else _:Reading _) hc=_
 rw[if_pos hcan]
 rfl

variable (hash:Header→Hash) (chain:ℕ→Header) (head:ℕ)

/-- What the query's origin stands for: a number, the hash of a block of the chain, or the
parent hash of genesis. -/
inductive Cursor (q:GetBlockHeadersData):ℤ→Prop
 | number (h:q.origin.hash=0):Cursor q q.origin.number.toNat
 | block {i:ℕ} (hi:i≤head) (h:q.origin.hash=hash (chain i)) (h0:q.origin.hash≠0)
  (hn:q.origin.number=0):Cursor q i
 | bottom (h:q.origin.hash=(chain 0).parentHash) (h0:q.origin.hash≠0)
  (hr:q.reverse) (hn:q.origin.number=0):Cursor q (-1)

def stride (q:GetBlockHeadersData):ℤ:=
 if q.reverse then -((q.skip.toNat:ℤ)+1) else (q.skip.toNat:ℤ)+1

variable {hash chain head} {q q':GetBlockHeadersData} {n:ℤ}

lemma Cursor.answers(h:Cursor hash chain head q n):Answers hash chain head (getOrigin hash q)
  (some (if InChain head n then some (chain n.toNat) else none)):=by
 cases h with
 | number h=>
  rw[getOrigin,if_neg (not_not.2 h)]
  by_cases hn:q.origin.number.toNat≤head
  ·rw[if_pos ⟨Int.natCast_nonneg _,Int.ofNat_le.2 hn⟩,Int.toNat_natCast]
   exact answers_byNumber_inside hn
  rw[if_neg (fun hin=>hn (Int.ofNat_le.1 hin.2))]
  exact answers_byNumber_outside (Nat.lt_of_not_le hn)
 | @block i hi h h0 _=>
  rw[getOrigin,if_pos h0,h,if_pos ⟨Int.natCast_nonneg _,Int.ofNat_le.2 hi⟩,Int.toNat_natCast]
  exact answers_stored hi
 | bottom h h0 _ _=>
  rw[getOrigin,if_pos h0,h,if_neg (fun hin=>absurd hin.1 (by decide))]
  exact answers_bottom

end GoCoupe.HeaderQueryAnswers
