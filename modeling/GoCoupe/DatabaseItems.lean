import GoCoupe.DatabaseKeys
import GoCoupe.RlpRawSplitting
import Mathlib.Data.Set.Function

/-!
# Items that share a key

For block numbers below `2 ^ 48` only the transactions, trie nodes and codes of one hash share
a key. Writing there is harmless, because the contents are equal; deleting a transaction
removes the code that its encoding happens to be.
-/

namespace GoCoupe.DatabaseItems
open BigEndianBytes RlpEncoding RlpRawSplitting DatabaseKeys List Option Function

section Keys

lemma value_hashBytes(h:Hash):value (hashBytes h)=h.val:=by
 apply value_fixed_of_lt
 calc h.val<2^256:=h.isLt
  _=256^32:=by norm_num

@[simp] lemma length_hashBytes(h:Hash):(hashBytes h).length=32:=fixed_length 32 h

lemma length_shortest_le(h:n<2^48):(shortest n).length≤6:=by
 rw[shortest,fixed_length,width]
 split
 ·omega
 rename_i h0
 have hlog:n.log2<48:=(Nat.log2_lt h0).2 h
 omega

def Small:DbItem→Prop
 | .canonicalHash number=>number.toNat<2^48
 | .mipmapBloom _ bin=>bin.toNat<2^48
 | _=>True

def bareHash:DbItem→Option Hash
 | .transaction h=>some h
 | .trieNode h=>some h
 | .code h=>some h
 | _=>none

lemma natAbs_int64(h:n.toNat<2^48):(int64 n).natAbs=n.toNat:=by
 rw[int64,if_pos (by omega)]
 exact Int.natAbs_natCast _

/-- The items under a bare hash, taken as one. -/
def merged:DbItem→DbItem
 | .trieNode h=>.transaction h
 | .code h=>.transaction h
 | i=>i

def hashAt (k:Bytes) (offset:ℕ):Hash:=Fin.ofNat (2^256) (value ((k.drop offset).take 32))

def numberAt (k:Bytes) (offset:ℕ):UInt64:=UInt64.ofNat (value (k.drop offset))

/-- The length of a key and its first byte tell the kind of the item. -/
def itemOfKey (k:Bytes):DbItem:=if k.length=32 then .transaction (hashAt k 0)
 else if k.length=33 then .txMeta (hashAt k 0)
 else if k.length=45 then .header (hashAt k 6)
 else if k.length=43 then .body (hashAt k 6)
 else if k.length=47 then .blockReceipts (hashAt k 15)
 else if k.length=41 then
  if k.head? = some 0x62 then .td (hashAt k 6) else .receipt (hashAt k 9)
 else if k.head? = some 0x62 then .canonicalHash (numberAt k 10)
 else if k.head? = some 0x6d then .mipmapBloom (numberAt (k.take 25) 17) (numberAt k 25)
 else if k.length=10 then .headHeaderHash
 else if k.length=9 then .headBlockHash
 else .headFastBlockHash

lemma itemOfKey_of_short(h:k.length<32):
 itemOfKey k=if k.head? = some 0x62 then .canonicalHash (numberAt k 10)
  else if k.head? = some 0x6d then .mipmapBloom (numberAt (k.take 25) 17) (numberAt k 25)
  else if k.length=10 then .headHeaderHash
  else if k.length=9 then .headBlockHash
  else .headFastBlockHash:=by
 unfold itemOfKey
 repeat rw[if_neg (by omega:¬k.length=_)]

variable {offset:ℕ} {pre:Bytes} {i:DbItem}

lemma hashAt_append(hpre:pre.length=offset)(h:Hash)(post:Bytes):
 hashAt (pre++hashBytes h++post) offset=h:=by
 rw[hashAt,append_assoc,drop_left' hpre,take_left' (length_hashBytes h),value_hashBytes]
 exact Fin.ofNat_val_eq_self h

lemma hashAt_append_last(hpre:pre.length=offset)(h:Hash):hashAt (pre++hashBytes h) offset=h:=by
 have:=hashAt_append hpre h []
 rwa[append_nil]at this

lemma hashAt_zero(h:Hash)(post:Bytes):hashAt (hashBytes h++post) 0=h:=by
 have:=hashAt_append length_nil h post
 rwa[nil_append]at this

lemma numberAt_append(hpre:pre.length=offset)
 (h:value digits=n.toNat):numberAt (pre++digits) offset=n:=by
 rw[numberAt,drop_left' hpre,h]
 exact UInt64.ofNat_toNat

lemma itemOfKey_canonicalHash(h:number.toNat<2^48):
 itemOfKey (DbItem.canonicalHash number).key=.canonicalHash number:=by
 have hp:blockNumPrefix.length=10:=rfl
 have hlen:(DbItem.canonicalHash number).key.length<32:=by
  have hd:=length_shortest_le h
  rw[DbItem.key,natAbs_int64 h,length_append]
  omega
 have hhead:(DbItem.canonicalHash number).key.head? = some 0x62:=rfl
 rw[itemOfKey_of_short hlen,if_pos hhead,DbItem.key,natAbs_int64 h]
 rw[numberAt_append hp (value_shortest number.toNat)]

lemma itemOfKey_mipmapBloom(h:bin.toNat<2^48):
 itemOfKey (DbItem.mipmapBloom level bin).key=.mipmapBloom level bin:=by
 have hm:mipmapPre.length=17:=rfl
 have hp:(mipmapPre++fixed 8 level.toNat).length=25:=by
  rw[length_append,fixed_length,hm]
 have hassoc:(DbItem.mipmapBloom level bin).key =
  (mipmapPre++fixed 8 level.toNat)++shortest bin.toNat:=(append_assoc ..).symm
 have hlen:(DbItem.mipmapBloom level bin).key.length<32:=by
  have hd:=length_shortest_le h
  rw[hassoc,length_append,hp]
  omega
 have hhead:(DbItem.mipmapBloom level bin).key.head? = some 0x6d:=rfl
 rw[itemOfKey_of_short hlen,hhead,if_neg (by decide),if_pos rfl,hassoc,
  take_left' hp,numberAt_append hp (value_shortest bin.toNat),
  numberAt_append hm (value_fixed_of_lt level.toNat_lt)]

lemma itemOfKey_hashBytes(h:Hash):itemOfKey (hashBytes h)=.transaction h:=by
 have hat:=hashAt_zero h []
 rw[append_nil]at hat
 rw[itemOfKey,if_pos (length_hashBytes h),hat]

lemma itemOfKey_key(hi:Small i):itemOfKey i.key=merged i:=by
 have hblock:blockPrefix.length=6:=rfl
 cases i with
 | canonicalHash number=>exact itemOfKey_canonicalHash hi
 | mipmapBloom level bin=>exact itemOfKey_mipmapBloom hi
 | headHeaderHash=>rfl
 | headBlockHash=>rfl
 | headFastBlockHash=>rfl
 | header hash=>
  have hlen:(DbItem.header hash).key.length=45:=by
   simp[DbItem.key,blockPrefix,headerSuffix,ascii]
  simp only[itemOfKey,hlen]
  exact congrArg DbItem.header (hashAt_append hblock hash headerSuffix)
 | body hash=>
  have hlen:(DbItem.body hash).key.length=43:=by
   simp[DbItem.key,blockPrefix,bodySuffix,ascii]
  simp only[itemOfKey,hlen]
  exact congrArg DbItem.body (hashAt_append hblock hash bodySuffix)
 | td hash=>
  have hlen:(DbItem.td hash).key.length=41:=by
   simp[DbItem.key,blockPrefix,tdSuffix,ascii]
  have hhead:(DbItem.td hash).key.head? = some 0x62:=rfl
  simp only[itemOfKey,hlen,hhead]
  exact congrArg DbItem.td (hashAt_append hblock hash tdSuffix)
 | blockReceipts hash=>
  have hp:blockReceiptsPrefix.length=15:=rfl
  have hlen:(DbItem.blockReceipts hash).key.length=47:=by
   simp[DbItem.key,hp]
  simp only[itemOfKey,hlen]
  exact congrArg DbItem.blockReceipts (hashAt_append_last hp hash)
 | txMeta hash=>
  have hlen:(DbItem.txMeta hash).key.length=33:=by simp[DbItem.key,txMetaSuffix]
  simp only[itemOfKey,hlen]
  exact congrArg DbItem.txMeta (hashAt_zero hash txMetaSuffix)
 | receipt hash=>
  have hp:receiptsPrefix.length=9:=rfl
  have hlen:(DbItem.receipt hash).key.length=41:=by simp[DbItem.key,hp]
  have hhead:(DbItem.receipt hash).key.head? = some 0x72:=rfl
  simp only[itemOfKey,hlen,hhead]
  exact congrArg DbItem.receipt (hashAt_append_last hp hash)
 | transaction hash | trieNode hash | code hash=>exact itemOfKey_hashBytes hash

lemma merged_of_bareHash(hi:bareHash i=some h):merged i=.transaction h:=by
 cases i<;>first
  | exact congrArg DbItem.transaction (some.inj hi)
  | cases hi

lemma merged_of_none(hi:bareHash i=none):merged i=i:=by
 cases i<;>first | rfl | cases hi

/-- Different items have different keys, unless both are kept under one bare hash. -/
lemma key_eq_cases(hi:Small i)(hj:Small j)(h:i.key=j.key):
 i=j∨∃k,bareHash i=some k∧bareHash j=some k:=by
 have hm:merged i=merged j:=by rw[←itemOfKey_key hi,h,itemOfKey_key hj]
 rcases hbi:bareHash i with _|k
 ·rcases hbj:bareHash j with _|k'
  ·rw[merged_of_none hbi,merged_of_none hbj]at hm
   exact .inl hm
  rw[merged_of_none hbi,merged_of_bareHash hbj]at hm
  rw[hm]at hbi
  cases hbi
 rcases hbj:bareHash j with _|k'
 ·rw[merged_of_bareHash hbi,merged_of_none hbj]at hm
  rw[←hm]at hbj
  cases hbj
 rw[merged_of_bareHash hbi,merged_of_bareHash hbj]at hm
 exact .inr ⟨k,rfl,congrArg some (DbItem.transaction.inj hm).symm⟩

lemma small_of_bareHash(hi:bareHash i=some h):Small i:=by
 cases i<;>trivial

end Keys

section Agreement

variable (keccak:Bytes→Hash) (E:Set Bytes)

def record (s:View) (w:DbItem × Option Bytes):View:=Function.update s w.1 w.2

/-- An operation on a store with a place of its own for every item. -/
def shelve (s:View) (op:Op):View:=(op.writes keccak s).foldl record s

def shelves (ops:List Op):View:=ops.foldl (shelve keccak) (fun _=>none)

def ListOf (n:ℕ) (d:Bytes):Prop:=
 ∃xs:List Item,xs.length=n ∧ d=encode (.list xs) ∧ (encodeList xs).length<2^64

/-- Block numbers are below `2 ^ 48`; a transaction is a list of nine values, a trie node one
of two or seventeen; only transactions are deleted as such; what is hashed belongs to `E`. -/
def Fits:Op→Prop
 | .writeCanonicalHash _ number=>number.toNat<2^48
 | .deleteCanonicalHash number=>number.toNat<2^48
 | .writeMipmapBloom number _=>number.toNat<2^48
 | .writeTransactions _ _ txs=>∀tx∈txs,tx∈E ∧ ListOf 9 tx
 | .deleteTransaction hash=>∃tx∈E,ListOf 9 tx ∧ keccak tx=hash
 | .commitNode node=>node∈E ∧ (ListOf 2 node ∨ ListOf 17 node)
 | .updateStateObject code=>code∈E
 | _=>True

/-- The reads that have a right answer: numbers are below `2 ^ 48`, and a trie node or a code
is asked for by its hash only after it was committed. -/
def Known (s:View):Query→Prop
 | .canonicalHash number=>number.toNat<2^48
 | .mipmapBloom number _=>number.toNat<2^48
 | .trieNode hash=>found (s (.trieNode hash))≠none
 | .code hash=>found (s (.code hash))≠none
 | _=>True

def ReadsRight (db:Db) (s:View):Prop:=∀q,Known s q→(view db).answer q=s.answer q

structure Agrees (db:Db) (s:View):Prop where
 exclusive:∀i,Small i→bareHash i=none→db i.key=s i
 hashed:∀i h d,bareHash i=some h→s i=some d→keccak d=h ∧ d∈E
 shared:∀i h d,bareHash i=some h→s i=some d→d≠[]→db i.key=some d
 nodes:∀h d,s (.trieNode h)=some d → ListOf 2 d ∨ ListOf 17 d

def Paired (s:View):Prop:=∀h m,s (.txMeta h)=some m→m≠[] ∧ ∃d,s (.transaction h)=some d ∧ d≠[]

variable {keccak E} {db:Db} {s:View} {w:DbItem × Option Bytes}

lemma eq_of_pure_eq(h:(pure a:Outcome ε α)=pure b):a=b:=
 Except.ok.inj (some.inj h)

variable {d:Bytes} {ws:List (DbItem × Option Bytes)} {op:Op}

lemma listOf_unique(h:ListOf m d)(h':ListOf n d):m=n:=by
 obtain⟨xs,rfl,rfl,hlt⟩:=h
 obtain⟨ys,rfl,he,hlt'⟩:=h'
 have hxs:=splitList_list (encodeList xs) [] hlt
 have hys:=splitList_list (encodeList ys) [] hlt'
 rw[append_nil]at hxs hys
 rw[encode,encode]at he
 rw[he]at hxs
 have hcontent:encodeList xs=encodeList ys:=congrArg Prod.fst (eq_of_pure_eq (hxs.symm.trans hys))
 have hcount:=countValues_encodeList xs hlt
 rw[hcontent]at hcount
 exact eq_of_pure_eq (hcount.symm.trans (countValues_encodeList ys hlt'))

lemma ListOf.ne_nil(h:ListOf n d):d≠[]:=by
 obtain⟨xs,-,rfl,-⟩:=h
 exact encode_ne_nil _

/-- A single write. What else is kept under its key must be equal to what is written. -/
lemma Agrees.write(h:Agrees keccak E db s)(hw:Small w.1)
 (hself:∀k d,bareHash w.1=some k→w.2=some d→keccak d=k∧d∈E)
 (hnode:∀k d,w.1=.trieNode k→w.2=some d → ListOf 2 d∨ListOf 17 d)
 (hshare:∀i k d,i≠w.1→bareHash i=some k→bareHash w.1=some k→s i=some d→d≠[]→w.2=some d):
 Agrees keccak E (DatabaseKeys.write db w) (record s w):=by
 refine⟨fun i hi hb=>?_,fun i k d hb hd=>?_,fun i k d hb hd hne=>?_,fun k d hd=>?_⟩
 ·by_cases hiw:i=w.1
  ·rw[hiw,DatabaseKeys.write,record,update_self,update_self]
  have hkey:i.key≠w.1.key:=by
   intro hk
   rcases key_eq_cases hi hw hk with he|⟨k,hk,-⟩
   ·exact hiw he
   rw[hb]at hk
   cases hk
  rw[DatabaseKeys.write,record,update_of_ne hkey,update_of_ne hiw]
  exact h.exclusive i hi hb
 ·by_cases hiw:i=w.1
  ·rw[hiw,record,update_self]at hd
   exact hself k d (hiw▸hb) hd
  rw[record,update_of_ne hiw]at hd
  exact h.hashed i k d hb hd
 ·by_cases hiw:i=w.1
  ·rw[hiw,record,update_self]at hd
   rw[hiw,DatabaseKeys.write,update_self,hd]
  rw[record,update_of_ne hiw]at hd
  rw[DatabaseKeys.write]
  by_cases hkey:i.key=w.1.key
  ·have hbw:bareHash w.1=some k:=by
    rcases key_eq_cases (small_of_bareHash hb) hw hkey with he|⟨k',hk,hk'⟩
    ·exact absurd he hiw
    rw[hk',←hk,hb]
   rw[hkey,update_self]
   exact hshare i k d hiw hb hbw hd hne
  rw[update_of_ne hkey]
  exact h.shared i k d hb hd hne
 by_cases hiw:DbItem.trieNode k=w.1
 ·rw[hiw,record,update_self]at hd
  exact hnode k d hiw.symm hd
 rw[record,update_of_ne hiw]at hd
 exact h.nodes k d hd

/-- A write of an item that has its key for itself, or of a content under its hash. -/
structure Harmless (keccak:Bytes→Hash) (E:Set Bytes) (w:DbItem × Option Bytes) :
 Prop where
 small:Small w.1
 hashed:∀k,bareHash w.1=some k→∃d∈E,keccak d=k ∧ w.2=some d
 node:∀k d,w.1=.trieNode k→w.2=some d → ListOf 2 d ∨ ListOf 17 d

lemma harmless_of_exclusive(hs:Small w.1)(hb:bareHash w.1=none):Harmless keccak E w:=by
 refine⟨hs,fun k hk=>?_,fun k d hk _=>?_⟩
 ·rw[hb]at hk
  cases hk
 rw[hk]at hb
 cases hb

lemma toNat_bin_le(number level:UInt64):(number/level*level).toNat≤number.toNat:=by
 have hle:number.toNat/level.toNat*level.toNat≤number.toNat:=Nat.div_mul_le_self _ _
 have hlt:=number.toNat_lt
 rw[UInt64.toNat_mul,UInt64.toNat_div,Nat.mod_eq_of_lt (by omega)]
 exact hle

lemma small_mipmapItem(h:number.toNat<2^48)(level:UInt64):Small (mipmapItem number level):=
 (toNat_bin_le number level).trans_lt h

/-- All writes but the deletion of a transaction are harmless. -/
lemma harmless_writes(hop:Fits keccak E op)(hdel:∀h,op≠.deleteTransaction h):
 ∀w∈op.writes keccak s,Harmless keccak E w:=by
 intro w hw
 cases op with
 | writeTransactions block number txs=>
  simp only[Op.writes,mem_flatMap,mem_cons,not_mem_nil,or_false]at hw
  obtain⟨⟨tx,i⟩,htx,rfl|rfl⟩:=hw
  ·have hmem:=hop tx (fst_mem_of_mem_zipIdx htx)
   refine⟨trivial,fun k hk=>⟨tx,hmem.1,some.inj hk,rfl⟩,fun k d hk _=>?_⟩
   cases hk
  exact harmless_of_exclusive trivial rfl
 | writeReceipts receipts=>
  obtain⟨r,-,rfl⟩:=mem_map.1 hw
  exact harmless_of_exclusive trivial rfl
 | writeMipmapBloom number logs=>
  obtain⟨level,-,rfl⟩:=mem_map.1 hw
  exact harmless_of_exclusive (small_mipmapItem hop level) rfl
 | deleteTransaction hash=>exact absurd rfl (hdel hash)
 | deleteBlock hash=>
  simp only[Op.writes,mem_cons,not_mem_nil,or_false]at hw
  rcases hw with rfl|rfl|rfl|rfl<;>exact harmless_of_exclusive trivial rfl
 | commitNode node=>
  cases mem_singleton.1 hw
  refine⟨trivial,fun k hk=>⟨node,hop.1,some.inj hk,rfl⟩,fun k d _ hd=>?_⟩
  cases hd
  exact hop.2
 | updateStateObject code=>
  cases mem_singleton.1 hw
  refine⟨trivial,fun k hk=>⟨code,hop,some.inj hk,rfl⟩,fun k d hk _=>?_⟩
  cases hk
 | writeCanonicalHash | deleteCanonicalHash=>
  cases mem_singleton.1 hw
  exact harmless_of_exclusive hop rfl
 | _=>
  cases mem_singleton.1 hw
  exact harmless_of_exclusive trivial rfl

/-- Both stores see the same writes. -/
lemma writes_eq(h:Agrees keccak E db s)(hop:Fits keccak E op):
 op.writes keccak (view db)=op.writes keccak s:=by
 cases op with
 | writeMipmapBloom number logs=>
  rw[Op.writes,Op.writes]
  refine map_congr_left fun level _=>?_
  rw[view,h.exclusive _ (small_mipmapItem hop level) rfl]
 | _=>rfl

/-- A transaction may be deleted when no code is kept under its hash. -/
def Removable (s:View):Op→Prop
 | .deleteTransaction hash=>found (s (.code hash))=none
 | _=>True

lemma eq_nil_of_found(h:found (some d)=none):d=[]:=by
 cases d with
 | nil=>rfl
 | cons x xs=>cases h

lemma bareHash_cases(hi:bareHash i=some h):i=.transaction h∨i=.trieNode h∨i=.code h:=by
 cases i with
 | transaction k=>exact .inl (congrArg _ (some.inj hi))
 | trieNode k=>exact .inr (.inl (congrArg _ (some.inj hi)))
 | code k=>exact .inr (.inr (congrArg _ (some.inj hi)))
 | _=>exact absurd hi (by simp[bareHash])

section

variable (hinj:Set.InjOn keccak E) (h:Agrees keccak E db s)

include hinj h

lemma Agrees.write_harmless(hw:Harmless keccak E w):Agrees keccak E (DatabaseKeys.write db w) (record s w):=by
 refine h.write hw.small (fun k d hk hd=>?_) hw.node fun i k d _ hi hk hd _=>?_
 ·obtain⟨d',hE,hkec,hd'⟩:=hw.hashed k hk
  cases hd.symm.trans hd'
  exact⟨hkec,hE⟩
 obtain⟨d',hE,hkec,hd'⟩:=hw.hashed k hk
 obtain⟨hkec',hE'⟩:=h.hashed i k d hi hd
 rw[hd',hinj hE hE' (hkec.trans hkec'.symm)]

lemma Agrees.writes_harmless(hws:∀w∈ws,Harmless keccak E w):
 Agrees keccak E (ws.foldl DatabaseKeys.write db) (ws.foldl record s):=by
 induction ws generalizing db s with
 | nil=>exact h
 | cons w ws ih=>
  obtain⟨hw,hws⟩:=forall_mem_cons.1 hws
  exact ih (h.write_harmless hinj hw) hws

/-- No trie node is kept under the hash of a transaction. -/
lemma no_node_of_transaction(htx:tx∈E)(hlist:ListOf 9 tx):s (.trieNode (keccak tx))=none:=by
 rcases hs:s (.trieNode (keccak tx)) with _|d
 ·rfl
 obtain⟨hkec,hE⟩:=h.hashed (.trieNode (keccak tx)) (keccak tx) d rfl hs
 obtain rfl:d=tx:=hinj hE htx hkec
 rcases h.nodes _ d hs with h2|h17
 ·exact absurd (listOf_unique h2 hlist) (by decide)
 exact absurd (listOf_unique h17 hlist) (by decide)

lemma Agrees.deleteTransaction
 (htx:tx∈E)(hlist:ListOf 9 tx)(hcode:found (s (.code (keccak tx)))=none):
 Agrees keccak E (step keccak db (.deleteTransaction (keccak tx)))
  (shelve keccak s (.deleteTransaction (keccak tx))):=by
 have hfirst:Agrees keccak E (DatabaseKeys.write db (.transaction (keccak tx),none))
  (record s (.transaction (keccak tx),none)):=by
  refine h.write trivial (fun k d _ hd=>absurd hd (by simp))
   (fun k d _ hd=>absurd hd (by simp)) fun i k d hne hi hk hd hd0=>?_
  obtain rfl:keccak tx=k:=some.inj hk
  rcases bareHash_cases hi with rfl|rfl|rfl
  ·exact absurd rfl hne
  ·rw[no_node_of_transaction hinj h htx hlist]at hd
   cases hd
  rw[hd]at hcode
  exact absurd (eq_nil_of_found hcode) hd0
 have hsecond:Harmless keccak E (.txMeta (keccak tx),none):=harmless_of_exclusive trivial rfl
 have hboth:=Agrees.write_harmless hinj hfirst hsecond
 rw[step,shelve,Op.writes,Op.writes]
 exact hboth

lemma Agrees.step(hop:Fits keccak E op)(hr:Removable s op):
 Agrees keccak E (DatabaseKeys.step keccak db op) (shelve keccak s op):=by
 by_cases hdel:∃hash,op=.deleteTransaction hash
 ·obtain⟨hash,rfl⟩:=hdel
  obtain⟨tx,htx,hlist,rfl⟩:=hop
  exact h.deleteTransaction hinj htx hlist hr
 rw[DatabaseKeys.step,writes_eq h hop]
 exact h.writes_harmless hinj (harmless_writes hop fun hash he=>hdel ⟨hash,he⟩)

end

lemma foldl_record_of_ne(h:∀w∈ws,w.1≠i)(s:View):ws.foldl record s i=s i:=by
 induction ws generalizing s with
 | nil=>rfl
 | cons w ws ih=>
  obtain⟨hw,hws⟩:=forall_mem_cons.1 h
  rw[foldl_cons,ih hws,record,update_of_ne hw.symm]

lemma Paired.foldl_transactions(block:Hash)(number:UInt64){txs:List (Bytes × ℕ)}
 (htxs:∀tx∈txs,tx.1≠[]){s:View}(h:Paired s):
 Paired ((txs.flatMap fun tx=>
  [(DbItem.transaction (keccak tx.1),some tx.1),
   (DbItem.txMeta (keccak tx.1),some (txMeta block number tx.2))]).foldl record s):=by
 induction txs generalizing s with
 | nil=>exact h
 | cons tx txs ih=>
  obtain⟨htx,htxs⟩:=forall_mem_cons.1 htxs
  rw[flatMap_cons,foldl_append]
  refine ih htxs fun k m hm=>?_
  rw[foldl_cons,foldl_cons,foldl_nil]at hm ⊢
  by_cases hk:k=keccak tx.1
  ·rw[hk,record,update_self]at hm
   refine⟨?_,tx.1,?_,htx⟩
   ·rw[←some.inj hm]
    exact encode_ne_nil _
   rw[hk,record,update_of_ne (by simp),record,update_self]
  rw[record,update_of_ne (by simpa using hk),record,update_of_ne (by simp)]at hm
  obtain⟨hm0,d,hd,hd0⟩:=h k m hm
  refine⟨hm0,d,?_,hd0⟩
  rw[record,update_of_ne (by simp),record,update_of_ne (by simpa using hk)]
  exact hd

lemma Paired.shelve(h:Paired s)(hop:Fits keccak E op):Paired (DatabaseItems.shelve keccak s op):=by
 have hframe:(∀w∈op.writes keccak s,∀k,w.1≠.txMeta k∧w.1≠.transaction k) →
  Paired (DatabaseItems.shelve keccak s op):=by
  intro hw k m hm
  have hmeta:=foldl_record_of_ne (fun w hmem=>(hw w hmem k).1) s
  have htx:=foldl_record_of_ne (fun w hmem=>(hw w hmem k).2) s
  rw[DatabaseItems.shelve]at hm ⊢
  rw[hmeta]at hm
  rw[htx]
  exact h k m hm
 cases op with
 | writeTransactions block number txs=>
  refine h.foldl_transactions block number fun tx htx=>?_
  exact (hop tx.1 (fst_mem_of_mem_zipIdx htx)).2.ne_nil
 | deleteTransaction hash=>
  intro k m hm
  have hs:DatabaseItems.shelve keccak s (.deleteTransaction hash) =
   record (record s (.transaction hash,none)) (.txMeta hash,none):=rfl
  rw[hs]at hm ⊢
  by_cases hk:k=hash
  ·rw[hk,record,update_self]at hm
   cases hm
  rw[record,update_of_ne (by simpa using hk),record,update_of_ne (by simp)]at hm
  rw[record,update_of_ne (by simp),record,update_of_ne (by simpa using hk)]
  exact h k m hm
 | writeReceipts receipts=>
  refine hframe fun w hw k=>?_
  obtain⟨r,-,rfl⟩:=mem_map.1 hw
  exact⟨by simp,by simp⟩
 | writeMipmapBloom number logs=>
  refine hframe fun w hw k=>?_
  obtain⟨level,-,rfl⟩:=mem_map.1 hw
  exact⟨by simp[mipmapItem],by simp[mipmapItem]⟩
 | _=>exact hframe (by simp[Op.writes])

lemma exists_of_found{data:Option Bytes}(h:found data≠none):∃d,data=some d∧d≠[]:=by
 rcases data with _ | _|⟨x,xs⟩
 ·exact absurd rfl h
 ·exact absurd rfl h
 exact⟨x::xs,rfl,by simp⟩

lemma answer_transaction_of_none{s:View}{hash:Hash}(h:s (.txMeta hash)=none):
 s.answer (.transaction hash)=[none]:=by
 rw[View.answer,h]
 cases found (s (.transaction hash))<;>rfl

lemma readsRight_of_agrees(h:Agrees keccak E db s)(hp:Paired s):ReadsRight db s:=by
 have hone:∀i,Small i→bareHash i=none →
  [found (view db i)]=[found (s i)]:=fun i hi hb=>by
  rw[view,h.exclusive i hi hb]
 have hbare:∀i k,bareHash i=some k→found (s i)≠none →
  [found (view db i)]=[found (s i)]:=fun i k hb hf=>by
  obtain⟨d,hd,hd0⟩:=exists_of_found hf
  rw[view,h.shared i k d hb hd hd0,hd]
 intro q hq
 cases q with
 | canonicalHash number=>exact hone (.canonicalHash number) hq rfl
 | mipmapBloom number level=>exact hone (mipmapItem number level) (small_mipmapItem hq level) rfl
 | transaction hash=>
  have hmeta:view db (.txMeta hash)=s (.txMeta hash):=h.exclusive _ trivial rfl
  rcases hm:s (.txMeta hash) with _|m
  ·rw[answer_transaction_of_none hm,answer_transaction_of_none (hmeta.trans hm)]
  obtain⟨-,d,hd,hd0⟩:=hp hash m hm
  have htx:view db (.transaction hash)=some d:=h.shared _ hash d rfl hd hd0
  rw[View.answer,View.answer,hmeta,htx,hd]
 | trieNode hash=>exact hbare (.trieNode hash) hash rfl hq
 | code hash=>exact hbare (.code hash) hash rfl hq
 | headHeaderHash=>exact hone .headHeaderHash trivial rfl
 | headBlockHash=>exact hone .headBlockHash trivial rfl
 | headFastBlockHash=>exact hone .headFastBlockHash trivial rfl
 | headerRLP hash=>exact hone (.header hash) trivial rfl
 | bodyRLP hash=>exact hone (.body hash) trivial rfl
 | td hash=>exact hone (.td hash) trivial rfl
 | blockReceipts hash=>exact hone (.blockReceipts hash) trivial rfl
 | receipt hash=>exact hone (.receipt hash) trivial rfl

/-- Deleting a transaction removes the code that is kept under its hash. -/
lemma not_readsRight_of_delete{hash:Hash}(hcode:found (s (.code hash))≠none):
 ¬ReadsRight (step keccak db (.deleteTransaction hash))
  (shelve keccak s (.deleteTransaction hash)):=by
 intro h
 have hs:shelve keccak s (.deleteTransaction hash) (.code hash)=s (.code hash):=
  foldl_record_of_ne (by simp[Op.writes]) s
 have hdb:view (step keccak db (.deleteTransaction hash)) (.code hash)=none:=by
  have hkey:(DbItem.code hash).key≠(DbItem.txMeta hash).key:=by
   intro he
   have:=congrArg length he
   simp[DbItem.key,txMetaSuffix]at this
  have hstep:step keccak db (.deleteTransaction hash) =
   write (write db (.transaction hash,none)) (.txMeta hash,none):=rfl
  rw[view,hstep,write,update_of_ne hkey,write]
  exact update_self _ _ _
 have hq:=h (.code hash) (by rw[Known,hs];exact hcode)
 rw[View.answer,View.answer,hdb,hs]at hq
 exact hcode (cons.inj hq).1.symm

/-- After every operation every read is right, exactly when no transaction is deleted while a
code is kept under its hash. -/
theorem items_do_not_interfere_iff (hinj : Set.InjOn keccak E) {ops : List Op}
    (hops : ∀ op ∈ ops, Fits keccak E op) :
    (∀ before after, ops = before ++ after →
      ReadsRight (run keccak before) (shelves keccak before)) ↔
    ∀ before hash after, ops = before ++ .deleteTransaction hash :: after →
      found (shelves keccak before (.code hash)) = none := by
 have hrun:∀before op,run keccak (before++[op])=step keccak (run keccak before) op ∧
  shelves keccak (before++[op])=shelve keccak (shelves keccak before) op:=
  fun before op=>⟨foldl_append,foldl_append⟩
 constructor
 · intro h before hash after he
   by_contra hcode
   have hright:=h (before++[.deleteTransaction hash]) after (by simp[he])
   rw[(hrun before _).1,(hrun before _).2] at hright
   exact not_readsRight_of_delete hcode hright
 intro h before
 have hinv:∀after,ops=before++after → Agrees keccak E (run keccak before) (shelves keccak before) ∧
   Paired (shelves keccak before):=by
  induction before using reverseRecOn with
  | nil =>
   refine fun _ _=>⟨⟨fun _ _ _=>rfl,fun i k d _ hd=>?_,fun i k d _ hd=>?_,
    fun k d hd=>?_⟩,fun k m hm=>?_⟩
   · cases hd
   · cases hd
   · cases hd
   cases hm
  | append_singleton before op ih =>
   intro after he
   rw[append_assoc,singleton_append] at he
   obtain⟨hag,hp⟩:=ih (op::after) he
   have hop:Fits keccak E op:=hops op (by simp[he])
   have hr:Removable (shelves keccak before) op:=by
    cases op with
    | deleteTransaction hash=>exact h before hash after he
    | _=>trivial
   rw[(hrun before op).1,(hrun before op).2]
   exact⟨hag.step hinj hop hr,hp.shelve hop⟩
 intro after he
 obtain⟨hag,hp⟩:=hinv after he
 exact readsRight_of_agrees hag hp

end Agreement

/-- The encoding of a transaction: nonce, price and gas limit 1, no recipient, amount 1, no
payload, and a signature. -/
def sampleTransaction:Bytes:=[0xc9,1,1,1,0x80,1,0x80,0x1b,1,1]

/-- A contract's code that is nothing like it. -/
def sampleCode:Bytes:=[0x60,0]

def sampleKeccak (b:Bytes):Hash:=Fin.ofNat (2^256) (value b)

def sampleOps (code:Bytes):List Op:=
 [.writeTransactions 5 1 [sampleTransaction],.updateStateObject code,
  .deleteTransaction (sampleKeccak sampleTransaction)]

/-- A contract whose code is the encoding of a transaction loses it when the transaction is
abandoned. -/
theorem deleting_transaction_removes_code :
    (shelves sampleKeccak (sampleOps sampleTransaction)).answer
        (.code (sampleKeccak sampleTransaction)) = [some sampleTransaction] ∧
      (view (run sampleKeccak (sampleOps sampleTransaction))).answer
        (.code (sampleKeccak sampleTransaction)) = [none] := by
 decide +kernel

def sampleItems:List Item:=
 [.string [1],.string [1],.string [1],.string [],.string [1],.string [],.string [0x1b],
  .string [1],.string [1]]

lemma listOf_sampleTransaction:ListOf 9 sampleTransaction:=
 ⟨sampleItems,rfl,by decide +kernel,by decide +kernel⟩

lemma fits_sampleOps:∀op∈sampleOps sampleCode,
 Fits sampleKeccak {sampleTransaction,sampleCode} op:=by
 simp only[sampleOps,mem_cons,not_mem_nil,or_false]
 rintro op (rfl|rfl|rfl)
 ·intro tx htx
  rw[mem_singleton.1 htx]
  exact⟨.inl rfl,listOf_sampleTransaction⟩
 ·exact .inr rfl
 exact⟨sampleTransaction,.inl rfl,listOf_sampleTransaction,rfl⟩

lemma injOn_sampleKeccak:Set.InjOn sampleKeccak {sampleTransaction,sampleCode}:=by
 have hne:sampleKeccak sampleTransaction≠sampleKeccak sampleCode:=by decide +kernel
 rintro a (rfl|rfl) b (rfl|rfl) hab
 ·rfl
 ·exact absurd hab hne
 ·exact absurd hab.symm hne
 rfl

/-- A different code survives. -/
theorem items_do_not_interfere_sample :
    ReadsRight (run sampleKeccak (sampleOps sampleCode))
      (shelves sampleKeccak (sampleOps sampleCode)) := by
 refine (items_do_not_interfere_iff injOn_sampleKeccak fits_sampleOps).2
  (fun before hash after he=>?_) _ [] (append_nil _).symm
 rcases before with _|⟨op₁,_|⟨op₂,_|⟨op₃,before⟩⟩⟩
 · simp[sampleOps] at he
 · simp[sampleOps] at he
 · obtain⟨rfl,rfl,h,-⟩:op₁=_ ∧ op₂=_ ∧ hash=sampleKeccak sampleTransaction ∧ _:=by
    simpa[sampleOps,eq_comm] using he
   subst h
   decide +kernel
 simp[sampleOps] at he

end GoCoupe.DatabaseItems
