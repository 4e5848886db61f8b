import GoCoupe.BitFilters
import GoCoupe.DatabaseKeys

/-!
# Bloom filters of logs

`core/types/bloom9.go` and the mipmap blooms of `core/database_util.go`, as numbers. A header's
filter holds the addresses and topics of the block's logs; a mipmap filter holds the addresses
only, without their leading zeros.
-/

namespace GoCoupe.LogBlooms
open BigEndianBytes BitFilters DatabaseKeys List Function Nat

/-- `vm.Log`, with the fields that are derived from the block and the transaction. -/
structure Log where
 address:Address
 topics:List Hash
 data:Bytes
 blockNumber:UInt64
 txHash:Hash
 txIndex:ℕ
 blockHash:Hash
 index:ℕ
 deriving DecidableEq

structure Receipt where
 postState:Bytes
 cumulativeGasUsed:ℤ
 bloom:ℕ
 logs:List Log
 txHash:Hash
 contractAddress:Address
 gasUsed:ℤ

def bloomLength:ℕ:=256

variable (keccak:Bytes→Hash)

def addressBytes (a:Address):Bytes:=fixed 20 a

def bloomLookup (bin:ℕ) (topic:Bytes):Bool:=decide (Covers bin (bloom9 keccak topic))

/-- `Bloom.TestBytes`, which reads the bytes as a number. -/
def testBytes (bin:ℕ) (test:Bytes):Bool:=bloomLookup keccak bin (shortest (value test))

def logBloom (bin:ℕ) (log:Log):ℕ:=
 addAll (fun topic=>bloom9 keccak (hashBytes topic))
  (bin ||| bloom9 keccak (addressBytes log.address)) log.topics

def logsBloom (logs:List Log):ℕ:=logs.foldl (logBloom keccak) 0

def createBloom (receipts:List Receipt):ℕ:=
 addAll (fun receipt:Receipt=>logsBloom keccak receipt.logs) 0 receipts

def getMipmapBloom (db:Db) (number level:UInt64):ℕ:=value ((db (mipmapItem number level).key).getD [])

/-- The addresses that `WriteMipmapBloom` adds, in its order. -/
def loggers (receipts:List Receipt):List Address:=
 receipts.flatMap (·.logs.map Log.address)

/-- The writes of `WriteMipmapBloom`, from what it found under the key of each level. -/
def mipmapWrites (number:UInt64) (receipts:List Receipt) (reads:List (Option Bytes)):
 List (DbItem × Option Bytes):=
 (mipMapLevels.zip reads).map (fun r=>
  (mipmapItem number r.1,some (addToBloom keccak r.2 (loggers receipts))))

/-- What `WriteMipmapBloom` finds when no other call comes between. -/
def mipmapReads (db:Db) (number:UInt64):List (Option Bytes):=
 mipMapLevels.map (fun level=>db (mipmapItem number level).key)

def writeMipmapBloom (db:Db) (number:UInt64) (receipts:List Receipt):Db:=
 (mipmapWrites keccak number receipts (mipmapReads db number)).foldl write db

variable {keccak}

lemma bloom9_lt(b:Bytes):bloom9 keccak b<2^(8*bloomLength):=by
 have hbit:∀n:ℕ,1 <<< (n%2048)<2^(8*bloomLength):=by
  intro n
  rw[one_shiftLeft]
  exact Nat.pow_lt_pow_right Nat.one_lt_two (Nat.mod_lt n (Nat.succ_pos 2047))
 have hzero:0<2^(8*bloomLength):=Nat.two_pow_pos (8*bloomLength)
 exact or_lt_two_pow (or_lt_two_pow (or_lt_two_pow hzero (hbit _)) (hbit _)) (hbit _)

lemma bloom9_ne_zero(b:Bytes):bloom9 keccak b≠0:=by
 intro h
 have hright:=(or_eq_zero_iff.1 h).2
 rw[one_shiftLeft]at hright
 exact (Nat.two_pow_pos _).ne' hright

variable {bin:ℕ} {a:Address} {log:Log} {receipt:Receipt} {receipts:List Receipt}
 {data:Option Bytes}

lemma bloomLookup_iff:bloomLookup keccak bin topic=true↔Covers bin (bloom9 keccak topic):=
 decide_eq_true_iff

lemma testBytes_iff:
 testBytes keccak bin (addressBytes a)=true↔Covers bin (bloom9 keccak (shortest a)):=by
 have ha:value (addressBytes a)=a:=value_fixed_of_lt (lt_of_lt_of_eq a.isLt (by norm_num))
 rw[testBytes,ha,bloomLookup_iff]

lemma testBytes_mono(h:Covers bin' bin)(ha:testBytes keccak bin (addressBytes a)=true):
 testBytes keccak bin' (addressBytes a)=true:=
 testBytes_iff.2 (h.trans (testBytes_iff.1 ha))

lemma not_testBytes_zero(a:Address):testBytes keccak 0 (addressBytes a)=false:=by
 rw[Bool.eq_false_iff,ne_eq,testBytes_iff]
 exact not_covers_zero (bloom9_ne_zero _)

lemma covers_logBloom(bin:ℕ)(log:Log):Covers (logBloom keccak bin log) bin:=
 (covers_addAll _ _ _).trans (covers_or_left _ _)

lemma covers_logBloom_address(bin:ℕ)(log:Log):
 Covers (logBloom keccak bin log) (bloom9 keccak (addressBytes log.address)):=
 (covers_addAll _ _ _).trans (covers_or_right _ _)

lemma covers_logBloom_topic(bin:ℕ)(h:topic∈log.topics):
 Covers (logBloom keccak bin log) (bloom9 keccak (hashBytes topic)):=
 covers_addAll_of_mem _ h _

lemma covers_foldl_logBloom(logs:List Log)(bin:ℕ):Covers (logs.foldl (logBloom keccak) bin) bin:=by
 induction logs generalizing bin with
 | nil=>exact covers_refl bin
 | cons log logs ih=>exact (ih _).trans (covers_logBloom bin log)

/-- What one log adds is in the filter of all of them. -/
lemma covers_logsBloom(h:log∈logs)(hitem:∀bin,Covers (logBloom keccak bin log) item):
 Covers (logsBloom keccak logs) item:=by
 rw[logsBloom]
 generalize 0=bin
 induction logs generalizing bin with
 | nil=>cases h
 | cons first logs ih=>
  rcases mem_cons.1 h with rfl|h
  ·exact (covers_foldl_logBloom logs _).trans (hitem bin)
  exact ih h _

lemma covers_createBloom(hr:receipt∈receipts)(hl:log∈receipt.logs)
 (hitem:∀bin,Covers (logBloom keccak bin log) item):
 Covers (createBloom keccak receipts) item:=
 (covers_addAll_of_mem (fun receipt:Receipt=>logsBloom keccak receipt.logs) hr 0).trans
  (covers_logsBloom hl hitem)

/-- A stored filter fits its 256 bytes. -/
def Fits (data:Option Bytes):Prop:=(data.getD []).length≤bloomLength

lemma value_lt_of_fits(h:Fits data):value (data.getD [])<2^(8*bloomLength):=by
 rw[pow_mul]
 exact lt_of_lt_of_le (value_lt _) (Nat.pow_le_pow_right (Nat.succ_pos 255) h)

lemma value_addToBloom(h:Fits data)(logs:List Address):value (addToBloom keccak data logs) =
  addAll (fun a:Address=>bloom9 keccak (shortest a)) (value (data.getD [])) logs:=by
 have hbound:=addAll_lt (fun a:Address=>@bloom9_lt keccak (shortest a)) logs
  (value_lt_of_fits h)
 have hfixed:addToBloom keccak data logs=fixed bloomLength
  (addAll (fun a:Address=>bloom9 keccak (shortest a)) (value (data.getD [])) logs):=by
  have hmap:(do let a ← logs;pure (a:ℕ))=logs.map (fun a:Address=>(a:ℕ)):=List.map_eq_flatMap.symm
  rw[addToBloom,addAll,bloomLength,hmap,foldl_map]
 rw[pow_mul]at hbound
 rw[hfixed,value_fixed_of_lt hbound]

lemma fits_addToBloom(data:Option Bytes)(logs:List Address):
 Fits (some (addToBloom keccak data logs)):=(fixed_length 256 _).le

lemma covers_addToBloom(h:Fits data)(logs:List Address):
 Covers (value (addToBloom keccak data logs)) (value (data.getD [])):=by
 rw[value_addToBloom h]
 exact covers_addAll _ _ _

lemma covers_addToBloom_of_mem(h:Fits data)(ha:a∈logs):
 Covers (value (addToBloom keccak data logs)) (bloom9 keccak (shortest a)):=by
 rw[value_addToBloom h]
 exact covers_addAll_of_mem (fun a:Address=>bloom9 keccak (shortest a)) ha _

/-- After the writes of a batch a key holds one of the values written to it, or what it held. -/
lemma foldl_write_cases(ws:List (DbItem × Option Bytes))(db:Db)(k:Bytes):
 (∃w∈ws,w.1.key=k∧ws.foldl write db k=w.2)∨((∀w∈ws,w.1.key≠k)∧ws.foldl write db k=db k):=by
 induction ws using List.reverseRecOn with
 | nil=>exact Or.inr ⟨fun w hw=>absurd hw not_mem_nil,rfl⟩
 | append_singleton ws w ih=>
  rw[foldl_append,foldl_cons,foldl_nil,write]
  by_cases hk:w.1.key=k
  ·left
   refine⟨w,mem_append_right _ (mem_singleton_self w),hk,?_⟩
   rw[←hk,update_self]
  rw[update_of_ne (Ne.symm hk)]
  rcases ih with⟨w',hw',hkey,hval⟩|⟨hnone,hval⟩
  ·exact Or.inl ⟨w',mem_append_left _ hw',hkey,hval⟩
  right
  refine⟨fun w' hw'=>?_,hval⟩
  rcases mem_append.1 hw' with hw'|hw'
  ·exact hnone w' hw'
  rwa[mem_singleton.1 hw']

lemma mem_loggers(hr:receipt∈receipts)(hl:log∈receipt.logs):log.address∈loggers receipts:=
 mem_flatMap.2 ⟨receipt,hr,List.mem_map_of_mem hl⟩

end GoCoupe.LogBlooms
