import GoCoupe.LogFilters
import Mathlib.Algebra.Order.Ring.Nat

/-!
# The log search loses nothing

A header bloom covers what the logs of its block match, so the plain scan finds them. The
mipmap search finds the same, because the bins of each level partition the range.
-/

namespace GoCoupe.LogFilterCompleteness
open BigEndianBytes BitFilters DatabaseKeys LogBlooms LogFilters List

lemma float64_of_lt(h:n.toNat<2^53):float64 n=n.toNat:=by
 have hlog:n.toNat.log2-52=0:=by
  by_cases h0:n.toNat=0
  ·rw[h0,Nat.log2_zero]
  have hlt:n.toNat.log2<53:=(Nat.log2_lt h0).2 h
  omega
 simp[float64,hlog,Nat.mod_one]

lemma ulp_le(h:2^53≤n):2^(n.log2-52)≤n:=by
 have h0:n≠0:=by
  intro hn
  rw[hn]at h
  exact absurd h (by norm_num)
 exact (Nat.pow_le_pow_right (by norm_num) (Nat.sub_le _ _)).trans (Nat.log2_self_le h0)

lemma float64_le(n:UInt64):float64 n≤2*n.toNat:=by
 by_cases h:n.toNat<2^53
 ·rw[float64_of_lt h]
  omega
 have hulp:=ulp_le (not_lt.1 h)
 have hdiv:=Nat.div_mul_le_self n.toNat (2^(n.toNat.log2-52))
 rw[float64]
 split
 ·omega
 rw[Nat.add_mul,Nat.one_mul]
 omega

lemma le_float64(h:2^53≤n.toNat):2^53≤float64 n:=by
 have h0:n.toNat≠0:=by
  intro hn
  rw[hn]at h
  exact absurd h (by norm_num)
 have hlog:53≤n.toNat.log2:=(Nat.le_log2 h0).2 h
 have hself:=Nat.log2_self_le h0
 have hpow:2^52*2^(n.toNat.log2-52)=2^n.toNat.log2:=by
  rw[←Nat.pow_add,Nat.add_sub_of_le (by omega)]
 have hquot:2^52≤n.toNat/2^(n.toNat.log2-52):=by
  rw[Nat.le_div_iff_mul_le (Nat.two_pow_pos _),hpow]
  exact hself
 have hmul:=Nat.mul_le_mul_right (2^(n.toNat.log2-52)) hquot
 have hbound:2^53≤2^n.toNat.log2:=Nat.pow_le_pow_right (by norm_num) hlog
 rw[float64]
 split
 ·omega
 rw[Nat.add_mul,Nat.one_mul]
 omega

/-- Below `2 ^ 53` the conversion is exact; above, it stays above. -/
lemma float64_cases(n:UInt64):float64 n=n.toNat∨(2^53≤n.toNat∧2^53≤float64 n):=by
 by_cases h:n.toNat<2^53
 ·exact Or.inl (float64_of_lt h)
 exact Or.inr ⟨not_lt.1 h,le_float64 (not_lt.1 h)⟩

lemma toNat_uint64(h:n<2^64):(uint64 n).toNat=n:=UInt64.toNat_ofNat_of_lt' h

def bin (number level:UInt64):ℕ:=number.toNat/level.toNat*level.toNat

lemma toNat_bin(number level:UInt64):(number/level*level).toNat=bin number level:=by
 have h:=Nat.div_mul_le_self number.toNat level.toNat
 have hlt:=number.toNat_lt
 rw[UInt64.toNat_mul,UInt64.toNat_div,Nat.mod_eq_of_lt (by omega),bin]

section Matches

variable {keccak:Bytes→Hash} {f:Filter}

lemma includes_iff:includes addresses a=true↔a∈addresses:=by
 simp[includes]

/-- A log that matches has one of the wanted addresses. -/
lemma mem_addresses_of_matchesLog(h:f.matchesLog log=true)
 (hne:f.addresses≠[]):log.address∈f.addresses:=by
 rw[Filter.matchesLog,Bool.and_eq_true,Bool.or_eq_true,List.isEmpty_iff]at h
 exact includes_iff.1 (h.1.resolve_left hne)

/-- A matching log matches every position of the topics. -/
lemma topic_of_matchesLog(h:f.matchesLog log=true)
 (hsub:sub∈f.topics):∃topic∈log.topics,matchesTopic sub topic=true:=by
 rw[Filter.matchesLog,Bool.and_eq_true,Bool.and_eq_true,decide_eq_true_iff,all_eq_true]at h
 obtain⟨i,hi,rfl⟩:=getElem_of_mem hsub
 have hlen:i<log.topics.length:=lt_of_lt_of_le hi h.2.1
 have hzip:(f.topics[i],log.topics[i])∈f.topics.zip log.topics:=by
  rw[mem_iff_getElem]
  exact⟨i,by rw[length_zip];omega,getElem_zip⟩
 exact⟨log.topics[i],getElem_mem hlen,h.2.2 _ hzip⟩

/-- The bloom test of a block passes if one of its logs matches. -/
lemma bloomFilter_of_matchesLog(hbloom:block.bloom=createBloom keccak receipts)
 (hr:receipt∈receipts)(hl:log∈receipt.logs)(h:f.matchesLog log=true):
 f.bloomFilter keccak block=true:=by
 rw[Filter.bloomFilter,Bool.and_eq_true]
 constructor
 ·rw[Bool.or_eq_true,List.isEmpty_iff]
  by_cases hne:f.addresses=[]
  ·exact Or.inl hne
  right
  rw[any_eq_true]
  refine⟨log.address,mem_addresses_of_matchesLog h hne,?_⟩
  rw[bloomLookup_iff,hbloom]
  exact covers_createBloom hr hl (covers_logBloom_address · log)
 rw[all_eq_true]
 intro sub hsub
 obtain⟨topic,htopic,hmatch⟩:=topic_of_matchesLog h hsub
 rw[matchesTopic,any_eq_true]at hmatch
 obtain⟨wanted,hwanted,hor⟩:=hmatch
 rw[any_eq_true]
 refine⟨wanted,hwanted,?_⟩
 rw[Bool.or_eq_true]at hor ⊢
 rcases hor with hzero|heq
 ·exact Or.inl hzero
 right
 rw[beq_iff_eq]at heq
 rw[bloomLookup_iff,hbloom,←heq]
 exact covers_createBloom hr hl (covers_logBloom_topic · htopic)

lemma filterLogs_eq_nil(h:∀log∈logs,f.matchesLog log=false):f.filterLogs logs=[]:=by
 rw[Filter.filterLogs,filter_eq_nil_iff]
 intro log hlog hmatch
 rw[h log hlog]at hmatch
 exact Bool.false_ne_true hmatch

end Matches

section Mipmaps

variable {keccak:Bytes→Hash}

lemma mipmapKey_inj(h:(mipmapItem number level).key=(mipmapItem number' level').key):
 level=level'∧bin number level=bin number' level':=by
 have hcancel:fixed 8 level.toNat++shortest (number/level*level).toNat =
  fixed 8 level'.toNat++shortest (number'/level'*level').toNat:=
  append_cancel_left h
 obtain⟨hlevel,hbin⟩:=append_inj hcancel (by rw[fixed_length,fixed_length])
 constructor
 ·have hvalue:=congrArg value hlevel
  rw[value_fixed_of_lt (lt_of_lt_of_eq level.toNat_lt (by norm_num)),
   value_fixed_of_lt (lt_of_lt_of_eq level'.toNat_lt (by norm_num))]at hvalue
  exact UInt64.toNat_inj.1 hvalue
 have hvalue:=congrArg value hbin
 rwa[value_shortest,value_shortest,toNat_bin,toNat_bin]at hvalue

/-- What a key holds after `WriteMipmapBloom`. -/
lemma writeMipmapBloom_cases(db:Db)(number:UInt64)(receipts:List Receipt)(k:Bytes):
 (∃level∈mipMapLevels,(mipmapItem number level).key=k∧
  writeMipmapBloom keccak db number receipts k = some (addToBloom keccak (db k) (loggers receipts)))∨
  ((∀level∈mipMapLevels,(mipmapItem number level).key≠k)∧
   writeMipmapBloom keccak db number receipts k=db k):=by
 have hwrites:mipmapWrites keccak number receipts (mipmapReads db number) =
  mipMapLevels.map (fun level=>(mipmapItem number level,
   some (addToBloom keccak (db (mipmapItem number level).key) (loggers receipts)))):=rfl
 rcases foldl_write_cases (mipmapWrites keccak number receipts (mipmapReads db number)) db k with
  ⟨w,hw,hkey,hval⟩ | ⟨hnone,hval⟩
 ·rw[hwrites]at hw
  obtain⟨level,hlevel,rfl⟩:=mem_map.1 hw
  left
  refine⟨level,hlevel,hkey,?_⟩
  rw[writeMipmapBloom,hval]
  dsimp only at hkey ⊢
  rw[hkey]
 right
 refine⟨fun level hlevel=>?_,hval⟩
 rw[hwrites]at hnone
 exact hnone _ (mem_map_of_mem hlevel)

def mipmaps (keccak:Bytes→Hash) (written:List (UInt64 × List Receipt)):Db:=
 written.foldl (fun db w=>writeMipmapBloom keccak db w.1 w.2) (fun _=>none)

lemma mipmaps_concat(written:List (UInt64 × List Receipt))(w:UInt64 × List Receipt):
 mipmaps keccak (written++[w])=writeMipmapBloom keccak (mipmaps keccak written) w.1 w.2:=by
 rw[mipmaps,foldl_append,foldl_cons,foldl_nil,mipmaps]

lemma fits_mipmaps(written:List (UInt64 × List Receipt))(k:Bytes):
 Fits (mipmaps keccak written k):=by
 induction written using reverseRecOn with
 | nil=>exact Nat.zero_le _
 | append_singleton written w ih=>
  rw[mipmaps_concat]
  rcases writeMipmapBloom_cases (mipmaps keccak written) w.1 w.2 k with
   ⟨level,hlevel,hkey,hval⟩ | ⟨hnone,hval⟩
  ·rw[hval]
   exact fits_addToBloom _ _
  rwa[hval]

lemma covers_mipmaps_concat(written:List (UInt64 × List Receipt))(w:UInt64 × List Receipt)(k:Bytes):
 Covers (value ((mipmaps keccak (written++[w]) k).getD []))
  (value ((mipmaps keccak written k).getD [])):=by
 rw[mipmaps_concat]
 rcases writeMipmapBloom_cases (mipmaps keccak written) w.1 w.2 k with
  ⟨level,hlevel,hkey,hval⟩ | ⟨hnone,hval⟩
 ·rw[hval]
  exact covers_addToBloom (fits_mipmaps written k) _
 rw[hval]
 exact covers_refl _

/-- The bloom of every level has every address that was written for a block of its bin. -/
lemma testBytes_mipmaps{written:List (UInt64 × List Receipt)}{w:UInt64 × List Receipt}
 (hw:w∈written){a:Address}(ha:a∈loggers w.2){level:UInt64}
 (hlevel:level∈mipMapLevels):
 testBytes keccak (getMipmapBloom (mipmaps keccak written) w.1 level) (addressBytes a)=true:=by
 rw[testBytes_iff,getMipmapBloom]
 induction written using reverseRecOn with
 | nil=>cases hw
 | append_singleton written last ih=>
  rcases mem_append.1 hw with hw|hw
  ·exact (covers_mipmaps_concat written last _).trans (ih hw)
  obtain rfl:=mem_singleton.1 hw
  rw[mipmaps_concat]
  rcases writeMipmapBloom_cases (mipmaps keccak written) w.1 w.2 (mipmapItem w.1 level).key with
   ⟨level',hlevel',hkey,hval⟩ | ⟨hnone,hval⟩
  ·rw[hval]
   exact covers_addToBloom_of_mem (fits_mipmaps written _) ha
  exact absurd rfl (hnone level hlevel)

/-- A bin without a written block has the empty bloom. -/
lemma getMipmapBloom_eq_zero(h:∀w∈written,bin w.1 level≠bin number level):
 getMipmapBloom (mipmaps keccak written) number level=0:=by
 rw[getMipmapBloom]
 induction written using reverseRecOn with
 | nil=>rfl
 | append_singleton written last ih=>
  rw[mipmaps_concat]
  rcases writeMipmapBloom_cases (mipmaps keccak written) last.1 last.2
   (mipmapItem number level).key with⟨level',hlevel',hkey,hval⟩ | ⟨hnone,hval⟩
  ·obtain⟨rfl,hbin⟩:=mipmapKey_inj hkey
   exact absurd hbin (h last (mem_append_right _ (mem_singleton_self last)))
  rw[hval]
  exact ih (fun w hw=>h w (mem_append_left _ hw))

end Mipmaps

/-- The logs of the canonical block with a number, none without such a block. -/
def logsAt (db:FilterDb) (n:ℕ):List Log:=if 2^64≤n ∨ db.canonicalHash (UInt64.ofNat n)=0 then []
 else ((db.block (db.canonicalHash (UInt64.ofNat n))).map db.logsOf).getD []

/-- The logs of the canonical blocks of a range that the filter matches, in order. -/
def scan (f:Filter) (db:FilterDb) (start finish:ℕ):List Log:=
 (range' start (finish+1-start)).flatMap (fun n=>f.filterLogs (logsAt db n))

/-- The canonical blocks are numbered from zero on, below `2 ^ 53`; their headers have the
blooms of their receipts; and each of them went through `WriteMipmapBloom`. -/
structure Indexed (keccak:Bytes→Hash) (db:FilterDb) (height:ℕ)
 (written:List (UInt64 × List Receipt)):Prop where
 canonical:∀n:UInt64,n.toNat<height→db.canonicalHash n≠0 ∧
  ∃block,db.block (db.canonicalHash n)=some block ∧
   block.bloom=createBloom keccak (db.receipts block.hash) ∧
   (n,db.receipts block.hash)∈written
 above:∀n:UInt64,height≤n.toNat→db.canonicalHash n=0
 height_le:height≤2^53
 written_lt:∀w∈written,w.1.toNat<2^53
 mipmaps:∀number level:UInt64,db.db (mipmapItem number level).key =
  LogFilterCompleteness.mipmaps keccak written (mipmapItem number level).key

section Ranges

variable {keccak:Bytes→Hash} {f:Filter} {db:FilterDb} {height:ℕ}
 {written:List (UInt64 × List Receipt)}

lemma scan_append{start last finish:ℕ}(h1:start≤last+1)(h2:last≤finish):
 scan f db start last++scan f db (last+1) finish=scan f db start finish:=by
 have hmid:start+(last+1-start)=last+1:=by omega
 have hlen:last+1-start+(finish+1-(last+1))=finish+1-start:=by omega
 have hrange:range' start (last+1-start) ++
  range' (start+(last+1-start)) (finish+1-(last+1)) =
   range' start (last+1-start+(finish+1-(last+1))):=range'_append_1
 rw[hmid,hlen]at hrange
 rw[scan,scan,scan,←flatMap_append,hrange]

lemma scan_of_lt(h:finish<start):scan f db start finish=[]:=by
 rw[scan,Nat.sub_eq_zero_of_le h]
 rfl

lemma scan_eq_nil(h:∀n,start≤n→n≤finish→f.filterLogs (logsAt db n)=[]):scan f db start finish=[]:=by
 rw[scan,flatMap_eq_nil_iff]
 intro n hn
 rw[mem_range'_1]at hn
 exact h n hn.1 (by omega)

lemma logsAt_toNat(h0:db.canonicalHash n≠0)
 (h:db.block (db.canonicalHash n)=some block):logsAt db n.toNat=db.logsOf block:=by
 have hn:UInt64.ofNat n.toNat=n:=UInt64.ofNat_toNat
 have hlt:=n.toNat_lt
 rw[logsAt,hn,if_neg (by simp only[h0,or_false];omega),h]
 rfl

/-- The header bloom never skips a block with a matching log. -/
lemma filterLogs_bloomFilter(hbloom:block.bloom=createBloom keccak (db.receipts block.hash)):
 (if f.bloomFilter keccak block then f.filterLogs (db.logsOf block) else []) =
  f.filterLogs (db.logsOf block):=by
 split
 ·rfl
 rename_i hfilter
 symm
 apply filterLogs_eq_nil
 intro log hlog
 obtain⟨receipt,hr,hl⟩:=mem_flatMap.1 hlog
 rw[Bool.eq_false_iff]
 intro hmatch
 exact hfilter (bloomFilter_of_matchesLog hbloom hr hl hmatch)

variable (hdb:Indexed keccak db height written)
include hdb

lemma logsAt_eq_nil(h:height≤n):logsAt db n=[]:=by
 rw[logsAt]
 apply if_pos
 by_cases hn:2^64≤n
 ·exact Or.inl hn
 right
 apply hdb.above
 rwa[UInt64.toNat_ofNat_of_lt' (not_le.1 hn)]

lemma scan_eq_nil_of_height_le(h:height ≤ start):scan f db start finish=[]:=by
 apply scan_eq_nil
 intro n hn _
 rw[logsAt_eq_nil hdb (h.trans hn)]
 rfl

/-- Where a range ends does not matter beyond the last block. -/
lemma scan_congr_finish(h:height≤finish+1)
 (h':height≤finish'+1):scan f db start finish=scan f db start finish':=by
 wlog hle:finish≤finish' generalizing finish finish'
 ·exact (this h' h (by omega)).symm
 by_cases hs:start≤finish+1
 ·rw[←scan_append hs hle,scan_eq_nil_of_height_le hdb h,append_nil]
 rw[scan_eq_nil_of_height_le hdb (by omega),scan_eq_nil_of_height_le hdb (by omega)]

lemma getLogsFrom_eq(count:ℕ)(i:UInt64):f.getLogsFrom keccak db count i =
 some ((range' i.toNat count).flatMap (fun n=>f.filterLogs (logsAt db n))):=by
 induction count generalizing i with
 | zero=>rfl
 | succ count ih=>
  rw[Filter.getLogsFrom]
  by_cases hi:i.toNat<height
  ·obtain⟨h0,block,hblock,hbloom,-⟩:=hdb.canonical i hi
   have hlt:=hdb.height_le
   have hnext:(i+1).toNat=i.toNat+1:=by
    rw[UInt64.toNat_add,UInt64.toNat_one]
    omega
   rw[if_neg h0,hblock]
   dsimp only
   rw[ih,hnext,filterLogs_bloomFilter hbloom,range'_succ,flatMap_cons,logsAt_toNat h0 hblock]
   rfl
  rw[if_pos (hdb.above i (not_lt.1 hi))]
  apply congrArg some
  symm
  rw[flatMap_eq_nil_iff]
  intro n hn
  rw[mem_range'_1]at hn
  rw[logsAt_eq_nil hdb (by omega)]
  rfl

lemma getLogs_eq_scan(start finish:UInt64):
 f.getLogs keccak db start finish=some (scan f db start.toNat finish.toNat):=
 getLogsFrom_eq hdb _ _

/-- A bin whose bloom has an address holds a written block. -/
lemma exists_written(h:testBytes keccak (getMipmapBloom db.db num level) (addressBytes a)=true):
 ∃w∈written,bin w.1 level=bin num level:=by
 by_contra hnone
 push Not at hnone
 have hzero:getMipmapBloom db.db num level=0:=by
  rw[getMipmapBloom,hdb.mipmaps]
  exact getMipmapBloom_eq_zero hnone
 rw[hzero,not_testBytes_zero]at h
 exact Bool.false_ne_true h

/-- A bin whose bloom has none of the wanted addresses holds no matching log. -/
lemma filterLogs_of_skipped(hlevel:level∈mipMapLevels)(hne:f.addresses≠[])
 (h:f.addresses.any (fun a=>testBytes keccak (getMipmapBloom db.db num level)
  (addressBytes a))=false)(hn:n/level.toNat*level.toNat=bin num level):
 f.filterLogs (logsAt db n)=[]:=by
 by_cases hheight:height≤n
 ·rw[logsAt_eq_nil hdb hheight]
  rfl
 have hsmall:=hdb.height_le
 have hto:(UInt64.ofNat n).toNat=n:=UInt64.toNat_ofNat_of_lt' (by
  rw[UInt64.size]
  omega)
 obtain⟨h0,block,hblock,-,hwritten⟩:=
  hdb.canonical (UInt64.ofNat n) (by rw[hto];exact not_le.1 hheight)
 have hlogs:=logsAt_toNat h0 hblock
 rw[hto]at hlogs
 rw[hlogs]
 apply filterLogs_eq_nil
 intro log hlog
 obtain⟨receipt,hr,hl⟩:=mem_flatMap.1 hlog
 rw[Bool.eq_false_iff]
 intro hmatch
 have hkey:mipmapItem (UInt64.ofNat n) level=mipmapItem num level:=by
  have hbin:UInt64.ofNat n/level*level=num/level*level:=by
   apply UInt64.toNat_inj.1
   rw[toNat_bin,toNat_bin,←hn,bin,hto]
  rw[mipmapItem,mipmapItem,hbin]
 have htest:=@testBytes_mipmaps keccak _ _ hwritten _ (mem_loggers hr hl) _ hlevel
 rw[getMipmapBloom,←hdb.mipmaps,hkey]at htest
 rw[any_eq_false]at h
 exact h log.address (mem_addresses_of_matchesLog hmatch hne) htest

/-- `resolve` returns the matching logs of a range. The bound keeps the loop over the bins, whose
counter passes the end of the range by less than a bin, from wrapping around. -/
def Resolves (f:Filter) (db:FilterDb)
 (resolve:UInt64→UInt64→Option (List Log)):Prop:=
 ∀start finish:UInt64,finish.toNat+1000000<2^64 →
  resolve start finish=some (scan f db start.toNat finish.toNat)

omit hdb in
lemma level_bounds(h:level∈mipMapLevels):0<level.toNat∧level.toNat≤1000000:=by
 simp only[mipMapLevels,mem_cons,not_mem_nil,or_false]at h
 rcases h with rfl|rfl|rfl|rfl|rfl<;>exact⟨by decide,by decide⟩

section

variable {resolve:UInt64→UInt64→Option (List Log)} (hres:Resolves f db resolve)

include hres

/-- The clamped range of a bin that holds a written block. -/
lemma resolve_clamped(hlevel:level∈mipMapLevels)
 (hnum:num.toNat<2^53)(hstart:start.toNat<num.toNat+level.toNat):
 resolve (uint64 (max (float64 num) (float64 start)))
  (uint64 (min (float64 (num+level-1)) (float64 finish))) =
  some (scan f db (max num.toNat start.toNat)
   (min (num.toNat+level.toNat-1) finish.toNat)):=by
 have hheight:=hdb.height_le
 obtain⟨hpos,hle⟩:=level_bounds hlevel
 have hlast:(num+level-1).toNat=num.toNat+level.toNat-1:=by
  have hsum:(num+level).toNat=num.toNat+level.toNat:=by
   rw[UInt64.toNat_add]
   omega
  have hone:(1:UInt64)≤num+level:=by
   rw[UInt64.le_iff_toNat_le,hsum,UInt64.toNat_one]
   omega
  rw[UInt64.toNat_sub_of_le _ _ hone,hsum,UInt64.toNat_one]
 have hnumle:=float64_of_lt hnum
 have hstartle:=float64_le start
 have hlastle:=float64_le (num+level-1)
 have hlo:(uint64 (max (float64 num) (float64 start))).toNat =
  max (float64 num) (float64 start):=toNat_uint64 (by omega)
 have hhi:(uint64 (min (float64 (num+level-1)) (float64 finish))).toNat =
  min (float64 (num+level-1)) (float64 finish):=toNat_uint64 (by omega)
 rw[hres _ _ (by omega),hlo,hhi]
 apply congrArg some
 have hlow:∀hi,scan f db (max (float64 num) (float64 start)) hi =
  scan f db (max num.toNat start.toNat) hi:=by
  intro hi
  rcases float64_cases start with heq|⟨hbig,hbig'⟩
  ·rw[hnumle,heq]
  rw[scan_eq_nil_of_height_le hdb (by omega),scan_eq_nil_of_height_le hdb (by omega)]
 rw[hlow]
 rcases float64_cases (num+level-1) with heq|⟨hbig,hbig'⟩
 ·rcases float64_cases finish with heq'|⟨hfin,hfin'⟩
  ·rw[heq,heq',hlast]
  by_cases hexact:num.toNat+level.toNat-1<2^53
  ·have hmin:min (float64 (num+level-1)) (float64 finish) =
    min (num.toNat+level.toNat-1) finish.toNat:=by omega
   rw[hmin]
  exact scan_congr_finish hdb (by omega) (by omega)
 rcases float64_cases finish with heq'|⟨hfin,hfin'⟩
 ·by_cases hexact:finish.toNat<2^53
  ·have hmin:min (float64 (num+level-1)) (float64 finish) =
    min (num.toNat+level.toNat-1) finish.toNat:=by omega
   rw[hmin]
  exact scan_congr_finish hdb (by omega) (by omega)
 exact scan_congr_finish hdb (by omega) (by omega)

/-- One bin contributes the matching logs of its part of the range. -/
lemma mipBin_eq(hne:f.addresses≠[])(hlevel:level∈mipMapLevels)
 (hnum:bin num level=num.toNat)(hstart:start.toNat<num.toNat+level.toNat):
 f.mipBin keccak db resolve level start finish num=some (scan f db (max num.toNat start.toNat)
   (min (num.toNat+level.toNat-1) finish.toNat)):=by
 obtain⟨hpos,hle⟩:=level_bounds hlevel
 rw[Filter.mipBin]
 split
 ·rename_i htest
  obtain⟨a,ha,htest⟩:=any_eq_true.1 htest
  obtain⟨w,hw,hbin⟩:=exists_written hdb htest
  have hsmall:=hdb.written_lt w hw
  have hfloor:=Nat.div_mul_le_self w.1.toNat level.toNat
  rw[hnum,bin]at hbin
  exact resolve_clamped hdb hres hlevel (by omega) hstart
 rename_i hskip
 rw[Bool.not_eq_true]at hskip
 apply congrArg some
 symm
 apply scan_eq_nil
 intro n hn hn'
 apply filterLogs_of_skipped hdb hlevel hne hskip
 obtain⟨q,hq⟩:level.toNat ∣ num.toNat:=by
  rw[←hnum,bin]
  exact Nat.dvd_mul_left _ _
 have hdiv:n/level.toNat=q:=by
  apply Nat.div_eq_of_lt_le
  ·rw[Nat.mul_comm]
   omega
  rw[Nat.add_mul,Nat.mul_comm]
  omega
 rw[hdiv,hnum,hq,Nat.mul_comm]

lemma mipBins_eq(hne:f.addresses≠[])(hlevel:level∈mipMapLevels)
 (hfinish:finish.toNat+1000000<2^64)(fuel:ℕ)(hnum:bin num level=num.toNat)
 (hstart:start.toNat<num.toNat+level.toNat)(hfuel:finish.toNat+1-num.toNat<fuel):
 f.mipBins keccak db resolve level start finish fuel num =
  some (scan f db (max num.toNat start.toNat) finish.toNat):=by
 obtain⟨hpos,hle⟩:=level_bounds hlevel
 induction fuel generalizing num with
 | zero=>exact absurd hfuel (Nat.not_lt_zero _)
 | succ fuel ih=>
  rw[Filter.mipBins]
  by_cases hend:num≤finish
  ·have hend':=UInt64.le_iff_toNat_le.1 hend
   have hnext:(num+level).toNat=num.toNat+level.toNat:=by
    rw[UInt64.toNat_add]
    omega
   have hbin:bin (num+level) level=(num+level).toNat:=by
    rw[bin]at hnum
    rw[bin,hnext,Nat.add_div_right _ hpos,Nat.succ_mul,hnum]
   have hrest:=ih hbin (by omega) (by omega)
   rw[if_pos hend,mipBin_eq hdb hres hne hlevel hnum hstart,hrest]
   dsimp only[bind,Option.bind]
   apply congrArg some
   have hmax:max (num+level).toNat start.toNat=num.toNat+level.toNat:=by omega
   rw[hmax]
   by_cases hcut:num.toNat+level.toNat-1≤finish.toNat
   ·have hsplit:=@scan_append f db (max num.toNat start.toNat)
     (num.toNat+level.toNat-1) finish.toNat (by omega) hcut
    have hlast:num.toNat+level.toNat-1+1=num.toNat+level.toNat:=by omega
    rwa[hlast,←Nat.min_eq_left hcut]at hsplit
   have hempty:scan f db (num.toNat+level.toNat) finish.toNat=[]:=scan_of_lt (by omega)
   rw[Nat.min_eq_right (by omega),hempty,append_nil]
  have hend':finish.toNat<num.toNat:=by
   rw[UInt64.le_iff_toNat_le]at hend
   omega
  rw[if_neg hend,scan_of_lt (by omega)]

end

/-- The recursion over the levels. -/
lemma mipLevels_resolves(hne:f.addresses≠[])(hfuel:2^64<fuel)
 (hlevels:∀level∈levels,level∈mipMapLevels)
 (hnil:levels≠[]):Resolves f db (f.mipLevels keccak db fuel levels):=by
 have hloop:∀resolve,Resolves f db resolve→∀level∈levels,∀start finish:UInt64,
  finish.toNat+1000000<2^64 →
   f.mipBins keccak db resolve level start finish fuel (start/level*level) =
    some (scan f db start.toNat finish.toNat):=by
  intro resolve hres level hlevel start finish hfinish
  have hpos:=(level_bounds (hlevels level hlevel)).1
  have hfloor:=Nat.div_mul_le_self start.toNat level.toNat
  have hmod:=Nat.div_add_mod' start.toNat level.toNat
  have hrem:=Nat.mod_lt start.toNat hpos
  have hbin:bin (start/level*level) level=(start/level*level).toNat:=by
   rw[bin,toNat_bin,bin,Nat.mul_div_cancel _ hpos]
  have htoNat:=toNat_bin start level
  rw[bin]at htoNat
  rw[mipBins_eq hdb hres hne (hlevels level hlevel) hfinish fuel hbin (by omega) (by omega),
   Nat.max_eq_right (by omega)]
 induction levels with
 | nil=>exact absurd rfl hnil
 | cons level levels ih=>
  cases levels with
  | nil=>
   intro start finish hfinish
   rw[Filter.mipLevels]
   exact hloop _ (fun start finish _=>getLogs_eq_scan hdb start finish) level
    (mem_singleton_self level) start finish hfinish
  | cons next levels=>
   have hsub:Resolves f db (f.mipLevels keccak db fuel (next::levels)):=by
    apply ih (fun level' h=>hlevels level' (mem_cons_of_mem _ h)) (cons_ne_nil _ _)
    intro resolve hres level' hlevel'
    exact hloop resolve hres level' (mem_cons_of_mem _ hlevel')
   intro start finish hfinish
   rw[Filter.mipLevels]
   ·exact hloop _ hsub level mem_cons_self start finish hfinish
   exact cons_ne_nil _ _

end Ranges

/-- `Find` resolves the two ends of the range and returns what the scan of it matches. -/
lemma find_eq_scan(hdb:Indexed keccak db height written)(hstart:db.blockNo f.beginBlock=some start)
 (hfinish:db.blockNo f.endBlock=some finish)(hwrap:finish.toNat+1000000<2^64)
 (hfuel:2^64<fuel):f.find keccak db fuel=some (scan f db start.toNat finish.toNat):=by
 rw[Filter.find,hstart,hfinish]
 dsimp only[bind,Option.bind]
 split
 ·exact getLogs_eq_scan hdb start finish
 rename_i hne
 rw[List.isEmpty_iff]at hne
 exact mipLevels_resolves hdb hne hfuel (fun level h=>h) (cons_ne_nil _ _) start finish
  hwrap

namespace OneBlock

def log:Log:=
 {address:=5,topics:=[7],data:=[],blockNumber:=0,txHash:=1,txIndex:=0,blockHash:=2,index:=0}

def receipts:List Receipt:=
 [{postState:=[],cumulativeGasUsed:=21000,bloom:=0,logs:=[log],txHash:=1,
   contractAddress:=0,gasUsed:=21000}]

def hashOf (b:Bytes):Hash:=Fin.ofNat _ (value b)

/-- One block, which logs once. -/
def db:FilterDb:=
 {db:=mipmaps hashOf [(0,receipts)]
  headBlockHash:=2
  canonicalHash:=fun n=>if n=0 then 2 else 0
  block:=fun hash=>
   if hash=2 then some {number:=0,hash:=2,bloom:=createBloom hashOf receipts}
   else none
  receipts:=fun hash=>if hash=2 then receipts else []}

def filter:Filter:={beginBlock:=0,endBlock:=-1,addresses:=[5,6],topics:=[[0,9]]}

lemma indexed:Indexed hashOf db 1 [(0,receipts)]:=by
 constructor
 ·intro n hn
  have hzero:n=0:=UInt64.toNat_inj.1 (Nat.lt_one_iff.1 hn)
  subst hzero
  exact⟨by decide,{number:=0,hash:=2,bloom:=createBloom hashOf receipts},rfl,rfl,
   mem_singleton_self _⟩
 ·intro n hn
  apply if_neg
  intro hzero
  rw[hzero]at hn
  exact absurd hn (by decide)
 ·norm_num
 ·intro w hw
  rw[mem_singleton.1 hw]
  decide
 intro number level
 rfl

end OneBlock

end GoCoupe.LogFilterCompleteness
