import GoCoupe.BlockWireFormats

/-!
# The wire forms of transactions and blocks

What the decoders accept is the tree that the result is written as, except that the recipient
of a contract creation may be spelled as an empty list.
-/

namespace GoCoupe.BlockWireCanonicity

open BigEndianBytes RlpEncoding RlpStream Reading RlpStreamReading RlpValueReading RlpTypedValues
open List
open RlpTypedEncoding RlpTreeRoundTrip RlpAcceptance BlockWireFormats
open RlpRawSplitting hiding readKind

def natItem (i:ℤ):Item:=.string (shortest i.toNat)

def txItemWith (tx:Transaction) (recipient:Item):Item:=
 .list [.string (shortest tx.accountNonce.toNat),natItem tx.price,natItem tx.gasLimit,recipient,
  natItem tx.amount,.string tx.payload,.string (shortest tx.v.toNat),natItem tx.r,natItem tx.s]

def recipientItem (recipient:Option (List.Vector UInt8 20)):Item:=
 .string ((recipient.map List.Vector.toList).getD [])

def txItem (tx:Transaction):Item:=txItemWith tx (recipientItem tx.recipient)

def headerItem (h:Header):Item:=
 .list [.string h.parentHash.toList,.string h.uncleHash.toList,.string h.coinbase.toList,
  .string h.root.toList,.string h.txHash.toList,.string h.receiptHash.toList,
  .string h.bloom.toList,natItem h.difficulty,natItem h.number,natItem h.gasLimit,
  natItem h.gasUsed,natItem h.time,.string h.extra,.string h.mixDigest.toList,
  .string h.nonce.toList]

def blockItem (b:Block):Item:=
 .list [headerItem b.header,.list (b.transactions.map txItem),.list (b.uncles.map headerItem)]

structure NonNegativeTx (tx:Transaction):Prop where
 price:0≤tx.price
 gasLimit:0≤tx.gasLimit
 amount:0≤tx.amount
 r:0≤tx.r
 s:0≤tx.s

structure NonNegativeHeader (h:Header):Prop where
 difficulty:0≤h.difficulty
 number:0≤h.number
 gasLimit:0≤h.gasLimit
 gasUsed:0≤h.gasUsed
 time:0≤h.time

lemma writePtr_eq(x:Option (List.Vector UInt8 20))(w:EncBuf):
 writePtr x w=w.writeItem (recipientItem x):=by
 cases x with
 | none=>
  rw[recipientItem,EncBuf.writeItem,encodeString_write]
  rfl
 | some b=>rfl

lemma writeTransaction_eq(h:NonNegativeTx tx)(w:EncBuf):
 writeTransaction tx w=.ok (w.writeItem (txItem tx)):=by
 apply writeList_eq
 intro w
 rw[txdataWriter,writeUint_eq (tx.accountNonce.isLt.trans_le (by norm_num)),writeBigInt_eq h.price]
 dsimp only[bind,Except.bind]
 rw[writeBigInt_eq h.gasLimit]
 dsimp only
 rw[writePtr_eq,writeBigInt_eq h.amount]
 dsimp only
 rw[writeUint_eq (tx.v.isLt.trans_le (by norm_num)),writeBigInt_eq h.r]
 dsimp only
 rw[writeBigInt_eq h.s]
 rfl

lemma writeHeader_eq(h:NonNegativeHeader hd)(w:EncBuf):
 writeHeader hd w=.ok (w.writeItem (headerItem hd)):=by
 apply writeList_eq
 intro w
 rw[headerWriter]
 dsimp only
 rw[writeBigInt_eq h.difficulty]
 dsimp only[bind,Except.bind]
 rw[writeBigInt_eq h.number]
 dsimp only
 rw[writeBigInt_eq h.gasLimit]
 dsimp only
 rw[writeBigInt_eq h.gasUsed]
 dsimp only
 rw[writeBigInt_eq h.time]
 rfl

structure NonNegativeBlock (b:Block):Prop where
 header:NonNegativeHeader b.header
 transactions:∀tx∈b.transactions,NonNegativeTx tx
 uncles:∀h∈b.uncles,NonNegativeHeader h

lemma writeBlock_eq(h:NonNegativeBlock b)(w:EncBuf):
 writeBlock b w=.ok (w.writeItem (blockItem b)):=by
 apply writeList_eq
 intro w
 rw[extblockWriter,writeHeader_eq h.header]
 dsimp only[bind,Except.bind]
 rw[writeList_eq (writeElements_eq (fun tx htx=>writeTransaction_eq (h.transactions tx htx)))]
 dsimp only
 rw[writeList_eq (writeElements_eq (fun hd hhd=>writeHeader_eq (h.uncles hd hhd)))]
 rfl

lemma encodeWith_eq
 (h:∀w,write w=.ok (w.writeItem item)):encodeWith write=.ok (some (encode item)):=by
 rw[encodeWith,h,←toBytes_writeItem]
 rfl

section Decoders

variable {α:Type}

def RecipientSpelled (recipient:Option (List.Vector UInt8 20)) (item:Item):Prop:=
 item=recipientItem recipient ∨ (recipient=none ∧ item=.list [])

def TxSpelled (tx:Transaction) (item:Item):Prop:=
 NonNegativeTx tx ∧ ∃recipient,RecipientSpelled tx.recipient recipient ∧ item=txItemWith tx recipient

def HeaderSpelled (h:Header) (item:Item):Prop:=NonNegativeHeader h ∧ item=headerItem h

def BlockSpelled (b:Block) (item:Item):Prop:=
 NonNegativeBlock b ∧ ∃txs,Forall₂ TxSpelled b.transactions txs ∧
  item=.list [headerItem b.header,.list txs,.list (b.uncles.map headerItem)]

variable {n:ℕ} {typ:GoType} {fields:Decoder α} {stands:α→Item→Prop} {items:List Item}

lemma decodeByteArray_again(s t:Stream)(x:Kind × ℕ)(h:kind s=some (.ok x,t)):
 decodeByteArray n t=decodeByteArray n s:=by
 rw[decodeByteArray,bind_of_ok (lift_eq_ok.2 h),bind_of_ok (lift_eq_ok.2 (kind_again h))]

lemma accepts_recipient:AcceptsAs (decodeOptionalPtr (decodeByteArray 20)) RecipientSpelled:=by
 refine acceptsAs_mono
  (accepts_optionalPtr (accepts_byteArray (by norm_num)) decodeByteArray_again) ?_
 rintro x item (⟨b,rfl,rfl⟩|⟨rfl,rfl|rfl⟩)
 ·exact Or.inl rfl
 ·exact Or.inl rfl
 exact Or.inr ⟨rfl,rfl⟩

lemma accepts_uintAs(w:Width):AcceptsAs (decodeUint w)
 (fun x item=>item=.string (shortest x.toNat)):=acceptsAs_of_accepts (accepts_uint w)

lemma accepts_bytesAs:AcceptsAs (wrap .bytes bytes) (fun b item=>item=.string b):=
 acceptsAs_of_accepts (accepts_bytes .bytes)

lemma accepts_arrayAs(hn:2≤n):AcceptsAs (decodeByteArray n)
 (fun b item=>item=.string b.toList):=acceptsAs_of_accepts (accepts_byteArray hn)

lemma accepts_txdata:AcceptsAs (structOf txdataType txdataFields) TxSpelled:=by
 apply accepts_structOf
 apply acceptsFields_bind (accepts_uintAs .w64)
 rintro nonce _ rfl
 apply acceptsFields_bind accepts_bigInt
 rintro price _ ⟨hprice,rfl⟩
 apply acceptsFields_bind accepts_bigInt
 rintro gasLimit _ ⟨hgasLimit,rfl⟩
 apply acceptsFields_bind accepts_recipient
 intro recipient item hrecipient
 apply acceptsFields_bind accepts_bigInt
 rintro amount _ ⟨hamount,rfl⟩
 apply acceptsFields_bind accepts_bytesAs
 rintro payload _ rfl
 apply acceptsFields_bind (accepts_uintAs .w8)
 rintro v _ rfl
 apply acceptsFields_bind accepts_bigInt
 rintro r _ ⟨hr,rfl⟩
 apply acceptsFields_bind accepts_bigInt
 rintro s _ ⟨hs,rfl⟩
 apply acceptsFields_pure
 exact⟨⟨hprice,hgasLimit,hamount,hr,hs⟩,item,hrecipient,rfl⟩

/-- A hash, an address or a bloom filter among the fields of a struct. -/
lemma acceptsFields_array(hn:2≤n){stands:β→List Item→Prop}
 (hk:∀b,AcceptsFields (k b) (fun x rest=>stands x (.string b.toList::rest))):
 AcceptsFields (field typ name (decodeByteArray n)>>=k) stands:=by
 apply acceptsFields_bind (accepts_arrayAs hn)
 rintro b _ rfl
 exact hk b

lemma accepts_header:AcceptsAs decodeHeader HeaderSpelled:=by
 apply accepts_structOf
 apply acceptsFields_array (by norm_num)
 intro parentHash
 apply acceptsFields_array (by norm_num)
 intro uncleHash
 apply acceptsFields_array (by norm_num)
 intro coinbase
 apply acceptsFields_array (by norm_num)
 intro root
 apply acceptsFields_array (by norm_num)
 intro txHash
 apply acceptsFields_array (by norm_num)
 intro receiptHash
 apply acceptsFields_array (by norm_num)
 intro bloom
 apply acceptsFields_bind accepts_bigInt
 rintro difficulty _ ⟨hdifficulty,rfl⟩
 apply acceptsFields_bind accepts_bigInt
 rintro number _ ⟨hnumber,rfl⟩
 apply acceptsFields_bind accepts_bigInt
 rintro gasLimit _ ⟨hgasLimit,rfl⟩
 apply acceptsFields_bind accepts_bigInt
 rintro gasUsed _ ⟨hgasUsed,rfl⟩
 apply acceptsFields_bind accepts_bigInt
 rintro time _ ⟨htime,rfl⟩
 apply acceptsFields_bind accepts_bytesAs
 rintro extra _ rfl
 apply acceptsFields_array (by norm_num)
 intro mixDigest
 apply acceptsFields_array (by norm_num)
 intro nonce
 apply acceptsFields_pure
 exact⟨⟨hdifficulty,hnumber,hgasLimit,hgasUsed,htime⟩,rfl⟩

/-- Asking for the kind ahead first makes no difference to a struct. -/
lemma structOf_again(h:kind s=some (.ok x,t)):structOf typ fields t=structOf typ fields s:=by
 have hlist:wrap typ list t=wrap typ list s:=by
  rw[wrap,mapError,list_again h]
  rfl
 rw[structOf,bind_apply,bind_apply,hlist]

lemma structOf_of_error(h:kind t=some (.error e,t))(hdec:structOf typ fields t=some (res,s')):
 res=.error (wrapStreamError typ e)∧s'=t:=by
 have hlist:wrap typ list t=some (.error (wrapStreamError typ e),t):=by
  rw[wrap,mapError,list,bind_of_error h]
  rfl
 rw[structOf,bind_of_error hlist]at hdec
 simpa[eq_comm]using hdec

lemma accepts_decodeSized(h:AcceptsAs (structOf typ fields) stands):
 AcceptsAs (decodeSized typ (structOf typ fields)) stands:=by
 intro s s' x hs hdec
 rw[decodeSized,bind_eq_ok]at hdec
 obtain⟨res,t,hres,hdec⟩:=hdec
 rw[observe_eq_ok]at hres
 rw[decodeInto,mapError_eq_ok]at hdec
 rcases res with e|y
 ·exact absurd (structOf_of_error (kind_again hres) hdec).1 (by simp)
 rw[structOf_again hres]at hdec
 exact h s s' x hs hdec

lemma nameTarget_eq_eol(h:nameTarget typ e=.stream .eol):e=.stream .eol:=by
 rcases e with e|⟨msg,t,_|⟨c,cs⟩⟩ | _
 all_goals simp_all[nameTarget]

lemma endsOnly_decodeSized(h:NeverEnds fields):EndsOnly (decodeSized typ (structOf typ fields)):=by
 intro s s' hdec
 rw[decodeSized]at hdec
 rcases bind_eq_error.1 hdec with hdec|⟨res,t,hres,hdec⟩
 ·exact absurd hdec (avoids_observe kind s s')
 rw[observe_eq_ok]at hres
 rw[decodeInto,mapError_eq_error]at hdec
 obtain⟨e,he,hdec⟩:=hdec
 rw[nameTarget_eq_eol he]at hdec
 have hkind:=endsOnly_structOf h t s' hdec
 rcases res with e'|y
 ·rw[kind_again hres]at hkind
  obtain⟨rfl,rfl⟩:e'=.eol∧t=s':=by simpa using hkind
  exact hres
 rw[kind_again hres]at hkind
 simp at hkind

lemma neverEnds_txdataFields:NeverEnds txdataFields:=by
 repeat refine avoids_bind (neverEnds_field _ _ _) fun _=>?_
 exact avoids_pure _

lemma neverEnds_headerFields:NeverEnds headerFields:=by
 repeat refine avoids_bind (neverEnds_field _ _ _) fun _=>?_
 exact avoids_pure _

lemma accepts_transaction:AcceptsAs decodeTransaction TxSpelled:=accepts_decodeSized accepts_txdata

lemma headerItems(h:Forall₂ HeaderSpelled hs items):
 (∀hd∈hs,NonNegativeHeader hd)∧items=hs.map headerItem:=by
 induction h with
 | nil=>exact⟨fun hd hhd=>absurd hhd not_mem_nil,rfl⟩
 | cons hx _ ih=>
  refine⟨forall_mem_cons.2 ⟨hx.1,ih.1⟩,?_⟩
  rw[hx.2,ih.2,map_cons]

lemma nonNegative_of_spelled(h:Forall₂ TxSpelled txs items):∀tx∈txs,NonNegativeTx tx:=by
 induction h with
 | nil=>exact fun tx htx=>absurd htx not_mem_nil
 | cons hx _ ih=>exact forall_mem_cons.2 ⟨hx.1,ih⟩

lemma accepts_block(fuel:ℕ):AcceptsAs (decodeBlock fuel) BlockSpelled:=by
 have htxs:=decodeListSlice_acceptsAs accepts_transaction
  (endsOnly_decodeSized neverEnds_txdataFields) fuel (.slice txdataType)
 have huncles:=decodeListSlice_acceptsAs accepts_header
  (endsOnly_structOf neverEnds_headerFields) fuel (.slice headerType)
 apply accepts_decodeSized
 apply accepts_structOf
 apply acceptsFields_bind accepts_header
 rintro header _ ⟨hheader,rfl⟩
 apply acceptsFields_bind htxs
 rintro txs _ ⟨txItems,rfl,htxItems⟩
 apply acceptsFields_bind huncles
 rintro uncles _ ⟨uncleItems,rfl,huncleItems⟩
 apply acceptsFields_pure
 obtain⟨hnonneg,rfl⟩:=headerItems huncleItems
 exact⟨⟨hheader,nonNegative_of_spelled htxItems,hnonneg⟩,txItems,htxItems,rfl⟩

/-- `DecodeBytes` accepts nothing but the encoding of a tree that stands for the result. -/
lemma encoded_of_decodeBytesWith(hacc:AcceptsAs dec stands)
 (h:decodeBytesWith typ dec b=some (.ok x)):
 ∃item,stands x item∧b=encode item:=by
 rw[decodeBytesWith]at h
 rcases hdec:decodeInto typ dec (newStream b) with _|⟨e|y,s'⟩
 ·simp[hdec]at h
 ·simp[hdec]at h
 rw[hdec]at h
 dsimp only at h
 split at h
 ·simp at h
 rename_i hempty
 obtain rfl:y=x:=by simpa using h
 obtain⟨item,tail,hitem,hr,hpast⟩:=hacc (newStream b) s' y (ready_newStream b) (mapError_eq_ok.1 hdec)
 have hnil:s'.r=[]:=length_eq_zero_iff.1 (by omega)
 have htail:tail=[]:=by
  rw[←hnil,hpast.r,hr,drop_left]
 refine⟨item,hitem,?_⟩
 rw[htail,append_nil]at hr
 exact hr

end Decoders

section Forms

lemma encode_inj(hsize:(encode x).length<2^64)(h:encode x=encode y):x=y:=by
 have hdec:∀z:Item,(encode z).length<2^64 →
  decodeBytes ((encode z).length+1) .interface (encode z)=some (.ok z):=by
  intro z hz
  have hreads:Reads (decoder ((encode z).length+1) .interface) z z True:=by
   rw[decoder]
   exact decodeInterface_reads (Nat.lt_succ_self _) hz True
  exact decodeBytes_of_reads hreads
 have hx:=hdec x hsize
 rw[h]at hx hsize
 rw[hdec y hsize]at hx
 exact (Except.ok.inj (Option.some.inj hx)).symm

/-- The tree does not spell a missing recipient as an empty list. -/
def PlainTx (item:Item):Prop:=∀fields,item=.list fields→fields[3]? ≠ some (.list [])

/-- The input is a transaction whose recipient is not spelled as an empty list. -/
def PlainTxBytes (b:Bytes):Prop:=∀item,b=encode item→PlainTx item

/-- The input is a block none of whose transactions has its recipient spelled so. -/
def PlainBlockBytes (b:Bytes):Prop:=
 ∀items txs,b=encode (.list items)→items[1]?=some (.list txs)→∀tx∈txs,PlainTx tx

lemma plainTx_txItem(tx:Transaction):PlainTx (txItem tx):=by
 intro fields h hlist
 obtain rfl:=Item.list.inj h
 simp[recipientItem]at hlist

variable {tx:Transaction} {b:Bytes} {block:Block} {fuel:ℕ}

lemma txSpelled_plain(h:TxSpelled tx item)(hplain:PlainTx item):item=txItem tx:=by
 obtain⟨-,recipient,hrecipient|⟨-,hlist⟩,rfl⟩:=h
 ·rw[txItem,hrecipient]
 exact absurd (by rw[hlist];rfl) (hplain _ rfl)

lemma txsSpelled_plain(h:Forall₂ TxSpelled txs items)(hplain:∀item∈items,PlainTx item):
 items=txs.map txItem:=by
 induction h with
 | nil=>rfl
 | cons hx _ ih=>
  obtain⟨hfirst,hrest⟩:=forall_mem_cons.1 hplain
  rw[map_cons,txSpelled_plain hx hfirst,ih hrest]

lemma decoded_tx(h:decodeBytesWith txdataType decodeTransaction b=some (.ok tx)):
 ∃item,TxSpelled tx item∧b=encode item:=
 encoded_of_decodeBytesWith accepts_transaction h

lemma encodeTx_eq(h:TxSpelled tx item):
 encodeWith (writeTransaction tx)=.ok (some (encode (txItem tx))):=
 encodeWith_eq (writeTransaction_eq h.1)

lemma plain_tx_iff(hsize:b.length<2^63)
 (h:decodeBytesWith txdataType decodeTransaction b=some (.ok tx)):
 encodeWith (writeTransaction tx)=.ok (some b)↔PlainTxBytes b:=by
 obtain⟨item,hitem,rfl⟩:=decoded_tx h
 rw[encodeTx_eq hitem]
 constructor
 ·intro heq item' hitem'
  have henc:encode item'=encode (txItem tx):=hitem'.symm.trans (Option.some.inj (Except.ok.inj heq)).symm
  rw[encode_inj (by rw[←hitem'];exact hsize.trans (by norm_num)) henc]
  exact plainTx_txItem tx
 intro hplain
 rw[txSpelled_plain hitem (hplain item rfl)]

lemma eq_of_plain_tx(h:decodeBytesWith txdataType decodeTransaction b=some (.ok tx))
 (hplain:PlainTxBytes b):b=encode (txItem tx):=by
 obtain⟨item,hitem,rfl⟩:=decoded_tx h
 rw[txSpelled_plain hitem (hplain item rfl)]

lemma decoded_block(h:decodeBytesWith extblockType (decodeBlock fuel) b=some (.ok block)):
 ∃item,BlockSpelled block item∧b=encode item:=
 encoded_of_decodeBytesWith (accepts_block fuel) h

lemma eq_of_plain_block(h:decodeBytesWith extblockType (decodeBlock fuel) b=some (.ok block))
 (hplain:PlainBlockBytes b):b=encode (blockItem block):=by
 obtain⟨item,⟨-,txs,htxs,rfl⟩,rfl⟩:=decoded_block h
 rw[txsSpelled_plain htxs (hplain _ txs rfl rfl),blockItem]

lemma plain_block_iff(hsize:b.length<2^63)
 (h:decodeBytesWith extblockType (decodeBlock fuel) b=some (.ok block)):
 encodeWith (writeBlock block)=.ok (some b)↔PlainBlockBytes b:=by
 obtain⟨item,hitem,hb⟩:=decoded_block h
 rw[encodeWith_eq (writeBlock_eq hitem.1)]
 constructor
 ·intro heq items txs hitems htxs
  have henc:encode (.list items)=encode (blockItem block):=
   hitems.symm.trans (Option.some.inj (Except.ok.inj heq)).symm
  have hinj:=encode_inj (by rw[←hitems];exact hsize.trans (by norm_num)) henc
  rw[Item.list.inj hinj]at htxs
  obtain rfl:=Item.list.inj (Option.some.inj htxs)
  intro tx htx
  obtain⟨tx,-,rfl⟩:=mem_map.1 htx
  exact plainTx_txItem tx
 intro hplain
 rw[←eq_of_plain_block h hplain]

/-- What is decoded is written as it was received exactly if no missing recipient is spelled as
an empty list. Among such inputs no two decode to the same value, and the hash of a transaction
is that of its bytes. -/
theorem wire_form_iff (keccak : Bytes → Hash) {b : Bytes} (hsize : b.length < 2 ^ 63) :
    (∀ tx, decodeBytesWith txdataType decodeTransaction b = some (.ok tx) →
      (encodeWith (writeTransaction tx) = .ok (some b) ↔ PlainTxBytes b) ∧
      (PlainTxBytes b → txHash keccak tx = keccak b ∧
        ∀ b', decodeBytesWith txdataType decodeTransaction b' = some (.ok tx) →
          PlainTxBytes b' → b' = b)) ∧
    ∀ fuel block, decodeBytesWith extblockType (decodeBlock fuel) b = some (.ok block) →
      (encodeWith (writeBlock block) = .ok (some b) ↔ PlainBlockBytes b) ∧
      (PlainBlockBytes b → ∀ fuel' b',
        decodeBytesWith extblockType (decodeBlock fuel') b' = some (.ok block) →
          PlainBlockBytes b' → b' = b) := by
 constructor
 · intro tx h
   have hiff:=plain_tx_iff hsize h
   refine⟨hiff,fun hplain=>⟨?_,fun b' h' hplain'=>?_⟩⟩
   · rw[txHash,hiff.2 hplain]
   rw[eq_of_plain_tx h hplain,eq_of_plain_tx h' hplain']
 intro fuel block h
 refine⟨plain_block_iff hsize h,fun hplain fuel' b' h' hplain'=>?_⟩
 rw[eq_of_plain_block h hplain,eq_of_plain_block h' hplain']

end Forms

namespace Creation

def tx:Transaction:=
 {accountNonce:=0,price:=0,gasLimit:=0,recipient:=none,amount:=0,payload:=[],v:=27,r:=1,s:=2}

/-- The creation with its recipient spelled as an empty string. -/
def plainBytes:Bytes:=[0xC9,0x80,0x80,0x80,0x80,0x80,0x80,0x1B,0x01,0x02]

/-- The same with an empty list. -/
def otherBytes:Bytes:=[0xC9,0x80,0x80,0x80,0xC0,0x80,0x80,0x1B,0x01,0x02]

lemma decode_plainBytes:decodeBytesWith txdataType decodeTransaction plainBytes=some (.ok tx):=rfl

/-- Both are decoded to the same transaction, which is written as the first only. -/
theorem two_wire_forms :
    decodeBytesWith txdataType decodeTransaction plainBytes = some (.ok tx) ∧
    decodeBytesWith txdataType decodeTransaction otherBytes = some (.ok tx) ∧
    encodeWith (writeTransaction tx) = .ok (some plainBytes) ∧ plainBytes ≠ otherBytes :=
 ⟨rfl,rfl,rfl,by decide⟩

def header:Header:=
 {parentHash:=.replicate 32 1,uncleHash:=.replicate 32 2,coinbase:=.replicate 20 3,
  root:=.replicate 32 4,txHash:=.replicate 32 5,receiptHash:=.replicate 32 6,
  bloom:=.replicate 256 0,difficulty:=131072,number:=1,gasLimit:=4712388,
  gasUsed:=21000,time:=1438269988,extra:=[],mixDigest:=.replicate 32 7,
  nonce:=.replicate 8 8}

def blockBytes:Bytes:=encode (blockItem {header:=header,transactions:=[tx],uncles:=[header]})

def holdsOneTx:Option (Except DecodeError Block)→Bool
 | some (.ok block)=>block.transactions.length == 1
 | _=>false

lemma exists_of_holdsOneTx(h:holdsOneTx res=true):∃block,res=some (.ok block):=by
 rcases res with _|e|block
 ·cases h
 ·cases h
 exact⟨block,rfl⟩

theorem wire_form_of_creation :
    (PlainTxBytes plainBytes ∧ txHash (fun b => Fin.ofNat _ (value b)) tx =
      Fin.ofNat _ (value plainBytes)) ∧
    ∃ block, decodeBytesWith extblockType (decodeBlock 3) blockBytes = some (.ok block) ∧
      (encodeWith (writeBlock block) = .ok (some blockBytes) ↔ PlainBlockBytes blockBytes) := by
 have h:=(wire_form_iff (fun b=>Fin.ofNat _ (value b))
  (show plainBytes.length<2^63 by decide)).1 tx decode_plainBytes
 have hplain:PlainTxBytes plainBytes:=h.1.1 rfl
 refine⟨⟨hplain,(h.2 hplain).1⟩,?_⟩
 have hone:holdsOneTx (decodeBytesWith extblockType (decodeBlock 3) blockBytes)=true:=by
  decide +kernel
 have hlen:blockBytes.length<2^63:=by decide +kernel
 obtain⟨block,hblock⟩:=exists_of_holdsOneTx hone
 exact⟨block,hblock,((wire_form_iff (fun b=>Fin.ofNat _ (value b)) hlen).2 3 block hblock).1⟩

end Creation

end GoCoupe.BlockWireCanonicity
