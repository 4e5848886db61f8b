import GoCoupe.RlpValueReading

/-!
# Raw values of a stream

`Stream.Raw` reads a value and puts a new header in front of its content. For a string of 56
bytes or more that is not the header it had: the tag of long strings is `0xB7`.
-/

namespace GoCoupe.RawStreamValues
open RlpEncoding RlpStream RlpStreamReading RlpValueReading List
open RlpRawSplitting hiding readKind

def raws:ℕ→Step (List Bytes)
 | 0=>pure []
 | n+1=>do
  let b ← raw
  let bs ← raws n
  return b::bs

def rawOf:Item→Bytes
 | .string b=>if b.length<56 then encodeString b else puthead 0x80 0xB8 b.length++b
 | .list items=>encode (.list items)

lemma rawOf_eq_encode(x:Item):rawOf x=encode x↔∀b,x=.string b→b.length<56:=by
 cases x with
 | list items=>exact iff_of_true rfl nofun
 | string b=>
  have hstring:(∀c,Item.string b=.string c→c.length<56)↔b.length<56:=
   ⟨fun h=>h b rfl,fun h c hc=>Item.string.inj hc▸h⟩
  rw[rawOf,encode,hstring]
  split
  ·next hlt=>exact iff_of_true rfl hlt
  next hge =>
  refine iff_of_false (fun h=>?_) hge
  rcases encodeString_cases b with⟨x,rfl,-⟩|⟨-,henc,-⟩
  ·exact hge (by simp)
  rw[henc,puthead,puthead,if_neg hge,if_neg hge]at h
  exact absurd (List.cons.inj h).1 (by simp)

variable {s:Stream} {tail:Bytes}

lemma raw_of_encoded(hs:Ready s)(x:Item)(hlen:(encode x).length<2^64)
 (hr:s.r=encode x++tail)(hf:Fits s.stack (encode x).length):
 ∃s',raw s=some (.ok (rawOf x),s')∧Past (encode x).length s s':=by
 cases x with
 | string b=>
  rw[encode]at *
  rw[rawOf]
  rcases string_ahead hs ((length_le_encodeString b).trans_lt hlen) hr hf with
   ⟨x,rfl,henc,hkind⟩ | ⟨hd,hc,hsum,hkind,-,-,hfull⟩
  ·rw[henc]
   refine⟨_,?_,past_rearm hs.toSync [x] .byte 0 x⟩
   rw[raw,bind_of_ok hkind]
   rfl
  rw[hsum]
  refine⟨_,?_,past_content hs.toSync hd .string b.length 0⟩
  rw[raw,bind_of_ok hkind]
  dsimp only
  rw[bind_of_ok hfull]
  split
  ·next hlt =>
   rcases encodeString_cases b with⟨x,hx,hlt,-⟩|⟨-,henc,-⟩
   ·exact absurd (hc x hx) (by omega)
   rw[henc,puthead,puthead,if_pos hlt,if_pos hlt]
   rfl
  rfl
 | list items=>
  rw[rawOf]
  rw[encode,length_append]at *
  rw[append_assoc]at hr
  obtain⟨hkind,-,-,hfull⟩:=read_content hs (.list _ (by omega)) hr hf
  refine⟨_,?_,past_content hs.toSync _ .list _ 0⟩
  rw[raw,bind_of_ok hkind]
  dsimp only
  rw[bind_of_ok hfull]
  rfl

lemma raws_of_encoded(xs:List Item)(hs:Ready s)(hlen:(encodeList xs).length<2^64)
 (hr:s.r=encodeList xs++tail)(hf:Fits s.stack (encodeList xs).length):
 ∃s',raws xs.length s=some (.ok (xs.map rawOf),s'):=by
 induction xs generalizing s with
 | nil=>exact⟨s,rfl⟩
 | cons x xs ih=>
  rw[encodeList,length_append]at hlen hf
  rw[encodeList,append_assoc]at hr
  obtain⟨t,ht,hpast⟩:=raw_of_encoded hs x (by omega) hr (hf.mono (by omega))
  obtain⟨s',hs'⟩:=ih hpast.ready (by omega) (by rw[hpast.r,hr,drop_left])
   (by rw[hpast.stack];exact (fits_addPos (hf.mono (by omega))).2 hf)
  refine⟨s',?_⟩
  rw[length_cons,raws,bind_of_ok ht,bind_of_ok hs']
  rfl

/-- In front of encodings, at the top or in a list, successive calls of `Raw` return them exactly
if no string among the values has 56 bytes or more. -/
theorem raw_returns_encodings_iff (hs : Ready s) {xs : List Item}
    (hlen : (encodeList xs).length < 2 ^ 64) (hr : s.r = encodeList xs ++ tail)
    (hf : Fits s.stack (encodeList xs).length) :
    (∃ s', raws xs.length s = some (.ok (xs.map encode), s')) ↔
      ∀ b, .string b ∈ xs → b.length < 56 := by
 obtain⟨s',hs'⟩:=raws_of_encoded xs hs hlen hr hf
 have heq:(∃s',raws xs.length s=some (.ok (xs.map encode),s')) ↔ xs.map rawOf=xs.map encode:=by
  rw[hs']
  simp
 rw[heq,map_inj_left]
 simp only[rawOf_eq_encode]
 exact⟨fun h b hb=>h _ hb b rfl,fun h x hx b hb=>h b (hb▸hx)⟩

def sampleItems:List Item:=[.string [1,2],.list [.string [3]]]

theorem raw_returns_encodings_short :
    (∃ s', raws sampleItems.length (newStream (encodeList sampleItems)) =
        some (.ok (sampleItems.map encode), s')) ↔
      ∀ b, Item.string b ∈ sampleItems → b.length < 56 :=
 raw_returns_encodings_iff (ready_newStream _) (by decide) (append_nil _).symm (fits_nil _)

/-- A string of 56 bytes comes back with the tag `0xB9`. -/
theorem raw_changes_tag :
    ((raw (newStream (encode (.string (List.replicate 56 0))))).map fun x => x.1) =
      some (.ok (0xB9 :: 56 :: List.replicate 56 0)) ∧
    encode (.string (List.replicate 56 0)) = 0xB8 :: 56 :: List.replicate 56 0 := by
 decide +kernel

end GoCoupe.RawStreamValues
