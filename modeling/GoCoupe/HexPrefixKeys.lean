import GoCoupe.CommonTypes
import Mathlib.Data.List.Infix
import Mathlib.Tactic.FinCases

/-!
# Hex keys and their compact encoding

`trie/encoding.go`. A hex key is a string of nibbles, closed by the terminator 16 when it leads
to a value. The compact encoding packs two nibbles into a byte and keeps terminator and parity
in the first nibble.
-/

namespace GoCoupe.HexPrefixKeys
open List

/-- A nibble, or the terminator 16. -/
abbrev Nibble:=Fin 17

instance neZero_nibbles:NeZero 17:=⟨Nat.succ_ne_zero 16⟩

def highNibble (b:UInt8):Nibble:=⟨b.toNat/16,by have:=b.toNat_lt; omega⟩

def lowNibble (b:UInt8):Nibble:=⟨b.toNat%16,by omega⟩

def nibbles (str:Bytes):List Nibble:=str.flatMap (fun b=>[highNibble b,lowNibble b])

def compactHexDecode (str:Bytes):List Nibble:=nibbles str++[16]

/-- `none` is the panic on an empty string. -/
def compactDecode (str:Bytes):Option (List Nibble):=
 match nibbles str with
 | []=>none
 | first::rest=>
  let base:=if first.val≥2 then first::rest++[16] else first::rest
  if first.val%2=1 then some (base.drop 1) else some (base.drop 2)

def nibbleByte (n:Nibble):UInt8:=UInt8.ofNat n.val

/-- The filling loop of `compactEncode`, started at a byte boundary. -/
def packNibbles:List Nibble→Bytes
 | a::b::rest=>(nibbleByte a <<< 4 ||| nibbleByte b)::packNibbles rest
 | [a]=>[nibbleByte a <<< 4]
 | []=>[]

/-- An odd key has its first nibble in the flag byte. -/
def packHex (terminator:UInt8) (hexSlice:List Nibble):Bytes:=
 if hexSlice.length%2=1 then
  (terminator <<< 5 ||| (1:UInt8) <<< 4 ||| nibbleByte (hexSlice.headD 0)) ::
   packNibbles hexSlice.tail
 else (terminator <<< 5)::packNibbles hexSlice

/-- `none` is the panic on an empty key. -/
def compactEncode (hexSlice:List Nibble):Option Bytes:=
 match hexSlice.getLast? with
 | none=>none
 | some last=>
  if last=16 then some (packHex 1 hexSlice.dropLast) else some (packHex 0 hexSlice)

def prefixLen:List Nibble→List Nibble→ℕ
 | a::as,b::bs=>if a=b then prefixLen as bs+1 else 0
 | _,_=>0

lemma nibbles_pack_byte:∀a b:Nibble,a.val<16→b.val<16 →
 highNibble (nibbleByte a <<< 4 ||| nibbleByte b)=a∧
  lowNibble (nibbleByte a <<< 4 ||| nibbleByte b)=b:=by
 decide

lemma nibbles_packNibbles(l:List Nibble)(h:∀n∈l,n.val<16)
 (heven:l.length%2=0):nibbles (packNibbles l)=l:=by
 induction l using packNibbles.induct with
 | case1 a b rest ih=>
  obtain⟨ha,hb⟩:=nibbles_pack_byte a b (h a (by simp)) (h b (by simp))
  have hrest:=ih (fun n hn=>h n (by simp[hn])) (by simp at heven;omega)
  rw[packNibbles,nibbles,flatMap_cons,ha,hb]
  rw[nibbles]at hrest
  rw[hrest]
  rfl
 | case2 a=>simp at heven
 | case3=>rfl

lemma nibbles_odd_byte:∀(t:Bool) (a:Nibble),a.val<16 →
 highNibble ((if t then 1 else 0:UInt8) <<< 5 ||| (1:UInt8) <<< 4 ||| nibbleByte a) =
  (if t then 3 else 1)∧
  lowNibble ((if t then 1 else 0:UInt8) <<< 5 ||| (1:UInt8) <<< 4 ||| nibbleByte a)=a:=by
 decide

/-- The nibbles of a packed key: two flag nibbles, or one and the first of the key. -/
lemma nibbles_packHex(t:Bool)(l:List Nibble)(h:∀n∈l,n.val<16):
 nibbles (packHex (if t then 1 else 0) l) =
  if l.length%2=1 then (if t then 3 else 1)::l else (if t then 2 else 0)::0::l:=by
 unfold packHex
 by_cases hodd:l.length%2=1
 ·rw[if_pos hodd,if_pos hodd]
  cases l with
  | nil=>simp at hodd
  | cons a rest=>
   obtain⟨hhigh,hlow⟩:=nibbles_odd_byte t a (h a (by simp))
   have hrest:=nibbles_packNibbles rest (fun n hn=>h n (by simp[hn]))
    (by simp at hodd;omega)
   rw[nibbles]at hrest
   rw[headD_cons,tail_cons,nibbles,flatMap_cons,hrest,hhigh,hlow]
   rfl
 rw[if_neg hodd,if_neg hodd]
 have hrest:=nibbles_packNibbles l h (by omega)
 rw[nibbles]at hrest
 rw[nibbles,flatMap_cons,hrest]
 cases t<;>rfl

/-- A hex key as the trie stores it: not empty, and 16 nowhere but at the end. -/
structure HexKey (key:List Nibble):Prop where
 ne_nil:key≠[]
 inner:∀n∈key.dropLast,n.val<16

lemma compactDecode_packHex(t:Bool)(l:List Nibble)(h:∀n∈l,n.val<16):
 compactDecode (packHex (if t then 1 else 0) l)=some (if t then l++[16] else l):=by
 have hn:=nibbles_packHex t l h
 unfold compactDecode
 rw[hn]
 by_cases hodd:l.length%2=1
 ·rw[if_pos hodd]
  cases t<;>rfl
 rw[if_neg hodd]
 cases t<;>rfl

lemma compactDecode_compactEncode(h:HexKey key):
 ∃enc,compactEncode key=some enc∧compactDecode enc=some key:=by
 have hlast:=getLast?_eq_some_getLast h.ne_nil
 have hsplit:=dropLast_append_getLast h.ne_nil
 unfold compactEncode
 rw[hlast]
 dsimp only
 by_cases h16:key.getLast h.ne_nil=16
 ·rw[if_pos h16]
  refine⟨_,rfl,?_⟩
  have:=compactDecode_packHex true key.dropLast h.inner
  simp only[if_true]at this
  rw[this,←h16,hsplit]
 rw[if_neg h16]
 refine⟨_,rfl,?_⟩
 have hall:∀n∈key,n.val<16:=by
  intro n hn
  rw[←hsplit]at hn
  rcases List.mem_append.mp hn with hn|hn
  ·exact h.inner n hn
  rw[List.mem_singleton.mp hn]
  have:(key.getLast h.ne_nil).val≠16:=fun hv=>h16 (Fin.ext hv)
  omega
 have:=compactDecode_packHex false key hall
 simpa using this

end GoCoupe.HexPrefixKeys
