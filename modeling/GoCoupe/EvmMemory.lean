import GoCoupe.BigIntegerWords

/-!
# The memory of a running contract

A byte slice that only grows. `none` is a panic of the source. A range that lies `Within` a
memory shorter than `2 ^ 63` is read and written without one.
-/

namespace GoCoupe.EvmMemory

open BigIntegerWords

def slice (store:Bytes) (lo hi:ℤ):Option Bytes:=
 if 0≤lo ∧ lo≤hi ∧ hi ≤ store.length then some ((store.take hi.toNat).drop lo.toNat)
 else none

/-- `Set`; the sum of offset and size wraps around at 64 bits. -/
def set (store:Bytes) (offset size:ℕ) (value:Bytes):Option Bytes:=if store.length < size then none
 else if 0 < size then
  let hi:=(offset+size)%2^64
  if offset≤hi ∧ hi ≤ store.length then
   some (store.take offset++value.take (hi-offset) ++ store.drop (offset+min (hi-offset) value.length))
  else none
 else some store

def setByte (store:Bytes) (off:ℤ) (b:UInt8):Option Bytes:=
 if 0≤off ∧ off < store.length then some (store.set off.toNat b) else none

def resize (store:Bytes) (size:ℕ):Bytes:=
 if store.length < size then store++List.replicate (size-store.length) 0 else store

def get (store:Bytes) (offset size:ℤ):Option Bytes:=if size=0 then some []
 else if offset < store.length then
  if size<0 then none else slice store offset (int64 (offset+size))
 else some []

def getPtr (store:Bytes) (offset size:ℤ):Option Bytes:=if size=0 then some []
 else if offset < store.length then slice store offset (int64 (offset+size))
 else some []

lemma resize_length(store:Bytes)(size:ℕ):(resize store size).length=max store.length size:=by
 unfold resize
 split
 ·simp
  omega
 omega

lemma set_length(h:set store offset size value=some store'):store'.length=store.length:=by
 unfold set at h
 split at h
 ·simp at h
 split at h
 ·dsimp only at h
  split at h
  ·simp only[Option.some.injEq]at h
   subst h
   simp
   omega
  simp at h
 simp only[Option.some.injEq]at h
 rw[h]

lemma setByte_length(h:setByte store off b=some store'):store'.length=store.length:=by
 unfold setByte at h
 split at h
 ·simp only[Option.some.injEq]at h
  rw[←h,List.length_set]
 simp at h

/-- The range of `len` bytes from `off` on lies in the memory; an empty range does anywhere. -/
def Within (store:Bytes) (off len:ℤ):Prop:=len=0 ∨ 0≤off ∧ 0<len ∧ off+len ≤ store.length

namespace Within

variable {store:Bytes} {off len:ℤ}

lemma int64_range(h0:0≤off)(h1:0<len)(h2:off+len ≤ store.length)(hs:store.length<2^63):
 int64 off=off∧int64 len=len∧int64 (off+len)=off+len:=
 ⟨int64_of_lt h0 (by omega),int64_of_lt h1.le (by omega),int64_of_lt (by omega) (by omega)⟩

lemma get_isSome(h:Within store off len)(hs:store.length<2^63):
 (get store (int64 off) (int64 len)).isSome:=by
 rcases h with rfl|⟨h0,h1,h2⟩
 ·rfl
 obtain⟨e1,e2,e3⟩:=int64_range h0 h1 h2 hs
 rw[get,e1,e2,e3,if_neg (by omega),if_pos (by omega),if_neg (by omega),slice,if_pos ⟨h0,by omega,h2⟩]
 rfl

lemma getPtr_isSome(h:Within store off len)(hs:store.length<2^63):
 (getPtr store (int64 off) (int64 len)).isSome:=by
 rcases h with rfl|⟨h0,h1,h2⟩
 ·rfl
 obtain⟨e1,e2,e3⟩:=int64_range h0 h1 h2 hs
 rw[getPtr,e1,e2,e3,if_neg (by omega),if_pos (by omega),slice,if_pos ⟨h0,by omega,h2⟩]
 rfl

lemma set_isSome(h:Within store off len)(hs:store.length<2^63)(value:Bytes):
 (set store (uint64 off) (uint64 len) value).isSome:=by
 rcases h with rfl|⟨h0,h1,h2⟩
 ·simp[set,uint64]
 have e1:=uint64_of_lt h0 (by omega)
 have e2:=uint64_of_lt h1.le (by omega)
 have e3:(uint64 off+uint64 len)%2^64=uint64 off+uint64 len:=Nat.mod_eq_of_lt (by omega)
 rw[set,if_neg (by omega),if_pos (by omega),e3,if_pos ⟨by omega,by omega⟩]
 rfl

lemma setByte_isSome(h:Within store off 1)(hs:store.length<2^63)(b:UInt8):
 (setByte store (int64 off) b).isSome:=by
 rcases h with h|⟨h0,-,h2⟩
 ·omega
 rw[setByte,int64_of_lt h0 (by omega),if_pos ⟨h0,by omega⟩]
 rfl

end Within

end GoCoupe.EvmMemory
