import Mathlib.Data.Nat.Log
import Mathlib.Data.List.Induction
import Mathlib.Tactic.Ring
import Mathlib.Tactic.Linarith

/-!
# Big-endian numbers in byte strings

The number a byte string spells, the digits of a number at a fixed width, and its shortest
spelling, which has no leading zero byte.
-/

namespace GoCoupe.BigEndianBytes
open List Nat

/-- The number a byte string spells, most significant byte first. -/
def value (b:List UInt8):ℕ:=b.foldl (fun s x=>s*256+x.toNat) 0

/-- The last `w` base-256 digits of `n`. -/
def fixed:ℕ→ℕ→List UInt8
 | 0,_=>[]
 | w+1,n=>fixed w (n/256)++[UInt8.ofNat n]

/-- The number of base-256 digits of `n`; zero has none. -/
def width (n:ℕ):ℕ:=if n=0 then 0 else n.log2/8+1

/-- The shortest spelling of `n`; zero is the empty string. -/
def shortest (n:ℕ):List UInt8:=fixed (width n) n

@[simp] lemma value_nil:value []=0:=rfl

lemma value_foldl(b:List UInt8)(s:ℕ):b.foldl (fun s x=>s*256+x.toNat) s=s*256^b.length+value b:=by
 induction b generalizing s with
 | nil=>simp
 | cons x b ih=>
  have hval:value (x::b)=(0*256+x.toNat)*256^b.length+value b:=ih _
  rw[foldl_cons,ih,hval,length_cons,pow_succ]
  ring

lemma value_append(b c:List UInt8):value (b++c)=value b*256^c.length+value c:=by
 rw[value,foldl_append,value_foldl]
 rfl

lemma value_cons(x:UInt8)(b:List UInt8):value (x::b)=x.toNat*256^b.length+value b:=by
 rw[value,foldl_cons,value_foldl]
 simp

lemma value_lt(b:List UInt8):value b<256^b.length:=by
 induction b with
 | nil=>simp
 | cons x b ih=>
  have hx:=x.toNat_lt
  rw[value_cons,length_cons,pow_succ]
  nlinarith

@[simp] lemma fixed_length(w n:ℕ):(fixed w n).length=w:=by
 induction w generalizing n with
 | zero=>rfl
 | succ w ih=>simp[fixed,ih]

lemma value_fixed(w n:ℕ):value (fixed w n)=n%256^w:=by
 induction w generalizing n with
 | zero=>simp[fixed,mod_one]
 | succ w ih=>
  have hlast:value [UInt8.ofNat n]=n%256:=by simp[value]
  rw[fixed,value_append,ih,hlast,length_singleton,pow_one,pow_succ]
  rw[mul_comm (256^w),mod_mul]
  ring

lemma value_fixed_of_lt(h:n<256^w):value (fixed w n)=n:=by
 rw[value_fixed,mod_eq_of_lt h]

lemma lt_pow_width(n:ℕ):n<256^width n:=by
 unfold width
 split
 ·simp_all
 have h:n<2^(n.log2+1):=lt_log2_self
 refine h.trans_le ?_
 rw[show (256:ℕ)=2^8 by norm_num,←pow_mul]
 exact Nat.pow_le_pow_right (by norm_num) (by omega)

lemma pow_width_le{n:ℕ}(h:n≠0):256^(width n-1)≤n:=by
 unfold width
 rw[if_neg h]
 refine le_trans ?_ (log2_self_le h)
 rw[show (256:ℕ)=2^8 by norm_num,←pow_mul]
 exact Nat.pow_le_pow_right (by norm_num) (by omega)

lemma value_shortest(n:ℕ):value (shortest n)=n:=value_fixed_of_lt (lt_pow_width n)

/-- The first digit at a fixed width. -/
lemma fixed_succ_eq_cons(w n:ℕ):fixed (w+1) n=UInt8.ofNat (n/256^w)::fixed w n:=by
 induction w generalizing n with
 | zero=>simp[fixed]
 | succ w ih=>
  rw[fixed,ih,cons_append,Nat.div_div_eq_div_mul,←pow_succ']
  rfl

/-- A byte string is the spelling of its number at its own length. -/
lemma fixed_value(b:List UInt8):fixed b.length (value b)=b:=by
 induction b using List.reverseRecOn with
 | nil=>rfl
 | append_singleton b x ih=>
  have hval:value (b++[x])=value b*256+x.toNat:=by
   rw[value_append,value_cons]
   simp
  have hdiv:(value b*256+x.toNat)/256=value b:=by
   have hx:=x.toNat_lt
   omega
  have hlast:UInt8.ofNat (value b*256+x.toNat)=x:=by
   rw[←UInt8.toNat_inj,UInt8.toNat_ofNat']
   have hx:=x.toNat_lt
   omega
  rw[length_append,length_singleton,fixed,hval,hdiv,ih,hlast]

lemma pow_le_value(hb:b≠[])(h0:b.head? ≠ some 0):256^(b.length-1)≤value b:=by
 cases b with
 | nil=>exact absurd rfl hb
 | cons x b=>
  have hx:1≤x.toNat:=by
   rw[one_le_iff_ne_zero]
   intro hx
   exact h0 (congrArg some (UInt8.toNat_inj.1 hx))
  rw[value_cons,length_cons,Nat.add_sub_cancel]
  calc 256^b.length=1*256^b.length:=(one_mul _).symm
   _≤x.toNat*256^b.length:=mul_le_mul_right _ hx
   _≤x.toNat*256^b.length+value b:=le_add_right _ _

end GoCoupe.BigEndianBytes
