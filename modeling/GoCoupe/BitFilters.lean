import Mathlib.Data.Nat.Bitwise

/-!
# Numbers as sets of bits

A filter is a number whose bits are the elements it holds. Adding to a filter never takes a
bit away, so a test for an element that was added succeeds for ever.
-/

namespace GoCoupe.BitFilters

/-- Every bit of `item` is a bit of `filter`. -/
def Covers (filter item:ℕ):Prop:=filter &&& item=item

instance decidable_covers (filter item:ℕ):Decidable (Covers filter item):=
 inferInstanceAs (Decidable (filter &&& item=item))

lemma covers_iff:Covers filter item↔∀i,item.testBit i=true→filter.testBit i=true:=by
 constructor
 ·intro h i hi
  have hb:(filter &&& item).testBit i=true:=by rw[h,hi]
  rw[Nat.testBit_and,Bool.and_eq_true]at hb
  exact hb.1
 intro h
 apply Nat.eq_of_testBit_eq
 intro i
 rw[Nat.testBit_and]
 cases hi:item.testBit i with
 | false=>simp
 | true=>simp[h i hi]

lemma covers_refl(filter:ℕ):Covers filter filter:=Nat.and_self filter

lemma Covers.trans(hab:Covers a b)(hbc:Covers b c):Covers a c:=by
 rw[covers_iff]at hab hbc ⊢
 intro i hi
 exact hab i (hbc i hi)

lemma covers_or_left(a b:ℕ):Covers (a ||| b) a:=by
 rw[covers_iff]
 intro i hi
 simp[Nat.testBit_or,hi]

lemma covers_or_right(a b:ℕ):Covers (a ||| b) b:=by
 rw[covers_iff]
 intro i hi
 simp[Nat.testBit_or,hi]

/-- Nothing but the empty element is in the empty filter. -/
lemma not_covers_zero(h:item≠0):¬Covers 0 item:=by
 intro hc
 rw[Covers,Nat.zero_and]at hc
 exact h hc.symm

/-- The filter with the bits of the items of a list added. -/
def addAll {α:Type*} (bits:α→ℕ) (filter:ℕ) (items:List α):ℕ:=
 items.foldl (fun bloom a=>bloom ||| bits a) filter

lemma covers_addAll(bits:α→ℕ)(items:List α)(filter:ℕ):Covers (addAll bits filter items) filter:=by
 induction items generalizing filter with
 | nil=>exact covers_refl filter
 | cons a items ih=>exact (ih (filter ||| bits a)).trans (covers_or_left filter (bits a))

lemma covers_addAll_of_mem(bits:α→ℕ)
 (h:a∈items)(filter:ℕ):Covers (addAll bits filter items) (bits a):=by
 induction items generalizing filter with
 | nil=>cases h
 | cons b items ih=>
  rcases List.mem_cons.1 h with rfl|h
  ·exact (covers_addAll bits items (filter ||| bits a)).trans (covers_or_right filter (bits a))
  exact ih h (filter ||| bits b)

lemma addAll_lt{α:Type*}{bits:α→ℕ}{n:ℕ}(hbits:∀a,bits a<2^n)
 (items:List α){filter:ℕ}(h:filter<2^n):addAll bits filter items<2^n:=by
 induction items generalizing filter with
 | nil=>exact h
 | cons a items ih=>exact ih (Nat.or_lt_two_pow h (hbits a))

end GoCoupe.BitFilters
