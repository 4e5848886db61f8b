import GoCoupe.HeaderValidation
import Mathlib.Algebra.Order.Ring.Int

/-!
# The rules for headers

The checks of `HeaderValidation` against the rules that they stand for: the difficulty formula
over a fixed minimum and unbounded times, the rules of a header, and the gas limit of
`CalcGasLimit`.
-/

namespace GoCoupe.HeaderRules
open HeaderValidation

/-- The difficulty before the period is added, without a minimum. -/
def adjusted (time parentTime parentDiff:ℤ):ℤ:=
 if time-parentTime<durationLimit then parentDiff+parentDiff/difficultyBoundDivisor
 else parentDiff-parentDiff/difficultyBoundDivisor

def periodCount (parentNumber:ℤ):ℤ:=(parentNumber+1)/expDiffPeriod

def bomb (parentNumber:ℤ):ℤ:=
 if 1<periodCount parentNumber then 2^(periodCount parentNumber-2).toNat else 0

def difficulty (time parentTime parentNumber parentDiff:ℤ):ℤ:=
 max (adjusted time parentTime parentDiff) minimumDifficulty+bomb parentNumber

structure Call where
 time:ℕ
 parentTime:ℕ
 parentNumber:ℤ
 parentDiff:ℤ

def Call.run (c:Call) (minimum:ℤ):ℤ × ℤ:=
 calcDifficulty c.time c.parentTime c.parentNumber c.parentDiff minimum

def Call.formula (c:Call):ℤ:=difficulty c.time c.parentTime c.parentNumber c.parentDiff

def minimumAfter (calls:List Call) (minimum:ℤ):ℤ:=calls.foldl (fun m c=>(c.run m).2) minimum

/-- The period is added to the minimum itself. -/
def Call.Raises (c:Call) (minimum:ℤ):Prop:=
 adjusted c.time c.parentTime c.parentDiff < minimum ∧ 1<periodCount c.parentNumber

lemma calcDifficulty_eq(time parentTime:ℕ)(parentNumber parentDiff minimum:ℤ):
 calcDifficulty time parentTime parentNumber parentDiff minimum =
  (max (adjusted time parentTime parentDiff) minimum+bomb parentNumber,
   if adjusted time parentTime parentDiff < minimum then minimum+bomb parentNumber
   else minimum):=by
 have hpos:(0:ℤ)<2^((parentNumber+1)/expDiffPeriod-2).toNat:=Int.pow_pos (by decide)
 unfold calcDifficulty bomb periodCount
 dsimp only
 rw[←adjusted]
 by_cases hlow:adjusted time parentTime parentDiff < minimum
 ·rw[max_eq_right hlow.le]
  by_cases hperiod:1<(parentNumber+1)/expDiffPeriod
  ·simp[hlow,hperiod]
  simp[hlow,hperiod]
 rw[max_eq_left (not_lt.mp hlow)]
 by_cases hperiod:1<(parentNumber+1)/expDiffPeriod
 ·simp only[hlow,hperiod,if_true,if_false,decide_false,Bool.false_eq_true]
  rw[if_neg (by omega)]
 simp[hlow,hperiod]

variable {c:Call} {minimum:ℤ}

lemma bomb_pos(h:1<periodCount n):0<bomb n:=by
 rw[bomb,if_pos h]
 exact Int.pow_pos (by decide)

lemma Call.lt_run(h:c.Raises minimum):minimum<(c.run minimum).2:=by
 rw[Call.run,calcDifficulty_eq]
 dsimp only
 rw[if_pos h.1]
 exact lt_add_of_pos_right _ (bomb_pos h.2)

lemma Call.run_of_not_raises(h:¬c.Raises minimum):(c.run minimum).2=minimum:=by
 rw[Call.run,calcDifficulty_eq]
 dsimp only
 split
 ·next hlow=>rw[bomb,if_neg fun hperiod=>h ⟨hlow,hperiod⟩,add_zero]
 rfl

lemma le_minimumAfter(calls:List Call)(minimum:ℤ):minimum ≤ minimumAfter calls minimum:=by
 induction calls generalizing minimum with
 | nil=>exact le_rfl
 | cons c calls ih=>
  refine le_trans ?_ (ih _)
  by_cases h:c.Raises minimum
  ·exact (Call.lt_run h).le
  exact (Call.run_of_not_raises h).ge

lemma minimumAfter_eq_iff(calls:List Call):
 minimumAfter calls minimum=minimum↔∀c∈calls,¬c.Raises minimum:=by
 induction calls with
 | nil=>simp[minimumAfter]
 | cons c calls ih=>
  rw[List.forall_mem_cons]
  by_cases h:c.Raises minimum
  ·have hlt:=(Call.lt_run h).trans_le (le_minimumAfter calls _)
   exact iff_of_false hlt.ne' fun hall=>hall.1 h
  rw[minimumAfter,List.foldl_cons,Call.run_of_not_raises h]
  exact ih.trans (and_iff_right h).symm

/-- After a sequence of calls every further call gives the difficulty formula exactly if no call
of the sequence was below the minimum at a height where the period counts. -/
theorem result_eq_formula_iff (calls : List Call) :
    (∀ c : Call, (c.run (minimumAfter calls minimumDifficulty)).1 = c.formula) ↔
      ∀ c ∈ calls, ¬ c.Raises minimumDifficulty := by
 rw[←minimumAfter_eq_iff]
 constructor
 · intro h
   have hlow:=h ⟨0,0,0,0⟩
   have hle:=le_minimumAfter calls minimumDifficulty
   rw[Call.run,calcDifficulty_eq,Call.formula,difficulty] at hlow
   generalize minimumAfter calls minimumDifficulty=m at hlow hle ⊢
   simp[adjusted,bomb,periodCount,minimumDifficulty] at hlow hle ⊢
   omega
 intro h c
 rw[h,Call.run,calcDifficulty_eq]
 rfl

/-- A block of low difficulty at the second period raises the minimum of all later calls. -/
theorem difficulty_depends_on_history :
    (Call.run ⟨20, 0, 0, 0⟩ (minimumAfter [⟨20, 0, 199999, 0⟩] minimumDifficulty)).1 = 131073 ∧
      Call.formula ⟨20, 0, 0, 0⟩ = 131072 := by
 decide +kernel

variable (hash:Header→Hash) (verify:Header→Bool)

/-- The rules but the one for the difficulty. A time of an uncle has 256 bits. -/
structure Obeys (now:ℤ) (header parent:Header) (uncle:Bool):Prop where
 extra:(header.extra.length:ℤ) ≤ maximumExtraDataSize
 later:parent.time<header.time
 present:uncle=false→header.time≤now
 bits:uncle=true→header.time ≤ maxBig
 minGas:minGasLimit≤header.gasLimit
 gas:(parent.gasLimit-header.gasLimit).natAbs<parent.gasLimit/gasLimitBoundDivisor
 number:header.number=parent.number+1

def Accepts (now:ℤ) (header parent:Header) (uncle:Bool):Prop:=
 (validateHeader hash verify now header parent false uncle minimumDifficulty).1=.ok ()

lemma check_eq_ok{p:Prop}[Decidable p]{e:HeaderError}{x:Except HeaderError Unit}:
 (if p then .error e else x)=.ok ()↔¬p∧x=.ok ():=by
 split
 ·next hp=>exact iff_of_false nofun fun h=>h.1 hp
 next hp=>exact (and_iff_right hp).symm

lemma validateRest_eq_ok(header parent:Header):
 validateRest hash verify header parent false=.ok ()↔minGasLimit≤header.gasLimit∧
  (parent.gasLimit-header.gasLimit).natAbs<parent.gasLimit/gasLimitBoundDivisor∧
  header.number=parent.number+1:=by
 simp only[validateRest,check_eq_ok,Bool.false_eq_true,false_and,not_false_eq_true,and_true]
 omega

lemma accepts_iff(now:ℤ)(header parent:Header)(uncle:Bool):
 Accepts hash verify now header parent uncle↔Obeys now header parent uncle∧
  header.difficulty=difficulty (uint64 header.time) (uint64 parent.time) parent.number
   parent.difficulty:=by
 rw[Accepts,validateHeader,calcDifficulty_eq,←difficulty]
 simp only[apply_ite Prod.fst,check_eq_ok,validateRest_eq_ok]
 constructor
 ·rintro⟨hextra,hbits,hnow,hlater,hdiff,hmin,hgas,hnumber⟩
  refine⟨⟨by omega,by omega,fun hu=>?_,fun hu=>?_,hmin,hgas,hnumber⟩,by omega⟩
  ·exact not_lt.mp fun hlt=>hnow ⟨by simp[hu],hlt⟩
  exact not_lt.mp fun hlt=>hbits ⟨hu,hlt⟩
 rintro⟨h,hdiff⟩
 refine⟨not_lt.mpr h.extra,fun hu=>?_,fun hu=>?_,not_not.mpr h.later,not_not.mpr hdiff.symm,
  h.minGas,h.gas,h.number⟩
 ·exact absurd hu.2 (not_lt.mpr (h.bits hu.1))
 exact absurd hu.2 (not_lt.mpr (h.present (Bool.eq_false_iff.mpr hu.1)))

lemma difficulty_eq_iff(time parentTime time' parentTime' n d:ℤ):
 difficulty time parentTime n d=difficulty time' parentTime' n d↔
  (time-parentTime<durationLimit↔time'-parentTime'<durationLimit)∨
  max (d+d/difficultyBoundDivisor) minimumDifficulty =
   max (d-d/difficultyBoundDivisor) minimumDifficulty:=by
 rw[difficulty,difficulty,add_left_inj,adjusted,adjusted]
 by_cases h:time-parentTime<durationLimit
 ·by_cases h':time'-parentTime'<durationLimit
  ·simp[h,h']
  simp[h,h']
 by_cases h':time'-parentTime'<durationLimit
 ·simp[h,h',eq_comm]
 simp[h,h']

/-- Headers are accepted exactly under the rules, whatever difficulty they carry, if and only if
they break a rule other than that of the difficulty, or the times cut to 64 bits are within the
duration limit as the times themselves are, or the difficulty is the same on both sides of it. -/
theorem accepts_rules_iff (now : ℤ) (header parent : Header) (uncle : Bool) :
    (∀ d : ℤ, Accepts hash verify now { header with difficulty := d } parent uncle ↔
        Obeys now {header with difficulty:=d} parent uncle ∧
          d = difficulty header.time parent.time parent.number parent.difficulty) ↔
      (Obeys now header parent uncle →((uint64 header.time:ℤ) - uint64 parent.time < durationLimit ↔
          header.time - parent.time < durationLimit) ∨
        max (parent.difficulty + parent.difficulty/difficultyBoundDivisor) minimumDifficulty =
          max (parent.difficulty - parent.difficulty/difficultyBoundDivisor)
            minimumDifficulty):=by
 have hsame:∀d:ℤ,Obeys now {header with difficulty:=d} parent uncle ↔
  Obeys now header parent uncle:=
  fun d=>⟨fun h=>⟨h.1,h.2,h.3,h.4,h.5,h.6,h.7⟩,fun h=>⟨h.1,h.2,h.3,h.4,h.5,h.6,h.7⟩⟩
 simp only[accepts_iff,hsame]
 rw[←difficulty_eq_iff _ _ _ _ parent.number]
 constructor
 · intro h hobeys
   exact ((h _).mp ⟨hobeys,rfl⟩).2
 intro h d
 refine and_congr_right fun hobeys=>?_
 rw[h hobeys]

/-- An uncle that comes 2^64 seconds after its parent is taken for one at the same time. -/
theorem late_uncle_accepted : ∃ header parent : Header,
    (validateHeader (fun _ => default) (fun _ => true) 0 header parent false true
      minimumDifficulty).1 = .ok () ∧
    header.difficulty ≠ difficulty header.time parent.time parent.number parent.difficulty := by
 refine⟨⟨default,default,2049000,1,5000,2^64,[],0⟩,⟨default,default,2048000,0,5000,0,[],0⟩,?_,?_⟩
 · decide +kernel
 decide +kernel

def genesisGasLimit:ℤ:=3141592

/-- `CalcGasLimit` of a parent with this gas limit and gas used. -/
def calcGasLimit (parentGasLimit parentGasUsed:ℤ):ℤ:=
 let contrib:=parentGasUsed*3/2/gasLimitBoundDivisor
 let decay:=parentGasLimit/gasLimitBoundDivisor-1
 let gl:=max (parentGasLimit-decay+contrib) minGasLimit
 if gl<genesisGasLimit then min (parentGasLimit+decay) genesisGasLimit else gl

lemma calcGasLimit_bounds(hlimit:minGasLimit≤limit)(hused:0≤used)
 (hle:used≤limit):minGasLimit≤calcGasLimit limit used∧
  (limit-calcGasLimit limit used).natAbs<limit/gasLimitBoundDivisor:=by
 unfold calcGasLimit minGasLimit genesisGasLimit gasLimitBoundDivisor at *
 dsimp only
 omega

/-- The gas limit that a miner chooses passes the check of the gas limit. -/
theorem calcGasLimit_passes (hash : Header → Hash) (verify : Header → Bool) (checkPow : Bool)
    {header parent : Header} {gasUsed : ℤ} (hlimit : minGasLimit ≤ parent.gasLimit)
    (hused : 0 ≤ gasUsed) (hle : gasUsed ≤ parent.gasLimit)
    (hgas : header.gasLimit = calcGasLimit parent.gasLimit gasUsed) (g a b : ℤ) :
    validateRest hash verify header parent checkPow ≠ .error (.gasLimitCheck g a b) := by
 obtain⟨hmin,hbound⟩:=calcGasLimit_bounds hlimit hused hle
 rw[validateRest,hgas,if_neg (by omega)]
 split_ifs<;>exact nofun

theorem calcGasLimit_passes_genesis :
    validateRest (fun _ => default) (fun _ => true)
      ⟨default, default, 0, 1, calcGasLimit genesisGasLimit 0, 1, [], 0⟩
      ⟨default, default, 0, 0, genesisGasLimit, 0, [], 0⟩ false ≠ .error (.gasLimitCheck 0 0 0) :=
 calcGasLimit_passes _ _ _ (by decide) le_rfl (by decide) rfl 0 0 0

end GoCoupe.HeaderRules
