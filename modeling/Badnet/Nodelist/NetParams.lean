/-
  Badnet.Nodelist.NetParams — the numbers of a consensus (`get_net_param_from_list`, `networkstatus_get_param`).

  A parameter is the first `name=value` string with a value that parses, brought into the caller's range
  (`getNetParamFromList_range`). Without a list the caller gets its own default, unchecked
  (`networkstatusGetParam_range`).
-/

import Badnet.Encoding.Decimal

namespace Badnet.Nodelist

open Encoding

def MIN_INT32 : Int := -2147483648
def MAX_INT32 : Int := 2147483647

/-- The value `get_net_param_from_list` takes from one string of the list. -/
def netParamValue (paramName p : Text) : Option Int :=
  if (paramName ++ ['=']).isPrefixOf p then torParseLong (p.drop (paramName.length + 1)) MIN_INT32 MAX_INT32
  else none

def getNetParamFromList (netParams : List Text) (paramName : Text) (defaultVal minVal maxVal : Int) : Option Int :=
  if maxVal > minVal ∧ minVal ≤ defaultVal ∧ maxVal ≥ defaultVal then
    let res := (netParams.findSome? (netParamValue paramName)).getD defaultVal
    some (if res < minVal then minVal else if res > maxVal then maxVal else res)
  else none

/-- `netParams` is the list of the consensus that is looked at, if there is one that has a list. -/
def networkstatusGetParam (netParams : Option (List Text)) (paramName : Text) (defaultVal minVal maxVal : Int) :
    Option Int :=
  match netParams with
  | none => some defaultVal
  | some list => getNetParamFromList list paramName defaultVal minVal maxVal

theorem getNetParamFromList_range {list : List Text} {name : Text} {d lo hi v : Int}
    (h : getNetParamFromList list name d lo hi = some v) : lo ≤ v ∧ v ≤ hi := by
  unfold getNetParamFromList at h
  split at h
  · next hrange =>
    obtain rfl := Option.some.inj h
    split
    · omega
    · split <;> omega
  · cases h

theorem networkstatusGetParam_range {netParams : Option (List Text)} {name : Text} {d lo hi v : Int}
    (hd : netParams = none → lo ≤ d ∧ d ≤ hi) (h : networkstatusGetParam netParams name d lo hi = some v) :
    lo ≤ v ∧ v ≤ hi := by
  cases netParams with
  | none =>
    obtain rfl := Option.some.inj h
    exact hd rfl
  | some list => exact getNetParamFromList_range h

/-- The first number called `name` is above `bound`. -/
def FirstAbove (list : List Text) (name : Text) (bound : Int) : Prop :=
  ∃ v, list.findSome? (netParamValue name) = some v ∧ bound < v

/-- A parameter with another one as its minimum: its default is below that only when the other is given above it. -/
theorem getNetParamFromList_pair {list : List Text} {low high : Text} {d d' hi : Int} (hd : 0 ≤ d) (hle : d ≤ d')
    (hhi : d' < hi) : ∃ v, getNetParamFromList list low d 0 hi = some v ∧
      (getNetParamFromList list high d' v hi = none ↔ FirstAbove list low d') := by
  have hask : ∀ v, getNetParamFromList list high d' v hi = none ↔ d' < v := by
    intro v
    rw [getNetParamFromList, ite_eq_right_iff]
    simp only [reduceCtorEq, imp_false]
    omega
  rw [getNetParamFromList, if_pos (by omega)]
  refine ⟨_, rfl, (hask _).trans ?_⟩
  unfold FirstAbove
  cases list.findSome? (netParamValue low) with
  | none =>
    simp only [Option.getD_none, reduceCtorEq, false_and, exists_false, iff_false]
    split <;> omega
  | some v =>
    simp only [Option.getD_some, Option.some.injEq, exists_eq_left']
    split <;> omega

end Badnet.Nodelist
