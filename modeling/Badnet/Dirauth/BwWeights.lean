/-
  Badnet.Dirauth.BwWeights — the bandwidth weights of a consensus (`networkstatus_compute_bw_weights_v10`).

  The totals of the four kinds of relays decide among the cases of dir-spec 3.8.3, and some of the cases check their
  weights (`networkstatusCheckWeights`). Sums wrap, as the build asks for; a product that does not fit in `int64_t`
  stops the model, so that a result is one of a run in which every product was exact.
-/

import Badnet.Lib.Int64Exact

namespace Badnet.Dirauth

open Lib

/-- A product outside the range of `int64_t`. -/
inductive Overflow where
  | product
  deriving DecidableEq

inductive Fault where
  | overflow
  | assertion
  deriving DecidableEq

/-- The bandwidth of the guards, the middle relays, the exits, the guards that are exits, and all. -/
structure BwTotals where
  G : Int64
  M : Int64
  E : Int64
  D : Int64
  T : Int64
  deriving DecidableEq

structure BwWeights where
  Wgg : Int64
  Wgd : Int64
  Wmg : Int64
  Wme : Int64
  Wmd : Int64
  Wee : Int64
  Wed : Int64
  deriving DecidableEq

inductive BwWeightsError where
  | noError | rangeError | sumgError | sumeError | sumdError | balanceMidError | balanceEgError
  deriving DecidableEq

def minInt64 (a b : Int64) : Int64 := if a > b then b else a

def maxInt64 (a b : Int64) : Int64 := if a < b then b else a

def mulInt64 (a b : Int64) : Except Overflow Int64 :=
  if (a * b).toInt = a.toInt * b.toInt then .ok (a * b) else .error .product

/-! ## The check -/

def rangeCheck (a b c d e f g mx : Int64) : Bool :=
  a ≥ 0 ∧ a ≤ mx ∧ b ≥ 0 ∧ b ≤ mx ∧ c ≥ 0 ∧ c ≤ mx ∧ d ≥ 0 ∧ d ≤ mx ∧ e ≥ 0 ∧ e ≤ mx ∧ f ≥ 0 ∧ f ≤ mx ∧ g ≥ 0 ∧ g ≤ mx

def checkEq (a b margin : Int64) : Bool := if a - b ≥ 0 then a - b ≤ margin else b - a ≤ margin

variable (w : BwWeights)

/-- The balance formulas, the part of `networkstatus_check_weights` under `do_balance`. -/
def checkBalance (scale : Int64) (p : BwTotals) (margin : Int64) : Except Overflow BwWeightsError := do
  let gg ← mulInt64 w.Wgg p.G
  let gd ← mulInt64 w.Wgd p.D
  let ee ← mulInt64 w.Wee p.E
  let ed ← mulInt64 w.Wed p.D
  let marginT ← mulInt64 margin p.T
  if ¬ checkEq (gg + gd) (ee + ed) (marginT / 3) then .ok .balanceEgError
  else do
    let ms ← mulInt64 p.M scale
    let md ← mulInt64 w.Wmd p.D
    let me ← mulInt64 w.Wme p.E
    let mg ← mulInt64 w.Wmg p.G
    if ¬ checkEq (gg + gd) (ms + md + me + mg) (marginT / 3) then .ok .balanceMidError else .ok .noError

def networkstatusCheckWeights (scale : Int64) (p : BwTotals) (margin : Int64) (doBalance : Bool) :
    Except Overflow BwWeightsError :=
  if ¬ checkEq (w.Wed + w.Wmd + w.Wgd) scale margin then .ok .sumdError
  else if ¬ checkEq (w.Wmg + w.Wgg) scale margin then .ok .sumgError
  else if ¬ checkEq (w.Wme + w.Wee) scale margin then .ok .sumeError
  else if ¬ rangeCheck w.Wgg w.Wgd w.Wmg w.Wme w.Wmd w.Wed w.Wee scale then .ok .rangeError
  else if doBalance then checkBalance w scale p margin
  else .ok .noError

/-! ## The cases -/

/-- The weights, unless the check found an error. -/
def checked (scale : Int64) (p : BwTotals) : Except Overflow (Option BwWeights) := do
  let berr ← networkstatusCheckWeights w scale p 10 true
  .ok (if berr ≠ .noError then none else some w)

variable (scale : Int64) (p : BwTotals)

/-- Neither guards nor exits are scarce. -/
def case1 : Except Overflow (Option BwWeights) := do
  let e3 ← mulInt64 3 p.E
  let g3 ← mulInt64 3 p.G
  let g2 ← mulInt64 2 p.G
  let ee ← mulInt64 scale (p.E + p.G + p.M)
  let mg ← mulInt64 scale (g2 - p.E - p.M)
  let third := scale / 3
  checked
    { Wgd := third, Wed := third, Wmd := third
      Wee := ee / e3, Wme := scale - ee / e3
      Wmg := mg / g3, Wgg := scale - mg / g3 } scale p

/-- Both are scarce, and all of D does not make up for the scarcer. -/
def case2a : BwWeights :=
  if p.E < p.G then { Wgg := scale, Wee := scale, Wmg := 0, Wme := 0, Wmd := 0, Wed := scale, Wgd := 0 }
  else { Wgg := scale, Wee := scale, Wmg := 0, Wme := 0, Wmd := 0, Wed := 0, Wgd := scale }

/-- Case 2b1. -/
def weights2b1 : Except Overflow BwWeights := do
  let ee ← mulInt64 scale (p.E - p.G + p.M)
  let e2 ← mulInt64 2 p.E
  let g4 ← mulInt64 4 p.G
  let m2 ← mulInt64 2 p.M
  let ed ← mulInt64 scale (p.D - e2 + g4 - m2)
  let d3 ← mulInt64 3 p.D
  let me ← mulInt64 scale (p.G - p.M)
  let Wed := ed / d3
  .ok
    { Wee := ee / p.E, Wed := Wed, Wme := me / p.E, Wmg := 0, Wgg := scale
      Wmd := (scale - Wed) / 2, Wgd := (scale - Wed) / 2 }

/-- Case 2b2, and 2b3 where the middle weight came out negative. -/
def weights2b2 : Except Overflow BwWeights := do
  let e2 ← mulInt64 2 p.E
  let ed ← mulInt64 scale (p.D - e2 + p.G + p.M)
  let d3 ← mulInt64 3 p.D
  let m2 ← mulInt64 2 p.M
  let md ← mulInt64 scale (p.D - m2 + p.G + p.E)
  let Wed := ed / d3
  let Wmd := if md / d3 < 0 then 0 else md / d3
  .ok { Wgg := scale, Wee := scale, Wed := Wed, Wmd := Wmd, Wme := 0, Wmg := 0, Wgd := scale - Wed - Wmd }

/-- A middle that is out of balance is let pass here. -/
def accepted2b (berr : BwWeightsError) : Option BwWeights :=
  if berr ≠ .noError ∧ berr ≠ .balanceMidError then none else some w

def case2b : Except Overflow (Option BwWeights) := do
  let w ← weights2b1 scale p
  let berr ← networkstatusCheckWeights w scale p 10 true
  if berr ≠ .noError then do
    let w' ← weights2b2 scale p
    let berr' ← networkstatusCheckWeights w' scale p 10 true
    .ok (accepted2b w' berr')
  else .ok (accepted2b w berr)

/-- The weight that moves half of what the plentiful kind has over the middle, `W` of its own. -/
def surplus (W M : Int64) : Except Overflow Int64 :=
  if W < M then .ok 0
  else do
    let n ← mulInt64 scale (W - M)
    let w2 ← mulInt64 2 W
    .ok (n / w2)

/-- One is scarce, and with all of D it still has less than a third. -/
def case3a : Except Overflow BwWeights :=
  if p.G < p.E then do
    let Wme ← surplus scale p.E p.M
    .ok { Wgg := scale, Wgd := scale, Wmd := 0, Wed := 0, Wmg := 0, Wme := Wme, Wee := scale - Wme }
  else do
    let Wmg ← surplus scale p.G p.M
    .ok { Wee := scale, Wed := scale, Wmd := 0, Wgd := 0, Wme := 0, Wmg := Wmg, Wgg := scale - Wmg }

/-- One is scarce, and D makes up for it. -/
def case3b : Except Overflow (Option BwWeights) :=
  if p.G < p.E then do
    let g2 ← mulInt64 2 p.G
    let gd ← mulInt64 scale (p.D - g2 + p.E + p.M)
    let d3 ← mulInt64 3 p.D
    let ee ← mulInt64 scale (p.E + p.M)
    let e2 ← mulInt64 2 p.E
    let Wgd := gd / d3
    let Wee := ee / e2
    checked
      { Wgg := scale, Wgd := Wgd, Wmg := 0, Wee := Wee, Wme := scale - Wee
        Wmd := (scale - Wgd) / 2, Wed := (scale - Wgd) / 2 } scale p
  else do
    let e2 ← mulInt64 2 p.E
    let ed ← mulInt64 scale (p.D - e2 + p.G + p.M)
    let d3 ← mulInt64 3 p.D
    let gg ← mulInt64 scale (p.G + p.M)
    let g2 ← mulInt64 2 p.G
    let Wed := ed / d3
    let Wgg := gg / g2
    checked
      { Wee := scale, Wed := Wed, Wme := 0, Wgg := Wgg, Wmg := scale - Wgg
        Wmd := (scale - Wed) / 2, Wgd := (scale - Wed) / 2 } scale p

def bwWeights : Except Overflow (Option BwWeights) := do
  let e3 ← mulInt64 3 p.E
  let g3 ← mulInt64 3 p.G
  if e3 ≥ p.T ∧ g3 ≥ p.T then case1 scale p
  else if e3 < p.T ∧ g3 < p.T then
    if minInt64 p.E p.G + p.D < maxInt64 p.E p.G then .ok (some (case2a scale p)) else case2b scale p
  else do
    let sd3 ← mulInt64 3 (minInt64 p.E p.G + p.D)
    if sd3 < p.T then do
      let w ← case3a scale p
      .ok (some w)
    else case3b scale p

/-! ## The line of the consensus -/

/-- The values of the `bandwidth-weights` line, `Wbd=` to `Wmm=`. -/
structure BandwidthWeightsLine where
  Wbd : Int32
  Wbe : Int32
  Wbg : Int32
  Wbm : Int32
  Wdb : Int32
  Web : Int32
  Wed : Int32
  Wee : Int32
  Weg : Int32
  Wem : Int32
  Wgb : Int32
  Wgd : Int32
  Wgg : Int32
  Wgm : Int32
  Wmb : Int32
  Wmd : Int32
  Wme : Int32
  Wmg : Int32
  Wmm : Int32
  deriving DecidableEq

def printWeights (scale : Int64) : BandwidthWeightsLine :=
  { Wbd := w.Wmd.toInt32, Wbe := w.Wme.toInt32, Wbg := w.Wmg.toInt32, Wbm := scale.toInt32
    Wdb := scale.toInt32
    Web := scale.toInt32, Wed := w.Wed.toInt32, Wee := w.Wee.toInt32, Weg := w.Wed.toInt32, Wem := w.Wee.toInt32
    Wgb := scale.toInt32, Wgd := w.Wgd.toInt32, Wgg := w.Wgg.toInt32, Wgm := w.Wgg.toInt32
    Wmb := scale.toInt32, Wmd := w.Wmd.toInt32, Wme := w.Wme.toInt32, Wmg := w.Wmg.toInt32, Wmm := scale.toInt32 }

/-- `none` is the return value 0, without a line. -/
def networkstatusComputeBwWeightsV10 (weightScale : Int64) : Except Fault (Option BandwidthWeightsLine) :=
  if p.G ≤ 0 ∨ p.M ≤ 0 ∨ p.E ≤ 0 ∨ p.D ≤ 0 then .ok none
  else
    match bwWeights weightScale p with
    | .error .product => .error .overflow
    | .ok none => .ok none
    | .ok (some w) =>
      if 0 < weightScale ∧ weightScale ≤ 2147483647 then .ok (some (printWeights w weightScale)) else .error .assertion

end Badnet.Dirauth
