/-
  Badnet.Lib.Run — runs of a partial step function.

  A system is a `step : S → L → Option S`; `none` is a refused label. A state of a run is one a prefix of the labels
  leads to (`AllStates`), a step of it a label taken there (`AllSteps`). The rules: an invariant kept by every step
  (`run_inv_hist`), one kept by the steps that meet a condition (`run_inv_steps`), and a property kept by a step exactly
  if it meets a condition (`allStates_iff_allSteps`). Also those for mapping a partial function over a list.
-/

import Mathlib.Data.List.Induction
import Mathlib.Data.Option.Basic

namespace Badnet.Lib

variable {S L : Type} (step : S → L → Option S)

def run (s : S) (ls : List L) : Option S := ls.foldlM step s

@[simp] theorem run_nil (s : S) : run step s [] = some s := rfl

@[simp] theorem run_cons (s : S) (l : L) (ls : List L) :
    run step s (l :: ls) = (step s l).bind fun t => run step t ls := rfl

theorem run_append (s : S) (xs ys : List L) :
    run step s (xs ++ ys) = (run step s xs).bind fun t => run step t ys := by
  simp [run]

variable {s t : S} {ls : List L} {l : L} {P : S → Prop} {C : S → L → Prop}

theorem run_append_some {u : S} {xs ys : List L} :
    run step s (xs ++ ys) = some u ↔ ∃ t, run step s xs = some t ∧ run step t ys = some u := by
  rw [run_append, Option.bind_eq_some_iff]

theorem run_snoc_some {u : S} :
    run step s (ls ++ [l]) = some u ↔ ∃ t, run step s ls = some t ∧ step t l = some u := by
  rw [run_append_some]
  simp

variable {step}

theorem run_inv_hist {I : List L → S → Prop} (h0 : I [] s)
    (hstep : ∀ ls t l u, run step s ls = some t → I ls t → step t l = some u → I (ls ++ [l]) u)
    (h : run step s ls = some t) : I ls t := by
  induction ls using List.reverseRecOn generalizing t with
  | nil => cases h; exact h0
  | append_singleton ls l ih =>
    obtain ⟨u, hu, hl⟩ := (run_snoc_some step).mp h
    exact hstep ls u l t hu (ih hu) hl

/-- A run that is refused is refused at a label, after a run of the labels before it. -/
theorem run_eq_none (h : run step s ls = none) :
    ∃ pre l t, pre ++ [l] <+: ls ∧ run step s pre = some t ∧ step t l = none := by
  induction ls using List.reverseRecOn with
  | nil => cases h
  | append_singleton ls l ih =>
    rcases ht : run step s ls with _ | t
    · obtain ⟨pre, m, u, hp, hu, hm⟩ := ih ht
      exact ⟨pre, m, u, hp.trans (List.prefix_append _ _), hu, hm⟩
    · rw [run_append, ht, Option.bind_some, run_cons, Option.bind_eq_none_iff] at h
      rcases hl : step t l with _ | u
      · exact ⟨ls, l, t, List.prefix_refl _, ht, hl⟩
      · exact absurd (h u hl) (by simp)

/-! ## Every state and every step of a run -/

variable (step)

def AllStates (P : S → Prop) (s : S) (ls : List L) : Prop :=
  ∀ pre t, pre <+: ls → run step s pre = some t → P t

def AllSteps (C : S → L → Prop) (s : S) (ls : List L) : Prop :=
  ∀ pre l t, pre ++ [l] <+: ls → run step s pre = some t → C t l

variable {step}

theorem allStates_nil : AllStates step P s [] ↔ P s := by
  constructor
  · intro h; exact h [] s (List.prefix_refl _) rfl
  · intro h pre t hp ht
    rw [List.prefix_nil.mp hp] at ht
    cases ht; exact h

theorem allSteps_nil : AllSteps step C s [] := by
  intro pre l t hp
  exact absurd (List.prefix_nil.mp hp) (by simp)

theorem allStates_snoc :
    AllStates step P s (ls ++ [l]) ↔ AllStates step P s ls ∧ ∀ t, run step s (ls ++ [l]) = some t → P t := by
  constructor
  · intro h
    exact ⟨fun pre t hp => h pre t (hp.trans (List.prefix_append _ _)), fun t => h _ t (List.prefix_refl _)⟩
  · rintro ⟨h, hl⟩ pre t hp ht
    rcases List.prefix_concat_iff.mp hp with rfl | hp
    · exact hl t ht
    · exact h pre t hp ht

theorem allSteps_snoc :
    AllSteps step C s (ls ++ [l]) ↔ AllSteps step C s ls ∧ ∀ t, run step s ls = some t → C t l := by
  constructor
  · intro h
    exact ⟨fun pre m t hp => h pre m t (hp.trans (List.prefix_append _ _)), fun t => h ls l t (List.prefix_refl _)⟩
  · rintro ⟨h, hl⟩ pre m t hp ht
    rcases List.prefix_concat_iff.mp hp with he | hp
    · obtain ⟨rfl, hm⟩ := List.append_inj' he rfl
      cases hm; exact hl t ht
    · exact h pre m t hp ht

theorem run_inv_steps {I : S → Prop} (hstep : ∀ s l t, I s → C s l → step s l = some t → I t) (hs : I s)
    (hc : AllSteps step C s ls) (h : run step s ls = some t) : I t := by
  induction ls using List.reverseRecOn generalizing t with
  | nil => cases h; exact hs
  | append_singleton ls l ih =>
    obtain ⟨u, hu, hl⟩ := (run_snoc_some step).mp h
    obtain ⟨hc, hcl⟩ := allSteps_snoc.mp hc
    exact hstep u l t (ih hc hu) (hcl u hu) hl

theorem allSteps_append {xs ys : List L} (h : run step s xs = some t) :
    AllSteps step C s (xs ++ ys) ↔ AllSteps step C s xs ∧ AllSteps step C t ys := by
  constructor
  · intro hc
    refine ⟨fun pre l u hp => hc pre l u (hp.trans (List.prefix_append _ _)), fun pre l u hp hu => ?_⟩
    apply hc (xs ++ pre) l u
    · rw [List.append_assoc]; exact (List.prefix_append_right_inj _).mpr hp
    · exact (run_append_some step).mpr ⟨t, h, hu⟩
  · rintro ⟨hx, hy⟩
    induction ys using List.reverseRecOn with
    | nil => simpa using hx
    | append_singleton ys l ih =>
      obtain ⟨hy, hl⟩ := allSteps_snoc.mp hy
      rw [← List.append_assoc]
      refine allSteps_snoc.mpr ⟨ih hy, fun u hu => ?_⟩
      obtain ⟨t', ht', hu'⟩ := (run_append_some step).mp hu
      rw [h] at ht'; cases ht'
      exact hl u hu'

theorem allSteps_cons (h : step s l = some t) : AllSteps step C s (l :: ls) ↔ C s l ∧ AllSteps step C t ls := by
  have h1 : AllSteps step C s [l] ↔ C s l := by
    rw [← List.nil_append [l], allSteps_snoc]
    simp [allSteps_nil]
  rw [← h1, ← allSteps_append (by simp [h]), List.singleton_append]

/-- Whether every step of a run meets a decidable condition, by taking the run. -/
def checkSteps (step : S → L → Option S) (C : S → L → Prop) [∀ s l, Decidable (C s l)] : S → List L → Bool
  | _, [] => true
  | s, l :: ls =>
    decide (C s l) &&
      match step s l with
      | some t => checkSteps step C t ls
      | none => true

theorem allSteps_of_check [∀ s l, Decidable (C s l)]
    (h : checkSteps step C s ls = true) : AllSteps step C s ls := by
  induction ls generalizing s with
  | nil => exact allSteps_nil
  | cons l ls ih =>
    simp only [checkSteps, Bool.and_eq_true, decide_eq_true_eq] at h
    obtain ⟨hc, h⟩ := h
    rcases hl : step s l with _ | t
    · intro pre m u hp hu
      rcases pre with _ | ⟨k, pre⟩
      · obtain ⟨rfl, -⟩ := List.cons_prefix_cons.mp hp
        cases hu
        exact hc
      · obtain ⟨rfl, -⟩ := List.cons_prefix_cons.mp hp
        simp [hl] at hu
    · rw [hl] at h
      exact (allSteps_cons hl).mpr ⟨hc, ih h⟩

/-- A property that a step of the run keeps exactly if the step meets `C` holds in
    every state of the run exactly if every step of it meets `C`. -/
theorem allStates_iff_allSteps (h0 : P s) (hrun : run step s ls = some t)
    (hstep : ∀ pre l u v, pre ++ [l] <+: ls → run step s pre = some u → P u → step u l = some v → (P v ↔ C u l)) :
    AllStates step P s ls ↔ AllSteps step C s ls := by
  induction ls using List.reverseRecOn generalizing t with
  | nil => exact ⟨fun _ => allSteps_nil, fun _ => allStates_nil.mpr h0⟩
  | append_singleton ls l ih =>
    obtain ⟨u, hu, hl⟩ := (run_snoc_some step).mp hrun
    have ih := ih hu fun pre m a b hp => hstep pre m a b (hp.trans (List.prefix_append _ _))
    have hend : ∀ {Q : S → Prop}, (∀ v, run step s (ls ++ [l]) = some v → Q v) ↔ Q t := by
      intro Q; simp [hrun]
    have hlast : ∀ {Q : S → Prop}, (∀ v, run step s ls = some v → Q v) ↔ Q u := by
      intro Q; simp [hu]
    rw [allStates_snoc, allSteps_snoc, ih, hend, hlast]
    refine and_congr_right fun hC => hstep ls l u t (List.prefix_refl _) hu ?_ hl
    exact ih.mpr hC ls u (List.prefix_refl _) hu

/-- The same where the property alone does not carry the induction: an invariant `I` goes with it as long as every step
    meets the condition. -/
theorem allStates_iff_allSteps_inv {I : S → Prop} (hI : I s) (hP : P s)
    (hstep : ∀ u l v, I u → P u → step u l = some v → (P v ↔ C u l) ∧ (C u l → I v))
    (hrun : run step s ls = some t) : AllStates step P s ls ↔ AllSteps step C s ls := by
  have hboth : AllStates step (fun u => I u ∧ P u) s ls ↔ AllSteps step C s ls := by
    refine allStates_iff_allSteps ⟨hI, hP⟩ hrun fun pre l u v _ _ hu hl => ?_
    obtain ⟨hiff, hinv⟩ := hstep u l v hu.1 hu.2 hl
    exact ⟨fun h => hiff.mp h.2, fun h => ⟨hinv h, hiff.mpr h⟩⟩
  rw [← hboth]
  refine ⟨fun hall => ?_, fun hall pre u hpre hu => (hall pre u hpre hu).2⟩
  intro pre u hpre hu
  refine ⟨?_, hall pre u hpre hu⟩
  induction pre using List.reverseRecOn generalizing u with
  | nil =>
    cases hu
    exact hI
  | append_singleton pre l ih =>
    obtain ⟨w, hw, hl⟩ := (run_snoc_some step).mp hu
    have hpre' := (List.prefix_append pre [l]).trans hpre
    obtain ⟨hiff, hinv⟩ := hstep w l u (ih w hpre' hw) (hall pre w hpre' hw) hl
    exact hinv (hiff.mp (hall (pre ++ [l]) u hpre hu))

/-! ## Maps of a partial function -/

theorem mapM_cons_eq {α β : Type} (f : α → Option β) (a : α) (l : List α) :
    (a :: l).mapM f = (f a).bind fun b => (l.mapM f).map (b :: ·) := by
  rw [List.mapM_cons]
  cases f a with
  | none => rfl
  | some b =>
    cases l.mapM f with
    | none => rfl
    | some bs => rfl

theorem length_mapM {α β : Type} {f : α → Option β} {l : List α} {bs : List β} (h : l.mapM f = some bs) :
    bs.length = l.length := by
  induction l generalizing bs with
  | nil =>
    cases h
    rfl
  | cons a l ih =>
    rw [mapM_cons_eq] at h
    obtain ⟨b, -, h⟩ := Option.bind_eq_some_iff.mp h
    obtain ⟨bs', hbs, rfl⟩ := Option.map_eq_some_iff.mp h
    rw [List.length_cons, List.length_cons, ih hbs]

theorem mem_mapM {α β : Type} {f : α → Option β} {l : List α} {bs : List β} (h : l.mapM f = some bs) :
    ∀ b ∈ bs, ∃ a ∈ l, f a = some b := by
  induction l generalizing bs with
  | nil =>
    cases h
    simp
  | cons a l ih =>
    rw [mapM_cons_eq] at h
    obtain ⟨b, hb, h⟩ := Option.bind_eq_some_iff.mp h
    obtain ⟨bs', hbs, rfl⟩ := Option.map_eq_some_iff.mp h
    intro x hx
    rcases List.mem_cons.mp hx with rfl | hx
    · exact ⟨a, List.mem_cons_self, hb⟩
    · obtain ⟨y, hy, hxy⟩ := ih hbs x hx
      exact ⟨y, List.mem_cons_of_mem _ hy, hxy⟩

theorem mapM_eq_none {α β : Type} {f : α → Option β} {l : List α} {a : α} (ha : a ∈ l) (h : f a = none) :
    l.mapM f = none := by
  induction l with
  | nil => cases ha
  | cons b l ih =>
    rw [mapM_cons_eq]
    rcases List.mem_cons.mp ha with rfl | ha
    · rw [h]
      rfl
    · rw [ih ha]
      cases f b with
      | none => rfl
      | some c => rfl

theorem mapM_some {α β : Type} {f : α → Option β} {g : α → β} {l : List α} (h : ∀ a ∈ l, f a = some (g a)) :
    l.mapM f = some (l.map g) := by
  induction l with
  | nil => rfl
  | cons a l ih =>
    obtain ⟨ha, hl⟩ := List.forall_mem_cons.mp h
    rw [mapM_cons_eq, ha, ih hl]
    rfl

theorem mapM_bind_mapM {α β γ : Type} (f : α → Option β) (g : β → Option γ) (l : List α) :
    ((l.mapM f).bind fun bs => bs.mapM g) = l.mapM fun a => (f a).bind g := by
  induction l with
  | nil => rfl
  | cons a l ih =>
    rw [mapM_cons_eq, mapM_cons_eq, ← ih]
    cases f a with
    | none => rfl
    | some b =>
      cases l.mapM f with
      | none => cases hg : g b <;> simp [hg]
      | some bs => exact mapM_cons_eq g b bs

end Badnet.Lib
