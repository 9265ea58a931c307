/-
  Badnet.Lib.Framing — frames cut out of a stream that arrives in pieces.

  `next` takes one item off the front of what has arrived, or waits; a loop takes items until it has to wait, after each
  piece. When `next` undoes the code (`Framed`), the loop hands out the items in order, each as soon as it is complete,
  and keeps exactly the start of the next one (`feed_spec`), however the stream is cut.
-/

import Mathlib.Data.List.Basic

namespace Badnet.Lib

variable {α β : Type}

/-- What is handed out over some pieces, and what is left. -/
def feed (loop : List β → List α × List β) (left : List β) : List (List β) → List α × List β
  | [] => ([], left)
  | piece :: pieces =>
    let (items, left) := loop (left ++ piece)
    let (items', left) := feed loop left pieces
    (items ++ items', left)

/-- The loop takes items while there are some. -/
def IsLoop (next : List β → Option (α × List β)) (loop : List β → List α × List β) : Prop :=
  ∀ bytes, loop bytes =
    match next bytes with
    | none => ([], bytes)
    | some (item, rest) => (item :: (loop rest).1, (loop rest).2)

/-- The code of an item is taken off, whatever follows it; a proper start of it is not enough. -/
structure Framed (code : α → List β) (next : List β → Option (α × List β)) (ok : α → Prop) : Prop where
  whole : ∀ item, ok item → ∀ rest, next (code item ++ rest) = some (item, rest)
  part : ∀ item, ok item → ∀ start rest, start ++ rest = code item → rest ≠ [] → next start = none
  nothing : next [] = none

section
variable {code : α → List β} {next : List β → Option (α × List β)} {ok : α → Prop} {loop : List β → List α × List β}

/-- What is left is the start of the first item that is not complete. -/
def Tail (code : α → List β) (left : List β) (items : List α) : Prop :=
  (∃ rest, left ++ rest = items.flatMap code) ∧ ∀ item ∈ items.head?, left.length < (code item).length

theorem Framed.code_ne_nil (h : Framed code next ok) {item : α} (hok : ok item) : code item ≠ [] := by
  intro hnil
  have hwhole := h.whole item hok []
  rw [hnil, List.append_nil, h.nothing] at hwhole
  cases hwhole

variable {items : List α}

/-- With a start of a stream the loop hands out the items that are complete and keeps the rest. -/
theorem loop_spec (hl : IsLoop next loop) (h : Framed code next ok) (hok : ∀ item ∈ items, ok item)
    {bytes rest : List β} (hbytes : bytes ++ rest = items.flatMap code) :
    ∃ done todo, items = done ++ todo ∧ (loop bytes).1 = done ∧ bytes = done.flatMap code ++ (loop bytes).2 ∧
      Tail code (loop bytes).2 todo := by
  induction items generalizing bytes with
  | nil =>
    obtain ⟨rfl, rfl⟩ : bytes = [] ∧ rest = [] := by simpa using hbytes
    have hloop : loop [] = ([], []) := by rw [hl, h.nothing]
    rw [hloop]
    exact ⟨[], [], rfl, rfl, rfl, ⟨[], rfl⟩, nofun⟩
  | cons item items ih =>
    have hitem := hok item List.mem_cons_self
    rw [List.flatMap_cons] at hbytes
    rcases List.append_eq_append_iff.mp hbytes with ⟨more, hcode, hrest⟩ | ⟨more, hstart, hrest⟩
    · by_cases hmore : more = []
      · -- the item is complete and nothing else has arrived
        rw [hmore, List.append_nil] at hcode
        have hnil : [] ++ rest = items.flatMap code := by rw [List.nil_append, hrest, hmore, List.nil_append]
        obtain ⟨done, todo, hitems, hdone, hleft, htail⟩ := ih (fun i hi => hok i (List.mem_cons_of_mem item hi)) hnil
        have hloop : loop bytes = (item :: (loop []).1, (loop []).2) := by
          have hwhole := h.whole item hitem []
          rw [List.append_nil, hcode] at hwhole
          rw [hl, hwhole]
        rw [hloop]
        refine ⟨item :: done, todo, by rw [hitems]; rfl, by rw [hdone], ?_, htail⟩
        rw [List.flatMap_cons, List.append_assoc, ← hleft, List.append_nil, hcode]
      · have hloop : loop bytes = ([], bytes) := by rw [hl, h.part item hitem bytes more hcode.symm hmore]
        rw [hloop]
        refine ⟨[], item :: items, rfl, rfl, rfl, ⟨rest, ?_⟩, fun i hi => ?_⟩
        · rw [List.flatMap_cons, hcode, hrest, List.append_assoc]
        · cases hi
          rw [hcode, List.length_append]
          exact Nat.lt_add_of_pos_right (List.length_pos_iff.mpr hmore)
    · obtain ⟨done, todo, hitems, hdone, hleft, htail⟩ := ih (fun i hi => hok i (List.mem_cons_of_mem item hi)) hrest.symm
      have hloop : loop bytes = (item :: (loop more).1, (loop more).2) := by rw [hl, hstart, h.whole item hitem more]
      rw [hloop]
      refine ⟨item :: done, todo, by rw [hitems]; rfl, by rw [hdone], ?_, htail⟩
      rw [List.flatMap_cons, List.append_assoc, ← hleft, hstart]

/-- The same over any number of pieces, from a state that keeps the start of an item. -/
theorem feed_spec (hl : IsLoop next loop) (h : Framed code next ok) (hok : ∀ item ∈ items, ok item)
    {left rest : List β} {pieces : List (List β)} (hlen : ∀ item ∈ items.head?, left.length < (code item).length)
    (hpieces : left ++ pieces.flatten ++ rest = items.flatMap code) :
    ∃ done todo, items = done ++ todo ∧ (feed loop left pieces).1 = done ∧
      left ++ pieces.flatten = done.flatMap code ++ (feed loop left pieces).2 ∧ Tail code (feed loop left pieces).2 todo := by
  induction pieces generalizing left items with
  | nil =>
    refine ⟨[], items, rfl, rfl, by simp [feed], ⟨rest, ?_⟩, hlen⟩
    simpa [feed] using hpieces
  | cons piece pieces ih =>
    have harrived : (left ++ piece) ++ (pieces.flatten ++ rest) = items.flatMap code := by simpa using hpieces
    obtain ⟨done, todo, rfl, hdone, hleft, ⟨rest', htail⟩, hshort⟩ := loop_spec hl h hok harrived
    have hrest : (loop (left ++ piece)).2 ++ pieces.flatten ++ rest = todo.flatMap code := by
      have hcut : done.flatMap code ++ ((loop (left ++ piece)).2 ++ pieces.flatten ++ rest) =
          done.flatMap code ++ todo.flatMap code := by
        rw [← List.append_assoc, ← List.append_assoc, ← hleft, ← List.flatMap_append, ← hpieces]
        simp
      exact List.append_cancel_left hcut
    obtain ⟨done', todo', rfl, hdone', hleft', htail'⟩ := ih (fun i hi => hok i (List.mem_append_right done hi)) hshort hrest
    refine ⟨done ++ done', todo', by simp, ?_, ?_, htail'⟩
    · simp only [feed, hdone, hdone']
    · have hfeed : (feed loop left (piece :: pieces)).2 = (feed loop (loop (left ++ piece)).2 pieces).2 := rfl
      rw [hfeed, List.flatMap_append, List.append_assoc, ← hleft', ← List.append_assoc, ← hleft]
      simp

theorem Framed.nil_short (h : Framed code next ok) (hok : ∀ item ∈ items, ok item) :
    ∀ item ∈ items.head?, ([] : List β).length < (code item).length := by
  intro item hitem
  exact List.length_pos_iff.mpr (h.code_ne_nil (hok item (List.mem_of_mem_head? hitem)))

/-- From nothing, a whole stream is handed out whole. -/
theorem feed_all (hl : IsLoop next loop) (h : Framed code next ok) (hok : ∀ item ∈ items, ok item)
    {pieces : List (List β)} (hpieces : pieces.flatten = items.flatMap code) : feed loop [] pieces = (items, []) := by
  have hstream : [] ++ pieces.flatten ++ [] = items.flatMap code := by simpa using hpieces
  obtain ⟨done, todo, rfl, hdone, hleft, -, hshort⟩ := feed_spec hl h hok (h.nil_short hok) hstream
  have htodo : (feed loop [] pieces).2 = todo.flatMap code := by
    rw [List.nil_append, hpieces, List.flatMap_append] at hleft
    exact (List.append_cancel_left hleft).symm
  cases todo with
  | nil => exact Prod.ext (by rw [hdone, List.append_nil]) htodo
  | cons item todo =>
    have hlt := hshort item rfl
    rw [htodo, List.flatMap_cons, List.length_append] at hlt
    omega

end

end Badnet.Lib
