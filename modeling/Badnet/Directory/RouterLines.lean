/-
  Badnet.Directory.RouterLines — the entries that reading a consensus leaves out
  (`networkstatus_parse_vote_from_string`, `find_start_of_next_routerstatus`).

  The document is cut into entries at the lines that begin with `r `, `directory-footer` or `directory-signature`.
  Reading starts at the first byte: the search for the end of the header is gone. A document whose first line does not
  begin with `r ` has no entries (`an_index_line_hides_every_entry`), and nothing is read behind a line of the footer
  (`router_lines_kept_iff`).
-/

import Badnet.Directory.DownloadRound
import Badnet.Nodelist.Networkstatus

namespace Badnet.Directory.RouterLines

open Lib Encoding Dirparse Nodelist

/-! ## Lines -/

variable (s : Text)

def lines : List Text := s.splitOn '\n'

/-- The line begins with `r `. -/
def isRouterLine (l : Text) : Bool := ['r', ' '].isPrefixOf l

/-- The line begins as the footer or a signature does. -/
def isFooterLine (l : Text) : Bool := directoryFooter.isPrefixOf l || directorySignature.isPrefixOf l

/-- An entry ends at such a line. -/
def endsEntry (l : Text) : Bool := isRouterLine l || isFooterLine l

theorem isRouterLine_iff {l : Text} : isRouterLine l = true ↔ ['r', ' '] <+: l := List.isPrefixOf_iff_prefix

theorem isFooterLine_iff {l : Text} : isFooterLine l = true ↔ directoryFooter <+: l ∨ directorySignature <+: l := by
  unfold isFooterLine
  rw [Bool.or_eq_true, List.isPrefixOf_iff_prefix, List.isPrefixOf_iff_prefix]

theorem endsEntry_iff {l : Text} :
    endsEntry l = true ↔ ['r', ' '] <+: l ∨ directoryFooter <+: l ∨ directorySignature <+: l := by
  unfold endsEntry
  rw [Bool.or_eq_true, isRouterLine_iff, isFooterLine_iff]

theorem not_footer_of_router {l : Text} (h : isRouterLine l = true) : isFooterLine l = false := by
  obtain ⟨t, rfl⟩ := isRouterLine_iff.mp h
  rfl

/-- Whether a line ends an entry is seen from the text that begins with it. -/
theorem takeWhile_line : isRouterLine (s.takeWhile (· ≠ '\n')) = isRouterLine s ∧
    isFooterLine (s.takeWhile (· ≠ '\n')) = isFooterLine s := by
  have hline : ∀ needle : Text, '\n' ∉ needle →
      needle.isPrefixOf (s.takeWhile (· ≠ '\n')) = needle.isPrefixOf s := by
    intro needle hn
    rw [Bool.eq_iff_iff, List.isPrefixOf_iff_prefix, List.isPrefixOf_iff_prefix]
    exact prefix_takeWhile hn
  unfold isRouterLine isFooterLine
  rw [hline _ (by decide), hline directoryFooter (by decide), hline directorySignature (by decide)]
  exact ⟨rfl, rfl⟩

theorem lines_eq : lines s = s.takeWhile (· ≠ '\n') :: (lines s).tail := splitOn_eq_cons '\n' s

/-! ## The end of an entry -/

/-- `eos` of `find_start_of_next_routerstatus`. -/
def nextRouter : Nat :=
  match search ['\n', 'r', ' '] s with
  | some i => i + 1
  | none => s.length

theorem nextRouter_cons {c : Char} {s : Text} :
    nextRouter (c :: s) = if c = '\n' ∧ ['r', ' '] <+: s then 1 else nextRouter s + 1 := by
  unfold nextRouter
  rw [search]
  by_cases h : c = '\n' ∧ ['r', ' '] <+: s
  · rw [if_pos (List.cons_prefix_cons.mpr ⟨h.1.symm, h.2⟩), if_pos h]
  · rw [if_neg fun hp => h ⟨(List.cons_prefix_cons.mp hp).1.symm, (List.cons_prefix_cons.mp hp).2⟩, if_neg h]
    cases search ['\n', 'r', ' '] s with
    | none => rfl
    | some i => rfl

/-- The line at the start of the text ends before the next entry begins. -/
theorem prefix_take_nextRouter {needle s : Text} (hn : '\n' ∉ needle) :
    needle <+: s.take (nextRouter s) ↔ needle <+: s := by
  refine ⟨fun h => h.trans (List.take_prefix _ _), ?_⟩
  rintro ⟨t, rfl⟩
  have hlen : needle.length ≤ nextRouter (needle ++ t) := by
    unfold nextRouter
    rw [search_append _ hn]
    cases search ['\n', 'r', ' '] t with
    | none => simp
    | some i =>
      show needle.length ≤ i + needle.length + 1
      omega
  rw [List.prefix_take_iff]
  exact ⟨List.prefix_append _ _, hlen⟩

/-- The nearer of the two stops of `find_start_of_next_routerstatus`, `eos` without either. -/
def nearestEnd (footer sig : Option Nat) (eos : Nat) : Nat :=
  match footer, sig with
  | some footer, some sig => min footer sig + 1
  | some footer, none => footer + 1
  | none, some sig => sig + 1
  | none, none => eos

theorem findStart_eq : findStartOfNextRouterstatus s =
    nearestEnd (search ('\n' :: directoryFooter) (s.take (nextRouter s)))
      (search ('\n' :: directorySignature) (s.take (nextRouter s))) (nextRouter s) := rfl

theorem nearestEnd_footer (sig : Option Nat) (eos : Nat) : nearestEnd (some 0) sig eos = 1 := by
  cases sig with
  | none => rfl
  | some sig => exact congrArg (· + 1) (Nat.zero_min sig)

theorem nearestEnd_sig (footer : Option Nat) (eos : Nat) : nearestEnd footer (some 0) eos = 1 := by
  cases footer with
  | none => rfl
  | some footer => exact congrArg (· + 1) (Nat.min_zero footer)

theorem nearestEnd_succ (footer sig : Option Nat) (eos : Nat) :
    nearestEnd (footer.map (· + 1)) (sig.map (· + 1)) (eos + 1) = nearestEnd footer sig eos + 1 := by
  cases footer with
  | none =>
    cases sig with
    | none => rfl
    | some sig => rfl
  | some footer =>
    cases sig with
    | none => rfl
    | some sig => exact congrArg (· + 1) (Nat.add_min_add_right footer sig 1)

/-- One character further: a line that ends the entry begins behind it, or the end is as far from the rest of the text. -/
theorem findStart_cons (c : Char) (s : Text) :
    findStartOfNextRouterstatus (c :: s) =
      if c = '\n' ∧ endsEntry s = true then 1 else findStartOfNextRouterstatus s + 1 := by
  rw [findStart_eq (c :: s), nextRouter_cons]
  by_cases hr : c = '\n' ∧ ['r', ' '] <+: s
  · rw [if_pos hr, if_pos ⟨hr.1, endsEntry_iff.mpr (.inl hr.2)⟩, hr.1]
    rfl
  · have hneedle : ∀ needle : Text, '\n' ∉ needle →
        search ('\n' :: needle) ((c :: s).take (nextRouter s + 1)) =
          if c = '\n' ∧ needle <+: s then some 0 else (search ('\n' :: needle) (s.take (nextRouter s))).map (· + 1) := by
      intro needle hn
      rw [List.take_succ_cons, search]
      refine if_congr ?_ rfl rfl
      rw [List.cons_prefix_cons, prefix_take_nextRouter hn]
      exact and_congr_left' eq_comm
    rw [if_neg hr, hneedle directoryFooter (by decide), hneedle directorySignature (by decide)]
    by_cases hf : c = '\n' ∧ directoryFooter <+: s
    · rw [if_pos hf, nearestEnd_footer, if_pos ⟨hf.1, endsEntry_iff.mpr (.inr (.inl hf.2))⟩]
    · by_cases hg : c = '\n' ∧ directorySignature <+: s
      · rw [if_pos hg, nearestEnd_sig, if_pos ⟨hg.1, endsEntry_iff.mpr (.inr (.inr hg.2))⟩]
      · have hnone : ¬ (c = '\n' ∧ endsEntry s = true) := by
          rintro ⟨hc, he⟩
          rcases endsEntry_iff.mp he with h | h | h
          · exact hr ⟨hc, h⟩
          · exact hf ⟨hc, h⟩
          · exact hg ⟨hc, h⟩
        rw [if_neg hf, if_neg hg, if_neg hnone, nearestEnd_succ, ← findStart_eq]

/-- The lines behind the first one: some that do not end the entry, and then those of the text that
    `find_start_of_next_routerstatus` stops at. -/
theorem lines_behind :
    ∃ inside, (∀ l ∈ inside, endsEntry l = false) ∧
      ((s.drop (findStartOfNextRouterstatus s) = [] ∧ (lines s).tail = inside) ∨
        (endsEntry (s.drop (findStartOfNextRouterstatus s)) = true ∧
          (lines s).tail = inside ++ lines (s.drop (findStartOfNextRouterstatus s)))) := by
  induction s with
  | nil => exact ⟨[], fun l hl => (by cases hl), .inl ⟨rfl, rfl⟩⟩
  | cons c s ih =>
    rw [findStart_cons]
    by_cases hc : c = '\n'
    · subst hc
      have htail : (lines ('\n' :: s)).tail = lines s := congrArg List.tail (splitOn_sep '\n' s)
      rw [htail]
      by_cases he : endsEntry s = true
      · rw [if_pos ⟨rfl, he⟩]
        exact ⟨[], fun l hl => (by cases hl), .inr ⟨he, rfl⟩⟩
      · obtain ⟨inside, hin, hrest⟩ := ih
        have hhead : endsEntry (s.takeWhile (· ≠ '\n')) = false := by
          unfold endsEntry at *
          rw [(takeWhile_line s).1, (takeWhile_line s).2]
          exact Bool.eq_false_iff.mpr he
        rw [if_neg fun h => he h.2, List.drop_succ_cons, lines_eq s]
        refine ⟨s.takeWhile (· ≠ '\n') :: inside, ?_, ?_⟩
        · intro l hl
          rcases List.mem_cons.mp hl with rfl | hl
          · exact hhead
          · exact hin l hl
        · rcases hrest with ⟨hnil, ht⟩ | ⟨hend, ht⟩
          · exact .inl ⟨hnil, congrArg _ ht⟩
          · exact .inr ⟨hend, congrArg _ ht⟩
    · have htail : (lines (c :: s)).tail = (lines s).tail := tail_splitOn_cons hc s
      rw [if_neg fun h => hc h.1, List.drop_succ_cons, htail]
      exact ih

/-! ## The entries -/

section

variable {rsa : Rsa}

/-- The lines up to the first one of the footer. -/
def body : List Text := (lines s).takeWhile fun l => ! isFooterLine l

/-- The entries that reading finds: none if the document does not start with one. -/
def entryCount : Nat := if isRouterLine s = true then (body s).countP isRouterLine else 0

theorem entryCount_eq {s : Text} (hr : isRouterLine s = true) :
    entryCount s = entryCount (s.drop (findStartOfNextRouterstatus s)) + 1 := by
  have hfirst : isRouterLine (s.takeWhile (· ≠ '\n')) = true := by
    rw [(takeWhile_line s).1]
    exact hr
  have hkept : isFooterLine (s.takeWhile (· ≠ '\n')) = false := not_footer_of_router hfirst
  have hcount : (body s).countP isRouterLine =
      ((lines s).tail.takeWhile fun l => ! isFooterLine l).countP isRouterLine + 1 := by
    rw [body, lines_eq s, List.takeWhile_cons_of_pos (by rw [hkept]; rfl), List.countP_cons_of_pos hfirst]
    rfl
  obtain ⟨inside, hin, hrest⟩ := lines_behind s
  have hrouter : inside.countP isRouterLine = 0 := by
    rw [List.countP_eq_zero]
    intro l hl
    have h := hin l hl
    rw [endsEntry, Bool.or_eq_false_iff] at h
    rw [h.1]
    exact Bool.false_ne_true
  have hfooter : ∀ l ∈ inside, (! isFooterLine l) = true := by
    intro l hl
    have h := hin l hl
    rw [endsEntry, Bool.or_eq_false_iff] at h
    rw [h.2]
    rfl
  rw [entryCount, if_pos hr, hcount]
  rcases hrest with ⟨hnil, ht⟩ | ⟨hend, ht⟩
  · rw [ht, hnil, List.takeWhile_eq_self_iff.mpr hfooter, hrouter]
    rfl
  · rw [ht, List.takeWhile_append_of_pos hfooter, List.countP_append, hrouter, Nat.zero_add, entryCount]
    generalize s.drop (findStartOfNextRouterstatus s) = rest at hend
    by_cases hr : isRouterLine rest = true
    · rw [if_pos hr]
      rfl
    · have hf : isFooterLine (rest.takeWhile (· ≠ '\n')) = true := by
        rw [endsEntry, Bool.or_eq_true] at hend
        rw [(takeWhile_line rest).2]
        exact hend.resolve_left hr
      rw [if_neg hr, lines_eq rest, List.takeWhile_cons_of_neg (by rw [hf]; exact Bool.false_ne_true)]
      rfl

/-- The entries of a document that starts with one are the router lines before the footer. -/
theorem routerstatusLoop_length {method : Nat} {flav : Flavor} {s : Text} {list : List RouterStatus} :
    routerstatusLoop rsa method flav s = .ok list → list.length = entryCount s := by
  refine routerstatusLoop_ok (P := fun s list => list.length = entryCount s) (fun s hr => ?_) fun s rs rest hr _ ih => ?_
  · rw [entryCount, if_neg fun hl => hr (isRouterLine_iff.mp hl)]
    rfl
  · rw [List.length_cons, ih, entryCount_eq (isRouterLine_iff.mpr hr)]

/-- A line that begins with `r ` has its entry exactly if it stands before the footer of a document that starts with one. -/
theorem entryCount_iff :
    entryCount s = (lines s).countP isRouterLine ↔
      (∀ l ∈ lines s, isRouterLine l = false) ∨
        isRouterLine s = true ∧ ∀ l ∈ (lines s).dropWhile (fun l => ! isFooterLine l), isRouterLine l = false := by
  have hzero : ∀ ls : List Text, ls.countP isRouterLine = 0 ↔ ∀ l ∈ ls, isRouterLine l = false := by
    intro ls
    simp only [List.countP_eq_zero, Bool.not_eq_true]
  have hsplit : (lines s).countP isRouterLine = (body s).countP isRouterLine +
      ((lines s).dropWhile fun l => ! isFooterLine l).countP isRouterLine := by
    rw [body, ← List.countP_append, List.takeWhile_append_dropWhile]
  by_cases hr : isRouterLine s = true
  · have hsome : ¬ ∀ l ∈ lines s, isRouterLine l = false := by
      intro hall
      have h := hall _ (lines_eq s ▸ List.mem_cons_self)
      rw [(takeWhile_line s).1, hr] at h
      cases h
    rw [entryCount, if_pos hr, hsplit, ← hzero ((lines s).dropWhile _), or_iff_right hsome, and_iff_right hr]
    omega
  · rw [entryCount, if_neg hr, eq_comm, hzero, or_iff_left fun h => hr h.1]

/-- In every accepted document, each line beginning with `r ` is an entry exactly if there is no such line, or the
document starts with one and none comes behind the footer's first line. -/
theorem router_lines_kept_iff (rsa : Rsa) (s : Text) (ns : NetworkStatus)
    (h : networkstatusParseVoteFromString rsa s .CONSENSUS = .ok ns) :
    ns.routerstatusList.length = (lines s).countP isRouterLine ↔
      (∀ l ∈ lines s, isRouterLine l = false) ∨
        isRouterLine s = true ∧ ∀ l ∈ (lines s).dropWhile (fun l => ! isFooterLine l), isRouterLine l = false := by
  rw [networkstatusParse_eq] at h
  cases hl : routerstatusLoop rsa 29 .MICRODESC s with
  | error e =>
    rw [hl] at h
    cases h
  | ok list =>
    rw [hl] at h
    cases h
    rw [← entryCount_iff, ← routerstatusLoop_length hl]

end

/-! ## A file of a relay -/

theorem router_lines_kept_one_relay :
    ∃ ns, networkstatusParseVoteFromString rsa1024 (uploaded [1]) .CONSENSUS = .ok ns ∧
      (ns.routerstatusList.length = (lines (uploaded [1])).countP isRouterLine ↔
        (∀ l ∈ lines (uploaded [1]), isRouterLine l = false) ∨
          isRouterLine (uploaded [1]) = true ∧
            ∀ l ∈ (lines (uploaded [1])).dropWhile (fun l => ! isFooterLine l), isRouterLine l = false) := by
  obtain ⟨ns, hns, -⟩ := uploaded_accepted [1]
  exact ⟨ns, hns, router_lines_kept_iff rsa1024 (uploaded [1]) ns hns⟩

/-- What `relayDecryptSRIs` writes for one relay is accepted, and its router line is no entry. -/
theorem an_index_line_hides_every_entry :
    ∃ ns, networkstatusParseVoteFromString rsa1024 (DownloadRound.entry 1 (uploaded [1])) .CONSENSUS = .ok ns ∧
      ns.routerstatusList.length ≠ (lines (DownloadRound.entry 1 (uploaded [1]))).countP isRouterLine := by
  have hloop : routerstatusLoop rsa1024 29 .MICRODESC (DownloadRound.entry 1 (uploaded [1])) = .ok [] := by
    rw [routerstatusLoop, dif_neg (by decide)]
  have hparse := networkstatusParse_eq rsa1024 (DownloadRound.entry 1 (uploaded [1]))
  rw [hloop] at hparse
  refine ⟨_, hparse, ?_⟩
  have hlines : lines (DownloadRound.entry 1 (uploaded [1])) = "index 1".toList :: lines (uploaded [1]) :=
    List.splitOn_append_cons_self_of_not_mem (show '\n' ∉ "index 1".toList by decide) (uploaded [1])
  have hrouter : isRouterLine ((uploaded [1]).takeWhile (· ≠ '\n')) = true := by
    rw [(takeWhile_line _).1, isRouterLine_iff]
    exact entry_starts (relayAt 1) []
  rw [hlines, lines_eq (uploaded [1]), List.countP_cons_of_neg (by decide), List.countP_cons_of_pos hrouter]
  generalize (lines (uploaded [1])).tail.countP isRouterLine = n
  exact Nat.zero_ne_add_one n

end Badnet.Directory.RouterLines
