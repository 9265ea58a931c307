/-
  Badnet.Directory.Nsd — the digests a client downloads (`client_download_NSD` and `SC/Client.py`).

  The contract packs, for each healthy relay in index order, the stored digest behind the others, next to a vector of
  flags; the client cuts the bytes into pieces, one for each flag that is set. The loop writes flag `i - 1` for a
  healthy relay `i` and flag `i` for any other one (`clientDownloadNSD_exact_iff`). A relay that did not upload yet has
  no digest and its flag is set: every later line is off by one piece (`nsd_table_iff`).
-/

import Badnet.Lib.Lines
import Badnet.Directory.RelayPy
import Badnet.Directory.Registry

namespace Badnet.Directory

open Lib Function

/-! ## The client -/

namespace ClientPy

/-- The loop of `clientDownloadNSD` at the flag `p.1` of relay `p.2 + 1`: the file so far
    and `local`. -/
def writeLine (NSD : List Char) (acc : List Char × Nat) (p : Bool × Nat) : List Char × Nat :=
  if p.1 then
    (acc.1 ++ (Nat.toDigits 10 (p.2 + 1) ++ [' ']) ++ (((NSD.drop (acc.2 * 64)).take 64) ++ ['\n']), acc.2 + 1)
  else acc

/-- The contents of the file `clientDownloadNSD` writes. -/
def clientDownloadNSD (s : State) : Except RelayPy.PyError (List Char) := do
  let (NSDIndex, NSD) ← RelayPy.call (Directory.clientDownloadNSD s)
  return (NSDIndex.zipIdx.foldl (writeLine (RelayPy.hexlify NSD)) ([], 0)).1

end ClientPy

/-! ## (1) The contract's loop -/

def State.healthy (s : State) (i : UInt16) : Bool := (s.relay i).healthflag

/-- What the loop has built after the relays `1 .. k` of `n`. -/
def nsdPrefix (s : State) (n k : Nat) : List Bool × Bytes :=
  (((List.range' 1 k).map UInt16.ofNat).map s.healthy ++ List.replicate (n - k) false,
    (((List.range' 1 k).map UInt16.ofNat).filter s.healthy).flatMap fun i => (s.relay i).NSD)

theorem writeAt_eq {α : Type} {xs ys : List α} {x y : α} {i : Nat} (hi : i = xs.length) :
    writeAt (xs ++ x :: ys) i y = some (xs ++ y :: ys) := by
  subst hi
  unfold writeAt
  rw [if_pos (by simp)]
  simp

variable {s : State} {n : Nat} {i : UInt16} {f : List Char} {us rs : List UInt16}

theorem downloadNSD_step {k : Nat} (hk : k < n) (hn : n < 65536) :
    downloadNSDStep s (nsdPrefix s n k) (UInt16.ofNat (k + 1)) =
      if s.healthy (UInt16.ofNat (k + 1)) = true ∨ k + 1 < n then some (nsdPrefix s n (k + 1)) else none := by
  have hi : (UInt16.ofNat (k + 1)).toNat = k + 1 := UInt16.toNat_ofNat_of_lt' (show k + 1 < 65536 by omega)
  have hi1 : (UInt16.ofNat (k + 1) - 1).toNat = k := by
    rw [UInt16.toNat_sub_of_le _ _ (UInt16.le_iff_toNat_le.mpr (by rw [hi]; show 1 ≤ k + 1; omega)), hi]
    rfl
  have hrange : (List.range' 1 (k + 1)).map UInt16.ofNat = (List.range' 1 k).map UInt16.ofNat ++ [UInt16.ofNat (k + 1)] := by
    rw [List.range'_1_concat, Nat.add_comm 1 k, List.map_append, List.map_singleton]
  have hrep : List.replicate (n - k) false = false :: List.replicate (n - (k + 1)) false := by
    rw [show n - k = (n - (k + 1)) + 1 by omega, List.replicate_succ]
  have hlen : (((List.range' 1 k).map UInt16.ofNat).map s.healthy).length = k := by simp
  unfold downloadNSDStep nsdPrefix
  generalize UInt16.ofNat (k + 1) = x at hi hi1 hrange ⊢
  by_cases hh : (s.relay x).healthflag = true
  · have hh' : s.healthy x = true := hh
    simp only [hh, hh', if_true, true_or, hi1, hrep, hrange, List.map_append, List.map_cons, List.map_nil,
      List.filter_append, List.flatMap_append]
    rw [writeAt_eq hlen.symm]
    simp [hh']
  · have hh' : s.healthy x = false := by simpa [State.healthy] using hh
    simp only [hh, hh', Bool.false_eq_true, if_false, false_or, hi, hrep, hrange, List.map_append, List.map_cons,
      List.map_nil, List.filter_append, List.flatMap_append]
    by_cases hlast : k + 1 < n
    · rw [if_pos hlast]
      have hrep' : List.replicate (n - (k + 1)) false = false :: List.replicate (n - (k + 1) - 1) false := by
        rw [← List.replicate_succ, Nat.sub_add_cancel (by omega)]
      have happ : ∀ (xs ys : List Bool), xs ++ false :: ys = (xs ++ [false]) ++ ys := fun xs ys => by simp
      rw [hrep', happ, writeAt_eq (by simp)]
      simp [hh']
    · rw [if_neg hlast]
      unfold writeAt
      rw [if_neg (by simp; omega)]
      rfl

theorem downloadNSD_loop (hn : n < 65536) :
    ∀ k ≤ n, run (downloadNSDStep s) (List.replicate n false, []) ((List.range' 1 k).map UInt16.ofNat) =
      if k < n ∨ k = 0 ∨ s.healthy (UInt16.ofNat n) = true then some (nsdPrefix s n k) else none := by
  intro k
  induction k with
  | zero => intro _; simp [nsdPrefix]
  | succ k ih =>
    intro hk
    have hrange : List.range' 1 (k + 1) = List.range' 1 k ++ [k + 1] := by
      rw [List.range'_1_concat, Nat.add_comm 1 k]
    rw [hrange, List.map_append, run_append, ih (by omega), if_pos (.inl (by omega))]
    simp only [Option.bind_some, List.map_cons, List.map_nil, run_cons, run_nil, Option.bind_some]
    rw [downloadNSD_step (by omega) hn, Option.bind_fun_some]
    congr 1
    by_cases e : k + 1 = n
    · subst e; simp
    · simp [show k + 1 < n by omega]

/-- The digests of the healthy relays, in index order, behind each other. -/
def State.packedNSD (s : State) : Bytes := (s.indices.filter s.healthy).flatMap fun i => (s.relay i).NSD

theorem length_indices (s : State) : s.indices.length = s.relayIndex.toNat - 1 := by
  simp [State.indices]

theorem clientDownloadNSD_eq (s : State) :
    clientDownloadNSD s =
      if s.relayIndex ≤ 1 ∨ s.healthy (s.relayIndex - 1) = true then
        some (s.indices.map s.healthy ++ List.replicate ((s.relayIndex - 1).toNat - s.indices.length) false, s.packedNSD)
      else none := by
  unfold clientDownloadNSD
  by_cases h0 : s.relayIndex = 0
  · -- after a wrap the loop does not run
    have hind : s.indices = [] := by simp [State.indices, h0]
    rw [if_pos (.inl (by rw [h0]; decide)), hind]
    simp [State.packedNSD, hind]
  · have hpos : s.relayIndex.toNat ≠ 0 := fun e => h0 (UInt16.toNat_inj.mp e)
    have hn : (s.relayIndex - 1).toNat = s.relayIndex.toNat - 1 :=
      UInt16.toNat_sub_of_le _ _ (UInt16.le_iff_toNat_le.mpr (show 1 ≤ s.relayIndex.toNat by omega))
    have hlt := s.relayIndex.toNat_lt
    have hlast : UInt16.ofNat (s.relayIndex.toNat - 1) = s.relayIndex - 1 := by rw [← hn, UInt16.ofNat_toNat]
    have hcond : (s.relayIndex.toNat - 1 < s.relayIndex.toNat - 1 ∨ s.relayIndex.toNat - 1 = 0 ∨
        s.healthy (UInt16.ofNat (s.relayIndex.toNat - 1)) = true) ↔
        (s.relayIndex ≤ 1 ∨ s.healthy (s.relayIndex - 1) = true) := by
      have h1 : s.relayIndex ≤ 1 ↔ s.relayIndex.toNat - 1 = 0 := by
        rw [UInt16.le_iff_toNat_le]
        show s.relayIndex.toNat ≤ 1 ↔ _
        omega
      rw [hlast, h1]
      simp
    have hloop := downloadNSD_loop (s := s) (n := s.relayIndex.toNat - 1) (by omega) _ (Nat.le_refl _)
    rw [← State.indices] at hloop
    rw [hn, hloop, length_indices]
    simp only [hcond]
    rfl

theorem mem_indices : i ∈ s.indices ↔ i ≠ 0 ∧ i < s.relayIndex := by
  have hlt := s.relayIndex.toNat_lt
  have h0 : i ≠ 0 ↔ 1 ≤ i.toNat := by
    rw [Nat.one_le_iff_ne_zero]
    exact not_congr ⟨fun e => by rw [e]; rfl, fun e => UInt16.toNat_inj.mp e⟩
  rw [h0, UInt16.lt_iff_toNat_lt, State.indices, List.mem_map]
  constructor
  · intro h
    obtain ⟨k, hk, rfl⟩ := h
    have hk' := List.mem_range'_1.mp hk
    rw [UInt16.toNat_ofNat_of_lt' (show k < 65536 by omega)]
    omega
  · intro h
    exact ⟨i.toNat, List.mem_range'_1.mpr (by omega), UInt16.ofNat_toNat⟩

theorem getElem_indices (hi : i ∈ s.indices) : s.indices[i.toNat - 1]? = some i := by
  obtain ⟨h0, hlt⟩ := mem_indices.mp hi
  have h0' : i.toNat ≠ 0 := fun e => h0 (UInt16.toNat_inj.mp e)
  have hlt' := UInt16.lt_iff_toNat_lt.mp hlt
  have he : 1 + (i.toNat - 1) = i.toNat := by omega
  unfold State.indices
  rw [List.getElem?_map, List.getElem?_range' (by omega), Option.map_some, Nat.one_mul, he, UInt16.ofNat_toNat]

/-- In every state: the call returns, with the digests of the healthy relays behind each other, exactly if no relay
was handed out or the one with the highest index is healthy. -/
theorem clientDownloadNSD_exact_iff (s : State) :
    (∃ flags bytes, clientDownloadNSD s = some (flags, bytes) ∧ flags.length = (s.relayIndex - 1).toNat ∧
      (∀ i : UInt16, 1 ≤ i.toNat → i < s.relayIndex → flags[i.toNat - 1]? = some (s.relay i).healthflag) ∧
      bytes = (s.indices.filter fun i => (s.relay i).healthflag).flatMap fun i => (s.relay i).NSD) ↔
    s.relayIndex ≤ 1 ∨ (s.relay (s.relayIndex - 1)).healthflag = true := by
  have heq := clientDownloadNSD_eq s
  show _ ↔ s.relayIndex ≤ 1 ∨ s.healthy (s.relayIndex - 1) = true
  constructor
  · intro h
    obtain ⟨flags, bytes, hd, -⟩ := h
    by_contra hc
    rw [heq, if_neg hc] at hd
    cases hd
  · intro hc
    rw [if_pos hc] at heq
    refine ⟨_, _, heq, ?_, fun i h1 hlt => ?_, rfl⟩
    · have hle : s.relayIndex.toNat - 1 ≤ (s.relayIndex - 1).toNat := by
        rw [UInt16.toNat_sub]
        have := s.relayIndex.toNat_lt
        simp only [UInt16.reduceToNat]
        omega
      rw [List.length_append, List.length_map, List.length_replicate, length_indices]
      omega
    · have hi : i ∈ s.indices := mem_indices.mpr ⟨fun e => by rw [e] at h1; exact absurd h1 (by decide), hlt⟩
      have hlen : i.toNat - 1 < s.indices.length := by
        rw [length_indices]
        have := UInt16.lt_iff_toNat_lt.mp hlt
        omega
      rw [List.getElem?_append_left (by simpa using hlen), List.getElem?_map, getElem_indices hi]
      rfl

/-- Relay 1 registers and is marked unhealthy: the download reverts. -/
theorem an_unhealthy_last_relay_reverts :
    ∃ s, run step (deploy 0) [⟨1, .relayRegister⟩, ⟨0, .modifyHealthFlag 1 [1]⟩] = some s ∧
      clientDownloadNSD s = none :=
  ⟨_, rfl, rfl⟩

/-! ## (2) The client's table -/

/-- The lines of a text, without their newlines; what follows the last newline is not
    one. -/
def linesFrom (acc : List Char) : List Char → List (List Char)
  | [] => []
  | c :: cs => if c = '\n' then acc :: linesFrom [] cs else linesFrom (acc ++ [c]) cs

def lines (f : List Char) : List (List Char) := linesFrom [] f

theorem linesFrom_line {l : List Char} (hl : '\n' ∉ l) (acc rest : List Char) :
    linesFrom acc (l ++ '\n' :: rest) = (acc ++ l) :: linesFrom [] rest := by
  induction l generalizing acc with
  | nil => simp [linesFrom]
  | cons c l ih =>
    have hc : c ≠ '\n' := fun e => hl (by simp [e])
    simp only [List.cons_append, linesFrom, hc, if_false]
    rw [ih (fun h => hl (List.mem_cons_of_mem _ h))]
    simp

theorem lines_unlines {ls : List (List Char)} (hl : ∀ l ∈ ls, '\n' ∉ l) : lines (unlines '\n' ls) = ls := by
  induction ls with
  | nil => rfl
  | cons l ls ih =>
    have ih := ih fun x hx => hl x (List.mem_cons_of_mem _ hx)
    unfold lines at ih ⊢
    rw [unlines_cons, linesFrom_line (hl l List.mem_cons_self), ih]
    rfl

/-- The line that pairs relay `n` with the text `d`. -/
def pairLine (n : Nat) (d : List Char) : List Char := Nat.toDigits 10 n ++ ' ' :: d

theorem isDigit_of_mem {c : Char} (h : c ∈ Nat.toDigits 10 n) : c.isDigit = true :=
  Nat.isDigit_of_mem_toDigits (by decide) (by decide) h

theorem pairLine_inj {m : Nat} {d e : List Char} (h : pairLine m d = pairLine n e) : m = n ∧ d = e := by
  have hnum : ∀ (k : Nat) (d : List Char), (pairLine k d).takeWhile (· ≠ ' ') = Nat.toDigits 10 k := by
    intro k d
    have hall : ∀ c ∈ Nat.toDigits 10 k, decide (c ≠ ' ') = true := by
      intro c hc
      have := isDigit_of_mem hc
      simp only [decide_eq_true_eq]
      intro e
      subst e
      exact absurd this (by decide)
    exact takeWhile_run hall fun c hc => by rw [← Option.some.inj hc]; decide
  have hd : Nat.toDigits 10 m = Nat.toDigits 10 n := by rw [← hnum m d, h, hnum]
  have hmn : m = n := by
    rw [← Nat.ofDigitChars_ten_toDigits (n := m), hd, Nat.ofDigitChars_ten_toDigits]
  subst hmn
  have := List.append_cancel_left h
  exact ⟨rfl, (List.cons.inj this).2⟩

variable (NSD : List Char)

/-- The piece of 64 hex digits at position `k`. -/
def piece (k : Nat) : List Char := (NSD.drop (k * 64)).take 64

/-- The lines of the file: one for each healthy relay, each with the next piece. -/
def tableLines (NSD : List Char) (k : Nat) : List UInt16 → List (List Char)
  | [] => []
  | i :: is => pairLine i.toNat (piece NSD k) :: tableLines NSD (k + 1) is

theorem writeLines_eq (n : Nat) : ∀ (p k : Nat) (acc : List Char), p + n < 65536 →
    ((((List.range' (p + 1) n).map UInt16.ofNat).map s.healthy).zipIdx p).foldl (ClientPy.writeLine NSD) (acc, k) =
      (acc ++ (tableLines NSD k (((List.range' (p + 1) n).map UInt16.ofNat).filter s.healthy)).flatMap (· ++ ['\n']),
        k + (((List.range' (p + 1) n).map UInt16.ofNat).filter s.healthy).length) := by
  induction n with
  | zero => intro p k acc _; simp [tableLines]
  | succ n ih =>
    intro p k acc hp
    have hi : (UInt16.ofNat (p + 1)).toNat = p + 1 := UInt16.toNat_ofNat_of_lt' (show p + 1 < 65536 by omega)
    rw [List.range'_succ, List.map_cons, List.map_cons, List.zipIdx_cons, List.foldl_cons, List.filter_cons]
    generalize UInt16.ofNat (p + 1) = x at hi ⊢
    by_cases hh : s.healthy x = true
    · simp only [ClientPy.writeLine, hh, if_true]
      rw [ih (p + 1) (k + 1) _ (by omega)]
      simp [tableLines, pairLine, piece, hi]
      omega
    · simp only [ClientPy.writeLine, hh, if_false, Bool.false_eq_true]
      rw [ih (p + 1) k _ (by omega)]

theorem writeLines_false (m : Nat) : ∀ (p : Nat) (acc : List Char × Nat),
    ((List.replicate m false).zipIdx p).foldl (ClientPy.writeLine NSD) acc = acc := by
  induction m with
  | zero => intro p acc; rfl
  | succ m ih =>
    intro p acc
    rw [List.replicate_succ, List.zipIdx_cons, List.foldl_cons, ih]
    rfl

theorem clientFile_eq (h : ClientPy.clientDownloadNSD s = .ok f) :
    f = unlines '\n' (tableLines (RelayPy.hexlify s.packedNSD) 0 (s.indices.filter s.healthy)) := by
  unfold ClientPy.clientDownloadNSD at h
  simp only [RelayPy.bind_ok, RelayPy.call_ok] at h
  obtain ⟨⟨flags, bytes⟩, hd, hf⟩ := h
  rw [clientDownloadNSD_eq] at hd
  split at hd
  · cases hd
    cases hf
    have hlt := s.relayIndex.toNat_lt
    have hw := writeLines_eq (s := s) (RelayPy.hexlify s.packedNSD) (s.relayIndex.toNat - 1) 0 0 [] (by omega)
    rw [List.zipIdx_append, List.foldl_append, writeLines_false]
    simp only [Nat.zero_add, List.nil_append] at hw
    rw [← State.indices] at hw
    exact congrArg Prod.fst hw
  · cases hd

theorem hexlify_append (xs ys : Bytes) : RelayPy.hexlify (xs ++ ys) = RelayPy.hexlify xs ++ RelayPy.hexlify ys :=
  List.flatMap_append

theorem length_hexlify (bs : Bytes) : (RelayPy.hexlify bs).length = 2 * bs.length := by
  induction bs with
  | nil => rfl
  | cons b bs ih =>
    rw [← List.singleton_append, hexlify_append, List.length_append, ih, List.length_append]
    show 2 + _ = _
    simp; omega

theorem newline_notMem_hexlify (bs : Bytes) : '\n' ∉ RelayPy.hexlify bs := by
  intro h
  obtain ⟨b, -, hb⟩ := List.mem_flatMap.mp h
  have hdig : ∀ k < 16, Nat.digitChar k ≠ '\n' := by decide
  have hlt := b.toNat_lt
  rcases List.mem_cons.mp hb with e | hb
  · exact hdig _ (by omega) e.symm
  · exact hdig _ (Nat.mod_lt _ (by decide)) (List.mem_singleton.mp hb).symm

theorem newline_notMem_pairLine {d : List Char} (hd : '\n' ∉ d) : '\n' ∉ pairLine n d := by
  intro h
  rcases List.mem_append.mp h with h | h
  · exact absurd (isDigit_of_mem h) (by decide)
  · rcases List.mem_cons.mp h with e | h
    · exact absurd e (by decide)
    · exact hd h

theorem newline_notMem_tableLines {NSD : List Char} (hd : '\n' ∉ NSD) (is : List UInt16) :
    ∀ k, ∀ l ∈ tableLines NSD k is, '\n' ∉ l := by
  induction is with
  | nil => intro k l hl; cases hl
  | cons i is ih =>
    intro k l hl
    rcases List.mem_cons.mp hl with rfl | hl
    · exact newline_notMem_pairLine fun h => hd (List.mem_of_mem_drop (List.mem_of_mem_take h))
    · exact ih (k + 1) l hl

/-- While every relay has a digest the pieces are the digests; where the digests end, the
    remaining lines carry the pieces of what follows. -/
theorem tableLines_append (hus : ∀ i ∈ us, (s.relay i).NSD.length = 32)
    (rest : List UInt16) (tail : List Char) : ∀ (done : List Char) (k : Nat), done.length = k * 64 →
    tableLines (done ++ RelayPy.hexlify (us.flatMap fun i => (s.relay i).NSD) ++ tail) k (us ++ rest) =
      us.map (fun i => pairLine i.toNat (RelayPy.hexlify (s.relay i).NSD)) ++
      tableLines (done ++ RelayPy.hexlify (us.flatMap fun i => (s.relay i).NSD) ++ tail) (k + us.length) rest := by
  induction us with
  | nil => intro done k _; simp
  | cons i us ih =>
    intro done k hk
    have hi : (RelayPy.hexlify (s.relay i).NSD).length = 64 := by
      rw [length_hexlify, hus i List.mem_cons_self]
    have ih := ih (fun j hj => hus j (List.mem_cons_of_mem _ hj)) (done ++ RelayPy.hexlify (s.relay i).NSD) (k + 1)
      (by rw [List.length_append, hk, hi]; omega)
    rw [List.flatMap_cons, hexlify_append, ← List.append_assoc, List.cons_append, tableLines, ih]
    have hpiece : piece (done ++ RelayPy.hexlify (s.relay i).NSD ++ RelayPy.hexlify (us.flatMap fun i => (s.relay i).NSD) ++
        tail) k = RelayPy.hexlify (s.relay i).NSD := by
      unfold piece
      rw [← hk, List.append_assoc, List.append_assoc, List.drop_left, ← hi, List.take_left]
    rw [hpiece]
    simp [Nat.add_assoc, Nat.add_comm 1]

theorem pairwise_indices (s : State) : s.indices.Pairwise (· < ·) := by
  have hlt := s.relayIndex.toNat_lt
  unfold State.indices
  rw [List.pairwise_map]
  refine List.Pairwise.imp_of_mem ?_ (List.pairwise_lt_range' (s := 1) (n := s.relayIndex.toNat - 1))
  intro a b ha hb hab
  have hb' := List.mem_range'_1.mp hb
  rw [UInt16.lt_iff_toNat_lt, UInt16.toNat_ofNat_of_lt' (show a < 65536 by omega),
    UInt16.toNat_ofNat_of_lt' (show b < 65536 by omega)]
  exact hab

/-- Every stored digest is empty (no upload yet) or 32 bytes long. -/
def Digests (s : State) : Prop := ∀ i, (s.relay i).NSD = [] ∨ (s.relay i).NSD.length = 32

theorem digests_run {o : Address} {cs : List Call} (h : run step (deploy o) cs = some s)
    (hup : ∀ c ∈ cs, ∀ u, c.tx = .relayUploadSRIAndNSD u → u.NSD.length = 32) : Digests s := by
  induction cs using List.reverseRecOn generalizing s with
  | nil => cases h; intro i; exact .inl rfl
  | append_singleton cs c ih =>
    obtain ⟨t, ht, hc⟩ := (run_snoc_some step).mp h
    have ih := ih ht fun d hd => hup d (List.mem_append_left _ hd)
    intro i
    cases step_iff.mp hc with
    | register a _ =>
      by_cases e : i = t.relayIndex
      · simpa [State.enrolled, e] using ih t.relayIndex
      · simpa [State.enrolled, e] using ih i
    | upload a u _ =>
      by_cases e : i = t.relayaddr a
      · right
        simpa [State.uploaded, e, Relay.store] using hup ⟨a, .relayUploadSRIAndNSD u⟩ (by simp) u rfl
      · simpa [State.uploaded, e] using ih i
    | cancel a _ =>
      by_cases e : i = t.relayaddr a
      · left; simp [State.cancelled, e]
      · simpa [State.cancelled, e] using ih i
    | period p => exact ih i
    | modify size list _ _ _ =>
      have hst := congrArg Upload.NSD (marked_stored t (list.take size.toNat) i)
      rw [logOp_relay]
      show ((t.marked _).relay i).stored.NSD = [] ∨ ((t.marked _).relay i).stored.NSD.length = 32
      rw [hst]
      exact ih i

/-- The table of a file: one line with its digest for every healthy relay that has
    one, and no line that pairs a relay with another digest. -/
def NsdTable (s : State) (f : List Char) : Prop :=
  (∀ i, (s.relay i).healthflag = true → (s.relay i).NSD ≠ [] →
    (lines f).count (pairLine i.toNat (RelayPy.hexlify (s.relay i).NSD)) = 1) ∧
  ∀ n d, d.length = 64 → pairLine n d ∈ lines f → ∃ i : UInt16, i.toNat = n ∧ d = RelayPy.hexlify (s.relay i).NSD

/-- A healthy relay with a digest lies in `[1, relayIndex)` and has no healthy relay
    without a digest before it. -/
def NsdOrdered (s : State) : Prop :=
  ∀ j, (s.relay j).healthflag = true → (s.relay j).NSD ≠ [] → j ≠ 0 ∧ j < s.relayIndex ∧
    ∀ i, i ≠ 0 → i < j → (s.relay i).healthflag = true → (s.relay i).NSD ≠ []

theorem tableLines_past {NSD : List Char} (is : List UInt16) : ∀ k, NSD.length ≤ k * 64 →
    tableLines NSD k is = is.map fun i => pairLine i.toNat [] := by
  induction is with
  | nil => intro k _; rfl
  | cons i is ih =>
    intro k hk
    have hp : piece NSD k = [] := by
      unfold piece
      rw [List.drop_eq_nil_of_le hk, List.take_nil]
    rw [tableLines, hp, ih (k + 1) (by omega)]
    rfl

theorem length_hexlify_digests (hus : ∀ i ∈ us, (s.relay i).NSD.length = 32) :
    (RelayPy.hexlify (us.flatMap fun i => (s.relay i).NSD)).length = us.length * 64 := by
  rw [length_hexlify, List.length_flatMap, List.map_congr_left hus]
  simp; omega

/-- When no digest follows a missing one, each line carries its relay's digest. -/
theorem tableLines_ordered (hd : Digests s) (hus : ∀ i ∈ us, (s.relay i).NSD ≠ [])
    (hrs : ∀ i ∈ rs, (s.relay i).NSD = []) :
    tableLines (RelayPy.hexlify ((us ++ rs).flatMap fun i => (s.relay i).NSD)) 0 (us ++ rs) =
      (us ++ rs).map fun i => pairLine i.toNat (RelayPy.hexlify (s.relay i).NSD) := by
  have hus' : ∀ i ∈ us, (s.relay i).NSD.length = 32 := fun i hi => (hd i).resolve_left (hus i hi)
  have hnil : (rs.flatMap fun i => (s.relay i).NSD) = [] := List.flatMap_eq_nil_iff.mpr hrs
  have happ := tableLines_append hus' rs [] [] 0 rfl
  rw [List.flatMap_append, hnil, List.append_nil]
  simp only [List.nil_append, List.append_nil, Nat.zero_add] at happ
  rw [happ, tableLines_past rs _ (Nat.le_of_eq (length_hexlify_digests hus')), List.map_append]
  congr 1
  refine List.map_congr_left fun i hi => ?_
  rw [hrs i hi]
  rfl

/-- A relay without a digest before one with a digest gets a piece of a later digest. -/
theorem tableLines_shifted (hd : Digests s) (hus : ∀ i ∈ us, (s.relay i).NSD ≠ [])
    {j : UInt16} (hi : (s.relay i).NSD = []) (hj : j ∈ rs) (hjn : (s.relay j).NSD ≠ []) :
    ∃ d, d.length = 64 ∧ pairLine i.toNat d ∈
      tableLines (RelayPy.hexlify ((us ++ i :: rs).flatMap fun i => (s.relay i).NSD)) 0 (us ++ i :: rs) := by
  have hus' : ∀ i ∈ us, (s.relay i).NSD.length = 32 := fun i hi => (hd i).resolve_left (hus i hi)
  have happ := tableLines_append hus' (i :: rs) (RelayPy.hexlify (rs.flatMap fun i => (s.relay i).NSD)) [] 0 rfl
  rw [List.flatMap_append, List.flatMap_cons, hi, List.nil_append, hexlify_append]
  simp only [List.nil_append, Nat.zero_add] at happ
  rw [happ]
  refine ⟨_, ?_, List.mem_append_right _ List.mem_cons_self⟩
  have htail : 64 ≤ (RelayPy.hexlify (rs.flatMap fun i => (s.relay i).NSD)).length := by
    have h32 := (hd j).resolve_left hjn
    obtain ⟨xs, ys, rfl⟩ := List.append_of_mem hj
    rw [length_hexlify, List.flatMap_append, List.flatMap_cons, List.length_append, List.length_append]
    omega
  unfold piece
  rw [← length_hexlify_digests hus', List.drop_left, List.length_take]
  omega

theorem lines_clientFile (h : ClientPy.clientDownloadNSD s = .ok f) :
    lines f = tableLines (RelayPy.hexlify s.packedNSD) 0 (s.indices.filter s.healthy) := by
  rw [clientFile_eq h]
  exact lines_unlines (newline_notMem_tableLines (newline_notMem_hexlify _) _ 0)

theorem mem_healthyIndices :
    i ∈ s.indices.filter s.healthy ↔ i ≠ 0 ∧ i < s.relayIndex ∧ (s.relay i).healthflag = true := by
  rw [List.mem_filter, mem_indices, and_assoc]
  rfl

/-- Either no digest follows a missing one, or there is a first missing one and a digest
    after it. -/
theorem digests_cases (s : State) (is : List UInt16) :
    (∃ us rs, is = us ++ rs ∧ (∀ i ∈ us, (s.relay i).NSD ≠ []) ∧ ∀ i ∈ rs, (s.relay i).NSD = []) ∨
    ∃ us i rs j, is = us ++ i :: rs ∧ (∀ i ∈ us, (s.relay i).NSD ≠ []) ∧ (s.relay i).NSD = [] ∧ j ∈ rs ∧
      (s.relay j).NSD ≠ [] := by
  induction is with
  | nil => exact .inl ⟨[], [], rfl, nofun, nofun⟩
  | cons x is ih =>
    by_cases hx : (s.relay x).NSD = []
    · by_cases hall : ∀ i ∈ is, (s.relay i).NSD = []
      · exact .inl ⟨[], x :: is, rfl, nofun, List.forall_mem_cons.mpr ⟨hx, hall⟩⟩
      · push Not at hall
        obtain ⟨j, hj, hjn⟩ := hall
        exact .inr ⟨[], x, is, j, rfl, nofun, hx, hj, hjn⟩
    · rcases ih with ⟨us, rs, rfl, hus, hrs⟩ | ⟨us, i, rs, j, rfl, hus, hi, hj, hjn⟩
      · exact .inl ⟨x :: us, rs, rfl, List.forall_mem_cons.mpr ⟨hx, hus⟩, hrs⟩
      · exact .inr ⟨x :: us, i, rs, j, rfl, List.forall_mem_cons.mpr ⟨hx, hus⟩, hi, hj, hjn⟩

/-- The table when each line carries its relay's digest. -/
theorem nsdTable_of_lines (he : s.indices.filter s.healthy = us ++ rs) (hus : ∀ i ∈ us, (s.relay i).NSD ≠ [])
    (hrs : ∀ i ∈ rs, (s.relay i).NSD = [])
    (hl : lines f = (us ++ rs).map fun i => pairLine i.toNat (RelayPy.hexlify (s.relay i).NSD)) :
    NsdTable s f ↔ NsdOrdered s := by
  have hsorted : (us ++ rs).Pairwise (· < ·) := he ▸ (pairwise_indices s).filter _
  have hinj : ∀ {m : UInt16} {n : UInt16} {d e : List Char}, pairLine m.toNat d = pairLine n.toNat e → m = n :=
    fun h => UInt16.toNat_inj.mp (pairLine_inj h).1
  constructor
  · intro ht j hj hjn
    have hmem : pairLine j.toNat (RelayPy.hexlify (s.relay j).NSD) ∈ lines f := by
      exact List.one_le_count_iff.mp (Nat.le_of_eq (ht.1 j hj hjn).symm)
    rw [hl] at hmem
    obtain ⟨i, hi, e⟩ := List.mem_map.mp hmem
    obtain rfl := hinj e
    have hrange := mem_healthyIndices.mp (he ▸ hi)
    refine ⟨hrange.1, hrange.2.1, fun k hk0 hkj hk hkn => ?_⟩
    have hkmem : k ∈ us ++ rs := he ▸ mem_healthyIndices.mpr ⟨hk0, UInt16.lt_trans hkj hrange.2.1, hk⟩
    have hkr : k ∈ rs := (List.mem_append.mp hkmem).resolve_left fun hu => hus k hu hkn
    have hiu : i ∈ us := (List.mem_append.mp hi).resolve_right fun hr => hjn (hrs i hr)
    exact UInt16.lt_irrefl _ (UInt16.lt_trans hkj ((List.pairwise_append.mp hsorted).2.2 i hiu k hkr))
  · intro hord
    have hnodup : (lines f).Nodup := by
      rw [hl]
      refine List.Nodup.map_on (fun a _ b _ e => hinj e) ?_
      apply hsorted.imp
      intro a b hab e
      subst e
      exact UInt16.lt_irrefl _ hab
    constructor
    · intro j hj hjn
      obtain ⟨h0, hlt, -⟩ := hord j hj hjn
      refine List.count_eq_one_of_mem hnodup ?_
      rw [hl]
      exact List.mem_map.mpr ⟨j, he ▸ mem_healthyIndices.mpr ⟨h0, hlt, hj⟩, rfl⟩
    · intro n d _ hmem
      rw [hl] at hmem
      obtain ⟨i, -, e⟩ := List.mem_map.mp hmem
      obtain ⟨hn, hd⟩ := pairLine_inj e
      exact ⟨i, hn, hd.symm⟩

/-- Whenever the download returns, the file is the contract's table exactly if no healthy relay without a digest
stands before one with a digest, and every one with a digest is below `relayIndex`. -/
theorem nsd_table_iff (o : Address) (cs : List Call) (s : State) (f : List Char)
    (h : run step (deploy o) cs = some s)
    (hup : ∀ c ∈ cs, ∀ u, c.tx = .relayUploadSRIAndNSD u → u.NSD.length = 32)
    (hf : ClientPy.clientDownloadNSD s = .ok f) : NsdTable s f ↔ NsdOrdered s := by
  have hd := digests_run h hup
  have hlines := lines_clientFile hf
  have hpacked : s.packedNSD = (s.indices.filter s.healthy).flatMap fun i => (s.relay i).NSD := rfl
  rw [hpacked] at hlines
  rcases digests_cases s (s.indices.filter s.healthy) with ⟨us, rs, he, hus, hrs⟩ | ⟨us, i, rs, j, he, hus, hi, hj, hjn⟩
  · rw [he, tableLines_ordered hd hus hrs] at hlines
    exact nsdTable_of_lines he hus hrs hlines
  · rw [he] at hlines
    refine iff_of_false (fun ht => ?_) fun hord => ?_
    · obtain ⟨d, hlen, hmem⟩ := tableLines_shifted hd hus hi hj hjn
      obtain ⟨k, hk, hdk⟩ := ht.2 i.toNat d hlen (hlines ▸ hmem)
      obtain rfl := UInt16.toNat_inj.mp hk
      rw [hdk, hi] at hlen
      exact absurd hlen (by decide)
    · have hsorted : (us ++ i :: rs).Pairwise (· < ·) := he ▸ (pairwise_indices s).filter _
      have hij : i < j := List.rel_of_pairwise_cons (List.pairwise_append.mp hsorted).2.1 hj
      have hmi := mem_healthyIndices.mp (he ▸ (by simp : i ∈ us ++ i :: rs))
      have hmj := mem_healthyIndices.mp (he ▸ (by simp [hj] : j ∈ us ++ i :: rs))
      exact (hord j hmj.2.2 hjn).2.2 i hmi.1 hij hmi.2.2 hi

/-- Relay 1 registers and uploads, relay 2 registers and does not. -/
theorem nsd_table_iff_upload_then_registration :
    let cs : List Call := [⟨1, .relayRegister⟩, ⟨1, .relayUploadSRIAndNSD ⟨2, [], [], List.replicate 32 7⟩⟩,
      ⟨2, .relayRegister⟩]
    ∃ s f, run step (deploy 0) cs = some s ∧ ClientPy.clientDownloadNSD s = .ok f ∧ NsdOrdered s ∧ NsdTable s f := by
  intro cs
  have hup : ∀ c ∈ cs, ∀ u, c.tx = .relayUploadSRIAndNSD u → u.NSD.length = 32 := by
    intro c hc u hu
    simp only [cs, List.mem_cons, List.not_mem_nil, or_false] at hc
    rcases hc with rfl | rfl | rfl <;> cases hu
    rfl
  refine ⟨_, _, rfl, rfl, ?_⟩
  rw [nsd_table_iff 0 cs _ _ rfl hup rfl, and_self]
  intro j hj hjn
  have hs := registry_run (o := 0) (s := _) (show run step (deploy 0) cs = some _ from rfl) (by decide)
  obtain ⟨hj0, hlt⟩ := hs.range j ((hs.health j).mp hj).1
  have hj0' : j.toNat ≠ 0 := fun e => hj0 (UInt16.toNat_inj.mp e)
  have hlt' : j.toNat < 3 := UInt16.lt_iff_toNat_lt.mp hlt
  have hj2 : j ≠ 2 := fun e => hjn (by rw [e]; rfl)
  have hj2' : j.toNat ≠ 2 := fun e => hj2 (UInt16.toNat_inj.mp e)
  obtain rfl : j = 1 := UInt16.toNat_inj.mp (show j.toNat = 1 by omega)
  refine ⟨by decide, by decide, fun i h0 h1 => ?_⟩
  have h0' : i.toNat ≠ 0 := fun e => h0 (UInt16.toNat_inj.mp e)
  have h1' : i.toNat < 1 := UInt16.lt_iff_toNat_lt.mp h1
  omega

/-- Relay 1 has registered and not uploaded, relay 2 has done both: the file pairs 1 with
    the digest of relay 2. -/
theorem a_missing_upload_shifts_the_table :
    ∃ s f, run step (deploy 0) [⟨1, .relayRegister⟩, ⟨2, .relayRegister⟩,
        ⟨2, .relayUploadSRIAndNSD ⟨3, [], [], List.replicate 32 7⟩⟩] = some s ∧
      ClientPy.clientDownloadNSD s = .ok f ∧ (s.relay 1).NSD = [] ∧ (s.relay 2).NSD = List.replicate 32 7 ∧
      lines f = [pairLine 1 (RelayPy.hexlify (s.relay 2).NSD), pairLine 2 []] ∧ ¬ NsdTable s f := by
  set_option maxRecDepth 4000 in
  refine ⟨_, _, rfl, rfl, rfl, rfl, rfl, fun ht => ?_⟩
  obtain ⟨i, hi, hd⟩ := ht.2 1 (RelayPy.hexlify (List.replicate 32 7)) rfl List.mem_cons_self
  obtain rfl : i = 1 := UInt16.toNat_inj.mp hi
  have hlen := congrArg List.length hd
  rw [length_hexlify, length_hexlify] at hlen
  exact absurd hlen (by decide)

end Badnet.Directory
