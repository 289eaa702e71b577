/-
SandboxVm.Proofs.Cells — the words of a data region, byte by byte.

Loads and stores work on aligned cells of the region, addresses are masked into it, and a host
edits ranges of bytes. What one of them does to another is a question of which bytes they have
in common, so regions are looked at one byte at a time here.

  §1  `Sandbox.byte`: regions are given by their bytes, words are read from four of them;
  §2  stores: a word is read back where it was stored, and other words keep their value;
  §3  edits: `Written`, ranges with new bytes; `Edit.Spares`, and bytes that an edit leaves alone;
  §4  where the words at consecutive addresses are (`cell_word_add`), and when they differ.
-/
import SandboxVm.Sandbox

namespace SandboxVm

/-! ## §1 Bytes of a region -/

theorem Region.data_set (b : ByteArray) (i : Nat) (v : UInt8) (h : i < b.size) :
    (b.set i v h).data = b.data.set i v h := by
  cases b
  rfl

theorem Region.get_eq (b : ByteArray) (i : Nat) (h : i < b.size) :
    b.get i h = b.data[i]?.getD 0 := by
  cases b with
  | mk data =>
    have hi : i < data.size := h
    rw [Array.getElem?_eq_getElem hi]
    rfl

namespace Sandbox

/-- The byte with the given index, zero behind the end of the region. -/
def byte (s : Sandbox) (i : Nat) : UInt8 := s.bytes.data[i]?.getD 0

/-- Regions of one size with the same bytes are equal. -/
theorem ext_byte {s t : Sandbox} (hsize : s.size = t.size) (h : ∀ i, s.byte i = t.byte i) :
    s = t := by
  apply ext
  apply ByteArray.ext
  refine Array.ext hsize ?_
  intro i hs ht
  have hi := h i
  rw [byte, byte, Array.getElem?_eq_getElem hs, Array.getElem?_eq_getElem ht] at hi
  exact hi

theorem load32_eq (s : Sandbox) (addr : UInt32) :
    s.load32 addr = Bytes.toWord (s.byte (s.cell .word addr)) (s.byte (s.cell .word addr + 1))
      (s.byte (s.cell .word addr + 2)) (s.byte (s.cell .word addr + 3)) := by
  rw [load32, Region.get_eq, Region.get_eq, Region.get_eq, Region.get_eq]
  rfl

/-- A word is read from its own four bytes. -/
theorem load32_congr {s t : Sandbox} {p : UInt32} (hsize : s.size = t.size)
    (h : ∀ k < 4, s.byte (s.cell .word p + k) = t.byte (s.cell .word p + k)) :
    s.load32 p = t.load32 p := by
  have hcell : t.cell .word p = s.cell .word p := cell_congr hsize.symm .word p
  rw [load32_eq, load32_eq, hcell, h 1 (by omega), h 2 (by omega), h 3 (by omega)]
  exact congrArg (Bytes.toWord · _ _ _) (h 0 (by omega))

/-! ## §2 Stores -/

variable {s : Sandbox} {p q v : UInt32} {j : Nat}

theorem cell_store32 (w : Width) : (s.store32 p v).cell w q = s.cell w q := rfl

theorem byte_store32 : (s.store32 p v).byte j =
    if j = s.cell .word p + 3 then (v >>> 24).toUInt8
    else if j = s.cell .word p + 2 then (v >>> 16).toUInt8
    else if j = s.cell .word p + 1 then (v >>> 8).toUInt8
    else if j = s.cell .word p then v.toUInt8 else s.byte j := by
  have hin : s.cell .word p + 4 ≤ s.bytes.data.size := s.cell_add_bytes_le .word p
  simp only [byte, store32, Region.data_set, Array.getElem?_set]
  grind

/-- A word that was stored is loaded. -/
@[simp]
theorem load32_store32_self : (s.store32 p v).load32 p = v := by
  rw [load32_eq, cell_store32]
  simp [byte_store32]

theorem byte_store32_of_outside (h : j < s.cell .word p ∨ s.cell .word p + 4 ≤ j) :
    (s.store32 p v).byte j = s.byte j := by
  rw [byte_store32, if_neg (by omega), if_neg (by omega), if_neg (by omega), if_neg (by omega)]

/-- Cells of words have no byte in common unless they are the same. -/
theorem cell_word_disjoint (h : s.cell .word p ≠ s.cell .word q) :
    s.cell .word p + 4 ≤ s.cell .word q ∨ s.cell .word q + 4 ≤ s.cell .word p := by
  simp only [cell] at h ⊢
  omega

/-- A store leaves the other words alone. -/
theorem load32_store32_of_ne (h : s.cell .word p ≠ s.cell .word q) :
    (s.store32 p v).load32 q = s.load32 q := by
  have hdisj := cell_word_disjoint h
  apply load32_congr (size_store32 s p v)
  intro k hk
  rw [cell_store32]
  exact byte_store32_of_outside (by omega)

/-- The later one of two stores into a word counts. -/
theorem store32_store32 {w : UInt32} : (s.store32 p v).store32 p w = s.store32 p w := by
  apply ext_byte (by simp)
  intro j
  simp only [byte_store32, cell_store32]
  grind

/-- Storing what is there already changes nothing. -/
theorem store32_load32 : s.store32 p (s.load32 p) = s := by
  apply ext_byte (by simp)
  intro j
  have hbytes := Bytes.ofWord_toWord (s.byte (s.cell .word p)) (s.byte (s.cell .word p + 1))
    (s.byte (s.cell .word p + 2)) (s.byte (s.cell .word p + 3))
  rw [← load32_eq] at hbytes
  simp only [Bytes.ofWord, List.cons.injEq, and_true] at hbytes
  obtain ⟨h0, h1, h2, h3⟩ := hbytes
  rw [byte_store32, h0, h1, h2, h3]
  grind

/-! ## §3 Edits -/

/-- The first one and the number of the bytes that an edit of the region writes. -/
def Edit.range? (s : Sandbox) : Edit → Option (Nat × Nat)
  | .store w addr _ => some (s.cell w addr, w.bytes)
  | .write ptr data => (s.range? ptr data.length).map fun i => (i, data.length)
  | .fill ptr n _ => (s.range? ptr n).map fun i => (i, n)
  | .copy dest src n => if s.canCopy dest src n then some (dest.toNat, n.toNat) else none
  | .replace _ => some (0, s.size)

/-- The edit leaves the region in place and writes none of the `n` bytes from `i` on. -/
def Edit.Spares (s : Sandbox) (e : Edit) (i n : Nat) : Prop :=
  e.InPlace ∧ ∀ start len, e.range? s = some (start, len) → start + len ≤ i ∨ i + n ≤ start

theorem getElem?_splice {α : Type} (l vs : List α) {i j : Nat} (hi : i + vs.length ≤ l.length)
    (hj : j < i ∨ i + vs.length ≤ j) :
    (l.take i ++ vs ++ l.drop (i + vs.length))[j]? = l[j]? := by
  rcases hj with hj | hj
  · rw [List.append_assoc, List.getElem?_append_left (by simp; omega),
      List.getElem?_take_of_lt hj]
  · rw [List.getElem?_append_right (by simp; omega), List.getElem?_drop]
    simp only [List.length_append, List.length_take]
    congr 1
    omega

theorem getElem?_splice_of_inside {α : Type} (l vs : List α) {i k : Nat}
    (hi : i + vs.length ≤ l.length) (hk : k < vs.length) :
    (l.take i ++ vs ++ l.drop (i + vs.length))[i + k]? = vs[k]? := by
  have htake : (l.take i).length = i := by
    rw [List.length_take]
    omega
  rw [List.getElem?_append_left (by rw [List.length_append, htake]; omega),
    List.getElem?_append_right (by omega), htake, Nat.add_sub_cancel_left]

theorem byte_overwrite_of_outside {i : Nat} {data : Bytes} (hi : i + data.length ≤ s.size)
    (hj : j < i ∨ i + data.length ≤ j) : (s.overwrite i data).byte j = s.byte j := by
  rw [byte, byte, ← Array.getElem?_toList, ← Array.getElem?_toList]
  simp only [overwrite]
  rw [Region.toList_overwrite _ _ _ hi, getElem?_splice _ _ (Array.length_toList ▸ hi) hj]

/-- The region `t` is the region `s` with new bytes in a range. -/
structure Written (s t : Sandbox) (i n : Nat) (value : Nat → UInt8) : Prop where
  size : t.size = s.size
  written : ∀ k < n, t.byte (i + k) = value k
  kept : ∀ j, j < i ∨ i + n ≤ j → t.byte j = s.byte j

theorem written_overwrite {i : Nat} {data : Bytes} (h : i + data.length ≤ s.size) :
    s.Written (s.overwrite i data) i data.length fun k => data[k]?.getD 0 where
  size := Region.size_overwrite ..
  written k hk := by
    have hlen : i + data.length ≤ s.bytes.data.toList.length := by
      rw [Array.length_toList]
      exact h
    rw [byte, ← Array.getElem?_toList, overwrite, Region.toList_overwrite _ _ _ h,
      getElem?_splice_of_inside _ _ hlen hk]
  kept _ hj := byte_overwrite_of_outside h hj

theorem fillFrom_eq_overwrite (s : Sandbox) (i n : Nat) (v : UInt8) :
    s.fillFrom i n v = s.overwrite i (List.replicate n v) :=
  ext (Region.fill_eq_overwrite v n s.bytes i)

theorem byte_store_of_outside {w : Width} (h : j < s.cell w p ∨ s.cell w p + w.bytes ≤ j) :
    (s.store w p v).byte j = s.byte j := by
  have hin := s.cell_add_bytes_le w p
  cases w with
  | word => exact byte_store32_of_outside h
  | half =>
    simp only [Width.bytes] at h
    simp only [byte, store, store16, Region.data_set, Array.getElem?_set]
    grind
  | byte =>
    have hne : s.cell .byte p ≠ j := by
      simp only [Width.bytes] at h
      omega
    have hdata : (s.store8 p v.toUInt8).bytes.data = s.bytes.data.set _ v.toUInt8 hin :=
      Region.data_set ..
    rw [store, byte, hdata, Array.getElem?_set_ne hin hne, byte]

theorem range?_le {ptr : UInt32} {n i : Nat} (h : s.range? ptr n = some i) : i + n ≤ s.size := by
  unfold range? at h
  split at h
  · cases h
  · split at h <;> cases h
    assumption

/-- An edit leaves the bytes alone that it does not write. -/
theorem byte_edit_of_spares {e : Edit} (h : e.Spares s j 1) : (s.edit e).byte j = s.byte j := by
  obtain ⟨hplace, h⟩ := h
  cases e with
  | store w addr v => exact byte_store_of_outside (by have := h _ _ rfl; omega)
  | write ptr data =>
    simp only [edit]
    split
    next i hi =>
      have hout := h i data.length (by simp [Edit.range?, hi])
      exact byte_overwrite_of_outside (range?_le hi) (by omega)
    next => rfl
  | fill ptr n v =>
    simp only [edit]
    split
    next i hi =>
      have hout := h i n (by simp [Edit.range?, hi])
      rw [fillFrom_eq_overwrite]
      exact byte_overwrite_of_outside (by simpa using range?_le hi) (by simp; omega)
    next => rfl
  | copy dest src n =>
    simp only [edit]
    split
    next hcopy =>
      have hout := h dest.toNat n.toNat (by simp [Edit.range?, hcopy])
      obtain ⟨hdest, hsrc⟩ := add_lt_size_of_canCopy hcopy
      have hlen : ((s.bytes.data.toList.drop src.toNat).take n.toNat).length = n.toNat := by
        have hsize : s.bytes.data.size = s.bytes.size := rfl
        simp only [List.length_take, List.length_drop, Array.length_toList]
        omega
      have hsplice := getElem?_splice s.bytes.data.toList
        ((s.bytes.data.toList.drop src.toNat).take n.toNat) (i := dest.toNat) (j := j)
      rw [hlen] at hsplice
      rw [byte, byte, ← Array.getElem?_toList, ← Array.getElem?_toList,
        Region.toList_copyWithin _ _ _ _ (Nat.le_of_lt hsrc),
        hsplice (Nat.le_of_lt hdest) (by omega)]
    next => rfl
  | replace other => exact hplace.elim

/-- The region after several edits, first one first. -/
def editAll (s : Sandbox) (es : List Edit) : Sandbox := es.foldl edit s

/-- None of several edits writes the word at an address. -/
def SparesAll (s : Sandbox) (p : UInt32) : List Edit → Prop
  | [] => True
  | e :: es => e.Spares s (s.cell .word p) 4 ∧ (s.edit e).SparesAll p es

/-- A word that is not written keeps its value. -/
theorem load32_editAll {es : List Edit} (h : s.SparesAll p es) :
    (s.editAll es).load32 p = s.load32 p := by
  induction es generalizing s with
  | nil => rfl
  | cons e es ih =>
    obtain ⟨⟨hplace, he⟩, hes⟩ := h
    have hsize : (s.edit e).size = s.size := s.size_edit hplace
    have hcell : (s.edit e).cell .word p = s.cell .word p := cell_congr hsize .word p
    rw [editAll, List.foldl_cons, ← editAll, ih hes]
    apply load32_congr hsize
    intro k hk
    rw [hcell]
    refine byte_edit_of_spares ⟨hplace, ?_⟩
    intro start len hr
    have hout := he start len hr
    omega

/-! ## §4 Consecutive words -/

/-- Masking an address is taking it modulo the size. -/
theorem wrap_eq_mod (s : Sandbox) (p : UInt32) : s.wrap p = p.toNat % s.size := by
  obtain ⟨k, hk⟩ := s.power
  have hmask : s.mask.toNat = 2 ^ k - 1 := by
    have := s.size_eq
    omega
  rw [wrap, UInt32.toNat_and, hmask, Nat.and_two_pow_sub_one_eq_mod, size, hk]

/-- Addresses that differ by a multiple of 2 ^ 32 are masked alike. -/
theorem mod_size_eq (s : Sandbox) (a : Nat) : a % UInt32.size % s.size = a % s.size := by
  obtain ⟨e, he⟩ := s.power
  have hle : 2 ^ e ≤ 2 ^ 32 := by
    rw [← he, s.size_eq]
    exact s.mask.toNat_lt
  have hdvd : s.size ∣ UInt32.size := by
    rw [size, he]
    exact Nat.pow_dvd_pow 2 ((Nat.pow_le_pow_iff_right (by omega)).1 hle)
  exact Nat.mod_mod_of_dvd a hdvd

/-- The cell of the word `k` words behind an address. -/
theorem cell_word_add (s : Sandbox) (p : UInt32) (k : Nat) :
    s.cell .word (p + UInt32.ofNat (4 * k)) = (p.toNat / 4 + k) % (s.size / 4) * 4 := by
  obtain ⟨q, hq⟩ := s.size_eq_four_mul
  have hsize : s.size = 4 * q := hq
  have hadd : (p + UInt32.ofNat (4 * k)).toNat = (p.toNat + 4 * k) % UInt32.size := by
    simp [UInt32.toNat_add, UInt32.size]
  have hwrap : s.wrap (p + UInt32.ofNat (4 * k)) = (p.toNat + 4 * k) % (4 * q) := by
    rw [wrap_eq_mod, hadd, mod_size_eq, hsize]
  have hsplit := Nat.mod_mul (x := p.toNat + 4 * k) (a := 4) (b := q)
  have hdiv : (p.toNat + 4 * k) / 4 = p.toNat / 4 + k := by omega
  rw [hdiv] at hsplit
  rw [cell, hwrap, hsplit, hsize, Nat.mul_div_cancel_left q (by omega)]
  omega

/-- Words that are less than a region apart have different cells. -/
theorem cell_word_add_ne (s : Sandbox) (p : UInt32) {i k : Nat} (hlt : i < k)
    (hsize : 4 * (k - i) < s.size) :
    s.cell .word (p + UInt32.ofNat (4 * i)) ≠ s.cell .word (p + UInt32.ofNat (4 * k)) := by
  rw [cell_word_add, cell_word_add]
  intro heq
  obtain ⟨q, hq⟩ : ∃ q, s.size = 4 * q := s.size_eq_four_mul
  have hmod : (p.toNat / 4 + k) % (s.size / 4) = (p.toNat / 4 + i) % (s.size / 4) := by omega
  have hzero := Nat.sub_mod_eq_zero_of_mod_eq hmod
  rw [Nat.add_sub_add_left, Nat.mod_eq_of_lt (by omega)] at hzero
  omega

end Sandbox

end SandboxVm
