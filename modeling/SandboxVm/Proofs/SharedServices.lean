/-
SandboxVm.Proofs.SharedServices — what the shared services do to memory.

A shared service looks at the calling module once, decides what to do, and does it by edits. Three
of them fill or copy bytes: each refuses a range that it cannot write in full before it writes
anything, and each has its own idea of which ranges these are. The product of two matrices is
written in words, which are masked one by one and are never refused.

  §1  `Serves`: a service, run on any module with a given region;
  §2  ranges that are filled, and strings as they are read by index (`Sandbox.textByte`);
  §3  `memory_services`: filling, copying, and copying strings;
  §4  `matrix_product`: which words of the product are written.
-/
import SandboxVm.Proofs.BlockCopies
import SandboxVm.Proofs.EntryFrames
import SandboxVm.Proofs.HostPointers
import SandboxVm.Native
import SandboxVm.SharedCalls

namespace SandboxVm

/-! ## §1 Running a service -/

namespace SharedCalls

/-- The service with the given arguments, asked for by a module with the region `s`, answers `r`
and leaves the region `t`; nothing else about the module changes. -/
def Serves (args : SyscallArgs) (s t : Sandbox) (r : Int32) : Prop :=
  ∀ (I : Interface) (σ ω : Type) (world : World I σ ω) (enter : Entry Instance σ ω) (host : σ)
    (other : Service I σ) (inst : Instance) (ctx : Context σ ω), inst.region? = some s →
    (answer host args other).run world enter inst ctx =
      some ⟨.ok r, { inst with memory := t }, { ctx with host := host }⟩

section Run

variable {I : Interface} {σ ω : Type} {world : World I σ ω}

/-- Edits of a loaded module change its region and nothing else. -/
theorem run_edits {enter : Entry Instance σ ω} {inst : Instance} {ctx : Context σ ω}
    (hloaded : inst.state ≠ .unloaded) (es : List Sandbox.Edit) (k : Service I σ) :
    (Service.edits es k).run world enter inst ctx =
      k.run world enter { inst with memory := inst.memory.editAll es } ctx := by
  induction es generalizing inst with
  | nil => rfl
  | cons e es ih =>
    have hedit : inst.edit e = { inst with memory := inst.memory.edit e } := if_neg hloaded
    have hstep : (Service.edits (e :: es) k).run world enter inst ctx =
        (Service.edits es k).run world enter (inst.edit e) ctx := rfl
    rw [hstep, hedit]
    exact ih hloaded

end Run

variable {args : SyscallArgs} {s : Sandbox}

theorem serves_of_effect? {es : List Sandbox.Edit} {r : Int32}
    (h : ∀ v : View, v.memory = some s → effect? v args = some (es, r)) :
    Serves args s (s.editAll es) r := by
  intro I σ ω world enter host other inst ctx hregion
  have hstate : inst.state ≠ .unloaded ∧ inst.memory = s := by
    unfold Instance.region? at hregion
    split at hregion
    · cases hregion
    · cases hregion
      exact ⟨by assumption, rfl⟩
  obtain ⟨hloaded, rfl⟩ := hstate
  have heffect := h (Hosted.view inst) hregion
  have hrun : (answer host args other).run world enter inst ctx =
      (Service.edits es (.done host (.ok r))).run world enter inst ctx := by
    simp only [answer, Service.run, heffect]
  rw [hrun, run_edits hloaded]
  rfl

/-- A service that works on memory. -/
theorem serves_onMemory {f : Sandbox → Effect} (h : ∀ v, effect? v args = some (onMemory v f)) :
    Serves args s (s.editAll (f s).1) (f s).2 := by
  apply serves_of_effect?
  intro v hv
  simp only [h, onMemory, hv, Option.elim]

/-- The service with the given arguments, asked for by a native module, answers zero and changes
nothing. -/
def ServesNone (args : SyscallArgs) : Prop :=
  ∀ (I : Interface) (σ ω : Type) (world : World I σ ω) (enter : Entry NativeInstance σ ω)
    (host : σ) (other : Service I σ) (n : NativeInstance) (ctx : Context σ ω),
    (answer host args other).run world enter n ctx = some ⟨.ok 0, n, { ctx with host := host }⟩

theorem servesNone_onMemory {f : Sandbox → Effect}
    (h : ∀ v, effect? v args = some (onMemory v f)) : ServesNone args := by
  intro I σ ω world enter host other n ctx
  have heffect : effect? (Hosted.view n) args = some (returning 0) := h _
  simp only [answer, Service.run, heffect]
  rfl

theorem effect?_fill (h : args.number = 100) (v : View) : effect? v args =
    some (onMemory v fun s => fill s (args.word 1) (args.word 2).toUInt8 (args.int 3)) := by
  unfold effect?
  rw [h]
  rfl

theorem effect?_copy (h : args.number = 101) (v : View) : effect? v args =
    some (onMemory v fun s => copy s (args.word 1) (args.word 2) (args.int 3)) := by
  unfold effect?
  rw [h]
  rfl

theorem effect?_copyString (h : args.number = 102) (v : View) : effect? v args =
    some (onMemory v fun s => copyString s (args.word 1) (args.word 2) (args.int 3)) := by
  unfold effect?
  rw [h]
  rfl

theorem effect?_matrixMultiply (h : args.number = 107) (v : View) : effect? v args =
    some (onMemory v fun s => matrixMultiply s (args.word 1) (args.word 2) (args.word 3)) := by
  unfold effect?
  rw [h]
  rfl

end SharedCalls

/-! ## §2 Ranges and strings -/

namespace Sandbox

variable {s : Sandbox} {i n k : Nat}

theorem written_fillFrom (h : i + n ≤ s.size) (v : UInt8) :
    s.Written (s.fillFrom i n v) i n fun _ => v := by
  have hlen : i + (List.replicate n v).length ≤ s.size := by rwa [List.length_replicate]
  have hw := written_overwrite hlen
  rw [List.length_replicate, ← fillFrom_eq_overwrite] at hw
  refine ⟨hw.size, fun k hk => ?_, hw.kept⟩
  rw [hw.written k hk, List.getElem?_replicate_of_lt hk, Option.getD_some]

/-- The byte `k` of the zero-terminated string at an index; behind the end of the string, and of
the region, there are zeros. -/
def textByte (s : Sandbox) (i k : Nat) : UInt8 :=
  if ∀ j ≤ k, s.byte (i + j) ≠ 0 then s.byte (i + k) else 0

theorem getD_takeWhile_ne_zero (bytes : Bytes) (k : Nat) :
    (bytes.takeWhile (· ≠ 0))[k]?.getD 0 =
      if ∀ j ≤ k, bytes[j]?.getD 0 ≠ 0 then bytes[k]?.getD 0 else 0 := by
  induction bytes generalizing k with
  | nil => simp
  | cons b bytes ih =>
    by_cases hb : b = 0
    · have hfirst : ¬ ∀ j ≤ k, (b :: bytes)[j]?.getD 0 ≠ 0 := fun h => h 0 (Nat.zero_le k) hb
      rw [if_neg hfirst]
      simp [hb]
    · rw [List.takeWhile_cons_of_pos (by simpa using hb)]
      cases k with
      | zero => simp [hb]
      | succ k =>
        have hshift : (∀ j ≤ k + 1, (b :: bytes)[j]?.getD 0 ≠ 0) ↔
            ∀ j ≤ k, bytes[j]?.getD 0 ≠ 0 := by
          constructor
          · intro h j hj
            exact h (j + 1) (Nat.succ_le_succ hj)
          · intro h j hj
            cases j with
            | zero => exact hb
            | succ j => exact h j (Nat.le_of_succ_le_succ hj)
        simp only [List.getElem?_cons_succ, ih, hshift]

theorem getD_terminated (h : i ≤ s.size) :
    (Region.terminated s.bytes i)[k]?.getD 0 = s.textByte i k := by
  have hbyte (j : Nat) : (s.bytes.data.toList.drop i)[j]?.getD 0 = s.byte (i + j) := by
    rw [List.getElem?_drop, Array.getElem?_toList, byte]
  rw [Region.terminated_eq _ _ h, getD_takeWhile_ne_zero]
  simp only [hbyte, textByte]

/-- A string that is written over zeros is followed by zeros. -/
theorem written_text {data : Bytes} (hn : i + n ≤ s.size) (hdata : data.length ≤ n) :
    s.Written ((s.fillFrom i n 0).overwrite i data) i n fun k => data[k]?.getD 0 := by
  have hfill := written_fillFrom hn 0
  have hlen : i + data.length ≤ (s.fillFrom i n 0).size := by
    rw [hfill.size]
    omega
  have hover := written_overwrite hlen
  constructor
  case size => rw [hover.size, hfill.size]
  case written =>
    intro k hk
    by_cases hin : k < data.length
    · exact hover.written k hin
    · rw [hover.kept (i + k) (by omega), hfill.written k hk,
        List.getElem?_eq_none (Nat.le_of_not_lt hin), Option.getD_none]
  case kept =>
    intro j hj
    rw [hover.kept j (by omega), hfill.kept j hj]

end Sandbox

/-! ## §3 Memory -/

namespace SharedCalls

variable {args : SyscallArgs} {s : Sandbox}

/-- A service that does all of its work and returns its first argument, or none of it and
returns zero; which of the two is up to a condition on the arguments. -/
def AllOrNothing (args : SyscallArgs) (s : Sandbox) (fits : Prop) (effect : Sandbox → Prop) :
    Prop :=
  ∃ t r, Serves args s t r ∧
    (fits → r = args.int 1 ∧ r ≠ 0 ∧ effect t) ∧ (¬ fits → r = 0 ∧ t = s)

/-- A service on memory that makes no edit unless a condition holds, and else returns its first
argument. -/
theorem allOrNothing_onMemory {f : Sandbox → Effect} {fits : Prop} {effect : Sandbox → Prop}
    (h : ∀ v, effect? v args = some (onMemory v f))
    (hyes : fits → ∃ es, f s = (es, (args.word 1).toInt32) ∧ args.word 1 ≠ 0 ∧
      effect (s.editAll es))
    (hno : ¬ fits → f s = returning 0) : AllOrNothing args s fits effect := by
  refine ⟨_, _, serves_onMemory h, fun hfits => ?_, fun hfits => ?_⟩
  · obtain ⟨es, heffect, hne, ht⟩ := hyes hfits
    have hint : (args.word 1).toInt32 = args.int 1 := by simp [SyscallArgs.word]
    have hint_ne : args.int 1 ≠ 0 := by
      intro hzero
      apply hne
      rw [SyscallArgs.word, hzero]
      rfl
    rw [heffect, hint]
    exact ⟨rfl, hint_ne, ht⟩
  · rw [hno hfits]
    exact ⟨rfl, rfl⟩

theorem fill_allOrNothing (h : args.number = 100) :
    AllOrNothing args s (s.RangeFits (args.word 1) (args.int 3).toNatClampNeg) fun t =>
      s.Written t ((args.word 1).toNat % s.size) (args.int 3).toNatClampNeg fun _ =>
        (args.word 2).toUInt8 := by
  refine allOrNothing_onMemory (effect?_fill h) ?_ ?_
  · intro hfits
    have hrange := Sandbox.range?_of_fits hfits
    refine ⟨[.fill (args.word 1) (args.int 3).toNatClampNeg (args.word 2).toUInt8], ?_, hfits.1, ?_⟩
    · simp only [fill, hrange]
    · simp only [Sandbox.editAll, List.foldl, Sandbox.edit, hrange]
      exact Sandbox.written_fillFrom hfits.2 _
  · intro hfits
    simp only [fill, Sandbox.range?_of_not_fits hfits]

theorem toNat_toUInt32_of_nonneg {v : Int32} (h : 0 ≤ v) : v.toUInt32.toNat = v.toNatClampNeg := by
  have hlow : 0 ≤ v.toInt := Int32.le_iff_toInt_le.1 h
  have hhigh : v.toInt < 2 ^ 31 := v.toInt_lt
  rw [Machine.toNat_toUInt32, Machine.blockLength, Int32.toNatClampNeg,
    Int.emod_eq_of_lt hlow (by omega)]

theorem copy_allOrNothing (h : args.number = 101) :
    AllOrNothing args s
      (0 ≤ args.int 3 ∧ args.word 1 ≠ 0 ∧ args.word 2 ≠ 0 ∧
        ∃ t, s.blockCopy (args.word 1) (args.word 2) (args.int 3).toUInt32 = .ok t)
      fun t => s.Copied t (args.word 1).toNat (args.word 2).toNat (args.int 3).toNatClampNeg := by
  have hcopy : (∃ t, s.blockCopy (args.word 1) (args.word 2) (args.int 3).toUInt32 = .ok t) ↔
      s.canCopy (args.word 1) (args.word 2) (args.int 3).toUInt32 = true := by
    unfold Sandbox.blockCopy
    split <;> simp_all
  rw [hcopy]
  refine allOrNothing_onMemory (effect?_copy h) ?_ ?_
  · intro hfits
    have ⟨hcount, hdest, _, hcan⟩ := hfits
    refine ⟨_, if_pos hfits, hdest, ?_⟩
    rw [← toNat_toUInt32_of_nonneg hcount]
    exact Sandbox.copied_edit hcan
  · exact fun hfits => if_neg hfits

section CopyString

variable {dest src : UInt32} {count : Int32}

/-- The text that is copied, cut to the length of the range. -/
def copiedText (s : Sandbox) (src : UInt32) (count : Int32) : Bytes :=
  (Region.terminated s.bytes (s.wrap src)).take count.toNatClampNeg

theorem copyString_of_fits (hsrc : src ≠ 0) (hdest : s.RangeFits dest count.toNatClampNeg) :
    copyString s dest src count =
      ([.fill dest count.toNatClampNeg 0, .write dest (copiedText s src count)],
        dest.toInt32) := by
  simp only [copyString, Sandbox.cString?, Sandbox.resolve?_of_ne_zero hsrc,
    Sandbox.range?_of_fits hdest, Option.map_some, copiedText]

theorem copyString_of_not_fits (h : ¬ (src ≠ 0 ∧ s.RangeFits dest count.toNatClampNeg)) :
    copyString s dest src count = returning 0 := by
  by_cases hsrc : src = 0
  · simp only [copyString, hsrc, Sandbox.cString?, Sandbox.resolve?_zero, Option.map_none]
  · have hrange := Sandbox.range?_of_not_fits fun hdest => h ⟨hsrc, hdest⟩
    simp only [copyString, hrange]
    split
    · contradiction
    · rfl

/-- The text was looked up before anything is written, so it does not matter whether the ranges
overlap. -/
theorem written_copyString (hdest : s.RangeFits dest count.toNatClampNeg) :
    s.Written
      (s.editAll [.fill dest count.toNatClampNeg 0, .write dest (copiedText s src count)])
      (dest.toNat % s.size) count.toNatClampNeg (s.textByte (src.toNat % s.size)) := by
  have hlen : (copiedText s src count).length ≤ count.toNatClampNeg := List.length_take_le _ _
  have hfill := Sandbox.written_fillFrom hdest.2 0
  have hinner : (s.fillFrom (dest.toNat % s.size) count.toNatClampNeg 0).range? dest
      (copiedText s src count).length = some (dest.toNat % s.size) := by
    rw [Sandbox.range?_of_fits ⟨hdest.1, by have := hdest.2; rw [hfill.size]; omega⟩, hfill.size]
  have hedits : s.editAll [.fill dest count.toNatClampNeg 0, .write dest (copiedText s src count)] =
      (s.fillFrom (dest.toNat % s.size) count.toNatClampNeg 0).overwrite (dest.toNat % s.size)
        (copiedText s src count) := by
    simp only [Sandbox.editAll, List.foldl, Sandbox.edit, Sandbox.range?_of_fits hdest, hinner]
  have htext := Sandbox.written_text hdest.2 hlen
  rw [hedits]
  refine ⟨htext.size, fun k hk => ?_, htext.kept⟩
  rw [htext.written k hk, copiedText, List.getElem?_take_of_lt hk,
    Sandbox.getD_terminated (Nat.le_of_lt (s.wrap_lt_size src)), Sandbox.wrap_eq_mod]

end CopyString

theorem copyString_allOrNothing (h : args.number = 102) :
    AllOrNothing args s
      (args.word 2 ≠ 0 ∧ s.RangeFits (args.word 1) (args.int 3).toNatClampNeg) fun t =>
      s.Written t ((args.word 1).toNat % s.size) (args.int 3).toNatClampNeg
        (s.textByte ((args.word 2).toNat % s.size)) := by
  refine allOrNothing_onMemory (effect?_copyString h) ?_ copyString_of_not_fits
  intro hfits
  exact ⟨_, copyString_of_fits hfits.1 hfits.2, hfits.2.1, written_copyString hfits.2⟩

/-- The services that fill memory, copy bytes and copy strings do all of their work and return the
destination, or do nothing and return zero. Filling needs the range at the masked destination,
where a negative count is zero; copying needs a count that is not negative and ranges that are
inside the region unmasked; copying a string needs a source, and the range at the masked
destination, which then holds the string as it was and zeros behind it. A native module has no
memory to work on. -/
theorem memory_services (args : SyscallArgs) (s : Sandbox) :
    (args.number = 100 →
      AllOrNothing args s (s.RangeFits (args.word 1) (args.int 3).toNatClampNeg) fun t =>
        s.Written t ((args.word 1).toNat % s.size) (args.int 3).toNatClampNeg fun _ =>
          (args.word 2).toUInt8) ∧
    (args.number = 101 →
      AllOrNothing args s
        (0 ≤ args.int 3 ∧ args.word 1 ≠ 0 ∧ args.word 2 ≠ 0 ∧
          ∃ t, s.blockCopy (args.word 1) (args.word 2) (args.int 3).toUInt32 = .ok t)
        fun t => s.Copied t (args.word 1).toNat (args.word 2).toNat (args.int 3).toNatClampNeg) ∧
    (args.number = 102 →
      AllOrNothing args s
        (args.word 2 ≠ 0 ∧ s.RangeFits (args.word 1) (args.int 3).toNatClampNeg) fun t =>
        s.Written t ((args.word 1).toNat % s.size) (args.int 3).toNatClampNeg
          (s.textByte ((args.word 2).toNat % s.size))) ∧
    (args.number = 100 ∨ args.number = 101 ∨ args.number = 102 → ServesNone args) := by
  refine ⟨fill_allOrNothing, copy_allOrNothing, copyString_allOrNothing, ?_⟩
  rintro (h | h | h)
  · exact servesNone_onMemory (effect?_fill h)
  · exact servesNone_onMemory (effect?_copy h)
  · exact servesNone_onMemory (effect?_copyString h)

/-- A region that holds a string of three bytes at index 4. -/
def lettered : Sandbox := (Sandbox.zeroed 16).overwrite 4 [1, 2, 3, 0, 9]

/-- A string is copied one byte further, over itself. -/
theorem memory_services_overlapping :
    ∃ t, Serves (.pack 102 [5, 4, 4]) lettered t 5 ∧
      t.byte 4 = 1 ∧ t.byte 5 = 1 ∧ t.byte 6 = 2 ∧ t.byte 7 = 3 ∧ t.byte 8 = 0 := by
  obtain ⟨t, r, hserves, hyes, -⟩ :=
    (memory_services (.pack 102 [5, 4, 4]) lettered).2.2.1 (by decide +kernel)
  obtain ⟨hr, -, hwritten⟩ := hyes ⟨by decide +kernel, by decide +kernel, by decide +kernel⟩
  obtain rfl : r = 5 := hr.trans (by decide +kernel)
  refine ⟨t, hserves, ?_, ?_, ?_, ?_, ?_⟩
  · rw [hwritten.kept 4 (.inl (by decide +kernel))]
    decide +kernel
  · exact (hwritten.written 0 (by decide +kernel)).trans (by decide +kernel)
  · exact (hwritten.written 1 (by decide +kernel)).trans (by decide +kernel)
  · exact (hwritten.written 2 (by decide +kernel)).trans (by decide +kernel)
  · exact (hwritten.written 3 (by decide +kernel)).trans (by decide +kernel)

end SharedCalls

/-! ## §4 Products of matrices -/

namespace SharedCalls

/-- The address of the entry in row `r` and column `c` of the matrix at `ptr`. -/
def entryAddress (ptr : UInt32) (r c : Nat) : UInt32 := ptr + UInt32.ofNat (12 * r + 4 * c)

/-- An entry of the matrix at `ptr`. -/
def entry (s : Sandbox) (ptr : UInt32) (r c : Nat) : Float32 :=
  .ofBits (s.load32 (entryAddress ptr r c))

/-- An entry of the product of the matrices at `a` and `b`, as a word. -/
def productWord (s : Sandbox) (a b : UInt32) (r c : Nat) : UInt32 :=
  (entry s a r 0 * entry s b 0 c + entry s a r 1 * entry s b 1 c +
    entry s a r 2 * entry s b 2 c).toBits

/-- The region `t` is the region `s` with the product of two matrices at `out`. A row is left out
if its own address is zero, which is where the third or the sixth word behind `out` passes the
last address. -/
structure HoldsProduct (s t : Sandbox) (a b out : UInt32) : Prop where
  size : t.size = s.size
  written : ∀ r < 3, ∀ c < 3, entryAddress out r 0 ≠ 0 →
    t.load32 (entryAddress out r c) = productWord s a b r c
  skipped : ∀ r < 3, ∀ c < 3, entryAddress out r 0 = 0 →
    t.load32 (entryAddress out r c) = s.load32 (entryAddress out r c)
  kept : ∀ j, (∀ r < 3, ∀ c < 3, j < s.cell .word (entryAddress out r c) ∨
    s.cell .word (entryAddress out r c) + 4 ≤ j) → t.byte j = s.byte j

variable {s : Sandbox} {a b out : UInt32}

/-- The entries of a matrix are nine words, one behind the other. -/
theorem entryAddress_eq_frameWord (ptr : UInt32) (r c : Nat) :
    entryAddress ptr r c = frameWord ptr.toInt32 (3 * r + c) := by
  have hoffset : 12 * r + 4 * c = 4 * (3 * r + c) := by omega
  rw [entryAddress, frameWord, hoffset, UInt32.toUInt32_toInt32]

theorem entryAddress_add (ptr : UInt32) (r c : Nat) :
    entryAddress ptr r 0 + UInt32.ofNat (4 * c) = entryAddress ptr r c := by
  rw [entryAddress, entryAddress, UInt32.add_assoc, ← UInt32.ofNat_add]
  rfl

theorem read_eq_entries (s : Sandbox) (ptr : UInt32) (r : Nat) :
    Vec3.read s (entryAddress ptr r 0) = ⟨entry s ptr r 0, entry s ptr r 1, entry s ptr r 2⟩ := by
  rw [entry, entry, entry, ← entryAddress_add ptr r 1, ← entryAddress_add ptr r 2]
  rfl

theorem entryAddress_zero (ptr : UInt32) : entryAddress ptr 0 0 = ptr := UInt32.add_zero ptr

theorem read_eq_rows (s : Sandbox) (ptr : UInt32) : Mat3.read s ptr =
    ⟨Vec3.read s (entryAddress ptr 0 0), Vec3.read s (entryAddress ptr 1 0),
      Vec3.read s (entryAddress ptr 2 0)⟩ := by
  rw [entryAddress_zero]
  rfl

/-- The words of row `r`, none if the row is left out. -/
def rowWords (s : Sandbox) (a b out : UInt32) (r : Nat) : List (Nat × UInt32) :=
  if entryAddress out r 0 = 0 then []
  else (List.range 3).map fun c => (3 * r + c, productWord s a b r c)

/-- The words of the product that are stored, row by row. -/
def productWords (s : Sandbox) (a b out : UInt32) : List (Nat × UInt32) :=
  (List.range 3).flatMap (rowWords s a b out)

/-- The edits of row `r` store its words, whatever has been stored before. -/
theorem editAll_row (t : Sandbox) (r : Nat) :
    t.editAll (((Mat3.read s b).applyRow (Vec3.read s (entryAddress a r 0))).write
      (entryAddress out r 0)) = t.storeWords out.toInt32 (rowWords s a b out r) := by
  rw [read_eq_rows, read_eq_entries, read_eq_entries, read_eq_entries, read_eq_entries,
    Vec3.write, rowWords]
  split
  · rfl
  · have hwords : (List.range 3).map (fun c => (3 * r + c, productWord s a b r c)) =
        [(3 * r + 0, productWord s a b r 0), (3 * r + 1, productWord s a b r 1),
          (3 * r + 2, productWord s a b r 2)] := rfl
    rw [hwords, Sandbox.storeWords, Sandbox.editAll]
    simp only [List.foldl, ← entryAddress_eq_frameWord, ← entryAddress_add out r 1,
      ← entryAddress_add out r 2]
    rfl

theorem editAll_matrixMultiply (h : ¬ (a = 0 ∨ b = 0 ∨ out = 0)) :
    s.editAll (matrixMultiply s a b out).1 = s.storeWords out.toInt32 (productWords s a b out) := by
  have hedits : (matrixMultiply s a b out).1 =
      ((Mat3.read s b).applyRow (Vec3.read s (entryAddress a 0 0))).write (entryAddress out 0 0) ++
      ((Mat3.read s b).applyRow (Vec3.read s (entryAddress a 1 0))).write (entryAddress out 1 0) ++
      ((Mat3.read s b).applyRow (Vec3.read s (entryAddress a 2 0))).write
        (entryAddress out 2 0) := by
    rw [matrixMultiply, if_neg h, read_eq_rows s a, entryAddress_zero out]
    rfl
  have hwords : productWords s a b out =
      rowWords s a b out 0 ++ rowWords s a b out 1 ++ rowWords s a b out 2 := by
    simp [productWords, List.range_succ]
  have happend (t : Sandbox) (es es' : List Sandbox.Edit) :
      t.editAll (es ++ es') = (t.editAll es).editAll es' := List.foldl_append ..
  have hstore (t : Sandbox) (ws ws' : List (Nat × UInt32)) :
      t.storeWords out.toInt32 (ws ++ ws') =
        (t.storeWords out.toInt32 ws).storeWords out.toInt32 ws' := List.foldl_append ..
  rw [hedits, hwords, happend, happend, editAll_row, editAll_row, editAll_row, hstore, hstore]

/-- What is stored is an entry of a row that is not left out. -/
theorem mem_productWords {w : Nat × UInt32} :
    w ∈ productWords s a b out ↔ ∃ r < 3, ∃ c < 3, entryAddress out r 0 ≠ 0 ∧
      w = (3 * r + c, productWord s a b r c) := by
  simp only [productWords, rowWords, List.mem_flatMap, List.mem_range]
  constructor
  · rintro ⟨r, hr, hw⟩
    split at hw
    · cases hw
    · obtain ⟨c, hc, rfl⟩ := List.mem_map.1 hw
      exact ⟨r, hr, c, List.mem_range.1 hc, by assumption, rfl⟩
  · rintro ⟨r, hr, c, hc, hne, rfl⟩
    exact ⟨r, hr, by rw [if_neg hne]; exact List.mem_map.2 ⟨c, List.mem_range.2 hc, rfl⟩⟩

theorem pairwise_productWords : (productWords s a b out).Pairwise fun v w => v.1 < w.1 := by
  rw [productWords, List.pairwise_flatMap]
  constructor
  · intro r _
    unfold rowWords
    split
    · exact .nil
    · rw [List.pairwise_map]
      exact List.pairwise_lt_range.imp fun hlt => Nat.add_lt_add_left hlt _
  · have hindex {r : Nat} {w : Nat × UInt32} (hw : w ∈ rowWords s a b out r) :
        3 * r ≤ w.1 ∧ w.1 < 3 * (r + 1) := by
      unfold rowWords at hw
      split at hw
      · cases hw
      · obtain ⟨c, hc, rfl⟩ := List.mem_map.1 hw
        have hlt := List.mem_range.1 hc
        dsimp only
        omega
    refine List.pairwise_lt_range.imp fun hlt v hv w hw => ?_
    have hv' := hindex hv
    have hw' := hindex hw
    omega

/-- The nine words have cells of their own in a region of 64 bytes. -/
theorem cell_entry_ne (hsize : 64 ≤ s.size) {i k : Nat} (hne : i ≠ k) (hi : i < 9) (hk : k < 9) :
    s.cell .word (frameWord out.toInt32 i) ≠ s.cell .word (frameWord out.toInt32 k) := by
  rcases Nat.lt_or_gt_of_ne hne with hlt | hgt
  · exact s.cell_word_add_ne _ hlt (by omega)
  · exact (s.cell_word_add_ne _ hgt (by omega)).symm

theorem holdsProduct_storeWords (hsize : 64 ≤ s.size) :
    HoldsProduct s (s.storeWords out.toInt32 (productWords s a b out)) a b out := by
  constructor
  case size => exact Sandbox.size_storeWords
  case written =>
    intro r hr c hc hne
    have hmem : (3 * r + c, productWord s a b r c) ∈ productWords s a b out :=
      mem_productWords.2 ⟨r, hr, c, hc, hne, rfl⟩
    have hapart : (productWords s a b out).Pairwise fun v w =>
        s.cell .word (frameWord out.toInt32 v.1) ≠ s.cell .word (frameWord out.toInt32 w.1) := by
      refine pairwise_productWords.imp_of_mem fun hv hw hlt => ?_
      obtain ⟨r, hr, c, hc, -, rfl⟩ := mem_productWords.1 hv
      obtain ⟨r', hr', c', hc', -, rfl⟩ := mem_productWords.1 hw
      exact cell_entry_ne hsize (Nat.ne_of_lt hlt) (by omega) (by omega)
    have hload := Sandbox.load32_storeWords (s := s) hapart hmem
    rw [entryAddress_eq_frameWord]
    exact hload
  case skipped =>
    intro r hr c hc hzero
    rw [entryAddress_eq_frameWord]
    apply Sandbox.load32_storeWords_of_ne
    intro w hw
    obtain ⟨r', hr', c', hc', hne, rfl⟩ := mem_productWords.1 hw
    -- the word belongs to another row
    have hrow : r' ≠ r := by
      rintro rfl
      exact hne hzero
    exact cell_entry_ne hsize (by omega) (by omega) (by omega)
  case kept =>
    intro j hj
    apply Sandbox.byte_storeWords_of_outside
    intro w hw
    obtain ⟨r, hr, c, hc, -, rfl⟩ := mem_productWords.1 hw
    rw [← entryAddress_eq_frameWord]
    exact hj r hr c hc

/-- The service that multiplies matrices answers zero. With a null pointer it does nothing; else
it stores the product as it is computed from the matrices before anything is stored, word by
word at masked addresses, except for a row whose own address is zero. Nothing else changes. -/
theorem matrix_product (args : SyscallArgs) (h : args.number = 107) (s : Sandbox)
    (hsize : 64 ≤ s.size) :
    ∃ t, Serves args s t 0 ∧
      ((args.word 1 = 0 ∨ args.word 2 = 0 ∨ args.word 3 = 0) → t = s) ∧
      (¬ (args.word 1 = 0 ∨ args.word 2 = 0 ∨ args.word 3 = 0) →
        HoldsProduct s t (args.word 1) (args.word 2) (args.word 3)) := by
  have hserves := serves_onMemory (s := s) (effect?_matrixMultiply h)
  by_cases hnull : args.word 1 = 0 ∨ args.word 2 = 0 ∨ args.word 3 = 0
  · rw [matrixMultiply, if_pos hnull] at hserves
    exact ⟨s, hserves, fun _ => rfl, fun hnot => absurd hnull hnot⟩
  · have hresult : (matrixMultiply s (args.word 1) (args.word 2) (args.word 3)).2 = 0 := by
      rw [matrixMultiply, if_neg hnull]
    rw [editAll_matrixMultiply hnull, hresult] at hserves
    exact ⟨_, hserves, fun hyes => absurd hyes hnull, fun _ => holdsProduct_storeWords hsize⟩

/-- A region with a matrix at address 16 whose entry in the middle is one, and zeros. -/
def spotted : Sandbox := (Sandbox.zeroed 64).store32 32 0x3f800000

/-- The square of this matrix, stored 12 bytes before the last address: the word in the middle is
not written, although it is one. -/
theorem product_row_lost :
    ∃ t, Serves (.pack 107 [16, 16, -12]) spotted t 0 ∧
      t.load32 (entryAddress (-12) 1 1) ≠ productWord spotted 16 16 1 1 := by
  let args := SyscallArgs.pack 107 [16, 16, -12]
  have hnumber : args.number = 107 := by decide +kernel
  have hserves := serves_onMemory (s := spotted) (effect?_matrixMultiply hnumber)
  have hwords : args.word 1 = 16 ∧ args.word 2 = 16 ∧ args.word 3 = -12 := by decide +kernel
  rw [hwords.1, hwords.2.1, hwords.2.2, editAll_matrixMultiply (by decide)] at hserves
  have hproduct : HoldsProduct spotted _ 16 16 (-12) := holdsProduct_storeWords (by decide +kernel)
  refine ⟨_, hserves, ?_⟩
  rw [hproduct.skipped 1 (by decide) 1 (by decide) (by decide +kernel)]
  decide +kernel

/-- The rows around it are stored, and the rest of the region stays as it was. -/
theorem matrix_product_spotted :
    ∃ t, Serves (.pack 107 [16, 16, -12]) spotted t 0 ∧
      HoldsProduct spotted t 16 16 (-12) := by
  obtain ⟨t, hserves, -, hproduct⟩ :=
    matrix_product (.pack 107 [16, 16, -12]) (by decide +kernel) spotted (by decide +kernel)
  exact ⟨t, hserves, hproduct (by decide +kernel)⟩

end SharedCalls

end SandboxVm
