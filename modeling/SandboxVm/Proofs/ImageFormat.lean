/-
SandboxVm.Proofs.ImageFormat — which byte strings are module images.

An image is read by a chain of readers, each of which goes on where the one before has stopped.
The format itself is a matter of places: numbers stand at fixed bytes of the header, and the
segments are where these numbers say. A byte string may break several rules of the format at
once, and then the first rule that it breaks decides how reading fails.

  §1  `Bytes.intAt`: numbers by their places, and the readers in terms of them;
  §2  `Image.requirements`: the rules of the format in the order of their precedence, with the
      failure that each one leads to;
  §3  `Image.parse_decides`: an image is read unless a rule is broken, and then its parts are
      where the header says (`Image.CutFrom`);
  §4  `Instance.Loadable`: what else an image must be in order to be loaded.

`image_format` states the result.
-/
import Mathlib.Algebra.Group.Int.Defs
import SandboxVm.Proofs.Codec
import SandboxVm.Proofs.Reload

namespace SandboxVm

/-! ## §1 Numbers by their places -/

namespace Bytes

/-- The byte with the given index, zero behind the end. -/
def byteAt (bytes : Bytes) (i : Nat) : UInt8 := bytes[i]?.getD 0

/-- The signed number in the four bytes from an index on, least significant first. -/
def intAt (bytes : Bytes) (i : Nat) : Int :=
  Int.bmod ((bytes.byteAt i).toNat + 0x100 * (bytes.byteAt (i + 1)).toNat +
    0x10000 * (bytes.byteAt (i + 2)).toNat + 0x1000000 * (bytes.byteAt (i + 3)).toNat) (2 ^ 32)

/-- The part stands in a byte string, from an index on. -/
def StandsAt (part : Bytes) (start : Int) (bytes : Bytes) : Prop :=
  ∃ before after, bytes = before ++ part ++ after ∧ (before.length : Int) = start

/-- The word in the four bytes from an index on. -/
def wordAt (bytes : Bytes) (i : Nat) : UInt32 :=
  toWord (bytes.byteAt i) (bytes.byteAt (i + 1)) (bytes.byteAt (i + 2)) (bytes.byteAt (i + 3))

/-- A signed word is its number, taken into the range around zero. -/
theorem toInt_toInt32 (w : UInt32) : w.toInt32.toInt = Int.bmod w.toNat (2 ^ 32) := by
  rw [Int32.toInt]
  exact BitVec.toInt_eq_toNat_bmod w.toBitVec

theorem toInt_wordAt (bytes : Bytes) (i : Nat) :
    (bytes.wordAt i).toInt32.toInt = bytes.intAt i := by
  have hnat : ((bytes.wordAt i).toNat : Int) = (bytes.byteAt i).toNat +
      0x100 * (bytes.byteAt (i + 1)).toNat + 0x10000 * (bytes.byteAt (i + 2)).toNat +
      0x1000000 * (bytes.byteAt (i + 3)).toNat := by
    have hword := toNat_toWord (bytes.byteAt i) (bytes.byteAt (i + 1)) (bytes.byteAt (i + 2))
      (bytes.byteAt (i + 3))
    unfold wordAt
    omega
  rw [toInt_toInt32, hnat]
  unfold intAt
  rfl

theorem wordAt_drop (bytes : Bytes) (k i : Nat) :
    wordAt (bytes.drop k) i = bytes.wordAt (k + i) := by
  simp [wordAt, byteAt, Nat.add_assoc]

theorem word?_eq (bytes : Bytes) :
    word? bytes = if 4 ≤ bytes.length then some (bytes.wordAt 0, bytes.drop 4) else none := by
  match bytes with
  | a :: b :: c :: d :: rest => simp [word?, wordAt, byteAt]
  | [_, _, _] | [_, _] | [_] | [] => simp [word?]

theorem words?_eq (n : Nat) (bytes : Bytes) :
    words? n bytes =
      if 4 * n ≤ bytes.length then
        some ((List.range n).map fun i => bytes.wordAt (4 * i), bytes.drop (4 * n))
      else none := by
  induction n generalizing bytes with
  | zero => simp
  | succ n ih =>
    rw [words?_succ, word?_eq]
    by_cases hword : 4 ≤ bytes.length
    · by_cases hrest : 4 * (n + 1) ≤ bytes.length
      · have hlen : 4 * n ≤ (bytes.drop 4).length := by
          rw [List.length_drop]
          omega
        simp only [if_pos hword, Option.bind_some, ih, if_pos hlen, Option.map_some, if_pos hrest,
          List.range_succ_eq_map, List.map_cons, List.map_map, List.drop_drop]
        simp [Function.comp_def, wordAt_drop, Nat.mul_succ, Nat.add_comm]
      · have hlen : ¬ 4 * n ≤ (bytes.drop 4).length := by
          rw [List.length_drop]
          omega
        simp only [if_pos hword, Option.bind_some, ih, if_neg hlen, Option.map_none, if_neg hrest]
    · have hall : ¬ 4 * (n + 1) ≤ bytes.length := by omega
      simp [hword, hall]

end Bytes

/-! ## §2 The format -/

/-- The numbers in the header of an image. -/
structure HeaderNumbers where
  instructionCount : Int
  codeOffset : Int
  codeLength : Int
  dataOffset : Int
  dataLength : Int
  litLength : Int
  bssLength : Int
  jumpTableLength : Int

/-- The fields of a header as numbers. -/
def Header.numbers (h : Header) : HeaderNumbers where
  instructionCount := h.instructionCount.toInt
  codeOffset := h.codeOffset.toInt
  codeLength := h.codeLength.toInt
  dataOffset := h.dataOffset.toInt
  dataLength := h.dataLength.toInt
  litLength := h.litLength.toInt
  bssLength := h.bssLength.toInt
  jumpTableLength := h.jumpTableLength.toInt

/-- A rule of the format, and the failure to which breaking it leads. -/
structure Requirement where
  met : Prop
  failure : LoadError

/-- The failure of the first rule that is broken. -/
inductive Requirement.FirstBroken : List Requirement → LoadError → Prop where
  | here {r : Requirement} {rs : List Requirement} (h : ¬ r.met) : FirstBroken (r :: rs) r.failure
  | later {r : Requirement} {rs : List Requirement} {e : LoadError} (hr : r.met)
      (h : FirstBroken rs e) : FirstBroken (r :: rs) e

/-- The format that an image with the given first number has, if it has one at all. -/
def Format.announcedBy (n : Int) : Format := if n = 0x12721445 then .extended else .legacy

/-- The numbers in the header of an image of the given format, by their places. -/
def HeaderNumbers.readAs (f : Format) (bytes : Bytes) : HeaderNumbers where
  instructionCount := bytes.intAt 4
  codeOffset := bytes.intAt 8
  codeLength := bytes.intAt 12
  dataOffset := bytes.intAt 16
  dataLength := bytes.intAt 20
  litLength := bytes.intAt 24
  bssLength := bytes.intAt 28
  jumpTableLength :=
    match f with
    | .legacy => 0
    | .extended => bytes.intAt 32

namespace Image

/-- The format that an image announces. -/
def announced (bytes : Bytes) : Format := .announcedBy (bytes.intAt 0)

/-- The numbers in the header of an image. -/
def numbers (bytes : Bytes) : HeaderNumbers := .readAs (announced bytes) bytes

/-- The rules for the header. -/
def headerRequirements (bytes : Bytes) : List Requirement :=
  let n := numbers bytes
  let size := match announced bytes with
    | .legacy => 32
    | .extended => 36
  [⟨4 ≤ bytes.length, .imageTruncated⟩,
    ⟨bytes.intAt 0 = 0x12721444 ∨ bytes.intAt 0 = 0x12721445, .badMagic⟩,
    ⟨size ≤ bytes.length, .imageTruncated⟩,
    ⟨0 < n.codeLength ∧ 0 ≤ n.instructionCount ∧ 0 ≤ n.codeOffset ∧ 0 ≤ n.dataOffset ∧
      0 ≤ n.dataLength ∧ 0 ≤ n.litLength ∧ 0 ≤ n.bssLength ∧ 0 ≤ n.jumpTableLength, .badHeader⟩,
    ⟨n.dataLength + n.litLength + n.bssLength ≤ 2 ^ 30, .dataTooLarge⟩]

/-- Where the jump table begins. -/
def tableStart (bytes : Bytes) : Int :=
  let n := numbers bytes
  n.dataOffset + n.dataLength + n.litLength

/-- The rules for an image: those for its header, and that its segments are inside it. -/
def requirements (bytes : Bytes) : List Requirement :=
  let n := numbers bytes
  headerRequirements bytes ++
    [⟨n.codeOffset + n.codeLength ≤ bytes.length ∧ tableStart bytes ≤ bytes.length ∧
      tableStart bytes + 4 * (n.jumpTableLength / 4) ≤ bytes.length, .segmentOutOfImage⟩]

/-- The parts of an image are those at the places that the header in the byte string gives. -/
structure CutFrom (bytes : Bytes) (image : Image) : Prop where
  format : image.header.format = announced bytes
  numbers : image.header.numbers = numbers bytes
  code : image.code.StandsAt (Image.numbers bytes).codeOffset bytes
  length_code : (image.code.length : Int) = (Image.numbers bytes).codeLength
  data : image.data.StandsAt (Image.numbers bytes).dataOffset bytes
  length_data : (image.data.length : Int) =
    (Image.numbers bytes).dataLength + (Image.numbers bytes).litLength
  length_jumpTargets : (image.jumpTargets.length : Int) = (Image.numbers bytes).jumpTableLength / 4
  jumpTarget : ∀ (i : Nat) (t : Int32), image.jumpTargets[i]? = some t →
    t.toInt = bytes.intAt (tableStart bytes + 4 * i).toNat

end Image

/-! ## §3 Reading an image -/

namespace Requirement

variable {α β : Type} {r : Requirement} {rs ss : List Requirement} {e e' : LoadError}
  {x : Except LoadError α} {a : α}

/-- A reader goes by the rules: it gives `a` if they are all met, and otherwise the failure of
the first one that is broken. -/
def Decides (rs : List Requirement) (x : Except LoadError α) (a : α) : Prop :=
  ((∀ r ∈ rs, r.met) ∧ x = .ok a) ∨ ∃ e, FirstBroken rs e ∧ x = .error e

theorem decides_nil (a : α) : Decides [] (.ok a) a := .inl ⟨nofun, rfl⟩

/-- One rule after the other is looked at. -/
theorem Decides.cons {p : Prop} (hmet : p → Decides rs x a) (hbroken : ¬ p → x = .error e) :
    Decides (⟨p, e⟩ :: rs) x a := by
  by_cases h : p
  · rcases hmet h with ⟨hall, hx⟩ | ⟨e, he, hx⟩
    · exact .inl ⟨List.forall_mem_cons.2 ⟨h, hall⟩, hx⟩
    · exact .inr ⟨e, .later h he, hx⟩
  · exact .inr ⟨_, .here h, hbroken h⟩

theorem FirstBroken.append (h : FirstBroken rs e) (ss : List Requirement) :
    FirstBroken (rs ++ ss) e := by
  induction h with
  | here h => exact .here h
  | later hr _ ih => exact .later hr ih

theorem FirstBroken.append_left (hrs : ∀ r ∈ rs, r.met) (h : FirstBroken ss e) :
    FirstBroken (rs ++ ss) e := by
  induction rs with
  | nil => exact h
  | cons r rs ih =>
    obtain ⟨hr, hrs⟩ := List.forall_mem_cons.1 hrs
    exact .later hr (ih hrs)

/-- A reader that goes on with what another one gives. -/
theorem Decides.append {y : Except LoadError β} {b : β} (h : Decides rs x a)
    (hok : x = .ok a → Decides ss y b) (herror : ∀ e, x = .error e → y = .error e) :
    Decides (rs ++ ss) y b := by
  rcases h with ⟨hrs, hx⟩ | ⟨e, he, hx⟩
  · rcases hok hx with ⟨hss, hy⟩ | ⟨e, he, hy⟩
    · exact .inl ⟨List.forall_mem_append.2 ⟨hrs, hss⟩, hy⟩
    · exact .inr ⟨e, he.append_left hrs, hy⟩
  · exact .inr ⟨e, he.append ss, herror e hx⟩

theorem FirstBroken.not_forall_met (h : FirstBroken rs e) : ¬ ∀ r ∈ rs, r.met := by
  induction h with
  | here h => exact fun hall => h (hall _ List.mem_cons_self)
  | later _ _ ih => exact fun hall => ih (List.forall_mem_cons.1 hall).2

theorem FirstBroken.unique (h : FirstBroken rs e) (h' : FirstBroken rs e') : e = e' := by
  induction h with
  | here hr =>
    cases h' with
    | here => rfl
    | later hr' _ => exact absurd hr' hr
  | later hr _ ih =>
    cases h' with
    | here hr' => exact absurd hr hr'
    | later _ h' => exact ih h'

theorem Decides.exists_ok_iff (h : Decides rs x a) : (∃ b, x = .ok b) ↔ ∀ r ∈ rs, r.met := by
  rcases h with ⟨hall, hx⟩ | ⟨e, he, hx⟩
  · exact iff_of_true ⟨a, hx⟩ hall
  · refine iff_of_false ?_ he.not_forall_met
    rintro ⟨b, hb⟩
    rw [hx] at hb
    cases hb

theorem Decides.eq_error_iff (h : Decides rs x a) : x = .error e ↔ FirstBroken rs e := by
  rcases h with ⟨hall, hx⟩ | ⟨e', he, hx⟩
  · refine iff_of_false ?_ fun he => he.not_forall_met hall
    rw [hx]
    nofun
  · rw [hx, Except.error.injEq]
    exact ⟨fun h => h ▸ he, he.unique⟩

end Requirement

namespace Header

theorem wellFormed_iff (h : Header) :
    h.wellFormed = true ↔ 0 < h.numbers.codeLength ∧ 0 ≤ h.numbers.instructionCount ∧
      0 ≤ h.numbers.codeOffset ∧ 0 ≤ h.numbers.dataOffset ∧ 0 ≤ h.numbers.dataLength ∧
      0 ≤ h.numbers.litLength ∧ 0 ≤ h.numbers.bssLength ∧ 0 ≤ h.numbers.jumpTableLength := by
  simp only [wellFormed, Bool.and_eq_true, decide_eq_true_eq, Int32.le_iff_toInt_le,
    Int32.lt_iff_toInt_lt, Int32.toInt_zero, numbers]
  tauto

/-- In a header without negative lengths the sum of the lengths is exact. -/
theorem natCast_dataTotal {h : Header} (hwf : h.wellFormed = true) :
    (h.dataTotal : Int) = h.numbers.dataLength + h.numbers.litLength + h.numbers.bssLength := by
  obtain ⟨-, -, -, -, hdata, hlit, hbss, -⟩ := h.wellFormed_iff.1 hwf
  simp only [numbers] at hdata hlit hbss
  simp only [dataTotal, numbers, Int32.toNatClampNeg, Int.natCast_add]
  omega

end Header

/-- The header of the given format whose fields stand at their places. -/
def Header.readAs (f : Format) (bytes : Bytes) : Header where
  format := f
  instructionCount := (bytes.wordAt 4).toInt32
  codeOffset := (bytes.wordAt 8).toInt32
  codeLength := (bytes.wordAt 12).toInt32
  dataOffset := (bytes.wordAt 16).toInt32
  dataLength := (bytes.wordAt 20).toInt32
  litLength := (bytes.wordAt 24).toInt32
  bssLength := (bytes.wordAt 28).toInt32
  jumpTableLength :=
    match f with
    | .legacy => 0
    | .extended => (bytes.wordAt 32).toInt32

theorem Header.format_readAs (f : Format) (bytes : Bytes) : (readAs f bytes).format = f := rfl

theorem Header.numbers_readAs (f : Format) (bytes : Bytes) :
    (readAs f bytes).numbers = .readAs f bytes := by
  cases f <;> simp only [numbers, readAs, HeaderNumbers.readAs, Bytes.toInt_wordAt,
    Int32.toInt_zero]

/-- The words behind the first one are the fields of the header. -/
theorem Header.ofWords?_words? (f : Format) {bytes : Bytes} (h : 4 ≤ bytes.length) :
    ((Bytes.words? (f.headerWords - 1) (bytes.drop 4)).bind fun (ws, _) => ofWords? f ws) =
      if f.headerSize ≤ bytes.length then some (readAs f bytes) else none := by
  have hlen : 4 * (f.headerWords - 1) ≤ (bytes.drop 4).length ↔
      f.headerSize ≤ bytes.length := by
    rw [List.length_drop, Format.headerSize]
    cases f <;> simp only [Format.headerWords] <;> omega
  simp only [Bytes.words?_eq, hlen, Bytes.wordAt_drop]
  split
  · cases f <;> rfl
  · rfl

/-- The two first words that announce a format, by their numbers. -/
theorem Format.ofMagic?_eq (w : UInt32) :
    ofMagic? w =
      if w.toInt32.toInt = 0x12721444 ∨ w.toInt32.toInt = 0x12721445 then
        some (announcedBy w.toInt32.toInt)
      else none := by
  have hword (f : Format) : w.toInt32.toInt = f.magic.toInt32.toInt ↔ w = f.magic := by
    rw [Int32.toInt_inj]
    constructor
    · intro h
      simpa using congrArg Int32.toUInt32 h
    · rintro rfl
      rfl
  have hlegacy : w.toInt32.toInt = 0x12721444 ↔ w = magic .legacy := hword .legacy
  have hextended : w.toInt32.toInt = 0x12721445 ↔ w = magic .extended := hword .extended
  have hne : magic .legacy ≠ magic .extended := by decide
  simp only [ofMagic?, announcedBy, hlegacy, hextended]
  grind

theorem Image.ofMagic?_wordAt (bytes : Bytes) :
    Format.ofMagic? (bytes.wordAt 0) =
      if bytes.intAt 0 = 0x12721444 ∨ bytes.intAt 0 = 0x12721445 then some (announced bytes)
      else none := by
  rw [Format.ofMagic?_eq, Bytes.toInt_wordAt, announced]

namespace Header

variable {bytes rest : Bytes} {w : UInt32} {f : Format} {h : Header}

theorem parse_of_word?_eq_none (hw : Bytes.word? bytes = none) :
    parse bytes = .error .imageTruncated := by
  unfold parse
  simp only [hw]

theorem parse_of_ofMagic?_eq_none (hw : Bytes.word? bytes = some (w, rest))
    (hf : Format.ofMagic? w = none) : parse bytes = .error .badMagic := by
  unfold parse
  simp only [hw, hf]

theorem parse_of_ofWords?_eq_none (hw : Bytes.word? bytes = some (w, rest))
    (hf : Format.ofMagic? w = some f)
    (hh : ((Bytes.words? (f.headerWords - 1) rest).bind fun (ws, _) => ofWords? f ws) = none) :
    parse bytes = .error .imageTruncated := by
  unfold parse
  simp only [hw, hf, hh]

theorem parse_of_ofWords? (hw : Bytes.word? bytes = some (w, rest))
    (hf : Format.ofMagic? w = some f)
    (hh : ((Bytes.words? (f.headerWords - 1) rest).bind fun (ws, _) => ofWords? f ws) = some h) :
    parse bytes =
      if !h.wellFormed then .error .badHeader
      else if h.dataTotal > maxDataSize then .error .dataTooLarge
      else .ok h := by
  unfold parse
  simp only [hw, hf, hh]

/-- A header is read unless one of its rules is broken. -/
theorem parse_decides (bytes : Bytes) :
    Requirement.Decides (Image.headerRequirements bytes) (parse bytes)
      (readAs (Image.announced bytes) bytes) := by
  have hnumbers := numbers_readAs (Image.announced bytes) bytes
  have hsize : (Image.announced bytes).headerSize =
      match Image.announced bytes with
      | .legacy => 32
      | .extended => 36 := by
    cases Image.announced bytes <;> rfl
  rw [Image.headerRequirements, ← hsize, Image.numbers, ← hnumbers]
  refine .cons ?word fun hlen =>
    parse_of_word?_eq_none ((Bytes.word?_eq bytes).trans (if_neg hlen))
  intro hlen
  have hw := (Bytes.word?_eq bytes).trans (if_pos hlen)
  refine .cons ?magic fun hmagic =>
    parse_of_ofMagic?_eq_none hw ((Image.ofMagic?_wordAt bytes).trans (if_neg hmagic))
  intro hmagic
  have hf := (Image.ofMagic?_wordAt bytes).trans (if_pos hmagic)
  refine .cons ?fields fun hfull =>
    parse_of_ofWords?_eq_none hw hf ((ofWords?_words? _ hlen).trans (if_neg hfull))
  intro hfull
  rw [parse_of_ofWords? hw hf ((ofWords?_words? _ hlen).trans (if_pos hfull))]
  -- from here on nothing depends on where the fields were read
  generalize readAs (Image.announced bytes) bytes = h
  simp only [← wellFormed_iff]
  refine .cons (fun hwf => ?_) (fun hwf => by simp [hwf])
  simp only [hwf, ← natCast_dataTotal hwf]
  refine .cons (fun htotal => ?_) (fun htotal => ?_)
  · have hle : h.dataTotal ≤ maxDataSize := by
      rw [maxDataSize]
      omega
    simp only [Bool.not_true, Bool.false_eq_true, if_false, if_neg (Nat.not_lt.2 hle)]
    exact Requirement.decides_nil h
  · have hlt : h.dataTotal > maxDataSize := by
      rw [maxDataSize]
      omega
    simp only [Bool.not_true, Bool.false_eq_true, if_false, if_pos hlt]

end Header

theorem Bytes.le_length_of_slice? {bytes part : Bytes} {start len : Nat}
    (h : slice? bytes start len = some part) : start + len ≤ bytes.length := by
  unfold slice? at h
  split at h
  · assumption
  · cases h

/-- The bytes of a range stand where the range begins. -/
theorem Bytes.standsAt_slice {bytes : Bytes} {start len : Nat} (h : start + len ≤ bytes.length) :
    StandsAt ((bytes.drop start).take len) start bytes := by
  refine ⟨bytes.take start, bytes.drop (start + len), ?_, ?_⟩
  · rw [List.append_assoc, ← List.drop_drop, List.take_append_drop, List.take_append_drop]
  · rw [List.length_take, Nat.min_eq_left (by omega)]

theorem Header.wellFormed_of_parse {bytes : Bytes} {h : Header} (hp : parse bytes = .ok h) :
    h.wellFormed = true := by
  unfold parse at hp
  iterate 3
    split at hp
    · cases hp
  split at hp
  · cases hp
  · rename_i hwf
    split at hp
    · cases hp
    · cases hp
      simpa using hwf

namespace Image

variable {bytes : Bytes} {h : Header}

/-- The segments that a header describes are inside a byte string of the given length. -/
structure Inside (h : Header) (length : Nat) : Prop where
  code : h.codeOffset.toNatClampNeg + h.codeLength.toNatClampNeg ≤ length
  data : h.dataOffset.toNatClampNeg +
    (h.dataLength.toNatClampNeg + h.litLength.toNatClampNeg) ≤ length
  table : h.dataOffset.toNatClampNeg +
    (h.dataLength.toNatClampNeg + h.litLength.toNatClampNeg) + 4 * h.jumpTableCount ≤ length

/-- The image with the given header that is cut from a byte string. -/
def cut (bytes : Bytes) (h : Header) : Image where
  header := h
  code := (bytes.drop h.codeOffset.toNatClampNeg).take h.codeLength.toNatClampNeg
  data := (bytes.drop h.dataOffset.toNatClampNeg).take
    (h.dataLength.toNatClampNeg + h.litLength.toNatClampNeg)
  jumpTargets := (List.range h.jumpTableCount).map fun i =>
    (bytes.wordAt (h.dataOffset.toNatClampNeg +
      (h.dataLength.toNatClampNeg + h.litLength.toNatClampNeg) + 4 * i)).toInt32

/-- The words of the jump table are those behind the data. -/
theorem readTargets?_eq (hlegacy : h.format = .legacy → h.jumpTableCount = 0) {start : Nat}
    (hstart : start ≤ bytes.length) :
    readTargets? bytes h start =
      if start + 4 * h.jumpTableCount ≤ bytes.length then
        some ((List.range h.jumpTableCount).map fun i =>
          (bytes.wordAt (start + 4 * i)).toInt32)
      else none := by
  unfold readTargets?
  split
  · rename_i hf
    rw [hlegacy hf, if_pos (by omega)]
    rfl
  · have hlen : 4 * h.jumpTableCount ≤ (bytes.drop start).length ↔
        start + 4 * h.jumpTableCount ≤ bytes.length := by
      rw [List.length_drop]
      omega
    simp only [Bytes.words?_eq, hlen, Bytes.wordAt_drop]
    split
    · rw [Option.map_some, List.map_map]
      rfl
    · rfl

theorem parse_of_inside (hh : Header.parse bytes = .ok h)
    (hlegacy : h.format = .legacy → h.jumpTableCount = 0) (hin : Inside h bytes.length) :
    parse bytes = .ok (cut bytes h) := by
  unfold parse
  simp only [hh, bind, Except.bind, Bytes.slice?, if_pos hin.code, if_pos hin.data,
    readTargets?_eq hlegacy hin.data, if_pos hin.table, cut]

theorem parse_of_not_inside (hh : Header.parse bytes = .ok h)
    (hlegacy : h.format = .legacy → h.jumpTableCount = 0) (hout : ¬ Inside h bytes.length) :
    parse bytes = .error .segmentOutOfImage := by
  unfold parse
  simp only [hh, bind, Except.bind]
  split
  · rename_i code data targets hcode hdata htargets
    have hin := Bytes.le_length_of_slice? hdata
    refine absurd ⟨Bytes.le_length_of_slice? hcode, hin, ?_⟩ hout
    by_contra htable
    rw [readTargets?_eq hlegacy hin, if_neg htable] at htargets
    cases htargets
  · rfl

/-- In a header without negative offsets and lengths, places are what the numbers say. -/
theorem inside_iff (hwf : h.wellFormed = true) (length : Nat) :
    Inside h length ↔ h.numbers.codeOffset + h.numbers.codeLength ≤ length ∧
      h.numbers.dataOffset + h.numbers.dataLength + h.numbers.litLength ≤ length ∧
      h.numbers.dataOffset + h.numbers.dataLength + h.numbers.litLength +
        4 * (h.numbers.jumpTableLength / 4) ≤ length := by
  have hsigns := h.wellFormed_iff.1 hwf
  simp only [Header.numbers] at hsigns ⊢
  constructor
  · rintro ⟨hcode, hdata, htable⟩
    simp only [Header.jumpTableCount, Int32.toNatClampNeg] at hcode hdata htable
    omega
  · rintro ⟨hcode, hdata, htable⟩
    constructor
    all_goals
      simp only [Header.jumpTableCount, Int32.toNatClampNeg]
      omega

theorem jumpTableCount_readAs (f : Format) (bytes : Bytes)
    (hf : (Header.readAs f bytes).format = .legacy) :
    (Header.readAs f bytes).jumpTableCount = 0 := by
  obtain rfl : f = .legacy := hf
  simp [Header.jumpTableCount, Header.readAs]

/-- An image is read unless one of its rules is broken. -/
theorem parse_decides (bytes : Bytes) :
    Requirement.Decides (requirements bytes) (parse bytes)
      (cut bytes (.readAs (announced bytes) bytes)) := by
  have hnumbers := Header.numbers_readAs (announced bytes) bytes
  refine (Header.parse_decides bytes).append ?ok ?error
  case ok =>
    intro hh
    have hlegacy := jumpTableCount_readAs (announced bytes) bytes
    have hinside := inside_iff (Header.wellFormed_of_parse hh) bytes.length
    rw [hnumbers] at hinside
    refine .cons (fun hin => ?_) fun hout => parse_of_not_inside hh hlegacy (mt hinside.1 hout)
    rw [parse_of_inside hh hlegacy (hinside.2 hin)]
    exact Requirement.decides_nil _
  case error =>
    intro e he
    unfold parse
    simp only [he, bind, Except.bind]

/-- What is cut by a header that fits is what the format speaks of. -/
theorem cutFrom_cut (hf : h.format = announced bytes) (hnumbers : h.numbers = numbers bytes)
    (hwf : h.wellFormed = true) (hin : Inside h bytes.length) : CutFrom bytes (cut bytes h) := by
  obtain ⟨hcode, hdata, htable⟩ := hin
  have hsigns := h.wellFormed_iff.1 hwf
  simp only [Header.numbers] at hsigns
  constructor
  case format => exact hf
  case numbers => exact hnumbers
  case code =>
    have hstart : (h.codeOffset.toNatClampNeg : Int) = h.codeOffset.toInt :=
      Int.toNat_of_nonneg (by omega)
    have hstands := Bytes.standsAt_slice hcode
    rw [hstart] at hstands
    rw [← hnumbers]
    exact hstands
  case length_code =>
    rw [← hnumbers]
    simp only [cut, Header.numbers, List.length_take, List.length_drop, Int32.toNatClampNeg]
      at hcode ⊢
    omega
  case data =>
    have hstart : (h.dataOffset.toNatClampNeg : Int) = h.dataOffset.toInt :=
      Int.toNat_of_nonneg (by omega)
    have hstands := Bytes.standsAt_slice hdata
    rw [hstart] at hstands
    rw [← hnumbers]
    exact hstands
  case length_data =>
    rw [← hnumbers]
    simp only [cut, Header.numbers, List.length_take, List.length_drop, Int32.toNatClampNeg]
      at hdata ⊢
    omega
  case length_jumpTargets =>
    rw [← hnumbers]
    simp only [cut, Header.numbers, List.length_map, List.length_range, Header.jumpTableCount,
      Int32.toNatClampNeg]
    omega
  case jumpTarget =>
    intro i t ht
    simp only [cut, List.getElem?_map, Option.map_eq_some_iff] at ht
    obtain ⟨j, hj, rfl⟩ := ht
    obtain ⟨hlt, rfl⟩ := List.getElem?_eq_some_iff.1 hj
    rw [Bytes.toInt_wordAt, List.getElem_range, tableStart, ← hnumbers]
    congr 1
    simp only [Header.numbers, Int32.toNatClampNeg]
    omega

theorem cutFrom_of_parse {image : Image} (hp : parse bytes = .ok image) : CutFrom bytes image := by
  have hnumbers : (Header.readAs (announced bytes) bytes).numbers = numbers bytes :=
    Header.numbers_readAs (announced bytes) bytes
  have hf := Header.format_readAs (announced bytes) bytes
  have hlegacy := jumpTableCount_readAs (announced bytes) bytes
  have hdecides := Header.parse_decides bytes
  -- from here on the header is any one with the numbers of the byte string
  generalize Header.readAs (announced bytes) bytes = h at hnumbers hf hlegacy hdecides
  rcases hdecides with ⟨-, hh⟩ | ⟨e, -, hh⟩
  · by_cases hin : Inside h bytes.length
    · rw [parse_of_inside hh hlegacy hin] at hp
      cases hp
      exact cutFrom_cut hf hnumbers (Header.wellFormed_of_parse hh) hin
    · rw [parse_of_not_inside hh hlegacy hin] at hp
      cases hp
  · unfold parse at hp
    simp only [hh, bind, Except.bind] at hp
    cases hp

end Image

/-! ## §4 Loading an image -/

/-- The bytes of an instruction are cut short, or they do not begin with an operation. -/
theorem Instruction.eq_of_read_eq_error {bytes : Bytes} {e : LoadError}
    (h : read bytes = .error e) : e = .codeOverrun ∨ e = .badOpcode := by
  unfold read at h
  repeat' split at h
  all_goals cases h
  all_goals simp

namespace Program

theorem eq_of_readMany_eq_error {count offset : Nat} {bytes : Bytes} {code : Array Instruction}
    {offsets : Array UInt32} {e : LoadError}
    (h : readMany count offset bytes code offsets = .error e) :
    e = .codeOverrun ∨ e = .badOpcode := by
  induction count generalizing offset bytes code offsets with
  | zero => cases h
  | succ count ih =>
    rw [readMany] at h
    cases hread : Instruction.read bytes with
    | error e' =>
      rw [hread] at h
      cases h
      exact Instruction.eq_of_read_eq_error hread
    | ok r =>
      rw [hread] at h
      exact ih h

theorem eq_of_decode_eq_error {code : Bytes} {count : Nat} {e : LoadError}
    (h : decode code count = .error e) :
    e = .codeOverrun ∨ e = .badOpcode ∨ e = .badBranchTarget := by
  unfold decode at h
  split at h
  · rename_i hread
    cases h
    rcases eq_of_readMany_eq_error hread with rfl | rfl <;> simp
  · dsimp only at h
    split at h
    · cases h
    · cases h
      simp

end Program

theorem JumpTable.all_isInstruction_iff {targets : List Int32} {p : Program} :
    targets.all p.isInstruction = true ↔ ∀ t ∈ targets, 0 ≤ t.toInt ∧ t.toInt < p.size := by
  simp only [List.all_eq_true, Program.isInstruction_iff_toInt]

namespace Instance

variable {bytes : Bytes} {image : Image} {program : Program} {e : LoadError}

/-- The code of an image is a program, and its jump table names instructions of it. -/
structure Loadable (image : Image) (program : Program) : Prop where
  decode : Program.decode image.code image.header.instructionCount.toNatClampNeg = .ok program
  targets : image.header.format = .extended →
    ∀ t ∈ image.jumpTargets, 0 ≤ t.toInt ∧ t.toInt < program.size

/-- Why a byte string is not loaded: it is not an image, or its code is not a program, or its
jump table names something else than an instruction. -/
inductive Refused (bytes : Bytes) : LoadError → Prop where
  | image {e : LoadError} (h : Image.parse bytes = .error e) : Refused bytes e
  | code {image : Image} {e : LoadError} (h : Image.parse bytes = .ok image)
      (hcode : Program.decode image.code image.header.instructionCount.toNatClampNeg = .error e) :
      Refused bytes e
  | target {image : Image} {program : Program} {t : Int32} (h : Image.parse bytes = .ok image)
      (hcode : Program.decode image.code image.header.instructionCount.toNatClampNeg = .ok program)
      (hf : image.header.format = .extended) (ht : t ∈ image.jumpTargets)
      (hout : ¬ (0 ≤ t.toInt ∧ t.toInt < program.size)) : Refused bytes .badJumpTableEntry

theorem exists_parse_of_loadable (himage : Image.parse bytes = .ok image)
    (h : Loadable image program) : ∃ parsed, parse bytes = .ok parsed := by
  unfold parse
  simp only [himage, h.decode, bind, Except.bind]
  cases hf : image.header.format with
  | legacy => exact ⟨_, rfl⟩
  | extended =>
    have hall := JumpTable.all_isInstruction_iff.2 (h.targets hf)
    simp only [JumpTable.build, if_pos hall]
    exact ⟨_, rfl⟩

theorem Refused.parse_eq (h : Refused bytes e) : parse bytes = .error e := by
  unfold parse
  cases h with
  | image h => simp only [h, bind, Except.bind]
  | code h hcode => simp only [h, hcode, bind, Except.bind]
  | @target image program t h hcode hf ht hout =>
    have hall : ¬ image.jumpTargets.all program.isInstruction = true :=
      fun hall => hout (JumpTable.all_isInstruction_iff.1 hall t ht)
    simp only [h, hcode, hf, bind, Except.bind, JumpTable.build, if_neg hall]

/-- There is no third way for a byte string. -/
theorem loadable_or_refused (bytes : Bytes) :
    (∃ image program, Image.parse bytes = .ok image ∧ Loadable image program) ∨
      ∃ e, Refused bytes e := by
  cases himage : Image.parse bytes with
  | error e => exact .inr ⟨e, .image himage⟩
  | ok image =>
    cases hcode : Program.decode image.code image.header.instructionCount.toNatClampNeg with
    | error e => exact .inr ⟨e, .code himage hcode⟩
    | ok program =>
      by_cases htargets : image.header.format = .extended →
          ∀ t ∈ image.jumpTargets, 0 ≤ t.toInt ∧ t.toInt < program.size
      · exact .inl ⟨image, program, rfl, hcode, htargets⟩
      · simp only [not_forall, exists_prop] at htargets
        obtain ⟨hf, t, ht, hout⟩ := htargets
        exact .inr ⟨_, .target himage hcode hf ht hout⟩

theorem exists_load_iff (name : String) (bytes : Bytes) (opts : LoadOptions) :
    (∃ inst, load name bytes opts = .ok inst) ↔
      ∃ image program, Image.parse bytes = .ok image ∧ Loadable image program := by
  constructor
  · rintro ⟨inst, hload⟩
    rcases loadable_or_refused bytes with h | ⟨e, he⟩
    · exact h
    · rw [load_of_parse_error he.parse_eq] at hload
      cases hload
  · rintro ⟨image, program, himage, h⟩
    obtain ⟨parsed, hparsed⟩ := exists_parse_of_loadable himage h
    obtain ⟨inst, hload, -⟩ := load_of_parse hparsed name opts
    exact ⟨inst, hload⟩

theorem load_eq_error_iff (name : String) (bytes : Bytes) (opts : LoadOptions) :
    load name bytes opts = .error e ↔ Refused bytes e := by
  refine ⟨fun hload => ?_, fun h => load_of_parse_error h.parse_eq name opts⟩
  rcases loadable_or_refused bytes with h | ⟨e', he⟩
  · obtain ⟨inst, hinst⟩ := (exists_load_iff name bytes opts).2 h
    rw [hinst] at hload
    cases hload
  · rw [load_of_parse_error he.parse_eq] at hload
    cases hload
    exact he

end Instance

/-- Reading fails with one of the failures that the rules name. -/
theorem Requirement.FirstBroken.mem_map_failure {rs : List Requirement} {e : LoadError}
    (h : FirstBroken rs e) : e ∈ rs.map Requirement.failure := by
  induction h with
  | here => exact List.mem_cons_self
  | later _ _ ih => exact List.mem_cons_of_mem _ ih

theorem Image.map_failure_requirements (bytes : Bytes) :
    (requirements bytes).map Requirement.failure =
      [.imageTruncated, .badMagic, .imageTruncated, .badHeader, .dataTooLarge,
        .segmentOutOfImage] := rfl

/-- What is wrong with a byte string is wrong with its header, with the places of its segments,
with its code or with its jump table. -/
theorem Instance.Refused.mem {bytes : Bytes} {e : LoadError} (h : Refused bytes e) :
    e ∈ [.imageTruncated, .badMagic, .badHeader, .dataTooLarge, .segmentOutOfImage,
      .codeOverrun, .badOpcode, .badBranchTarget, LoadError.badJumpTableEntry] := by
  cases h with
  | image h =>
    have hmem := ((Image.parse_decides bytes).eq_error_iff.1 h).mem_map_failure
    rw [Image.map_failure_requirements] at hmem
    simp only [List.mem_cons, List.not_mem_nil, or_false] at hmem ⊢
    tauto
  | code _ hcode =>
    rcases Program.eq_of_decode_eq_error hcode with rfl | rfl | rfl <;> simp
  | target => simp

/-- A byte string is read as an image exactly if it keeps the rules of the format, and otherwise
reading fails with the first rule that it breaks. The code, the data and the jump table of an
image are the bytes at the places that its header gives. An image is loaded exactly if its code
is a program and its jump table names instructions of this program; otherwise loading fails
with what is wrong with the image, whatever the name and the options are. -/
theorem image_format (bytes : Bytes) :
    ((∃ image, Image.parse bytes = .ok image) ↔ ∀ r ∈ Image.requirements bytes, r.met) ∧
      (∀ e, Image.parse bytes = .error e ↔
        Requirement.FirstBroken (Image.requirements bytes) e) ∧
      (∀ image, Image.parse bytes = .ok image → Image.CutFrom bytes image) ∧
      ∀ (name : String) (opts : LoadOptions),
        ((∃ inst, Instance.load name bytes opts = .ok inst) ↔
          ∃ image program, Image.parse bytes = .ok image ∧ Instance.Loadable image program) ∧
        ∀ e, (Instance.load name bytes opts = .error e ↔ Instance.Refused bytes e) ∧
          (Instance.Refused bytes e →
            e ∈ [.imageTruncated, .badMagic, .badHeader, .dataTooLarge, .segmentOutOfImage,
              .codeOverrun, .badOpcode, .badBranchTarget, .badJumpTableEntry]) := by
  have hparse := Image.parse_decides bytes
  refine ⟨hparse.exists_ok_iff, fun e => hparse.eq_error_iff,
    fun image => Image.cutFrom_of_parse, fun name opts => ?_⟩
  exact ⟨Instance.exists_load_iff name bytes opts,
    fun e => ⟨Instance.load_eq_error_iff name bytes opts, Instance.Refused.mem⟩⟩

-- four bytes are too few for a header, but what they announce is looked at first
example : Requirement.FirstBroken (Image.requirements [0, 0, 0, 0]) .badMagic :=
  .later (by decide) (.here (by decide))

end SandboxVm
