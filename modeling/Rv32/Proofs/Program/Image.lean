/-
# `Rv32.Proofs.Program.Image` — where the segments of a file come to lie

An image is built segment by segment.  What has been built from some segments is known at any
time (`laid`): read-only memory reaches to the end of the one that ends last, a byte of it is that
of the last segment that holds its address, and what is between segments is zero; all that does
not belong there is kept as it is, in the order of the file.

`layOut_laid` is the step.  The run over all segments of a file ends with their image, or at the
first of them that is not usable: its contents are not in the file, or it asks for too many bytes.
-/
import Rv32.Program.Image
import Rv32.Proofs.Attempt

namespace Rv32

/-! ## Bytes of a file -/

namespace Bytes

theorem length_unpack (data : ByteArray) : (unpack data).length = data.size := by
  rw [unpack, List.length_map, Array.length_toList]
  rfl

theorem getElem?_unpack {data : ByteArray} {i : Nat} (inside : i < data.size) :
    (unpack data)[i]? = some (get data i) := by
  rw [get, dif_pos inside, unpack, List.getElem?_map, Array.getElem?_toList,
    Array.getElem?_eq_getElem inside]
  rfl

end Bytes

namespace Image

/-! ## Overlays -/

theorem getElem?_overlay (bytes : List Byte) (offset : Nat) (data : List Byte) (i : Nat) :
    (overlay bytes offset data)[i]? =
      if i < offset then if i < bytes.length then bytes[i]? else some 0
      else if i < offset + data.length then data[i - offset]?
      else bytes[i]? := by
  have front : ((bytes.take offset).rightpad offset 0).length = offset := by
    rw [List.rightpad, List.length_append, List.length_replicate, List.length_take]
    omega
  rw [overlay, List.append_assoc, List.getElem?_append, front]
  split
  case isTrue before =>
    rw [List.rightpad, List.getElem?_append, List.length_take, List.getElem?_take_of_lt before,
      List.getElem?_replicate]
    by_cases kept : i < bytes.length
    · rw [if_pos (by omega), if_pos kept]
    · rw [if_neg (by omega), if_neg kept, if_pos (by omega)]
  case isFalse reached =>
    rw [List.getElem?_append]
    by_cases inside : i < offset + data.length
    · rw [if_pos (by omega), if_pos inside]
    · rw [if_neg (by omega), if_neg inside, List.getElem?_drop]
      congr 1
      omega

/-! ## Segments -/

/-- The segments of a file that are put into memory. -/
def loaded (elf : Elf) : List Elf.Segment := elf.segments.filter (·.loadable)

/-- The bytes of a segment: those that it has in the file, as many as fit, and then zeros. -/
def data (file : ByteArray) (s : Elf.Segment) : List Byte :=
  ((Bytes.unpack file).drop s.offset).take (min s.fileSize s.memorySize) ++
    List.replicate (s.memorySize - s.fileSize) 0

/-- How far a segment reaches into read-only memory. -/
def reach (romBase : Word) (s : Elf.Segment) : Nat :=
  s.start.toNat - romBase.toNat + s.memorySize

/-- The bytes of a segment can be kept in one piece, and so can read-only memory if it reaches as
far as the segment does there. -/
def HasRoom (romBase romEnd : Word) (s : Elf.Segment) : Prop :=
  s.memorySize ≤ capacity ∧ (inRom romBase romEnd s = true → reach romBase s ≤ capacity)

instance (romBase romEnd : Word) (s : Elf.Segment) : Decidable (HasRoom romBase romEnd s) :=
  inferInstanceAs (Decidable (_ ∧ _))

/-- The contents of a segment are in the file, and there is room for it. -/
def Usable (file : ByteArray) (romBase romEnd : Word) (s : Elf.Segment) : Prop :=
  s.offset + s.fileSize ≤ file.size ∧ HasRoom romBase romEnd s

instance (file : ByteArray) (romBase romEnd : Word) (s : Elf.Segment) :
    Decidable (Usable file romBase romEnd s) := inferInstanceAs (Decidable (_ ∧ _))

/-- Whether a segment has a byte at an address. -/
def holds (address : Nat) (s : Elf.Segment) : Bool :=
  decide (s.start.toNat ≤ address ∧ address < s.start.toNat + s.memorySize)

/-- How far some segments reach, if there are any. -/
def extent (romBase : Word) (segments : List Elf.Segment) : Nat :=
  (segments.map (reach romBase)).max?.getD 0

/-- The byte at an address: that of the last segment that has one there. -/
def byteAt (file : ByteArray) (segments : List Elf.Segment) (address : Nat) : Byte :=
  match (segments.filter (holds address)).getLast? with
  | some s => (data file s).getD (address - s.start.toNat) 0
  | none => 0

section
variable {file : ByteArray} {s : Elf.Segment}

theorem inFile_iff : inFile file s = true ↔ s.offset + s.fileSize ≤ file.size := decide_eq_true_iff

theorem length_data (inside : s.offset + s.fileSize ≤ file.size) :
    (data file s).length = s.memorySize := by
  rw [data, List.length_append, List.length_take, List.length_drop, Bytes.length_unpack,
    List.length_replicate]
  omega

theorem getElem?_data (inside : s.offset + s.fileSize ≤ file.size) {i : Nat}
    (within : i < s.memorySize) :
    (data file s)[i]? = some (if i < s.fileSize then Bytes.get file (s.offset + i) else 0) := by
  rw [data, List.getElem?_append, List.length_take, List.length_drop, Bytes.length_unpack]
  by_cases given : i < s.fileSize
  · rw [if_pos (by omega), if_pos given, List.getElem?_take_of_lt (by omega), List.getElem?_drop,
      Bytes.getElem?_unpack (by omega)]
  · rw [if_neg (by omega), if_neg given, List.getElem?_replicate, if_pos (by omega)]

theorem contents_eq (inside : s.offset + s.fileSize ≤ file.size) :
    contents file s = data file s := by
  have lengths : (contents file s).length = s.memorySize := by
    rw [contents, List.length_map, List.length_range]
  refine List.ext_getElem? fun i => ?_
  rcases Nat.lt_or_ge i s.memorySize with within | behind
  · rw [getElem?_data inside within, contents, List.getElem?_map, List.getElem?_range within]
    rfl
  · rw [List.getElem?_eq_none (by omega),
      List.getElem?_eq_none (by rw [length_data inside]; exact behind)]

theorem byteAt_append (segments : List Elf.Segment) (address : Nat) :
    byteAt file (segments ++ [s]) address =
      if holds address s then (data file s).getD (address - s.start.toNat) 0
      else byteAt file segments address := by
  rw [byteAt, List.filter_append]
  by_cases here : holds address s = true
  · rw [if_pos here, List.filter_cons_of_pos here, List.filter_nil, List.getLast?_concat]
  · rw [if_neg here, List.filter_cons_of_neg here, List.filter_nil, List.append_nil]
    rfl

theorem byteAt_eq_zero {segments : List Elf.Segment} {address : Nat}
    (none : ∀ s ∈ segments, holds address s = false) : byteAt file segments address = 0 := by
  rw [byteAt, List.filter_eq_nil_iff.mpr fun s mem => by rw [none s mem]; exact Bool.false_ne_true]
  rfl

theorem extent_append (romBase : Word) (segments : List Elf.Segment) :
    extent romBase (segments ++ [s]) = max (extent romBase segments) (reach romBase s) := by
  have fold (l : List Nat) : l.max?.getD 0 = l.foldl max 0 := by
    rw [List.foldl_max]
    exact (Nat.zero_max _).symm
  rw [extent, extent, fold, fold, List.map_append, List.foldl_append]
  rfl

theorem extent_le {romBase : Word} {segments : List Elf.Segment} {n : Nat}
    (short : ∀ s ∈ segments, reach romBase s ≤ n) : extent romBase segments ≤ n := by
  rw [extent]
  cases last : (segments.map (reach romBase)).max? with
  | none => exact Nat.zero_le n
  | some m =>
    obtain ⟨s, mem, rfl⟩ := List.mem_map.mp (List.max?_mem last)
    exact short s mem

theorem reach_le_extent {romBase : Word} {segments : List Elf.Segment} (mem : s ∈ segments) :
    reach romBase s ≤ extent romBase segments :=
  List.le_max?_getD_of_mem (List.mem_map_of_mem mem)

end

/-! ## Laying out -/

section
variable {file : ByteArray} {romBase romEnd entry : Word} {s : Elf.Segment}

/-- The image of some segments. -/
def laid (file : ByteArray) (romBase romEnd entry : Word) (segments : List Elf.Segment) :
    Image where
  rom := (List.range (extent romBase (segments.filter (inRom romBase romEnd)))).map fun i =>
    byteAt file (segments.filter (inRom romBase romEnd)) (romBase.toNat + i)
  parts := (segments.filter fun s => !inRom romBase romEnd s).map fun s => ⟨s.start, data file s⟩
  entry := entry

theorem length_rom_laid (segments : List Elf.Segment) :
    (laid file romBase romEnd entry segments).rom.length =
      extent romBase (segments.filter (inRom romBase romEnd)) := by
  rw [laid, List.length_map, List.length_range]

theorem getElem?_rom_laid (segments : List Elf.Segment) (i : Nat) :
    (laid file romBase romEnd entry segments).rom[i]? =
      if i < extent romBase (segments.filter (inRom romBase romEnd)) then
        some (byteAt file (segments.filter (inRom romBase romEnd)) (romBase.toNat + i))
      else none := by
  rw [laid, List.getElem?_map]
  split
  case isTrue within =>
    rw [List.getElem?_range within]
    rfl
  case isFalse behind =>
    rw [List.getElem?_eq_none (by rw [List.length_range]; exact Nat.not_lt.mp behind)]
    rfl

theorem romBase_le (rom : inRom romBase romEnd s = true) : romBase.toNat ≤ s.start.toNat := by
  rw [inRom, Bool.and_eq_true, decide_eq_true_iff] at rom
  exact rom.1.1

/-- Behind all segments there is nothing. -/
theorem byteAt_behind {segments : List Elf.Segment} {i : Nat}
    (behind : extent romBase (segments.filter (inRom romBase romEnd)) ≤ i) :
    byteAt file (segments.filter (inRom romBase romEnd)) (romBase.toNat + i) = 0 := by
  refine byteAt_eq_zero fun s mem => ?_
  have above := romBase_le (List.mem_filter.mp mem).2
  have short : reach romBase s ≤ i := Nat.le_trans (reach_le_extent mem) behind
  rw [reach] at short
  rw [holds, decide_eq_false_iff_not]
  omega

/-- A segment is laid over what there is in read-only memory. -/
theorem overlay_laid (segments : List Elf.Segment) (rom : inRom romBase romEnd s = true)
    (inside : s.offset + s.fileSize ≤ file.size) :
    overlay (laid file romBase romEnd entry segments).rom (s.start - romBase).toNat (data file s) =
      (laid file romBase romEnd entry (segments ++ [s])).rom := by
  have above := romBase_le rom
  have offset : (s.start - romBase).toNat = s.start.toNat - romBase.toNat :=
    BitVec.toNat_sub_of_le above
  refine List.ext_getElem? fun i => ?_
  rw [getElem?_overlay, getElem?_rom_laid, getElem?_rom_laid, length_rom_laid,
    length_data inside, offset,
    List.filter_append, List.filter_cons_of_pos rom, List.filter_nil, extent_append, byteAt_append,
    reach, holds]
  by_cases here : s.start.toNat ≤ romBase.toNat + i ∧
      romBase.toNat + i < s.start.toNat + s.memorySize
  case pos =>
    have place : i - (s.start.toNat - romBase.toNat) = romBase.toNat + i - s.start.toNat := by omega
    have within : romBase.toNat + i - s.start.toNat < (data file s).length := by
      rw [length_data inside]
      omega
    rw [if_neg (by omega), if_pos (by omega), if_pos (by omega), if_pos (decide_eq_true here),
      place, List.getD_eq_getElem?_getD, List.getElem?_eq_getElem within, Option.getD_some]
  case neg =>
    rw [if_neg fun holds => here (of_decide_eq_true holds)]
    rcases Nat.lt_or_ge i (s.start.toNat - romBase.toNat) with before | reached
    · rw [if_pos before]
      rcases Nat.lt_or_ge i (extent romBase (segments.filter (inRom romBase romEnd))) with old | gap
      · rw [if_pos old, if_pos old, if_pos (by omega)]
      · rw [if_neg (Nat.not_lt.mpr gap), byteAt_behind gap, if_pos (by omega)]
    · rw [if_neg (Nat.not_lt.mpr reached), if_neg (by omega)]
      rcases Nat.lt_or_ge i (extent romBase (segments.filter (inRom romBase romEnd))) with old | new
      · rw [if_pos old, if_pos (by omega)]
      · rw [if_neg (Nat.not_lt.mpr new), if_neg (by omega)]

/-- One segment more. -/
theorem place_laid (segments : List Elf.Segment) (room : ∀ t ∈ segments, HasRoom romBase romEnd t)
    (inside : s.offset + s.fileSize ≤ file.size) :
    place romBase romEnd (laid file romBase romEnd entry segments) s ⟨s.start, contents file s⟩ =
      if inRom romBase romEnd s = true → reach romBase s ≤ capacity then
        .ok (laid file romBase romEnd entry (segments ++ [s]))
      else .error .overflow := by
  rw [contents_eq inside, place]
  split
  case isTrue rom =>
    have finish : (s.start - romBase).toNat + (data file s).length = reach romBase s := by
      rw [length_data inside, BitVec.toNat_sub_of_le (romBase_le rom), reach]
    have kept : (laid file romBase romEnd entry segments).rom.length ≤ capacity := by
      rw [length_rom_laid]
      refine extent_le fun t mem => ?_
      obtain ⟨mem, inside⟩ := List.mem_filter.mp mem
      exact (room t mem).2 inside
    dsimp only
    rw [finish, overlay_laid segments rom inside]
    by_cases short : reach romBase s ≤ capacity
    · rw [if_neg (by omega), if_pos fun _ => short, laid, laid]
      simp only [List.filter_append, List.filter_cons, rom, Bool.not_true, Bool.false_eq_true,
        if_false, List.filter_nil, List.append_nil]
    · rw [if_pos (by omega), if_neg fun all => short (all rom)]
  case isFalse other =>
    rw [if_pos fun rom => absurd rom other]
    rw [Bool.not_eq_true] at other
    simp only [laid, List.filter_append, List.filter_cons, other, Bool.not_false,
      Bool.false_eq_true, if_false, if_true, List.filter_nil, List.append_nil, List.map_append,
      List.map_cons, List.map_nil]

/-- Why a segment that is not usable is not. -/
def failure (file : ByteArray) (s : Elf.Segment) : Failure :=
  if s.offset + s.fileSize ≤ file.size then .overflow else .malformed (.segmentOutside s.start)

theorem layOut_run (image : Image) (journal : Journal) :
    layOut file romBase romEnd image s journal =
      match part file s with
      | .ok p => (place romBase romEnd image s p,
          journal.record (.segment p.address p.data.length))
      | .error e => (.error e, journal) := by
  rw [layOut, Attempt.bind_run, Attempt.lift_run]
  cases part file s with
  | error e => rfl
  | ok p => exact Attempt.lift_run _ _

theorem layOut_laid (segments : List Elf.Segment) (room : ∀ t ∈ segments, HasRoom romBase romEnd t)
    (s : Elf.Segment) (journal : Journal) :
    (layOut file romBase romEnd (laid file romBase romEnd entry segments) s journal).1 =
      if Usable file romBase romEnd s then
        .ok (laid file romBase romEnd entry (segments ++ [s]))
      else .error (failure file s) := by
  rw [layOut_run]
  by_cases inside : s.offset + s.fileSize ≤ file.size
  · have why : failure file s = .overflow := if_pos inside
    by_cases short : s.memorySize ≤ capacity
    · have made : part file s = .ok ⟨s.start, contents file s⟩ := by
        rw [part, if_pos (inFile_iff.mpr inside), if_pos short]
      simp only [made, place_laid segments room inside, why, Usable, HasRoom, inside, short,
        true_and]
    · have failed : part file s = .error .overflow := by
        rw [part, if_pos (inFile_iff.mpr inside), if_neg short]
      simp only [failed, why, if_neg fun usable : Usable file romBase romEnd s => short usable.2.1]
  · have why : failure file s = .malformed (.segmentOutside s.start) := if_neg inside
    have failed : part file s = .error (.malformed (.segmentOutside s.start)) :=
      if_neg (mt inFile_iff.mp inside)
    simp only [failed, why, if_neg fun usable : Usable file romBase romEnd s => inside usable.1]

/-! ## All segments -/

/-- Laying out goes on until it reaches a segment that is not usable. -/
theorem foldlM_laid (rest segments : List Elf.Segment)
    (room : ∀ t ∈ segments, HasRoom romBase romEnd t) (journal : Journal) :
    (rest.foldlM (layOut file romBase romEnd) (laid file romBase romEnd entry segments) journal).1 =
      match rest.find? fun s => !decide (Usable file romBase romEnd s) with
      | some s => .error (failure file s)
      | none => .ok (laid file romBase romEnd entry (segments ++ rest)) := by
  induction rest generalizing segments journal with
  | nil =>
    rw [List.append_nil]
    rfl
  | cons s rest ih =>
    have step : (layOut file romBase romEnd (laid file romBase romEnd entry segments) s
        journal).1 = _ := layOut_laid segments room s journal
    rw [List.foldlM_cons, List.find?_cons, Attempt.bind_run]
    rcases run : layOut file romBase romEnd (laid file romBase romEnd entry segments) s journal with
      ⟨result, journal'⟩
    rw [run] at step
    by_cases usable : Usable file romBase romEnd s
    · obtain rfl := step.trans (if_pos usable)
      have room' : ∀ t ∈ segments ++ [s], HasRoom romBase romEnd t := by
        intro t mem
        rcases List.mem_append.mp mem with old | new
        · exact room t old
        · exact List.mem_singleton.mp new ▸ usable.2
      rw [decide_eq_true usable]
      refine (ih _ room' journal').trans ?_
      rw [List.append_assoc]
      rfl
    · obtain rfl := step.trans (if_neg usable)
      rw [decide_eq_false usable]
      rfl

theorem ofElf_eq (file : ByteArray) (elf : Elf) (romBase romEnd : Word) (journal : Journal) :
    (ofElf file elf romBase romEnd journal).1 =
      match (loaded elf).find? fun s => !decide (Usable file romBase romEnd s) with
      | some s => .error (failure file s)
      | none => .ok (laid file romBase romEnd (BitVec.ofNat 32 elf.entry) (loaded elf)) :=
  foldlM_laid (loaded elf) [] (fun _ mem => absurd mem List.not_mem_nil) journal

end

/-- What is where in the image of a file. -/
structure Placed (file : ByteArray) (elf : Elf) (romBase romEnd : Word) (image : Image) : Prop where
  length : image.rom.length = extent romBase ((loaded elf).filter (inRom romBase romEnd))
  bytes : ∀ i < image.rom.length, image.rom[i]? =
    some (byteAt file ((loaded elf).filter (inRom romBase romEnd)) (romBase.toNat + i))
  parts : image.parts =
    ((loaded elf).filter fun s => !inRom romBase romEnd s).map fun s => ⟨s.start, data file s⟩
  entry : image.entry = BitVec.ofNat 32 elf.entry

/-- There is one image of a file. -/
theorem placed_iff {file : ByteArray} {elf : Elf} {romBase romEnd : Word} {image : Image} :
    Placed file elf romBase romEnd image ↔
      image = laid file romBase romEnd (BitVec.ofNat 32 elf.entry) (loaded elf) := by
  constructor
  · rintro ⟨length, bytes, parts, entry⟩
    have rom : image.rom =
        (laid file romBase romEnd (BitVec.ofNat 32 elf.entry) (loaded elf)).rom := by
      refine List.ext_getElem? fun i => ?_
      rw [getElem?_rom_laid, ← length]
      split
      case isTrue within => exact bytes i within
      case isFalse behind => exact List.getElem?_eq_none (Nat.not_lt.mp behind)
    obtain ⟨_, _, _⟩ := image
    cases rom
    cases parts
    cases entry
    rfl
  · rintro rfl
    refine ⟨length_rom_laid _, fun i within => ?_, rfl, rfl⟩
    rw [length_rom_laid] at within
    rw [getElem?_rom_laid, if_pos within]

theorem find?_eq_some_iff_first {file : ByteArray} {romBase romEnd : Word}
    {segments : List Elf.Segment} {s : Elf.Segment} :
    (segments.find? fun s => !decide (Usable file romBase romEnd s)) = some s ↔
      ∃ before after, segments = before ++ s :: after ∧
        (∀ t ∈ before, Usable file romBase romEnd t) ∧ ¬Usable file romBase romEnd s := by
  rw [List.find?_eq_some_iff_append]
  simp only [Bool.not_eq_true', decide_eq_false_iff_not, Bool.not_not, decide_eq_true_eq]
  constructor
  · rintro ⟨unusable, before, after, order, usable⟩
    exact ⟨before, after, order, usable, unusable⟩
  · rintro ⟨before, after, order, usable, unusable⟩
    exact ⟨unusable, before, after, order, usable⟩

/-- A file has an image if all its segments are usable.  Otherwise the first that is not decides:
if its contents are not in the file it is named, and if they are, it asks for too many bytes. -/
theorem ofElf_exact (file : ByteArray) (elf : Elf) (romBase romEnd : Word) (journal : Journal) :
    (∀ e, (ofElf file elf romBase romEnd journal).1 = .error e ↔
      ∃ before s after, loaded elf = before ++ s :: after ∧
        (∀ t ∈ before, Usable file romBase romEnd t) ∧
        (file.size < s.offset + s.fileSize ∧ e = .malformed (.segmentOutside s.start) ∨
          s.offset + s.fileSize ≤ file.size ∧ ¬HasRoom romBase romEnd s ∧ e = .overflow)) ∧
      (∀ address, (Elf.Error.segmentOutside address).reason =
        "segment at " ++ address.hex ++ " lies outside the file") ∧
      ∀ image, (ofElf file elf romBase romEnd journal).1 = .ok image ↔
        (∀ s ∈ loaded elf, Usable file romBase romEnd s) ∧
          Placed file elf romBase romEnd image := by
  rw [ofElf_eq]
  have why {s : Elf.Segment} {e : Failure} :
      (file.size < s.offset + s.fileSize ∧ e = .malformed (.segmentOutside s.start) ∨
        s.offset + s.fileSize ≤ file.size ∧ ¬HasRoom romBase romEnd s ∧ e = .overflow) ↔
        ¬Usable file romBase romEnd s ∧ e = failure file s := by
    rw [Usable, failure]
    by_cases inside : s.offset + s.fileSize ≤ file.size
    · simp only [inside, Nat.not_lt.mpr inside, false_and, false_or, true_and, if_true]
    · simp only [inside, Nat.not_le.mp inside, false_and, or_false, true_and, if_false,
        not_false_eq_true]
  simp only [why]
  cases first : (loaded elf).find? fun s => !decide (Usable file romBase romEnd s) with
  | some s =>
    obtain ⟨before, after, order, usable, unusable⟩ := find?_eq_some_iff_first.mp first
    refine ⟨fun e => ⟨?_, ?_⟩, fun _ => rfl, fun image => ⟨nofun, fun ⟨all, _⟩ => ?_⟩⟩
    · rintro ⟨rfl⟩
      exact ⟨before, s, after, order, usable, unusable, rfl⟩
    · rintro ⟨before', s', after', order', usable', unusable', rfl⟩
      have first' := find?_eq_some_iff_first.mpr ⟨before', after', order', usable', unusable'⟩
      cases first.symm.trans first'
      rfl
    · have member : s ∈ loaded elf := order ▸ List.mem_append_right _ List.mem_cons_self
      exact absurd (all s member) unusable
  | none =>
    have all : ∀ s ∈ loaded elf, Usable file romBase romEnd s := fun s member => by
      have usable := List.find?_eq_none.mp first s member
      rwa [Bool.not_eq_true, Bool.not_eq_false', decide_eq_true_iff] at usable
    refine ⟨fun e => ⟨nofun, ?_⟩, fun _ => rfl, fun image => ?_⟩
    · rintro ⟨before, s, after, order, -, unusable, -⟩
      have member : s ∈ loaded elf := order ▸ List.mem_append_right _ List.mem_cons_self
      exact absurd (all s member) unusable
    · rw [placed_iff, and_iff_right all, Except.ok.injEq, eq_comm]

/-- Two segments in read-only memory, the second of which hides the second byte of the first, and
one behind them that may be written. -/
theorem ofElf_exact_of_overlap :
    let file := Bytes.pack [1, 2, 3, 4]
    let elf : Elf := ⟨0x100000100,
      [⟨1, 5, 0, 0, 0x100, 2, 4⟩, ⟨1, 4, 2, 0, 0x101, 2, 1⟩, ⟨1, 6, 3, 0, 0x108, 1, 2⟩]⟩
    (∀ s ∈ loaded elf, Usable file 0x100 0x200 s) ∧
      (ofElf file elf 0x100 0x200 (.empty 0)).1 =
        .ok ⟨[1, 3, 0, 0], [⟨0x108, [4, 0]⟩], 0x100⟩ := by
  intro file elf
  have usable : ∀ s ∈ loaded elf, Usable file 0x100 0x200 s := by decide
  have placed : Placed file elf 0x100 0x200 ⟨[1, 3, 0, 0], [⟨0x108, [4, 0]⟩], 0x100⟩ :=
    ⟨by decide, by decide, by decide, by decide⟩
  exact ⟨usable, ((ofElf_exact file elf 0x100 0x200 (.empty 0)).2.2 _).mpr ⟨usable, placed⟩⟩

/-- A segment without contents that asks for half of all addresses of the host has no image, though
what it has in the file is there. -/
theorem ofElf_without_room :
    let file := Bytes.pack []
    let elf : Elf := ⟨0x100, [⟨1, 5, 0, 0, 0x100, 0, 0x8000000000000000⟩]⟩
    (∀ s ∈ loaded elf, s.offset + s.fileSize ≤ file.size) ∧
      (ofElf file elf 0x100 0x200 (.empty 0)).1 = .error .overflow ∧
      ¬∀ (file : ByteArray) (elf : Elf) (romBase romEnd : Word) (journal : Journal),
        (∀ s ∈ loaded elf, s.offset + s.fileSize ≤ file.size) →
          ∃ image, (ofElf file elf romBase romEnd journal).1 = .ok image := by
  intro file elf
  have inside : ∀ s ∈ loaded elf, s.offset + s.fileSize ≤ file.size := by decide
  have overflow : (ofElf file elf 0x100 0x200 (.empty 0)).1 = .error .overflow := rfl
  refine ⟨inside, overflow, fun all => ?_⟩
  obtain ⟨image, made⟩ := all file elf 0x100 0x200 (.empty 0) inside
  cases overflow.symm.trans made

end Image
end Rv32
