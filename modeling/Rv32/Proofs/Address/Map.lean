/-
# `Rv32.Proofs.Address.Map` — what a map of ranges holds

A map of ranges is what its list of entries says: looking an address up finds the entry that
a scan of the whole list would find, and a new range is refused just if it has an address in
common with an entry, wherever that is in the list.

Both are searches by halving, and a search by halving needs its condition to hold of an
initial stretch of the entries.  It does as long as every entry ends before the next begins
(`Map.Ordered`).  Looking an address up also stops where an entry has it, which is where the
entries that end below it are over (`search_eq_partitionPoint`).  The order is kept by inserting
a range, which is all that has to be shown (`Map.Ordered.insert`); the rest is about one ordered
map.
-/
import Mathlib.Data.List.InsertIdx
import Mathlib.Data.List.Pairwise
import Rv32.Address.Map

namespace Rv32.Address

/-! ## Ranges -/

namespace Range

variable {r s t : Range} {address : Word}

theorem contains_iff :
    r.contains address = true ↔
      r.first.toNat ≤ address.toNat ∧ address.toNat ≤ r.last.toNat := decide_eq_true_iff

theorem compare_eq_iff : r.compare address = .eq ↔ r.contains address = true := by
  rw [compare, contains_iff]
  split
  · simp only [reduceCtorEq, false_iff]
    omega
  · split
    · simp only [true_iff]
      omega
    · simp only [reduceCtorEq, false_iff]
      omega

theorem compare_eq_lt_iff : r.compare address = .lt ↔ r.last.toNat < address.toNat := by
  have hr := r.first_le_last
  rw [compare]
  split
  · simp only [reduceCtorEq, false_iff]
    omega
  · split
    · simp only [reduceCtorEq, false_iff]
      omega
    · simp only [true_iff]
      omega

theorem compare_eq_gt (before : address.toNat < r.first.toNat) : r.compare address = .gt :=
  if_pos before

/-- Two ranges overlap if they have an address in common. -/
theorem overlaps_iff :
    r.overlaps s = true ↔ ∃ address, r.contains address = true ∧ s.contains address = true := by
  have hr := r.first_le_last
  have hs := s.first_le_last
  simp only [overlaps, decide_eq_true_iff, contains_iff]
  constructor
  · rintro ⟨hrs, hsr⟩
    rcases Nat.le_total r.first.toNat s.first.toNat with hle | hle
    · exact ⟨s.first, ⟨hle, hsr⟩, Nat.le_refl _, hs⟩
    · exact ⟨r.first, ⟨Nat.le_refl _, hr⟩, hle, hrs⟩
  · rintro ⟨address, ⟨h₁, h₂⟩, h₃, h₄⟩
    omega

/-- The last of a number of addresses, if it is a word. -/
theorem toNat_last {start length : Word} (pos : 0 < length.toNat)
    (ends : start.toNat + length.toNat ≤ 0x100000000) :
    (start + (length - 1)).toNat = start.toNat + (length.toNat - 1) := by
  have hone : (1 : Word).toNat = 1 := rfl
  have hlength := length.isLt
  rw [BitVec.toNat_add, BitVec.toNat_sub, hone]
  omega

/-- The range of a number of addresses: there has to be one, and the last has to be a word. -/
theorem ofLength_eq_ok_iff {start length : Word} :
    ofLength start length = .ok r ↔
      (0 < length.toNat ∧ start.toNat + length.toNat ≤ 0x100000000) ∧
        r.first = start ∧ r.last.toNat + 1 = start.toNat + length.toNat := by
  unfold ofLength
  split
  case isFalse h =>
    refine iff_of_false nofun ?_
    rintro ⟨hfits, -⟩
    omega
  case isTrue h =>
    have hlast := @toNat_last start length h.1 (by omega)
    rw [ofBounds, dif_pos (by omega), Except.ok.injEq]
    constructor
    · rintro rfl
      exact ⟨by omega, rfl, by dsimp only; omega⟩
    · rintro ⟨-, hfirst, hr⟩
      obtain ⟨first, last, hle⟩ := r
      dsimp only at hfirst hr
      rw [Range.mk.injEq]
      exact ⟨hfirst.symm, BitVec.eq_of_toNat_eq (by omega)⟩

theorem exists_ofLength {start length : Word} (pos : 0 < length.toNat)
    (ends : start.toNat + length.toNat ≤ 0x100000000) : ∃ r, ofLength start length = .ok r := by
  have hlast := toNat_last pos ends
  have hle : start.toNat ≤ (start + (length - 1)).toNat := by omega
  exact ⟨⟨start, _, hle⟩, ofLength_eq_ok_iff.mpr ⟨⟨pos, ends⟩, rfl, by dsimp only; omega⟩⟩

/-- A range ends before another begins. -/
def Before (r s : Range) : Prop := r.last.toNat < s.first.toNat

theorem Before.first_lt (h : r.Before s) : r.first.toNat < s.first.toNat :=
  Nat.lt_of_le_of_lt r.first_le_last h

theorem Before.last_lt (h : r.Before s) : r.last.toNat < s.last.toNat :=
  Nat.lt_of_lt_of_le h s.first_le_last

/-- Of a range and one before it, one is out of the way of an address: the former is greater,
or the latter less. -/
theorem Before.compare (h : r.Before s) (address : Word) :
    r.compare address = .lt ∨ s.compare address = .gt := by
  rcases Nat.lt_or_ge r.last.toNat address.toNat with hlt | hge
  · exact .inl (compare_eq_lt_iff.mpr hlt)
  · exact .inr (compare_eq_gt (Nat.lt_of_le_of_lt hge h))

/-- A range before another has no address in common with it. -/
theorem Before.not_contains (h : r.Before s) :
    ¬(r.contains address = true ∧ s.contains address = true) := by
  rw [contains_iff, contains_iff]
  unfold Before at h
  omega

/-- Of two ranges that do not overlap, the one that begins first is before the other. -/
theorem before_of_not_overlaps (h : ¬r.overlaps s = true) (le : r.first.toNat ≤ s.first.toNat) :
    r.Before s := by
  have hs := s.first_le_last
  simp only [overlaps, decide_eq_true_iff] at h
  unfold Before
  omega

end Range

/-! ## Searching by halving -/

/-- Of `n` candidates, a condition holds of the first `p` and of no other. -/
structure Divides (below : Nat → Bool) (n p : Nat) : Prop where
  le : p ≤ n
  before : ∀ i < p, below i = true
  after : ∀ i, p ≤ i → i < n → below i = false

/-- A search that has found out where the condition ends but for `size` candidates. -/
theorem divides_of_search {below : Nat → Bool} {n : Nat}
    (initial : ∀ i j, i ≤ j → j < n → below j = true → below i = true) :
    ∀ fuel lo size, size ≤ fuel → lo + size ≤ n → (∀ i < lo, below i = true) →
      (∀ i, lo + size ≤ i → i < n → below i = false) →
      Divides below n (partitionPoint below fuel lo size) := by
  intro fuel
  induction fuel with
  | zero =>
      intro lo size enough le before after
      rw [partitionPoint]
      exact ⟨by omega, before, fun i hi => after i (by omega)⟩
  | succ fuel ih =>
      intro lo size enough le before after
      rw [partitionPoint]
      split
      case isTrue hsize => exact ⟨by omega, before, fun i hi => after i (by omega)⟩
      case isFalse hsize =>
        split
        case isTrue hmiddle =>
          refine ih _ _ (by omega) (by omega) (fun i hi => ?_) fun i hi => after i (by omega)
          exact initial i _ (by omega) (by omega) hmiddle
        case isFalse hmiddle =>
          refine ih _ _ (by omega) (by omega) before fun i hi hn => ?_
          rw [← Bool.not_eq_true]
          exact fun h => hmiddle (initial _ i hi hn h)

theorem partitionPoint_divides {below : Nat → Bool} {n : Nat}
    (initial : ∀ i j, i ≤ j → j < n → below j = true → below i = true) :
    Divides below n (partitionPoint below n 0 n) :=
  divides_of_search initial n 0 n (Nat.le_refl n) (by omega) (by omega) (by omega)

/-- A search ends among the candidates or after them, whatever the condition. -/
theorem partitionPoint_le (below : Nat → Bool) (fuel lo size : Nat) :
    partitionPoint below fuel lo size ≤ lo + size := by
  induction fuel generalizing lo size with
  | zero => exact Nat.le_add_right lo size
  | succ fuel ih =>
      rw [partitionPoint]
      split
      · exact Nat.le_add_right lo size
      · split
        · have := ih (lo + size / 2 + 1) (size - size / 2 - 1)
          omega
        · have := ih lo (size / 2)
          omega

/-- A search for the end of a condition that holds of all candidates ends after them. -/
theorem partitionPoint_of_all {below : Nat → Bool} {fuel lo size : Nat} (enough : size ≤ fuel)
    (all : ∀ i < lo + size, below i = true) : partitionPoint below fuel lo size = lo + size := by
  obtain ⟨hle, -, hafter⟩ := divides_of_search (n := lo + size)
    (fun i j hij hj _ => all i (Nat.lt_of_le_of_lt hij hj)) fuel lo size enough (Nat.le_refl _)
    (fun i hi => all i (by omega)) (fun i hi hn => absurd hn (Nat.not_lt.mpr hi))
  refine Nat.le_antisymm hle (Nat.le_of_not_lt fun hlt => ?_)
  have hnot := hafter _ (Nat.le_refl _) hlt
  rw [all _ hlt] at hnot
  cases hnot

/-- What a search finds is equal to what was sought. -/
theorem eq_of_search {compare : Nat → Ordering} {fuel lo size i : Nat}
    (found : search compare fuel lo size = some i) : compare i = .eq := by
  induction fuel generalizing lo size with
  | zero => cases found
  | succ fuel ih =>
      rw [search] at found
      split at found
      · cases found
      · split at found
        · exact ih found
        · cases found
          assumption
        · exact ih found

/-- Of two candidates, the first is less or the last is greater.  So at most one is equal, and
this is the first that is not less. -/
theorem search_eq_partitionPoint {compare : Nat → Ordering} {n : Nat}
    (ascending : ∀ i j, i < j → j < n → compare i = .lt ∨ compare j = .gt) :
    ∀ fuel lo size, size ≤ fuel → lo + size ≤ n →
      search compare fuel lo size =
        let p := partitionPoint (compare · == .lt) fuel lo size
        if p < lo + size ∧ compare p = .eq then some p else none := by
  intro fuel
  induction fuel with
  | zero =>
      intro lo size enough le
      rw [search, partitionPoint]
      exact (if_neg (by omega)).symm
  | succ fuel ih =>
      intro lo size enough le
      rw [search, partitionPoint]
      split
      case isTrue hsize => exact (if_neg (by omega)).symm
      case isFalse hsize =>
        cases hmiddle : compare (lo + size / 2) with
        | lt =>
            have hends : lo + size / 2 + 1 + (size - size / 2 - 1) = lo + size := by omega
            have hrest := ih (lo + size / 2 + 1) (size - size / 2 - 1) (by omega) (by omega)
            rw [hends] at hrest
            exact hrest
        | gt =>
            simp only [beq_iff_eq, reduceCtorEq, if_false]
            refine (ih lo (size / 2) (by omega) (by omega)).trans
              (if_congr (and_congr_left fun hp => ?_) rfl rfl)
            -- The middle is greater, so the search does not end there.
            have hne : partitionPoint (compare · == .lt) fuel lo (size / 2) ≠ lo + size / 2 := by
              intro heq
              rw [heq, hmiddle] at hp
              cases hp
            have hle := partitionPoint_le (compare · == .lt) fuel lo (size / 2)
            omega
        | eq =>
            -- All before the middle is less, so that the middle is the first that is not.
            have hless : ∀ i < lo + size / 2, compare i = .lt := fun i hi =>
              (ascending i _ hi (by omega)).resolve_right (by rw [hmiddle]; nofun)
            have hp : partitionPoint (compare · == .lt) fuel lo (size / 2) = lo + size / 2 :=
              partitionPoint_of_all (by omega) fun i hi => by rw [hless i hi]; rfl
            simp only [beq_iff_eq, reduceCtorEq, if_false, hp]
            exact (if_pos ⟨by omega, hmiddle⟩).symm

/-! ## Entries -/

namespace Map

variable {α : Type} {m m' : Map α} {range : Range} {value : α} {address : Word} {i : Nat}

theorem rangeAt_iff {p : Range → Bool} :
    m.rangeAt i p = true ↔ ∃ e, m.entries[i]? = some e ∧ p e.1 = true := by
  unfold rangeAt
  cases m.entries[i]? with
  | none => simp
  | some e => simp

theorem mem_toList {e : Range × α} : e ∈ m.toList ↔ ∃ i : Nat, m.entries[i]? = some e := by
  rw [toList, List.mem_iff_getElem?]
  simp only [Array.getElem?_toList]

/-- A range is placed among the entries, or after the last. -/
theorem place_le (m : Map α) (start : Word) : m.place start ≤ m.entries.size :=
  Nat.le_trans (partitionPoint_le _ _ 0 _) (Nat.le_of_eq (Nat.zero_add _))

/-- Every entry ends before the next begins. -/
def Ordered (m : Map α) : Prop := m.toList.Pairwise fun a b => a.1.Before b.1

theorem ordered_iff :
    m.Ordered ↔ ∀ (i j : Nat) a b, i < j → m.entries[i]? = some a → m.entries[j]? = some b →
      a.1.Before b.1 := by
  unfold Ordered
  rw [List.pairwise_iff_getElem]
  constructor
  · intro h i j a b hij ha hb
    obtain ⟨hi, rfl⟩ := Array.getElem?_eq_some_iff.mp ha
    obtain ⟨hj, rfl⟩ := Array.getElem?_eq_some_iff.mp hb
    exact h i j hi hj hij
  · intro h i j hi hj hij
    exact h i j _ _ hij (Array.getElem?_eq_getElem hi) (Array.getElem?_eq_getElem hj)

theorem ordered_empty : (empty : Map α).Ordered := List.Pairwise.nil

/-- A condition on a range holds of an initial stretch of the entries if it holds of every
range before one of which it holds. -/
theorem Ordered.divides (h : m.Ordered) {p : Range → Bool}
    (initial : ∀ r s : Range, r.Before s → p s = true → p r = true) :
    Divides (fun i => m.rangeAt i p) m.size
      (partitionPoint (fun i => m.rangeAt i p) m.size 0 m.size) := by
  refine partitionPoint_divides fun i j hij hj hb => ?_
  obtain ⟨b, hb, hp⟩ := rangeAt_iff.mp hb
  rcases Nat.lt_or_eq_of_le hij with hlt | rfl
  · have hi : i < m.entries.size := Nat.lt_trans hlt hj
    have ha := Array.getElem?_eq_getElem hi
    exact rangeAt_iff.mpr ⟨_, ha, initial _ _ (ordered_iff.mp h i j _ b hlt ha hb) hp⟩
  · exact rangeAt_iff.mpr ⟨b, hb, hp⟩

/-! ## Inserting a range -/

/-- Entries begin below a range before its place, and not from its place on. -/
theorem Ordered.place_divides (h : m.Ordered) (start : Word) :
    Divides (fun i => m.rangeAt i fun r => decide (r.first.toNat < start.toNat)) m.size
      (m.place start) := by
  refine h.divides fun r s before hs => ?_
  simp only [decide_eq_true_iff] at hs ⊢
  exact Nat.lt_trans before.first_lt hs

theorem Ordered.first_lt (h : m.Ordered) {start : Word} {e : Range × α}
    (he : m.entries[i]? = some e) (hi : i < m.place start) : e.1.first.toNat < start.toNat := by
  obtain ⟨e', he', hlt⟩ := rangeAt_iff.mp ((h.place_divides start).before i hi)
  rw [he] at he'
  cases he'
  exact of_decide_eq_true hlt

theorem Ordered.le_first (h : m.Ordered) {start : Word} {e : Range × α}
    (he : m.entries[i]? = some e) (hi : m.place start ≤ i) : start.toNat ≤ e.1.first.toNat := by
  have hsize : i < m.size := (Array.getElem?_eq_some_iff.mp he).1
  have hafter := (h.place_divides start).after i hi hsize
  rw [← Bool.not_eq_true, rangeAt_iff] at hafter
  rw [← Nat.not_lt]
  exact fun hlt => hafter ⟨e, he, decide_eq_true hlt⟩

/-- An entry that a range overlaps is next to its place, or another one there overlaps the
range too. -/
theorem Ordered.overlaps_neighbour (h : m.Ordered) {e : Range × α} (he : e ∈ m.toList)
    (overlaps : e.1.overlaps range = true) :
    (0 < m.place range.first ∧ m.rangeAt (m.place range.first - 1) (·.overlaps range) = true) ∨
      m.rangeAt (m.place range.first) (·.overlaps range) = true := by
  obtain ⟨k, hk⟩ := mem_toList.mp he
  have hmeet := overlaps
  simp only [Range.overlaps, decide_eq_true_iff] at hmeet
  rcases Nat.lt_or_ge k (m.place range.first) with hlt | hge
  · -- The entry before the place begins below the range and does not end before `e` does.
    refine .inl ⟨by omega, rangeAt_iff.mpr ?_⟩
    rcases Nat.lt_or_eq_of_le (Nat.le_sub_one_of_lt hlt) with hbefore | rfl
    · have hsize : m.place range.first - 1 < m.entries.size := by
        have := m.place_le range.first
        omega
      have hprevious := Array.getElem?_eq_getElem hsize
      have horder := ordered_iff.mp h k _ e _ hbefore hk hprevious
      have hfirst : m.entries[m.place range.first - 1].1.first.toNat < range.first.toNat :=
        h.first_lt hprevious (by omega)
      have hlast := m.entries[m.place range.first - 1].1.first_le_last
      refine ⟨_, hprevious, ?_⟩
      unfold Range.Before at horder
      simp only [Range.overlaps, decide_eq_true_iff]
      omega
    · exact ⟨e, hk, overlaps⟩
  · -- The entry at the place does not begin below the range, nor after `e` does.
    refine .inr (rangeAt_iff.mpr ?_)
    rcases Nat.lt_or_eq_of_le hge with hafter | heq
    · have hsize : m.place range.first < m.entries.size :=
        Nat.lt_trans hafter (Array.getElem?_eq_some_iff.mp hk).1
      have hnext := Array.getElem?_eq_getElem hsize
      have horder := ordered_iff.mp h _ k _ e hafter hnext hk
      have hfirst := h.le_first hnext (Nat.le_refl _)
      have hlast := m.entries[m.place range.first].1.first_le_last
      refine ⟨_, hnext, ?_⟩
      unfold Range.Before at horder
      simp only [Range.overlaps, decide_eq_true_iff]
      omega
    · rw [heq]
      exact ⟨e, hk, overlaps⟩

/-- Whether a range is refused is looked up before the map is changed. -/
theorem insert_error {e : Overlap} (refused : (m.insert range value).1 = .error e) :
    e = ⟨range⟩ ∧ (m.insert range value).2 = m := by
  simp only [insert] at refused ⊢
  split at refused
  case isTrue hmeet =>
    cases refused
    exact ⟨rfl, congrArg Prod.snd (if_pos hmeet)⟩
  case isFalse => cases refused

/-- A range is refused if it overlaps an entry, and if it overlaps none it is not. -/
theorem Ordered.insert_error_iff (h : m.Ordered) :
    (m.insert range value).1 = .error ⟨range⟩ ↔ ∃ e ∈ m.toList, e.1.overlaps range = true := by
  have hneighbour {k : Nat} (hk : m.rangeAt k (·.overlaps range) = true) :
      ∃ e ∈ m.toList, e.1.overlaps range = true := by
    obtain ⟨e, he, hmeet⟩ := rangeAt_iff.mp hk
    exact ⟨e, mem_toList.mpr ⟨k, he⟩, hmeet⟩
  simp only [insert]
  constructor
  · intro refused
    split at refused
    case isTrue hmeet => exact hmeet.elim (fun hbefore => hneighbour hbefore.2) hneighbour
    case isFalse => cases refused
  · rintro ⟨e, he, hmeet⟩
    rw [if_pos (h.overlaps_neighbour he hmeet)]

/-- What a range that was not refused has become: an entry at its place. -/
theorem entries_insert (inserted : m.insert range value = (.ok (), m')) :
    m'.entries = m.entries.insertIdx (m.place range.first) (range, value)
      (m.place_le range.first) := by
  simp only [insert] at inserted
  split at inserted
  · cases inserted
  · cases inserted
    simp only [Array.insertIdxIfInBounds, dif_pos (m.place_le range.first)]

/-- Inserting adds an entry, and leaves the others. -/
theorem perm_insert (inserted : m.insert range value = (.ok (), m')) :
    m'.toList.Perm ((range, value) :: m.toList) := by
  rw [toList, entries_insert inserted, Array.toList_insertIdx]
  exact List.perm_insertIdx _ _ (m.place_le range.first)

theorem Ordered.not_overlaps (h : m.Ordered) (inserted : m.insert range value = (.ok (), m'))
    {e : Range × α} (he : m.entries[i]? = some e) : ¬e.1.overlaps range = true := by
  intro hmeet
  have refused : (m.insert range value).1 = .error ⟨range⟩ :=
    h.insert_error_iff.mpr ⟨e, mem_toList.mpr ⟨i, he⟩, hmeet⟩
  rw [inserted] at refused
  cases refused

theorem Ordered.insert (h : m.Ordered) (inserted : m.insert range value = (.ok (), m')) :
    m'.Ordered := by
  have before {k : Nat} {e : Range × α} (he : m.entries[k]? = some e)
      (hk : k < m.place range.first) : e.1.Before range :=
    Range.before_of_not_overlaps (h.not_overlaps inserted he) (Nat.le_of_lt (h.first_lt he hk))
  have after {k : Nat} {e : Range × α} (he : m.entries[k]? = some e)
      (hk : m.place range.first ≤ k) : range.Before e.1 := by
    refine Range.before_of_not_overlaps (fun hmeet => h.not_overlaps inserted he ?_)
      (h.le_first he hk)
    rw [Range.overlaps_iff] at hmeet ⊢
    exact hmeet.imp fun _ => And.symm
  rw [ordered_iff, entries_insert inserted]
  intro i j a b hij ha hb
  rw [Array.getElem?_insertIdx] at ha hb
  -- Each of the two entries was there before the place, is the new one, or was there after it.
  split at ha
  case isTrue hi =>
    split at hb
    case isTrue hj => exact ordered_iff.mp h i j a b hij ha hb
    case isFalse hj =>
      split at hb
      case isTrue hplace =>
        rw [if_pos (by have := m.place_le range.first; omega)] at hb
        cases hb
        exact before ha hi
      case isFalse hplace => exact ordered_iff.mp h i (j - 1) a b (by omega) ha hb
  case isFalse hi =>
    rw [if_neg (by omega), if_neg (by omega)] at hb
    split at ha
    case isTrue hplace =>
      rw [if_pos (by have := m.place_le range.first; omega)] at ha
      cases ha
      exact after hb (by omega)
    case isFalse hplace => exact ordered_iff.mp h (i - 1) (j - 1) a b (by omega) ha hb

/-! ## Looking an address up -/

theorem compareAt_eq_iff :
    m.compareAt address i = .eq ↔ ∃ e, m.entries[i]? = some e ∧ e.1.contains address = true := by
  unfold compareAt
  cases m.entries[i]? with
  | none => simp
  | some e => simp [Range.compare_eq_iff]

/-- An entry is less than an address above its end. -/
theorem compareAt_eq_lt (m : Map α) (address : Word) (i : Nat) :
    (m.compareAt address i == .lt) =
      m.rangeAt i fun r => decide (r.last.toNat < address.toNat) := by
  unfold compareAt rangeAt
  cases m.entries[i]? with
  | none => rfl
  | some e =>
      rw [Bool.eq_iff_iff]
      simp only [beq_iff_eq, decide_eq_true_iff, Range.compare_eq_lt_iff]

/-- What is found is an entry. -/
theorem find?_entry (found : m.find? address = some i) :
    ∃ e, m.entries[i]? = some e ∧ e.1.contains address = true :=
  compareAt_eq_iff.mp (eq_of_search found)

/-- The search for an address ends at the first entry that does not end below it. -/
theorem Ordered.find?_eq (h : m.Ordered) (address : Word) :
    m.find? address =
      let p := partitionPoint
        (fun i => m.rangeAt i fun r => decide (r.last.toNat < address.toNat)) m.size 0 m.size
      if m.rangeAt p (·.contains address) then some p else none := by
  have ascending : ∀ i j, i < j → j < m.size →
      m.compareAt address i = .lt ∨ m.compareAt address j = .gt := by
    intro i j hij hj
    have ha := Array.getElem?_eq_getElem (Nat.lt_trans hij hj)
    have hb := Array.getElem?_eq_getElem hj
    simp only [compareAt, ha, hb]
    exact (ordered_iff.mp h i j _ _ hij ha hb).compare address
  rw [find?, search_eq_partitionPoint ascending m.size 0 m.size (Nat.le_refl _) (by omega)]
  simp only [compareAt_eq_lt, compareAt_eq_iff, rangeAt_iff, Nat.zero_add]
  refine if_congr (and_iff_right_of_imp ?_) rfl rfl
  rintro ⟨e, he, -⟩
  exact (Array.getElem?_eq_some_iff.mp he).1

/-- No address is in two entries. -/
theorem Ordered.unique (h : m.Ordered) {j : Nat} {a b : Range × α} (ha : m.entries[i]? = some a)
    (hb : m.entries[j]? = some b) (hcontains : a.1.contains address = true)
    (hcontains' : b.1.contains address = true) : i = j := by
  rcases Nat.lt_trichotomy i j with hlt | heq | hgt
  · exact absurd ⟨hcontains, hcontains'⟩ (ordered_iff.mp h i j a b hlt ha hb).not_contains
  · exact heq
  · exact absurd ⟨hcontains', hcontains⟩ (ordered_iff.mp h j i b a hgt hb ha).not_contains

theorem Ordered.find?_eq_some_iff (h : m.Ordered) :
    m.find? address = some i ↔ ∃ e, m.entries[i]? = some e ∧ e.1.contains address = true := by
  refine ⟨find?_entry, ?_⟩
  rintro ⟨e, he, hcontains⟩
  obtain ⟨hle, hbefore, hafter⟩ := h.divides (p := fun r => decide (r.last.toNat < address.toNat))
    fun r s before hs => by
      simp only [decide_eq_true_iff] at hs ⊢
      exact Nat.lt_trans before.last_lt hs
  have hsize : i < m.size := (Array.getElem?_eq_some_iff.mp he).1
  have hends := Range.contains_iff.mp hcontains
  rw [h.find?_eq]
  -- The search ends at `i`: before `i` entries end below the address, and `i` itself does not.
  generalize partitionPoint _ m.size 0 m.size = p at hle hbefore hafter ⊢
  dsimp only
  have hp : p = i := by
    rcases Nat.lt_trichotomy p i with hlt | heq | hgt
    · have hentry := m.entries.getElem?_eq_getElem (Nat.lt_trans hlt hsize)
      have horder := ordered_iff.mp h p i _ e hlt hentry he
      have hnot := hafter p (Nat.le_refl p) (Nat.lt_trans hlt hsize)
      rw [← Bool.not_eq_true, rangeAt_iff] at hnot
      refine absurd ⟨_, hentry, decide_eq_true ?_⟩ hnot
      unfold Range.Before at horder
      omega
    · exact heq
    · obtain ⟨e', he', hlt⟩ := rangeAt_iff.mp (hbefore i hgt)
      rw [he] at he'
      cases he'
      have := of_decide_eq_true hlt
      omega
  rw [hp, if_pos (rangeAt_iff.mpr ⟨e, he, hcontains⟩)]

/-- Looking an address up gives the entry that has it. -/
theorem Ordered.get?_eq_some_iff (h : m.Ordered) {e : Range × α} :
    m.get? address = some e ↔ e ∈ m.toList ∧ e.1.contains address = true := by
  rw [get?, Option.bind_eq_some_iff, mem_toList]
  constructor
  · rintro ⟨i, found, he⟩
    obtain ⟨e', he', hcontains⟩ := find?_entry found
    rw [he] at he'
    cases he'
    exact ⟨⟨i, he⟩, hcontains⟩
  · rintro ⟨⟨i, he⟩, hcontains⟩
    exact ⟨i, h.find?_eq_some_iff.mpr ⟨e, he, hcontains⟩, he⟩

/-- Looking an address up is scanning the entries for it. -/
theorem Ordered.get?_eq_find? (h : m.Ordered) (address : Word) :
    m.get? address = m.toList.find? (·.1.contains address) := by
  cases hscan : m.toList.find? (·.1.contains address) with
  | some e =>
      have hcontains := List.find?_some hscan
      exact h.get?_eq_some_iff.mpr ⟨List.mem_of_find?_eq_some hscan, hcontains⟩
  | none =>
      cases hget : m.get? address with
      | none => rfl
      | some e =>
          obtain ⟨he, hcontains⟩ := h.get?_eq_some_iff.mp hget
          exact absurd hcontains (List.find?_eq_none.mp hscan e he)

/-! ## Replacing a value -/

/-- Replacing the value at an address changes the entry that has the address. -/
theorem Ordered.toList_update (h : m.Ordered) (address : Word) (value : α) :
    (m.update address value).toList =
      m.toList.map fun e => if e.1.contains address then (e.1, value) else e := by
  refine List.ext_getElem? fun j => ?_
  rw [toList, toList, List.getElem?_map, Array.getElem?_toList, Array.getElem?_toList, update]
  cases hfind : m.find? address with
  | none =>
      cases he : m.entries[j]? with
      | none => rfl
      | some e =>
          have hnot : ¬e.1.contains address = true := fun hcontains => by
            rw [h.find?_eq_some_iff.mpr ⟨e, he, hcontains⟩] at hfind
            cases hfind
          simp only [Option.map_some, if_neg hnot]
  | some i =>
      obtain ⟨found, hfound, hcontains⟩ := find?_entry hfind
      dsimp only
      rw [Array.getElem?_modify]
      cases he : m.entries[j]? with
      | none => simp only [Option.map_none, ite_self]
      | some e =>
          by_cases hij : i = j
          · subst hij
            rw [hfound] at he
            cases he
            simp only [if_true, Option.map_some, hcontains]
          · have hnot : ¬e.1.contains address = true :=
              fun hcontains' => hij (h.unique hfound he hcontains hcontains')
            simp only [if_neg hij, Option.map_some, if_neg hnot]

/-- Values play no part in the order. -/
theorem Ordered.update (h : m.Ordered) (address : Word) (value : α) :
    (m.update address value).Ordered := by
  rw [Ordered, h.toList_update, List.pairwise_map]
  refine h.imp fun {a b} before => ?_
  have hrange (e : Range × α) :
      (if e.1.contains address then (e.1, value) else e).1 = e.1 := by split <;> rfl
  rw [hrange, hrange]
  exact before

end Map

/-! ## Whatever was put into a map -/

/-- What is done with a map. -/
inductive MapAction (α : Type) where
  | insert (range : Range) (value : α)
  /-- The value at an address is replaced. -/
  | update (address : Word) (value : α)

namespace Map

variable {α : Type} {m : Map α}

/-- The map after an action. -/
def act (m : Map α) : MapAction α → Map α
  | .insert range value => (m.insert range value).2
  | .update address value => m.update address value

theorem Ordered.act (h : m.Ordered) (a : MapAction α) : (m.act a).Ordered := by
  cases a with
  | insert range value =>
      rw [Map.act]
      cases hinsert : (m.insert range value).1 with
      | error e =>
          rw [(insert_error hinsert).2]
          exact h
      | ok _ => exact h.insert (Prod.ext hinsert rfl)
  | update address value => exact h.update address value

theorem Ordered.run (h : m.Ordered) (actions : List (MapAction α)) :
    (actions.foldl Map.act m).Ordered := by
  induction actions generalizing m with
  | nil => exact h
  | cons a rest ih => exact ih (h.act a)

/-- What makes a map a finite map on ranges that have no address in common. -/
structure Lawful (m : Map α) : Prop where
  ascending : m.toList.Pairwise fun a b => a.1.first.toNat < b.1.first.toNat
  disjoint : m.toList.Pairwise fun a b =>
    ∀ address, ¬(a.1.contains address = true ∧ b.1.contains address = true)
  /-- A range is refused if it has an address in common with any entry. -/
  refused_iff : ∀ range value, (∃ e, (m.insert range value).1 = .error e) ↔
    ∃ e ∈ m.toList, ∃ address, e.1.contains address = true ∧ range.contains address = true
  refused : ∀ range value e, (m.insert range value).1 = .error e →
    e = ⟨range⟩ ∧ (m.insert range value).2 = m
  inserted : ∀ range value, (m.insert range value).1 = .ok () →
    (m.insert range value).2.toList.Perm ((range, value) :: m.toList)
  updated : ∀ address value, (m.update address value).toList =
    m.toList.map fun e => if e.1.contains address then (e.1, value) else e
  /-- An address is in one entry at most, and this is found. -/
  found_iff : ∀ address e, m.get? address = some e ↔
    e ∈ m.toList ∧ e.1.contains address = true ∧
      ∀ e' ∈ m.toList, e'.1.contains address = true → e' = e
  absent_iff : ∀ address, m.get? address = none ↔
    ∀ e ∈ m.toList, ¬e.1.contains address = true
  scanned : ∀ address, m.get? address = m.toList.find? (·.1.contains address)

theorem Ordered.lawful (h : m.Ordered) : m.Lawful where
  ascending := h.imp Range.Before.first_lt
  disjoint := h.imp fun before _ => before.not_contains
  refused_iff range value := by
    have herror : (m.insert range value).1 = .error ⟨range⟩ ↔ _ := h.insert_error_iff
    simp only [← Range.overlaps_iff]
    rw [← herror]
    refine ⟨fun ⟨e, he⟩ => ?_, fun he => ⟨_, he⟩⟩
    rw [he, (insert_error he).1]
  refused _ _ _ := insert_error
  inserted range value hok := perm_insert (Prod.ext hok rfl)
  updated := h.toList_update
  found_iff address e := by
    rw [h.get?_eq_some_iff]
    refine ⟨fun ⟨he, hcontains⟩ => ⟨he, hcontains, fun e' he' hcontains' => ?_⟩,
      fun ⟨he, hcontains, _⟩ => ⟨he, hcontains⟩⟩
    obtain ⟨i, hi⟩ := mem_toList.mp he
    obtain ⟨j, hj⟩ := mem_toList.mp he'
    have heq := h.unique hj hi hcontains' hcontains
    rw [heq, hi] at hj
    exact (Option.some.inj hj).symm
  absent_iff address := by
    rw [h.get?_eq_find?, List.find?_eq_none]
  scanned := h.get?_eq_find?

/-- A map is lawful, whatever ranges and values were put into it. -/
theorem run_lawful (actions : List (MapAction α)) :
    ((actions.foldl act empty : Map α)).Lawful :=
  (ordered_empty.run actions).lawful

/-- A range may touch an entry, but not reach into it. -/
example :
    let actions : List (MapAction Nat) :=
      [.insert ⟨0x1000, 0x1FFF, by decide⟩ 0, .insert ⟨0x1FFF, 0x2FFF, by decide⟩ 1,
        .insert ⟨0x2000, 0xFFFFFFFF, by decide⟩ 2]
    let m := actions.foldl act empty
    (m.get? 0x1FFF).map (·.2) = some 0 ∧ (m.get? 0x2000).map (·.2) = some 2 ∧
      (m.get? 0xFFFFFFFF).map (·.2) = some 2 := by decide +kernel

end Map
end Rv32.Address
