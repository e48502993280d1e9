/-
# `Rv32.Proofs.Command.Numeral` — what is a numeral, and which number it is

A character is a digit of some value (`IsDigit`), a text that consists of digits is read by their
positional value (`Spells`), and an address is such a text behind its prefix, once the underscores
are out of it (`Reads`).  None of this mentions how numerals are read; `address_exact` says that
reading one finds just this.

The loop compares with the limit at every digit, although only the number as a whole has to stay
below it.  That is the same because a number never gets smaller by a digit: leading zeros keep it
where it is, and once it is too large it stays so.
-/
import Mathlib.Data.List.Forall2
import Mathlib.Data.Nat.Digits.Defs
import Mathlib.Tactic.Ring
import Rv32.Command.Numeral
import Rv32.Text.Hex

namespace Rv32.Numeral

/-! ## Digits -/

/-- A digit as it is written, or as its capital. -/
def EitherCase (c digit : Char) : Prop := c = digit ∨ c = digit.toUpper

/-- The character `c` is a digit in some base, and `d` is its value. -/
def IsDigit (base : Nat) (c : Char) (d : Nat) : Prop :=
  d < base ∧ EitherCase c (Nat.digitChar d)

/-- Characters in a row are placed by their distance from the first of them. -/
theorem eq_ofNat_add {first c : Char} (above : first ≤ c) :
    c = Char.ofNat (first.toNat + (c.toNat - first.toNat)) := by
  have order : first.toNat ≤ c.toNat := above
  rw [Nat.add_sub_cancel' order, Char.ofNat_toNat]

theorem isDigit_of_digit? {base : Nat} (small : base ≤ 16) {c : Char} {d : Nat}
    (digit : digit? base c = some d) : IsDigit base c d := by
  have figure : ∀ n < 10, Char.ofNat ('0'.toNat + n) = Nat.digitChar n := by decide
  have letter : ∀ n < 6, Char.ofNat ('a'.toNat + n) = Nat.digitChar (n + 10) := by decide
  have capital : ∀ n < 6, Char.ofNat ('A'.toNat + n) = (Nat.digitChar (n + 10)).toUpper := by
    decide
  obtain ⟨value, below⟩ := Option.filter_eq_some_iff.mp digit
  have below : d < base := of_decide_eq_true below
  refine ⟨below, ?_⟩
  split at value
  case isTrue between =>
    have last : c.toNat ≤ '9'.toNat := between.2
    injection value with value
    left
    rw [eq_ofNat_add between.1, figure _ (Nat.lt_succ_of_le (Nat.sub_le_of_le_add last)), value]
  case isFalse =>
    split at value
    case isTrue between =>
      injection value with value
      left
      rw [eq_ofNat_add between.1, letter _ (by omega), value]
    case isFalse =>
      split at value
      case isTrue between =>
        injection value with value
        right
        rw [eq_ofNat_add between.1, capital _ (by omega), value]
      case isFalse => nomatch value

theorem digit?_of_isDigit {base : Nat} (small : base ≤ 16) {c : Char} {d : Nat}
    (digit : IsDigit base c d) : digit? base c = some d := by
  have written : ∀ n < 16, digit? 16 (Nat.digitChar n) = some n := by decide
  have capital : ∀ n < 16, digit? 16 (Nat.digitChar n).toUpper = some n := by decide
  obtain ⟨below, shape⟩ := digit
  have hex : digit? 16 c = some d := by
    obtain rfl | rfl := shape
    · exact written d (by omega)
    · exact capital d (by omega)
  obtain ⟨value, -⟩ := Option.filter_eq_some_iff.mp hex
  exact Option.filter_eq_some_iff.mpr ⟨value, decide_eq_true below⟩

theorem not_isDigit_plus {base : Nat} (small : base ≤ 16) (d : Nat) : ¬ IsDigit base '+' d := by
  intro digit
  nomatch (digit?_of_isDigit small digit)

/-! ## Numerals -/

/-- The text is a numeral of `n`: digits, at least one of them, behind at most one plus sign. -/
def Spells (base : Nat) (text : List Char) (n : Nat) : Prop :=
  ∃ cs ds, (text = cs ∨ text = '+' :: cs) ∧ cs ≠ [] ∧
    List.Forall₂ (IsDigit base) cs ds ∧ n = Nat.ofDigits base ds.reverse

/-- What is read in front of digits counts once for each place they fill. -/
theorem ofDigits_push {base value d : Nat} {ds : List Nat} :
    value * base ^ (ds.length + 1) + Nat.ofDigits base (d :: ds).reverse =
      (value * base + d) * base ^ ds.length + Nat.ofDigits base ds.reverse := by
  rw [Nat.ofDigits_reverse_cons, pow_succ]
  ring

theorem digits_eq_ok_iff {base limit : Nat} (small : base ≤ 16) {cs : List Char} {value n : Nat}
    (below : value < limit) :
    digits base limit value cs = .ok n ↔ n < limit ∧
      ∃ ds, List.Forall₂ (IsDigit base) cs ds ∧
        n = value * base ^ ds.length + Nat.ofDigits base ds.reverse := by
  induction cs generalizing value with
  | nil =>
    simp only [digits, List.forall₂_nil_left_iff]
    constructor
    · rintro ⟨⟩
      exact ⟨below, [], rfl, by simp⟩
    · rintro ⟨-, ds, rfl, total⟩
      rw [total]
      simp
  | cons c rest ih =>
    simp only [digits]
    constructor
    · intro read
      cases digit : digit? base c with
      | none =>
        rw [digit] at read
        nomatch read
      | some d =>
        simp only [digit] at read
        split at read
        case isFalse => nomatch read
        case isTrue fits =>
          obtain ⟨inside, ds, spelled, total⟩ := (ih fits).mp read
          have digit := isDigit_of_digit? small digit
          exact ⟨inside, d :: ds, .cons digit spelled, total.trans ofDigits_push.symm⟩
    · rintro ⟨inside, ds, spelled, total⟩
      cases spelled with
      | @cons _ d _ ds digit spelled =>
        have total := total.trans ofDigits_push
        have positive : 0 < base := Nat.zero_lt_of_lt digit.1
        -- The number is no smaller than what its first digits make.
        have fits : value * base + d < limit :=
          calc value * base + d
              ≤ (value * base + d) * base ^ ds.length :=
                Nat.le_mul_of_pos_right _ (Nat.pow_pos positive)
            _ ≤ n := total ▸ Nat.le_add_right _ _
            _ < limit := inside
        rw [digit?_of_isDigit small digit]
        simp only [if_pos fits]
        exact (ih fits).mpr ⟨inside, ds, spelled, total⟩

theorem digits_zero_eq_ok_iff {base limit : Nat} (small : base ≤ 16) (positive : 0 < limit)
    {cs : List Char} {n : Nat} :
    digits base limit 0 cs = .ok n ↔ n < limit ∧
      ∃ ds, List.Forall₂ (IsDigit base) cs ds ∧ n = Nat.ofDigits base ds.reverse := by
  simpa only [Nat.zero_mul, Nat.zero_add] using digits_eq_ok_iff small positive

theorem natural_eq_ok_iff {base limit : Nat} (small : base ≤ 16) (positive : 0 < limit)
    {text : List Char} {n : Nat} :
    natural base limit text = .ok n ↔ n < limit ∧ Spells base text n := by
  fun_cases natural base limit text
  case case1 =>
    refine ⟨nofun, ?_⟩
    rintro ⟨-, cs, ds, rfl | signed, some, -⟩
    · exact absurd rfl some
    · nomatch signed
  case case2 c rest =>
    rw [digits_zero_eq_ok_iff small positive]
    refine and_congr_right fun _ => ?_
    constructor
    · rintro ⟨ds, spelled, total⟩
      exact ⟨c :: rest, ds, .inr rfl, List.cons_ne_nil c rest, spelled, total⟩
    · rintro ⟨cs, ds, rfl | signed, -, spelled, total⟩
      · cases spelled with
        | cons digit _ => exact absurd digit (not_isDigit_plus small _)
      · injection signed with _ rest
        exact ⟨ds, rest ▸ spelled, total⟩
  case case3 some unsigned =>
    rw [digits_zero_eq_ok_iff small positive]
    refine and_congr_right fun _ => ?_
    constructor
    · rintro ⟨ds, spelled, total⟩
      exact ⟨text, ds, .inl rfl, some, spelled, total⟩
    · rintro ⟨cs, ds, rfl | rfl, any, spelled, total⟩
      · exact ⟨ds, spelled, total⟩
      · obtain ⟨c, rest, rfl⟩ := List.exists_cons_of_ne_nil any
        exact absurd rfl (unsigned c rest)

/-! ## Addresses -/

/-- The prefix of numerals in base sixteen. -/
def hexPrefix : List Char := "0x".toList

/-- The text is an address, and `n` is the number it gives.  Its prefix has to be written as it
is; what is behind that may have underscores in it. -/
def Reads (text : List Char) (n : Nat) : Prop :=
  (∃ rest, text = hexPrefix ++ rest ∧ Spells 16 (rest.filter (· ≠ '_')) n) ∨
    ¬ hexPrefix <+: text ∧ Spells 10 (text.filter (· ≠ '_')) n

theorem reads_hex {rest : List Char} {n : Nat} :
    Reads ('0' :: 'x' :: rest) n ↔ Spells 16 (rest.filter (· ≠ '_')) n := by
  constructor
  · rintro (⟨behind, same, spelled⟩ | ⟨plain, -⟩)
    · cases same
      exact spelled
    · exact absurd (List.prefix_append hexPrefix rest) plain
  · exact fun spelled => .inl ⟨rest, rfl, spelled⟩

theorem reads_plain {text : List Char} (plain : ∀ rest, text ≠ '0' :: 'x' :: rest) {n : Nat} :
    Reads text n ↔ Spells 10 (text.filter (· ≠ '_')) n := by
  constructor
  · rintro (⟨rest, same, -⟩ | ⟨-, spelled⟩)
    · exact absurd same (plain rest)
    · exact spelled
  · exact fun spelled => .inr ⟨fun ⟨rest, same⟩ => plain rest same.symm, spelled⟩

theorem map_natural_eq_ok_iff {base : Nat} (small : base ≤ 16) {text : List Char} {w : Word} :
    (natural base 0x100000000 text).map (BitVec.ofNat 32) = .ok w ↔ Spells base text w.toNat := by
  constructor
  · intro read
    cases number : natural base 0x100000000 text with
    | error e =>
      rw [number] at read
      nomatch read
    | ok n =>
      rw [number] at read
      injection read with same
      obtain ⟨inside, spelled⟩ := (natural_eq_ok_iff small (by decide)).mp number
      rwa [← same, BitVec.toNat_ofNat, Nat.mod_eq_of_lt inside]
  · intro spelled
    rw [(natural_eq_ok_iff small (by decide)).mpr ⟨w.isLt, spelled⟩]
    exact congrArg Except.ok (by rw [BitVec.ofNat_toNat, BitVec.setWidth_eq])

theorem address_eq_ok_iff {text : List Char} {w : Word} :
    address text = .ok w ↔ Reads text w.toNat := by
  simp only [address]
  split
  case h_1 rest => rw [reads_hex, map_natural_eq_ok_iff (by decide)]
  case h_2 plain => rw [reads_plain plain, map_natural_eq_ok_iff (by decide)]

theorem address_eq_error_iff {text : List Char} :
    (∃ e, address text = .error e) ↔ ∀ n, Reads text n → 2 ^ 32 ≤ n := by
  constructor
  · rintro ⟨e, failed⟩ n spelled
    by_contra inside
    have read : address text = .ok (BitVec.ofNat 32 n) := by
      rwa [address_eq_ok_iff, BitVec.toNat_ofNat, Nat.mod_eq_of_lt (Nat.lt_of_not_le inside)]
    nomatch failed.symm.trans read
  · intro large
    cases read : address text with
    | error e => exact ⟨e, rfl⟩
    | ok w => exact absurd (large _ (address_eq_ok_iff.mp read)) (Nat.not_le_of_lt w.isLt)

/-! ## Written numbers -/

/-- A number as it is written in a base is made of digits of that base. -/
theorem toDigits_eq_map {base : Nat} (many : 1 < base) (n : Nat) :
    ∃ ds : List Nat, Nat.toDigits base n = ds.map Nat.digitChar ∧ (∀ d ∈ ds, d < base) ∧
      n = Nat.ofDigits base ds.reverse := by
  induction n using Nat.strongRecOn with
  | _ n ih =>
    by_cases single : n < base
    · refine ⟨[n], Nat.toDigits_of_lt_base single, ?_, Nat.ofDigits_singleton.symm⟩
      intro d only
      rwa [List.mem_singleton.mp only]
    · have positive : 0 < base := Nat.zero_lt_of_lt many
      have large : base ≤ n := Nat.le_of_not_lt single
      have less : n / base < n := Nat.div_lt_self (Nat.lt_of_lt_of_le positive large) many
      obtain ⟨ds, written, below, total⟩ := ih (n / base) less
      refine ⟨ds ++ [n % base], ?_, ?_, ?_⟩
      · rw [Nat.toDigits_of_base_le many large, written, List.map_append, List.map_singleton]
      · intro d member
        obtain member | last := List.mem_append.mp member
        · exact below d member
        · rw [List.mem_singleton.mp last]
          exact Nat.mod_lt n positive
      · rw [List.reverse_append, List.reverse_singleton, List.singleton_append,
          Nat.ofDigits_cons, ← total]
        exact (Nat.mod_add_div n base).symm

/-- Zeros may be written in front of a number, and capitals for its letters. -/
theorem spells_toDigits {base : Nat} (many : 1 < base) (zeros : Nat) {n : Nat} {text : List Char}
    (written : List.Forall₂ EitherCase text (List.replicate zeros '0' ++ Nat.toDigits base n)) :
    Spells base text n := by
  obtain ⟨ds, shape, below, total⟩ := toDigits_eq_map many n
  have padded : List.replicate zeros '0' ++ Nat.toDigits base n =
      (List.replicate zeros 0 ++ ds).map Nat.digitChar := by
    rw [shape, List.map_append, List.map_replicate]
    rfl
  refine ⟨text, List.replicate zeros 0 ++ ds, .inl rfl, ?_, ?_, ?_⟩
  · rintro rfl
    have empty := List.append_eq_nil_iff.mp (List.forall₂_nil_left_iff.mp written)
    exact absurd empty.2 Nat.toDigits_ne_nil
  · rw [padded, List.forall₂_map_right_iff] at written
    refine ((List.forall₂_and_left _ _).mpr ⟨?_, written.flip⟩).flip
    intro d member
    obtain zero | member := List.mem_append.mp member
    · rw [List.eq_of_mem_replicate zero]
      exact Nat.zero_lt_of_lt many
    · exact below d member
  · rw [List.reverse_append, List.reverse_replicate, Nat.ofDigits_append_replicate_zero, ← total]

/-- Underscores cannot make a prefix of a number in base ten. -/
theorem plain_of_toDigits {text : List Char} {n : Nat}
    (written : text.filter (· ≠ '_') = Nat.toDigits 10 n) (rest : List Char) :
    text ≠ '0' :: 'x' :: rest := by
  rintro rfl
  have member : 'x' ∈ Nat.toDigits 10 n := by
    rw [← written]
    exact List.mem_cons_of_mem _ List.mem_cons_self
  have digit := Nat.isDigit_of_mem_toDigits (by decide) (by decide) member
  exact absurd digit (by decide)

theorem address_of_toString {text : List Char} {w : Word}
    (written : text.filter (· ≠ '_') = (toString w.toNat).toList) : address text = .ok w := by
  rw [Nat.toString_eq_ofList_toDigits, String.toList_ofList] at written
  rw [address_eq_ok_iff, reads_plain (plain_of_toDigits written), written]
  exact spells_toDigits (by decide) 0 (List.forall₂_same.mpr fun _ _ => .inl rfl)

theorem address_of_hexDigits {rest : List Char} {w : Word} {width : Nat}
    (written : List.Forall₂ EitherCase (rest.filter (· ≠ '_')) (hexDigits width w.toNat).toList) :
    address (hexPrefix ++ rest) = .ok w := by
  rw [hexDigits, String.toList_ofList] at written
  exact address_eq_ok_iff.mpr (reads_hex.mpr (spells_toDigits (by decide) _ written))

/-- An address is taken exactly if it is a numeral, by the rules of its prefix, of a number that
fits in a word, and it is taken for that number.  So every word is read as it was written, in base
ten or, with small or capital letters and however many zeros, in base sixteen, wherever there are
underscores behind the prefix. -/
theorem address_exact (text : List Char) :
    (∀ w : Word, address text = .ok w ↔ Reads text w.toNat) ∧
    ((∃ e, address text = .error e) ↔ ∀ n, Reads text n → 2 ^ 32 ≤ n) ∧
    (∀ w : Word, text.filter (· ≠ '_') = (toString w.toNat).toList → address text = .ok w) ∧
    ∀ (w : Word) (width : Nat) (rest : List Char), text = hexPrefix ++ rest →
      List.Forall₂ EitherCase (rest.filter (· ≠ '_')) (hexDigits width w.toNat).toList →
      address text = .ok w := by
  refine ⟨fun w => address_eq_ok_iff, address_eq_error_iff, fun w => address_of_toString, ?_⟩
  rintro w width rest rfl written
  exact address_of_hexDigits written

theorem address_exact_of_grouped :
    address "4_294_967_295".toList = .ok 0xFFFFFFFF ∧ address "0x_0bE_".toList = .ok 0xBE := by
  constructor
  · exact (address_exact _).2.2.1 0xFFFFFFFF (by decide)
  · exact (address_exact _).2.2.2 0xBE 3 "_0bE_".toList (by decide)
      (.cons (.inl rfl) (.cons (.inl rfl) (.cons (.inr rfl) .nil)))

example : address "4_294_967_296".toList = .error .tooLarge := by decide

end Rv32.Numeral
