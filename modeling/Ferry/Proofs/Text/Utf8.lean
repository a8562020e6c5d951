import Ferry.Text.Utf8

/-!
# Text and its bytes

The bytes of a text are read as the text that they came from (`Utf8.read_write`). Each character is taken from the
front of the bytes, by the length of its sequence: the first byte tells how many follow and what the second may be, and
that no sequence is longer than it has to be is what the bounds on the second byte are for.
-/

set_option autoImplicit false

namespace Ferry

namespace Utf8

variable {b c d e low high : UInt8} {rest : List UInt8}

theorem within_iff : within low high b = true ↔ low.toNat ≤ b.toNat ∧ b.toNat ≤ high.toNat := by
  simp [within, UInt8.le_iff_toNat_le]

/-- A byte that may follow the first one of a sequence. -/
def Follows (b : UInt8) : Prop :=
  0x80 ≤ b.toNat ∧ b.toNat ≤ 0xBF

theorem continues_of_follows (h : Follows b) : continues b = true :=
  within_iff.mpr h

/-! ## The front of the bytes -/

theorem front_one (one : b.toNat < 0x80) : front b rest = (Char.ofNat b.toNat, 0) := by
  have small : b < 0x80 := UInt8.lt_iff_toNat_lt.mpr one
  rw [front, if_pos small]

theorem not_small (long : 0x80 ≤ b.toNat) : ¬ b < 0x80 := by
  intro small
  have := UInt8.lt_iff_toNat_lt.mp small
  change b.toNat < 0x80 at this
  omega

theorem front_two (first : 0xC2 ≤ b.toNat ∧ b.toNat ≤ 0xDF) (second : Follows c) :
    front b (c :: rest) = (Char.ofNat (64 * (b.toNat % 32) + low6 c), 1) := by
  have lead : lead? b = some (0x80, 0xBF, 0) := by
    have inside : within 0xC2 0xDF b = true := within_iff.mpr first
    rw [lead?, if_pos inside]
  have long := not_small (b := b) (by omega)
  have tail : within 0x80 0xBF c = true := within_iff.mpr second
  simp [front, if_neg long, lead, tail]

theorem lead?_three (first : 0xE0 ≤ b.toNat ∧ b.toNat ≤ 0xEF) :
    ∃ low high, lead? b = some (low, high, 1) ∧ ∀ c : UInt8, Follows c →
      (b.toNat = 0xE0 → 0xA0 ≤ c.toNat) → (b.toNat = 0xED → c.toNat ≤ 0x9F) → within low high c = true := by
  have two : ¬ within 0xC2 0xDF b = true := by
    intro inside
    have := (within_iff.mp inside).2
    change b.toNat ≤ 0xDF at this
    omega
  rw [lead?, if_neg two]
  by_cases e0 : b = 0xE0
  · rw [if_pos e0]
    refine ⟨_, _, rfl, fun c follows lower _ => within_iff.mpr ⟨lower ?_, follows.2⟩⟩
    rw [e0]
    rfl
  · rw [if_neg e0]
    by_cases ed : b = 0xED
    · rw [if_pos ed]
      refine ⟨_, _, rfl, fun c follows _ upper => within_iff.mpr ⟨follows.1, upper ?_⟩⟩
      rw [ed]
      rfl
    · have other : b.toNat ≠ 0xE0 := fun same => e0 (UInt8.toNat_inj.mp same)
      have inside : within 0xE1 0xEF b = true := within_iff.mpr ⟨by change 0xE1 ≤ b.toNat; omega, first.2⟩
      rw [if_neg ed, if_pos inside]
      exact ⟨_, _, rfl, fun c follows _ _ => within_iff.mpr follows⟩

theorem front_three (first : 0xE0 ≤ b.toNat ∧ b.toNat ≤ 0xEF) (second : Follows c) (third : Follows d)
    (shortest : b.toNat = 0xE0 → 0xA0 ≤ c.toNat) (scalar : b.toNat = 0xED → c.toNat ≤ 0x9F) :
    front b (c :: d :: rest) = (Char.ofNat (64 * (64 * (b.toNat % 16) + low6 c) + low6 d), 2) := by
  obtain ⟨low, high, lead, inside⟩ := lead?_three first
  have long := not_small (b := b) (by omega)
  have tail := continues_of_follows third
  simp [front, if_neg long, lead, inside c second shortest scalar, tail]

theorem lead?_four (first : 0xF0 ≤ b.toNat ∧ b.toNat ≤ 0xF4) :
    ∃ low high, lead? b = some (low, high, 2) ∧ ∀ c : UInt8, Follows c →
      (b.toNat = 0xF0 → 0x90 ≤ c.toNat) → (b.toNat = 0xF4 → c.toNat ≤ 0x8F) → within low high c = true := by
  have outside : ∀ low high : UInt8, high.toNat < 0xF0 → ¬ within low high b = true := by
    intro low high below inside
    have := (within_iff.mp inside).2
    omega
  have differs : ∀ k : UInt8, k.toNat < 0xF0 → b ≠ k := by
    rintro k below rfl
    omega
  rw [lead?, if_neg (outside _ _ (by decide)), if_neg (differs _ (by decide)), if_neg (differs _ (by decide)),
    if_neg (outside _ _ (by decide))]
  by_cases f0 : b = 0xF0
  · rw [if_pos f0]
    refine ⟨_, _, rfl, fun c follows lower _ => within_iff.mpr ⟨lower ?_, follows.2⟩⟩
    rw [f0]
    rfl
  · rw [if_neg f0]
    have other : b.toNat ≠ 0xF0 := fun same => f0 (UInt8.toNat_inj.mp same)
    by_cases f4 : b = 0xF4
    · have beyond : ¬ within 0xF1 0xF3 b = true := by
        rw [f4]
        decide
      rw [if_neg beyond, if_pos f4]
      refine ⟨_, _, rfl, fun c follows _ upper => within_iff.mpr ⟨follows.1, upper ?_⟩⟩
      rw [f4]
      rfl
    · have last : b.toNat ≠ 0xF4 := fun same => f4 (UInt8.toNat_inj.mp same)
      have inside : within 0xF1 0xF3 b = true :=
        within_iff.mpr ⟨by change 0xF1 ≤ b.toNat; omega, by change b.toNat ≤ 0xF3; omega⟩
      rw [if_pos inside]
      exact ⟨_, _, rfl, fun c follows _ _ => within_iff.mpr follows⟩

theorem front_four (first : 0xF0 ≤ b.toNat ∧ b.toNat ≤ 0xF4) (second : Follows c) (third : Follows d)
    (fourth : Follows e) (shortest : b.toNat = 0xF0 → 0x90 ≤ c.toNat) (scalar : b.toNat = 0xF4 → c.toNat ≤ 0x8F) :
    front b (c :: d :: e :: rest) =
      (Char.ofNat (64 * (64 * (64 * (b.toNat % 8) + low6 c) + low6 d) + low6 e), 3) := by
  obtain ⟨low, high, lead, inside⟩ := lead?_four first
  have long := not_small (b := b) (by omega)
  have tail := continues_of_follows third
  have last := continues_of_follows fourth
  simp [front, if_neg long, lead, inside c second shortest scalar, tail, last]

/-! ## One character -/

/-- A byte with a low part and a mark above it. -/
theorem toNat_marked (n mark : Nat) (fits : n + mark < 256) : (UInt8.ofNat (n + mark)).toNat = n + mark := by
  rw [UInt8.toNat_ofNat']
  exact Nat.mod_eq_of_lt fits

theorem follows_ofNat (n : Nat) : Follows (UInt8.ofNat (n % 64 + 0x80)) := by
  have value := toNat_marked (n % 64) 0x80 (by omega)
  rw [Follows, value]
  omega

theorem low6_ofNat (n : Nat) : low6 (UInt8.ofNat (n % 64 + 0x80)) = n % 64 := by
  have value := toNat_marked (n % 64) 0x80 (by omega)
  rw [low6, value]
  omega

/-- The code of a character is below the surrogates or above them. -/
theorem code_valid (c : Char) : c.val.toNat < 0xD800 ∨ 0xDFFF < c.val.toNat ∧ c.val.toNat < 0x110000 :=
  c.valid

theorem ofNat_code (c : Char) {n : Nat} (same : n = c.val.toNat) : Char.ofNat n = c := by
  rw [same]
  exact Char.ofNat_toNat c

/-- The bytes of a character are not empty, and whatever comes behind them, the character is what is in front. -/
theorem front_encode (c : Char) : ∃ first tail, String.utf8EncodeChar c = first :: tail ∧
    ∀ rest, front first (tail ++ rest) = (c, tail.length) := by
  have valid := code_valid c
  unfold String.utf8EncodeChar
  generalize code : c.val.toNat = v at valid
  by_cases one : v ≤ 0x7F
  · rw [if_pos one]
    refine ⟨_, _, rfl, fun rest => ?_⟩
    have value : (UInt8.ofNat v).toNat = v := toNat_marked v 0 (by omega)
    rw [List.nil_append, front_one (by omega), value, ofNat_code c code.symm]
    rfl
  · rw [if_neg one]
    by_cases two : v ≤ 0x7FF
    · rw [if_pos two]
      refine ⟨_, _, rfl, fun rest => ?_⟩
      have value := toNat_marked (v / 64 % 0x20) 0xC0 (by omega)
      rw [List.cons_append, List.nil_append, front_two (by omega) (follows_ofNat v), low6_ofNat, value,
        ofNat_code c (by omega)]
      rfl
    · rw [if_neg two]
      by_cases three : v ≤ 0xFFFF
      · rw [if_pos three]
        refine ⟨_, _, rfl, fun rest => ?_⟩
        have value := toNat_marked (v / 4096 % 0x10) 0xE0 (by omega)
        have second := toNat_marked (v / 64 % 0x40) 0x80 (by omega)
        rw [List.cons_append, List.cons_append, List.nil_append,
          front_three (by omega) (follows_ofNat (v / 64)) (follows_ofNat v) (by omega) (by omega), low6_ofNat,
          low6_ofNat, value, ofNat_code c (by omega)]
        rfl
      · rw [if_neg three]
        refine ⟨_, _, rfl, fun rest => ?_⟩
        have value := toNat_marked (v / 262144 % 0x08) 0xF0 (by omega)
        have second := toNat_marked (v / 4096 % 0x40) 0x80 (by omega)
        rw [List.cons_append, List.cons_append, List.cons_append, List.nil_append,
          front_four (by omega) (follows_ofNat (v / 4096)) (follows_ofNat (v / 64)) (follows_ofNat v) (by omega)
            (by omega), low6_ofNat, low6_ofNat, low6_ofNat, value, ofNat_code c (by omega)]
        rfl

theorem chars_encode (c : Char) (rest : List UInt8) :
    chars (String.utf8EncodeChar c ++ rest) = c :: chars rest := by
  obtain ⟨first, tail, bytes, front⟩ := front_encode c
  rw [bytes, List.cons_append, chars]
  simp only [front rest, List.drop_left]

theorem chars_encodeAll (characters : List Char) :
    chars (characters.flatMap String.utf8EncodeChar) = characters := by
  induction characters with
  | nil => rw [List.flatMap_nil, chars]
  | cons c rest ih => rw [List.flatMap_cons, chars_encode, ih]

/-! ## Whole texts -/

theorem toList_eq_data (bytes : ByteArray) : bytes.toList = bytes.data.toList := by
  have loop : ∀ i found, ByteArray.toList.loop bytes i found = found.reverse ++ bytes.data.toList.drop i := by
    intro i found
    fun_induction ByteArray.toList.loop bytes i found with
    | case1 i found inside ih =>
        have bound : i < bytes.data.toList.length := by simpa using inside
        rw [ih, List.drop_eq_getElem_cons bound]
        simp [ByteArray.get!, inside]
    | case2 i found outside =>
        rw [List.drop_eq_nil_of_le (by simpa using Nat.le_of_not_lt outside)]
        simp
  rw [ByteArray.toList, loop]
  rfl

theorem write_eq (s : String) : write s = s.toList.flatMap String.utf8EncodeChar := by
  rw [write, String.toUTF8_eq_toByteArray, ← String.utf8Encode_toList, toList_eq_data, List.utf8Encode,
    List.toList_data_toByteArray]

theorem read_write (s : String) : read (write s) = s := by
  rw [read, write_eq, chars_encodeAll, String.ofList_toList]

/-- Only the character zero has a byte of zero. -/
theorem encode_ne_zero {c : Char} (other : c ≠ '\x00') : ∀ byte ∈ String.utf8EncodeChar c, byte ≠ 0 := by
  have positive : c.val.toNat ≠ 0 := by
    intro zero
    exact other (Char.ext (UInt32.toNat_inj.mp zero))
  have marked : ∀ n mark, 0 < n + mark → n + mark < 256 → UInt8.ofNat (n + mark) ≠ 0 := by
    intro n mark above below zero
    have value := toNat_marked n mark below
    rw [zero] at value
    change 0 = n + mark at value
    omega
  intro byte listed
  unfold String.utf8EncodeChar at listed
  generalize c.val.toNat = v at positive listed
  by_cases one : v ≤ 0x7F
  · rw [if_pos one] at listed
    rw [List.mem_singleton.mp listed]
    exact marked v 0 (by omega) (by omega)
  · rw [if_neg one] at listed
    by_cases two : v ≤ 0x7FF
    · rw [if_pos two] at listed
      simp only [List.mem_cons, List.not_mem_nil, or_false] at listed
      rcases listed with rfl | rfl <;> exact marked _ _ (by omega) (by omega)
    · rw [if_neg two] at listed
      by_cases three : v ≤ 0xFFFF
      · rw [if_pos three] at listed
        simp only [List.mem_cons, List.not_mem_nil, or_false] at listed
        rcases listed with rfl | rfl | rfl <;> exact marked _ _ (by omega) (by omega)
      · rw [if_neg three] at listed
        simp only [List.mem_cons, List.not_mem_nil, or_false] at listed
        rcases listed with rfl | rfl | rfl | rfl <;> exact marked _ _ (by omega) (by omega)

theorem write_ne_zero {s : String} (text : s.toList.contains '\x00' = false) : ∀ byte ∈ write s, byte ≠ 0 := by
  intro byte listed
  rw [write_eq, List.mem_flatMap] at listed
  obtain ⟨c, hc, listed⟩ := listed
  refine encode_ne_zero ?_ byte listed
  rintro rfl
  rw [List.contains_eq_mem, decide_eq_false_iff_not] at text
  exact text hc

end Utf8

end Ferry
