import NamedLambda.Text.Utf8

/-!
This module contains the correctness of the decoder: it accepts exactly the octets that some text is
encoded as, and gives that text back.
-/

namespace NamedLambda.Text

/--
The octets that go on a character with this number. Each has six bits of it, the highest ones first.
-/
def continuation (number : Nat) : Nat → List UInt8
  | 0 => []
  | owed + 1 => UInt8.ofNat (number >>> (6 * owed) % 64 + 0x80) :: continuation number owed

def width (number : Nat) : Nat :=
  if number ≤ 0x7F then 0
  else if number ≤ 0x7FF then 1
  else if number ≤ 0xFFFF then 2
  else 3

def leading (number : Nat) : Nat :=
  if number ≤ 0x7F then number
  else if number ≤ 0x7FF then number >>> 6 + 0xC0
  else if number ≤ 0xFFFF then number >>> 12 + 0xE0
  else number >>> 18 + 0xF0

theorem utf8EncodeChar_eq (c : Char)
    : String.utf8EncodeChar c =
      UInt8.ofNat (leading c.toNat) :: continuation c.toNat (width c.toNat) := by
  have hvalid := c.valid
  simp only [UInt32.isValidChar, Nat.isValidChar] at hvalid
  simp only [String.utf8EncodeChar, leading, width, Char.toNat]
  split
  · rfl
  · split
    · rw [Nat.mod_eq_of_lt (by omega)]
      simp [continuation, Nat.shiftRight_eq_div_pow]
    · split
      · rw [Nat.mod_eq_of_lt (by omega)]
        simp [continuation, Nat.shiftRight_eq_div_pow]
      · rw [Nat.mod_eq_of_lt (by omega)]
        simp [continuation, Nat.shiftRight_eq_div_pow]

theorem width_leading (number : Nat)
    : number ≤ 0x7F ∧ width number = 0 ∧ leading number = number ∨
      0x80 ≤ number ∧ number ≤ 0x7FF ∧ width number = 1 ∧ leading number = number >>> 6 + 0xC0 ∨
      0x800 ≤ number ∧ number ≤ 0xFFFF ∧ width number = 2 ∧
        leading number = number >>> 12 + 0xE0 ∨
      0x10000 ≤ number ∧ width number = 3 ∧ leading number = number >>> 18 + 0xF0 := by
  by_cases h1 : number ≤ 0x7F
  · simp [width, leading, h1]
  · by_cases h2 : number ≤ 0x7FF
    · simp [width, leading, h1, h2]
      omega
    · by_cases h3 : number ≤ 0xFFFF
      · simp [width, leading, h1, h2, h3]
        omega
      · simp [width, leading, h1, h2, h3]
        omega

theorem toNat_six_bits (number : Nat)
    : (UInt8.ofNat (number % 64 + 0x80)).toNat = number % 64 + 0x80 := by
  rw [UInt8.toNat_ofNat', Nat.mod_eq_of_lt (by omega)]

namespace PartialChar

/--
The octets so far are those of a character with this number, and the next one of it is in range.
-/
structure Reaches (char : PartialChar) (number : Nat) : Prop where
  bits_eq : number >>> (6 * char.owed) = char.bits
  low_le : char.low.toNat ≤ number >>> (6 * (char.owed - 1)) % 64 + 0x80
  le_high : number >>> (6 * (char.owed - 1)) % 64 + 0x80 ≤ char.high.toNat

/--
Octets are still owed, and the next one is one that goes on a character.
-/
structure Open (char : PartialChar) : Prop where
  owed_pos : 0 < char.owed
  le_low : 0x80 ≤ char.low.toNat
  high_lt : char.high.toNat < 0xC0

theorem reaches_iff (char : PartialChar) (number : Nat)
    : char.Reaches number ↔ number >>> (6 * char.owed) = char.bits ∧
        char.low.toNat ≤ number >>> (6 * (char.owed - 1)) % 64 + 0x80 ∧
        number >>> (6 * (char.owed - 1)) % 64 + 0x80 ≤ char.high.toNat :=
  ⟨fun h => ⟨h.bits_eq, h.low_le, h.le_high⟩, fun h => ⟨h.1, h.2.1, h.2.2⟩⟩

theorem Reaches.range {char : PartialChar} {number : Nat} (h : char.Reaches number)
    : char.low ≤ UInt8.ofNat (number >>> (6 * (char.owed - 1)) % 64 + 0x80) ∧
      UInt8.ofNat (number >>> (6 * (char.owed - 1)) % 64 + 0x80) ≤ char.high := by
  rw [UInt8.le_iff_toNat_le, UInt8.le_iff_toNat_le, toNat_six_bits]
  exact ⟨h.low_le, h.le_high⟩

theorem Open.push {char : PartialChar} (octet : UInt8) (h : 1 < char.owed)
    : (char.push octet).Open where
  owed_pos := Nat.sub_pos_of_lt h
  le_low := by simp [PartialChar.push]
  high_lt := by simp [PartialChar.push]

theorem reaches_push_iff {char : PartialChar} (hopen : char.Open) {octet : UInt8}
    (hlow : char.low ≤ octet) (hhigh : octet ≤ char.high) (number : Nat)
    : (char.push octet).Reaches number ↔
      char.Reaches number ∧ octet = UInt8.ofNat (number >>> (6 * (char.owed - 1)) % 64 + 0x80) := by
  rw [UInt8.le_iff_toNat_le] at hlow hhigh
  have hpos := hopen.owed_pos
  have hle := hopen.le_low
  have hlt := hopen.high_lt
  have hdiv : number >>> (6 * char.owed) = number >>> (6 * (char.owed - 1)) / 64 := by
    have howed : 6 * char.owed = 6 * (char.owed - 1) + 6 := by omega
    rw [howed, Nat.shiftRight_add, Nat.shiftRight_eq_div_pow _ 6]
  have hoctet : octet = UInt8.ofNat (number >>> (6 * (char.owed - 1)) % 64 + 0x80) ↔
      octet.toNat = number >>> (6 * (char.owed - 1)) % 64 + 0x80 := by
    rw [← UInt8.toNat_inj, toNat_six_bits]
  rw [hoctet]
  constructor
  · intro h
    have hbits := h.bits_eq
    simp only [push] at hbits
    refine ⟨⟨?_, ?_, ?_⟩, ?_⟩
    all_goals omega
  · intro h
    rcases h with ⟨⟨hbits, _, _⟩, hoctet⟩
    refine ⟨?_, ?_, ?_⟩
    · simp only [push]
      omega
    · simp [push]
    · simp only [push, UInt8.reduceToNat]
      omega

theorem reaches_push_last_iff {char : PartialChar} (h : char.owed = 1) (octet : UInt8) (number : Nat)
    : (char.push octet).Reaches number ↔ number = (char.push octet).bits := by
  have howed : (char.push octet).owed = 0 := by
    simp [push, h]
  constructor
  · intro hreaches
    simpa [howed] using hreaches.bits_eq
  · intro hnumber
    refine ⟨?_, ?_, ?_⟩
    · rw [howed, hnumber]
      simp
    · simp [push]
    · simp only [push, UInt8.reduceToNat]
      omega

end PartialChar

theorem map_cons_eq_ok_iff {ε : Type} (result : Except ε (List Char)) (c : Char) (text : List Char)
    : result.map (c :: ·) = .ok text ↔ ∃ more, text = c :: more ∧ result = .ok more := by
  cases result with
  | error error => simp [Except.map]
  | ok more => simp [Except.map, eq_comm]

theorem decodeFrom_some_eq_ok_iff {char : PartialChar} (hopen : char.Open) (offset : Nat)
    (octets : List UInt8) (text : List Char)
    : decodeFrom offset (some char) octets = .ok text ↔
      ∃ number rest more, char.Reaches number ∧ octets = continuation number char.owed ++ rest ∧
        text = Char.ofNat number :: more ∧
        decodeFrom (offset + char.owed) none rest = .ok more := by
  induction howed : char.owed generalizing char offset octets with
  | zero => exact absurd howed (Nat.ne_of_gt hopen.owed_pos)
  | succ owed ih =>
    cases octets with
    | nil => simp [decodeFrom, continuation]
    | cons octet rest =>
      by_cases hrange : char.low ≤ octet ∧ octet ≤ char.high
      · have hpush := PartialChar.reaches_push_iff hopen hrange.1 hrange.2
        have hless : (char.push octet).owed = owed := by
          simp [PartialChar.push, howed]
        have hafter : decodeFrom offset (some char) (octet :: rest) = .ok text ↔
            ∃ number tail more, (char.push octet).Reaches number ∧
              rest = continuation number owed ++ tail ∧ text = Char.ofNat number :: more ∧
              decodeFrom (offset + 1 + owed) none tail = .ok more := by
          cases owed with
          | zero =>
            simp only [decodeFrom, hrange, decide_true, Bool.and_true, if_true, hless,
              map_cons_eq_ok_iff, PartialChar.reaches_push_last_iff howed, continuation,
              List.nil_append]
            simp
          | succ owed =>
            have hpushed := PartialChar.Open.push octet (by omega : 1 < char.owed)
            simp only [decodeFrom, hrange, decide_true, Bool.and_true, if_true, hless]
            exact ih hpushed (offset + 1) rest hless
        rw [hafter]
        simp only [hpush, howed, Nat.add_sub_cancel, continuation, List.cons_append,
          List.cons.injEq, Nat.add_assoc, Nat.add_comm 1 owed, and_assoc]
      · rw [decodeFrom, if_neg (by simpa using hrange)]
        simp only [reduceCtorEq, false_iff]
        intro h
        rcases h with ⟨number, tail, more, hreaches, hoctets, _⟩
        rw [continuation, List.cons_append, List.cons.injEq] at hoctets
        have hnext := hreaches.range
        rw [howed, Nat.add_sub_cancel, ← hoctets.1] at hnext
        exact hrange hnext

namespace PartialChar

theorem open_start? {offset : Nat} {octet : UInt8} {char : PartialChar}
    (h : start? offset octet = some char) : char.Open := by
  unfold start? at h
  repeat' split at h
  all_goals
    simp only [Option.some.injEq, reduceCtorEq] at h
  all_goals
    rw [← h]
    exact ⟨by simp, by simp, by simp⟩

-- The numbers that are reached from a leading octet are those of its range that are no surrogates.
theorem start?_reaches_iff (offset : Nat) {octet : UInt8} (h : 0x80 ≤ octet.toNat) (number owed : Nat)
    : (∃ char, start? offset octet = some char ∧ char.Reaches number ∧ char.owed = owed) ↔
      number.isValidChar ∧ octet.toNat = leading number ∧ owed = width number := by
  have hlt := octet.toNat_lt
  have hcases := width_leading number
  unfold start?
  simp only [UInt8.lt_iff_toNat_lt, ← UInt8.toNat_inj, UInt8.reduceToNat, Nat.isValidChar]
  repeat' split
  all_goals
    simp only [reduceCtorEq, false_and, exists_false, false_iff, Option.some.injEq, exists_eq_left',
      reaches_iff, UInt8.reduceToNat, Nat.reduceSub]
    omega

end PartialChar

theorem toNat_ofNat {number : Nat} (h : number.isValidChar) : (Char.ofNat number).toNat = number := by
  unfold Char.ofNat
  rw [dif_pos h]
  rfl

theorem cons_eq_utf8EncodeChar_iff (octet : UInt8) (rest tail : List UInt8) (c : Char)
    : octet :: rest = String.utf8EncodeChar c ++ tail ↔
      octet.toNat = leading c.toNat ∧ rest = continuation c.toNat (width c.toNat) ++ tail := by
  have hvalid : c.toNat.isValidChar := c.valid
  have hcases := width_leading c.toNat
  simp only [Nat.isValidChar] at hvalid
  rw [utf8EncodeChar_eq, List.cons_append, List.cons.injEq, ← UInt8.toNat_inj, UInt8.toNat_ofNat',
    Nat.mod_eq_of_lt (by omega)]

section

variable {offset : Nat} {octet : UInt8} {rest : List UInt8} {text : List Char}

theorem decodeFrom_ascii_eq_ok_iff (h : octet.toNat < 0x80)
    : decodeFrom offset none (octet :: rest) = .ok text ↔
      ∃ c tail more, octet :: rest = String.utf8EncodeChar c ++ tail ∧ text = c :: more ∧
        decodeFrom (offset + 1 + width c.toNat) none tail = .ok more := by
  have hascii : octet < 0x80 := UInt8.lt_iff_toNat_lt.2 h
  rw [decodeFrom, if_pos hascii, map_cons_eq_ok_iff]
  simp only [cons_eq_utf8EncodeChar_iff]
  constructor
  · intro hdecode
    rcases hdecode with ⟨more, htext, hmore⟩
    have hcases := width_leading octet.toNat
    have hwidth : width octet.toNat = 0 := by omega
    refine ⟨Char.ofNat octet.toNat, rest, more, ?_, htext, ?_⟩
    · rw [toNat_ofNat (by simp only [Nat.isValidChar]; omega), hwidth]
      exact ⟨by omega, rfl⟩
    · rwa [toNat_ofNat (by simp only [Nat.isValidChar]; omega), hwidth]
  · intro hencode
    rcases hencode with ⟨c, tail, more, ⟨hleading, hrest⟩, htext, hmore⟩
    have hcases := width_leading c.toNat
    have hwidth : width c.toNat = 0 := by omega
    have hoctet : octet.toNat = c.toNat := by omega
    rw [hwidth] at hrest hmore
    rw [hoctet, Char.ofNat_toNat, hrest]
    exact ⟨more, htext, hmore⟩

theorem decodeFrom_leading_eq_ok_iff (h : 0x80 ≤ octet.toNat)
    : decodeFrom offset none (octet :: rest) = .ok text ↔
      ∃ c tail more, octet :: rest = String.utf8EncodeChar c ++ tail ∧ text = c :: more ∧
        decodeFrom (offset + 1 + width c.toNat) none tail = .ok more := by
  have hascii : ¬octet < 0x80 := by
    rw [UInt8.lt_iff_toNat_lt]
    exact Nat.not_lt.2 h
  simp only [cons_eq_utf8EncodeChar_iff]
  rw [decodeFrom, if_neg hascii]
  constructor
  · intro hdecode
    cases hstart : PartialChar.start? offset octet with
    | none => simp [hstart] at hdecode
    | some char =>
      simp only [hstart] at hdecode
      rw [decodeFrom_some_eq_ok_iff (PartialChar.open_start? hstart)] at hdecode
      rcases hdecode with ⟨number, tail, more, hreaches, hrest, htext, hmore⟩
      rcases (PartialChar.start?_reaches_iff offset h number char.owed).1
        ⟨char, hstart, hreaches, rfl⟩ with ⟨hvalid, hleading, howed⟩
      refine ⟨Char.ofNat number, tail, more, ?_⟩
      rw [toNat_ofNat hvalid, ← howed]
      exact ⟨⟨hleading, hrest⟩, htext, hmore⟩
  · intro hencode
    rcases hencode with ⟨c, tail, more, ⟨hleading, hrest⟩, htext, hmore⟩
    rcases (PartialChar.start?_reaches_iff offset h c.toNat (width c.toNat)).2
      ⟨c.valid, hleading, rfl⟩ with ⟨char, hstart, hreaches, howed⟩
    simp only [hstart]
    rw [decodeFrom_some_eq_ok_iff (PartialChar.open_start? hstart), howed]
    exact ⟨c.toNat, tail, more, hreaches, hrest, by rwa [Char.ofNat_toNat], hmore⟩

end

theorem decodeFrom_eq_ok_iff_cons (offset : Nat) (octets : List UInt8) (text : List Char)
    : decodeFrom offset none octets = .ok text ↔
      octets = [] ∧ text = [] ∨
        ∃ c tail more, octets = String.utf8EncodeChar c ++ tail ∧ text = c :: more ∧
          decodeFrom (offset + 1 + width c.toNat) none tail = .ok more := by
  cases octets with
  | nil =>
    rw [decodeFrom, Except.ok.injEq, eq_comm]
    simp [utf8EncodeChar_eq]
  | cons octet rest =>
    simp only [reduceCtorEq, false_and, false_or]
    by_cases hascii : octet.toNat < 0x80
    · exact decodeFrom_ascii_eq_ok_iff hascii
    · exact decodeFrom_leading_eq_ok_iff (Nat.not_lt.1 hascii)

theorem decodeFrom_eq_ok_iff (offset : Nat) (octets : List UInt8) (text : List Char)
    : decodeFrom offset none octets = .ok text ↔ text.flatMap String.utf8EncodeChar = octets := by
  induction text generalizing offset octets with
  | nil =>
    rw [decodeFrom_eq_ok_iff_cons]
    simp [eq_comm]
  | cons c text ih =>
    rw [decodeFrom_eq_ok_iff_cons, List.flatMap_cons]
    simp only [reduceCtorEq, and_false, false_or, List.cons.injEq]
    constructor
    · intro h
      rcases h with ⟨other, tail, more, hoctets, ⟨hc, hmore⟩, htail⟩
      rw [← hmore, ih] at htail
      rw [hc, htail, hoctets]
    · intro h
      exact ⟨c, _, text, h.symm, ⟨rfl, rfl⟩, (ih _ _).2 rfl⟩

/--
Octets are decoded to a text exactly if that text is encoded as these octets.
-/
theorem decode_eq_ok_iff (octets : List UInt8) (text : List Char)
    : decode octets = .ok text ↔ text.flatMap String.utf8EncodeChar = octets :=
  decodeFrom_eq_ok_iff 0 octets text

end NamedLambda.Text
