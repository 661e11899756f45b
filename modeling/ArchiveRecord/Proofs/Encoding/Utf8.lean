/- # Proofs.Encoding.Utf8 -- what is encoded is decoded again, and nothing else is

The decoder walks through the bytes of one character in steps of one byte: a
lead byte, then continuation bytes, the first of which may lie in a narrower
range. Each step is one lemma; a character is a chain of them, one chain for
each of the four lengths, and a text is a list of characters.

Walked backwards, the same steps show which bytes are decoded at all: the narrower
ranges are those that leave only the shortest form of a character.

Where some characters of a text stand for lone surrogates, these and no others stop
the encoder.

A line feed is one byte and that byte stands in no other character, so bytes may
be cut into lines before they are decoded.
-/
import ArchiveRecord.Encoding.Utf8
import Mathlib.Tactic.SplitIfs

namespace ArchiveRecord.Encoding

/-! ## Results of decoders -/

section Results

variable {α β γ ε δ : Type} {result : Except ε α} {f : α → β} {g : ε → δ}

theorem exists_of_map_eq_ok {b : β} (h : result.map f = .ok b) : ∃ a, result = .ok a ∧ f a = b := by
  cases result with
  | error => cases h
  | ok a => exact ⟨a, rfl, Except.ok.inj h⟩

theorem eq_error_of_map_eq_error {e : ε} (h : result.map f = .error e) : result = .error e := by
  cases result with
  | error => exact congrArg Except.error (Except.error.inj h)
  | ok => cases h

theorem eq_ok_of_mapError_eq_ok {a : α} (h : result.mapError g = .ok a) : result = .ok a := by
  cases result with
  | error => cases h
  | ok => exact congrArg Except.ok (Except.ok.inj h)

theorem exists_of_mapError_eq_error {d : δ} (h : result.mapError g = .error d) :
    ∃ e, result = .error e ∧ g e = d := by
  cases result with
  | error e => exact ⟨e, rfl, Except.error.inj h⟩
  | ok => cases h

theorem map_map (result : Except ε α) (f : α → β) (g : β → γ) :
    (result.map f).map g = result.map fun a => g (f a) := by
  cases result <;> rfl

theorem mapError_map (result : Except ε α) (f : α → β) (g : ε → δ) :
    (result.map f).mapError g = (result.mapError g).map f := by
  cases result <;> rfl

end Results

namespace Utf8

/-! ## Steps of the decoder -/

variable {position : Nat} {rest : List UInt8}

/-- A character is no surrogate and lies below the end of the code space. -/
theorem scalar (c : Char) : c.toNat < 0xD800 ∨ 0xDFFF < c.toNat ∧ c.toNat < 0x110000 := c.valid

theorem toNat_continuationByte (n : Nat) : (continuationByte n).toNat = 0x80 + n % 64 := by
  rw [continuationByte, UInt8.toNat_ofNat_of_lt']
  show 0x80 + n % 64 < 256
  omega

/-- A byte below U+0080 is a character of its own. -/
theorem decodeFrom_single {byte : UInt8} (h : byte.toNat < 0x80) :
    decodeFrom none position (byte :: rest)
      = (decodeFrom none (position + 1) rest).map (Char.ofNat byte.toNat :: ·) := by
  simp [decodeFrom, lead?, h]

/-- A lead byte starts a sequence. -/
theorem decodeFrom_lead {byte : UInt8} {lead : Lead} (h : lead? byte.toNat = some lead)
    (owed : lead.owed ≠ 0) :
    decodeFrom none position (byte :: rest)
      = decodeFrom (some ⟨position, byte, lead.bits, lead.owed, lead.low, lead.high⟩)
          (position + 1) rest := by
  simp [decodeFrom, h, owed]

/-- The last continuation byte ends the sequence with a character. -/
theorem decodeFrom_last {p : Pending} (n : Nat) (owed : p.owed = 1) (low : p.low ≤ 0x80 + n % 64)
    (high : 0x80 + n % 64 ≤ p.high) :
    decodeFrom (some p) position (continuationByte n :: rest)
      = (decodeFrom none (position + 1) rest).map (Char.ofNat (p.code * 64 + n % 64) :: ·) := by
  simp [decodeFrom, toNat_continuationByte, owed, low, high]

/-- A continuation byte that is not the last goes into the code. -/
theorem decodeFrom_more {p : Pending} (n : Nat) (owed : p.owed ≠ 1) (low : p.low ≤ 0x80 + n % 64)
    (high : 0x80 + n % 64 ≤ p.high) :
    decodeFrom (some p) position (continuationByte n :: rest)
      = decodeFrom (some ⟨p.start, p.first, p.code * 64 + n % 64, p.owed - 1, 0x80, 0xBF⟩)
          (position + 1) rest := by
  simp [decodeFrom, toNat_continuationByte, owed, low, high]

/-! ## Lead bytes of the longer forms -/

theorem lead?_two {n : Nat} (low : 0x80 ≤ n) (high : n < 0x800) :
    lead? (UInt8.ofNat (0xC0 + n / 64)).toNat = some ⟨n / 64, 1, 0x80, 0xBF⟩ := by
  have hbyte : (UInt8.ofNat (0xC0 + n / 64)).toNat = 0xC0 + n / 64 :=
    UInt8.toNat_ofNat_of_lt' (show 0xC0 + n / 64 < 256 by omega)
  rw [hbyte, lead?, if_neg (by omega), if_neg (by omega), if_pos (by omega), Nat.add_sub_cancel_left]

theorem lead?_three {n : Nat} (high : n < 0x10000) :
    lead? (UInt8.ofNat (0xE0 + n / 4096)).toNat
      = some ⟨n / 4096, 2, if n / 4096 = 0 then 0xA0 else 0x80,
          if n / 4096 = 0xD then 0x9F else 0xBF⟩ := by
  have hbyte : (UInt8.ofNat (0xE0 + n / 4096)).toNat = 0xE0 + n / 4096 :=
    UInt8.toNat_ofNat_of_lt' (show 0xE0 + n / 4096 < 256 by omega)
  rw [hbyte, lead?, if_neg (by omega), if_neg (by omega), if_neg (by omega), if_pos (by omega),
    Nat.add_sub_cancel_left]
  simp only [Nat.add_eq_left, show (0xE0 + n / 4096 = 0xED) = (n / 4096 = 0xD) by
    rw [eq_iff_iff]; omega]

theorem lead?_four {n : Nat} (high : n < 0x110000) :
    lead? (UInt8.ofNat (0xF0 + n / 262144)).toNat
      = some ⟨n / 262144, 3, if n / 262144 = 0 then 0x90 else 0x80,
          if n / 262144 = 4 then 0x8F else 0xBF⟩ := by
  have hbyte : (UInt8.ofNat (0xF0 + n / 262144)).toNat = 0xF0 + n / 262144 :=
    UInt8.toNat_ofNat_of_lt' (show 0xF0 + n / 262144 < 256 by omega)
  rw [hbyte, lead?, if_neg (by omega), if_neg (by omega), if_neg (by omega), if_neg (by omega),
    if_pos (by omega), Nat.add_sub_cancel_left]
  simp only [Nat.add_eq_left, show (0xF0 + n / 262144 = 0xF4) = (n / 262144 = 4) by
    rw [eq_iff_iff]; omega]

/-! ## Characters and texts -/

/-- **The bytes of a character are read as that character**, wherever they stand. -/
theorem decodeFrom_encodeChar (c : Char) :
    decodeFrom none position (encodeChar c ++ rest)
      = (decodeFrom none (position + (encodeChar c).length) rest).map (c :: ·) := by
  have hscalar := scalar c
  unfold encodeChar
  generalize hn : c.toNat = n at hscalar ⊢
  have hc : Char.ofNat n = c := by rw [← hn, Char.ofNat_toNat]
  by_cases h1 : n < 0x80
  · have hbyte : (UInt8.ofNat n).toNat = n :=
      UInt8.toNat_ofNat_of_lt' (show n < 256 by omega)
    simp only [if_pos h1, List.cons_append, List.nil_append, List.length_singleton]
    rw [decodeFrom_single (by omega), hbyte, hc]
  by_cases h2 : n < 0x800
  · simp only [if_neg h1, if_pos h2, List.cons_append, List.nil_append]
    rw [decodeFrom_lead (lead?_two (by omega) h2) Nat.one_ne_zero,
      decodeFrom_last n rfl (Nat.le_add_right ..) (by show 0x80 + n % 64 ≤ 0xBF; omega),
      show n / 64 * 64 + n % 64 = n by omega, hc]
    rfl
  -- From three bytes on, the range of the first continuation byte depends on the lead byte: it
  -- leaves out longer forms, surrogates and what lies above the code space.
  by_cases h3 : n < 0x10000
  · simp only [if_neg h1, if_neg h2, if_pos h3, List.cons_append, List.nil_append]
    rw [decodeFrom_lead (lead?_three h3) (Nat.succ_ne_zero 1),
      decodeFrom_more (n / 64) (Nat.succ_succ_ne_one 0) (by show ite _ _ _ ≤ _; split <;> omega)
        (by show _ ≤ ite _ _ _; split <;> omega),
      decodeFrom_last n rfl (Nat.le_add_right ..) (by show 0x80 + n % 64 ≤ 0xBF; omega),
      show (n / 4096 * 64 + n / 64 % 64) * 64 + n % 64 = n by omega, hc]
    rfl
  · simp only [if_neg h1, if_neg h2, if_neg h3, List.cons_append, List.nil_append]
    rw [decodeFrom_lead (lead?_four (by omega)) (Nat.succ_ne_zero 2),
      decodeFrom_more (n / 4096) (Nat.succ_succ_ne_one 1) (by show ite _ _ _ ≤ _; split <;> omega)
        (by show _ ≤ ite _ _ _; split <;> omega),
      decodeFrom_more (n / 64) (Nat.succ_succ_ne_one 0) (Nat.le_add_right ..)
        (by show 0x80 + n / 64 % 64 ≤ 0xBF; omega),
      decodeFrom_last n rfl (Nat.le_add_right ..) (by show 0x80 + n % 64 ≤ 0xBF; omega),
      show ((n / 262144 * 64 + n / 4096 % 64) * 64 + n / 64 % 64) * 64 + n % 64 = n by omega, hc]
    rfl

/-- Reading goes over the bytes of a text and on behind them. -/
theorem decodeFrom_encode_append (text : List Char) :
    decodeFrom none position (encode text ++ rest)
      = (decodeFrom none (position + (encode text).length) rest).map (text ++ ·) := by
  induction text generalizing position with
  | nil =>
      show decodeFrom none position rest = (decodeFrom none position rest).map id
      cases decodeFrom none position rest <;> rfl
  | cons c text ih =>
      rw [encode, List.flatMap_cons, List.append_assoc, decodeFrom_encodeChar]
      rw [encode] at ih
      rw [ih, List.length_append, Nat.add_assoc]
      cases decodeFrom none _ rest <;> rfl

/-- **Decoding undoes encoding.** -/
theorem decode_encode (text : List Char) : decode (encode text) = .ok text := by
  have h : decodeFrom none 0 (encode text ++ []) = _ := decodeFrom_encode_append text
  rw [List.append_nil] at h
  rw [decode, h, decodeFrom]
  simp [Except.map]

theorem encodeChar_ne_nil (c : Char) : encodeChar c ≠ [] := by
  unfold encodeChar
  dsimp only
  split_ifs <;> simp

/-! ## Nothing else is decoded -/

/-- A code point that is no surrogate is the number of its character. -/
theorem toNat_ofNat_scalar {n : Nat} (h : n < 0xD800 ∨ 0xDFFF < n ∧ n < 0x110000) :
    (Char.ofNat n).toNat = n := by
  have hvalid : n.isValidChar := h
  rw [Char.ofNat, dif_pos hvalid]
  rfl

theorem ofNat_of_toNat {byte : UInt8} {n : Nat} (h : n = byte.toNat) : UInt8.ofNat n = byte := by
  rw [h, UInt8.ofNat_toNat]

theorem continuationByte_congr {m n : Nat} (h : m % 64 = n % 64) :
    continuationByte m = continuationByte n := by
  rw [continuationByte, continuationByte, h]

/-! The forms of one to four bytes, from their first byte and the bits of the others. -/

section Forms

variable {byte : UInt8} {l m n : Nat}

theorem encodeChar_one (h : byte.toNat < 0x80) : encodeChar (Char.ofNat byte.toNat) = [byte] := by
  rw [encodeChar, toNat_ofNat_scalar (by omega), if_pos h, UInt8.ofNat_toNat]

theorem encodeChar_two (h : 0xC2 ≤ byte.toNat ∧ byte.toNat < 0xE0) (hn : n % 64 = n) :
    encodeChar (Char.ofNat ((byte.toNat - 0xC0) * 64 + n)) = [byte, continuationByte n] := by
  generalize hcode : (byte.toNat - 0xC0) * 64 + n = code
  have hc : (Char.ofNat code).toNat = code := toNat_ofNat_scalar (by omega)
  rw [encodeChar, hc, if_neg (by omega), if_pos (by omega),
    ofNat_of_toNat (show 0xC0 + code / 64 = byte.toNat by omega),
    continuationByte_congr (show code % 64 = n % 64 by omega)]

/-- The range of the second byte leaves out what two bytes can hold, and the surrogates. -/
theorem encodeChar_three (h : 0xE0 ≤ byte.toNat ∧ byte.toNat < 0xF0) (hm : m % 64 = m)
    (hn : n % 64 = n) (hlow : (if byte.toNat = 0xE0 then 0xA0 else 0x80) ≤ 0x80 + m)
    (hhigh : 0x80 + m ≤ if byte.toNat = 0xED then 0x9F else 0xBF) :
    encodeChar (Char.ofNat (((byte.toNat - 0xE0) * 64 + m) * 64 + n))
      = [byte, continuationByte m, continuationByte n] := by
  generalize hcode : ((byte.toNat - 0xE0) * 64 + m) * 64 + n = code
  have hlonger : 0x800 ≤ code := by split at hlow <;> omega
  have hsurrogate : code < 0xD800 ∨ 0xDFFF < code := by split at hhigh <;> omega
  have hc : (Char.ofNat code).toNat = code := toNat_ofNat_scalar (by omega)
  rw [encodeChar, hc, if_neg (by omega), if_neg (by omega), if_pos (by omega),
    ofNat_of_toNat (show 0xE0 + code / 4096 = byte.toNat by omega),
    continuationByte_congr (show code / 64 % 64 = m % 64 by omega),
    continuationByte_congr (show code % 64 = n % 64 by omega)]

/-- The range of the second byte leaves out what three bytes can hold, and what no code point is. -/
theorem encodeChar_four (h : 0xF0 ≤ byte.toNat ∧ byte.toNat < 0xF5) (hl : l % 64 = l)
    (hm : m % 64 = m) (hn : n % 64 = n)
    (hlow : (if byte.toNat = 0xF0 then 0x90 else 0x80) ≤ 0x80 + l)
    (hhigh : 0x80 + l ≤ if byte.toNat = 0xF4 then 0x8F else 0xBF) :
    encodeChar (Char.ofNat ((((byte.toNat - 0xF0) * 64 + l) * 64 + m) * 64 + n))
      = [byte, continuationByte l, continuationByte m, continuationByte n] := by
  generalize hcode : (((byte.toNat - 0xF0) * 64 + l) * 64 + m) * 64 + n = code
  have hlonger : 0x10000 ≤ code := by split at hlow <;> omega
  have hbound : code < 0x110000 := by split at hhigh <;> omega
  have hc : (Char.ofNat code).toNat = code := toNat_ofNat_scalar (by omega)
  rw [encodeChar, hc, if_neg (by omega), if_neg (by omega), if_neg (by omega),
    ofNat_of_toNat (show 0xF0 + code / 262144 = byte.toNat by omega),
    continuationByte_congr (show code / 4096 % 64 = l % 64 by omega),
    continuationByte_congr (show code / 64 % 64 = m % 64 by omega),
    continuationByte_congr (show code % 64 = n % 64 by omega)]

end Forms

/-- What a first byte announces, by its ranges. -/
theorem lead?_cases {byte : Nat} {lead : Lead} (h : lead? byte = some lead) :
    byte < 0x80 ∧ lead = ⟨byte, 0, 0x80, 0xBF⟩
      ∨ (0xC2 ≤ byte ∧ byte < 0xE0) ∧ lead = ⟨byte - 0xC0, 1, 0x80, 0xBF⟩
      ∨ (0xE0 ≤ byte ∧ byte < 0xF0) ∧ lead = ⟨byte - 0xE0, 2,
          if byte = 0xE0 then 0xA0 else 0x80, if byte = 0xED then 0x9F else 0xBF⟩
      ∨ (0xF0 ≤ byte ∧ byte < 0xF5) ∧ lead = ⟨byte - 0xF0, 3,
          if byte = 0xF0 then 0x90 else 0x80, if byte = 0xF4 then 0x8F else 0xBF⟩ := by
  unfold lead? at h
  by_cases hone : byte < 0x80
  · rw [if_pos hone] at h
    exact .inl ⟨hone, (Option.some.inj h).symm⟩
  by_cases hstray : byte < 0xC2
  · rw [if_neg hone, if_pos hstray] at h
    cases h
  rw [if_neg hone, if_neg hstray] at h
  by_cases htwo : byte < 0xE0
  · rw [if_pos htwo] at h
    exact .inr (.inl ⟨⟨by omega, htwo⟩, (Option.some.inj h).symm⟩)
  by_cases hthree : byte < 0xF0
  · rw [if_neg htwo, if_pos hthree] at h
    exact .inr (.inr (.inl ⟨⟨by omega, hthree⟩, (Option.some.inj h).symm⟩))
  by_cases hfour : byte < 0xF5
  · rw [if_neg htwo, if_neg hthree, if_pos hfour] at h
    exact .inr (.inr (.inr ⟨⟨by omega, hfour⟩, (Option.some.inj h).symm⟩))
  · rw [if_neg htwo, if_neg hthree, if_neg hfour] at h
    cases h

section Inversion

variable {p : Pending} {bytes : List UInt8} {text : List Char}

/-- A sequence in progress is decoded only where a continuation byte in its range comes next. -/
theorem exists_continuation (hlow : 0x80 ≤ p.low) (hhigh : p.high ≤ 0xBF)
    (h : decodeFrom (some p) position bytes = .ok text) :
    ∃ n rest, bytes = continuationByte n :: rest ∧ n % 64 = n
      ∧ p.low ≤ 0x80 + n % 64 ∧ 0x80 + n % 64 ≤ p.high := by
  cases bytes with
  | nil => cases h
  | cons byte rest =>
      rw [decodeFrom] at h
      split at h
      next hrange =>
        refine ⟨byte.toNat - 0x80, rest, ?_, by omega, by omega, by omega⟩
        rw [List.cons.injEq]
        refine ⟨UInt8.toNat_inj.mp ?_, rfl⟩
        rw [toNat_continuationByte]
        omega
      next => cases h

theorem exists_of_decodeFrom_single {byte : UInt8} (hbyte : byte.toNat < 0x80)
    (h : decodeFrom none position (byte :: rest) = .ok text) :
    ∃ more, text = Char.ofNat byte.toNat :: more
      ∧ decodeFrom none (position + 1) rest = .ok more := by
  rw [decodeFrom_single hbyte] at h
  obtain ⟨more, hmore, rfl⟩ := exists_of_map_eq_ok h
  exact ⟨more, rfl, hmore⟩

theorem exists_of_decodeFrom_last (owed : p.owed = 1) (hlow : 0x80 ≤ p.low) (hhigh : p.high ≤ 0xBF)
    (h : decodeFrom (some p) position bytes = .ok text) :
    ∃ n rest more, bytes = continuationByte n :: rest ∧ n % 64 = n
      ∧ text = Char.ofNat (p.code * 64 + n) :: more
      ∧ decodeFrom none (position + 1) rest = .ok more := by
  obtain ⟨n, rest, rfl, hn, hfrom, hto⟩ := exists_continuation hlow hhigh h
  rw [decodeFrom_last n owed hfrom hto, hn] at h
  obtain ⟨more, hmore, rfl⟩ := exists_of_map_eq_ok h
  exact ⟨n, rest, more, rfl, hn, rfl, hmore⟩

theorem exists_of_decodeFrom_more (owed : p.owed ≠ 1) (hlow : 0x80 ≤ p.low) (hhigh : p.high ≤ 0xBF)
    (h : decodeFrom (some p) position bytes = .ok text) :
    ∃ n rest, bytes = continuationByte n :: rest ∧ n % 64 = n
      ∧ decodeFrom (some ⟨p.start, p.first, p.code * 64 + n, p.owed - 1, 0x80, 0xBF⟩)
          (position + 1) rest = .ok text
      ∧ p.low ≤ 0x80 + n ∧ 0x80 + n ≤ p.high := by
  obtain ⟨n, rest, rfl, hn, hfrom, hto⟩ := exists_continuation hlow hhigh h
  rw [decodeFrom_more n owed hfrom hto, hn] at h
  rw [hn] at hfrom hto
  exact ⟨n, rest, rfl, hn, h, hfrom, hto⟩

/-- **What is decoded starts with the bytes of a character.** -/
theorem exists_char_of_decodeFrom {byte : UInt8}
    (h : decodeFrom none position (byte :: rest) = .ok text) :
    ∃ c behind more, byte :: rest = encodeChar c ++ behind ∧ text = c :: more
      ∧ decodeFrom none (position + (encodeChar c).length) behind = .ok more := by
  cases hlead : lead? byte.toNat with
  | none => simp [decodeFrom, hlead] at h
  | some lead =>
      rcases lead?_cases hlead with ⟨hbyte, rfl⟩ | ⟨hbyte, rfl⟩ | ⟨hbyte, rfl⟩ | ⟨hbyte, rfl⟩
      · obtain ⟨more, rfl, hmore⟩ := exists_of_decodeFrom_single hbyte h
        have hform := encodeChar_one hbyte
        exact ⟨_, rest, more, by rw [hform]; rfl, rfl, by rw [hform]; exact hmore⟩
      · rw [decodeFrom_lead hlead Nat.one_ne_zero] at h
        obtain ⟨n, behind, more, rfl, hn, rfl, hmore⟩ :=
          exists_of_decodeFrom_last rfl (Nat.le_refl _) (Nat.le_refl _) h
        have hform := encodeChar_two hbyte hn
        exact ⟨_, behind, more, by rw [hform]; rfl, rfl, by rw [hform]; exact hmore⟩
      · rw [decodeFrom_lead hlead (Nat.succ_ne_zero 1)] at h
        obtain ⟨m, _, rfl, hm, h, hlow, hhigh⟩ := exists_of_decodeFrom_more (Nat.succ_succ_ne_one 0)
          (by show _ ≤ ite _ _ _; split <;> omega) (by show ite _ _ _ ≤ _; split <;> omega) h
        obtain ⟨n, behind, more, rfl, hn, rfl, hmore⟩ :=
          exists_of_decodeFrom_last rfl (Nat.le_refl _) (Nat.le_refl _) h
        have hform := encodeChar_three hbyte hm hn hlow hhigh
        exact ⟨_, behind, more, by rw [hform]; rfl, rfl, by rw [hform]; exact hmore⟩
      · rw [decodeFrom_lead hlead (Nat.succ_ne_zero 2)] at h
        obtain ⟨l, _, rfl, hl, h, hlow, hhigh⟩ := exists_of_decodeFrom_more (Nat.succ_succ_ne_one 1)
          (by show _ ≤ ite _ _ _; split <;> omega) (by show ite _ _ _ ≤ _; split <;> omega) h
        obtain ⟨m, _, rfl, hm, h, -, -⟩ := exists_of_decodeFrom_more (Nat.succ_succ_ne_one 0)
          (Nat.le_refl _) (Nat.le_refl _) h
        obtain ⟨n, behind, more, rfl, hn, rfl, hmore⟩ :=
          exists_of_decodeFrom_last rfl (Nat.le_refl _) (Nat.le_refl _) h
        have hform := encodeChar_four hbyte hl hm hn hlow hhigh
        exact ⟨_, behind, more, by rw [hform]; rfl, rfl, by rw [hform]; exact hmore⟩

theorem eq_encode_of_decodeFrom (h : decodeFrom none position bytes = .ok text) :
    bytes = encode text := by
  induction hlength : bytes.length using Nat.strongRecOn generalizing position bytes text with
  | ind length ih =>
      cases bytes with
      | nil =>
          rw [decodeFrom] at h
          rw [← Except.ok.inj h]
          rfl
      | cons byte rest =>
          obtain ⟨c, behind, more, hbytes, rfl, hmore⟩ := exists_char_of_decodeFrom h
          have hshorter : behind.length < length := by
            have hpos := List.length_pos_iff.mpr (encodeChar_ne_nil c)
            rw [← hlength, hbytes, List.length_append]
            omega
          rw [hbytes, ih _ hshorter hmore rfl]
          rfl

/-- **Decoding takes encoded texts and nothing else**: no longer form, no surrogate, no open end. -/
theorem decode_eq_ok_iff : decode bytes = .ok text ↔ bytes = encode text := by
  constructor
  · exact eq_encode_of_decodeFrom
  · rintro rfl
    exact decode_encode text

end Inversion

/-! ## Texts with lone surrogates -/

section Surrogates

variable {surrogate? : Char → Option Nat} {text : List Char}

/-- A text without lone surrogates has its bytes. -/
theorem encodeFrom_eq_ok (h : ∀ c ∈ text, surrogate? c = none) (position : Nat) :
    encodeFrom surrogate? position text = .ok (encode text) := by
  induction text generalizing position with
  | nil => rfl
  | cons c rest ih =>
      rw [encodeFrom, h c List.mem_cons_self]
      show (encodeFrom surrogate? (position + 1) rest).map _ = _
      rw [ih (fun d hd => h d (List.mem_cons_of_mem c hd))]
      rfl

/-- **A text is encoded exactly where none of its characters stands for a lone surrogate.** -/
theorem exists_encodeFrom_iff (position : Nat) :
    (∃ bytes, encodeFrom surrogate? position text = .ok bytes)
      ↔ ∀ c ∈ text, surrogate? c = none := by
  constructor
  · intro h
    induction text generalizing position with
    | nil => exact fun c hmem => absurd hmem List.not_mem_nil
    | cons c rest ih =>
        obtain ⟨bytes, hbytes⟩ := h
        rw [encodeFrom] at hbytes
        cases hc : surrogate? c with
        | some code =>
            rw [hc] at hbytes
            cases hbytes
        | none =>
            rw [hc] at hbytes
            obtain ⟨tail, htail, -⟩ := exists_of_map_eq_ok hbytes
            exact List.forall_mem_cons.mpr ⟨hc, ih (position + 1) ⟨tail, htail⟩⟩
  · intro h
    exact ⟨encode text, encodeFrom_eq_ok h position⟩

end Surrogates

/-! ## Line feeds -/

theorem encodeChar_newline : encodeChar '\n' = [0x0A] := by decide

/-- The byte of a line feed stands in the bytes of no other character. -/
theorem newline_notMem_encodeChar {c : Char} (h : c ≠ '\n') : 0x0A ∉ encodeChar c := by
  have hn : c.toNat ≠ 0x0A := fun hn => h (Char.toNat_inj.mp hn)
  have hscalar := scalar c
  have hcont (n : Nat) : (0x0A : UInt8) ≠ continuationByte n := by
    intro hbyte
    have := congrArg UInt8.toNat hbyte
    rw [toNat_continuationByte] at this
    have : (0x0A : UInt8).toNat = 10 := rfl
    omega
  have hlead (n : Nat) (hlow : n ≠ 0x0A) (hhigh : n < 256) : (0x0A : UInt8) ≠ UInt8.ofNat n := by
    intro hbyte
    have := congrArg UInt8.toNat hbyte
    rw [UInt8.toNat_ofNat_of_lt' hhigh] at this
    exact hlow this.symm
  unfold encodeChar
  generalize c.toNat = n at hn hscalar ⊢
  intro hmem
  -- One branch for each length; in the longer ones only the lead byte is left to look at.
  dsimp only at hmem
  split_ifs at hmem
  · rw [List.mem_singleton] at hmem
    exact hlead n hn (by omega) hmem
  all_goals
    simp only [List.mem_cons, hcont, List.not_mem_nil, or_false] at hmem
    exact hlead _ (by omega) (by omega) hmem

end Utf8

end ArchiveRecord.Encoding
