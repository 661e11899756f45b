/- # Proofs.Encoding.ByLines -- bytes may be decoded line by line

A decoder of a whole file carries its state over every line feed. It may be started
again behind each of them where it is between two characters there: text in front
leaves nothing over, and what follows a line feed mends no sequence that it cut off.

A sequence that the end of the bytes cuts off is reported as truncated, and one that
a line feed cuts off as not continued; that is all that a line feed changes.
-/
import ArchiveRecord.Encoding
import ArchiveRecord.Proofs.Encoding.Utf8

namespace ArchiveRecord.Encoding

/-! ## Places -/

/-- The place as counted from a position further in front. -/
def Undecodable.behind (place : Undecodable) (offset : Nat) : Undecodable :=
  { place with start := place.start + offset, stop := place.stop + offset }

/-- The place where a line feed follows: it does not continue what the end of the bytes cut off. -/
def Undecodable.fed (place : Undecodable) : Undecodable :=
  if place.reason = .truncated then { place with reason := .continuation } else place

theorem Undecodable.behind_behind (place : Undecodable) (first second : Nat) :
    (place.behind first).behind second = place.behind (second + first) := by
  simp only [behind, Nat.add_assoc, Nat.add_comm first]

/-! ## What decoding by lines asks of a decoder -/

/-- **`DecodesByLines decode`** -- a decoder stands between two characters behind each line feed. -/
structure DecodesByLines (decode : List UInt8 → Except Undecodable (List Char)) : Prop where
  /-- Behind text and a line feed it starts afresh. -/
  afresh : ∀ {front : List UInt8} {text : List Char} (rest : List UInt8), decode front = .ok text →
    decode (front ++ 0x0A :: rest)
      = ((decode rest).map fun more => text ++ '\n' :: more).mapError
          fun place => place.behind (front.length + 1)
  /-- What stands behind a line feed never mends what stands in front of it. -/
  unmended : ∀ {front : List UInt8} {place : Undecodable} (rest : List UInt8),
    decode front = .error place → decode (front ++ 0x0A :: rest) = .error place.fed
  nil : decode [] = .ok []
  ne_nil : ∀ {bytes : List UInt8} {text : List Char}, decode bytes = .ok text → bytes ≠ [] →
    text ≠ []
  newline_notMem : ∀ {bytes : List UInt8} {text : List Char}, decode bytes = .ok text →
    0x0A ∉ bytes → '\n' ∉ text
  start_lt : ∀ {bytes : List UInt8} {place : Undecodable}, decode bytes = .error place →
    place.start < bytes.length

/-! ## UTF-8

The inductions below take the eight cases of the decoder in this order: the bytes end between two
characters, or inside a sequence; a first byte leads nothing, or is a character, or leads a
sequence; a continuation byte ends its sequence, or goes on in it, or is out of its range. -/

namespace Utf8

/-- A sequence in progress, as counted from a position further in front. -/
def Pending.behind (p : Pending) (offset : Nat) : Pending := { p with start := p.start + offset }

/-- The positions of a fault are counted from where decoding starts. -/
theorem decodeFrom_behind (offset : Nat) (p : Option Pending) (position : Nat)
    (bytes : List UInt8) :
    decodeFrom (p.map fun p => p.behind offset) (position + offset) bytes
      = (decodeFrom p position bytes).mapError fun place => place.behind offset := by
  fun_induction decodeFrom p position bytes with
  | case1 => rfl
  | case2 => rfl
  | case3 position byte rest hlead =>
    simp [decodeFrom, hlead, Undecodable.behind, Except.mapError, Nat.add_right_comm]
  | case4 position byte rest lead hlead howed ih =>
    rw [mapError_map, ← ih]
    simp [decodeFrom, hlead, howed, Nat.add_right_comm]
  | case5 position byte rest lead hlead howed ih =>
    rw [← ih]
    simp [decodeFrom, hlead, howed, Nat.add_right_comm, Pending.behind]
  | case6 p position byte rest hrange code howed ih =>
    rw [mapError_map, ← ih]
    simp [decodeFrom, hrange, howed, Nat.add_right_comm, Pending.behind, code]
  | case7 p position byte rest hrange code howed ih =>
    rw [← ih]
    simp [decodeFrom, hrange, howed, Nat.add_right_comm, Pending.behind, code]
  | case8 p position byte rest hrange =>
    simp [decodeFrom, hrange, Pending.behind, Undecodable.behind, Except.mapError]

/-- The first continuation byte of a sequence is no byte below U+0080. -/
theorem low_of_lead? {byte : Nat} {lead : Lead} (h : lead? byte = some lead) : 0x80 ≤ lead.low := by
  rcases lead?_cases h with ⟨-, rfl⟩ | ⟨-, rfl⟩ | ⟨-, rfl⟩ | ⟨-, rfl⟩
  · exact Nat.le_refl _
  · exact Nat.le_refl _
  · show _ ≤ ite _ _ _
    split <;> omega
  · show _ ≤ ite _ _ _
    split <;> omega

/-- A line feed is a character of its own. -/
theorem decodeFrom_newline (position : Nat) (rest : List UInt8) :
    decodeFrom none position (0x0A :: rest)
      = (decodeFrom none (position + 1) rest).map fun more => '\n' :: more :=
  decodeFrom_single (by decide : (0x0A : UInt8).toNat < 0x80)

/-- Behind text and a line feed the decoder is between two characters. -/
theorem decodeFrom_append_newline {p : Option Pending} {position : Nat} {front : List UInt8}
    (rest : List UInt8) : ∀ {text : List Char}, decodeFrom p position front = .ok text →
      decodeFrom p position (front ++ 0x0A :: rest)
        = (decodeFrom none (position + front.length + 1) rest).map
            fun more => text ++ '\n' :: more := by
  fun_induction decodeFrom p position front with
  | case1 position =>
    intro text h
    obtain rfl := Except.ok.inj h
    exact decodeFrom_newline position rest
  | case2 => rintro text ⟨⟩
  | case3 => rintro text ⟨⟩
  | case4 position byte front lead hlead howed ih =>
    intro text h
    obtain ⟨text, htext, rfl⟩ := exists_of_map_eq_ok h
    simp [decodeFrom, hlead, howed, ih htext, map_map, Nat.add_right_comm, Nat.add_assoc]
  | case5 position byte front lead hlead howed ih =>
    intro text h
    simp [decodeFrom, hlead, howed, ih h, Nat.add_right_comm, Nat.add_assoc]
  | case6 p position byte front hrange code howed =>
    rename_i ih
    intro text h
    obtain ⟨text, htext, rfl⟩ := exists_of_map_eq_ok h
    simp [decodeFrom, hrange, howed, ih htext, map_map, code, Nat.add_right_comm, Nat.add_assoc]
  | case7 p position byte front hrange code howed =>
    rename_i ih
    intro text h
    have hstep := ih h
    simp [decodeFrom, hrange, howed, code, hstep, Nat.add_right_comm, Nat.add_assoc]
  | case8 => rintro text ⟨⟩

/-- A line feed goes on in no sequence. -/
theorem decodeFrom_append_newline_of_error {p : Option Pending} {position : Nat}
    {front : List UInt8} {place : Undecodable} (rest : List UInt8)
    (hp : ∀ q, p = some q → 0x80 ≤ q.low) (h : decodeFrom p position front = .error place) :
    decodeFrom p position (front ++ 0x0A :: rest) = .error place.fed := by
  fun_induction decodeFrom p position front with
  | case1 => cases h
  | case2 q position =>
    -- What the end of the bytes cut off is now cut off by a byte below every continuation byte.
    have hlow := hp q rfl
    have hfeed : ¬(q.low ≤ (0x0A : UInt8).toNat ∧ (0x0A : UInt8).toNat ≤ q.high) := by
      have : (0x0A : UInt8).toNat = 10 := rfl
      omega
    obtain rfl := Except.error.inj h
    rw [List.nil_append, decodeFrom, if_neg hfeed]
    rfl
  | case3 position byte front hlead =>
    obtain rfl := Except.error.inj h
    simp [decodeFrom, hlead, Undecodable.fed]
  | case4 position byte front lead hlead howed ih =>
    have hstep := ih hp (eq_error_of_map_eq_error h)
    simp [decodeFrom, hlead, howed, hstep, Except.map]
  | case5 position byte front lead hlead howed ih =>
    have hstep := ih (by rintro q ⟨⟩; exact low_of_lead? hlead) h
    simp [decodeFrom, hlead, howed, hstep]
  | case6 p position byte front hrange code howed ih =>
    have hstep := ih (by simp) (eq_error_of_map_eq_error h)
    simp [decodeFrom, hrange, howed, hstep, Except.map]
  | case7 p position byte front hrange code howed ih =>
    -- Behind its second byte a sequence takes any continuation byte.
    have hstep := ih (by rintro q ⟨⟩; exact Nat.le_refl _) h
    simp [decodeFrom, hrange, howed, hstep, code]
  | case8 p position byte front hrange =>
    obtain rfl := Except.error.inj h
    simp [decodeFrom, hrange, Undecodable.fed]

/-- A fault lies inside the bytes. -/
theorem start_lt_of_decodeFrom {p : Option Pending} {position : Nat} {bytes : List UInt8}
    {place : Undecodable} (hp : ∀ q, p = some q → q.start < position)
    (h : decodeFrom p position bytes = .error place) : place.start < position + bytes.length := by
  fun_induction decodeFrom p position bytes with
  | case1 => cases h
  | case2 q position =>
    obtain rfl := Except.error.inj h
    exact hp q rfl
  | case3 position byte rest hlead =>
    obtain rfl := Except.error.inj h
    simp
  | case4 position byte rest lead hlead howed ih =>
    have := ih (by simp) (eq_error_of_map_eq_error h)
    rw [List.length_cons]
    omega
  | case5 position byte rest lead hlead howed ih =>
    have := ih (by rintro q ⟨⟩; exact Nat.lt_succ_self _) h
    rw [List.length_cons]
    omega
  | case6 p position byte rest hrange code howed ih =>
    have := ih (by simp) (eq_error_of_map_eq_error h)
    rw [List.length_cons]
    omega
  | case7 p position byte rest hrange code howed ih =>
    have := ih (by rintro q ⟨⟩; exact Nat.lt_succ_of_lt (hp p rfl)) h
    rw [List.length_cons]
    omega
  | case8 p position byte rest hrange =>
    obtain rfl := Except.error.inj h
    have := hp p rfl
    show p.start < _
    rw [List.length_cons]
    omega

/-- **UTF-8 is decoded by lines.** -/
theorem decodesByLines : DecodesByLines decode where
  afresh {front text} rest h := by
    have hrest := decodeFrom_behind (front.length + 1) none 0 rest
    rw [Option.map_none, Nat.zero_add] at hrest
    rw [decode, decodeFrom_append_newline rest h, Nat.zero_add, hrest, mapError_map]
    rfl
  unmended rest h := decodeFrom_append_newline_of_error rest (by simp) h
  nil := rfl
  ne_nil {bytes text} h hne := by
    rintro rfl
    exact hne (decode_eq_ok_iff.mp h)
  newline_notMem {bytes text} h hbytes hmem := by
    rw [decode_eq_ok_iff.mp h] at hbytes
    exact hbytes (List.mem_flatMap.mpr ⟨'\n', hmem, by decide⟩)
  start_lt h := by
    have := start_lt_of_decodeFrom (by simp) h
    rwa [Nat.zero_add] at this

end Utf8

/-! ## Latin-1 and ASCII -/

theorem decodeLatin1_append_newline (front rest : List UInt8) :
    decodeLatin1 (front ++ 0x0A :: rest) = decodeLatin1 front ++ '\n' :: decodeLatin1 rest := by
  rw [decodeLatin1, List.map_append, List.map_cons]
  rfl

theorem newline_notMem_decodeLatin1 {bytes : List UInt8} (h : 0x0A ∉ bytes) :
    '\n' ∉ decodeLatin1 bytes := by
  intro hmem
  obtain ⟨byte, hbyte, hc⟩ := List.mem_map.mp hmem
  have hlt : byte.toNat < 256 := byte.toNat_lt
  have hcode : byte.toNat = (0x0A : UInt8).toNat := by
    rw [← Utf8.toNat_ofNat_scalar (show byte.toNat < 0xD800 ∨ _ by omega), hc]
    rfl
  exact h (UInt8.toNat_inj.mp hcode ▸ hbyte)

/-- **Latin-1 is decoded by lines.** -/
theorem decodesByLines_latin1 : DecodesByLines fun bytes => .ok (decodeLatin1 bytes) where
  afresh {front text} rest h := by
    rw [decodeLatin1_append_newline, Except.ok.inj h]
    rfl
  unmended rest h := nomatch h
  nil := rfl
  ne_nil {bytes text} h hne := by
    rw [← Except.ok.inj h]
    exact mt List.map_eq_nil_iff.mp hne
  newline_notMem {bytes text} h hbytes := by
    rw [← Except.ok.inj h]
    exact newline_notMem_decodeLatin1 hbytes
  start_lt h := nomatch h

/-- What ASCII decodes, Latin-1 decodes alike. -/
theorem eq_decodeLatin1_of_decodeAscii {position : Nat} {bytes : List UInt8} {text : List Char}
    (h : decodeAscii position bytes = .ok text) : text = decodeLatin1 bytes := by
  induction bytes generalizing position text with
  | nil => exact (Except.ok.inj h).symm
  | cons byte rest ih =>
      rw [decodeAscii] at h
      split at h
      next =>
        obtain ⟨more, hmore, rfl⟩ := exists_of_map_eq_ok h
        rw [ih hmore]
        rfl
      next => cases h

theorem decodeAscii_behind (offset position : Nat) (bytes : List UInt8) :
    decodeAscii (position + offset) bytes
      = (decodeAscii position bytes).mapError fun place => place.behind offset := by
  induction bytes generalizing position with
  | nil => rfl
  | cons byte rest ih =>
      rw [decodeAscii, decodeAscii, Nat.add_right_comm, ih]
      split
      · exact (mapError_map _ _ _).symm
      · rfl

theorem decodeAscii_append_newline {front : List UInt8} {text : List Char} (rest : List UInt8)
    {position : Nat} (h : decodeAscii position front = .ok text) :
    decodeAscii position (front ++ 0x0A :: rest)
      = (decodeAscii (position + front.length + 1) rest).map fun more => text ++ '\n' :: more := by
  induction front generalizing position text with
  | nil =>
      obtain rfl := Except.ok.inj h
      rfl
  | cons byte front ih =>
      rw [decodeAscii] at h
      split at h
      next hbyte =>
        obtain ⟨text, htext, rfl⟩ := exists_of_map_eq_ok h
        have hplace : position + 1 + front.length = position + (byte :: front).length := by
          rw [List.length_cons]
          omega
        rw [List.cons_append, decodeAscii, if_pos hbyte, ih htext, map_map, hplace]
        rfl
      next => cases h

/-- The first byte that is no ASCII is reported, whatever follows. -/
theorem decodeAscii_append_of_error {front : List UInt8} {place : Undecodable} (rest : List UInt8)
    {position : Nat} (h : decodeAscii position front = .error place) :
    decodeAscii position (front ++ rest) = .error place.fed
      ∧ place.start < position + front.length := by
  induction front generalizing position with
  | nil => cases h
  | cons byte front ih =>
      rw [List.cons_append, List.length_cons, decodeAscii]
      rw [decodeAscii] at h
      split at h
      next hbyte =>
        obtain ⟨hstep, hstart⟩ := ih (eq_error_of_map_eq_error h)
        rw [if_pos hbyte, hstep]
        exact ⟨rfl, by omega⟩
      next hbyte =>
        obtain rfl := Except.error.inj h
        rw [if_neg hbyte]
        exact ⟨rfl, by show position < _; omega⟩

/-- **ASCII is decoded by lines.** -/
theorem decodesByLines_ascii : DecodesByLines (decodeAscii 0) where
  afresh {front text} rest h := by
    have hrest := decodeAscii_behind (front.length + 1) 0 rest
    rw [decodeAscii_append_newline rest h, Nat.add_assoc, hrest, mapError_map]
  unmended rest h := (decodeAscii_append_of_error _ h).1
  nil := rfl
  ne_nil {bytes text} h hne := by
    rw [eq_decodeLatin1_of_decodeAscii h]
    exact mt List.map_eq_nil_iff.mp hne
  newline_notMem {bytes text} h hbytes := by
    rw [eq_decodeLatin1_of_decodeAscii h]
    exact newline_notMem_decodeLatin1 hbytes
  start_lt h := by
    have := (decodeAscii_append_of_error [] h).2
    rwa [Nat.zero_add] at this

end ArchiveRecord.Encoding
