import RuleTransducer.Proofs.Elementwise
import RuleTransducer.Text.Encoding

/-! UTF-8 read back. What is written for a character is one well-formed piece with its number,
whatever stands behind it. So the octets of a text are read as the text, where surrogates are
refused as well as where they pass. -/

namespace RuleTransducer.Text

namespace Utf8

/-! ### Pieces -/

section Piece
variable {passSurrogates : Bool} {a b c d : ℕ}

/-- An octet in the range that is announced for it adds six bits. -/
theorem follow_ofNat {low high : ℕ} (hlow : low ≤ b) (hhigh : b ≤ high) (hb : b < UInt8.size)
    (bits taken more : ℕ) (rest : List UInt8) :
    follow low high bits taken (more + 1) (.ofNat b :: rest) =
      follow 0x80 0xBF (bits * 64 + (b - 0x80)) (taken + 1) more rest := by
  have hoctet : (UInt8.ofNat b).toNat = b := UInt8.toNat_ofNat_of_lt' hb
  simp [follow, hoctet, hlow, hhigh]

/-- An octet behind the second adds six bits as well. -/
theorem follow_ofNat_later (hlow : 0x80 ≤ b) (hhigh : b < 0xC0) (bits taken more : ℕ)
    (rest : List UInt8) :
    follow 0x80 0xBF bits taken (more + 1) (.ofNat b :: rest) =
      follow 0x80 0xBF (bits * 64 + (b - 0x80)) (taken + 1) more rest :=
  follow_ofNat hlow (Nat.le_of_lt_succ hhigh) (Nat.lt_trans hhigh (by decide)) bits taken more rest

/-- Octets that are already read do not count. -/
theorem pieces_taken (octets rest : List UInt8) :
    pieces passSurrogates octets.length (octets ++ rest) = pieces passSurrogates 0 rest := by
  induction octets with
  | nil => rfl
  | cons octet octets ih => exact ih

/-- A first octet is one piece with those that follow it. -/
theorem pieces_ofNat {lead : Lead} (hlead : lead? passSurrogates a = some lead)
    (ha : a < UInt8.size) {octets rest : List UInt8} {code : ℕ}
    (hfollow : follow lead.low lead.high lead.bits 0 lead.more (octets ++ rest) =
      (some code, octets.length)) :
    pieces passSurrogates 0 (.ofNat a :: octets ++ rest) =
      some code :: pieces passSurrogates 0 rest := by
  rw [List.cons_append, pieces, UInt8.toNat_ofNat_of_lt' ha, hlead]
  simp only [hfollow, pieces_taken]

variable (rest : List UInt8)

theorem pieces_one (ha : a < 0x80) :
    pieces passSurrogates 0 ([.ofNat a] ++ rest) = some a :: pieces passSurrogates 0 rest := by
  have hlead : lead? passSurrogates a = some ⟨0, 0x80, 0xBF, a⟩ := if_pos ha
  exact pieces_ofNat hlead (Nat.lt_trans ha (by decide)) rfl

theorem pieces_two (ha : 0xC2 ≤ a) (ha' : a < 0xE0) (hb : 0x80 ≤ b) (hb' : b < 0xC0) :
    pieces passSurrogates 0 ([.ofNat a, .ofNat b] ++ rest) =
      some ((a - 0xC0) * 64 + (b - 0x80)) :: pieces passSurrogates 0 rest := by
  have hlead : lead? passSurrogates a = some ⟨1, 0x80, 0xBF, a - 0xC0⟩ := by
    rw [lead?, if_neg (by omega), if_neg (by omega), if_pos ha']
  refine pieces_ofNat hlead (Nat.lt_trans ha' (by decide)) ?_
  rw [List.cons_append, follow_ofNat_later hb hb']
  rfl

theorem pieces_three (ha : 0xE0 ≤ a) (ha' : a < 0xF0)
    (hb : (if a = 0xE0 then 0xA0 else 0x80) ≤ b)
    (hb' : b ≤ if a = 0xED && !passSurrogates then 0x9F else 0xBF) (hc : 0x80 ≤ c)
    (hc' : c < 0xC0) :
    pieces passSurrogates 0 ([.ofNat a, .ofNat b, .ofNat c] ++ rest) =
      some (((a - 0xE0) * 64 + (b - 0x80)) * 64 + (c - 0x80)) ::
        pieces passSurrogates 0 rest := by
  have hlead : lead? passSurrogates a = some ⟨2, if a = 0xE0 then 0xA0 else 0x80,
      if a = 0xED && !passSurrogates then 0x9F else 0xBF, a - 0xE0⟩ := by
    rw [lead?, if_neg (by omega), if_neg (by omega), if_neg (by omega), if_pos ha']
  have hsize : b < UInt8.size :=
    Nat.lt_of_le_of_lt (Nat.le_trans hb' (by split <;> decide : _ ≤ 0xBF)) (by decide)
  refine pieces_ofNat hlead (Nat.lt_trans ha' (by decide)) ?_
  rw [List.cons_append, follow_ofNat hb hb' hsize, List.cons_append, follow_ofNat_later hc hc']
  rfl

theorem pieces_four (ha : 0xF0 ≤ a) (ha' : a < 0xF5)
    (hb : (if a = 0xF0 then 0x90 else 0x80) ≤ b) (hb' : b ≤ if a = 0xF4 then 0x8F else 0xBF)
    (hc : 0x80 ≤ c) (hc' : c < 0xC0) (hd : 0x80 ≤ d) (hd' : d < 0xC0) :
    pieces passSurrogates 0 ([.ofNat a, .ofNat b, .ofNat c, .ofNat d] ++ rest) =
      some ((((a - 0xF0) * 64 + (b - 0x80)) * 64 + (c - 0x80)) * 64 + (d - 0x80)) ::
        pieces passSurrogates 0 rest := by
  have hlead : lead? passSurrogates a = some ⟨3, if a = 0xF0 then 0x90 else 0x80,
      if a = 0xF4 then 0x8F else 0xBF, a - 0xF0⟩ := by
    rw [lead?, if_neg (by omega), if_neg (by omega), if_neg (by omega), if_neg (by omega),
      if_pos ha']
  have hsize : b < UInt8.size :=
    Nat.lt_of_le_of_lt (Nat.le_trans hb' (by split <;> decide : _ ≤ 0xBF)) (by decide)
  refine pieces_ofNat hlead (Nat.lt_trans ha' (by decide)) ?_
  rw [List.cons_append, follow_ofNat hb hb' hsize, List.cons_append, follow_ofNat_later hc hc',
    List.cons_append, follow_ofNat_later hd hd']
  rfl

end Piece

/-! ### Characters and texts -/

/-- What is written for a character is one piece with its number. -/
theorem pieces_utf8EncodeChar (passSurrogates : Bool) (c : Char) (rest : List UInt8) :
    pieces passSurrogates 0 (String.utf8EncodeChar c ++ rest) =
      some c.toNat :: pieces passSurrogates 0 rest := by
  have hvalid : c.toNat < 0xD800 ∨ 0xDFFF < c.toNat ∧ c.toNat < 0x110000 := c.valid
  rw [String.utf8EncodeChar, Char.toNat_val]
  generalize c.toNat = n at hvalid
  by_cases hone : n ≤ 0x7F
  · rw [if_pos hone, pieces_one rest (by omega)]
  by_cases htwo : n ≤ 0x7FF
  · have hcode : (n / 64 % 32 + 192 - 0xC0) * 64 + (n % 64 + 128 - 0x80) = n := by omega
    rw [if_neg hone, if_pos htwo,
      pieces_two rest (by omega) (by omega) (by omega) (by omega), hcode]
  by_cases hthree : n ≤ 0xFFFF
  · have hcode : ((n / 4096 % 16 + 224 - 0xE0) * 64 + (n / 64 % 64 + 128 - 0x80)) * 64 +
        (n % 64 + 128 - 0x80) = n := by omega
    -- the narrowed ranges leave out the numbers of two octets, and the surrogates
    have hlow : (if n / 4096 % 16 + 224 = 0xE0 then 0xA0 else 0x80) ≤ n / 64 % 64 + 128 := by
      split <;> omega
    have hhigh : n / 64 % 64 + 128 ≤
        if n / 4096 % 16 + 224 = 0xED && !passSurrogates then 0x9F else 0xBF := by
      split
      case isTrue hmark =>
        have hlead := of_decide_eq_true (Bool.and_eq_true_iff.mp hmark).1
        omega
      case isFalse => omega
    rw [if_neg hone, if_neg htwo, if_pos hthree,
      pieces_three rest (by omega) (by omega) hlow hhigh (by omega) (by omega), hcode]
  · have hcode : (((n / 262144 % 8 + 240 - 0xF0) * 64 + (n / 4096 % 64 + 128 - 0x80)) * 64 +
        (n / 64 % 64 + 128 - 0x80)) * 64 + (n % 64 + 128 - 0x80) = n := by omega
    have hlow : (if n / 262144 % 8 + 240 = 0xF0 then 0x90 else 0x80) ≤ n / 4096 % 64 + 128 := by
      split <;> omega
    have hhigh : n / 4096 % 64 + 128 ≤
        if n / 262144 % 8 + 240 = 0xF4 then 0x8F else 0xBF := by
      split <;> omega
    rw [if_neg hone, if_neg htwo, if_neg hthree, pieces_four rest (by omega) (by omega) hlow hhigh
      (by omega) (by omega) (by omega) (by omega), hcode]

theorem pieces_encode (passSurrogates : Bool) (text : List Char) :
    pieces passSurrogates 0 (encode text) = text.map fun c => some c.toNat := by
  induction text with
  | nil => rfl
  | cons c text ih =>
    rw [encode, List.flatMap_cons, pieces_utf8EncodeChar, List.map_cons, ← ih, encode]

/-- The octets of a text are read as the text. -/
theorem decode?_encode (text : List Char) : decode? (encode text) = some text := by
  rw [decode?, pieces_encode, mapM_eq_some_iff_forall₂, List.forall₂_map_right_iff,
    List.forall₂_same]
  exact fun c _ => congrArg some c.ofNat_toNat

/-- So they are where surrogates pass. -/
theorem decodePassing?_encode (text : List Char) :
    decodePassing? (encode text) = some (text.map .char) := by
  rw [decodePassing?, pieces_encode, mapM_eq_some_iff_forall₂, List.forall₂_map_left_iff,
    List.forall₂_map_right_iff, List.forall₂_same]
  exact fun c _ => congrArg some (CodePoint.ofNat_toNat (.char c))

end Utf8

/-- Where the octets of a text are told to be in UTF-8, they are read as the text. -/
theorem ofOctets?_encode {text : List Char}
    (h : Encoding.detect (Utf8.encode text) = (.utf8, Utf8.encode text)) :
    ofOctets? (Utf8.encode text) = some (text.map .char) := by
  rw [ofOctets?, h]
  exact Utf8.decodePassing?_encode text

end RuleTransducer.Text
