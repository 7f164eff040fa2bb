import Mathlib.Data.List.Infix

/-! # Texts as bytes

Where the source looks at single bytes of a text or cuts it after a number of them, the text is the
list of its bytes. It need not be valid UTF-8. -/

namespace GoBytes

abbrev Bytes : Type := List UInt8

/-- The encodings of the characters of `unicode.IsSpace`. -/
def spaces : List Bytes :=
  [[0x09], [0x0A], [0x0B], [0x0C], [0x0D], [0x20], [0xC2, 0x85], [0xC2, 0xA0], [0xE1, 0x9A, 0x80]] ++
    [0x80, 0x81, 0x82, 0x83, 0x84, 0x85, 0x86, 0x87, 0x88, 0x89, 0x8A, 0xA8, 0xA9, 0xAF].map
      ([0xE2, 0x80, ·]) ++
    [[0xE2, 0x81, 0x9F], [0xE3, 0x80, 0x80]]

/-- At most `n` pieces are taken off the front. -/
def dropPieces (pieces : List Bytes) : ℕ → Bytes → Bytes
  | 0, s => s
  | n + 1, s =>
    match pieces.find? (·.isPrefixOf s) with
    | some piece => dropPieces pieces n (s.drop piece.length)
    | none => s

/-- `strings.TrimSpace`: on either side white space is taken off, character by character. -/
def trimSpace (s : Bytes) : Bytes :=
  let s := dropPieces spaces s.length s
  (dropPieces (spaces.map List.reverse) s.length s.reverse).reverse

theorem dropPieces_eq_self {pieces : List Bytes} {s : Bytes} (n : ℕ)
    (h : ∀ piece ∈ pieces, ¬ piece <+: s) : dropPieces pieces n s = s := by
  cases n with
  | zero => rfl
  | succ n =>
    have hnone : pieces.find? (·.isPrefixOf s) = none := by simpa using h
    rw [dropPieces, hnone]

/-- White space has bytes that a text of other bytes does not have. -/
theorem trimSpace_eq_self {p : UInt8 → Bool} (hp : ∀ piece ∈ spaces, ∃ b ∈ piece, p b = false)
    {s : Bytes} (h : ∀ b ∈ s, p b = true) : trimSpace s = s := by
  have hleft : dropPieces spaces s.length s = s := by
    refine dropPieces_eq_self _ fun piece hpiece hpre => ?_
    obtain ⟨b, hb, hpb⟩ := hp piece hpiece
    simp [h b (hpre.subset hb)] at hpb
  have hright : dropPieces (spaces.map List.reverse) s.length s.reverse = s.reverse := by
    refine dropPieces_eq_self _ fun reversed hreversed hpre => ?_
    obtain ⟨piece, hpiece, rfl⟩ := List.mem_map.mp hreversed
    obtain ⟨b, hb, hpb⟩ := hp piece hpiece
    simp [h b (by simpa using hpre.subset (List.mem_reverse.mpr hb))] at hpb
  simp only [trimSpace, hleft, hright, List.reverse_reverse]

theorem forall_byte {P : UInt8 → Prop} (h : ∀ n : Fin 256, P (UInt8.ofNat n)) (b : UInt8) : P b := by
  have := h ⟨b.toNat, b.toNat_lt⟩
  rwa [UInt8.ofNat_toNat] at this

end GoBytes
