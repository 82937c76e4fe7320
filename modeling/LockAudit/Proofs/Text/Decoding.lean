import LockAudit.Text.Decoding

/-!
# `LockAudit.Proofs.Text.Decoding` — what bytes are decoded to

In ASCII each character is a byte, and the decoder of UTF-8 gives it back (`decodeUtf8_ascii`). Where a text
has no carriage return, its lines end as they did (`newlines_of_not_mem`). A text of unknown encoding is
refused for bytes that are no character of the encoding that it shows (`decode_error_iff`).
-/

namespace LockAudit.Text

/-- The bytes of an ASCII text. -/
def asciiBytes (s : List Char) : List UInt8 := s.map fun c => c.toNat.toUInt8

theorem utf8Step_ascii {c : Char} (h : c.toNat < 0x80) (r : List UInt8) :
    utf8Step (c.toNat.toUInt8 :: r) = .char c 1 := by
  have hnat : c.toNat.toUInt8.toNat = c.toNat := by
    rw [Nat.toUInt8_eq, UInt8.toNat_ofNat']
    omega
  have hlow : c.toNat.toUInt8 < 0x80 := by
    rw [UInt8.lt_iff_toNat_lt, hnat]
    exact h
  unfold utf8Step
  simp only [if_pos hlow, hnat, Char.ofNat_toNat]

theorem joinStrict_ascii {s : List Char} (h : ∀ c ∈ s, c.toNat < 0x80) (codec : String) (allow : Bool)
    (start : Nat) :
    joinStrict codec allow (asciiBytes s) start (pieces utf8Step (asciiBytes s).length (asciiBytes s)) =
      .ok s := by
  induction s generalizing start with
  | nil => rfl
  | cons c s ih =>
    have hrest := ih (fun d hd => h d (List.mem_cons_of_mem c hd)) (start + 1)
    have hpieces : ∀ bs n, pieces utf8Step (n + 1) (c.toNat.toUInt8 :: bs) =
        .char c 1 :: pieces utf8Step n bs := by
      intro bs n
      rw [pieces, utf8Step_ascii (h c List.mem_cons_self)]
      · rfl
      · exact List.cons_ne_nil _ _
    rw [asciiBytes, List.map_cons, List.length_cons, hpieces]
    show (c :: ·) <$> joinStrict codec allow (asciiBytes s) (start + 1)
      (pieces utf8Step (asciiBytes s).length (asciiBytes s)) = _
    rw [hrest]
    rfl

/-- **An ASCII text is decoded as it stands.** -/
theorem decodeUtf8_ascii {s : List Char} (h : ∀ c ∈ s, c.toNat < 0x80) :
    decodeUtf8 (asciiBytes s) = .ok s :=
  joinStrict_ascii h "utf-8" false 0

theorem newlines_of_not_mem {s : List Char} (h : '\r' ∉ s) : newlines s = s := by
  induction s with
  | nil => rfl
  | cons c s ih =>
    obtain ⟨hc, hs⟩ := not_or.mp (mt List.mem_cons.mpr h)
    rw [newlines, ih hs]
    · exact fun t ht => absurd ht (Ne.symm hc)
    · exact Ne.symm hc

/-! ## Refusals -/

/-- In the encoding that the first bytes show, some bytes are no character. -/
def Undecodable (bs : List UInt8) : Prop :=
  ∃ n reason, Piece.bad n reason ∈ (Encoding.detect bs).1.pieces (bs.drop (Encoding.detect bs).2)

/-- Pieces are refused for a bad one, where lone surrogates are allowed. -/
theorem joinStrict_error_iff {codec : String} {ps : List Piece} {bs : List UInt8} {start : Nat} :
    (∃ d, joinStrict codec true bs start ps = .error d) ↔ ∃ n reason, Piece.bad n reason ∈ ps := by
  have hmap : ∀ {c : Char} {x : Except Defect (List Char)},
      (∃ d, (c :: ·) <$> x = .error d) ↔ ∃ d, x = .error d := by
    intro c x
    cases x with
    | error d => exact ⟨fun _ => ⟨d, rfl⟩, fun _ => ⟨d, rfl⟩⟩
    | ok s => exact ⟨nofun, nofun⟩
  induction ps generalizing bs start with
  | nil => exact ⟨nofun, nofun⟩
  | cons p ps ih =>
    cases p with
    | char c n =>
      rw [joinStrict]
      simp [hmap, ih]
    | surrogate n refused reason =>
      rw [joinStrict]
      simp [hmap, ih]
    | bad n reason => exact ⟨fun _ => ⟨n, reason, List.mem_cons_self⟩, fun _ => ⟨_, rfl⟩⟩

/-- **A text is refused exactly if it is undecodable.** -/
theorem decode_error_iff {bs : List UInt8} : (∃ d, decode bs = .error d) ↔ Undecodable bs :=
  joinStrict_error_iff

end LockAudit.Text
