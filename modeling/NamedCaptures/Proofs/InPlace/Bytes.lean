import NamedCaptures.Proofs.InPlace.Moves

/-!
# Characters by their bytes

What the moves that count or look at bytes do to the characters of a text. A number of bytes splits
a text at a place between two characters or not at all (`splitBytes?_eq_some_iff`), and a byte that
is an ASCII character is found where that character stands (`findIdx_bytes`), because the bytes of
other characters are not ASCII.
-/

namespace NamedCaptures.InPlace

open Pattern

@[simp]
theorem byteLength_cons (c : Char) (s : List Char) :
    byteLength (c :: s) = c.utf8Size + byteLength s := rfl

theorem byteLength_append (s t : List Char) :
    byteLength (s ++ t) = byteLength s + byteLength t := by
  induction s with
  | nil => rw [List.nil_append, byteLength, Nat.zero_add]
  | cons c s ih => rw [List.cons_append, byteLength_cons, ih, byteLength_cons, Nat.add_assoc]

/-- Every character takes up a byte. -/
theorem byteLength_eq_zero_iff {s : List Char} : byteLength s = 0 ↔ s = [] := by
  cases s with
  | nil => exact iff_of_true rfl rfl
  | cons c s =>
      have hpos := c.utf8Size_pos
      rw [byteLength_cons]
      exact iff_of_false (by omega) (List.cons_ne_nil c s)

/-- So many bytes as some characters take up are exactly these characters. -/
theorem splitBytes?_append (front back : List Char) :
    Position.splitBytes? (byteLength front) (front ++ back) = some (front, back) := by
  induction front with
  | nil => simp [byteLength, Position.splitBytes?]
  | cons c front ih =>
      obtain ⟨k, hk⟩ := Nat.exists_eq_succ_of_ne_zero
        (show byteLength (c :: front) ≠ 0 by have := c.utf8Size_pos; rw [byteLength_cons]; omega)
      have hle : c.utf8Size ≤ k + 1 := by rw [byteLength_cons] at hk; omega
      have hsub : k + 1 - c.utf8Size = byteLength front := by rw [byteLength_cons] at hk; omega
      rw [hk, List.cons_append, Position.splitBytes?, if_pos hle, hsub, ih]
      rfl

/-- Behind some characters, a text is split where it would be split without them. -/
theorem splitBytes?_add (front s : List Char) (n : Nat) :
    Position.splitBytes? (byteLength front + n) (front ++ s) =
      (Position.splitBytes? n s).map fun q => (front ++ q.1, q.2) := by
  induction front with
  | nil => simp [byteLength]
  | cons c front ih =>
      obtain ⟨k, hk⟩ := Nat.exists_eq_succ_of_ne_zero
        (show byteLength (c :: front) + n ≠ 0 by
          have := c.utf8Size_pos
          rw [byteLength_cons]
          omega)
      rw [byteLength_cons] at hk
      have hle : c.utf8Size ≤ k + 1 := by omega
      have hsub : k + 1 - c.utf8Size = byteLength front + n := by omega
      rw [byteLength_cons, hk, List.cons_append, Position.splitBytes?, if_pos hle, hsub, ih,
        Option.map_map]
      rfl

theorem eq_of_splitBytes? {n : Nat} {s front back : List Char}
    (h : Position.splitBytes? n s = some (front, back)) :
    s = front ++ back ∧ byteLength front = n := by
  induction s generalizing n front with
  | nil =>
      cases n with
      | zero =>
          simp only [Position.splitBytes?, Option.some.injEq, Prod.mk.injEq] at h
          obtain ⟨rfl, rfl⟩ := h
          exact ⟨rfl, rfl⟩
      | succ n => simp [Position.splitBytes?] at h
  | cons c s ih =>
      cases n with
      | zero =>
          simp only [Position.splitBytes?, Option.some.injEq, Prod.mk.injEq] at h
          obtain ⟨rfl, rfl⟩ := h
          exact ⟨rfl, rfl⟩
      | succ n =>
          rw [Position.splitBytes?] at h
          split at h
          · next hle =>
              obtain ⟨⟨front', back'⟩, hsplit, heq⟩ := Option.map_eq_some_iff.mp h
              obtain ⟨rfl, rfl⟩ := Prod.mk.inj heq
              obtain ⟨rfl, hlength⟩ := ih hsplit
              refine ⟨rfl, ?_⟩
              rw [byteLength_cons, hlength]
              omega
          · cases h

/-- A number of bytes splits a text exactly where so many bytes are whole characters. -/
theorem splitBytes?_eq_some_iff {n : Nat} {s front back : List Char} :
    Position.splitBytes? n s = some (front, back) ↔ s = front ++ back ∧ byteLength front = n := by
  constructor
  · exact eq_of_splitBytes?
  · rintro ⟨rfl, rfl⟩
    exact splitBytes?_append front back

theorem utf8EncodeChar_of_lt {c : Char} (h : c.toNat < 128) :
    String.utf8EncodeChar c = [UInt8.ofNat c.toNat] := by
  have hle : c.val.toNat ≤ 127 := Nat.le_of_lt_succ h
  rw [String.utf8EncodeChar, if_pos hle]
  rfl

/-- No byte of a character beyond ASCII is an ASCII character. -/
theorem le_of_mem_utf8EncodeChar {c : Char} (h : 128 ≤ c.toNat) {b : UInt8}
    (hb : b ∈ String.utf8EncodeChar c) : 128 ≤ b.toNat := by
  have hlt : ¬ c.val.toNat ≤ 127 := Nat.not_le_of_lt h
  rw [String.utf8EncodeChar, if_neg hlt] at hb
  split at hb
  · simp only [List.mem_cons, List.not_mem_nil, or_false] at hb
    rcases hb with rfl | rfl <;> rw [UInt8.toNat_ofNat'] <;> omega
  · split at hb
    · simp only [List.mem_cons, List.not_mem_nil, or_false] at hb
      rcases hb with rfl | rfl | rfl <;> rw [UInt8.toNat_ofNat'] <;> omega
    · simp only [List.mem_cons, List.not_mem_nil, or_false] at hb
      rcases hb with rfl | rfl | rfl | rfl <;> rw [UInt8.toNat_ofNat'] <;> omega

/-- The first byte that satisfies a condition stands where the first character does that satisfies
the same condition, if the condition is one on ASCII characters. -/
theorem findIdx_bytes (isByte : UInt8 → Bool) (isChar : Char → Bool)
    (hascii : ∀ c : Char, c.toNat < 128 → isByte (UInt8.ofNat c.toNat) = isChar c)
    (hbyte : ∀ b : UInt8, 128 ≤ b.toNat → isByte b = false)
    (hchar : ∀ c : Char, 128 ≤ c.toNat → isChar c = false) (s : List Char) :
    (Position.bytes s).findIdx isByte = byteLength (s.takeWhile fun c => !isChar c) := by
  induction s with
  | nil => rfl
  | cons c s ih =>
      have hbytes : Position.bytes (c :: s) = String.utf8EncodeChar c ++ Position.bytes s := rfl
      rw [hbytes, List.findIdx_append]
      by_cases hc : c.toNat < 128
      · rw [utf8EncodeChar_of_lt hc]
        cases hp : isChar c with
        | true => simp [List.findIdx_cons, hascii c hc, hp, byteLength]
        | false =>
            have hsize : c.utf8Size = 1 := by
              rw [← String.length_utf8EncodeChar, utf8EncodeChar_of_lt hc]
              rfl
            simp [List.findIdx_cons, hascii c hc, hp, hsize, ih, Nat.add_comm]
      · have hnone : (String.utf8EncodeChar c).findIdx isByte = c.utf8Size := by
          rw [← String.length_utf8EncodeChar]
          apply List.findIdx_eq_length_of_false
          intro b hb
          exact hbyte b (le_of_mem_utf8EncodeChar (Nat.le_of_not_lt hc) hb)
        rw [hnone, String.length_utf8EncodeChar, if_neg (Nat.lt_irrefl _), ih,
          List.takeWhile_cons_of_pos (by rw [hchar c (Nat.le_of_not_lt hc)]; rfl),
          byteLength_cons, Nat.add_comm]

theorem ofNat_beq_ofNat {c a : Char} (hc : c.toNat < 128) (ha : a.toNat < 128) :
    (UInt8.ofNat c.toNat == UInt8.ofNat a.toNat) = (c == a) := by
  rw [Bool.eq_iff_iff, beq_iff_eq, beq_iff_eq, ← UInt8.toNat_inj, UInt8.toNat_ofNat',
    UInt8.toNat_ofNat', Nat.mod_eq_of_lt (by omega), Nat.mod_eq_of_lt (by omega), Char.toNat_inj]

/-- Up to the first of two ASCII bytes is up to the first of the two characters. -/
theorem advanceToEither_eq {a b : Char} (ha : a.toNat < 128) (hb : b.toNat < 128) (p : Position) :
    p.advanceToEither (UInt8.ofNat a.toNat) (UInt8.ofNat b.toNat) =
      .ok (p.advanceWhile fun c => !(c == a || c == b)) := by
  have hbyte (x : UInt8) (hx : 128 ≤ x.toNat) {d : Char} (hd : d.toNat < 128) :
      (x == UInt8.ofNat d.toNat) = false := by
    rw [beq_eq_false_iff_ne, ne_eq, ← UInt8.toNat_inj, UInt8.toNat_ofNat']
    omega
  have hchar (c : Char) (hc : 128 ≤ c.toNat) {d : Char} (hd : d.toNat < 128) :
      (c == d) = false := by
    rw [beq_eq_false_iff_ne]
    rintro rfl
    omega
  have hfind := findIdx_bytes
    (fun x => x == UInt8.ofNat a.toNat || x == UInt8.ofNat b.toNat)
    (fun c => c == a || c == b)
    (fun c hc => by rw [ofNat_beq_ofNat hc ha, ofNat_beq_ofNat hc hb])
    (fun x hx => by rw [hbyte x hx ha, hbyte x hx hb]; rfl)
    (fun c hc => by rw [hchar c hc ha, hchar c hc hb]; rfl) p.remaining
  have hsplit := splitBytes?_append (p.remaining.takeWhile fun c => !(c == a || c == b))
    (p.remaining.dropWhile fun c => !(c == a || c == b))
  rw [List.takeWhile_append_dropWhile] at hsplit
  rw [Position.advanceToEither, hfind, Position.forwardBytes, hsplit]
  rfl

theorem lt_of_isHexDigit {c : Char} (h : Numeral.isHexDigit c = true) : c.toNat < 128 := by
  have hc : c.toNat = c.val.toNat := rfl
  simp only [Numeral.isHexDigit, Char.isDigit, Bool.or_eq_true, Bool.and_eq_true,
    decide_eq_true_eq, ge_iff_le, Char.le_def, UInt32.le_iff_toNat_le] at h
  have h9 : ('9' : Char).val.toNat = 57 := rfl
  have hf : ('f' : Char).val.toNat = 102 := rfl
  have hF : ('F' : Char).val.toNat = 70 := rfl
  omega

theorem toNat_ofUInt8 (b : UInt8) : (Char.ofUInt8 b).toNat = b.toNat := rfl

/-- A character is a hexadecimal digit exactly when its first byte is one. -/
theorem isHexByte_head (c : Char) (s : List Char) :
    ∃ b more, Position.bytes (c :: s) = b :: more ∧ isHexByte b = Numeral.isHexDigit c ∧
      (Numeral.isHexDigit c = true → more = Position.bytes s) := by
  have hbytes : Position.bytes (c :: s) = String.utf8EncodeChar c ++ Position.bytes s := rfl
  rw [hbytes]
  by_cases hc : c.toNat < 128
  · refine ⟨UInt8.ofNat c.toNat, Position.bytes s, by rw [utf8EncodeChar_of_lt hc]; rfl, ?_,
      fun _ => rfl⟩
    have hchar : Char.ofUInt8 (UInt8.ofNat c.toNat) = c := by
      apply Char.toNat_inj.mp
      rw [toNat_ofUInt8, UInt8.toNat_ofNat']
      omega
    rw [isHexByte, hchar]
  · have hfalse : Numeral.isHexDigit c = false := by
      rw [Bool.eq_false_iff]
      intro h
      exact hc (lt_of_isHexDigit h)
    obtain ⟨b, more, hmore⟩ := List.exists_cons_of_ne_nil (String.utf8EncodeChar_ne_nil (c := c))
    refine ⟨b, more ++ Position.bytes s, by rw [hmore]; rfl, ?_, ?_⟩
    · rw [hfalse, isHexByte, Bool.eq_false_iff]
      intro h
      have hb : 128 ≤ b.toNat :=
        le_of_mem_utf8EncodeChar (Nat.le_of_not_lt hc) (by rw [hmore]; exact List.mem_cons_self)
      have hlt := lt_of_isHexDigit h
      rw [toNat_ofUInt8] at hlt
      omega
    · intro h
      rw [hfalse] at h
      cases h

/-- The first two bytes of a text are hexadecimal digits exactly when its first two characters
are. -/
theorem hexBytes_iff (s : List Char) :
    (2 ≤ (Position.bytes s).length ∧ ((Position.bytes s).take 2).all isHexByte = true) ↔
      ∃ c d u, s = c :: d :: u ∧ [c, d].all Numeral.isHexDigit = true := by
  constructor
  · rintro ⟨hlength, hall⟩
    match s with
    | [] => exact absurd hlength (by decide)
    | c :: u =>
        obtain ⟨b, more, hbytes, hb, hmore⟩ := isHexByte_head c u
        rw [hbytes] at hlength hall
        simp only [List.take_succ_cons, List.all_cons, Bool.and_eq_true] at hall
        rw [hb] at hall
        rw [hmore hall.1] at hlength hall
        match u with
        | [] => exact absurd hlength (by simp [Position.bytes])
        | d :: v =>
            obtain ⟨b', more', hbytes', hb', -⟩ := isHexByte_head d v
            rw [hbytes'] at hall
            simp only [List.take_succ_cons, List.all_cons, Bool.and_eq_true] at hall
            rw [hb'] at hall
            exact ⟨c, d, v, rfl, by simp [hall.1, hall.2.1]⟩
  · rintro ⟨c, d, u, rfl, hall⟩
    simp only [List.all_cons, List.all_nil, Bool.and_true, Bool.and_eq_true] at hall
    obtain ⟨b, more, hbytes, hb, hmore⟩ := isHexByte_head c (d :: u)
    obtain ⟨b', more', hbytes', hb', -⟩ := isHexByte_head d u
    rw [hbytes, hmore hall.1, hbytes']
    constructor
    · simp
    · simp [hb, hb', hall.1, hall.2]

theorem byteLength_of_hex {s : List Char} (h : s.all Numeral.isHexDigit = true) :
    byteLength s = s.length := by
  induction s with
  | nil => rfl
  | cons c s ih =>
      obtain ⟨hc, hs⟩ := Bool.and_eq_true_iff.mp h
      have hsize : c.utf8Size = 1 := by
        rw [← String.length_utf8EncodeChar, utf8EncodeChar_of_lt (lt_of_isHexDigit hc)]
        rfl
      rw [byteLength_cons, hsize, ih hs, List.length_cons, Nat.add_comm]

theorem eq_of_fourHexDigits? {s u : List Char} {n : Nat} (h : fourHexDigits? s = some (n, u)) :
    ∃ digits, s = digits ++ u ∧ digits.length = 4 ∧ digits.all Numeral.isHexDigit = true ∧
      n = Numeral.value 16 digits := by
  unfold fourHexDigits? at h
  split at h
  · next a b c d v =>
      split at h
      · next hall =>
          cases h
          exact ⟨[a, b, c, d], rfl, rfl, hall, rfl⟩
      · cases h
  · cases h

/-- Four hexadecimal digits are exactly the first four bytes of a text, if these are such digits. -/
theorem hexValue?_eq (s : List Char) : hexValue? s = (fourHexDigits? s).map (·.1) := by
  cases hfour : fourHexDigits? s with
  | some q =>
      obtain ⟨digits, rfl, hlength, hall, hvalue⟩ := eq_of_fourHexDigits? hfour
      have hsplit := splitBytes?_append digits q.2
      rw [byteLength_of_hex hall, hlength] at hsplit
      simp only [hexValue?, hsplit, hall, if_true, hvalue, Option.map_some]
  | none =>
      cases hsplit : Position.splitBytes? 4 s with
      | none => simp [hexValue?, hsplit]
      | some q =>
          obtain ⟨rfl, hlength⟩ := eq_of_splitBytes? hsplit
          have hall : q.1.all Numeral.isHexDigit = false := by
            rw [Bool.eq_false_iff]
            intro hall
            rw [byteLength_of_hex hall] at hlength
            match hq : q.1, hlength with
            | [a, b, c, d], _ =>
                rw [hq] at hfour hall
                simp [fourHexDigits?, hall] at hfour
          simp [hexValue?, hsplit, hall]

end NamedCaptures.InPlace
