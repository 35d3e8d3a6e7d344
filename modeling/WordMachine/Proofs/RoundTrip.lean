import WordMachine.Encoding.Decode

/-!
# Decoding undoes encoding

Each decoder reads one character after the other and does not look ahead: from the octets of a character and
any octets behind them it takes this character and goes on with the rest. That is shown for one character of
each encoding, by the arithmetic of its octets, and whole texts follow by one induction (`decode_flatMap`).

With the marks of the encodings that have one this gives `decode_of_stores`: octets that store a text decode
to it.
-/

namespace WordMachine.Encoding

/-- A character is neither a surrogate nor beyond the last code point. -/
theorem toNat_scalar (c : Char) : c.toNat < 0xD800 ∨ 0xDFFF < c.toNat ∧ c.toNat < 0x110000 :=
  c.valid

/-- A decoder that takes one character off the octets of characters takes off all of them. -/
theorem decode_flatMap (decode : Nat → List UInt8 → Except Malformed (List Char))
    {octets : Char → List UInt8} (hnil : ∀ pos, decode pos [] = .ok []) {cs : List Char}
    (hchar : ∀ c ∈ cs, ∀ pos rest, ∃ pos',
      decode pos (octets c ++ rest) = (decode pos' rest).map (c :: ·))
    (pos : Nat) : decode pos (cs.flatMap octets) = .ok cs := by
  induction cs generalizing pos with
  | nil => exact hnil pos
  | cons c cs ih =>
    obtain ⟨pos', hc⟩ := hchar c (by simp) pos (cs.flatMap octets)
    rw [List.flatMap_cons, hc, ih fun c hc => hchar c (by simp [hc])]
    rfl

/-! ## UTF-8 -/

namespace Utf8

variable {pos start n low high more : Nat} {b lead : UInt8} {bs : List UInt8}

theorem toNat_continuation (n : Nat) : (continuation n).toNat = 0x80 + n % 64 := by
  rw [continuation, UInt8.toNat_ofNat']
  omega

theorem decodeFrom_lead {p : Pending} (hb : 0x80 ≤ b.toNat) (hp : Pending.ofLead? pos b = some p) :
    decodeFrom pos none (b :: bs) = decodeFrom (pos + 1) (some p) bs := by
  rw [decodeFrom]
  simp only [hp, if_neg (Nat.not_lt.mpr hb)]

/-- An octet in the middle of a sequence adds six bits. -/
theorem decodeFrom_more (hlow : low ≤ 0x80 + n % 64) (hhigh : 0x80 + n % 64 ≤ high) :
    decodeFrom pos (some ⟨start, lead, n / 64, low, high, more + 1⟩) (continuation n :: bs) =
      decodeFrom (pos + 1) (some ⟨start, lead, n, 0x80, 0xBF, more⟩) bs := by
  have hvalue : n / 64 * 64 + (0x80 + n % 64 - 0x80) = n := by omega
  rw [decodeFrom]
  simp only [toNat_continuation, hvalue, if_pos (And.intro hlow hhigh)]

/-- The last octet of a sequence completes its character. -/
theorem decodeFrom_last (n : Nat) :
    decodeFrom pos (some ⟨start, lead, n / 64, 0x80, 0xBF, 0⟩) (continuation n :: bs) =
      (decodeFrom (pos + 1) none bs).map (Char.ofNat n :: ·) := by
  have hvalue : n / 64 * 64 + (0x80 + n % 64 - 0x80) = n := by omega
  have hrange : 0x80 ≤ 0x80 + n % 64 ∧ 0x80 + n % 64 ≤ 0xBF := by omega
  rw [decodeFrom]
  simp only [toNat_continuation, hvalue, if_pos hrange]

theorem ofLead?_two (hn : 0x80 ≤ n) (hn' : n < 0x800) (hb : b.toNat = 0xC0 + n / 64) :
    Pending.ofLead? pos b = some ⟨pos, b, n / 64, 0x80, 0xBF, 0⟩ := by
  unfold Pending.ofLead?
  simp only [hb]
  rw [if_pos (by omega), Nat.add_sub_cancel_left]

/-- The lead of three octets leaves the second one a range that it lies in: no sequence could be shorter,
and no character is a surrogate. -/
theorem ofLead?_three (pos : Nat) (hn : 0x800 ≤ n) (hn' : n < 0x10000)
    (hs : n < 0xD800 ∨ 0xDFFF < n) (hb : b.toNat = 0xE0 + n / 4096) :
    ∃ low high, Pending.ofLead? pos b = some ⟨pos, b, n / 4096, low, high, 1⟩ ∧
      low ≤ 0x80 + n / 64 % 64 ∧ 0x80 + n / 64 % 64 ≤ high := by
  unfold Pending.ofLead?
  simp only [hb]
  rw [if_neg (by omega)]
  by_cases hfirst : n / 4096 = 0
  · rw [if_pos (by omega), hfirst]
    exact ⟨0xA0, 0xBF, rfl, by omega, by omega⟩
  · rw [if_neg (by omega)]
    by_cases hsurrogate : n / 4096 = 0xD
    · rw [if_pos (by omega), hsurrogate]
      exact ⟨0x80, 0x9F, rfl, by omega, by omega⟩
    · rw [if_neg (by omega), if_pos (by omega), Nat.add_sub_cancel_left]
      exact ⟨0x80, 0xBF, rfl, by omega, by omega⟩

/-- The lead of four octets leaves the second one a range that it lies in: no sequence could be shorter,
and no character is beyond the last one. -/
theorem ofLead?_four (pos : Nat) (hn : 0x10000 ≤ n) (hn' : n < 0x110000)
    (hb : b.toNat = 0xF0 + n / 262144) :
    ∃ low high, Pending.ofLead? pos b = some ⟨pos, b, n / 262144, low, high, 2⟩ ∧
      low ≤ 0x80 + n / 4096 % 64 ∧ 0x80 + n / 4096 % 64 ≤ high := by
  unfold Pending.ofLead?
  simp only [hb]
  rw [if_neg (by omega), if_neg (by omega), if_neg (by omega), if_neg (by omega)]
  by_cases hfirst : n / 262144 = 0
  · rw [if_pos (by omega), hfirst]
    exact ⟨0x90, 0xBF, rfl, by omega, by omega⟩
  · rw [if_neg (by omega)]
    by_cases hlast : n / 262144 = 4
    · rw [if_neg (by omega), if_pos (by omega), hlast]
      exact ⟨0x80, 0x8F, rfl, by omega, by omega⟩
    · rw [if_pos (by omega), Nat.add_sub_cancel_left]
      exact ⟨0x80, 0xBF, rfl, by omega, by omega⟩

theorem decodeFrom_two (hn : 0x80 ≤ n) (hn' : n < 0x800) :
    decodeFrom pos none (UInt8.ofNat (0xC0 + n / 64) :: continuation n :: bs) =
      (decodeFrom (pos + 2) none bs).map (Char.ofNat n :: ·) := by
  have hb : (UInt8.ofNat (0xC0 + n / 64)).toNat = 0xC0 + n / 64 :=
    UInt8.toNat_ofNat_of_lt' (show 0xC0 + n / 64 < 256 by omega)
  rw [decodeFrom_lead (by omega) (ofLead?_two hn hn' hb), decodeFrom_last]

theorem decodeFrom_three (hn : 0x800 ≤ n) (hn' : n < 0x10000) (hs : n < 0xD800 ∨ 0xDFFF < n) :
    decodeFrom pos none
        (UInt8.ofNat (0xE0 + n / 4096) :: continuation (n / 64) :: continuation n :: bs) =
      (decodeFrom (pos + 3) none bs).map (Char.ofNat n :: ·) := by
  have hb : (UInt8.ofNat (0xE0 + n / 4096)).toNat = 0xE0 + n / 4096 :=
    UInt8.toNat_ofNat_of_lt' (show 0xE0 + n / 4096 < 256 by omega)
  have hdiv : n / 4096 = n / 64 / 64 := by omega
  obtain ⟨low, high, hlead, hlow, hhigh⟩ := ofLead?_three pos hn hn' hs hb
  rw [decodeFrom_lead (by omega) hlead, hdiv, decodeFrom_more hlow hhigh, decodeFrom_last]

theorem decodeFrom_four (hn : 0x10000 ≤ n) (hn' : n < 0x110000) :
    decodeFrom pos none
        (UInt8.ofNat (0xF0 + n / 262144) :: continuation (n / 4096) :: continuation (n / 64) ::
          continuation n :: bs) =
      (decodeFrom (pos + 4) none bs).map (Char.ofNat n :: ·) := by
  have hb : (UInt8.ofNat (0xF0 + n / 262144)).toNat = 0xF0 + n / 262144 :=
    UInt8.toNat_ofNat_of_lt' (show 0xF0 + n / 262144 < 256 by omega)
  have hdiv : n / 4096 = n / 64 / 64 := by omega
  have hdiv' : n / 262144 = n / 4096 / 64 := by omega
  obtain ⟨low, high, hlead, hlow, hhigh⟩ := ofLead?_four pos hn hn' hb
  rw [decodeFrom_lead (by omega) hlead, hdiv', decodeFrom_more hlow hhigh, hdiv,
    decodeFrom_more (by omega) (by omega), decodeFrom_last]

theorem decodeFrom_encodeChar (c : Char) (pos : Nat) (rest : List UInt8) :
    ∃ pos', decodeFrom pos none (encodeChar c ++ rest) =
      (decodeFrom pos' none rest).map (c :: ·) := by
  have hscalar := toNat_scalar c
  unfold encodeChar
  dsimp only
  by_cases hone : c.toNat < 0x80
  · have hb : (UInt8.ofNat c.toNat).toNat = c.toNat :=
      UInt8.toNat_ofNat_of_lt' (show c.toNat < 256 by omega)
    refine ⟨pos + 1, ?_⟩
    rw [if_pos hone, List.singleton_append, decodeFrom]
    simp only [hb, if_pos hone, Char.ofNat_toNat]
  · rw [if_neg hone]
    by_cases htwo : c.toNat < 0x800
    · refine ⟨pos + 2, ?_⟩
      rw [if_pos htwo, List.cons_append, List.singleton_append,
        decodeFrom_two (by omega) htwo, Char.ofNat_toNat]
    · rw [if_neg htwo]
      by_cases hthree : c.toNat < 0x10000
      · refine ⟨pos + 3, ?_⟩
        rw [if_pos hthree, List.cons_append, List.cons_append, List.singleton_append,
          decodeFrom_three (by omega) hthree (by omega), Char.ofNat_toNat]
      · refine ⟨pos + 4, ?_⟩
        rw [if_neg hthree, List.cons_append, List.cons_append, List.cons_append,
          List.singleton_append, decodeFrom_four (by omega) (by omega), Char.ofNat_toNat]

theorem decode_encode (cs : List Char) : decode (encode cs) = .ok cs :=
  decode_flatMap (fun pos => decodeFrom pos none) (fun _ => rfl)
    (fun c _ => decodeFrom_encodeChar c) 0

end Utf8

/-! ## UTF-16 -/

namespace Utf16

variable {order : Order} {pos u v : Nat} {rest : List UInt8}

theorem octets_eq (order : Order) {n : Nat} (hn : n < 0x10000) :
    ∃ a b, order.octets n = [a, b] ∧ order.unit a b = n := by
  cases order with
  | little =>
    refine ⟨_, _, rfl, ?_⟩
    rw [Order.unit, UInt8.toNat_ofNat', UInt8.toNat_ofNat']
    omega
  | big =>
    refine ⟨_, _, rfl, ?_⟩
    rw [Order.unit, UInt8.toNat_ofNat', UInt8.toNat_ofNat']
    omega

theorem decodeFrom_single (hu : u < 0x10000) (hlow : isLow u = false) (hhigh : isHigh u = false) :
    decodeFrom order pos (order.octets u ++ rest) =
      (decodeFrom order (pos + 2) rest).map (Char.ofNat u :: ·) := by
  obtain ⟨a, b, hoctets, hunit⟩ := octets_eq order hu
  rw [hoctets, List.cons_append, List.singleton_append, decodeFrom.eq_def]
  simp only [hunit, hlow, hhigh, Bool.false_eq_true, if_false]

theorem decodeFrom_pair (hu : isHigh u = true) (hv : isLow v = true) :
    decodeFrom order pos (order.octets u ++ (order.octets v ++ rest)) =
      (decodeFrom order (pos + 4) rest).map (Char.ofNat (paired u v) :: ·) := by
  have hrange : 0xD800 ≤ u ∧ u ≤ 0xDBFF := by simpa [isHigh] using hu
  have hrange' : 0xDC00 ≤ v ∧ v ≤ 0xDFFF := by simpa [isLow] using hv
  have hnot : isLow u = false := by simp [isLow]; omega
  obtain ⟨a, b, hoctets, hunit⟩ := octets_eq order (n := u) (by omega)
  obtain ⟨c, d, hoctets', hunit'⟩ := octets_eq order (n := v) (by omega)
  rw [hoctets, hoctets', List.cons_append, List.singleton_append, List.cons_append,
    List.singleton_append, decodeFrom]
  simp only [hunit, hunit', hnot, hu, hv, Bool.false_eq_true, if_false, if_true]

theorem decodeFrom_encodeChar (order : Order) (c : Char) (pos : Nat) (rest : List UInt8) :
    ∃ pos', decodeFrom order pos (encodeChar order c ++ rest) =
      (decodeFrom order pos' rest).map (c :: ·) := by
  have hscalar := toNat_scalar c
  unfold encodeChar
  dsimp only
  by_cases hone : c.toNat < 0x10000
  · have hlow : isLow c.toNat = false := by simp [isLow]; omega
    have hhigh : isHigh c.toNat = false := by simp [isHigh]; omega
    refine ⟨pos + 2, ?_⟩
    rw [if_pos hone, decodeFrom_single hone hlow hhigh, Char.ofNat_toNat]
  · have hhigh : isHigh (0xD800 + (c.toNat - 0x10000) / 0x400) = true := by
      simp [isHigh]
      omega
    have hlow : isLow (0xDC00 + (c.toNat - 0x10000) % 0x400) = true := by
      simp [isLow]
      omega
    have hpaired : paired (0xD800 + (c.toNat - 0x10000) / 0x400)
        (0xDC00 + (c.toNat - 0x10000) % 0x400) = c.toNat := by
      unfold paired
      omega
    refine ⟨pos + 4, ?_⟩
    rw [if_neg hone, List.append_assoc, decodeFrom_pair hhigh hlow, hpaired, Char.ofNat_toNat]

theorem decodeFrom_encode (order : Order) (pos : Nat) (cs : List Char) :
    decodeFrom order pos (encode order cs) = .ok cs :=
  decode_flatMap (decodeFrom order) (fun _ => by rw [decodeFrom])
    (fun c _ => decodeFrom_encodeChar order c) pos

theorem order?_mark (order : Order) (rest : List UInt8) :
    order? (mark order ++ rest) = some order := by
  cases order <;> rfl

end Utf16

/-! ## One octet for each character -/

theorem ofNat_octet {c : Char} (h : c.toNat < 0x100) :
    Char.ofNat (UInt8.ofNat c.toNat).toNat = c := by
  rw [UInt8.toNat_ofNat_of_lt' h, Char.ofNat_toNat]

theorem encodeBelow?_eq_some {bound : Nat} {cs : List Char} {octets : List UInt8}
    (h : encodeBelow? bound cs = some octets) :
    (∀ c ∈ cs, c.toNat < bound) ∧ octets = cs.map fun c => UInt8.ofNat c.toNat := by
  unfold encodeBelow? at h
  split at h
  case isTrue hall =>
    cases h
    exact ⟨by simpa using hall, rfl⟩
  case isFalse => cases h

theorem decodeAscii_of_encodeBelow? {cs : List Char} {octets : List UInt8}
    (h : encodeBelow? 0x80 cs = some octets) : decodeAscii 0 octets = .ok cs := by
  obtain ⟨hbelow, rfl⟩ := encodeBelow?_eq_some h
  rw [List.map_eq_flatMap]
  refine decode_flatMap decodeAscii (fun _ => rfl) (fun c hc pos rest => ?_) 0
  have hc : c.toNat < 0x80 := hbelow c hc
  have hwide : c.toNat < 0x100 := by omega
  have hb : (UInt8.ofNat c.toNat).toNat < 0x80 := by rwa [UInt8.toNat_ofNat_of_lt' hwide]
  refine ⟨pos + 1, ?_⟩
  show decodeAscii pos (UInt8.ofNat c.toNat :: rest) = _
  rw [decodeAscii, if_pos hb, ofNat_octet hwide]

/-! ## All encodings -/

/-- The octets store the text in an encoding, behind a mark where the encoding has one. The mark may be in
either order. -/
def Stores (e : Encoding) (cs : List Char) (octets : List UInt8) : Prop :=
  e.encode? cs = some octets ∨
    e = utf16 ∧ octets = Utf16.mark .big ++ Utf16.encode .big cs

theorem decodeSigned_encode (cs : List Char) :
    decodeSigned (Utf8.mark ++ Utf8.encode cs) = .ok cs := by
  unfold decodeSigned
  split
  case isTrue hprefix =>
    -- the octets are a beginning of the mark, so the text is empty
    have hempty : Utf8.encode cs = [] := by
      have hlength := (List.isPrefixOf_iff_prefix.mp hprefix).length_le
      rw [List.length_append] at hlength
      exact List.length_eq_zero_iff.mp (by omega)
    have hcs := Utf8.decode_encode cs
    rw [hempty] at hcs
    exact hcs
  case isFalse =>
    rw [if_pos (by simp), List.drop_left, Utf8.decode_encode]

theorem decodeMarked_encode (order : Utf16.Order) (cs : List Char) :
    decodeMarked (Utf16.mark order ++ Utf16.encode order cs) = .ok cs := by
  have hdrop : (Utf16.mark order ++ Utf16.encode order cs).drop 2 = Utf16.encode order cs := by
    cases order <;> rfl
  unfold decodeMarked
  rw [Utf16.order?_mark, hdrop]
  simp only [Utf16.decodeFrom_encode]
  rfl

/-- **Decoding undoes encoding**, for every encoding and every text that can be stored in it. -/
theorem decode_of_stores {e : Encoding} {cs : List Char} {octets : List UInt8}
    (h : e.Stores cs octets) : e.decode octets = .ok cs := by
  obtain h | ⟨rfl, rfl⟩ := h
  · cases e with
    | utf8 =>
      cases h
      simp only [decode, Utf8.decode_encode]
      rfl
    | utf8Signed =>
      cases h
      simp only [decode, decodeSigned_encode]
      rfl
    | ascii =>
      simp only [decode, decodeAscii_of_encodeBelow? h]
      rfl
    | latin1 =>
      obtain ⟨hbelow, rfl⟩ := encodeBelow?_eq_some h
      rw [decode, List.map_map]
      refine congrArg Except.ok ((List.map_congr_left fun c hc => ?_).trans (List.map_id _))
      exact ofNat_octet (hbelow c hc)
    | utf16 =>
      cases h
      exact decodeMarked_encode .little cs
    | utf16le =>
      cases h
      simp only [decode, Utf16.decode, Utf16.decodeFrom_encode]
      rfl
    | utf16be =>
      cases h
      simp only [decode, Utf16.decode, Utf16.decodeFrom_encode]
      rfl
  · exact decodeMarked_encode .big cs

end WordMachine.Encoding
